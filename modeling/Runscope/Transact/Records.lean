import Mathlib.Algebra.Order.BigOperators.Group.List
import Mathlib.Algebra.Order.Ring.Nat
import Runscope.Transact.Logic

/-!
What the sessions of a world have on record: the writes they have committed
and the calls they have made. Nothing is ever struck from it, and the state
changes only where something is added.
-/

namespace Transact

/-! ### Sums over the members of a list -/

section Sums

variable {α : Type} {f : α → ℕ} {l : List α}

theorem sum_map_set {i : ℕ} {a : α} (h : l[i]? = some a) (b : α) :
    ((l.set i b).map f).sum + f a = (l.map f).sum + f b := by
  induction l generalizing i with
  | nil => simp at h
  | cons x l ih =>
      cases i with
      | zero =>
          obtain rfl := Option.some.inj h
          simp only [List.set_cons_zero, List.map_cons, List.sum_cons]
          omega
      | succ i =>
          have hrest := ih h
          simp only [List.set_cons_succ, List.map_cons, List.sum_cons]
          omega

theorem le_sum_map {i : ℕ} {a : α} (h : l[i]? = some a) : f a ≤ (l.map f).sum :=
  List.le_sum_of_mem (List.mem_map_of_mem (List.mem_of_getElem? h))

/-- Two members together exceed no sum. -/
theorem add_le_sum_map {i j : ℕ} {a b : α} (hi : l[i]? = some a) (hj : l[j]? = some b)
    (hij : i ≠ j) : f a + f b ≤ (l.map f).sum := by
  induction l generalizing i j with
  | nil => simp at hi
  | cons x l ih =>
      rw [List.map_cons, List.sum_cons]
      cases i with
      | zero =>
          obtain ⟨j, rfl⟩ := Nat.exists_eq_succ_of_ne_zero (Ne.symm hij)
          obtain rfl := Option.some.inj hi
          have hb : f b ≤ (l.map f).sum := le_sum_map (i := j) hj
          omega
      | succ i =>
          cases j with
          | zero =>
              obtain rfl := Option.some.inj hj
              have := le_sum_map (f := f) (l := l) hi
              omega
          | succ j =>
              have := ih hi hj (by omega)
              omega

end Sums

variable {K S Row Write Call Input Exc Point α : Type}

/-- A statement commits, makes a call, or leaves the state and the record as
they were. -/
theorem Prog.exec_cases {σ : Storage S Row Write Call Input Exc} {free : Row → Bool} {i : Input}
    {p p' : Prog S Row Write Call Input Exc Point α} {t t' : Session Row Write Call Input} {s s' : S}
    (h : p.exec σ free i t s = some (p', t', s')) :
    (∃ pt next, p = .step pt .commit next ∧ t' = t.finish ∧ s' = t.view σ s) ∨
    (∃ pt c next, p = .step pt (.call c) next ∧ t' = t.record c ∧ s' = σ.perform c i s) ∨
    (t'.committed = t.committed ∧ t'.called = t.called ∧ s' = s) := by
  cases p with
  | ret a => simp [Prog.exec] at h
  | raise e => simp [Prog.exec] at h
  | step pt st next =>
      cases st with
      | select =>
          simp only [Prog.exec, Option.some.injEq, Prod.mk.injEq] at h
          obtain ⟨-, rfl, rfl⟩ := h
          exact .inr (.inr ⟨rfl, rfl, rfl⟩)
      | lock skip rows =>
          simp only [Prog.exec, Option.ite_none_right_eq_some, Option.some.injEq,
            Prod.mk.injEq] at h
          obtain ⟨-, -, rfl, rfl⟩ := h
          exact .inr (.inr ⟨rfl, rfl, rfl⟩)
      | flush writes =>
          simp only [Prog.exec, Option.ite_none_right_eq_some] at h
          obtain ⟨-, h⟩ := h
          cases herr : σ.firstError (t.view σ s) (t.stamped σ i writes) with
          | some e =>
              simp only [herr, Option.some.injEq, Prod.mk.injEq] at h
              obtain ⟨-, rfl, rfl⟩ := h
              exact .inr (.inr ⟨rfl, rfl, rfl⟩)
          | none =>
              simp only [herr, Option.some.injEq, Prod.mk.injEq] at h
              obtain ⟨-, rfl, rfl⟩ := h
              exact .inr (.inr ⟨rfl, rfl, rfl⟩)
      | commit =>
          simp only [Prog.exec, Option.some.injEq, Prod.mk.injEq] at h
          obtain ⟨-, rfl, rfl⟩ := h
          exact .inl ⟨pt, next, rfl, rfl, rfl⟩
      | rollback =>
          simp only [Prog.exec, Option.some.injEq, Prod.mk.injEq] at h
          obtain ⟨-, rfl, rfl⟩ := h
          exact .inr (.inr ⟨rfl, rfl, rfl⟩)
      | call c =>
          simp only [Prog.exec, Option.some.injEq, Prod.mk.injEq] at h
          obtain ⟨-, rfl, rfl⟩ := h
          exact .inr (.inl ⟨pt, c, next, rfl, rfl, rfl⟩)

/-- What was flushed bears the stamp of the transaction's first statement. -/
def Session.Stamped (σ : Storage S Row Write Call Input Exc) (t : Session Row Write Call Input) :
    Prop :=
  ∀ x ∈ t.writes, ∃ i y, t.began = some i ∧ x = σ.stamp i y

section Stamped

variable {σ : Storage S Row Write Call Input Exc} {t : Session Row Write Call Input}

theorem Session.Stamped.of_nil (h : t.writes = []) : t.Stamped σ := by
  intro x hx
  rw [h] at hx
  cases hx

theorem Session.Stamped.begin (h : t.Stamped σ) (i : Input) : (t.begin i).Stamped σ := by
  intro x hx
  obtain ⟨j, y, hbegan, rfl⟩ := h x hx
  exact ⟨j, y, by simp [hbegan], rfl⟩

theorem Session.Stamped.flush (h : t.Stamped σ) (i : Input) (ws : List Write) :
    ((t.begin i).write σ (t.stamped σ i ws)).Stamped σ := by
  intro x hx
  rcases List.mem_append.mp hx with hx | hx
  · exact h.begin i x hx
  · obtain ⟨y, -, rfl⟩ := List.mem_map.mp hx
    exact ⟨t.began.getD i, y, rfl, rfl⟩

theorem Prog.exec_stamped {free : Row → Bool} {i : Input}
    {p p' : Prog S Row Write Call Input Exc Point α} {t' : Session Row Write Call Input} {s s' : S}
    (h : p.exec σ free i t s = some (p', t', s')) (ht : t.Stamped σ) : t'.Stamped σ := by
  cases p with
  | ret a => simp [Prog.exec] at h
  | raise e => simp [Prog.exec] at h
  | step pt st next =>
      cases st with
      | select =>
          simp only [Prog.exec, Option.some.injEq, Prod.mk.injEq] at h
          obtain ⟨-, rfl, -⟩ := h
          exact ht.begin i
      | lock skip rows =>
          simp only [Prog.exec, Option.ite_none_right_eq_some, Option.some.injEq,
            Prod.mk.injEq] at h
          obtain ⟨-, -, rfl, -⟩ := h
          exact ht.begin i
      | flush writes =>
          simp only [Prog.exec, Option.ite_none_right_eq_some] at h
          obtain ⟨-, h⟩ := h
          split at h
          all_goals
            simp only [Option.some.injEq, Prod.mk.injEq] at h
            obtain ⟨-, rfl, -⟩ := h
          · exact .of_nil rfl
          · exact ht.flush i writes
      | commit | rollback =>
          simp only [Prog.exec, Option.some.injEq, Prod.mk.injEq] at h
          obtain ⟨-, rfl, -⟩ := h
          exact .of_nil rfl
      | call c =>
          simp only [Prog.exec, Option.some.injEq, Prod.mk.injEq] at h
          obtain ⟨-, rfl, -⟩ := h
          exact ht

end Stamped

variable {sys : System K S Row Write Call Input Exc Point}
  {w w' : World K S Row Write Call Input Exc Point} {a : Action K Input}

/-- The record of each session. -/
def World.records (w : World K S Row Write Call Input Exc Point) : List (List Write × List Call) :=
  w.procs.map fun q => (q.session.committed, q.session.called)

theorem World.records_getElem? {pid : ℕ} {p : Proc K S Row Write Call Input Exc Point}
    (hp : w.procs[pid]? = some p) :
    w.records[pid]? = some (p.session.committed, p.session.called) := by
  simp [World.records, hp]

/-- What each session has committed. -/
def World.committed (w : World K S Row Write Call Input Exc Point) : List (List Write) :=
  w.procs.map fun q => q.session.committed

theorem World.committed_getElem? {pid : ℕ} {p : Proc K S Row Write Call Input Exc Point}
    (hp : w.procs[pid]? = some p) : w.committed[pid]? = some p.session.committed := by
  simp [World.committed, hp]

variable [DecidableEq Row]

/-- What a step adds to the record. -/
theorem World.records_step (h : w.step sys a = some w') :
    (∃ pid i p pt next, a = .run pid i ∧ w.procs[pid]? = some p ∧ p.prog = .step pt .commit next ∧
      w'.state = p.session.view sys.storage w.state ∧
      w'.records =
        w.records.set pid (p.session.committed ++ p.session.writes, p.session.called)) ∨
    (∃ pid i p pt c next, a = .run pid i ∧ w.procs[pid]? = some p ∧
      p.prog = .step pt (.call c) next ∧ w'.state = sys.storage.perform c i w.state ∧
      w'.records = w.records.set pid (p.session.committed, p.session.called ++ [c])) ∨
    (w'.state = w.state ∧ (w'.records = w.records ∨ w'.records = w.records ++ [([], [])])) := by
  have hset {pid : ℕ} {p p' : Proc K S Row Write Call Input Exc Point} {s : S}
      (hp : w.procs[pid]? = some p) (hcommitted : p'.session.committed = p.session.committed)
      (hcalled : p'.session.called = p.session.called) :
      World.records ⟨s, w.procs.set pid p'⟩ = w.records := by
    refine List.ext_getElem? fun j => ?_
    simp only [World.records, List.getElem?_map, List.getElem?_set]
    by_cases hj : pid = j
    · subst hj
      obtain ⟨hlt, rfl⟩ := List.getElem?_eq_some_iff.mp hp
      simp [hlt, hcommitted, hcalled]
    · simp [hj]
  rcases World.step_cases h with ⟨k, rfl, -, rfl⟩ |
    ⟨pid, i, p, prog, t, s, rfl, hp, hexec, rfl⟩ | ⟨pid, p, prog, rfl, hp, -, rfl⟩ |
    ⟨pid, p, rfl, hp, rfl⟩
  · exact .inr (.inr ⟨rfl, .inr (by simp [World.records])⟩)
  · rcases Prog.exec_cases hexec with ⟨pt, next, hprog, rfl, rfl⟩ |
      ⟨pt, c, next, hprog, rfl, rfl⟩ | ⟨hcommitted, hcalled, rfl⟩
    · exact .inl ⟨pid, i, p, pt, next, rfl, hp, hprog, rfl, by simp [World.records, List.map_set]⟩
    · exact .inr (.inl ⟨pid, i, p, pt, c, next, rfl, hp, hprog, rfl,
        by simp [World.records, List.map_set]⟩)
    · exact .inr (.inr ⟨rfl, .inl (hset hp hcommitted hcalled)⟩)
  · exact .inr (.inr ⟨rfl, .inl (hset hp rfl rfl)⟩)
  · exact .inr (.inr ⟨rfl, .inl (hset hp rfl rfl)⟩)

/-- A step commits what its session has flushed, or nothing. -/
theorem World.commits_step (h : w.step sys a = some w') :
    (∃ pid i p pt next, a = .run pid i ∧ w.procs[pid]? = some p ∧ p.prog = .step pt .commit next ∧
      w'.state = p.session.view sys.storage w.state ∧
      w'.committed = w.committed.set pid (p.session.committed ++ p.session.writes)) ∨
    ((w'.state = w.state ∨ ∃ c i, w'.state = sys.storage.perform c i w.state) ∧
      (w'.committed = w.committed ∨ w'.committed = w.committed ++ [[]])) := by
  have hfst (v : World K S Row Write Call Input Exc Point) :
      v.committed = v.records.map Prod.fst := by
    simp [World.committed, World.records]
  rcases World.records_step h with ⟨pid, i, p, pt, next, ha, hp, hprog, hstate, hrecords⟩ |
    ⟨pid, i, p, pt, c, next, -, hp, -, hstate, hrecords⟩ | ⟨hstate, hrecords | hrecords⟩
  · refine .inl ⟨pid, i, p, pt, next, ha, hp, hprog, hstate, ?_⟩
    rw [hfst, hfst, hrecords, List.map_set]
  · refine .inr ⟨.inr ⟨c, i, hstate⟩, .inl ?_⟩
    obtain ⟨_, hget⟩ := List.getElem?_eq_some_iff.mp (World.committed_getElem? hp)
    rw [hfst w', hrecords, List.map_set, ← hfst w]
    show w.committed.set pid p.session.committed = w.committed
    rw [← hget, List.set_getElem_self]
  · exact .inr ⟨.inl hstate, .inl (by rw [hfst, hfst, hrecords])⟩
  · exact .inr ⟨.inl hstate, .inr (by rw [hfst, hfst, hrecords, List.map_append]; rfl)⟩

/-- A session keeps its number and its kind. -/
theorem World.kind_step {pid : ℕ} {p : Proc K S Row Write Call Input Exc Point}
    (h : w.step sys a = some w') (hp : w.procs[pid]? = some p) :
    ∃ p', w'.procs[pid]? = some p' ∧ p'.kind = p.kind := by
  have hset {j : ℕ} {q q' : Proc K S Row Write Call Input Exc Point} (hq : w.procs[j]? = some q)
      (hkind : q'.kind = q.kind) : ∃ p', (w.procs.set j q')[pid]? = some p' ∧ p'.kind = p.kind := by
    rw [List.getElem?_set]
    by_cases hj : j = pid
    · subst hj
      obtain rfl := Option.some.inj (hq.symm.trans hp)
      obtain ⟨hlt, -⟩ := List.getElem?_eq_some_iff.mp hp
      exact ⟨q', by simp [hlt], hkind⟩
    · exact ⟨p, by simp [hj, hp], rfl⟩
  rcases World.step_cases h with ⟨k, rfl, -, rfl⟩ |
    ⟨j, i, q, prog, t, s, rfl, hq, -, rfl⟩ | ⟨j, q, prog, rfl, hq, -, rfl⟩ | ⟨j, q, rfl, hq, rfl⟩
  · obtain ⟨hlt, -⟩ := List.getElem?_eq_some_iff.mp hp
    exact ⟨p, by simpa [List.getElem?_append, hlt] using hp, rfl⟩
  · exact hset hq rfl
  · exact hset hq rfl
  · exact hset hq rfl

/-- What a session has committed stays on its record. -/
theorem World.committed_step {pid : ℕ} {p : Proc K S Row Write Call Input Exc Point}
    (h : w.step sys a = some w') (hp : w.procs[pid]? = some p) :
    ∃ p', w'.procs[pid]? = some p' ∧ p'.kind = p.kind ∧
      p.session.committed <+: p'.session.committed := by
  obtain ⟨p', hp', hkind⟩ := World.kind_step h hp
  refine ⟨p', hp', hkind, ?_⟩
  have hget := World.committed_getElem? hp
  have hget' := World.committed_getElem? hp'
  have hlt := (List.getElem?_eq_some_iff.mp hget).1
  rcases World.commits_step h with ⟨j, i, q, pt, next, -, hq, -, -, hcommitted⟩ |
    ⟨-, hcommitted | hcommitted⟩
  · rw [hcommitted, List.getElem?_set] at hget'
    split at hget'
    · next heq =>
      subst heq
      obtain rfl := Option.some.inj (hq.symm.trans hp)
      rw [if_pos hlt, Option.some.injEq] at hget'
      exact hget' ▸ List.prefix_append _ _
    · rw [hget, Option.some.injEq] at hget'
      exact hget' ▸ List.prefix_refl _
  · rw [hcommitted, hget, Option.some.injEq] at hget'
    exact hget' ▸ List.prefix_refl _
  · rw [hcommitted, List.getElem?_append_left hlt, hget, Option.some.injEq] at hget'
    exact hget' ▸ List.prefix_refl _

/-- What a session has committed it had committed before, or this step commits
it; or the session begins. -/
theorem World.committed_cases {j : ℕ} {p : Proc K S Row Write Call Input Exc Point}
    (h : w.step sys a = some w') (hp : w'.procs[j]? = some p) :
    (∃ q, w.procs[j]? = some q ∧ p.kind = q.kind ∧
      (p.session.committed = q.session.committed ∨ ∃ i pt next, a = .run j i ∧
        q.prog = .step pt .commit next ∧ w'.state = q.session.view sys.storage w.state ∧
        p.session.committed = q.session.committed ++ q.session.writes)) ∨
    p.session.committed = [] := by
  have hget' := World.committed_getElem? hp
  cases hq : w.procs[j]? with
  | none =>
      have hnone : w.committed[j]? = none := by simp [World.committed, hq]
      rcases World.commits_step h with ⟨_, _, _, _, _, _, _, _, _, hcommitted⟩ |
        ⟨_, hcommitted | hcommitted⟩
      · rw [hcommitted, List.getElem?_set] at hget'
        have hle := List.getElem?_eq_none_iff.mp hnone
        split at hget' <;> simp_all
      · rw [hcommitted, hnone] at hget'
        cases hget'
      · rw [hcommitted, List.getElem?_append, if_neg (by simpa using hnone)] at hget'
        exact .inr (List.mem_singleton.mp (List.mem_of_getElem? hget'))
  | some q =>
      obtain ⟨p', hp', hkind⟩ := World.kind_step h hq
      obtain rfl := Option.some.inj (hp'.symm.trans hp)
      refine .inl ⟨q, rfl, hkind, ?_⟩
      have hget := World.committed_getElem? hq
      have hlt := (List.getElem?_eq_some_iff.mp hget).1
      rcases World.commits_step h with ⟨k, i, q', pt, next, ha, hq', hprog, hstate, hcommitted⟩ |
        ⟨_, hcommitted | hcommitted⟩
      · by_cases hk : k = j
        · subst hk
          obtain rfl := Option.some.inj (hq'.symm.trans hq)
          rw [hcommitted, List.getElem?_set_self hlt, Option.some.injEq] at hget'
          exact .inr ⟨i, pt, next, ha, hprog, hstate, hget'.symm⟩
        · rw [hcommitted, List.getElem?_set_ne hk, hget, Option.some.injEq] at hget'
          exact .inl hget'.symm
      · rw [hcommitted, hget, Option.some.injEq] at hget'
        exact .inl hget'.symm
      · rw [hcommitted, List.getElem?_append_left hlt, hget, Option.some.injEq] at hget'
        exact .inl hget'.symm

theorem Reach.kind {allowed : World K S Row Write Call Input Exc Point → Action K Input →
      World K S Row Write Call Input Exc Point → Prop} {pid : ℕ}
    {p : Proc K S Row Write Call Input Exc Point} (h : Reach sys allowed w w')
    (hp : w.procs[pid]? = some p) : ∃ p', w'.procs[pid]? = some p' ∧ p'.kind = p.kind := by
  induction h with
  | refl => exact ⟨p, hp, rfl⟩
  | step _ hstep _ ih =>
      obtain ⟨q, hq, hkind⟩ := ih
      obtain ⟨q', hq', hkind'⟩ := World.kind_step hstep hq
      exact ⟨q', hq', hkind'.trans hkind⟩

theorem World.stamped_step (h : w.step sys a = some w')
    (hw : ∀ p ∈ w.procs, p.session.Stamped sys.storage) :
    ∀ p ∈ w'.procs, p.session.Stamped sys.storage := by
  intro q hq
  rcases World.step_cases h with ⟨k, rfl, -, rfl⟩ |
    ⟨pid, i, p, prog, t, s, rfl, hp, hexec, rfl⟩ | ⟨pid, p, prog, rfl, hp, -, rfl⟩ |
    ⟨pid, p, rfl, hp, rfl⟩
  · rcases List.mem_append.mp hq with hq | hq
    · exact hw q hq
    · obtain rfl := List.mem_singleton.mp hq
      exact .of_nil rfl
  · rcases List.mem_or_eq_of_mem_set hq with hq | rfl
    · exact hw q hq
    · exact Prog.exec_stamped hexec (hw p (List.mem_of_getElem? hp))
  · rcases List.mem_or_eq_of_mem_set hq with hq | rfl
    · exact hw q hq
    · exact .of_nil rfl
  · rcases List.mem_or_eq_of_mem_set hq with hq | rfl
    · exact hw q hq
    · exact .of_nil rfl

/-- In every world that is reached, whatever the schedule. -/
theorem Reach.stamped {allowed : World K S Row Write Call Input Exc Point → Action K Input →
      World K S Row Write Call Input Exc Point → Prop} {s₀ : S}
    (h : Reach sys allowed (.initial s₀) w) : ∀ p ∈ w.procs, p.session.Stamped sys.storage := by
  induction h with
  | refl => exact fun p hp => by cases hp
  | step _ hstep _ ih => exact World.stamped_step hstep ih

end Transact
