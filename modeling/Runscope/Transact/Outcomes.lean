import Runscope.Transact.Logic

/-!
What ended sessions leave behind.

A session that is sound for a postcondition has it when it ends. If no step of
another session takes it away again, it then holds of every ended session in
every world to come.
-/

namespace Transact

variable {K S Row Write Call Input Exc Point : Type}
  {sys : System K S Row Write Call Input Exc Point} {I : S → Prop}
  {C : K → Contract S Row Write Call Input Point}
  {Post : K → Except Exc Unit → Session Row Write Call Input → S → Prop}
  {w w' : World K S Row Write Call Input Exc Point} {a : Action K Input}

/-- Each session, from where it stands, ends as sessions of its kind do. -/
def World.Ends (sys : System K S Row Write Call Input Exc Point) (I : S → Prop)
    (C : K → Contract S Row Write Call Input Point)
    (Post : K → Except Exc Unit → Session Row Write Call Input → S → Prop)
    (w : World K S Row Write Call Input Exc Point) : Prop :=
  ∀ (pid : ℕ) (p : Proc K S Row Write Call Input Exc Point), w.procs[pid]? = some p →
    Sound sys.storage I (C p.kind) (Post p.kind) p.prog p.session w.state

theorem World.Ends.ret (h : w.Ends sys I C Post) {pid : ℕ}
    {p : Proc K S Row Write Call Input Exc Point} (hp : w.procs[pid]? = some p)
    (hret : p.prog = .ret ()) : Post p.kind (.ok ()) p.session w.state := by
  have hsound := h pid p hp
  rwa [hret] at hsound

/-- The session that takes the step. -/
theorem World.Ends.set (h : w.Ends sys I C Post) (hok : w.Ok sys I C) {pid : ℕ}
    {p p' : Proc K S Row Write Call Input Exc Point} (hp : w.procs[pid]? = some p) {s : S} (hs : I s)
    (hsound : Sound sys.storage I (C p'.kind) (Post p'.kind) p'.prog p'.session s)
    (hframe : ∀ r, r ∉ p.session.locks → sys.storage.same r w.state s)
    (hrel : s = w.state ∨ w.Relied C pid s)
    (hkept : ∀ (q : Proc K S Row Write Call Input Exc Point) outcome,
      Post q.kind outcome q.session w.state → Post q.kind outcome q.session s) :
    World.Ends sys I C Post ⟨s, w.procs.set pid p'⟩ := by
  intro j q hq
  rw [List.getElem?_set] at hq
  split at hq
  · obtain ⟨-, rfl⟩ : _ ∧ p' = q := by simpa using hq
    exact hsound
  · next hj =>
    have hsame : ∀ r ∈ q.session.locks, sys.storage.same r w.state s :=
      fun r hr => hframe r fun hmem => hok.disjoint pid j p q hp hq hj r hmem hr
    obtain ⟨hacc, -⟩ := hok.other (Ne.symm hj) hq hs hsame hrel
    have hother := h j q hq
    cases hprog : q.prog with
    | ret a =>
        rw [hprog] at hother
        exact hkept q _ hother
    | raise e =>
        rw [hprog] at hother
        exact hkept q _ hother
    | step pt st next =>
        rw [hprog] at hother
        rcases hrel with rfl | hrel
        · exact hother
        · refine Sound.stable rfl ⟨hs, hrel j q pt hq (Ne.symm hj) ?_, hsame, hok.owned j q hq, hacc⟩
            hother
          rw [hprog]
          rfl

variable [DecidableEq Row]

theorem World.Ends.step (h : w.Ends sys I C Post) (hok : w.Ok sys I C)
    (hcode : ∀ k, sys.admits k w.state →
      Sound sys.storage I (C k) (Post k) (sys.code k) .fresh w.state)
    (hlost : ∀ k t s, Post k (.error sys.storage.lost) t s)
    (hkept : ∀ (q : Proc K S Row Write Call Input Exc Point) outcome,
      Post q.kind outcome q.session w.state → Post q.kind outcome q.session w'.state)
    (hrelied : ∀ pid i, a = .run pid i → w'.state = w.state ∨ w.Relied C pid w'.state)
    (hinv : I w'.state) (hstep : w.step sys a = some w') : w'.Ends sys I C Post := by
  have hsame (r : Row) : sys.storage.same r w.state w.state := (sys.storage.same_equiv r).refl _
  rcases World.step_cases hstep with ⟨k, rfl, hadmits, rfl⟩ |
    ⟨pid, i, p, prog, t, s, rfl, hp, hexec, rfl⟩ | ⟨pid, p, prog, rfl, hp, hfault, rfl⟩ |
    ⟨pid, p, rfl, hp, rfl⟩
  · intro j q hq
    rw [List.getElem?_append] at hq
    split at hq
    · exact h j q hq
    · rw [List.getElem?_singleton, Option.ite_none_right_eq_some] at hq
      obtain rfl := Option.some.inj hq.2
      exact hcode k hadmits
  · obtain ⟨pt, hpt⟩ := Prog.point?_of_exec hexec
    obtain ⟨-, -, -, -, hsound, -, hframe⟩ :=
      (h pid p hp).exec hpt hok.inv (hok.owned pid p hp) (hok.accepted pid p hp) hexec
    exact h.set hok hp hinv hsound hframe (hrelied pid i rfl) hkept
  · exact h.set hok hp hinv
      ((h pid p hp).fault hok.inv (hok.owned pid p hp) (hok.accepted pid p hp) hfault)
      (fun r _ => hsame r) (.inl rfl) hkept
  · exact h.set hok hp hinv (hlost _ _ _) (fun r _ => hsame r) (.inl rfl) hkept

/-- A session that starts is the last one. -/
theorem World.getElem?_spawn {k : K} (hstep : w.step sys (.spawn k) = some w') :
    w'.procs[w.procs.length]? = some ⟨k, sys.code k, .fresh⟩ := by
  simp only [World.step, Option.ite_none_right_eq_some, Option.some.injEq] at hstep
  rw [← hstep.2]
  exact List.getElem?_concat_length

/-- A session was there before the step, or the step has started it. -/
theorem World.kind_before (hstep : w.step sys a = some w') {pid : ℕ}
    {p : Proc K S Row Write Call Input Exc Point} (hp : w'.procs[pid]? = some p) :
    (∃ q, w.procs[pid]? = some q ∧ q.kind = p.kind) ∨
      a = .spawn p.kind ∧ pid = w.procs.length := by
  have hset {j : ℕ} {q q' : Proc K S Row Write Call Input Exc Point} (hq : w.procs[j]? = some q)
      (hget : (w.procs.set j q')[pid]? = some p) (hkind : q'.kind = q.kind) :
      ∃ q, w.procs[pid]? = some q ∧ q.kind = p.kind := by
    rw [List.getElem?_set] at hget
    split at hget
    · next hj =>
      subst hj
      obtain ⟨-, rfl⟩ : _ ∧ q' = p := by simpa using hget
      exact ⟨q, hq, hkind.symm⟩
    · exact ⟨p, hget, rfl⟩
  rcases World.step_cases hstep with ⟨k, rfl, -, rfl⟩ |
    ⟨j, i, q, prog, t, s, rfl, hq, -, rfl⟩ | ⟨j, q, prog, rfl, hq, -, rfl⟩ | ⟨j, q, rfl, hq, rfl⟩
  · rw [List.getElem?_append] at hp
    split at hp
    · exact .inl ⟨p, hp, rfl⟩
    · next hlt =>
      rw [List.getElem?_singleton, Option.ite_none_right_eq_some] at hp
      obtain ⟨hlength, hp⟩ := hp
      obtain rfl := Option.some.inj hp
      exact .inr ⟨rfl, by omega⟩
  · exact .inl (hset hq hp rfl)
  · exact .inl (hset hq hp rfl)
  · exact .inl (hset hq hp rfl)

/-- A session that still runs after a step was running before and is not the
one that was lost, or has just been started. -/
theorem World.running_step (hstep : w.step sys a = some w') {pid : ℕ}
    {p' : Proc K S Row Write Call Input Exc Point} (hp' : w'.procs[pid]? = some p')
    (hrunning : p'.prog.point?.isSome) :
    (a ≠ .kill pid ∧ ∃ p, w.procs[pid]? = some p ∧ p.kind = p'.kind ∧ p.prog.point?.isSome) ∨
      ∃ k, a = .spawn k ∧ p'.kind = k ∧ pid = w.procs.length := by
  have hset {j : ℕ} {q q' : Proc K S Row Write Call Input Exc Point} (hq : w.procs[j]? = some q)
      (hget : (w.procs.set j q')[pid]? = some p') (hkind : q'.kind = q.kind)
      (hbefore : q'.prog.point?.isSome → q.prog.point?.isSome) :
      ∃ p, w.procs[pid]? = some p ∧ p.kind = p'.kind ∧ p.prog.point?.isSome := by
    rw [List.getElem?_set] at hget
    split at hget
    · next hj =>
      subst hj
      obtain ⟨-, rfl⟩ : _ ∧ q' = p' := by simpa using hget
      exact ⟨q, hq, hkind.symm, hbefore hrunning⟩
    · exact ⟨p', hget, rfl, hrunning⟩
  rcases World.step_cases hstep with ⟨k, rfl, -, rfl⟩ |
    ⟨j, i, q, prog, t, s, rfl, hq, hexec, rfl⟩ | ⟨j, q, prog, rfl, hq, hfault, rfl⟩ |
    ⟨j, q, rfl, hq, rfl⟩
  · rw [List.getElem?_append] at hp'
    split at hp'
    · exact .inl ⟨by simp, p', hp', rfl, hrunning⟩
    · next hlt =>
      rw [List.getElem?_singleton, Option.ite_none_right_eq_some] at hp'
      obtain ⟨hlength, hp'⟩ := hp'
      obtain rfl := Option.some.inj hp'
      exact .inr ⟨k, rfl, rfl, by omega⟩
  · refine .inl ⟨by simp, hset hq hp' rfl fun _ => ?_⟩
    obtain ⟨pt, hpt⟩ := Prog.point?_of_exec hexec
    rw [hpt]
    rfl
  · refine .inl ⟨by simp, hset hq hp' rfl fun _ => ?_⟩
    cases hprog : q.prog with
    | ret a => simp [hprog, Prog.fault] at hfault
    | raise e => simp [hprog, Prog.fault] at hfault
    | step pt st next => rfl
  · refine .inl ⟨?_, hset hq hp' rfl fun h => ?_⟩
    · rintro ⟨⟩
      rw [List.getElem?_set_self (List.getElem?_eq_some_iff.mp hq).1] at hp'
      obtain rfl := Option.some.inj hp'
      cases hrunning
    · cases h

/-- A session that is over commits nothing more. -/
theorem World.over_step (hstep : w.step sys a = some w') {pid : ℕ}
    {p : Proc K S Row Write Call Input Exc Point} (hp : w.procs[pid]? = some p)
    (hover : p.prog.point? = none) :
    ∃ p', w'.procs[pid]? = some p' ∧ p'.prog.point? = none ∧
      p'.session.committed = p.session.committed := by
  obtain ⟨hlt, -⟩ := List.getElem?_eq_some_iff.mp hp
  rcases World.step_cases hstep with ⟨k, rfl, -, rfl⟩ |
    ⟨j, i, q, prog, t, s, rfl, hq, hexec, rfl⟩ | ⟨j, q, prog, rfl, hq, hfault, rfl⟩ |
    ⟨j, q, rfl, hq, rfl⟩
  · exact ⟨p, by simpa [List.getElem?_append, hlt] using hp, hover, rfl⟩
  · refine ⟨p, ?_, hover, rfl⟩
    rw [List.getElem?_set_ne, hp]
    rintro rfl
    obtain rfl := Option.some.inj (hq.symm.trans hp)
    obtain ⟨pt, hpt⟩ := Prog.point?_of_exec hexec
    rw [hover] at hpt
    cases hpt
  · refine ⟨p, ?_, hover, rfl⟩
    rw [List.getElem?_set_ne, hp]
    rintro rfl
    obtain rfl := Option.some.inj (hq.symm.trans hp)
    cases hprog : q.prog with
    | ret a => simp [hprog, Prog.fault] at hfault
    | raise e => simp [hprog, Prog.fault] at hfault
    | step pt st next => simp [hprog, Prog.point?] at hover
  · by_cases hj : j = pid
    · subst hj
      obtain rfl := Option.some.inj (hq.symm.trans hp)
      exact ⟨_, List.getElem?_set_self hlt, rfl, rfl⟩
    · exact ⟨p, by rw [List.getElem?_set_ne hj, hp], hover, rfl⟩

theorem Reach.over {allowed : World K S Row Write Call Input Exc Point → Action K Input →
    World K S Row Write Call Input Exc Point → Prop} (h : Reach sys allowed w w') {pid : ℕ}
    {p : Proc K S Row Write Call Input Exc Point} (hp : w.procs[pid]? = some p)
    (hover : p.prog.point? = none) :
    ∃ p', w'.procs[pid]? = some p' ∧ p'.prog.point? = none ∧
      p'.session.committed = p.session.committed := by
  induction h with
  | refl => exact ⟨p, hp, hover, rfl⟩
  | step _ hstep _ ih =>
      obtain ⟨p₁, hp₁, hover₁, hsame⟩ := ih
      obtain ⟨p₂, hp₂, hover₂, hsame'⟩ := World.over_step hstep hp₁ hover₁
      exact ⟨p₂, hp₂, hover₂, hsame'.trans hsame⟩

end Transact
