import Runscope.Transact.Pool

/-!
Rely and guarantee for interleaved sessions.

`Sound` is the weakest precondition of a session program among others. Before
each of its statements the other sessions may have moved the shared state by
any number of steps; what is known of the state at the statement is what the
invariant, the rely condition and the session's own locks say
(`Interferes`). In return every change the program makes to the shared state
must keep the invariant and meet the guarantee.

`Reach.ok` closes the circle: when each step a session guarantees is a
step the others rely on, the invariant holds in every reachable world, and
every session keeps its guarantee at each of its steps.
-/

namespace Transact

variable {K S Row Write Call Input Exc Point α β : Type}

/-- What a session assumes of the others and promises to them. `need` is what
must hold of the session and of the committed state whenever the given
statement runs. -/
structure Contract (S Row Write Call Input Point : Type) where
  rely : Point → Session Row Write Call Input → S → S → Prop
  guar : Point → Session Row Write Call Input → S → S → Prop
  need : Stmt S Row Write Call → Session Row Write Call Input → S → Prop
  rely_refl : ∀ {pt t s}, rely pt t s s
  rely_trans : ∀ {pt t s₁ s₂ s₃}, rely pt t s₁ s₂ → rely pt t s₂ s₃ → rely pt t s₁ s₃

section Soundness

variable (σ : Storage S Row Write Call Input Exc) (I : S → Prop)
  (C : Contract S Row Write Call Input Point)

/-- The other sessions may have moved the state from `s` to `s'` while this
one, at `t`, was about to run its statement at `pt`. -/
structure Interferes (pt : Point) (t : Session Row Write Call Input) (s s' : S) : Prop where
  inv : I s'
  rely : C.rely pt t s s'
  locked : ∀ r ∈ t.locks, σ.same r s s'
  owned : ∀ x ∈ t.writes, ∀ r ∈ σ.rowsOf x, r ∈ t.locks
  accepted : σ.firstError s' t.writes = none

/-- The statement, run at `t` in a state others have left, keeps the
contract, and whatever its reply, `K` holds of the reply, the session and the
state then. -/
def Clause (K : Except Exc (Reply S Row Input) → Session Row Write Call Input → S → Prop)
    (pt : Point) (st : Stmt S Row Write Call) (t : Session Row Write Call Input) (s : S) : Prop :=
  ∀ s', Interferes σ I C pt t s s' → C.need st t s' ∧
    match st with
    | .select => K (.error σ.lost) t.close s' ∧
        ∀ i, K (.ok ⟨t.view σ s', fun _ => true, i⟩) (t.begin i) s'
    | .lock skip rows => K (.error σ.lost) t.close s' ∧ ∀ i (free : Row → Bool),
        let choice := if skip then free else fun _ => true
        K (.ok ⟨t.view σ s', choice, i⟩) ((t.begin i).lock (rows (t.view σ s') choice)) s'
    | .flush writes => K (.error σ.lost) t.close s' ∧ ∀ i,
        let ws := t.stamped σ i writes
        (∀ e, σ.firstError (t.view σ s') ws = some e → K (.error e) t.close s') ∧
        (σ.firstError (t.view σ s') ws = none →
          K (.ok ⟨σ.applyAll (t.view σ s') ws, fun _ => true, i⟩) ((t.begin i).write σ ws) s')
    | .commit => K (.error σ.lost) t.close s' ∧ C.guar pt t s' (t.view σ s') ∧
        I (t.view σ s') ∧ ∀ i, K (.ok ⟨t.view σ s', fun _ => true, i⟩) t.finish (t.view σ s')
    | .rollback => K (.error σ.lost) t.close s' ∧ ∀ i, K (.ok ⟨s', fun _ => true, i⟩) t.close s'
    | .call c => ∀ i, C.guar pt t s' (σ.perform c i s') ∧ I (σ.perform c i s') ∧
        K (.ok ⟨t.view σ (σ.perform c i s'), fun _ => true, i⟩) (t.record c) (σ.perform c i s')

/-- Run from session `t` in state `s`, the program keeps its contract and
ends with an outcome satisfying `Q`. -/
def Sound (Q : Except Exc α → Session Row Write Call Input → S → Prop) :
    Prog S Row Write Call Input Exc Point α → Session Row Write Call Input → S → Prop
  | .ret a => Q (.ok a)
  | .raise e => Q (.error e)
  | .step pt st next => Clause σ I C (fun reply => Sound Q (next reply)) pt st

variable {σ I C}

theorem Clause.mono
    {K K' : Except Exc (Reply S Row Input) → Session Row Write Call Input → S → Prop}
    (hK : ∀ x t s, K x t s → K' x t s) {pt : Point} {st : Stmt S Row Write Call}
    {t : Session Row Write Call Input} {s : S} (h : Clause σ I C K pt st t s) :
    Clause σ I C K' pt st t s := by
  intro s' hs'
  obtain ⟨hneed, hst⟩ := h s' hs'
  refine ⟨hneed, ?_⟩
  cases st with
  | select => exact ⟨hK _ _ _ hst.1, fun i => hK _ _ _ (hst.2 i)⟩
  | lock skip rows => exact ⟨hK _ _ _ hst.1, fun i free => hK _ _ _ (hst.2 i free)⟩
  | flush writes =>
      exact ⟨hK _ _ _ hst.1, fun i =>
        ⟨fun e he => hK _ _ _ ((hst.2 i).1 e he), fun hok => hK _ _ _ ((hst.2 i).2 hok)⟩⟩
  | commit => exact ⟨hK _ _ _ hst.1, hst.2.1, hst.2.2.1, fun i => hK _ _ _ (hst.2.2.2 i)⟩
  | rollback => exact ⟨hK _ _ _ hst.1, fun i => hK _ _ _ (hst.2 i)⟩
  | call c => exact fun i => ⟨(hst i).1, (hst i).2.1, hK _ _ _ (hst i).2.2⟩

theorem Sound.mono {Q Q' : Except Exc α → Session Row Write Call Input → S → Prop}
    (hQ : ∀ x t s, Q x t s → Q' x t s) {p : Prog S Row Write Call Input Exc Point α}
    {t : Session Row Write Call Input} {s : S} (h : Sound σ I C Q p t s) : Sound σ I C Q' p t s := by
  induction p generalizing t s with
  | ret a => exact hQ _ _ _ h
  | raise e => exact hQ _ _ _ h
  | step pt st next ih => exact Clause.mono (fun x _ _ hx => ih x hx) h

/-- The continuation starts wherever the first program ends. -/
theorem Sound.andThen {Q : Except Exc β → Session Row Write Call Input → S → Prop}
    {p : Prog S Row Write Call Input Exc Point α}
    {k : Except Exc α → Prog S Row Write Call Input Exc Point β}
    {t : Session Row Write Call Input} {s : S}
    (h : Sound σ I C (fun x t s => Sound σ I C Q (k x) t s) p t s) :
    Sound σ I C Q (p.andThen k) t s := by
  induction p generalizing t s with
  | ret a => exact h
  | raise e => exact h
  | step pt st next ih => exact Clause.mono (fun x _ _ hx => ih x hx) h

/-- Sequencing: what the first program raises, the whole raises. -/
theorem Sound.bind {Q : Except Exc β → Session Row Write Call Input → S → Prop}
    {p : Prog S Row Write Call Input Exc Point α}
    {f : α → Prog S Row Write Call Input Exc Point β} {t : Session Row Write Call Input} {s : S}
    (h : Sound σ I C (fun x t s =>
      match x with
      | .ok a => Sound σ I C Q (f a) t s
      | .error e => Q (.error e) t s) p t s) :
    Sound σ I C Q (p.bind f) t s :=
  Sound.andThen (h.mono fun x _ _ hx => by cases x <;> exact hx)

/-- The handler starts wherever the body raises. -/
theorem Sound.tryCatch {Q : Except Exc α → Session Row Write Call Input → S → Prop}
    {p : Prog S Row Write Call Input Exc Point α}
    {handler : Exc → Prog S Row Write Call Input Exc Point α}
    {t : Session Row Write Call Input} {s : S}
    (h : Sound σ I C (fun x t s =>
      match x with
      | .ok a => Q (.ok a) t s
      | .error e => Sound σ I C Q (handler e) t s) p t s) :
    Sound σ I C Q (p.tryCatch handler) t s :=
  Sound.andThen (h.mono fun x _ _ hx => by cases x <;> exact hx)

/-- What a session has committed stays committed, whatever comes next. -/
theorem Sound.grows {Q : Except Exc α → Session Row Write Call Input → S → Prop}
    {p : Prog S Row Write Call Input Exc Point α} {t₀ t : Session Row Write Call Input} {s : S}
    (ht : t₀.committed <+: t.committed) (h : Sound σ I C Q p t s) :
    Sound σ I C (fun x t' s' => Q x t' s' ∧ t₀.committed <+: t'.committed) p t s := by
  induction p generalizing t s with
  | ret a => exact ⟨h, ht⟩
  | raise e => exact ⟨h, ht⟩
  | step pt st next ih =>
      intro s' hs'
      obtain ⟨hneed, hst⟩ := h s' hs'
      refine ⟨hneed, ?_⟩
      cases st with
      | select => exact ⟨ih _ ht hst.1, fun i => ih _ ht (hst.2 i)⟩
      | lock skip rows => exact ⟨ih _ ht hst.1, fun i free => ih _ ht (hst.2 i free)⟩
      | flush writes =>
          exact ⟨ih _ ht hst.1, fun i =>
            ⟨fun e he => ih _ ht ((hst.2 i).1 e he), fun hok => ih _ ht ((hst.2 i).2 hok)⟩⟩
      | commit =>
          exact ⟨ih _ ht hst.1, hst.2.1, hst.2.2.1,
            fun i => ih _ (ht.trans (List.prefix_append _ _)) (hst.2.2.2 i)⟩
      | rollback => exact ⟨ih _ ht hst.1, fun i => ih _ ht (hst.2 i)⟩
      | call c => exact fun i => ⟨(hst i).1, (hst i).2.1, ih _ ht (hst i).2.2⟩

/-- A statement is sound if its clause holds of the reshaped reply. -/
theorem Sound.stmt {Q : Except Exc α → Session Row Write Call Input → S → Prop} {pt : Point}
    {st : Stmt S Row Write Call} {f : Reply S Row Input → α} {t : Session Row Write Call Input}
    {s : S} (h : Clause σ I C (fun reply => Q (reply.map f)) pt st t s) :
    Sound σ I C Q (.stmt pt st f) t s :=
  Clause.mono (fun x _ _ hx => by cases x <;> exact hx) h

/-- Interference accumulates. -/
theorem Interferes.trans {pt : Point} {t : Session Row Write Call Input} {s₁ s₂ s₃ : S}
    (h₁ : Interferes σ I C pt t s₁ s₂) (h₂ : Interferes σ I C pt t s₂ s₃) :
    Interferes σ I C pt t s₁ s₃ where
  inv := h₂.inv
  rely := C.rely_trans h₁.rely h₂.rely
  locked r hr := (σ.same_equiv r).trans (h₁.locked r hr) (h₂.locked r hr)
  owned := h₂.owned
  accepted := h₂.accepted

/-- The others cannot make a sound program unsound. -/
theorem Sound.stable {Q : Except Exc α → Session Row Write Call Input → S → Prop}
    {p : Prog S Row Write Call Input Exc Point α} {pt : Point} (hpt : p.point? = some pt)
    {t : Session Row Write Call Input} {s s' : S} (hs : Interferes σ I C pt t s s')
    (h : Sound σ I C Q p t s) : Sound σ I C Q p t s' := by
  cases p with
  | ret a => simp at hpt
  | raise e => simp at hpt
  | step pt' st next =>
      simp only [Prog.point?_step, Option.some.injEq] at hpt
      subst hpt
      exact fun s'' hs'' => h s'' (hs.trans hs'')

/-- An ended program is sound for the trivial postcondition in every state. -/
theorem Sound.ended {p : Prog S Row Write Call Input Exc Point α} (hp : p.point? = none)
    (t : Session Row Write Call Input) (s : S) : Sound σ I C (fun _ _ _ => True) p t s := by
  cases p with
  | ret a => exact trivial
  | raise e => exact trivial
  | step pt st next => simp at hp

/-- Nothing happened. -/
theorem Interferes.refl {pt : Point} {t : Session Row Write Call Input} {s : S} (hI : I s)
    (hown : ∀ x ∈ t.writes, ∀ r ∈ σ.rowsOf x, r ∈ t.locks)
    (hacc : σ.firstError s t.writes = none) : Interferes σ I C pt t s s where
  inv := hI
  rely := C.rely_refl
  locked r _ := (σ.same_equiv r).refl s
  owned := hown
  accepted := hacc

/-- One enabled statement of a sound program: the invariant stays, locks are
taken only where free, the writes stay owned and accepted, the program stays
sound, and the state moves as guaranteed, on owned rows only. -/
theorem Sound.exec {Q : Except Exc α → Session Row Write Call Input → S → Prop}
    {free : Row → Bool} {i : Input} {pt : Point}
    {p p' : Prog S Row Write Call Input Exc Point α} (hpt : p.point? = some pt)
    {t t' : Session Row Write Call Input} {s s' : S} (h : Sound σ I C Q p t s)
    (hI : I s) (hown : ∀ x ∈ t.writes, ∀ r ∈ σ.rowsOf x, r ∈ t.locks)
    (hacc : σ.firstError s t.writes = none) (hexec : p.exec σ free i t s = some (p', t', s')) :
    I s' ∧ (∀ r ∈ t'.locks, r ∈ t.locks ∨ free r = true) ∧
      (∀ x ∈ t'.writes, ∀ r ∈ σ.rowsOf x, r ∈ t'.locks) ∧ σ.firstError s' t'.writes = none ∧
      Sound σ I C Q p' t' s' ∧ (s' = s ∨ C.guar pt t s s') ∧
      ∀ r, r ∉ t.locks → σ.same r s s' := by
  have hrefl (r : Row) : σ.same r s s := (σ.same_equiv r).refl s
  cases p with
  | ret a => simp at hpt
  | raise e => simp at hpt
  | step pt' st next =>
      simp only [Prog.point?_step, Option.some.injEq] at hpt
      subst hpt
      obtain ⟨-, hst⟩ := h s (.refl hI hown hacc)
      cases st with
      | select =>
          simp only [Prog.exec, Option.some.injEq, Prod.mk.injEq] at hexec
          obtain ⟨rfl, rfl, rfl⟩ := hexec
          exact ⟨hI, fun r hr => .inl hr, hown, hacc, hst.2 i, .inl rfl, fun r _ => hrefl r⟩
      | lock skip rows =>
          simp only [Prog.exec, Option.ite_none_right_eq_some, Option.some.injEq,
            Prod.mk.injEq] at hexec
          obtain ⟨hfree, rfl, rfl, rfl⟩ := hexec
          refine ⟨hI, fun r hr => ?_, fun x hx r hr => ?_, hacc, hst.2 i free, .inl rfl,
            fun r _ => hrefl r⟩
          · rcases List.mem_append.mp hr with hr | hr
            · exact .inr (List.all_eq_true.mp hfree r hr)
            · exact .inl hr
          · exact List.mem_append_right _ (hown x hx r hr)
      | flush writes =>
          simp only [Prog.exec, Option.ite_none_right_eq_some] at hexec
          obtain ⟨hfree, hexec⟩ := hexec
          cases herr : σ.firstError (t.view σ s) (t.stamped σ i writes) with
          | some e =>
              simp only [herr, Option.some.injEq, Prod.mk.injEq] at hexec
              obtain ⟨rfl, rfl, rfl⟩ := hexec
              exact ⟨hI, by simp, by simp, by simp, (hst.2 i).1 e herr, .inl rfl,
                fun r _ => hrefl r⟩
          | none =>
              simp only [herr, Option.some.injEq, Prod.mk.injEq] at hexec
              obtain ⟨rfl, rfl, rfl⟩ := hexec
              refine ⟨hI, fun r hr => ?_, fun x hx r hr => ?_, ?_, (hst.2 i).2 herr, .inl rfl,
                fun r _ => hrefl r⟩
              · rcases List.mem_append.mp hr with hr | hr
                · exact .inr (List.all_eq_true.mp hfree r hr)
                · exact .inl hr
              · rcases List.mem_append.mp hx with hx | hx
                · exact List.mem_append_right _ (hown x hx r hr)
                · exact List.mem_append_left _ (List.mem_flatMap.mpr ⟨x, hx, hr⟩)
              · exact σ.firstError_append_eq_none.mpr ⟨hacc, herr⟩
      | commit =>
          simp only [Prog.exec, Option.some.injEq, Prod.mk.injEq] at hexec
          obtain ⟨rfl, rfl, rfl⟩ := hexec
          refine ⟨hst.2.2.1, by simp, by simp, by simp, hst.2.2.2 i, .inr hst.2.1, fun r hr => ?_⟩
          exact σ.same_applyAll (fun x hx hmem => hr (hown x hx r hmem)) s
      | rollback =>
          simp only [Prog.exec, Option.some.injEq, Prod.mk.injEq] at hexec
          obtain ⟨rfl, rfl, rfl⟩ := hexec
          exact ⟨hI, by simp, by simp, by simp, hst.2 i, .inl rfl, fun r _ => hrefl r⟩
      | call c =>
          simp only [Prog.exec, Option.some.injEq, Prod.mk.injEq] at hexec
          obtain ⟨rfl, rfl, rfl⟩ := hexec
          have hsame (r : Row) : σ.same r s (σ.perform c i s) := σ.same_perform r c i s
          refine ⟨(hst i).2.1, fun r hr => .inl hr, hown, ?_, (hst i).2.2, .inr (hst i).1,
            fun r _ => hsame r⟩
          rw [Session.record_writes, ← σ.firstError_congr hown fun r _ => hsame r]
          exact hacc

/-- After a fault the program goes on, without its transaction. -/
theorem Sound.fault {Q : Except Exc α → Session Row Write Call Input → S → Prop}
    {p p' : Prog S Row Write Call Input Exc Point α}
    {t : Session Row Write Call Input} {s : S} (h : Sound σ I C Q p t s)
    (hI : I s) (hown : ∀ x ∈ t.writes, ∀ r ∈ σ.rowsOf x, r ∈ t.locks)
    (hacc : σ.firstError s t.writes = none) (hp : p.fault σ = some p') :
    Sound σ I C Q p' t.close s := by
  cases p with
  | ret a => simp [Prog.fault] at hp
  | raise e => simp [Prog.fault] at hp
  | step pt st next =>
      have hst := (h s (.refl hI hown hacc)).2
      cases st with
      | call c => simp [Prog.fault] at hp
      | select | lock | flush | commit | rollback =>
          simp only [Prog.fault, Option.some.injEq] at hp
          subst hp
          exact hst.1

/-- Where nothing is needed, and every step guarantees and keeps what it has
to, every program is sound. -/
theorem Sound.of_forall (hneed : ∀ st t s, C.need st t s)
    (hcommit : ∀ pt t s, I s → C.guar pt t s (t.view σ s) ∧ I (t.view σ s))
    (hcall : ∀ pt t s c i, I s → C.guar pt t s (σ.perform c i s) ∧ I (σ.perform c i s))
    (p : Prog S Row Write Call Input Exc Point α) (t : Session Row Write Call Input) (s : S) :
    Sound σ I C (fun _ _ _ => True) p t s := by
  induction p generalizing t s with
  | ret a => exact trivial
  | raise e => exact trivial
  | step pt st next ih =>
      refine fun s' hs' => ⟨hneed _ _ _, ?_⟩
      cases st with
      | select => exact ⟨ih _ _ _, fun i => ih _ _ _⟩
      | lock skip rows => exact ⟨ih _ _ _, fun i free => ih _ _ _⟩
      | flush writes => exact ⟨ih _ _ _, fun i => ⟨fun e _ => ih _ _ _, fun _ => ih _ _ _⟩⟩
      | commit =>
          obtain ⟨hguar, hI⟩ := hcommit pt t s' hs'.inv
          exact ⟨ih _ _ _, hguar, hI, fun i => ih _ _ _⟩
      | rollback => exact ⟨ih _ _ _, fun i => ih _ _ _⟩
      | call c => exact fun i => ⟨(hcall pt t s' c i hs'.inv).1, (hcall pt t s' c i hs'.inv).2, ih _ _ _⟩

end Soundness

/-! ### Worlds -/

section Worlds

variable (sys : System K S Row Write Call Input Exc Point) (I : S → Prop)
  (C : K → Contract S Row Write Call Input Point)

/-- What holds of every reachable world: the invariant, locks held by one
session at a time, and each session sound from where it stands. -/
structure World.Ok (w : World K S Row Write Call Input Exc Point) : Prop where
  inv : I w.state
  disjoint : ∀ (i j : ℕ) (p q : Proc K S Row Write Call Input Exc Point),
    w.procs[i]? = some p → w.procs[j]? = some q → i ≠ j → ∀ r ∈ p.session.locks, r ∉ q.session.locks
  owned : ∀ (i : ℕ) (p : Proc K S Row Write Call Input Exc Point), w.procs[i]? = some p →
    ∀ x ∈ p.session.writes, ∀ r ∈ sys.storage.rowsOf x, r ∈ p.session.locks
  accepted : ∀ (i : ℕ) (p : Proc K S Row Write Call Input Exc Point), w.procs[i]? = some p →
    sys.storage.firstError w.state p.session.writes = none
  sound : ∀ (i : ℕ) (p : Proc K S Row Write Call Input Exc Point), w.procs[i]? = some p →
    Sound sys.storage I (C p.kind) (fun _ _ _ => True) p.prog p.session w.state

/-- The running sessions other than `pid` rely on the move from `w.state` to
`s'`. -/
def World.Relied (w : World K S Row Write Call Input Exc Point) (pid : ℕ) (s' : S) : Prop :=
  ∀ (j : ℕ) (q : Proc K S Row Write Call Input Exc Point) (pt : Point),
    w.procs[j]? = some q → j ≠ pid → q.prog.point? = some pt →
    (C q.kind).rely pt q.session w.state s'

variable {sys I C} {w w' : World K S Row Write Call Input Exc Point}

/-- A session other than the one that stepped is as sound as before. -/
theorem World.Ok.other (h : w.Ok sys I C) {pid j : ℕ} (hj : j ≠ pid)
    {q : Proc K S Row Write Call Input Exc Point} (hq : w.procs[j]? = some q) {s : S}
    (hs : I s) (hsame : ∀ r ∈ q.session.locks, sys.storage.same r w.state s)
    (hrel : s = w.state ∨ w.Relied C pid s) :
    sys.storage.firstError s q.session.writes = none ∧
      Sound sys.storage I (C q.kind) (fun _ _ _ => True) q.prog q.session s := by
  have hacc : sys.storage.firstError s q.session.writes = none := by
    rw [← sys.storage.firstError_congr (h.owned j q hq) hsame]
    exact h.accepted j q hq
  refine ⟨hacc, ?_⟩
  cases hpt : q.prog.point? with
  | none => exact .ended hpt _ _
  | some pt =>
      rcases hrel with rfl | hrel
      · exact h.sound j q hq
      · exact (h.sound j q hq).stable hpt ⟨hs, hrel j q pt hq hj hpt, hsame, h.owned j q hq, hacc⟩

/-- Whatever statement comes next in a reachable world, its need is met. -/
theorem World.Ok.need (h : w.Ok sys I C) {pid : ℕ} {p : Proc K S Row Write Call Input Exc Point}
    (hp : w.procs[pid]? = some p) {pt : Point} {st : Stmt S Row Write Call}
    {next : Except Exc (Reply S Row Input) → Prog S Row Write Call Input Exc Point Unit}
    (hprog : p.prog = .step pt st next) : (C p.kind).need st p.session w.state := by
  have hsound := h.sound pid p hp
  rw [hprog] at hsound
  exact (hsound w.state (.refl h.inv (h.owned pid p hp) (h.accepted pid p hp))).1

/-- A session that can run a statement stands at some point. -/
theorem Prog.point?_of_exec {σ : Storage S Row Write Call Input Exc} {free : Row → Bool} {i : Input}
    {p p' : Prog S Row Write Call Input Exc Point α} {t t' : Session Row Write Call Input} {s s' : S}
    (h : p.exec σ free i t s = some (p', t', s')) : ∃ pt, p.point? = some pt := by
  cases p with
  | ret a => simp [Prog.exec] at h
  | raise e => simp [Prog.exec] at h
  | step pt st next => exact ⟨pt, rfl⟩

variable [DecidableEq Row]

theorem World.free_iff {pid : ℕ} {r : Row} :
    w.free pid r = true ↔ ∀ (j : ℕ) (q : Proc K S Row Write Call Input Exc Point),
      w.procs[j]? = some q → j ≠ pid → r ∉ q.session.locks := by
  simp only [World.free, List.all_eq_true, Bool.or_eq_true, beq_iff_eq, Bool.not_eq_true',
    List.contains_eq_mem, decide_eq_false_iff_not, Prod.forall, List.mk_mem_zipIdx_iff_getElem?]
  constructor
  · intro h j q hq hj
    exact (h q j hq).resolve_left hj
  · intro h q j hq
    exact (Decidable.em (j = pid)).imp_right fun hj => h j q hq hj

/-- One session moved on: `Ok` is kept when the step keeps the invariant and
its ownership, when its new locks were free and the others rely on it. -/
theorem World.Ok.set (h : w.Ok sys I C) {pid : ℕ} {p p' : Proc K S Row Write Call Input Exc Point}
    (hp : w.procs[pid]? = some p) {s : S} (hs : I s)
    (hlocks : ∀ r ∈ p'.session.locks, r ∈ p.session.locks ∨ w.free pid r = true)
    (hown : ∀ x ∈ p'.session.writes, ∀ r ∈ sys.storage.rowsOf x, r ∈ p'.session.locks)
    (hacc : sys.storage.firstError s p'.session.writes = none)
    (hsound : Sound sys.storage I (C p'.kind) (fun _ _ _ => True) p'.prog p'.session s)
    (hframe : ∀ r, r ∉ p.session.locks → sys.storage.same r w.state s)
    (hrel : s = w.state ∨ w.Relied C pid s) :
    World.Ok sys I C ⟨s, w.procs.set pid p'⟩ := by
  have hget (j : ℕ) (q : Proc K S Row Write Call Input Exc Point)
      (hq : (w.procs.set pid p')[j]? = some q) : j = pid ∧ q = p' ∨ j ≠ pid ∧ w.procs[j]? = some q := by
    rw [List.getElem?_set] at hq
    split at hq
    · next hj =>
      subst hj
      simp only [Option.ite_none_right_eq_some, Option.some.injEq] at hq
      exact .inl ⟨rfl, hq.2.symm⟩
    · next hj => exact .inr ⟨Ne.symm hj, hq⟩
  have hapart (j : ℕ) (q : Proc K S Row Write Call Input Exc Point) (hj : j ≠ pid)
      (hq : w.procs[j]? = some q) : ∀ r ∈ p'.session.locks, r ∉ q.session.locks := by
    intro r hr
    rcases hlocks r hr with hr | hr
    · exact h.disjoint pid j p q hp hq (Ne.symm hj) r hr
    · exact World.free_iff.mp hr j q hq hj
  have hother (j : ℕ) (q : Proc K S Row Write Call Input Exc Point) (hj : j ≠ pid)
      (hq : w.procs[j]? = some q) := h.other hj hq hs
        (fun r hr => hframe r fun hmem => h.disjoint pid j p q hp hq (Ne.symm hj) r hmem hr) hrel
  constructor
  · exact hs
  · intro i j q₁ q₂ h₁ h₂ hij r hr
    rcases hget i q₁ h₁ with ⟨rfl, rfl⟩ | ⟨hi, h₁'⟩ <;> rcases hget j q₂ h₂ with ⟨rfl, rfl⟩ | ⟨hj, h₂'⟩
    · exact absurd rfl hij
    · exact hapart j q₂ hj h₂' r hr
    · exact fun hr' => hapart i q₁ hi h₁' r hr' hr
    · exact h.disjoint i j q₁ q₂ h₁' h₂' hij r hr
  · intro j q hq
    rcases hget j q hq with ⟨rfl, rfl⟩ | ⟨hj, hq⟩
    · exact hown
    · exact h.owned j q hq
  · intro j q hq
    rcases hget j q hq with ⟨rfl, rfl⟩ | ⟨hj, hq⟩
    · exact hacc
    · exact (hother j q hj hq).1
  · intro j q hq
    rcases hget j q hq with ⟨rfl, rfl⟩ | ⟨hj, hq⟩
    · exact hsound
    · exact (hother j q hj hq).2

/-- How a step of the world comes about. -/
theorem World.step_cases {a : Action K Input} (h : w.step sys a = some w') :
    (∃ k, a = .spawn k ∧ sys.admits k w.state ∧
      w' = ⟨w.state, w.procs ++ [⟨k, sys.code k, .fresh⟩]⟩) ∨
    (∃ pid i p prog t s, a = .run pid i ∧ w.procs[pid]? = some p ∧
      p.prog.exec sys.storage (w.free pid) i p.session w.state = some (prog, t, s) ∧
      w' = ⟨s, w.procs.set pid ⟨p.kind, prog, t⟩⟩) ∨
    (∃ pid p prog, a = .fault pid ∧ w.procs[pid]? = some p ∧
      p.prog.fault sys.storage = some prog ∧
      w' = ⟨w.state, w.procs.set pid ⟨p.kind, prog, p.session.close⟩⟩) ∨
    (∃ pid p, a = .kill pid ∧ w.procs[pid]? = some p ∧
      w' = ⟨w.state, w.procs.set pid ⟨p.kind, .raise sys.storage.lost, p.session.close⟩⟩) := by
  cases a with
  | spawn k =>
      simp only [World.step, Option.ite_none_right_eq_some, Option.some.injEq] at h
      exact .inl ⟨k, rfl, h.1, h.2.symm⟩
  | run pid i =>
      cases hp : w.procs[pid]? with
      | none => simp [World.step, hp] at h
      | some p =>
          cases hexec : p.prog.exec sys.storage (w.free pid) i p.session w.state with
          | none => simp [World.step, hp, hexec] at h
          | some out =>
              obtain ⟨prog, t, s⟩ := out
              simp only [World.step, hp, hexec, Option.some.injEq] at h
              exact .inr (.inl ⟨pid, i, p, prog, t, s, rfl, hp, hexec, h.symm⟩)
  | fault pid =>
      cases hp : w.procs[pid]? with
      | none => simp [World.step, hp] at h
      | some p =>
          cases hfault : p.prog.fault sys.storage with
          | none => simp [World.step, hp, hfault] at h
          | some prog =>
              simp only [World.step, hp, hfault, Option.some.injEq] at h
              exact .inr (.inr (.inl ⟨pid, p, prog, rfl, hp, hfault, h.symm⟩))
  | kill pid =>
      cases hp : w.procs[pid]? with
      | none => simp [World.step, hp] at h
      | some p =>
          simp only [World.step, hp, Option.some.injEq] at h
          exact .inr (.inr (.inr ⟨pid, p, rfl, hp, h.symm⟩))

/-- What the step of one world to the next has to meet: whatever a session
guarantees, the others rely on. -/
def Compatible (sys : System K S Row Write Call Input Exc Point) (I : S → Prop)
    (C : K → Contract S Row Write Call Input Point)
    (allowed : World K S Row Write Call Input Exc Point → Action K Input →
      World K S Row Write Call Input Exc Point → Prop) : Prop :=
  ∀ (w w' : World K S Row Write Call Input Exc Point) (pid : ℕ) (i : Input)
    (p : Proc K S Row Write Call Input Exc Point) (pt : Point),
    w.Ok sys I C → w.step sys (.run pid i) = some w' → allowed w (.run pid i) w' →
    w.procs[pid]? = some p → p.prog.point? = some pt →
    (C p.kind).guar pt p.session w.state w'.state → w.Relied C pid w'.state

variable {allowed : World K S Row Write Call Input Exc Point → Action K Input →
  World K S Row Write Call Input Exc Point → Prop}

theorem World.Ok.step (hcode : ∀ k, sys.admits k w.state →
      Sound sys.storage I (C k) (fun _ _ _ => True) (sys.code k) .fresh w.state)
    (hcompat : Compatible sys I C allowed) {a : Action K Input} (h : w.Ok sys I C)
    (hstep : w.step sys a = some w') (hallowed : allowed w a w') : w'.Ok sys I C := by
  have hsame (r : Row) : sys.storage.same r w.state w.state := (sys.storage.same_equiv r).refl _
  rcases World.step_cases hstep with ⟨k, rfl, hadmits, rfl⟩ |
    ⟨pid, i, p, prog, t, s, rfl, hp, hexec, rfl⟩ | ⟨pid, p, prog, rfl, hp, hfault, rfl⟩ |
    ⟨pid, p, rfl, hp, rfl⟩
  · -- a new session holds nothing and its code is sound
    have hget (j : ℕ) (q : Proc K S Row Write Call Input Exc Point)
        (hq : (w.procs ++ [⟨k, sys.code k, .fresh⟩])[j]? = some q) :
        w.procs[j]? = some q ∨ q = ⟨k, sys.code k, .fresh⟩ := by
      rw [List.getElem?_append] at hq
      split at hq
      · exact .inl hq
      · rw [List.getElem?_singleton, Option.ite_none_right_eq_some] at hq
        exact .inr (Option.some.inj hq.2).symm
    constructor
    · exact h.inv
    · intro i j p q hp hq hij r hr
      rcases hget i p hp with hp | rfl
      · rcases hget j q hq with hq | rfl
        · exact h.disjoint i j p q hp hq hij r hr
        · simp
      · simp at hr
    · intro j q hq
      rcases hget j q hq with hq | rfl
      · exact h.owned j q hq
      · simp
    · intro j q hq
      rcases hget j q hq with hq | rfl
      · exact h.accepted j q hq
      · simp
    · intro j q hq
      rcases hget j q hq with hq | rfl
      · exact h.sound j q hq
      · exact hcode k hadmits
  · obtain ⟨pt, hpt⟩ := Prog.point?_of_exec hexec
    obtain ⟨hI, hlocks, hown, hacc, hsound, hguar, hframe⟩ :=
      (h.sound pid p hp).exec hpt h.inv (h.owned pid p hp) (h.accepted pid p hp) hexec
    refine h.set hp hI hlocks hown hacc hsound hframe (hguar.imp_right fun hg => ?_)
    exact hcompat w _ pid i p pt h hstep hallowed hp hpt hg
  · exact h.set hp h.inv (by simp) (by simp) (by simp)
      ((h.sound pid p hp).fault h.inv (h.owned pid p hp) (h.accepted pid p hp) hfault)
      (fun r _ => hsame r) (.inl rfl)
  · exact h.set hp h.inv (by simp) (by simp) (by simp) trivial (fun r _ => hsame r) (.inl rfl)

/-- The invariant holds in every world reached from an initial one, and every
session is sound from where it stands. -/
theorem Reach.ok (hcode : ∀ k s, I s → sys.admits k s →
      Sound sys.storage I (C k) (fun _ _ _ => True) (sys.code k) .fresh s)
    (hcompat : Compatible sys I C allowed) {s₀ : S} (hs₀ : I s₀)
    (h : Reach sys allowed (.initial s₀) w) : w.Ok sys I C := by
  induction h with
  | refl => exact ⟨hs₀, by simp [World.initial], by simp [World.initial], by simp [World.initial],
      by simp [World.initial]⟩
  | step _ hstep hallowed ih => exact ih.step (fun k => hcode k _ ih.inv) hcompat hstep hallowed

/-- A step of the world changes the state only through a session, and only as
that session guarantees. -/
theorem World.Ok.guar (h : w.Ok sys I C) {a : Action K Input} (hstep : w.step sys a = some w') :
    w'.state = w.state ∨ ∃ pid i p pt, a = .run pid i ∧ w.procs[pid]? = some p ∧
      p.prog.point? = some pt ∧ (C p.kind).guar pt p.session w.state w'.state := by
  rcases World.step_cases hstep with ⟨k, rfl, -, rfl⟩ |
    ⟨pid, i, p, prog, t, s, rfl, hp, hexec, rfl⟩ | ⟨pid, p, prog, rfl, hp, -, rfl⟩ |
    ⟨pid, p, rfl, hp, rfl⟩
  · exact .inl rfl
  · obtain ⟨pt, hpt⟩ := Prog.point?_of_exec hexec
    obtain ⟨-, -, -, -, -, hguar, -⟩ :=
      (h.sound pid p hp).exec hpt h.inv (h.owned pid p hp) (h.accepted pid p hp) hexec
    exact hguar.imp_right fun hg => ⟨pid, i, p, pt, rfl, hp, hpt, hg⟩
  · exact .inl rfl
  · exact .inl rfl

end Worlds

end Transact
