import Runscope.Transact.Logic

/-!
Programs under conditions.

What a session leaves behind depends on what it meets: the inputs its
statements draw, whether its connection holds, what the others do meanwhile. A
`Regime` says which of that may happen, and `Meets` that whatever may happen,
the need of each statement is met and the program ends as it should. Unlike
`Sound` it says nothing of what the session owes to the others.
-/

namespace Transact

variable {K S Row Write Call Input Exc Point α β : Type}

/-- How the others may move the state, which statements may run and with which
inputs, where the connection may be lost, and what has to hold wherever a
statement runs. -/
structure Regime (S Row Write Call Input Point : Type) where
  rely : Point → Session Row Write Call Input → S → S → Prop
  admits : Point → Stmt S Row Write Call → Session Row Write Call Input → S → Input → Prop
  loses : Session Row Write Call Input → Prop
  need : Stmt S Row Write Call → Session Row Write Call Input → S → Prop
  rely_trans : ∀ {pt t s₁ s₂ s₃}, rely pt t s₁ s₂ → rely pt t s₂ s₃ → rely pt t s₁ s₃

/-- `K` holds of what the statement returns, and of the session and the state
then, when it draws `i`. -/
def Stmt.After (σ : Storage S Row Write Call Input Exc)
    (K : Except Exc (Reply S Row Input) → Session Row Write Call Input → S → Prop)
    (st : Stmt S Row Write Call) (t : Session Row Write Call Input) (s : S) (i : Input) : Prop :=
  match st with
  | .select => K (.ok ⟨t.view σ s, fun _ => true, i⟩) (t.begin i) s
  | .lock skip rows => ∀ free : Row → Bool,
      let choice := if skip then free else fun _ => true
      K (.ok ⟨t.view σ s, choice, i⟩) ((t.begin i).lock (rows (t.view σ s) choice)) s
  | .flush writes =>
      let ws := t.stamped σ i writes
      (∀ e, σ.firstError (t.view σ s) ws = some e → K (.error e) t.close s) ∧
      (σ.firstError (t.view σ s) ws = none →
        K (.ok ⟨σ.applyAll (t.view σ s) ws, fun _ => true, i⟩) ((t.begin i).write σ ws) s)
  | .commit => K (.ok ⟨t.view σ s, fun _ => true, i⟩) t.finish (t.view σ s)
  | .rollback => K (.ok ⟨s, fun _ => true, i⟩) t.close s
  | .call c => K (.ok ⟨t.view σ (σ.perform c i s), fun _ => true, i⟩) (t.record c) (σ.perform c i s)

section Rules

variable (σ : Storage S Row Write Call Input Exc) (R : Regime S Row Write Call Input Point)

/-- Under the regime, the program meets its needs and ends with `Q`. -/
def Prog.Meets (Q : Except Exc α → Session Row Write Call Input → S → Prop) :
    Prog S Row Write Call Input Exc Point α → Session Row Write Call Input → S → Prop
  | .ret a, t, s => Q (.ok a) t s
  | .raise e, t, s => Q (.error e) t s
  | .step pt st next, t, s => ∀ s', R.rely pt t s s' → R.need st t s' ∧
      (R.loses t → Meets Q (next (.error σ.lost)) t.close s') ∧
      ∀ i, R.admits pt st t s' i → st.After σ (fun reply => Meets Q (next reply)) t s' i

variable {σ R}

theorem Stmt.After.mono
    {K K' : Except Exc (Reply S Row Input) → Session Row Write Call Input → S → Prop}
    (hK : ∀ x t s, K x t s → K' x t s) {st : Stmt S Row Write Call}
    {t : Session Row Write Call Input} {s : S} {i : Input} (h : st.After σ K t s i) :
    st.After σ K' t s i := by
  cases st with
  | lock skip rows => exact fun free => hK _ _ _ (h free)
  | flush writes => exact ⟨fun e he => hK _ _ _ (h.1 e he), fun hok => hK _ _ _ (h.2 hok)⟩
  | select | commit | rollback | call c => exact hK _ _ _ h

namespace Prog.Meets

variable {Q : Except Exc α → Session Row Write Call Input → S → Prop}
  {t : Session Row Write Call Input} {s : S}

theorem mono {Q' : Except Exc α → Session Row Write Call Input → S → Prop}
    (hQ : ∀ x t s, Q x t s → Q' x t s) {p : Prog S Row Write Call Input Exc Point α}
    (h : p.Meets σ R Q t s) : p.Meets σ R Q' t s := by
  induction p generalizing t s with
  | ret a => exact hQ _ _ _ h
  | raise e => exact hQ _ _ _ h
  | step pt st next ih =>
      intro s' hs'
      obtain ⟨hneed, hlost, hafter⟩ := h s' hs'
      exact ⟨hneed, fun hloses => ih _ (hlost hloses),
        fun i hi => (hafter i hi).mono fun x _ _ hx => ih x hx⟩

/-- The continuation starts wherever the first program ends. -/
theorem andThen {p : Prog S Row Write Call Input Exc Point β}
    {k : Except Exc β → Prog S Row Write Call Input Exc Point α}
    (h : p.Meets σ R (fun x t s => (k x).Meets σ R Q t s) t s) : (p.andThen k).Meets σ R Q t s := by
  induction p generalizing t s with
  | ret a => exact h
  | raise e => exact h
  | step pt st next ih =>
      intro s' hs'
      obtain ⟨hneed, hlost, hafter⟩ := h s' hs'
      exact ⟨hneed, fun hloses => ih _ (hlost hloses),
        fun i hi => (hafter i hi).mono fun x _ _ hx => ih x hx⟩

theorem bind {p : Prog S Row Write Call Input Exc Point β}
    {k : β → Prog S Row Write Call Input Exc Point α}
    (h : p.Meets σ R (fun x t s =>
      match x with
      | .ok b => (k b).Meets σ R Q t s
      | .error e => Q (.error e) t s) t s) : (p.bind k).Meets σ R Q t s :=
  andThen (h.mono fun x _ _ hx => by cases x <;> exact hx)

theorem tryCatch {p : Prog S Row Write Call Input Exc Point α}
    {handler : Exc → Prog S Row Write Call Input Exc Point α}
    (h : p.Meets σ R (fun x t s =>
      match x with
      | .ok a => Q (.ok a) t s
      | .error e => (handler e).Meets σ R Q t s) t s) : (p.tryCatch handler).Meets σ R Q t s :=
  andThen (h.mono fun x _ _ hx => by cases x <;> exact hx)

theorem stmt {pt : Point} {st : Stmt S Row Write Call} {f : Reply S Row Input → α}
    (h : ∀ s', R.rely pt t s s' → R.need st t s' ∧ (R.loses t → Q (.error σ.lost) t.close s') ∧
      ∀ i, R.admits pt st t s' i → st.After σ (fun reply => Q (reply.map f)) t s' i) :
    (Prog.stmt pt st f : Prog S Row Write Call Input Exc Point α).Meets σ R Q t s := by
  intro s' hs'
  obtain ⟨hneed, hlost, hafter⟩ := h s' hs'
  exact ⟨hneed, hlost, fun i hi => (hafter i hi).mono fun x _ _ hx => by cases x <;> exact hx⟩

/-- What the others do makes no difference. -/
theorem stable {p : Prog S Row Write Call Input Exc Point α} {pt : Point}
    (hpt : p.point? = some pt) {s' : S} (hs : R.rely pt t s s') (h : p.Meets σ R Q t s) :
    p.Meets σ R Q t s' := by
  cases p with
  | ret a => cases hpt
  | raise e => cases hpt
  | step pt' st next =>
      obtain rfl := Option.some.inj hpt
      exact fun s'' hs'' => h s'' (R.rely_trans hs hs'')

/-- One admitted statement. -/
theorem exec {p p' : Prog S Row Write Call Input Exc Point α} {free : Row → Bool} {i : Input}
    {t' : Session Row Write Call Input} {s' : S} (h : p.Meets σ R Q t s)
    (hrely : ∀ pt, p.point? = some pt → R.rely pt t s s)
    (hadmits : ∀ pt st next, p = .step pt st next → R.admits pt st t s i)
    (hexec : p.exec σ free i t s = some (p', t', s')) : p'.Meets σ R Q t' s' := by
  cases p with
  | ret a => cases hexec
  | raise e => cases hexec
  | step pt st next =>
      have hafter := (h s (hrely pt rfl)).2.2 i (hadmits pt st next rfl)
      cases st with
      | lock skip rows =>
          simp only [Prog.exec, Option.ite_none_right_eq_some, Option.some.injEq,
            Prod.mk.injEq] at hexec
          obtain ⟨-, rfl, rfl, rfl⟩ := hexec
          exact hafter free
      | flush writes =>
          simp only [Prog.exec, Option.ite_none_right_eq_some] at hexec
          obtain ⟨-, hexec⟩ := hexec
          cases herror : σ.firstError (t.view σ s) (t.stamped σ i writes) with
          | some e =>
              simp only [herror, Option.some.injEq, Prod.mk.injEq] at hexec
              obtain ⟨rfl, rfl, rfl⟩ := hexec
              exact hafter.1 e herror
          | none =>
              simp only [herror, Option.some.injEq, Prod.mk.injEq] at hexec
              obtain ⟨rfl, rfl, rfl⟩ := hexec
              exact hafter.2 herror
      | select | commit | rollback | call c =>
          simp only [Prog.exec, Option.some.injEq, Prod.mk.injEq] at hexec
          obtain ⟨rfl, rfl, rfl⟩ := hexec
          exact hafter

theorem fault {p p' : Prog S Row Write Call Input Exc Point α} (h : p.Meets σ R Q t s)
    (hrely : ∀ pt, p.point? = some pt → R.rely pt t s s) (hloses : R.loses t)
    (hfault : p.fault σ = some p') : p'.Meets σ R Q t.close s := by
  cases p with
  | ret a => cases hfault
  | raise e => cases hfault
  | step pt st next =>
      have hlost := (h s (hrely pt rfl)).2.1 hloses
      cases st with
      | call c => cases hfault
      | select | lock | flush | commit | rollback =>
          obtain rfl := Option.some.inj hfault
          exact hlost

end Prog.Meets

end Rules

/-- Nothing is relied on and nothing promised. -/
def Contract.none : Contract S Row Write Call Input Point where
  rely _ _ _ _ := True
  guar _ _ _ _ := True
  need _ _ _ := True
  rely_refl := trivial
  rely_trans _ _ := trivial

/-- In every world, locks are held by one session at a time and what a session
has written is accepted. -/
theorem Reach.lawful [DecidableEq Row] {sys : System K S Row Write Call Input Exc Point}
    {allowed : World K S Row Write Call Input Exc Point → Action K Input →
      World K S Row Write Call Input Exc Point → Prop}
    {w : World K S Row Write Call Input Exc Point} {s₀ : S}
    (h : Reach sys allowed (.initial s₀) w) : w.Ok sys (fun _ => True) fun _ => .none := by
  refine Reach.ok (fun κ s _ _ => ?_) (fun w w' pid i p pt _ _ _ _ _ _ => ?_) trivial h
  · exact .of_forall (fun _ _ _ => trivial) (fun _ _ _ _ => ⟨trivial, trivial⟩)
      (fun _ _ _ _ _ _ => ⟨trivial, trivial⟩) (sys.code κ) .fresh s
  · exact fun _ _ _ _ _ _ => trivial

variable {sys : System K S Row Write Call Input Exc Point} {I : S → Prop}
  {C : K → Contract S Row Write Call Input Point} {w w' : World K S Row Write Call Input Exc Point}

/-- A session in a good world can take it that nothing has happened. -/
theorem World.Ok.interferes_refl (h : w.Ok sys I C) {j : ℕ}
    {q : Proc K S Row Write Call Input Exc Point} (hq : w.procs[j]? = some q) (pt : Point) :
    Interferes sys.storage I (C q.kind) pt q.session w.state w.state :=
  .refl h.inv (h.owned j q hq) (h.accepted j q hq)

variable [DecidableEq Row] {allowed : World K S Row Write Call Input Exc Point → Action K Input →
  World K S Row Write Call Input Exc Point → Prop}

/-- A step of the world, to a session that does not take it. -/
theorem World.Ok.interferes (hcompat : Compatible sys I C allowed) (h : w.Ok sys I C)
    {a : Action K Input} (hstep : w.step sys a = some w') (hallowed : allowed w a w') {j : ℕ}
    {q : Proc K S Row Write Call Input Exc Point} (hq : w.procs[j]? = some q) {pt : Point}
    (hpt : q.prog.point? = some pt) (hother : ∀ i, a ≠ .run j i) :
    Interferes sys.storage I (C q.kind) pt q.session w.state w'.state := by
  rcases World.step_cases hstep with ⟨k, rfl, -, rfl⟩ |
    ⟨pid, i, p, prog, t, s, rfl, hp, hexec, rfl⟩ | ⟨pid, p, prog, rfl, -, -, rfl⟩ |
    ⟨pid, p, rfl, -, rfl⟩
  · exact h.interferes_refl hq pt
  · have hj : j ≠ pid := by
      rintro rfl
      exact hother i rfl
    obtain ⟨pt', hpt'⟩ := Prog.point?_of_exec hexec
    obtain ⟨hI, -, -, -, -, hguar, hframe⟩ :=
      (h.sound pid p hp).exec hpt' h.inv (h.owned pid p hp) (h.accepted pid p hp) hexec
    have hsame (r : Row) (hr : r ∈ q.session.locks) : sys.storage.same r w.state s :=
      hframe r fun hmem => h.disjoint pid j p q hp hq (Ne.symm hj) r hmem hr
    refine ⟨hI, ?_, hsame, h.owned j q hq, ?_⟩
    · rcases hguar with rfl | hguar
      · exact (C q.kind).rely_refl
      · exact hcompat w _ pid i p pt' h hstep hallowed hp hpt' hguar j q pt hq hj hpt
    · rw [← sys.storage.firstError_congr (h.owned j q hq) hsame]
      exact h.accepted j q hq
  · exact h.interferes_refl hq pt
  · exact h.interferes_refl hq pt

end Transact
