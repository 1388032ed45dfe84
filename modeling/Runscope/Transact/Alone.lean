import Runscope.Transact.Pool

/-!
A session that runs while no other does.

No row is locked by anyone else, so every statement goes through; what is left
to chance is the inputs, and where the connection is lost. `Alone` is the
weakest precondition of a program run so.
-/

namespace Transact

variable {S Row Write Call Input Exc Point α β : Type}

/-- The reply to a statement, the session and the state after it. -/
def Stmt.answer (σ : Storage S Row Write Call Input Exc) (i : Input)
    (t : Session Row Write Call Input) (s : S) :
    Stmt S Row Write Call →
      Except Exc (Reply S Row Input) × Session Row Write Call Input × S
  | .select => (.ok ⟨t.view σ s, fun _ => true, i⟩, t.begin i, s)
  | .lock _ rows =>
      (.ok ⟨t.view σ s, fun _ => true, i⟩, (t.begin i).lock (rows (t.view σ s) fun _ => true), s)
  | .flush writes =>
      match σ.firstError (t.view σ s) (t.stamped σ i writes) with
      | some e => (.error e, t.close, s)
      | none =>
          (.ok ⟨σ.applyAll (t.view σ s) (t.stamped σ i writes), fun _ => true, i⟩,
            (t.begin i).write σ (t.stamped σ i writes), s)
  | .commit => (.ok ⟨t.view σ s, fun _ => true, i⟩, t.finish, t.view σ s)
  | .rollback => (.ok ⟨s, fun _ => true, i⟩, t.close, s)
  | .call c =>
      (.ok ⟨t.view σ (σ.perform c i s), fun _ => true, i⟩, t.record c, σ.perform c i s)

/-- Whether the statement uses the connection. -/
def Stmt.connects : Stmt S Row Write Call → Bool
  | .call _ => false
  | _ => true

theorem Prog.exec_step (σ : Storage S Row Write Call Input Exc) (i : Input) (pt : Point)
    (st : Stmt S Row Write Call)
    (next : Except Exc (Reply S Row Input) → Prog S Row Write Call Input Exc Point α)
    (t : Session Row Write Call Input) (s : S) :
    (Prog.step pt st next).exec σ (fun _ => true) i t s =
      some (next (st.answer σ i t s).1, (st.answer σ i t s).2) := by
  cases st with
  | select | commit | rollback | call => rfl
  | lock skip rows => simp [Prog.exec, Stmt.answer]
  | flush writes =>
      simp only [Prog.exec, Stmt.answer, List.all_eq_true, implies_true, if_true]
      cases σ.firstError (t.view σ s) (t.stamped σ i writes) <;> rfl

/-- A session that runs alone: the rest of its program, where it stands with
the database, and the committed state. -/
structure Solo (S Row Write Call Input Exc Point α : Type) where
  prog : Prog S Row Write Call Input Exc Point α
  session : Session Row Write Call Input
  state : S

inductive Solo.Step (σ : Storage S Row Write Call Input Exc) :
    Solo S Row Write Call Input Exc Point α → Solo S Row Write Call Input Exc Point α → Prop where
  | run {p p' : Prog S Row Write Call Input Exc Point α} {t t' : Session Row Write Call Input}
      {s s' : S} (i : Input) (h : p.exec σ (fun _ => true) i t s = some (p', t', s')) :
      Step σ ⟨p, t, s⟩ ⟨p', t', s'⟩
  | fault {p p' : Prog S Row Write Call Input Exc Point α} {t : Session Row Write Call Input}
      {s : S} (h : p.fault σ = some p') : Step σ ⟨p, t, s⟩ ⟨p', t.close, s⟩

/-- At each statement of the program `N` holds, each moves the state by `R`,
and the program ends with an outcome satisfying `Q`. -/
def Alone (σ : Storage S Row Write Call Input Exc)
    (N : Stmt S Row Write Call → Session Row Write Call Input → S → Prop) (R : S → S → Prop)
    (Q : Except Exc α → Session Row Write Call Input → S → Prop) :
    Prog S Row Write Call Input Exc Point α → Session Row Write Call Input → S → Prop
  | .ret a, t, s => Q (.ok a) t s
  | .raise e, t, s => Q (.error e) t s
  | .step _ st next, t, s =>
      N st t s ∧ (st.connects → Alone σ N R Q (next (.error σ.lost)) t.close s) ∧
        ∀ i, R s (st.answer σ i t s).2.2 ∧
          Alone σ N R Q (next (st.answer σ i t s).1) (st.answer σ i t s).2.1
            (st.answer σ i t s).2.2

namespace Alone

variable {σ : Storage S Row Write Call Input Exc}
  {N : Stmt S Row Write Call → Session Row Write Call Input → S → Prop} {R : S → S → Prop}
  {t : Session Row Write Call Input} {s : S}

/-- The continuation starts wherever the first program ends. -/
theorem andThen {Q : Except Exc β → Session Row Write Call Input → S → Prop}
    {p : Prog S Row Write Call Input Exc Point α}
    {k : Except Exc α → Prog S Row Write Call Input Exc Point β}
    (h : Alone σ N R (fun x t s => Alone σ N R Q (k x) t s) p t s) :
    Alone σ N R Q (p.andThen k) t s := by
  induction p generalizing t s with
  | ret a => exact h
  | raise e => exact h
  | step pt st next ih =>
      obtain ⟨hneed, hlost, hnext⟩ := h
      exact ⟨hneed, fun hst => ih _ (hlost hst), fun i => ⟨(hnext i).1, ih _ (hnext i).2⟩⟩

theorem mono {Q Q' : Except Exc α → Session Row Write Call Input → S → Prop}
    (hQ : ∀ x t s, Q x t s → Q' x t s) {p : Prog S Row Write Call Input Exc Point α}
    (h : Alone σ N R Q p t s) : Alone σ N R Q' p t s := by
  induction p generalizing t s with
  | ret a => exact hQ _ _ _ h
  | raise e => exact hQ _ _ _ h
  | step pt st next ih =>
      obtain ⟨hneed, hlost, hnext⟩ := h
      exact ⟨hneed, fun hst => ih _ (hlost hst), fun i => ⟨(hnext i).1, ih _ (hnext i).2⟩⟩

/-- Sequencing: what the first program raises, the whole raises. -/
theorem bind {Q : Except Exc β → Session Row Write Call Input → S → Prop}
    {p : Prog S Row Write Call Input Exc Point α}
    {f : α → Prog S Row Write Call Input Exc Point β}
    (h : Alone σ N R (fun x t s =>
      match x with
      | .ok a => Alone σ N R Q (f a) t s
      | .error e => Q (.error e) t s) p t s) :
    Alone σ N R Q (p.bind f) t s :=
  andThen (h.mono fun x _ _ hx => by cases x <;> exact hx)

/-- One statement. -/
theorem stmt {Q : Except Exc α → Session Row Write Call Input → S → Prop} {pt : Point}
    {st : Stmt S Row Write Call} {f : Reply S Row Input → α} (hneed : N st t s)
    (hlost : st.connects → Q (.error σ.lost) t.close s)
    (h : ∀ i, R s (st.answer σ i t s).2.2 ∧
      Q ((st.answer σ i t s).1.map f) (st.answer σ i t s).2.1 (st.answer σ i t s).2.2) :
    Alone σ N R Q (Prog.stmt pt st f) t s := by
  refine ⟨hneed, hlost, fun i => ⟨(h i).1, ?_⟩⟩
  have hi := (h i).2
  cases hr : (st.answer σ i t s).1 with
  | ok r | error e =>
      rw [hr] at hi
      exact hi

/-- One statement, then the rest of the program. -/
theorem stmt_bind {Q : Except Exc β → Session Row Write Call Input → S → Prop} {pt : Point}
    {st : Stmt S Row Write Call} {f : Reply S Row Input → α}
    {k : α → Prog S Row Write Call Input Exc Point β} (hneed : N st t s)
    (hlost : st.connects → Q (.error σ.lost) t.close s)
    (h : ∀ i, R s (st.answer σ i t s).2.2 ∧
      match (st.answer σ i t s).1 with
      | .ok r => Alone σ N R Q (k (f r)) (st.answer σ i t s).2.1 (st.answer σ i t s).2.2
      | .error e => Q (.error e) (st.answer σ i t s).2.1 (st.answer σ i t s).2.2) :
    Alone σ N R Q ((Prog.stmt pt st f).bind k) t s := by
  refine bind (stmt hneed hlost fun i => ⟨(h i).1, ?_⟩)
  have hi := (h i).2
  cases hr : (st.answer σ i t s).1 with
  | ok r | error e =>
      rw [hr] at hi
      exact hi

/-- A step moves the state by `R`, and the rest is as good. -/
theorem step {Q : Except Exc α → Session Row Write Call Input → S → Prop}
    {c c' : Solo S Row Write Call Input Exc Point α} (h : Alone σ N R Q c.prog c.session c.state)
    (hstep : c.Step σ c') : (c'.state = c.state ∨ R c.state c'.state) ∧
      Alone σ N R Q c'.prog c'.session c'.state := by
  cases hstep with
  | @run p p' t t' s s' i hexec =>
      cases p with
      | ret a => simp [Prog.exec] at hexec
      | raise e => simp [Prog.exec] at hexec
      | step pt st next =>
          rw [Prog.exec_step] at hexec
          obtain ⟨rfl, heq⟩ := Prod.mk.inj (Option.some.inj hexec)
          have hi := h.2.2 i
          rw [heq] at hi
          exact ⟨.inr hi.1, hi.2⟩
  | @fault p p' t s hfault =>
      refine ⟨.inl rfl, ?_⟩
      cases p with
      | ret a => simp [Prog.fault] at hfault
      | raise e => simp [Prog.fault] at hfault
      | step pt st next =>
          cases st with
          | call c => simp [Prog.fault] at hfault
          | select | lock | flush | commit | rollback =>
              obtain rfl := Option.some.inj hfault
              exact h.2.1 rfl

/-- What is needed of the statement at hand. -/
theorem need {Q : Except Exc α → Session Row Write Call Input → S → Prop} {pt : Point}
    {st : Stmt S Row Write Call}
    {next : Except Exc (Reply S Row Input) → Prog S Row Write Call Input Exc Point α}
    (h : Alone σ N R Q (.step pt st next) t s) : N st t s := h.1

end Alone

end Transact
