import Runscope.Transact.Alone

/-!
A session overtaken by others: each of its reads, and then its first flush,
finds the state the others have committed by then. From that flush on it holds
the locks it needs and runs alone.

`Prog.play` computes how such a session ends, for any states it may find.
-/

namespace Transact

variable {S Row Write Call Input Exc Point α β : Type}

/-- Where the session stands: the states its next reads find, the one its first
flush is going to meet, how many inputs have been drawn, the session, the
committed state, and the state the others left. -/
structure Racer (S Row Write Call Input : Type) where
  reads : ℕ → S
  met : Option S
  drawn : ℕ
  session : Session Row Write Call Input
  state : S
  found : S

namespace Racer

/-- A session that begins. -/
def start (reads : ℕ → S) (met : S) : Racer S Row Write Call Input :=
  ⟨reads, some met, 0, .fresh, reads 0, reads 0⟩

/-- The next read finds what the others have committed. -/
def look (r : Racer S Row Write Call Input) : Racer S Row Write Call Input :=
  { r with reads := fun n => r.reads (n + 1), state := r.reads 0, found := r.reads 0 }

/-- The first flush meets `s`. -/
def send (r : Racer S Row Write Call Input) (s : S) : Racer S Row Write Call Input :=
  { r with met := none, state := s, found := s }

/-- The others come first. -/
def meet (r : Racer S Row Write Call Input) :
    Stmt S Row Write Call → Racer S Row Write Call Input
  | .select => if r.met.isSome then r.look else r
  | .flush _ =>
    match r.met with
    | some s => r.send s
    | none => r
  | _ => r

/-- One more statement. -/
def advance (r : Racer S Row Write Call Input) (t : Session Row Write Call Input) (s : S) :
    Racer S Row Write Call Input :=
  { r with drawn := r.drawn + 1, session := t, state := s }

end Racer

variable (σ : Storage S Row Write Call Input Exc) (draw : ℕ → Input)

def Prog.play : Prog S Row Write Call Input Exc Point α → Racer S Row Write Call Input →
    Except Exc α × Racer S Row Write Call Input
  | .ret a, r => (.ok a, r)
  | .raise e, r => (.error e, r)
  | .step _ st next, r =>
    let r := r.meet st
    let a := st.answer σ (draw r.drawn) r.session r.state
    (next a.1).play (r.advance a.2.1 a.2.2)

/-- The outcome of the program and where its session stands then. -/
def Prog.Ends (p : Prog S Row Write Call Input Exc Point α) (r : Racer S Row Write Call Input)
    (Q : Except Exc α → Racer S Row Write Call Input → Prop) : Prop :=
  Q (p.play σ draw r).1 (p.play σ draw r).2

/-- The session has written nothing yet. -/
structure Racer.Before (r : Racer S Row Write Call Input) (reads' : ℕ → S) (met' : S) : Prop where
  reads : r.reads = reads'
  met : r.met = some met'
  writes : r.session.writes = []
  found : r.state = r.found

/-- The session has flushed `writes` where it met `s`, and not committed. -/
structure Racer.Within (r : Racer S Row Write Call Input) (i : Input) (ws : List Write) (s : S) :
    Prop where
  met : r.met = none
  began : r.session.began = some i
  writes : r.session.writes = ws
  state : r.state = s
  found : r.found = s

/-- The session met `s`, has nothing open any more and leaves `left`. -/
structure Racer.After (r : Racer S Row Write Call Input) (s left : S) : Prop where
  met : r.met = none
  writes : r.session.writes = []
  state : r.state = left
  found : r.found = s

/-- `P` takes no notice of calls. -/
def Racer.Calm (P : Racer S Row Write Call Input → Prop) : Prop :=
  ∀ r c, P r → P (r.advance (r.session.record c) r.state)

theorem Racer.calm_before (reads' : ℕ → S) (met' : S) :
    Calm fun r : Racer S Row Write Call Input => r.Before reads' met' :=
  fun _ _ hr => ⟨hr.reads, hr.met, hr.writes, hr.found⟩

theorem Racer.calm_within (i : Input) (ws : List Write) (s : S) :
    Calm fun r : Racer S Row Write Call Input => r.Within i ws s :=
  fun _ _ hr => ⟨hr.met, hr.began, hr.writes, hr.state, hr.found⟩

theorem Racer.before_start (reads : ℕ → S) (met : S) :
    (start reads met : Racer S Row Write Call Input).Before reads met := ⟨rfl, rfl, rfl, rfl⟩

section Rules

variable {σ draw} {r : Racer S Row Write Call Input} {reads : ℕ → S} {met s : S}
  {Q : Except Exc α → Racer S Row Write Call Input → Prop}

theorem Prog.play_andThen (p : Prog S Row Write Call Input Exc Point α)
    (k : Except Exc α → Prog S Row Write Call Input Exc Point β) :
    (p.andThen k).play σ draw r = (k (p.play σ draw r).1).play σ draw (p.play σ draw r).2 := by
  induction p generalizing r with
  | ret a => rfl
  | raise e => rfl
  | step pt st next ih => exact ih _

namespace Prog.Ends

theorem ret {a : α} (h : Q (.ok a) r) :
    (Prog.ret a : Prog S Row Write Call Input Exc Point α).Ends σ draw r Q := h

theorem raise {e : Exc} (h : Q (.error e) r) :
    (Prog.raise e : Prog S Row Write Call Input Exc Point α).Ends σ draw r Q := h

theorem mono {p : Prog S Row Write Call Input Exc Point α}
    {Q' : Except Exc α → Racer S Row Write Call Input → Prop} (h : p.Ends σ draw r Q)
    (hQ : ∀ outcome r, Q outcome r → Q' outcome r) : p.Ends σ draw r Q' := hQ _ _ h

theorem andThen {p : Prog S Row Write Call Input Exc Point β}
    {k : Except Exc β → Prog S Row Write Call Input Exc Point α}
    (h : p.Ends σ draw r fun outcome r => (k outcome).Ends σ draw r Q) :
    (p.andThen k).Ends σ draw r Q := by
  rw [Ends, play_andThen]
  exact h

theorem bind {p : Prog S Row Write Call Input Exc Point β}
    {k : β → Prog S Row Write Call Input Exc Point α}
    (h : p.Ends σ draw r fun outcome r =>
      match outcome with
      | .ok b => (k b).Ends σ draw r Q
      | .error e => Q (.error e) r) :
    (p.bind k).Ends σ draw r Q := by
  refine andThen (h.mono fun outcome r h => ?_)
  cases outcome with
  | ok b => exact h
  | error e => exact raise h

theorem tryCatch {p : Prog S Row Write Call Input Exc Point α}
    {handler : Exc → Prog S Row Write Call Input Exc Point α}
    (h : p.Ends σ draw r fun outcome r =>
      match outcome with
      | .ok a => Q (.ok a) r
      | .error e => (handler e).Ends σ draw r Q) :
    (p.tryCatch handler).Ends σ draw r Q := by
  refine andThen (h.mono fun outcome r h => ?_)
  cases outcome with
  | ok a => exact ret h
  | error e => exact h

variable {pt : Point}

/-- A read finds the next state. -/
theorem read {f : Reply S Row Input → α} (hr : r.Before reads met)
    (h : ∀ i r', r'.Before (fun n => reads (n + 1)) met →
      Q (.ok (f ⟨reads 0, fun _ => true, i⟩)) r') :
    (Prog.stmt pt .select f : Prog S Row Write Call Input Exc Point α).Ends σ draw r Q := by
  have hview : r.session.view σ (r.reads 0) = reads 0 := by
    rw [Session.view, hr.writes, hr.reads, Storage.applyAll_nil]
  have hQ := h (draw r.drawn) (r.look.advance (r.session.begin (draw r.drawn)) (r.reads 0))
    ⟨by rw [← hr.reads]; rfl, hr.met, hr.writes, rfl⟩
  simp only [Prog.Ends, Prog.stmt, Prog.play, Racer.meet, hr.met, Option.isSome_some, if_true]
  rw [← hview] at hQ
  exact hQ

/-- A call that leaves the state alone. -/
theorem call {P : Racer S Row Write Call Input → Prop} {c : Call} {f : Reply S Row Input → α}
    (hP : Racer.Calm P) (hr : P r) (hc : ∀ i s, σ.perform c i s = s)
    (h : ∀ n s r', P r' → Q (.ok (f ⟨s, fun _ => true, draw n⟩)) r') :
    (Prog.stmt pt (.call c) f : Prog S Row Write Call Input Exc Point α).Ends σ draw r Q := by
  simp only [Prog.Ends, Prog.stmt, Prog.play, Racer.meet, Stmt.answer, hc]
  exact h _ _ _ (hP r c hr)

variable {Q : Except Exc Unit → Racer S Row Write Call Input → Prop}

/-- The first flush meets what the others have committed by then. -/
theorem flush {writes : List Write} {f : Reply S Row Input → Unit} (hr : r.Before reads met)
    (hrefused : ∀ i e r', σ.firstError met (writes.map (σ.stamp i)) = some e →
      r'.After met met → Q (.error e) r')
    (haccepted : ∀ i r', σ.firstError met (writes.map (σ.stamp i)) = none →
      r'.Within i (writes.map (σ.stamp i)) met → Q (.ok ()) r') :
    (Prog.stmt pt (.flush writes) f : Prog S Row Write Call Input Exc Point Unit).Ends σ draw r
      Q := by
  have hview : r.session.view σ met = met := by
    rw [Session.view, hr.writes, Storage.applyAll_nil]
  simp only [Prog.Ends, Prog.stmt, Prog.play, Racer.meet, hr.met, Racer.send, Stmt.answer, hview]
  cases herror : σ.firstError met (r.session.stamped σ (draw r.drawn) writes) with
  | some e => exact hrefused _ e _ herror ⟨rfl, rfl, rfl, rfl⟩
  | none =>
      refine haccepted _ _ herror ⟨rfl, rfl, ?_, rfl, rfl⟩
      change r.session.writes ++ _ = _
      rw [hr.writes, List.nil_append]
      rfl

/-- A later flush, accepted. -/
theorem reflush {writes ws : List Write} {i : Input} {f : Reply S Row Input → Unit}
    (hr : r.Within i ws met)
    (hchecked : σ.firstError (σ.applyAll met ws) (writes.map (σ.stamp i)) = none)
    (h : ∀ r', r'.Within i (ws ++ writes.map (σ.stamp i)) met → Q (.ok ()) r') :
    (Prog.stmt pt (.flush writes) f : Prog S Row Write Call Input Exc Point Unit).Ends σ draw r
      Q := by
  have hstamped : r.session.stamped σ (draw r.drawn) writes = writes.map (σ.stamp i) := by
    rw [Session.stamped, hr.began, Option.getD_some]
  simp only [Prog.Ends, Prog.stmt, Prog.play, Racer.meet, hr.met, Stmt.answer, hstamped,
    Session.view, hr.writes, hr.state, hchecked]
  refine h _ ⟨hr.met, ?_, ?_, rfl, hr.found⟩
  · change some (r.session.began.getD _) = some i
    rw [hr.began, Option.getD_some]
  · change r.session.writes ++ _ = _
    rw [hr.writes]

theorem commit {ws : List Write} {i : Input} {f : Reply S Row Input → Unit} (hr : r.Within i ws met)
    (h : ∀ r', r'.After met (σ.applyAll met ws) → Q (.ok ()) r') :
    (Prog.stmt pt .commit f : Prog S Row Write Call Input Exc Point Unit).Ends σ draw r Q := by
  refine h _ ⟨hr.met, rfl, ?_, hr.found⟩
  change r.session.view σ r.state = _
  rw [Session.view, hr.writes, hr.state]

/-- Flush and commit. -/
theorem flush_commit {writes : List Write} {f g : Reply S Row Input → Unit}
    (hr : r.Before reads met)
    (hrefused : ∀ i e r', σ.firstError met (writes.map (σ.stamp i)) = some e →
      r'.After met met → Q (.error e) r')
    (haccepted : ∀ i r', σ.firstError met (writes.map (σ.stamp i)) = none →
      r'.After met (σ.applyAll met (writes.map (σ.stamp i))) → Q (.ok ()) r') :
    ((Prog.stmt pt (.flush writes) f : Prog S Row Write Call Input Exc Point Unit).bind
      fun _ => .stmt pt .commit g).Ends σ draw r Q :=
  bind (flush hr hrefused fun i _ hchecked hr' => commit hr' fun r'' hr'' =>
    haccepted i r'' hchecked hr'')

theorem rollback {f : Reply S Row Input → Unit} (hr : r.After met s)
    (h : ∀ r', r'.After met s → Q (.ok ()) r') :
    (Prog.stmt pt .rollback f : Prog S Row Write Call Input Exc Point Unit).Ends σ draw r Q :=
  h _ ⟨hr.met, rfl, hr.state, hr.found⟩

variable {Q : Except Exc α → Racer S Row Write Call Input → Prop}

/-- A read once all is committed. -/
theorem reread {f : Reply S Row Input → α} (hr : r.After met s)
    (h : ∀ i r', r'.After met s → Q (.ok (f ⟨s, fun _ => true, i⟩)) r') :
    (Prog.stmt pt .select f : Prog S Row Write Call Input Exc Point α).Ends σ draw r Q := by
  have hview : r.session.view σ r.state = s := by
    rw [Session.view, hr.writes, Storage.applyAll_nil, hr.state]
  have hQ := h (draw r.drawn) (r.advance (r.session.begin (draw r.drawn)) r.state)
    ⟨hr.met, hr.writes, hr.state, hr.found⟩
  simp only [Prog.Ends, Prog.stmt, Prog.play, Racer.meet, hr.met, Option.isSome_none,
    Bool.false_eq_true, if_false]
  rw [← hview] at hQ
  exact hQ

end Prog.Ends

end Rules

end Transact
