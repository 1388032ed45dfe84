import Runscope.Transact.Alone

/-!
A session that runs alone, from its first statement to its last.

Where no other session runs, what becomes of a program is determined by its
surroundings: the inputs its statements draw, and where the connection is
lost. `Prog.alone` computes it and keeps the moments the session went through.
-/

namespace Transact

variable {S Row Write Call Input Exc Point α β : Type}

/-- What the `n`-th statement draws, and whether the connection is lost there. -/
structure Surroundings (S Row Write Call Input : Type) where
  draw : ℕ → Stmt S Row Write Call → Input
  lost : ℕ → Stmt S Row Write Call → Bool

/-- The connection is never lost. -/
def Surroundings.Steady (env : Surroundings S Row Write Call Input) : Prop :=
  ∀ n st, env.lost n st = false

/-- A statement about to be executed. -/
structure Moment (S Row Write Call Input : Type) where
  stmt : Stmt S Row Write Call
  session : Session Row Write Call Input
  state : S

/-- What the session sees. -/
def Moment.view (m : Moment S Row Write Call Input) (σ : Storage S Row Write Call Input Exc) : S :=
  m.session.view σ m.state

/-- A session between two statements: what it has been through, where it
stands with the database, and the committed state. -/
structure Turn (S Row Write Call Input : Type) where
  past : List (Moment S Row Write Call Input)
  session : Session Row Write Call Input
  state : S

namespace Turn

/-- A session that begins. -/
def start (s : S) : Turn S Row Write Call Input := ⟨[], .fresh, s⟩

variable (r : Turn S Row Write Call Input)

def view (σ : Storage S Row Write Call Input Exc) : S := r.session.view σ r.state

/-- The number of the next statement. -/
def count : ℕ := r.past.length

/-- The next statement takes the session to `t` and the state to `s`. -/
def advance (st : Stmt S Row Write Call) (t : Session Row Write Call Input) (s : S) :
    Turn S Row Write Call Input :=
  ⟨r.past ++ [⟨st, r.session, r.state⟩], t, s⟩

variable (st : Stmt S Row Write Call) (t : Session Row Write Call Input) (s : S)

@[simp] theorem advance_session : (r.advance st t s).session = t := rfl
@[simp] theorem advance_state : (r.advance st t s).state = s := rfl
@[simp] theorem advance_past :
    (r.advance st t s).past = r.past ++ [⟨st, r.session, r.state⟩] := rfl
@[simp] theorem start_session : (start s : Turn S Row Write Call Input).session = .fresh := rfl
@[simp] theorem start_state : (start s : Turn S Row Write Call Input).state = s := rfl
@[simp] theorem start_past : (start s : Turn S Row Write Call Input).past = [] := rfl

end Turn

variable (σ : Storage S Row Write Call Input Exc) (env : Surroundings S Row Write Call Input)

/-- How the program ends, and where its session stands then. -/
def Prog.alone : Prog S Row Write Call Input Exc Point α → Turn S Row Write Call Input →
    Except Exc α × Turn S Row Write Call Input
  | .ret a, r => (.ok a, r)
  | .raise e, r => (.error e, r)
  | .step _ st next, r =>
    if st.connects && env.lost r.count st then
      (next (.error σ.lost)).alone (r.advance st r.session.close r.state)
    else
      let a := st.answer σ (env.draw r.count st) r.session r.state
      (next a.1).alone (r.advance st a.2.1 a.2.2)

/-- The program ends with an outcome and at a turn satisfying `Q`. -/
def Prog.Leads (p : Prog S Row Write Call Input Exc Point α) (r : Turn S Row Write Call Input)
    (Q : Except Exc α → Turn S Row Write Call Input → Prop) : Prop :=
  Q (p.alone σ env r).1 (p.alone σ env r).2

section Rules

variable {σ env} {r : Turn S Row Write Call Input}
  {Q : Except Exc α → Turn S Row Write Call Input → Prop}

/-- What a session does alone, it does in steps. -/
theorem Prog.alone_steps (p : Prog S Row Write Call Input Exc Point α)
    (r : Turn S Row Write Call Input) :
    Relation.ReflTransGen (Solo.Step σ) ⟨p, r.session, r.state⟩
      ⟨.ofExcept (p.alone σ env r).1, (p.alone σ env r).2.session, (p.alone σ env r).2.state⟩ := by
  induction p generalizing r with
  | ret a => exact .refl
  | raise e => exact .refl
  | step pt st next ih =>
      rw [alone]
      split
      · next hlost =>
        refine .head (.fault ?_) (ih _ (r.advance st r.session.close r.state))
        obtain ⟨hconnects, -⟩ := Bool.and_eq_true_iff.mp hlost
        cases st with
        | call c => cases hconnects
        | select | lock | flush | commit | rollback => rfl
      · exact .head (.run _ (Prog.exec_step ..)) (ih _ (r.advance st _ _))

theorem Prog.alone_andThen (p : Prog S Row Write Call Input Exc Point α)
    (k : Except Exc α → Prog S Row Write Call Input Exc Point β) :
    (p.andThen k).alone σ env r = (k (p.alone σ env r).1).alone σ env (p.alone σ env r).2 := by
  induction p generalizing r with
  | ret a => rfl
  | raise e => rfl
  | step pt st next ih =>
      rw [andThen, alone, alone]
      split
      · exact ih _
      · exact ih _

namespace Prog.Leads

theorem ret {a : α} (h : Q (.ok a) r) :
    (Prog.ret a : Prog S Row Write Call Input Exc Point α).Leads σ env r Q := h

theorem raise {e : Exc} (h : Q (.error e) r) :
    (Prog.raise e : Prog S Row Write Call Input Exc Point α).Leads σ env r Q := h

theorem mono {p : Prog S Row Write Call Input Exc Point α}
    {Q' : Except Exc α → Turn S Row Write Call Input → Prop} (h : p.Leads σ env r Q)
    (hQ : ∀ outcome r, Q outcome r → Q' outcome r) : p.Leads σ env r Q' := hQ _ _ h

/-- Two facts about one program. -/
theorem and {p : Prog S Row Write Call Input Exc Point α}
    {Q' : Except Exc α → Turn S Row Write Call Input → Prop} (h : p.Leads σ env r Q)
    (h' : p.Leads σ env r Q') : p.Leads σ env r fun outcome r => Q outcome r ∧ Q' outcome r :=
  ⟨h, h'⟩

theorem andThen {p : Prog S Row Write Call Input Exc Point β}
    {k : Except Exc β → Prog S Row Write Call Input Exc Point α}
    (h : p.Leads σ env r fun outcome r => (k outcome).Leads σ env r Q) :
    (p.andThen k).Leads σ env r Q := by
  rw [Leads, alone_andThen]
  exact h

/-- Sequencing: what the first program raises, the whole raises. -/
theorem bind {p : Prog S Row Write Call Input Exc Point β}
    {k : β → Prog S Row Write Call Input Exc Point α}
    (h : p.Leads σ env r fun outcome r =>
      match outcome with
      | .ok b => (k b).Leads σ env r Q
      | .error e => Q (.error e) r) :
    (p.bind k).Leads σ env r Q := by
  refine andThen (h.mono fun outcome r h => ?_)
  cases outcome with
  | ok b => exact h
  | error e => exact raise h

variable {pt : Point}

/-- One statement. -/
theorem stmt {st : Stmt S Row Write Call} {f : Reply S Row Input → α}
    (hlost : env.lost r.count st = true →
      Q (.error σ.lost) (r.advance st r.session.close r.state))
    (h : ∀ i, i = env.draw r.count st → Q ((st.answer σ i r.session r.state).1.map f)
      (r.advance st (st.answer σ i r.session r.state).2.1 (st.answer σ i r.session r.state).2.2)) :
    (Prog.stmt pt st f : Prog S Row Write Call Input Exc Point α).Leads σ env r Q := by
  rw [Leads, Prog.stmt, alone]
  split
  · next hconnects => exact hlost (Bool.and_eq_true_iff.mp hconnects).2
  · have hQ := h _ rfl
    cases hanswer : st.answer σ (env.draw r.count st) r.session r.state with
    | mk reply rest =>
        rw [hanswer] at hQ
        cases reply with
        | ok reply | error e => exact hQ

theorem select {f : Reply S Row Input → α}
    (hlost : env.lost r.count .select = true →
      Q (.error σ.lost) (r.advance .select r.session.close r.state))
    (h : ∀ i, Q (.ok (f ⟨r.view σ, fun _ => true, i⟩))
      (r.advance .select (r.session.begin i) r.state)) :
    (Prog.stmt pt .select f : Prog S Row Write Call Input Exc Point α).Leads σ env r Q :=
  stmt hlost fun i _ => h i

/-- A lock gets every row it asks for. -/
theorem lock {skip : Bool} {rows : S → (Row → Bool) → List Row} {f : Reply S Row Input → α}
    (hlost : env.lost r.count (.lock skip rows) = true →
      Q (.error σ.lost) (r.advance (.lock skip rows) r.session.close r.state))
    (h : ∀ i, Q (.ok (f ⟨r.view σ, fun _ => true, i⟩))
      (r.advance (.lock skip rows)
        ((r.session.begin i).lock (rows (r.view σ) fun _ => true)) r.state)) :
    (Prog.stmt pt (.lock skip rows) f : Prog S Row Write Call Input Exc Point α).Leads σ env r Q :=
  stmt hlost fun i _ => h i

theorem call {c : Call} {f : Reply S Row Input → α}
    (h : ∀ i, i = env.draw r.count (.call c) →
      Q (.ok (f ⟨r.session.view σ (σ.perform c i r.state), fun _ => true, i⟩))
        (r.advance (.call c) (r.session.record c) (σ.perform c i r.state))) :
    (Prog.stmt pt (.call c) f : Prog S Row Write Call Input Exc Point α).Leads σ env r Q := by
  rw [Leads, Prog.stmt, alone]
  exact h _ rfl

theorem commit {f : Reply S Row Input → α}
    (hlost : env.lost r.count .commit = true →
      Q (.error σ.lost) (r.advance .commit r.session.close r.state))
    (h : ∀ i, Q (.ok (f ⟨r.view σ, fun _ => true, i⟩))
      (r.advance .commit r.session.finish (r.view σ))) :
    (Prog.stmt pt .commit f : Prog S Row Write Call Input Exc Point α).Leads σ env r Q :=
  stmt hlost fun i _ => h i

/-- A flush, refused or accepted. -/
theorem flush {writes : List Write} {f : Reply S Row Input → α}
    (hlost : env.lost r.count (.flush writes) = true →
      Q (.error σ.lost) (r.advance (.flush writes) r.session.close r.state))
    (hrefused : ∀ i e, σ.firstError (r.view σ) (r.session.stamped σ i writes) = some e →
      Q (.error e) (r.advance (.flush writes) r.session.close r.state))
    (haccepted : ∀ i, σ.firstError (r.view σ) (r.session.stamped σ i writes) = none →
      Q (.ok (f ⟨σ.applyAll (r.view σ) (r.session.stamped σ i writes), fun _ => true, i⟩))
        (r.advance (.flush writes)
          ((r.session.begin i).write σ (r.session.stamped σ i writes)) r.state)) :
    (Prog.stmt pt (.flush writes) f : Prog S Row Write Call Input Exc Point α).Leads σ env r Q := by
  refine stmt hlost fun i _ => ?_
  have hview : r.session.view σ r.state = r.view σ := rfl
  simp only [Stmt.answer, hview]
  cases herror : σ.firstError (r.view σ) (r.session.stamped σ i writes) with
  | some e => exact hrefused i e herror
  | none => exact haccepted i herror

end Prog.Leads

end Rules

section Worlds

variable {K : Type} [DecidableEq Row] {sys : System K S Row Write Call Input Exc Point}
  {w : World K S Row Write Call Input Exc Point} {pid : ℕ}
  {p : Proc K S Row Write Call Input Exc Point}

/-- No session but `pid` holds a lock. -/
def World.Uncontended (w : World K S Row Write Call Input Exc Point) (pid : ℕ) : Prop :=
  ∀ j q, w.procs[j]? = some q → j ≠ pid → q.session.locks = []

theorem World.free_of_uncontended (h : w.Uncontended pid) : w.free pid = fun _ => true := by
  funext row
  refine List.all_eq_true.mpr fun ⟨q, j⟩ hq => ?_
  rw [List.mk_mem_zipIdx_iff_getElem?] at hq
  by_cases hj : j = pid
  · simp [hj]
  · simp [h j q hq hj]

/-- What a session does alone, it can do in a world where no other session
holds a lock, while the others rest. -/
theorem Reach.of_solo {c : Solo S Row Write Call Input Exc Point Unit}
    (hp : w.procs[pid]? = some p) (hfree : w.Uncontended pid)
    (h : Relation.ReflTransGen (Solo.Step sys.storage) ⟨p.prog, p.session, w.state⟩ c) :
    Reach sys (fun _ _ _ => True) w ⟨c.state, w.procs.set pid ⟨p.kind, c.prog, c.session⟩⟩ := by
  obtain ⟨hlt, hget⟩ := List.getElem?_eq_some_iff.mp hp
  induction h with
  | refl =>
      have hset : w.procs.set pid ⟨p.kind, p.prog, p.session⟩ = w.procs := by
        rw [← hget]
        exact List.set_getElem_self hlt
      rw [hset]
      exact .refl
  | @tail b c _ hstep ih =>
      have hprocs : (w.procs.set pid ⟨p.kind, b.prog, b.session⟩)[pid]? =
          some ⟨p.kind, b.prog, b.session⟩ := by simp [hlt]
      have huncontended : World.Uncontended
          ⟨b.state, w.procs.set pid ⟨p.kind, b.prog, b.session⟩⟩ pid := by
        intro j q hq hj
        rw [List.getElem?_set_ne (Ne.symm hj)] at hq
        exact hfree j q hq hj
      cases hstep with
      | run i hexec =>
          refine .step (a := .run pid i) ih ?_ trivial
          simp only [World.step, hprocs, World.free_of_uncontended huncontended, hexec,
            List.set_set]
      | fault hfault =>
          refine .step (a := .fault pid) ih ?_ trivial
          simp only [World.step, hprocs, hfault, List.set_set]

/-- Every session is over and holds nothing. -/
def World.Settled (w : World K S Row Write Call Input Exc Point) : Prop :=
  ∀ q ∈ w.procs, q.prog.point? = none ∧ q.session.locks = []

/-- The first `n` sessions are killed. -/
theorem Reach.kill (sys : System K S Row Write Call Input Exc Point)
    (w : World K S Row Write Call Input Exc Point) (n : ℕ) :
    ∃ w', Reach sys (fun _ _ _ => True) w w' ∧ w'.state = w.state ∧
      w'.procs.length = w.procs.length ∧ ∀ (j : ℕ) q, w'.procs[j]? = some q → j < n →
        q.prog.point? = none ∧ q.session.locks = [] := by
  induction n with
  | zero => exact ⟨w, .refl, rfl, rfl, fun j q hq hj => absurd hj (Nat.not_lt_zero j)⟩
  | succ n ih =>
      obtain ⟨w', hreach, hstate, hlength, hkilled⟩ := ih
      cases hp : w'.procs[n]? with
      | none =>
          refine ⟨w', hreach, hstate, hlength, fun j q hq hj => hkilled j q hq ?_⟩
          obtain ⟨hlt, -⟩ := List.getElem?_eq_some_iff.mp hq
          have hle := List.getElem?_eq_none_iff.mp hp
          omega
      | some p =>
          refine ⟨{ w' with procs := w'.procs.set n ⟨p.kind, .raise sys.storage.lost, p.session.close⟩ },
            .step (a := .kill n) hreach (by simp [World.step, hp]) trivial, hstate, by simpa, ?_⟩
          intro j q hq hj
          by_cases hjn : n = j
          · subst hjn
            rw [List.getElem?_set_self (List.getElem?_eq_some_iff.mp hp).1] at hq
            obtain rfl := Option.some.inj hq
            exact ⟨rfl, rfl⟩
          · rw [List.getElem?_set_ne hjn] at hq
            exact hkilled j q hq (by omega)

/-- Whatever the sessions are at, they may all be killed. -/
theorem Reach.settle (sys : System K S Row Write Call Input Exc Point)
    (w : World K S Row Write Call Input Exc Point) :
    ∃ w', Reach sys (fun _ _ _ => True) w w' ∧ w'.state = w.state ∧ w'.Settled := by
  obtain ⟨w', hreach, hstate, hlength, hkilled⟩ := Reach.kill sys w w.procs.length
  refine ⟨w', hreach, hstate, fun q hq => ?_⟩
  obtain ⟨j, hj⟩ := List.getElem?_of_mem hq
  exact hkilled j q hj (hlength ▸ (List.getElem?_eq_some_iff.mp hj).1)

/-- Where every session is over, one more can run alone from its first
statement to its last. -/
theorem Reach.of_alone {k : K} (hsettled : w.Settled) (hadmits : sys.admits k w.state)
    (env : Surroundings S Row Write Call Input) :
    ∃ w', Reach sys (fun _ _ _ => True) w w' ∧
      w'.state = ((sys.code k).alone sys.storage env (.start w.state)).2.state := by
  let w₁ : World K S Row Write Call Input Exc Point :=
    { w with procs := w.procs ++ [⟨k, sys.code k, .fresh⟩] }
  have hspawned : Reach sys (fun _ _ _ => True) w w₁ :=
    .step (a := .spawn k) .refl (by simp [World.step, hadmits, w₁]) trivial
  have hp : w₁.procs[w.procs.length]? = some ⟨k, sys.code k, .fresh⟩ := by simp [w₁]
  have hfree : w₁.Uncontended w.procs.length := by
    intro j q hq hj
    rcases List.mem_append.mp (List.mem_of_getElem? hq) with hmem | hmem
    · exact (hsettled q hmem).2
    · obtain rfl := List.mem_singleton.mp hmem
      rfl
  exact ⟨_, hspawned.trans (.of_solo hp hfree (Prog.alone_steps (sys.code k) (.start w.state))), rfl⟩

end Worlds

end Transact
