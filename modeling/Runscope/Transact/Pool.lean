import Runscope.Transact.Prog

/-!
Sessions interleaved under read committed.

The shared state holds what is committed. A session's open transaction keeps
the writes it has flushed and the rows it has locked; it sees the committed
state with its own writes applied, and `commit` makes that view the committed
state. A statement that needs a row locked by another session is not enabled
until the lock is gone. Everything else is free: the schedule decides which
session runs, when one starts, which one loses its connection and which one
is killed.
-/

namespace Transact

variable {S Row Write Call Input Exc Point α : Type}

/-- How writes act on the shared state. `same r` says that two states agree
on row `r`; the laws say that a write is checked against, and changes, only
the rows it locks. Names of rows that do not exist yet are rows too, so an
insert locks the key it creates. -/
structure Storage (S Row Write Call Input Exc : Type) where
  /-- Rows a write locks. -/
  rowsOf : Write → List Row
  /-- Server defaults, filled in from the start of the transaction. -/
  stamp : Input → Write → Write
  /-- Constraint violated by the write in the given view. -/
  check : Write → S → Option Exc
  apply : Write → S → S
  /-- Effect of a call outside the database; it is never rolled back. -/
  perform : Call → Input → S → S
  same : Row → S → S → Prop
  /-- Raised when the connection is lost. -/
  lost : Exc
  same_equiv : ∀ r, Equivalence (same r)
  same_apply : ∀ {w r}, r ∉ rowsOf w → ∀ s, same r s (apply w s)
  apply_congr : ∀ {w s s'}, (∀ r ∈ rowsOf w, same r s s') →
    ∀ r ∈ rowsOf w, same r (apply w s) (apply w s')
  check_congr : ∀ {w s s'}, (∀ r ∈ rowsOf w, same r s s') → check w s = check w s'
  same_perform : ∀ r c i s, same r s (perform c i s)

namespace Storage

variable (σ : Storage S Row Write Call Input Exc)

def applyAll (s : S) (ws : List Write) : S := ws.foldl (fun s w => σ.apply w s) s

/-- The first constraint violated when the writes are replayed in order. -/
def firstError (s : S) : List Write → Option Exc
  | [] => none
  | w :: ws =>
    match σ.check w s with
    | some e => some e
    | none => firstError (σ.apply w s) ws

@[simp] theorem applyAll_nil (s : S) : σ.applyAll s [] = s := rfl

@[simp] theorem applyAll_cons (s : S) (w : Write) (ws : List Write) :
    σ.applyAll s (w :: ws) = σ.applyAll (σ.apply w s) ws := rfl

@[simp] theorem applyAll_append (s : S) (ws ws' : List Write) :
    σ.applyAll s (ws ++ ws') = σ.applyAll (σ.applyAll s ws) ws' := by
  simp [applyAll]

@[simp] theorem firstError_nil (s : S) : σ.firstError s [] = none := rfl

theorem firstError_cons_eq_none {s : S} {w : Write} {ws : List Write} :
    σ.firstError s (w :: ws) = none ↔
      σ.check w s = none ∧ σ.firstError (σ.apply w s) ws = none := by
  rw [firstError]
  cases σ.check w s <;> simp

theorem firstError_append_eq_none {s : S} {ws ws' : List Write} :
    σ.firstError s (ws ++ ws') = none ↔
      σ.firstError s ws = none ∧ σ.firstError (σ.applyAll s ws) ws' = none := by
  induction ws generalizing s with
  | nil => simp
  | cons w ws ih => simp [firstError_cons_eq_none, ih, and_assoc]

/-- States that agree on a set of rows containing every row `w` locks agree
on it after `w`. -/
theorem apply_same_of_same {L : List Row} {s s' : S} {w : Write}
    (hL : ∀ r ∈ σ.rowsOf w, r ∈ L) (h : ∀ r ∈ L, σ.same r s s') :
    ∀ r ∈ L, σ.same r (σ.apply w s) (σ.apply w s') := by
  intro r hr
  by_cases hw : r ∈ σ.rowsOf w
  · exact σ.apply_congr (fun r' hr' => h r' (hL r' hr')) r hw
  · have hs := σ.same_apply hw s
    have hs' := σ.same_apply hw s'
    exact (σ.same_equiv r).trans ((σ.same_equiv r).symm hs) ((σ.same_equiv r).trans (h r hr) hs')

/-- What was accepted stays accepted while the locked rows do not change. -/
theorem firstError_congr {L : List Row} {s s' : S} {ws : List Write}
    (hL : ∀ w ∈ ws, ∀ r ∈ σ.rowsOf w, r ∈ L) (h : ∀ r ∈ L, σ.same r s s') :
    σ.firstError s ws = σ.firstError s' ws := by
  induction ws generalizing s s' with
  | nil => rfl
  | cons w ws ih =>
      have hcheck : σ.check w s = σ.check w s' :=
        σ.check_congr fun r hr => h r (hL w (by simp) r hr)
      have hrest := ih (fun w' hw' => hL w' (by simp [hw']))
        (σ.apply_same_of_same (hL w (by simp)) h)
      rw [firstError, firstError, hcheck, hrest]

/-- Rows no write locks are left alone. -/
theorem same_applyAll {r : Row} {ws : List Write} (hr : ∀ w ∈ ws, r ∉ σ.rowsOf w) (s : S) :
    σ.same r s (σ.applyAll s ws) := by
  induction ws generalizing s with
  | nil => exact (σ.same_equiv r).refl s
  | cons w ws ih =>
      have hw := σ.same_apply (hr w (by simp)) s
      exact (σ.same_equiv r).trans hw (ih (fun w' hw' => hr w' (by simp [hw'])) (σ.apply w s))

end Storage

/-- Where a session stands with the database: the inputs at the first
statement of its open transaction, if one has begun, the rows it locks and
the writes it has flushed; and, for the record, all writes it has committed
and all calls it has made so far. -/
structure Session (Row Write Call Input : Type) where
  began : Option Input
  locks : List Row
  writes : List Write
  committed : List Write
  called : List Call

namespace Session

/-- A session that has done nothing yet. -/
def fresh : Session Row Write Call Input := ⟨none, [], [], [], []⟩

/-- The open transaction is gone. -/
def close (t : Session Row Write Call Input) : Session Row Write Call Input :=
  { t with began := none, locks := [], writes := [] }

/-- The open transaction is committed. -/
def finish (t : Session Row Write Call Input) : Session Row Write Call Input :=
  { t.close with committed := t.committed ++ t.writes }

def begin (t : Session Row Write Call Input) (i : Input) : Session Row Write Call Input :=
  { t with began := some (t.began.getD i) }

/-- The committed state with the transaction's own writes. -/
def view (t : Session Row Write Call Input) (σ : Storage S Row Write Call Input Exc) (s : S) : S :=
  σ.applyAll s t.writes

def lock (t : Session Row Write Call Input) (rows : List Row) : Session Row Write Call Input :=
  { t with locks := rows ++ t.locks }

/-- The writes accepted in this transaction grow by `ws`. -/
def write (t : Session Row Write Call Input) (σ : Storage S Row Write Call Input Exc)
    (ws : List Write) : Session Row Write Call Input :=
  { t with locks := ws.flatMap σ.rowsOf ++ t.locks, writes := t.writes ++ ws }

def record (t : Session Row Write Call Input) (c : Call) : Session Row Write Call Input :=
  { t with called := t.called ++ [c] }

/-- The writes as the server receives them in this transaction. -/
def stamped (t : Session Row Write Call Input) (σ : Storage S Row Write Call Input Exc) (i : Input)
    (ws : List Write) : List Write :=
  ws.map (σ.stamp (t.began.getD i))

@[simp] theorem fresh_locks : (fresh : Session Row Write Call Input).locks = [] := rfl
@[simp] theorem fresh_writes : (fresh : Session Row Write Call Input).writes = [] := rfl
@[simp] theorem fresh_began : (fresh : Session Row Write Call Input).began = none := rfl
@[simp] theorem fresh_committed : (fresh : Session Row Write Call Input).committed = [] := rfl
@[simp] theorem fresh_called : (fresh : Session Row Write Call Input).called = [] := rfl
@[simp] theorem view_fresh (σ : Storage S Row Write Call Input Exc) (s : S) :
    (fresh : Session Row Write Call Input).view σ s = s := rfl

variable (t : Session Row Write Call Input)

@[simp] theorem close_locks : t.close.locks = [] := rfl
@[simp] theorem close_writes : t.close.writes = [] := rfl
@[simp] theorem close_began : t.close.began = none := rfl
@[simp] theorem close_committed : t.close.committed = t.committed := rfl
@[simp] theorem close_called : t.close.called = t.called := rfl
@[simp] theorem finish_locks : t.finish.locks = [] := rfl
@[simp] theorem finish_writes : t.finish.writes = [] := rfl
@[simp] theorem finish_began : t.finish.began = none := rfl
@[simp] theorem finish_committed : t.finish.committed = t.committed ++ t.writes := rfl
@[simp] theorem finish_called : t.finish.called = t.called := rfl
@[simp] theorem begin_locks (i : Input) : (t.begin i).locks = t.locks := rfl
@[simp] theorem begin_writes (i : Input) : (t.begin i).writes = t.writes := rfl
@[simp] theorem begin_began (i : Input) : (t.begin i).began = some (t.began.getD i) := rfl
@[simp] theorem begin_committed (i : Input) : (t.begin i).committed = t.committed := rfl
@[simp] theorem begin_called (i : Input) : (t.begin i).called = t.called := rfl
@[simp] theorem lock_locks (rows : List Row) : (t.lock rows).locks = rows ++ t.locks := rfl
@[simp] theorem lock_writes (rows : List Row) : (t.lock rows).writes = t.writes := rfl
@[simp] theorem lock_began (rows : List Row) : (t.lock rows).began = t.began := rfl
@[simp] theorem lock_committed (rows : List Row) : (t.lock rows).committed = t.committed := rfl
@[simp] theorem lock_called (rows : List Row) : (t.lock rows).called = t.called := rfl
@[simp] theorem record_locks (c : Call) : (t.record c).locks = t.locks := rfl
@[simp] theorem record_writes (c : Call) : (t.record c).writes = t.writes := rfl
@[simp] theorem record_began (c : Call) : (t.record c).began = t.began := rfl
@[simp] theorem record_committed (c : Call) : (t.record c).committed = t.committed := rfl
@[simp] theorem record_called (c : Call) : (t.record c).called = t.called ++ [c] := rfl

variable (σ : Storage S Row Write Call Input Exc)

@[simp] theorem write_locks (ws : List Write) :
    (t.write σ ws).locks = ws.flatMap σ.rowsOf ++ t.locks := rfl
@[simp] theorem write_writes (ws : List Write) : (t.write σ ws).writes = t.writes ++ ws := rfl
@[simp] theorem write_began (ws : List Write) : (t.write σ ws).began = t.began := rfl
@[simp] theorem write_committed (ws : List Write) : (t.write σ ws).committed = t.committed := rfl
@[simp] theorem write_called (ws : List Write) : (t.write σ ws).called = t.called := rfl
@[simp] theorem view_close (s : S) : t.close.view σ s = s := rfl
@[simp] theorem view_finish (s : S) : t.finish.view σ s = s := rfl
@[simp] theorem view_begin (i : Input) (s : S) : (t.begin i).view σ s = t.view σ s := rfl
@[simp] theorem view_lock (rows : List Row) (s : S) : (t.lock rows).view σ s = t.view σ s := rfl
@[simp] theorem view_record (c : Call) (s : S) : (t.record c).view σ s = t.view σ s := rfl
@[simp] theorem view_write (ws : List Write) (s : S) :
    (t.write σ ws).view σ s = σ.applyAll (t.view σ s) ws := by
  simp [view]

end Session

/-- Runs the next statement of a program. `none` when the program has ended
or its statement waits for a row that is not free. -/
def Prog.exec (σ : Storage S Row Write Call Input Exc) (free : Row → Bool) (i : Input) :
    Prog S Row Write Call Input Exc Point α → Session Row Write Call Input → S →
      Option (Prog S Row Write Call Input Exc Point α × Session Row Write Call Input × S)
  | .ret _, _, _ => none
  | .raise _, _, _ => none
  | .step _ .select next, t, s => some (next (.ok ⟨t.view σ s, fun _ => true, i⟩), t.begin i, s)
  | .step _ (.lock skip rows) next, t, s =>
      let choice := if skip then free else fun _ => true
      let found := rows (t.view σ s) choice
      if found.all free then
        some (next (.ok ⟨t.view σ s, choice, i⟩), (t.begin i).lock found, s)
      else none
  | .step _ (.flush writes) next, t, s =>
      let ws := t.stamped σ i writes
      if (ws.flatMap σ.rowsOf).all free then
        match σ.firstError (t.view σ s) ws with
        | some e => some (next (.error e), t.close, s)
        | none =>
            some (next (.ok ⟨σ.applyAll (t.view σ s) ws, fun _ => true, i⟩), (t.begin i).write σ ws, s)
      else none
  | .step _ .commit next, t, s => some (next (.ok ⟨t.view σ s, fun _ => true, i⟩), t.finish, t.view σ s)
  | .step _ .rollback next, t, s => some (next (.ok ⟨s, fun _ => true, i⟩), t.close, s)
  | .step _ (.call c) next, t, s =>
      some (next (.ok ⟨t.view σ (σ.perform c i s), fun _ => true, i⟩), t.record c, σ.perform c i s)

/-- The statement at hand loses the connection: its transaction is gone and
the program sees the exception. Calls do not use the connection. -/
def Prog.fault (σ : Storage S Row Write Call Input Exc) :
    Prog S Row Write Call Input Exc Point α → Option (Prog S Row Write Call Input Exc Point α)
  | .ret _ => none
  | .raise _ => none
  | .step _ (.call _) _ => none
  | .step _ _ next => some (next (.error σ.lost))

/-- A process: what it runs, how far it got, where its session stands. -/
structure Proc (K S Row Write Call Input Exc Point : Type) where
  kind : K
  prog : Prog S Row Write Call Input Exc Point Unit
  session : Session Row Write Call Input

structure World (K S Row Write Call Input Exc Point : Type) where
  state : S
  procs : List (Proc K S Row Write Call Input Exc Point)

/-- A choice of the schedule. -/
inductive Action (K Input : Type) where
  | spawn (k : K)
  | run (pid : ℕ) (i : Input)
  | fault (pid : ℕ)
  | kill (pid : ℕ)

/-- The sessions that exist: the program of each kind, and when a session of
that kind may start. -/
structure System (K S Row Write Call Input Exc Point : Type) where
  storage : Storage S Row Write Call Input Exc
  code : K → Prog S Row Write Call Input Exc Point Unit
  admits : K → S → Prop
  admits_dec : ∀ k s, Decidable (admits k s)

variable {K : Type} [DecidableEq Row]

namespace World

/-- Rows that no session other than `pid` holds. -/
def free (w : World K S Row Write Call Input Exc Point) (pid : ℕ) (r : Row) : Bool :=
  w.procs.zipIdx.all fun q => q.2 == pid || !q.1.session.locks.contains r

def step (sys : System K S Row Write Call Input Exc Point)
    (w : World K S Row Write Call Input Exc Point) :
    Action K Input → Option (World K S Row Write Call Input Exc Point)
  | .spawn k =>
      haveI := sys.admits_dec k w.state
      if sys.admits k w.state then
        some { w with procs := w.procs ++ [⟨k, sys.code k, .fresh⟩] }
      else none
  | .run pid i =>
      match w.procs[pid]? with
      | none => none
      | some p =>
          match p.prog.exec sys.storage (w.free pid) i p.session w.state with
          | none => none
          | some (prog, session, s) => some ⟨s, w.procs.set pid ⟨p.kind, prog, session⟩⟩
  | .fault pid =>
      match w.procs[pid]? with
      | none => none
      | some p =>
          match p.prog.fault sys.storage with
          | none => none
          | some prog => some { w with procs := w.procs.set pid ⟨p.kind, prog, p.session.close⟩ }
  | .kill pid =>
      match w.procs[pid]? with
      | none => none
      | some p =>
          some { w with procs := w.procs.set pid ⟨p.kind, .raise sys.storage.lost, p.session.close⟩ }

/-- No session yet. -/
def initial (s : S) : World K S Row Write Call Input Exc Point := ⟨s, []⟩

/-- The world after a schedule; `none` if some choice was not enabled. -/
def exec (sys : System K S Row Write Call Input Exc Point)
    (w : World K S Row Write Call Input Exc Point) :
    List (Action K Input) → Option (World K S Row Write Call Input Exc Point)
  | [] => some w
  | a :: as =>
    match w.step sys a with
    | none => none
    | some w' => w'.exec sys as

end World

/-- The system in which only sessions of the kinds in `may` start. -/
def System.restrict (sys : System K S Row Write Call Input Exc Point) (may : K → Prop)
    [DecidablePred may] : System K S Row Write Call Input Exc Point where
  storage := sys.storage
  code := sys.code
  admits k s := sys.admits k s ∧ may k
  admits_dec k s := haveI := sys.admits_dec k s; inferInstance

theorem World.step_restrict {sys : System K S Row Write Call Input Exc Point} {may : K → Prop}
    [DecidablePred may] {w w' : World K S Row Write Call Input Exc Point} {a : Action K Input}
    (h : w.step (sys.restrict may) a = some w') : w.step sys a = some w' := by
  cases a with
  | spawn k =>
      simp only [World.step, Option.ite_none_right_eq_some] at h ⊢
      exact ⟨h.1.1, h.2⟩
  | run | fault | kill => exact h

/-- Worlds reached from `w₀` by steps that `allowed` admits. -/
inductive Reach (sys : System K S Row Write Call Input Exc Point)
    (allowed : World K S Row Write Call Input Exc Point → Action K Input →
      World K S Row Write Call Input Exc Point → Prop)
    (w₀ : World K S Row Write Call Input Exc Point) :
    World K S Row Write Call Input Exc Point → Prop where
  | refl : Reach sys allowed w₀ w₀
  | step {w w' : World K S Row Write Call Input Exc Point} {a : Action K Input} :
      Reach sys allowed w₀ w → w.step sys a = some w' → allowed w a w' →
      Reach sys allowed w₀ w'

/-- Fewer steps are allowed. -/
theorem Reach.mono {sys : System K S Row Write Call Input Exc Point}
    {allowed allowed' : World K S Row Write Call Input Exc Point → Action K Input →
      World K S Row Write Call Input Exc Point → Prop}
    {w₀ w : World K S Row Write Call Input Exc Point} (h : Reach sys allowed w₀ w)
    (hallowed : ∀ w a w', allowed w a w' → allowed' w a w') : Reach sys allowed' w₀ w := by
  induction h with
  | refl => exact .refl
  | step _ hstep ha ih => exact .step ih hstep (hallowed _ _ _ ha)

/-- What can be reached from a world that can be reached. -/
theorem Reach.trans {sys : System K S Row Write Call Input Exc Point}
    {allowed : World K S Row Write Call Input Exc Point → Action K Input →
      World K S Row Write Call Input Exc Point → Prop}
    {w₀ w w' : World K S Row Write Call Input Exc Point} (h : Reach sys allowed w₀ w)
    (h' : Reach sys allowed w w') : Reach sys allowed w₀ w' := by
  induction h' with
  | refl => exact h
  | step _ hstep ha ih => exact .step ih hstep ha

theorem Reach.of_restrict {sys : System K S Row Write Call Input Exc Point} {may : K → Prop}
    [DecidablePred may]
    {allowed : World K S Row Write Call Input Exc Point → Action K Input →
      World K S Row Write Call Input Exc Point → Prop}
    {w₀ w : World K S Row Write Call Input Exc Point}
    (h : Reach (sys.restrict may) allowed w₀ w) : Reach sys allowed w₀ w := by
  induction h with
  | refl => exact .refl
  | step _ hstep ha ih => exact .step ih (World.step_restrict hstep) ha

/-- The world after a schedule whose steps all pass the check. -/
def World.execIf (sys : System K S Row Write Call Input Exc Point)
    (check : World K S Row Write Call Input Exc Point → Action K Input →
      World K S Row Write Call Input Exc Point → Bool)
    (w : World K S Row Write Call Input Exc Point) :
    List (Action K Input) → Option (World K S Row Write Call Input Exc Point)
  | [] => some w
  | a :: as =>
    match w.step sys a with
    | none => none
    | some w' => if check w a w' then w'.execIf sys check as else none

theorem Reach.of_execIf {sys : System K S Row Write Call Input Exc Point}
    {allowed : World K S Row Write Call Input Exc Point → Action K Input →
      World K S Row Write Call Input Exc Point → Prop}
    {check : World K S Row Write Call Input Exc Point → Action K Input →
      World K S Row Write Call Input Exc Point → Bool}
    (hcheck : ∀ w a w', check w a w' → allowed w a w')
    {w₀ w w' : World K S Row Write Call Input Exc Point} {as : List (Action K Input)}
    (h : Reach sys allowed w₀ w) (hexec : w.execIf sys check as = some w') :
    Reach sys allowed w₀ w' := by
  induction as generalizing w with
  | nil =>
      obtain rfl := Option.some.inj hexec
      exact h
  | cons a as ih =>
      simp only [World.execIf] at hexec
      split at hexec
      · cases hexec
      · next hstep =>
        split at hexec
        · next hpass => exact ih (.step h hstep (hcheck _ _ _ hpass)) hexec
        · cases hexec

/-- A schedule that goes through reaches its last world, if its steps are
allowed wherever `P` holds, and keep `P`. -/
theorem Reach.of_exec_of {sys : System K S Row Write Call Input Exc Point}
    {allowed : World K S Row Write Call Input Exc Point → Action K Input →
      World K S Row Write Call Input Exc Point → Prop}
    {P : World K S Row Write Call Input Exc Point → Prop}
    {w₀ w w' : World K S Row Write Call Input Exc Point} {as : List (Action K Input)}
    (hP : ∀ a ∈ as, ∀ w w', P w → w.step sys a = some w' → P w' ∧ allowed w a w')
    (hw : P w) (h : Reach sys allowed w₀ w) (hexec : w.exec sys as = some w') :
    Reach sys allowed w₀ w' := by
  induction as generalizing w with
  | nil =>
      obtain rfl := Option.some.inj hexec
      exact h
  | cons a as ih =>
      simp only [World.exec] at hexec
      split at hexec
      · cases hexec
      · next hstep =>
        obtain ⟨hw', hallowed⟩ := hP a (by simp) _ _ hw hstep
        exact ih (fun b hb => hP b (by simp [hb])) hw' (.step h hstep hallowed) hexec

/-- A schedule that goes through reaches its last world. -/
theorem Reach.of_exec {sys : System K S Row Write Call Input Exc Point}
    {w₀ w w' : World K S Row Write Call Input Exc Point} {as : List (Action K Input)}
    (h : Reach sys (fun _ _ _ => True) w₀ w) (hexec : w.exec sys as = some w') :
    Reach sys (fun _ _ _ => True) w₀ w' :=
  .of_exec_of (P := fun _ => True) (fun _ _ _ _ _ _ => ⟨trivial, trivial⟩) trivial h hexec

end Transact
