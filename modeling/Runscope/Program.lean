import Runscope.Storage

/-!
The statements the services send through an `AsyncSession`.

Loaded rows are values: a function that assigns to the attributes of a row
passes the changed value on. What is pending in the session is passed along
too, and is flushed where SQLAlchemy does so: before a query (autoflush), by
`flush` and by `commit`.
-/

namespace Runscope

open Transact

/-- What the rest of a program still builds on at a statement. -/
structure Point where
  /-- The worker whose row was loaded without a lock and whose capacity this
  transaction is going to write. -/
  worker : Option Uuid := none
  /-- The worker whose row was loaded without a lock and whose capacity this
  transaction is going to count against the totals it has loaded. -/
  totals : Option Uuid := none
  /-- The run for which telemetry is still to be committed, in transactions
  that do not write the run itself. -/
  records : Option Uuid := none
  /-- The session has begun a transaction, so that a rollback expires the rows
  it has loaded. -/
  begun : Bool := false

abbrev Program := Prog Platform RowKey Write Call Input Exc Point

variable {α : Type}

namespace session

/-- A `SELECT`. -/
def select (pt : Point) (query : Db → α) : Program α :=
  .stmt pt .select fun reply => query reply.view.db

/-- A `SELECT … FOR UPDATE [SKIP LOCKED]`; the query is told which rows it may
choose. -/
def selectForUpdate (pt : Point) (skipLocked : Bool) (key : α → RowKey)
    (query : Db → (α → Bool) → List α) : Program (List α) :=
  .stmt pt (.lock skipLocked fun p free => (query p.db fun a => free (key a)).map key)
    fun reply => query reply.view.db fun a => reply.free (key a)

def flush (pt : Point) (pending : List Write) : Program Unit :=
  .stmt pt (.flush pending) fun _ => ()

/-- Flushes what is pending and commits. -/
def commit (pt : Point) (pending : List Write) : Program Unit := do
  flush pt pending
  .stmt pt .commit fun _ => ()

def rollback (pt : Point) : Program Unit :=
  .stmt pt .rollback fun _ => ()

/-- `session.get(Run, run_id)` of a run the session has not loaded, or has
expired by a rollback. -/
def getRun (pt : Point) (runId : Uuid) : Program (Option Run) :=
  select pt fun db => db.runs.get? runId

/-- `session.refresh(run)` -/
def refreshRun (pt : Point) (run : Run) : Program Run := do
  match ← getRun pt run.id with
  | some run => .ret run
  | none => .raise (.other "InvalidRequestError")

/-- `session.get(Worker, worker_id)` -/
def getWorker (pt : Point) (workerId : Uuid) : Program (Option Worker) :=
  select pt fun db => db.workers.get? workerId

/-- `session.refresh(worker)` -/
def refreshWorker (pt : Point) (worker : Worker) : Program Worker := do
  match ← getWorker pt worker.id with
  | some worker => .ret worker
  | none => .raise (.other "InvalidRequestError")

end session

/-- The database takes the text as a parameter of a statement: it has no NUL. -/
def storable (s : String) : Bool := Char.ofNat 0 ∉ s.toList

/-- What a statement with the text as a parameter raises before it runs. -/
def sendText (s : String) : Except Exc Unit :=
  if storable s then .ok () else .error (.other "DBAPIError")

/-- The loaded copy after its update has been flushed. -/
def Run.flushed (run : Run) : Run := { run with version := run.version + 1 }

@[simp] theorem Run.flushed_id (run : Run) : run.flushed.id = run.id := rfl

@[simp] theorem Run.flushed_status (run : Run) : run.flushed.status = run.status := rfl

/-- The update of a loaded row, if the session changed it. -/
def workerUpdate (loaded changed : Worker) : List Write :=
  if changed = loaded then [] else [.updateWorker loaded changed]

/-- The worker whose update is pending. -/
def updatedWorker (pending : List Write) : Option Uuid :=
  pending.findSome? fun
    | .updateWorker loaded _ => some loaded.id
    | _ => none

/-- `datetime.now(UTC)` -/
def datetimeNow (pt : Point) : Program Time :=
  .stmt pt (.call .pause) fun reply => reply.input.clock

def uuid4 (pt : Point) : Program Uuid :=
  .stmt pt (.call .pause) fun reply => reply.input.uuid

/-- `timedelta(seconds=n)` -/
def seconds (n : ℤ) : Time := n * 1000000

end Runscope
