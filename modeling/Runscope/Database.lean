import Runscope.Models
import Runscope.Transact.Pool
import Runscope.Transact.Table

/-!
The database of `models.py` as a `Storage`: its tables, the writes a session
flushes, the constraints they are checked against and the rows they lock.

A `runs` row is versioned (`version_id_col`): `updateRun` carries the version
the session loaded, fails as stale when the committed row has another one and
stores the next. `updateWorker` writes only the columns that the session
changed. Foreign keys are not checked again here: rows are never deleted, and
every write below refers to rows its session has read or written.
-/

namespace Runscope

open Transact

structure AppError where
  code : String
  message : String
  statusCode : ℕ
  details : Record
  deriving DecidableEq, Repr

/-- The exceptions that reach modelled code. -/
inductive Exc where
  | app (error : AppError)
  /-- SQLAlchemy's `StaleDataError` -/
  | staleData
  | integrity (constraint : String)
  | connectionLost
  | noResultFound
  | runtime (message : String)
  | key (message : String)
  | artifactStorage (message : String)
  | other (name : String)
  deriving DecidableEq, Repr

structure Db where
  templates : Table TrainingTemplate.id
  runs : Table Run.id
  parameters : List RunParameter
  metrics : List RunMetric
  logs : List RunLog
  artifacts : List Artifact
  events : List RunEvent
  workers : Table Worker.id
  allocations : Table ResourceAllocation.id
  outbox : Table OutboxMessage.id
  processed : List ProcessedMessage

/-- What was written last under a name. -/
def lastWritten {κ : Type} [DecidableEq κ] (objects : List (κ × ByteArray)) (key : κ) :
    Option ByteArray := objects.reverse.lookup key

theorem lastWritten_append {κ : Type} [DecidableEq κ] (objects : List (κ × ByteArray)) (key k : κ)
    (data : ByteArray) : lastWritten (objects ++ [(key, data)]) k =
      if k = key then some data else lastWritten objects k := by
  rw [lastWritten, List.reverse_append, List.reverse_singleton, List.singleton_append,
    List.lookup_cons]
  by_cases h : k = key
  · simp [h]
  · rw [if_neg h, beq_false_of_ne h]
    rfl

/-- The database and what lies outside it: the messages the broker accepted,
the objects stored, in order, and the runs whose template was executed. -/
structure Platform where
  db : Db
  topic : List EventEnvelope
  objects : List (StorageKey × ByteArray)
  executions : List Uuid

/-- What a lock names: a row by its primary key, or the key of a unique
constraint. `activeRun` is the key of the partial unique index
`uq_resource_allocations_active_run`. -/
inductive RowKey where
  | run (id : Uuid)
  | worker (id : Uuid)
  | workerName (name : String)
  | allocation (id : Uuid)
  | activeRun (runId : Uuid)
  | leaseToken (token : Uuid)
  | parameter (runId : Uuid) (name : String)
  | log (runId : Uuid) (sequenceNumber : ℕ)
  | artifact (runId : Uuid) (name : String)
  | storageKey (key : StorageKey)
  | outbox (id : Uuid)
  | processed (message : ProcessedMessage)
  deriving DecidableEq, Repr

inductive Write where
  | insertRun (run : Run)
  | updateRun (run : Run)
  | insertParameter (parameter : RunParameter)
  | insertMetric (metric : RunMetric)
  | insertLog (log : RunLog)
  | insertArtifact (artifact : Artifact)
  | insertEvent (event : RunEvent)
  | insertWorker (worker : Worker)
  | updateWorker (loaded changed : Worker)
  | insertAllocation (allocation : ResourceAllocation)
  | releaseAllocation (allocation : ResourceAllocation) (at_ : Time)
  | renewLease (allocation : ResourceAllocation) (until_ : Time)
  | insertOutbox (message : OutboxMessage)
  | updateOutbox (loaded changed : OutboxMessage)
  | insertProcessed (message : ProcessedMessage)
  deriving DecidableEq, Repr

/-- Calls outside the database. -/
inductive Call where
  | publish (event : EventEnvelope)
  | put (key : StorageKey) (data : ByteArray)
  | execute (runId : Uuid)
  /-- Reads of the clock or of `uuid4`, sleeps, log lines, live events. -/
  | pause

instance byteArrayDecidableEq : DecidableEq ByteArray := ByteArray.instDecidableEq

structure GeneratedArtifact where
  name : String
  mimeType : String
  data : ByteArray
  deriving DecidableEq

structure TemplateResult where
  metrics : List (String × ℚ)
  logs : List (String × String)
  artifacts : List GeneratedArtifact

/-- What a step draws from outside the program: the clock, a fresh UUID, the
exception a call ends with, whether a failing call had its effect all the
same, and the result of a template. -/
structure Input where
  clock : Time
  uuid : Uuid
  failure : Option Exc
  effective : Bool
  result : TemplateResult

/-- `ResourceAllocation.releasedAt.is_(None)` -/
def ResourceAllocation.active (a : ResourceAllocation) : Bool := a.releasedAt.isNone

/-- The row an allocation was loaded from: its run and its worker never change,
so looking them up with the id makes no difference. -/
def ResourceAllocation.sameLease (x a : ResourceAllocation) : Bool :=
  a.runId = x.runId ∧ a.workerId = x.workerId

namespace Db

def activeAllocations (db : Db) : List ResourceAllocation :=
  db.allocations.rows.filter ResourceAllocation.active

end Db

/-- The columns of `current` that the session changed take the new value. -/
def mergeColumn {α : Type} [DecidableEq α] (loaded changed current : α) : α :=
  if changed = loaded then current else changed

def Worker.merge (loaded changed current : Worker) : Worker :=
  { current with
    status := mergeColumn loaded.status changed.status current.status
    totalCpu := mergeColumn loaded.totalCpu changed.totalCpu current.totalCpu
    availableCpu := mergeColumn loaded.availableCpu changed.availableCpu current.availableCpu
    totalMemoryMb :=
      mergeColumn loaded.totalMemoryMb changed.totalMemoryMb current.totalMemoryMb
    availableMemoryMb :=
      mergeColumn loaded.availableMemoryMb changed.availableMemoryMb
        current.availableMemoryMb
    currentRunCount :=
      mergeColumn loaded.currentRunCount changed.currentRunCount current.currentRunCount
    lastHeartbeatAt :=
      mergeColumn loaded.lastHeartbeatAt changed.lastHeartbeatAt current.lastHeartbeatAt }

@[simp] theorem Worker.merge_id (loaded changed current : Worker) :
    (Worker.merge loaded changed current).id = current.id := rfl

@[simp] theorem Worker.merge_name (loaded changed current : Worker) :
    (Worker.merge loaded changed current).name = current.name := rfl

def OutboxMessage.merge (loaded changed current : OutboxMessage) : OutboxMessage :=
  { current with
    publishedAt := mergeColumn loaded.publishedAt changed.publishedAt current.publishedAt
    publishAttempts :=
      mergeColumn loaded.publishAttempts changed.publishAttempts current.publishAttempts
    lastError := mergeColumn loaded.lastError changed.lastError current.lastError }

@[simp] theorem OutboxMessage.merge_id (loaded changed current : OutboxMessage) :
    (OutboxMessage.merge loaded changed current).id = current.id := rfl

@[simp] theorem OutboxMessage.merge_envelope (loaded changed current : OutboxMessage) :
    (OutboxMessage.merge loaded changed current).envelope = current.envelope := rfl

/-- The row after the update of a loaded copy. Sessions never assign
`created_at`, so the update leaves it out. -/
def Run.stored (run current : Run) : Run :=
  { run with id := current.id, createdAt := current.createdAt, version := run.version + 1 }

theorem Run.stored_id (run current : Run) : (run.stored current).id = current.id := rfl

namespace Write

def rowsOf : Write → List RowKey
  | insertRun run => [.run run.id]
  | updateRun run => [.run run.id]
  | insertParameter p => [.parameter p.runId p.name]
  | insertMetric _ => []
  | insertLog l => [.log l.runId l.sequenceNumber]
  | insertArtifact a => [.artifact a.runId a.name, .storageKey a.storageKey]
  | insertEvent _ => []
  | insertWorker w => [.worker w.id, .workerName w.name]
  | updateWorker loaded _ => [.worker loaded.id]
  | insertAllocation a => [.allocation a.id, .activeRun a.runId, .leaseToken a.leaseToken]
  | releaseAllocation a _ => [.allocation a.id, .activeRun a.runId]
  | renewLease a _ => [.allocation a.id]
  | insertOutbox m => [.outbox m.id]
  | updateOutbox loaded _ => [.outbox loaded.id]
  | insertProcessed m => [.processed m]

/-- `server_default=func.now()`: the start of the transaction. -/
def stamp (i : Input) : Write → Write
  | insertRun run => insertRun { run with createdAt := i.clock }
  | insertEvent e => insertEvent { e with createdAt := i.clock }
  | insertOutbox m => insertOutbox { m with createdAt := i.clock }
  | w => w

def check (w : Write) (p : Platform) : Option Exc :=
  match w with
  | insertRun run =>
      if (p.db.runs.get? run.id).isSome then some (.integrity "runs_pkey") else none
  | updateRun run =>
      if (p.db.runs.get? run.id).map Run.version = some run.version then none
      else some .staleData
  | insertParameter x =>
      if p.db.parameters.any fun y => y.runId = x.runId ∧ y.name = x.name then
        some (.integrity "uq_run_parameters_run_name")
      else none
  | insertMetric _ => none
  | insertLog x =>
      if p.db.logs.any fun y => y.runId = x.runId ∧ y.sequenceNumber = x.sequenceNumber then
        some (.integrity "uq_run_logs_run_sequence")
      else none
  | insertArtifact x =>
      if p.db.artifacts.any fun y => y.runId = x.runId ∧ y.name = x.name then
        some (.integrity "uq_artifacts_run_name")
      else if p.db.artifacts.any fun y => y.storageKey = x.storageKey then
        some (.integrity "artifacts_storage_key_key")
      else none
  | insertEvent _ => none
  | insertWorker x =>
      if (p.db.workers.get? x.id).isSome then some (.integrity "workers_pkey")
      else if p.db.workers.rows.any fun y => y.name = x.name then
        some (.integrity "workers_name_key")
      else none
  | updateWorker loaded _ =>
      if (p.db.workers.get? loaded.id).isSome then none else some .staleData
  | insertAllocation x =>
      if (p.db.allocations.get? x.id).isSome then some (.integrity "resource_allocations_pkey")
      else if p.db.allocations.rows.any fun y => y.leaseToken = x.leaseToken then
        some (.integrity "resource_allocations_lease_token_key")
      else if p.db.activeAllocations.any fun y => y.runId = x.runId then
        some (.integrity "uq_resource_allocations_active_run")
      else none
  | releaseAllocation x _ =>
      if (p.db.allocations.get? x.id).any x.sameLease then none else some .staleData
  | renewLease x _ =>
      if (p.db.allocations.get? x.id).isSome then none else some .staleData
  | insertOutbox x =>
      if (p.db.outbox.get? x.id).isSome then some (.integrity "outbox_messages_pkey") else none
  | updateOutbox loaded _ =>
      if (p.db.outbox.get? loaded.id).isSome then none else some .staleData
  | insertProcessed x =>
      if x ∈ p.db.processed then some (.integrity "uq_processed_event_consumer") else none

def applyDb (w : Write) (db : Db) : Db :=
  match w with
  | insertRun run => { db with runs := db.runs.insert run }
  | updateRun run =>
      { db with
        runs := db.runs.update run.id run.stored run.stored_id }
  | insertParameter x => { db with parameters := db.parameters ++ [x] }
  | insertMetric x => { db with metrics := db.metrics ++ [x] }
  | insertLog x => { db with logs := db.logs ++ [x] }
  | insertArtifact x => { db with artifacts := db.artifacts ++ [x] }
  | insertEvent x => { db with events := db.events ++ [x] }
  | insertWorker x => { db with workers := db.workers.insert x }
  | updateWorker loaded changed =>
      { db with
        workers := db.workers.update loaded.id (Worker.merge loaded changed)
          (Worker.merge_id loaded changed) }
  | insertAllocation x => { db with allocations := db.allocations.insert x }
  | releaseAllocation x time =>
      { db with
        allocations :=
          if (db.allocations.get? x.id).any x.sameLease then
            db.allocations.update x.id (fun a => { a with releasedAt := some time }) fun _ => rfl
          else db.allocations }
  | renewLease x time =>
      { db with
        allocations := db.allocations.update x.id
          (fun a => { a with leaseExpiresAt := time }) fun _ => rfl }
  | insertOutbox x => { db with outbox := db.outbox.insert x }
  | updateOutbox loaded changed =>
      { db with
        outbox := db.outbox.update loaded.id (OutboxMessage.merge loaded changed)
          (OutboxMessage.merge_id loaded changed) }
  | insertProcessed x => { db with processed := db.processed ++ [x] }

def apply (w : Write) (p : Platform) : Platform := { p with db := w.applyDb p.db }

end Write

/-- A call that ends with an exception may have had its effect; an execution
counts from its start. -/
def Call.perform (c : Call) (i : Input) (p : Platform) : Platform :=
  match c with
  | publish event =>
      if i.failure.isSome ∧ ¬ i.effective then p else { p with topic := p.topic ++ [event] }
  | put key data =>
      if i.failure.isSome ∧ ¬ i.effective then p
      else { p with objects := p.objects ++ [(key, data)] }
  | execute runId => { p with executions := p.executions ++ [runId] }
  | pause => p

end Runscope
