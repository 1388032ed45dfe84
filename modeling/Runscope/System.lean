import Runscope.Outbox
import Runscope.RunCommands
import Runscope.Scheduler
import Runscope.WorkerMain

/-!
The sessions of the system: one for every API command, scheduler pass,
heartbeat, delivered message and dispatched batch, any number of them at once.
-/

namespace Runscope

open Transact

inductive Kind where
  | createRun (body : RunCreate) (createdBy : Uuid) (correlationId : RequestId)
  | retryRun (runId : Uuid) (body : RunRetryRequest) (user : User) (correlationId : RequestId)
  | cancelRun (runId : Uuid) (user : User) (correlationId : RequestId)
  | updateRunMetadata (runId : Uuid) (body : RunMetadataUpdate) (user : User)
  | registerWorker (name : String) (totals : WorkerTotals)
  | heartbeat (workerId : Uuid)
  | schedule
  | processEvent (event : EventEnvelope) (workerId : Option Uuid)
  | dispatchBatch (limit maxAttempts : ℕ)

variable (rt : Runtime) (settings : Settings)

/-- What a session runs; its result is of no further use. -/
def Kind.code : Kind → Program Unit
  | createRun body createdBy correlationId => do
    let _ ← Runscope.createQueuedRun rt settings body createdBy correlationId
  | retryRun runId body user correlationId => do
    let _ ← Runscope.retryRun rt settings runId body user correlationId
  | cancelRun runId user correlationId => do
    let _ ← Runscope.cancelRun settings runId user correlationId
  | updateRunMetadata runId body user => do
    let _ ← Runscope.updateRunMetadata rt runId body user
  | registerWorker name totals => do
    let _ ← Runscope.registerWorker name totals
  | heartbeat workerId => do
    let _ ← heartbeatWorker workerId settings.allocationLeaseSeconds
  | schedule => do
    let _ ← scheduleOnce settings
  | processEvent event workerId => do
    let _ ← Runscope.processEvent rt event workerId
  | dispatchBatch limit maxAttempts => do
    let _ ← Runscope.dispatchBatch limit maxAttempts

/-- A message is delivered to a worker any number of times once the broker
has accepted it; everything else may happen at any time. -/
def Kind.admits : Kind → Platform → Prop
  | processEvent event _, p => event ∈ p.topic
  | _, _ => True

instance Kind.decidableAdmits (k : Kind) (p : Platform) : Decidable (k.admits p) := by
  cases k <;> unfold Kind.admits <;> infer_instance

def system : System Kind Platform RowKey Write Call Input Exc Point where
  storage := storage
  code := Kind.code rt settings
  admits := Kind.admits
  admits_dec := Kind.decidableAdmits

abbrev Process := Proc Kind Platform RowKey Write Call Input Exc Point

abbrev Cluster := World Kind Platform RowKey Write Call Input Exc Point

/-- The empty database. -/
def Platform.empty (templates : Table TrainingTemplate.id) : Platform where
  db :=
    { templates
      runs := .empty
      parameters := []
      metrics := []
      logs := []
      artifacts := []
      events := []
      workers := .empty
      allocations := .empty
      outbox := .empty
      processed := [] }
  topic := []
  objects := []
  executions := []

end Runscope
