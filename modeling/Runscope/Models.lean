import Mathlib.Data.Rat.Defs
import Mathlib.Algebra.Order.Ring.Unbundled.Rat

/-!
The rows of `models.py` and the messages of `runscope_contracts`.

UUIDs are numbers and instants are integers (microseconds); CPU amounts and
metric values are exact rationals where the source has floats. Texts made of
a prefix and a UUID, such as a consumer name or a storage key, are kept as
the pair. Columns no modelled function reads or writes (display names,
`updated_at`, the ids of append-only rows) are left out.
-/

namespace Runscope

abbrev Uuid := ℕ

abbrev Time := ℤ

inductive Role where
  | viewer | researcher | administrator
  deriving DecidableEq, Repr

inductive RunStatus where
  | draft | queued | scheduling | running | succeeded | failed | cancelling | cancelled | retrying
  deriving DecidableEq, Repr

def RunStatus.value : RunStatus → String
  | draft => "DRAFT"
  | queued => "QUEUED"
  | scheduling => "SCHEDULING"
  | running => "RUNNING"
  | succeeded => "SUCCEEDED"
  | failed => "FAILED"
  | cancelling => "CANCELLING"
  | cancelled => "CANCELLED"
  | retrying => "RETRYING"

inductive WorkerStatus where
  | online | offline | stale
  deriving DecidableEq, Repr

/-- The JSON values of parameters, event metadata and payloads. `uuid` is the
text of a UUID; no modelled function looks into an array or an object, so
`nested` keeps its text. -/
inductive Value where
  | null
  | bool (b : Bool)
  | int (n : ℤ)
  | num (q : ℚ)
  | str (s : String)
  | uuid (u : Uuid)
  | nested (text : String)
  deriving DecidableEq, Repr

/-- Python's truth value. -/
def Value.truthy : Value → Bool
  | null => false
  | bool b => b
  | int n => n ≠ 0
  | num q => q ≠ 0
  | str s => s ≠ ""
  | uuid _ => true
  | nested text => text ≠ "[]" ∧ text ≠ "\x7b\x7d"

/-- A `dict` with string keys, in insertion order. -/
abbrev Record := List (String × Value)

namespace Record

def get? (r : Record) (name : String) : Option Value := r.lookup name

/-- `r[name] = value` -/
def set : Record → String → Value → Record
  | [], name, value => [(name, value)]
  | (n, v) :: r, name, value => if n = name then (n, value) :: r else (n, v) :: set r name value

/-- `r.update(s)` -/
def update (r s : Record) : Record := s.foldl (fun r x => r.set x.1 x.2) r

end Record

/-- The authenticated user of an API command. -/
structure User where
  id : Uuid
  role : Role
  deriving DecidableEq, Repr

structure TrainingTemplate where
  id : Uuid
  key : String
  version : String
  enabled : Bool
  deriving DecidableEq, Repr

structure Run where
  id : Uuid
  experimentId : Uuid
  templateId : Uuid
  status : RunStatus
  priority : ℤ
  requestedCpu : ℚ
  requestedMemoryMb : ℤ
  assignedWorkerId : Option Uuid
  attemptNumber : ℕ
  parentRunId : Option Uuid
  createdBy : Uuid
  createdAt : Time
  queuedAt : Option Time
  startedAt : Option Time
  completedAt : Option Time
  failureCode : Option String
  failureMessage : Option String
  notes : String
  tags : List String
  version : ℕ
  deriving DecidableEq, Repr

structure RunParameter where
  runId : Uuid
  name : String
  value : Value
  deriving DecidableEq, Repr

structure RunMetric where
  runId : Uuid
  name : String
  value : ℚ
  step : ℕ
  deriving DecidableEq, Repr

structure RunLog where
  runId : Uuid
  sequenceNumber : ℕ
  level : String
  message : String
  deriving DecidableEq, Repr

/-- The key `f"{run_id}/{name}"` of a stored object. -/
abbrev StorageKey := Uuid × String

structure Artifact where
  runId : Uuid
  name : String
  storageKey : StorageKey
  mimeType : String
  sizeBytes : ℕ
  checksum : String
  deriving DecidableEq, Repr

structure RunEvent where
  runId : Uuid
  eventType : String
  previousStatus : Option RunStatus
  newStatus : Option RunStatus
  eventMetadata : Record
  createdAt : Time
  deriving DecidableEq, Repr

structure Worker where
  id : Uuid
  name : String
  status : WorkerStatus
  totalCpu : ℚ
  availableCpu : ℚ
  totalMemoryMb : ℤ
  availableMemoryMb : ℤ
  currentRunCount : ℕ
  lastHeartbeatAt : Time
  deriving DecidableEq, Repr

structure ResourceAllocation where
  id : Uuid
  runId : Uuid
  workerId : Uuid
  cpu : ℚ
  memoryMb : ℤ
  leaseToken : Uuid
  leaseExpiresAt : Time
  releasedAt : Option Time
  deriving DecidableEq, Repr

/-- A request's correlation id, as `CorrelationIdMiddleware` sets it: never
empty and cut at 128 characters. -/
structure RequestId where
  text : String
  nonempty : 0 < text.length
  bounded : text.length ≤ 128
  deriving DecidableEq, Repr

inductive CorrelationId where
  | request (id : RequestId)
  /-- `f"scheduler-{uuid4()}"` -/
  | scheduler (id : Uuid)
  deriving DecidableEq, Repr

structure EventEnvelope where
  eventId : Uuid
  eventVersion : ℕ
  eventType : String
  occurredAt : Time
  correlationId : CorrelationId
  runId : Option Uuid
  workerId : Option Uuid
  payload : Record
  deriving DecidableEq, Repr

structure OutboxMessage where
  id : Uuid
  topic : String
  partitionKey : Uuid
  envelope : EventEnvelope
  createdAt : Time
  publishedAt : Option Time
  publishAttempts : ℕ
  lastError : Option String
  deriving DecidableEq, Repr

/-- The consumer name `f"{prefix}:{worker_id}"`. -/
abbrev ConsumerName := String × Uuid

structure ProcessedMessage where
  eventId : Uuid
  consumerName : ConsumerName
  deriving DecidableEq, Repr

end Runscope
