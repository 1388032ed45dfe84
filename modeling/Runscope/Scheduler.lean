import Mathlib.Data.List.Sort
import Runscope.RunExecution

/-!
The scheduler (`runscope_scheduler/service.py`).
-/

namespace Runscope

open Transact

/-- `add_assignment_event` -/
def assignmentEvent (settings : Settings) (run : Run) (worker : Worker)
    (allocation : ResourceAllocation) : Program OutboxMessage := do
  let correlationId ← uuid4 {}
  newMessage settings "run.assigned" (.scheduler correlationId) run.id (some worker.id)
    [("lease_token", .uuid allocation.leaseToken), ("requested_cpu", .num allocation.cpu),
      ("requested_memory_mb", .int allocation.memoryMb)]

/-- What becomes of the run of a recovered lease. Returns what is pending
then. -/
def recoverRun (allocation : ResourceAllocation) (run : Run) : Program (List Write) := do
  match run.status with
  | .scheduling =>
    let (run, event) ← transitionRun {} run .queued "run.assignment.expired"
      [("worker_id", .uuid allocation.workerId)]
    .ret [.updateRun { run with assignedWorkerId := none }, .insertEvent event]
  | .running =>
    let run := run.withFailure "worker_lease_expired" "The assigned worker stopped heartbeating"
    let (run, event) ← transitionRun {} run .failed "run.failed"
      [("worker_id", .uuid allocation.workerId), ("reason", .str "lease_expired")]
    .ret [.updateRun run, .insertEvent event]
  | .cancelling =>
    let (run, event) ← transitionRun {} run .cancelled "run.cancelled"
      [("worker_id", .uuid allocation.workerId), ("reason", .str "lease_expired")]
    .ret [.updateRun run, .insertEvent event]
  | _ => .ret []

/-- The loop over the leases. `loaded` are the stale workers and `pending`
the worker update that the last iteration left to be flushed. -/
def recoverAllocations : List Worker → List Write → List ResourceAllocation →
    Program (List Worker × List Write)
  | loaded, pending, [] => .ret (loaded, pending)
  | loaded, pending, allocation :: rest => do
    session.flush { worker := updatedWorker pending } pending
    let pending ←
      match ← session.getRun {} allocation.runId with
      | none => .ret []
      | some run => recoverRun allocation run
    let (_, loaded, pending) ← releaseAllocation allocation.runId pending loaded
    recoverAllocations loaded pending rest

/-- The loop over the stale workers. -/
def refreshWorkers : List Write → List Worker → Program (List Write)
  | pending, [] => .ret pending
  | pending, worker :: rest => do
    session.flush { worker := updatedWorker pending } pending
    let refreshed ← refreshWorkerCapacity {} worker
    refreshWorkers (workerUpdate worker refreshed) rest

/-- `worker.status = WorkerStatus.STALE` -/
def Worker.markStale (worker : Worker) : Worker := { worker with status := .stale }

/-- Returns the number of leases released and what is left to be flushed. -/
def recoverExpiredAllocations (settings : Settings) : Program (ℕ × List Write) := do
  let currentTime ← datetimeNow {}
  let staleBefore := currentTime - seconds settings.workerStaleSeconds
  let staleWorkers ← session.selectForUpdate {} true (fun w => .worker w.id) fun db free =>
    db.workers.rows.filter fun w => w.status = .online ∧ w.lastHeartbeatAt < staleBefore ∧ free w
  let staleIds := staleWorkers.map Worker.id
  let marked := staleWorkers.map Worker.markStale
  session.flush {} (staleWorkers.flatMap fun w => workerUpdate w w.markStale)
  let allocations ← session.selectForUpdate {} true (fun a => .allocation a.id) fun db free =>
    db.activeAllocations.filter fun a =>
      (a.leaseExpiresAt < currentTime ∨ a.workerId ∈ staleIds) ∧ free a
  let (loaded, pending) ← recoverAllocations marked [] allocations
  let pending ← refreshWorkers pending loaded
  .ret (allocations.length, pending)

/-- `order_by(Run.priority.desc(), Run.created_at.asc(), Run.id.asc())` -/
def Run.precedes (a b : Run) : Prop :=
  b.priority < a.priority ∨ b.priority = a.priority ∧
    (a.createdAt < b.createdAt ∨ a.createdAt = b.createdAt ∧ a.id ≤ b.id)

instance : DecidableRel Run.precedes := fun a b => by unfold Run.precedes; infer_instance

/-- `order_by(Worker.current_run_count.asc(), Worker.name.asc())` -/
def Worker.precedes (a b : Worker) : Prop :=
  a.currentRunCount < b.currentRunCount ∨
    a.currentRunCount = b.currentRunCount ∧ a.name ≤ b.name

instance : DecidableRel Worker.precedes := fun a b => by unfold Worker.precedes; infer_instance

/-- Queued runs in order, at most a hundred. -/
def Db.queue (db : Db) (free : Run → Bool) : List Run :=
  ((db.runs.rows.filter fun r => r.status = .queued ∧ free r).insertionSort Run.precedes).take 100

/-- The worker a run fits on. -/
def Db.fitting (db : Db) (healthyAfter : Time) (run : Run) (free : Worker → Bool) : List Worker :=
  ((db.workers.rows.filter fun w => w.status = .online ∧ healthyAfter ≤ w.lastHeartbeatAt ∧
    run.requestedCpu ≤ w.availableCpu ∧ run.requestedMemoryMb ≤ w.availableMemoryMb ∧
    free w).insertionSort Worker.precedes).take 1

/-- What an assignment takes from the worker. -/
def Worker.reserve (worker : Worker) (run : Run) : Worker :=
  { worker with
    availableCpu := worker.availableCpu - run.requestedCpu
    availableMemoryMb := worker.availableMemoryMb - run.requestedMemoryMb
    currentRunCount := worker.currentRunCount + 1 }

/-- The loop over the queue. Returns the number of runs assigned and what the
last of them left to be flushed. -/
def assignRuns (settings : Settings) (now healthyAfter : Time) :
    List Write → List Run → Program (ℕ × List Write)
  | pending, [] => .ret (0, pending)
  | pending, run :: rest => do
    session.flush {} pending
    let found ← session.selectForUpdate {} true (fun w => .worker w.id) fun db free =>
      db.fitting healthyAfter run free
    match found with
    | [] => assignRuns settings now healthyAfter [] rest
    | worker :: _ =>
      let id ← uuid4 {}
      let leaseToken ← uuid4 {}
      let allocation : ResourceAllocation := {
        id := id
        runId := run.id
        workerId := worker.id
        cpu := run.requestedCpu
        memoryMb := run.requestedMemoryMb
        leaseToken := leaseToken
        leaseExpiresAt := now + seconds settings.allocationLeaseSeconds
        releasedAt := none }
      session.flush {} [.insertAllocation allocation]
      let (scheduled, event) ← transitionRun {} { run with assignedWorkerId := some worker.id }
        .scheduling "run.scheduling"
        [("worker_id", .uuid worker.id), ("lease_id", .uuid allocation.id)]
      let message ← assignmentEvent settings run worker allocation
      let (assigned, pending) ← assignRuns settings now healthyAfter
        ([.updateRun scheduled, .insertEvent event] ++ workerUpdate worker (worker.reserve run) ++
          [.insertOutbox message]) rest
      .ret (assigned + 1, pending)

def scheduleOnce (settings : Settings) : Program ℕ := do
  let (_, pending) ← recoverExpiredAllocations settings
  let now ← datetimeNow { worker := updatedWorker pending }
  let healthyAfter := now - seconds settings.workerStaleSeconds
  session.flush { worker := updatedWorker pending } pending
  let queuedRuns ← session.selectForUpdate {} true (fun r => .run r.id) fun db free =>
    db.queue free
  let (assigned, pending) ← assignRuns settings now healthyAfter [] queuedRuns
  session.commit {} pending
  .ret assigned

end Runscope
