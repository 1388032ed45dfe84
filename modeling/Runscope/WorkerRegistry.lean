import Mathlib.Algebra.Ring.Rat
import Runscope.Program
import Runscope.Schemas

/-!
Workers and their capacity (`worker_registry.py`).
-/

namespace Runscope

open Transact

/-- The unreleased allocations of a worker. -/
def Db.loadOf (db : Db) (workerId : Uuid) : List ResourceAllocation :=
  db.activeAllocations.filter fun a => a.workerId = workerId

/-- What `refresh_worker_capacity` assigns, given the worker's unreleased
allocations. -/
def Worker.withLoad (worker : Worker) (load : List ResourceAllocation) : Worker :=
  { worker with
    availableCpu := max 0 (worker.totalCpu - (load.map ResourceAllocation.cpu).sum)
    availableMemoryMb := max 0 (worker.totalMemoryMb - (load.map ResourceAllocation.memoryMb).sum)
    currentRunCount := load.length }

/-- The caller flushes what is pending first: the query autoflushes. -/
def refreshWorkerCapacity (pt : Point) (worker : Worker) : Program Worker := do
  let load ← session.select pt fun db => db.loadOf worker.id
  .ret (worker.withLoad load)

def registerWorker (name : String) (totals : WorkerTotals) : Program Worker := do
  let found ← session.selectForUpdate {} false (fun w => .worker w.id) fun db _ =>
    (db.workers.rows.filter fun w => w.name = name).take 1
  match found with
  | [] =>
    let now ← datetimeNow {}
    let id ← uuid4 {}
    let worker : Worker := {
      id := id
      name := name
      status := .online
      totalCpu := totals.cpu
      availableCpu := totals.cpu
      totalMemoryMb := totals.memoryMb
      availableMemoryMb := totals.memoryMb
      currentRunCount := 0
      lastHeartbeatAt := now }
    session.flush {} [.insertWorker worker]
    session.commit {} []
    session.refreshWorker {} worker
  | loaded :: _ =>
    let now ← datetimeNow {}
    let worker : Worker := { loaded with
      status := .online
      totalCpu := totals.cpu
      totalMemoryMb := totals.memoryMb
      lastHeartbeatAt := now }
    session.flush {} (workerUpdate loaded worker)
    let refreshed ← refreshWorkerCapacity {} worker
    session.commit {} (workerUpdate worker refreshed)
    session.refreshWorker {} refreshed

/-- `allocation.lease_expires_at = until` -/
def renewal (until_ : Time) (allocation : ResourceAllocation) : List Write :=
  if allocation.leaseExpiresAt = until_ then [] else [.renewLease allocation until_]

def heartbeatWorker (workerId : Uuid) (leaseSeconds : ℤ) : Program (Option Worker) := do
  match ← session.getWorker {} workerId with
  | none => .ret none
  | some loaded =>
    let pt : Point := { totals := some loaded.id }
    let now ← datetimeNow pt
    let worker : Worker := { loaded with status := .online, lastHeartbeatAt := now }
    session.flush pt (workerUpdate loaded worker)
    let allocations ← session.select pt fun db => db.loadOf worker.id
    session.flush pt (allocations.flatMap (renewal (now + seconds leaseSeconds)))
    let refreshed ← refreshWorkerCapacity pt worker
    -- the first flush has locked the row, unless it had nothing to write
    let pt : Point := if worker = loaded then { worker := some loaded.id } else {}
    session.commit pt (workerUpdate worker refreshed)
    let current ← session.refreshWorker {} refreshed
    .ret (some current)

/-- Releases the lease of a run. `pending` is flushed by the first query;
`loaded` are the workers the caller holds on to, which `session.get` returns
without a query. Returns the lease, the caller's workers with the refreshed
one among them, and the update of the worker that is now pending. -/
def releaseAllocation (runId : Uuid) (pending : List Write) (loaded : List Worker) :
    Program (Option ResourceAllocation × List Worker × List Write) := do
  session.flush {} pending
  let found ← session.selectForUpdate {} false (fun a => .allocation a.id) fun db _ =>
    db.activeAllocations.filter fun a => a.runId = runId
  match found with
  | [] => .ret (none, loaded, [])
  | allocation :: _ =>
    let now ← datetimeNow {}
    session.flush {} [.releaseAllocation allocation now]
    let released := { allocation with releasedAt := some now }
    let worker? ←
      match loaded.find? fun w => w.id = allocation.workerId with
      | some worker => .ret (some worker)
      | none => session.getWorker {} allocation.workerId
    match worker? with
    | none => .ret (some released, loaded, [])
    | some worker =>
      let refreshed ← refreshWorkerCapacity { worker := some worker.id } worker
      .ret (some released, loaded.map fun w => if w.id = refreshed.id then refreshed else w,
        workerUpdate worker refreshed)

end Runscope
