import Runscope.Projection
import Runscope.WorkerRegistry

/-!
What the database says about one worker, and what a write does to that.
-/

namespace Runscope

open Transact

/-- A worker's row and the unreleased leases on it. -/
structure WorkerView where
  row : Option Worker
  leases : List Lease
  deriving DecidableEq

/-- `Worker.withLoad` on leases. -/
def Worker.withLeases (worker : Worker) (leases : List Lease) : Worker :=
  { worker with
    availableCpu := max 0 (worker.totalCpu - (leases.map Lease.cpu).sum)
    availableMemoryMb := max 0 (worker.totalMemoryMb - (leases.map Lease.memoryMb).sum)
    currentRunCount := leases.length }

theorem Worker.withLoad_eq (worker : Worker) (load : List ResourceAllocation) :
    worker.withLoad load = worker.withLeases (load.map ResourceAllocation.lease) := by
  simp only [Worker.withLoad, Worker.withLeases, List.map_map, List.length_map]
  rfl

/-- The counters of a worker agree with its unreleased leases. -/
structure WorkerView.Balanced (v : WorkerView) : Prop where
  placed : v.row = none → v.leases = []
  counted : ∀ w, v.row = some w → w.withLeases v.leases = w

def Db.workerView (db : Db) (workerId : Uuid) : WorkerView :=
  ⟨db.workers.get? workerId, (db.loadOf workerId).map ResourceAllocation.lease⟩

/-- The effect of a write on the view of a worker. -/
def Write.onWorker (workerId : Uuid) (w : Write) (v : WorkerView) : WorkerView :=
  match w with
  | insertWorker x => if x.id = workerId then { v with row := some (v.row.getD x) } else v
  | updateWorker loaded changed =>
      if loaded.id = workerId then { v with row := v.row.map (Worker.merge loaded changed) } else v
  | insertAllocation a =>
      if a.workerId = workerId ∧ a.active then { v with leases := v.leases ++ [a.lease] } else v
  | releaseAllocation a _ =>
      if a.workerId = workerId then { v with leases := v.leases.filter fun l => l.id ≠ a.id } else v
  | _ => v

/-- The worker whose view a write may change. -/
def Write.worker? : Write → Option Uuid
  | insertWorker x => some x.id
  | updateWorker loaded _ => some loaded.id
  | insertAllocation a => some a.workerId
  | releaseAllocation a _ => some a.workerId
  | _ => none

theorem Write.onWorker_of_ne {w : Write} {workerId : Uuid} (h : w.worker? ≠ some workerId)
    (v : WorkerView) : w.onWorker workerId v = v := by
  cases w <;> simp_all [Write.onWorker, Write.worker?]

/-- The effect of several writes. -/
def onWorker (workerId : Uuid) (ws : List Write) (v : WorkerView) : WorkerView :=
  ws.foldl (fun v w => w.onWorker workerId v) v

@[simp] theorem onWorker_nil (workerId : Uuid) (v : WorkerView) : onWorker workerId [] v = v := rfl

@[simp] theorem onWorker_cons (workerId : Uuid) (w : Write) (ws : List Write) (v : WorkerView) :
    onWorker workerId (w :: ws) v = onWorker workerId ws (w.onWorker workerId v) := rfl

@[simp] theorem onWorker_append (workerId : Uuid) (ws ws' : List Write) (v : WorkerView) :
    onWorker workerId (ws ++ ws') v = onWorker workerId ws' (onWorker workerId ws v) := by
  simp [onWorker]

theorem onWorker_of_forall_ne {workerId : Uuid} {ws : List Write}
    (h : ∀ w ∈ ws, w.worker? ≠ some workerId) (v : WorkerView) : onWorker workerId ws v = v := by
  induction ws with
  | nil => rfl
  | cons w ws ih =>
      rw [onWorker_cons, w.onWorker_of_ne (h w (by simp)), ih fun w' hw' => h w' (by simp [hw'])]

/-- What a load keeps of an allocation changed in place. -/
theorem loadOf_update {db : Db} {id : Uuid} {f : ResourceAllocation → ResourceAllocation}
    {hf : ∀ a, (f a).id = a.id} (hlease : ∀ a, (f a).lease = a.lease)
    (hrun : ∀ a, (f a).workerId = a.workerId) (hactive : ∀ a, (f a).active = a.active)
    (workerId : Uuid) :
    ({ db with allocations := db.allocations.update id f hf }.loadOf workerId).map
      ResourceAllocation.lease = (db.loadOf workerId).map ResourceAllocation.lease := by
  simp only [Db.loadOf, Db.activeAllocations, Table.rows_update, List.filter_map, List.filter_filter,
    List.map_map]
  congr 1
  · funext a
    simp only [Function.comp]
    split <;> simp [hlease]
  · refine List.filter_congr fun a _ => ?_
    simp only [Function.comp]
    split <;> simp [hrun, hactive]

section Apply

variable {p : Platform}

theorem loadOf_release {db : Db} {x : ResourceAllocation}
    (h : (db.allocations.get? x.id).any x.sameLease) (time : Time) (workerId : Uuid) :
    (((Write.releaseAllocation x time).applyDb db).loadOf workerId).map ResourceAllocation.lease =
      if x.workerId = workerId then
        ((db.loadOf workerId).map ResourceAllocation.lease).filter fun l => l.id ≠ x.id
      else (db.loadOf workerId).map ResourceAllocation.lease := by
  obtain ⟨b, hget, hb⟩ := (Option.any_eq_true _ _).mp h
  have hrow : ∀ a ∈ db.allocations.rows, a.id = x.id → a.workerId = x.workerId := by
    intro a ha hid
    obtain rfl := Table.eq_of_key ha (Table.mem_of_get? hget)
      (hid.trans (Table.key_of_get? hget).symm)
    simp only [ResourceAllocation.sameLease, Bool.decide_and, Bool.and_eq_true,
      decide_eq_true_eq] at hb
    exact hb.2
  have hload : ((Write.releaseAllocation x time).applyDb db).loadOf workerId =
      (db.loadOf workerId).filter fun a => a.id ≠ x.id := by
    simp only [Db.loadOf, Db.activeAllocations, Write.applyDb, h, if_true, Table.rows_update,
      List.filter_map, List.filter_filter]
    refine .trans (congrArg _ (@List.filter_congr _ _ (fun a => decide (a.id ≠ x.id) &&
      (decide (a.workerId = workerId) && a.active)) db.allocations.rows fun a _ => ?_)) ?_
    rotate_left
    · refine (List.map_congr_left fun a ha => ?_).trans (List.map_id _)
      have hne : a.id ≠ x.id := by
        simp only [List.mem_filter, Bool.and_eq_true, decide_eq_true_eq] at ha
        exact ha.2.1
      simp [hne]
    · by_cases hid : a.id = x.id <;> simp [hid, ResourceAllocation.active]
  rw [hload]
  split
  · rw [List.filter_map]
    rfl
  · next hne =>
    rw [List.filter_eq_self.mpr]
    intro a ha
    simp only [Db.loadOf, Db.activeAllocations, List.mem_filter, decide_eq_true_eq] at ha
    have : a.id ≠ x.id := fun hid => hne ((hrow a ha.1.1 hid).symm.trans ha.2)
    simpa using this

theorem workerView_apply {w : Write} (h : w.check p = none) (workerId : Uuid) :
    (w.apply p).db.workerView workerId = w.onWorker workerId (p.db.workerView workerId) := by
  cases w with
  | insertWorker x =>
      simp only [Write.apply, Write.onWorker, Db.workerView, Write.applyDb, Table.get?_insert]
      split <;> rfl
  | updateWorker loaded changed =>
      simp only [Write.apply, Write.onWorker, Db.workerView, Write.applyDb, Table.get?_update]
      by_cases hid : loaded.id = workerId
      · simp only [hid, if_true, WorkerView.mk.injEq, true_and]
        rfl
      · simp [hid, Ne.symm hid, Db.loadOf, Db.activeAllocations]
  | insertAllocation a =>
      have hnone : p.db.allocations.get? a.id = none := by
        simp only [Write.check] at h
        split at h
        · simp at h
        · next hget => simpa using hget
      simp only [Write.apply, Write.onWorker, Db.workerView, Write.applyDb, Db.loadOf,
        Db.activeAllocations, Table.rows_insert hnone, List.filter_append, List.map_append]
      by_cases hw : a.workerId = workerId <;> by_cases ha : a.active <;> simp [hw, ha]
  | releaseAllocation a time =>
      have hany : (p.db.allocations.get? a.id).any a.sameLease := by
        simpa [Write.check] using h
      have hload := loadOf_release hany time workerId
      simp only [Write.apply, Write.onWorker, Db.workerView, hload]
      split <;> rfl
  | renewLease a time =>
      simp only [Write.apply, Write.onWorker, Db.workerView, Write.applyDb, WorkerView.mk.injEq,
        true_and]
      rw [loadOf_update]
      · exact fun _ => rfl
      · exact fun _ => rfl
      · exact fun _ => rfl
  | insertRun | updateRun | insertParameter | insertMetric | insertLog | insertArtifact | insertEvent
  | insertOutbox | updateOutbox | insertProcessed => rfl

theorem workerView_applyAll {ws : List Write} (h : storage.firstError p ws = none)
    (workerId : Uuid) :
    (storage.applyAll p ws).db.workerView workerId =
      onWorker workerId ws (p.db.workerView workerId) := by
  induction ws generalizing p with
  | nil => rfl
  | cons w ws ih =>
      obtain ⟨hw, hws⟩ := storage.firstError_cons_eq_none.mp h
      rw [Storage.applyAll_cons, ih hws, onWorker_cons]
      exact congrArg _ (workerView_apply hw workerId)

end Apply

end Runscope
