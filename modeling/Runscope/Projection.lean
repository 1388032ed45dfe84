import Runscope.Lifecycle

/-!
What the database says about one run, and what a write does to that.

`runView_apply` is the bridge between the two: an accepted write acts on the
view of a run by `Write.onRun`, which looks at nothing but the view.
-/

namespace Runscope

open Transact

def ResourceAllocation.lease (a : ResourceAllocation) : Lease :=
  ⟨a.id, a.workerId, a.cpu, a.memoryMb, a.leaseToken, a.releasedAt⟩

namespace Db

/-- The leases of a run, released or not. -/
def leasesOf (db : Db) (runId : Uuid) : List Lease :=
  (db.allocations.rows.filter fun a => a.runId = runId).map ResourceAllocation.lease

/-- The events of a run that record a transition. -/
def transitionsOf (db : Db) (runId : Uuid) : List (Option RunStatus × Option RunStatus) :=
  (db.events.filter fun e => e.runId = runId ∧ e.newStatus.isSome).map fun e =>
    (e.previousStatus, e.newStatus)

/-- The outbox messages about a run. -/
def messagesOf (db : Db) (runId : Uuid) : List EventEnvelope :=
  (db.outbox.rows.map OutboxMessage.envelope).filter fun m => m.runId = some runId

def runView (db : Db) (runId : Uuid) : RunView :=
  ⟨db.runs.get? runId, db.leasesOf runId, db.transitionsOf runId, db.messagesOf runId⟩

end Db

/-- The effect of a write on the view of a run. -/
def Write.onRun (runId : Uuid) (w : Write) (v : RunView) : RunView :=
  match w with
  | insertRun run => if run.id = runId then { v with run := some (v.run.getD run) } else v
  | updateRun run => if run.id = runId then { v with run := v.run.map run.stored } else v
  | insertAllocation a => if a.runId = runId then { v with leases := v.leases ++ [a.lease] } else v
  | releaseAllocation a time =>
      if a.runId = runId then { v with leases := releaseLease a.id time v.leases } else v
  | insertEvent e =>
      if e.runId = runId ∧ e.newStatus.isSome then
        { v with transitions := v.transitions ++ [(e.previousStatus, e.newStatus)] }
      else v
  | insertOutbox m =>
      if m.envelope.runId = some runId then { v with messages := v.messages ++ [m.envelope] }
      else v
  | _ => v

/-- The run whose view a write may change. -/
def Write.run? : Write → Option Uuid
  | insertRun run => some run.id
  | updateRun run => some run.id
  | insertAllocation a => some a.runId
  | releaseAllocation a _ => some a.runId
  | insertEvent e => if e.newStatus.isSome then some e.runId else none
  | insertOutbox m => m.envelope.runId
  | _ => none

theorem Write.onRun_of_ne {w : Write} {runId : Uuid} (h : w.run? ≠ some runId) (v : RunView) :
    w.onRun runId v = v := by
  cases w
  case insertEvent e => cases hnew : e.newStatus <;> simp_all [Write.onRun, Write.run?]
  all_goals simp_all [Write.onRun, Write.run?]

/-- The effect of several writes. -/
def onRun (runId : Uuid) (ws : List Write) (v : RunView) : RunView :=
  ws.foldl (fun v w => w.onRun runId v) v

@[simp] theorem onRun_nil (runId : Uuid) (v : RunView) : onRun runId [] v = v := rfl

@[simp] theorem onRun_cons (runId : Uuid) (w : Write) (ws : List Write) (v : RunView) :
    onRun runId (w :: ws) v = onRun runId ws (w.onRun runId v) := rfl

@[simp] theorem onRun_append (runId : Uuid) (ws ws' : List Write) (v : RunView) :
    onRun runId (ws ++ ws') v = onRun runId ws' (onRun runId ws v) := by
  simp [onRun]

theorem onRun_of_forall_ne {runId : Uuid} {ws : List Write} (h : ∀ w ∈ ws, w.run? ≠ some runId)
    (v : RunView) : onRun runId ws v = v := by
  induction ws with
  | nil => rfl
  | cons w ws ih =>
      rw [onRun_cons, w.onRun_of_ne (h w (by simp)), ih fun w' hw' => h w' (by simp [hw'])]

section Apply

variable {p : Platform}

theorem leasesOf_release {db : Db} {x : ResourceAllocation}
    (h : (db.allocations.get? x.id).any x.sameLease) (time : Time) (runId : Uuid) :
    ((Write.releaseAllocation x time).applyDb db).leasesOf runId =
      if x.runId = runId then releaseLease x.id time (db.leasesOf runId)
      else db.leasesOf runId := by
  obtain ⟨b, hget, hb⟩ := (Option.any_eq_true _ _).mp h
  have hrow : ∀ a ∈ db.allocations.rows, a.id = x.id → a.runId = x.runId := by
    intro a ha hid
    obtain rfl := Table.eq_of_key ha (Table.mem_of_get? hget)
      (hid.trans (Table.key_of_get? hget).symm)
    simp only [ResourceAllocation.sameLease, Bool.decide_and, Bool.and_eq_true,
      decide_eq_true_eq] at hb
    exact hb.1
  have hfilter (f : ResourceAllocation → ResourceAllocation) (hf : ∀ a, (f a).runId = a.runId) :
      (db.allocations.rows.map f).filter (fun a => a.runId = runId) =
        (db.allocations.rows.filter fun a => a.runId = runId).map f := by
    rw [List.filter_map]
    congr 2
    funext a
    simp [hf]
  simp only [Db.leasesOf, Write.applyDb, h, if_true, Table.rows_update]
  rw [hfilter _ fun a => by split <;> rfl]
  split
  · simp only [releaseLease, List.map_map]
    refine List.map_congr_left fun a _ => ?_
    by_cases hid : a.id = x.id <;> simp [ResourceAllocation.lease, hid]
  · next hrun =>
    rw [List.map_map]
    refine List.map_congr_left fun a ha => ?_
    obtain ⟨hmem, ha⟩ := List.mem_filter.mp ha
    have hne : a.id ≠ x.id := fun hid => hrun ((hrow a hmem hid).symm.trans (by simpa using ha))
    simp [hne]

theorem leasesOf_renew (db : Db) (x : ResourceAllocation) (time : Time) (runId : Uuid) :
    ((Write.renewLease x time).applyDb db).leasesOf runId = db.leasesOf runId := by
  simp only [Db.leasesOf, Write.applyDb, Table.rows_update, List.filter_map, List.map_map]
  congr 1
  · funext a
    simp only [Function.comp]
    split <;> rfl
  · congr 1
    funext a
    simp only [Function.comp]
    split <;> rfl

theorem runView_apply {w : Write} (h : w.check p = none) (runId : Uuid) :
    (w.apply p).db.runView runId = w.onRun runId (p.db.runView runId) := by
  cases w with
  | insertRun run =>
      simp only [Write.apply, Write.onRun, Db.runView, Write.applyDb, Table.get?_insert]
      split <;> rfl
  | updateRun run =>
      simp only [Write.apply, Write.onRun, Db.runView, Write.applyDb, Table.get?_update]
      by_cases hid : run.id = runId
      · subst hid
        simp only [if_true]
        rfl
      · simp [hid, Ne.symm hid, Db.leasesOf, Db.transitionsOf, Db.messagesOf]
  | insertAllocation a =>
      have hnone : p.db.allocations.get? a.id = none := by
        simp only [Write.check] at h
        split at h
        · simp at h
        · next hget => simpa using hget
      simp only [Write.apply, Write.onRun, Db.runView, Write.applyDb, Db.leasesOf,
        Table.rows_insert hnone, List.filter_append, List.map_append]
      by_cases hrun : a.runId = runId <;> simp [hrun, Db.transitionsOf, Db.messagesOf]
  | releaseAllocation a time =>
      have hany : (p.db.allocations.get? a.id).any a.sameLease := by
        simpa [Write.check] using h
      have hleases := leasesOf_release hany time runId
      simp only [Write.apply, Write.onRun, Db.runView, hleases]
      split <;> rfl
  | renewLease a time =>
      simp only [Write.apply, Write.onRun, Db.runView, leasesOf_renew]
      rfl
  | insertEvent e =>
      simp only [Write.apply, Write.onRun, Db.runView, Write.applyDb, Db.transitionsOf,
        List.filter_append, List.map_append]
      by_cases he : e.runId = runId ∧ e.newStatus.isSome
      · simp [he, Db.leasesOf, Db.messagesOf]
      · simp [he, Db.leasesOf, Db.messagesOf]
  | insertOutbox m =>
      have hnone : p.db.outbox.get? m.id = none := by
        simp only [Write.check] at h
        split at h
        · simp at h
        · next hget => simpa using hget
      simp only [Write.apply, Write.onRun, Db.runView, Write.applyDb, Db.messagesOf,
        Table.rows_insert hnone, List.map_append, List.filter_append]
      by_cases hm : m.envelope.runId = some runId <;>
        simp [hm, Db.leasesOf, Db.transitionsOf]
  | updateOutbox loaded changed =>
      have henv : (OutboxMessage.envelope ∘ fun m =>
          if m.id = loaded.id then OutboxMessage.merge loaded changed m else m) =
          OutboxMessage.envelope := by
        funext m
        simp only [Function.comp]
        split <;> rfl
      simp only [Write.apply, Write.onRun, Db.runView, Write.applyDb, Db.messagesOf,
        Table.rows_update, List.map_map, henv]
      rfl
  | insertParameter | insertMetric | insertLog | insertArtifact | insertWorker | updateWorker
  | insertProcessed => rfl

theorem runView_applyAll {ws : List Write} (h : storage.firstError p ws = none) (runId : Uuid) :
    (storage.applyAll p ws).db.runView runId = onRun runId ws (p.db.runView runId) := by
  induction ws generalizing p with
  | nil => rfl
  | cons w ws ih =>
      obtain ⟨hw, hws⟩ := storage.firstError_cons_eq_none.mp h
      rw [Storage.applyAll_cons, ih hws, onRun_cons]
      exact congrArg _ (runView_apply hw runId)

end Apply

end Runscope
