import Runscope.WorkersSound

/-!
The release of a run's lease, shared by the endings of an execution and the
recovery of expired leases.
-/

namespace Runscope

open Transact RunStatus

variable {m : Mode} {κ : Kind} {t : Session} {p : Platform}

/-- The leases not released are the allocations not released. -/
theorem active_runView (db : Db) (r : Uuid) :
    (db.runView r).active =
      (db.activeAllocations.filter fun a => a.runId = r).map ResourceAllocation.lease := by
  simp only [RunView.active, Db.runView, Db.leasesOf, Db.activeAllocations, List.filter_map,
    List.filter_filter]
  congr 1
  refine List.filter_congr fun a _ => ?_
  rw [Bool.and_comm]
  rfl

/-- The worker of a released lease, where `v` is the worker as the session
sees it: the caller's workers afterwards and the update that is pending. -/
inductive Recounted (m : Mode) (v : WorkerView) (workerId : Uuid) (loaded : List Worker) :
    List Worker → List Write → Prop where
  | found (worker : Worker) (hid : worker.id = workerId)
      (hrow : m.accounting → v.row = some worker) :
      Recounted m v workerId loaded
        (loaded.map fun w => if w.id = workerId then worker.withLeases v.leases else w)
        (workerUpdate worker (worker.withLeases v.leases))
  | missing (hrow : m.accounting → v.row = none) : Recounted m v workerId loaded loaded []

theorem onWorker_release_row (a : ResourceAllocation) (time : Time) (id : Uuid) (v : WorkerView) :
    (onWorker id [.releaseAllocation a time] v).row = v.row := by
  simp only [onWorker_cons, onWorker_nil, Write.onWorker]
  split <;> rfl

/-- The release of the one lease `lease` that the session sees for the run,
where the caller's workers are as the session sees them. -/
theorem releaseAllocation_holds
    {Q : Outcome (Option ResourceAllocation × List Worker × List Write)} {runId : Uuid}
    {pending : List Write} {loaded : List Worker} {lease : Lease} (hf : Fails m Q p)
    (hactive : ∀ a, .insertAllocation a ∉ pending)
    (hlease : ∀ p' i ws, ws = t.writes ++ pending.map (Write.stamp i) → Meanwhile m κ {} t p p' →
      storage.firstError p' ws = none → (onRun runId ws (p'.db.runView runId)).active = [lease])
    (hloaded : ∀ p' i ws, ws = t.writes ++ pending.map (Write.stamp i) → Meanwhile m κ {} t p p' →
      storage.firstError p' ws = none → m.accounting → ∀ w ∈ loaded,
        (onWorker w.id ws (p'.db.workerView w.id)).row = some w)
    (h : ∀ p' i t' a now loaded' pending',
      Flushed m κ {} t t' p p' (pending.map (Write.stamp i) ++ [.releaseAllocation a now]) →
      a.lease = lease → a.runId = runId →
      Recounted m (onWorker a.workerId t'.writes (p'.db.workerView a.workerId)) a.workerId loaded
        loaded' pending' →
      Q (.ok (some { a with releasedAt := some now }, loaded', pending')) t' p') :
    Holds m κ Q (releaseAllocation runId pending loaded) t p := by
  refine .flush' hf hactive fun p₁ i₁ hp₁ hacc₁ => ?_
  have h₁ := (Flushed.start hp₁).flush hacc₁
  rw [List.nil_append] at h₁
  generalize hws : pending.map (Write.stamp (t.began.getD i₁)) = ws at h₁
  generalize (t.begin i₁).write storage (t.stamped storage i₁ pending) = t₁ at h₁ ⊢
  refine .selectForUpdate (hf.later h₁.later) fun p₂ i₂ free hp₂ => ?_
  have h₂ := h₁.next hp₂
  have hfound : ((t₁.view storage p₂).db.activeAllocations.filter fun a => a.runId = runId).map
      ResourceAllocation.lease = [lease] := by
    have hview : (t₁.view storage p₂).db.runView runId = onRun runId t₁.writes (p₂.db.runView runId) :=
      runView_applyAll hp₂.accepted runId
    rw [← active_runView, hview]
    exact hlease p₂ _ _ (hws ▸ h₂.writes) h₂.meanwhile hp₂.accepted
  obtain ⟨a, hfound, ha⟩ := List.map_eq_singleton_iff.mp hfound
  have hrun : a.runId = runId := by
    have : a ∈ (t₁.view storage p₂).db.activeAllocations.filter fun a => a.runId = runId := by
      simp [hfound]
    simpa using (List.mem_filter.mp this).2
  rw [hfound]
  refine .datetimeNow fun p₃ t₃ now ht₃ hp₃ => ?_
  have h₃ := (((h₂.begin i₂).lock _).next hp₃).idle ht₃
  refine .flush' (hf.later h₃.later) (by simp) fun p₄ i₄ hp₄ hacc₄ => ?_
  have h₄ : Flushed m κ {} t _ p p₄ (ws ++ [.releaseAllocation a now]) := (h₃.next hp₄).flush hacc₄
  extract_lets released
  generalize (t₃.begin i₄).write storage (t₃.stamped storage i₄ [.releaseAllocation a now]) = t₄
    at h₄ ⊢
  have htail (worker : Worker) (p₅ : Platform) (t₅ : Session) (hid : worker.id = a.workerId)
      (h₅ : Flushed m κ {} t t₅ p p₅ (ws ++ [.releaseAllocation a now]))
      (hrow : ∀ p₆, Meanwhile m κ { worker := some worker.id } t₅ p₅ p₆ → m.accounting →
        (onWorker a.workerId t₅.writes (p₆.db.workerView a.workerId)).row = some worker) :
      Holds m κ Q (do
        let refreshed ← refreshWorkerCapacity { worker := some worker.id } worker
        .ret (some released, loaded.map fun w => if w.id = refreshed.id then refreshed else w,
          workerUpdate worker refreshed)) t₅ p₅ := by
    refine .refreshWorkerCapacity (hf.later h₅.later) fun p₆ i₆ hp₆ => ?_
    have h₆ := (h₅.next hp₆).begin i₆
    refine h p₆ (t.began.getD i₁) _ a now _ _ (hws ▸ h₆) ha hrun ?_
    have hrow := hrow p₆ hp₆
    rw [← hid] at hrow ⊢
    exact .found worker rfl hrow
  cases hfind : loaded.find? fun w => w.id = a.workerId with
  | some worker =>
      have hid : worker.id = a.workerId := by simpa using List.find?_some hfind
      refine htail worker p₄ t₄ hid h₄ fun p₅ hp₅ hm => ?_
      have h₅ := h₄.next hp₅
      have hrow := hloaded p₅ (t.began.getD i₁) _ rfl h₅.meanwhile (hws ▸ h₅.accepted_prefix) hm worker
        (List.mem_of_find?_eq_some hfind)
      rw [h₅.writes, ← List.append_assoc, onWorker_append, onWorker_release_row, ← hid, ← hws]
      exact hrow
  | none =>
      refine .select (hf.later h₄.later) fun p₅ i₅ hp₅ => ?_
      have h₅ := (h₄.next hp₅).begin i₅
      have hview : (t₄.view storage p₅).db.workers.get? a.workerId =
          (onWorker a.workerId t₄.writes (p₅.db.workerView a.workerId)).row :=
        congrArg WorkerView.row (workerView_applyAll hp₅.accepted a.workerId)
      cases hget : (t₄.view storage p₅).db.workers.get? a.workerId with
      | none =>
          refine h p₅ (t.began.getD i₁) _ a now _ _ (hws ▸ h₅) ha hrun (.missing fun _ => ?_)
          exact hview.symm.trans hget
      | some worker =>
          have hid := Table.key_of_get? hget
          refine htail worker p₅ _ hid h₅ fun p₆ hp₆ hm => ?_
          rw [← hid, hp₆.rely.loaded hm rfl worker.id rfl, hid]
          exact hview.symm.trans hget

theorem Recounted.upkeep {v : WorkerView} {workerId : Uuid} {loaded loaded' : List Worker}
    {pending : List Write} (h : Recounted m v workerId loaded loaded' pending) :
    ∀ w ∈ pending, w.upkeep ∧ w.worker? = some workerId := by
  cases h with
  | found worker hid _ => exact hid ▸ upkeep_workerUpdate worker _
  | missing => simp

theorem onWorker_release_leases (a : ResourceAllocation) (time : Time) (v : WorkerView) :
    (onWorker a.workerId [.releaseAllocation a time] v).leases =
      v.leases.filter fun l => l.id ≠ a.id := by
  simp [Write.onWorker]

/-- The count of a balanced worker drops with the release, so that its update
is pending. -/
theorem Recounted.pending_eq {v : WorkerView} {a : ResourceAllocation} {time : Time}
    {loaded loaded' : List Worker} {pending : List Write}
    (h : Recounted m (onWorker a.workerId [.releaseAllocation a time] v) a.workerId loaded loaded'
      pending) (hm : m.accounting) (hv : v.Balanced) (ha : a.lease ∈ v.leases) :
    ∃ worker, v.row = some worker ∧ worker.id = a.workerId ∧
      loaded' = (loaded.map fun w =>
        if w.id = a.workerId then worker.withLeases (v.leases.filter fun l => l.id ≠ a.id) else w) ∧
      pending =
        [.updateWorker worker (worker.withLeases (v.leases.filter fun l => l.id ≠ a.id))] := by
  cases h with
  | missing hrow =>
      have hnil := hv.placed ((onWorker_release_row a time a.workerId v).symm.trans (hrow hm))
      simp [hnil] at ha
  | found worker hid hrow =>
      have hrow : v.row = some worker :=
        (onWorker_release_row a time a.workerId v).symm.trans (hrow hm)
      have hlt : (v.leases.filter fun l => l.id ≠ a.id).length < v.leases.length :=
        List.length_filter_lt_length_iff_exists.mpr ⟨a.lease, ha, by simp [ResourceAllocation.lease]⟩
      have hcount : v.leases.length = worker.currentRunCount :=
        congrArg Worker.currentRunCount (hv.counted worker hrow)
      have hne : worker.withLeases (v.leases.filter fun l => l.id ≠ a.id) ≠ worker := by
        intro heq
        have : (v.leases.filter fun l => l.id ≠ a.id).length = worker.currentRunCount :=
          congrArg Worker.currentRunCount heq
        omega
      refine ⟨worker, hrow, hid, by rw [onWorker_release_leases], ?_⟩
      rw [onWorker_release_leases, workerUpdate, if_neg hne]

/-- The release and the update of the worker, taken together. -/
theorem onWorker_recounted {v : WorkerView} {a : ResourceAllocation} {worker : Worker}
    (hrow : v.row = some worker) (hid : worker.id = a.workerId) (time : Time) :
    onWorker a.workerId [.releaseAllocation a time,
        .updateWorker worker (worker.withLeases (v.leases.filter fun l => l.id ≠ a.id))] v =
      ⟨some (worker.withLeases (v.leases.filter fun l => l.id ≠ a.id)),
        v.leases.filter fun l => l.id ≠ a.id⟩ := by
  have hmerge : Worker.merge worker (worker.withLeases (v.leases.filter fun l => l.id ≠ a.id))
      worker = worker.withLeases (v.leases.filter fun l => l.id ≠ a.id) :=
    Worker.merge_loaded rfl rfl
  simp only [onWorker_cons, onWorker_nil, Write.onWorker, hrow, hid, if_true, Option.map_some,
    hmerge]

theorem shrinks_recounted {v : WorkerView} {a : ResourceAllocation} {worker : Worker}
    (hrow : v.row = some worker) :
    v.Shrinks ⟨some (worker.withLeases (v.leases.filter fun l => l.id ≠ a.id)),
      v.leases.filter fun l => l.id ≠ a.id⟩ :=
  ⟨by simp [WorkerView.totals, hrow, Worker.withLeases], List.filter_sublist⟩

theorem WorkerView.Shrinks.trans {v₁ v₂ v₃ : WorkerView} (h₁ : v₁.Shrinks v₂) (h₂ : v₂.Shrinks v₃) :
    v₁.Shrinks v₃ := ⟨h₂.1.trans h₁.1, h₂.2.trans h₁.2⟩

/-- An unreleased lease of a run is an unreleased lease on its worker. -/
theorem mem_workerView_of_active {db : Db} {r : Uuid} {lease : Lease}
    (h : lease ∈ (db.runView r).active) : lease ∈ (db.workerView lease.workerId).leases := by
  rw [active_runView] at h
  obtain ⟨a, ha, rfl⟩ := List.mem_map.mp h
  refine List.mem_map.mpr ⟨a, List.mem_filter.mpr ⟨(List.mem_filter.mp ha).1, ?_⟩, rfl⟩
  simp [ResourceAllocation.lease]

end Runscope
