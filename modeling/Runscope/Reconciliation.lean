import Runscope.Reachable
import Runscope.Solitary

/-!
What one call of `recover_expired_allocations` does to the database.

The leases it releases are those that were overdue or on a worker it marked
stale; each is the one lease of its run, so the runs of two of them differ and
a round leaves the leases of later rounds alone.
-/

namespace Runscope

open Transact RunStatus

/-- `recover_expired_allocations`, and the commit its callers make. -/
def reconcile (settings : Settings) : Program ℕ := do
  let (released, pending) ← recoverExpiredAllocations settings
  session.commit {} pending
  .ret released

namespace Db

/-- The workers online without a heartbeat since `staleBefore`. -/
def silentWorkers (db : Db) (staleBefore : Time) : List Worker :=
  db.workers.rows.filter fun w => w.status = .online ∧ w.lastHeartbeatAt < staleBefore

/-- The leases that are overdue or belong to one of the workers. -/
def expiredAllocations (db : Db) (now : Time) (staleIds : List Uuid) : List ResourceAllocation :=
  db.activeAllocations.filter fun a => a.leaseExpiresAt < now ∨ a.workerId ∈ staleIds

end Db

/-- What becomes of the run of a released lease. -/
inductive Run.Recovers (run : Run) : Run → Prop where
  | requeued (h : run.status = scheduling) :
      Recovers run { run with
        status := queued
        assignedWorkerId := none
        version := run.version + 1 }
  | failed (h : run.status = running) (now : Time) :
      Recovers run { run with
        status := RunStatus.failed
        completedAt := some now
        failureCode := some "worker_lease_expired"
        failureMessage := some "The assigned worker stopped heartbeating"
        version := run.version + 1 }
  | cancelled (h : run.status = cancelling) (now : Time) :
      Recovers run { run with
        status := RunStatus.cancelled
        completedAt := some now
        version := run.version + 1 }

/-- A worker's row without its counters. -/
def Worker.uncounted (w : Worker) : Worker :=
  { w with availableCpu := 0, availableMemoryMb := 0, currentRunCount := 0 }

/-- From `q` to `p` the workers of `staleIds` were marked stale and the leases
of `released` released, with what follows for their runs and workers, and
nothing else happened to leases, runs, workers and messages. -/
structure Reconciles (staleIds : List Uuid) (released : List ResourceAllocation) (q p : Db) :
    Prop where
  leases : ∀ a ∈ released, q.allocations.get? a.id = some a ∧
    ∃ now, p.allocations.get? a.id = some { a with releasedAt := some now }
  otherLeases : ∀ id, (∀ a ∈ released, a.id ≠ id) →
    p.allocations.get? id = q.allocations.get? id
  runs : ∀ a ∈ released, ∃ run run', q.runs.get? a.runId = some run ∧
    p.runs.get? a.runId = some run' ∧ run.Recovers run'
  otherRuns : ∀ id, (∀ a ∈ released, a.runId ≠ id) → p.runs.get? id = q.runs.get? id
  workers : ∀ id, (p.workers.get? id).map Worker.uncounted = (q.workers.get? id).map fun w =>
    (if id ∈ staleIds then w.markStale else w).uncounted
  otherWorkers : ∀ id, id ∉ staleIds → (∀ a ∈ released, a.workerId ≠ id) →
    p.workers.get? id = q.workers.get? id
  messages : p.outbox = q.outbox

namespace Reconciles

variable {staleIds : List Uuid} {released : List ResourceAllocation} {q p p' : Db}
  {a : ResourceAllocation}

/-- A lease that is still unreleased was so before, and was not selected. -/
theorem of_active (h : Reconciles staleIds released q p) (ha : a ∈ p.activeAllocations) :
    a ∈ q.activeAllocations ∧ ∀ b ∈ released, b.id ≠ a.id := by
  obtain ⟨hmem, hactive⟩ := List.mem_filter.mp ha
  have hget := Table.get?_of_mem hmem
  have hkept : ∀ b ∈ released, b.id ≠ a.id := by
    intro b hb hid
    obtain ⟨-, now, hreleased⟩ := h.leases b hb
    rw [hid, hget] at hreleased
    rw [Option.some.inj hreleased] at hactive
    cases hactive
  rw [h.otherLeases a.id hkept] at hget
  exact ⟨List.mem_filter.mpr ⟨Table.mem_of_get? hget, hactive⟩, hkept⟩

/-- A worker that is still online was so before with the same heartbeat, and
was not marked. -/
theorem of_online {w : Worker} (h : Reconciles staleIds released q p) (hw : w ∈ p.workers.rows)
    (honline : w.status = .online) : w.id ∉ staleIds ∧
      ∃ w' ∈ q.workers.rows, w'.id = w.id ∧ w'.status = .online ∧
        w'.lastHeartbeatAt = w.lastHeartbeatAt := by
  have hrow := h.workers w.id
  rw [Table.get?_of_mem hw, Option.map_some] at hrow
  obtain ⟨w', hget, heq⟩ := Option.map_eq_some_iff.mp hrow.symm
  have hstatus := congrArg Worker.status heq
  have hheartbeat := congrArg Worker.lastHeartbeatAt heq
  by_cases hstale : w.id ∈ staleIds
  · simp [hstale, Worker.uncounted, Worker.markStale, honline] at hstatus
  · simp only [hstale, if_false, Worker.uncounted, honline] at hstatus hheartbeat
    exact ⟨hstale, w', Table.mem_of_get? hget, Table.key_of_get? hget, hstatus, hheartbeat⟩

/-- One lease more is released. -/
theorem release {run run' : Run} {now : Time} (h : Reconciles staleIds released q p)
    (ha : q.allocations.get? a.id = some a)
    (hapart : ∀ b ∈ released, b.id ≠ a.id ∧ b.runId ≠ a.runId)
    (hrun : q.runs.get? a.runId = some run) (hrecovers : run.Recovers run')
    (hleases : ∀ id, p'.allocations.get? id =
      if id = a.id then some { a with releasedAt := some now } else p.allocations.get? id)
    (hruns : ∀ id, p'.runs.get? id = if id = a.runId then some run' else p.runs.get? id)
    (hworker : (p'.workers.get? a.workerId).map Worker.uncounted =
      (p.workers.get? a.workerId).map Worker.uncounted)
    (hworkers : ∀ id, id ≠ a.workerId → p'.workers.get? id = p.workers.get? id)
    (hmessages : p'.outbox = p.outbox) : Reconciles staleIds (released ++ [a]) q p' where
  leases b hb := by
    rcases List.mem_append.mp hb with hb | hb
    · obtain ⟨hget, now, hreleased⟩ := h.leases b hb
      exact ⟨hget, now, by rw [hleases, if_neg (hapart b hb).1, hreleased]⟩
    · obtain rfl := List.mem_singleton.mp hb
      exact ⟨ha, now, by rw [hleases, if_pos rfl]⟩
  otherLeases id hid := by
    rw [hleases, if_neg fun heq => hid a (by simp) heq.symm]
    exact h.otherLeases id fun b hb => hid b (by simp [hb])
  runs b hb := by
    rcases List.mem_append.mp hb with hb | hb
    · obtain ⟨old, new, hold, hnew, hrecovers⟩ := h.runs b hb
      exact ⟨old, new, hold, by rw [hruns, if_neg (hapart b hb).2, hnew], hrecovers⟩
    · obtain rfl := List.mem_singleton.mp hb
      exact ⟨run, run', hrun, by rw [hruns, if_pos rfl], hrecovers⟩
  otherRuns id hid := by
    rw [hruns, if_neg fun heq => hid a (by simp) heq.symm]
    exact h.otherRuns id fun b hb => hid b (by simp [hb])
  workers id := by
    rw [← h.workers id]
    by_cases hid : id = a.workerId
    · rw [hid]
      exact hworker
    · rw [hworkers id hid]
  otherWorkers id hstale hid := by
    rw [hworkers id fun heq => hid a (by simp) heq.symm]
    exact h.otherWorkers id hstale fun b hb => hid b (by simp [hb])
  messages := hmessages.trans h.messages

end Reconciles

/-! ### One lease -/

variable {env : Conditions} {fails : Prop} {r : Sitting} {rt : Runtime} {settings : Settings}

theorem recoverRun_yields {allocation : ResourceAllocation} {run : Run}
    {Q : List Write → Sitting → Prop} (hleased : run.status.leased)
    (hqueued : run.queuedAt.isSome)
    (h : ∀ r' changed event, r.Reads storage r' → changed.id = run.id →
      changed.version = run.version → run.Recovers (changed.stored run) →
      Q [.updateRun changed, .insertEvent event] r') :
    (recoverRun allocation run).Yields storage env fails r Q := by
  rw [recoverRun]
  cases hstatus : run.status with
  | scheduling =>
      refine .bind (transitionRun_yields (by simp [hstatus, validTransitions]) fun now r' hr' => ?_)
      refine h r' _ _ hr' rfl rfl ?_
      have hkeep : run.queuedAt ≠ none := fun hnone => by simp [hnone] at hqueued
      have hrequeued := Run.Recovers.requeued hstatus
      simpa [Run.stored, Run.transitioned, hkeep] using hrequeued
  | running =>
      refine .bind (transitionRun_yields (by simp [Run.withFailure, hstatus, validTransitions])
        fun now r' hr' => h r' _ _ hr' rfl rfl ?_)
      exact .failed hstatus now
  | cancelling =>
      refine .bind (transitionRun_yields (by simp [hstatus, validTransitions])
        fun now r' hr' => h r' _ _ hr' rfl rfl ?_)
      exact .cancelled hstatus now
  | draft | queued | succeeded | failed | cancelled | retrying =>
      simp [hstatus, RunStatus.leased] at hleased

/-- What a round flushes. -/
theorem flushed_round {v : Platform} {run changed : Run} {event : RunEvent} {a : ResourceAllocation}
    (hrun : v.db.runs.get? run.id = some run) (hid : changed.id = run.id)
    (ha : v.db.allocations.get? a.id = some a) (now : Time) (i : Input) {u : Platform}
    (hu : u = (v.flushed i [.updateRun changed, .insertEvent event]).flushed i
      [.releaseAllocation a now]) :
    (∀ id, u.db.runs.get? id = if id = run.id then some (changed.stored run)
      else v.db.runs.get? id) ∧
    (∀ id, u.db.allocations.get? id = if id = a.id then some { a with releasedAt := some now }
      else v.db.allocations.get? id) ∧
    u.db.workers = v.db.workers ∧ u.db.outbox = v.db.outbox := by
  subst hu
  refine ⟨fun id => ?_, fun id => ?_, rfl, rfl⟩
  · show ((v.db.runs.update changed.id changed.stored changed.stored_id).get? id) = _
    rw [Table.get?_update, hid]
    split
    · next heq => rw [heq, hrun, Option.map_some]
    · rfl
  · have hany : (v.db.allocations.get? a.id).any a.sameLease := by
      simp [ha, ResourceAllocation.sameLease]
    refine (Db.get?_release id).trans ?_
    show (if id = a.id ∧ (v.db.allocations.get? a.id).any a.sameLease then
      (v.db.allocations.get? id).map _ else v.db.allocations.get? id) = _
    by_cases hid : id = a.id
    · rw [if_pos ⟨hid, hany⟩, if_pos hid, hid, ha, Option.map_some]
    · rw [if_neg fun h => hid h.1, if_neg hid]

/-! ### The loop over the leases -/

/-- The leases of `done` have been dealt with, those of `rest` have not, and
the scheduler's copies of workers are true. -/
structure Recovering (staleIds : List Uuid) (done rest : List ResourceAllocation)
    (loaded : List Worker) (q p : Db) : Prop where
  reconciles : Reconciles staleIds done q p
  leases : (done ++ rest).Sublist q.activeAllocations
  loaded : ∀ w ∈ loaded, p.workers.get? w.id = some w

variable {staleIds : List Uuid} {done rest : List ResourceAllocation} {loaded : List Worker}
  {p₀ v : Platform} {a : ResourceAllocation}

/-- The run of an unreleased lease is one that the recovery deals with. -/
theorem leased_of_active (hI : Invariant (.plain rt) p₀) (ha : a ∈ p₀.db.activeAllocations) :
    ∃ run, p₀.db.runs.get? a.runId = some run ∧ run.status.leased ∧ run.queuedAt.isSome := by
  have hmem : a.lease ∈ (p₀.db.runView a.runId).active := by
    rw [active_runView]
    exact List.mem_map.mpr ⟨a, by simp [ha], rfl⟩
  cases hget : p₀.db.runs.get? a.runId with
  | none =>
      rw [(hI.runs a.runId).absent hget] at hmem
      simp [RunView.absent, RunView.active] at hmem
  | some run =>
      have hcoherent := (hI.runs a.runId).present run hget
      refine ⟨run, rfl, ?_, hcoherent.queuedAt⟩
      by_contra hnot
      rw [hcoherent.unleased hnot] at hmem
      cases hmem

namespace Recovering

/-- The lease whose turn it is. -/
theorem next (hI : Invariant (.plain rt) p₀)
    (h : Recovering staleIds done (a :: rest) loaded p₀.db v.db) :
    (∀ b ∈ done, b.id ≠ a.id ∧ b.runId ≠ a.runId) ∧ p₀.db.allocations.get? a.id = some a ∧
      v.db.allocations.get? a.id = some a ∧ v.db.runs.get? a.runId = p₀.db.runs.get? a.runId ∧
      v.db.activeAllocations.filter (fun x => x.runId = a.runId) = [a] := by
  have hpairwise := pairwise_activeAllocations hI
  have ha : a ∈ p₀.db.activeAllocations := h.leases.subset (by simp)
  have hapart : ∀ b ∈ done, b.id ≠ a.id ∧ b.runId ≠ a.runId := by
    intro b hb
    have hruns := (List.pairwise_append.mp (hpairwise.sublist h.leases)).2.2 b hb a (by simp)
    refine ⟨fun hid => hruns ?_, hruns⟩
    have hbq : b ∈ p₀.db.activeAllocations := h.leases.subset (by simp [hb])
    rw [Table.eq_of_key (List.mem_of_mem_filter hbq) (List.mem_of_mem_filter ha) hid]
  have hget : p₀.db.allocations.get? a.id = some a := Table.get?_of_mem (List.mem_of_mem_filter ha)
  have hstill := (h.reconciles.otherLeases a.id fun b hb => (hapart b hb).1).trans hget
  refine ⟨hapart, hget, hstill, h.reconciles.otherRuns _ fun b hb => (hapart b hb).2, ?_⟩
  have hactive : a ∈ v.db.activeAllocations :=
    List.mem_filter.mpr ⟨Table.mem_of_get? hstill, (List.mem_filter.mp ha).2⟩
  have hnodup : (v.db.activeAllocations.filter fun x => x.runId = a.runId).Nodup :=
    ((v.db.allocations.nodup.of_map).filter _).filter _
  refine List.perm_singleton.mp ((List.perm_ext_iff_of_nodup hnodup
    (List.nodup_singleton a)).mpr fun x => ?_)
  rw [List.mem_singleton, List.mem_filter, decide_eq_true_eq]
  constructor
  · rintro ⟨hx, hrun⟩
    have hnodup : (p₀.db.activeAllocations.map ResourceAllocation.runId).Nodup :=
      List.pairwise_map.mpr hpairwise
    exact List.inj_on_of_nodup_map hnodup (h.reconciles.of_active hx).1 ha hrun
  · rintro rfl
    exact ⟨hactive, rfl⟩

/-- The lease is released, its run dealt with, and its worker counted again. -/
theorem round {run changed : Run} {event : RunEvent} {now : Time} {i : Input} {u : Platform}
    (hI : Invariant (.plain rt) p₀) (h : Recovering staleIds done (a :: rest) loaded p₀.db v.db)
    (hrun : p₀.db.runs.get? a.runId = some run) (hid : changed.id = run.id)
    (hrecovers : run.Recovers (changed.stored run))
    (hu : u = (v.flushed i [.updateRun changed, .insertEvent event]).flushed i
      [.releaseAllocation a now]) :
    ∃ v', Pends u (u.db.recounted a.workerId loaded).2 v' ∧
      Recovering staleIds (done ++ [a]) rest (u.db.recounted a.workerId loaded).1 p₀.db v'.db ∧
      (u.db.recounted a.workerId loaded).1.map Worker.id = loaded.map Worker.id := by
  obtain ⟨hapart, ha, hstill, hsame, -⟩ := h.next hI
  have hrunId : run.id = a.runId := Table.key_of_get? hrun
  obtain ⟨hruns, hleases, hworkers, hmessages⟩ :=
    flushed_round (hrunId ▸ hsame.trans hrun) hid hstill now i hu
  rw [hrunId] at hruns
  have hleft : (done ++ [a] ++ rest).Sublist p₀.db.activeAllocations := by
    rw [List.append_assoc]
    exact h.leases
  cases hworker : u.db.workers.get? a.workerId with
  | none =>
      rw [Db.recounted, hworker]
      refine ⟨u, pends_nil u, ⟨?_, hleft, fun w hw => ?_⟩, rfl⟩
      · exact h.reconciles.release ha hapart hrun hrecovers hleases hruns (by rw [hworkers])
          (fun id _ => by rw [hworkers]) hmessages
      · rw [hworkers]
        exact h.loaded w hw
  | some worker =>
      rw [Db.recounted, hworker]
      have hworkerId : worker.id = a.workerId := Table.key_of_get? hworker
      have hloaded : u.db.workers.get? worker.id = some worker := hworkerId ▸ hworker
      obtain ⟨workers, hpends, hget⟩ :=
        pends_workerUpdate (worker.withLoad (u.db.loadOf worker.id)) hloaded rfl rfl
      refine ⟨_, hpends, ⟨?_, hleft, fun w hw => ?_⟩, ?_⟩
      · refine h.reconciles.release ha hapart hrun hrecovers hleases hruns ?_ (fun id hne => ?_)
          hmessages
        · rw [hget, if_pos hworkerId.symm, ← hworkers, hworker]
          rfl
        · rw [hget, if_neg (hworkerId ▸ hne), hworkers]
      · obtain ⟨x, hx, rfl⟩ := List.mem_map.mp hw
        show workers.get? _ = _
        split
        · exact (hget _).trans (if_pos rfl)
        · next hne => rw [hget, if_neg hne, hworkers, h.loaded x hx]
      · rw [List.map_map]
        refine List.map_congr_left fun w _ => ?_
        simp only [Function.comp]
        split
        · next heq => exact heq.symm
        · rfl

end Recovering

theorem recoverAllocations_yields (hI : Invariant (.plain rt) p₀) {pending : List Write}
    (hpends : Pends (r.view storage) pending v) (h : Recovering staleIds done rest loaded p₀.db v.db)
    {Q : List Worker × List Write → Sitting → Prop}
    (hQ : ∀ r' loaded' pending' v', Pends (r'.view storage) pending' v' →
      Recovering staleIds (done ++ rest) [] loaded' p₀.db v'.db →
      loaded'.map Worker.id = loaded.map Worker.id → Q (loaded', pending') r') :
    (recoverAllocations loaded pending rest).Yields storage env fails r Q := by
  induction rest generalizing r v done loaded pending with
  | nil => exact hQ r loaded pending v hpends (by rwa [List.append_nil]) rfl
  | cons a rest ih =>
      obtain ⟨-, -, -, hsame, hone⟩ := h.next hI
      obtain ⟨run, hrun, hleased, hqueued⟩ := leased_of_active hI (h.leases.subset (a := a) (by simp))
      have hrunId : run.id = a.runId := Table.key_of_get? hrun
      refine .bind (flush_yields (.inl hpends.admits) fun i r₁ _ hr₁ => ?_)
      have hview₁ : r₁.view storage = v := hr₁.view.trans (hpends.seen i)
      refine .bind (select_yields fun r₂ hr₂ => ?_)
      rw [hview₁, hsame, hrun]
      refine .bind (recoverRun_yields hleased hqueued fun r₃ changed event hr₃ hid hversion hrecovers => ?_)
      have hview₃ : r₃.view storage = v := by rw [hr₃.view, hr₂.view, hview₁]
      refine .bind (releaseAllocation_yields (a := a) (.inl fun i => ?_) (fun i => ?_) (fun i => ?_)
        fun i now r₄ hr₄ => ?_)
      · rw [hview₃]
        refine storage.firstError_cons_eq_none.mpr ⟨if_pos ?_, rfl⟩
        rw [hid, hrunId, hsame, hrun, Option.map_some, hversion]
      · rw [hview₃]
        exact hone
      · rw [hview₃]
        exact h.loaded
      · rw [hview₃] at hr₄
        obtain ⟨v', hpends', h', hids⟩ := h.round hI hrun hid hrecovers hr₄
        refine ih hpends' h' fun r' loaded' pending' v'' hpends'' h'' hids' => ?_
        rw [List.append_assoc] at h''
        exact hQ r' loaded' pending' v'' hpends'' h'' (hids'.trans hids)

/-- The stale workers are counted once more. -/
theorem refreshWorkers_yields {pending : List Write} (hpends : Pends (r.view storage) pending v)
    (h : Reconciles staleIds done p₀.db v.db)
    (hloaded : ∀ w ∈ loaded, v.db.workers.get? w.id = some w)
    (hnodup : (loaded.map Worker.id).Nodup) (hstale : ∀ w ∈ loaded, w.id ∈ staleIds)
    {Q : List Write → Sitting → Prop}
    (hQ : ∀ r' pending' v', Pends (r'.view storage) pending' v' → Reconciles staleIds done p₀.db v'.db →
      Q pending' r') :
    (refreshWorkers pending loaded).Yields storage env fails r Q := by
  induction loaded generalizing r v pending with
  | nil => exact hQ r pending v hpends h
  | cons worker rest ih =>
      refine .bind (flush_yields (.inl hpends.admits) fun i r₁ _ hr₁ => ?_)
      have hview₁ : r₁.view storage = v := hr₁.view.trans (hpends.seen i)
      refine .bind (refreshWorkerCapacity_yields fun r₂ hr₂ => ?_)
      have hview₂ : r₂.view storage = v := hr₂.view.trans hview₁
      rw [hview₁]
      obtain ⟨workers, hpends₂, hget⟩ := pends_workerUpdate
        (worker.withLoad (v.db.loadOf worker.id)) (hloaded worker (by simp)) rfl rfl
      obtain ⟨hnotin, hnodup⟩ := List.nodup_cons.mp hnodup
      refine ih (v := { v with db := { v.db with workers := workers } })
        (by rw [hview₂]; exact hpends₂)
        { h with workers := fun id => ?_, otherWorkers := fun id hid hown => ?_ }
        (fun w hw => ?_) hnodup (fun w hw => hstale w (by simp [hw]))
      · rw [← h.workers id]
        show (workers.get? id).map _ = _
        rw [hget]
        split
        · next heq =>
          rw [heq, hloaded worker (by simp)]
          rfl
        · rfl
      · have hne : id ≠ worker.id := fun heq => hid (heq ▸ hstale worker (by simp))
        rw [← h.otherWorkers id hid hown]
        exact (hget id).trans (if_neg hne)
      · have hne : w.id ≠ worker.id := fun heq => hnotin (heq ▸ List.mem_map_of_mem hw)
        exact ((hget w.id).trans (if_neg hne)).trans (hloaded w (by simp [hw]))

/-! ### The call -/

/-- The workers found silent are marked. -/
theorem pends_markStale {stale : List Worker} {p : Platform} (hnodup : (stale.map Worker.id).Nodup)
    (hstored : ∀ w ∈ stale, p.db.workers.get? w.id = some w) :
    ∃ workers, Pends p (stale.flatMap fun w => workerUpdate w w.markStale)
        { p with db := { p.db with workers := workers } } ∧
      ∀ id, workers.get? id = (p.db.workers.get? id).map fun w =>
        if id ∈ stale.map Worker.id then w.markStale else w := by
  induction stale generalizing p with
  | nil => exact ⟨p.db.workers, pends_nil p, fun id => by simp⟩
  | cons worker rest ih =>
      have hrow := hstored worker (by simp)
      obtain ⟨hnotin, hnodup⟩ := List.nodup_cons.mp hnodup
      obtain ⟨workers₁, hpends₁, hget₁⟩ := pends_workerUpdate worker.markStale hrow rfl rfl
      have hstored₁ (w : Worker) (hw : w ∈ rest) : workers₁.get? w.id = some w := by
        have hne : w.id ≠ worker.id := fun heq => hnotin (heq ▸ List.mem_map_of_mem hw)
        rw [hget₁, if_neg hne]
        exact hstored w (by simp [hw])
      obtain ⟨workers, hpends, hget⟩ :=
        ih (p := { p with db := { p.db with workers := workers₁ } }) hnodup hstored₁
      refine ⟨workers, hpends₁.append hpends, fun id => (hget id).trans ?_⟩
      show (workers₁.get? id).map _ = _
      rw [hget₁]
      by_cases hid : id = worker.id
      · rw [if_pos hid, hid, hrow]
        simp [hnotin]
      · simp [hid]

theorem recoverExpiredAllocations_yields (hI : Invariant (.plain rt) (r.view storage)) {now : Time}
    {released : List ResourceAllocation}
    (hnow : now = (env.draw r.count (.call .pause)).clock)
    (hstale : staleIds = ((r.view storage).db.silentWorkers
      (now - seconds settings.workerStaleSeconds)).map Worker.id)
    (hreleased : released = (r.view storage).db.expiredAllocations now staleIds)
    {Q : ℕ × List Write → Sitting → Prop}
    (hQ : ∀ r' pending v, Pends (r'.view storage) pending v →
      Reconciles staleIds released (r.view storage).db v.db → Q (released.length, pending) r') :
    (recoverExpiredAllocations settings).Yields storage env fails r Q := by
  refine .bind (datetimeNow_yields fun r₁ hr₁ => ?_)
  rw [← hnow]
  refine .bind (selectForUpdate_yields fun r₂ hr₂ => ?_)
  have hview₂ : r₂.view storage = r.view storage := hr₂.view.trans hr₁.view
  rw [hr₁.view]
  generalize r.view storage = p at *
  -- a session that runs alone may lock every row
  have hfound : (p.db.workers.rows.filter fun w => w.status = .online ∧ w.lastHeartbeatAt <
      now - seconds settings.workerStaleSeconds ∧ (fun _ => true) w) =
      p.db.silentWorkers (now - seconds settings.workerStaleSeconds) := by
    simp [Db.silentWorkers]
  rw [hfound]
  have hstored (w : Worker)
      (hw : w ∈ p.db.silentWorkers (now - seconds settings.workerStaleSeconds)) :
      p.db.workers.get? w.id = some w := Table.get?_of_mem (List.mem_of_mem_filter hw)
  have hnodup : ((p.db.silentWorkers
      (now - seconds settings.workerStaleSeconds)).map Worker.id).Nodup :=
    p.db.workers.nodup.sublist (List.filter_sublist.map _)
  generalize p.db.silentWorkers (now - seconds settings.workerStaleSeconds) = stale at *
  obtain ⟨workers, hpends, hget⟩ := pends_markStale hnodup hstored
  extract_lets staleIds' marked
  refine .bind (flush_yields (.inl (hview₂.symm ▸ hpends.admits)) fun i r₃ _ hr₃ => ?_)
  rw [hview₂, hpends.seen] at hr₃
  refine .bind (selectForUpdate_yields fun r₄ hr₄ => ?_)
  have hview₄ := hr₄.view.trans hr₃.view
  have hmarkedIds : marked.map Worker.id = staleIds := by
    rw [hstale, List.map_map]
    rfl
  have hselected : ((r₃.view storage).db.activeAllocations.filter fun a =>
      (a.leaseExpiresAt < now ∨ a.workerId ∈ staleIds') ∧ (fun _ => true) a) = released := by
    rw [hr₃.view, hreleased, hstale]
    simp [Db.expiredAllocations, staleIds', Db.activeAllocations]
  rw [hselected]
  have hstart : Recovering staleIds [] released marked p.db { p.db with workers := workers } := by
    refine ⟨⟨by simp, fun _ _ => rfl, by simp, fun _ _ => rfl, fun id => ?_, fun id hid _ => ?_,
      rfl⟩, ?_, fun w hw => ?_⟩
    · show (workers.get? id).map _ = _
      rw [hget, Option.map_map, hstale]
      rfl
    · rw [hstale] at hid
      exact (hget id).trans (by simp [hid])
    · rw [hreleased]
      exact List.filter_sublist
    · obtain ⟨x, hx, rfl⟩ := List.mem_map.mp hw
      refine (hget x.id).trans ?_
      rw [hstored x hx, Option.map_some, if_pos (List.mem_map_of_mem hx)]
  refine .bind (recoverAllocations_yields hI (by rw [hview₄]; exact pends_nil _) hstart
    fun r₅ loaded pending v hpends₅ h₅ hids => ?_)
  rw [List.nil_append] at h₅
  rw [hmarkedIds] at hids
  refine .bind (refreshWorkers_yields hpends₅ h₅.reconciles h₅.loaded (by rwa [hids, hstale])
    (fun w hw => hids ▸ List.mem_map_of_mem hw) fun r₆ pending' v' hpends₆ h₆ => ?_)
  exact hQ r₆ pending' v' hpends₆ h₆

/-- Where nothing is silent or overdue, the call does nothing. -/
theorem reconcile_idle {now : Time} {p : Platform}
    (hnow : now = (env.draw 0 (.call .pause)).clock)
    (hstale : p.db.silentWorkers (now - seconds settings.workerStaleSeconds) = [])
    (hreleased : p.db.expiredAllocations now [] = []) :
    (reconcile settings).Yields storage env fails (.start p) fun n r => n = 0 ∧ r.state = p := by
  have hsilent : (p.db.workers.rows.filter fun w => w.status = .online ∧ w.lastHeartbeatAt <
      now - seconds settings.workerStaleSeconds ∧ (fun _ => true) w) = [] := by
    simpa [Db.silentWorkers] using hstale
  have hoverdue : (p.db.activeAllocations.filter fun a =>
      (a.leaseExpiresAt < now ∨ a.workerId ∈ ([] : List Worker).map Worker.id) ∧
        (fun _ => true) a) = [] := by
    simpa [Db.expiredAllocations] using hreleased
  have hcount : (Turn.start p : Sitting).count = 0 := rfl
  have hstart : (Turn.start p : Sitting).view storage = p := rfl
  refine .bind (.bind (datetimeNow_yields fun r₁ hr₁ => ?_))
  rw [hcount, ← hnow]
  refine .bind (selectForUpdate_yields fun r₂ hr₂ => ?_)
  rw [hr₁.view, hstart, hsilent]
  refine .bind (flush_yields (.inl fun _ => rfl) fun i r₃ _ hr₃ => ?_)
  refine .bind (selectForUpdate_yields fun r₄ hr₄ => ?_)
  have hview₃ : r₃.view storage = p := hr₃.view.trans (hr₂.view.trans hr₁.view)
  rw [hview₃, hoverdue]
  refine .bind (.ret (.bind (.ret (.ret (.bind (commit_yields (.inl fun _ => rfl)
    fun i r₅ _ _ hstate => .ret ⟨rfl, ?_⟩))))))
  exact hstate.trans (hr₄.view.trans hview₃)

/-- One call at `now` releases exactly the leases that were overdue or on a
worker it marks stale, and deals with their runs; afterwards none such is left,
nothing else has changed, and a second call at `now` changes nothing. -/
theorem reconciliation {templates : Table TrainingTemplate.id} {w : Cluster}
    (h : Reachable rt settings templates w) (env : Conditions) :
    (reconcile settings).Yields storage env False (.start w.state) fun n r =>
      ∃ now staleIds released, now = (env.draw 0 (.call .pause)).clock ∧
        staleIds = (w.state.db.silentWorkers
          (now - seconds settings.workerStaleSeconds)).map Worker.id ∧
        released = w.state.db.expiredAllocations now staleIds ∧ n = released.length ∧
        Reconciles staleIds released w.state.db r.state.db ∧
        (∀ a ∈ r.state.db.activeAllocations, now ≤ a.leaseExpiresAt ∧ a.workerId ∉ staleIds) ∧
        (∀ x ∈ r.state.db.workers.rows, x.status = .online →
          now - seconds settings.workerStaleSeconds ≤ x.lastHeartbeatAt) ∧
        ∀ env' : Conditions, (env'.draw 0 (.call .pause)).clock = now →
          (reconcile settings).Yields storage env' False (.start r.state) fun n' r' =>
            n' = 0 ∧ r'.state = r.state := by
  generalize hnow : (env.draw 0 (.call .pause)).clock = now
  generalize hstale : (w.state.db.silentWorkers
    (now - seconds settings.workerStaleSeconds)).map Worker.id = staleIds
  generalize hreleased : w.state.db.expiredAllocations now staleIds = released
  refine .bind (recoverExpiredAllocations_yields (r := .start w.state) h.inv hnow.symm hstale.symm
    hreleased.symm fun r pending v hpends hreconciles => ?_)
  refine .bind (commit_yields (.inl hpends.admits) fun i r' _ _ hstate => ?_)
  have hfinal : r'.state = v := hstate.trans (hpends.seen i)
  have hleases : ∀ a ∈ v.db.activeAllocations, now ≤ a.leaseExpiresAt ∧ a.workerId ∉ staleIds := by
    intro a ha
    obtain ⟨hactive, hkept⟩ := hreconciles.of_active ha
    have hnot : ¬ (a.leaseExpiresAt < now ∨ a.workerId ∈ staleIds) := fun hdue =>
      hkept a (hreleased ▸ List.mem_filter.mpr ⟨hactive, decide_eq_true hdue⟩) rfl
    exact (not_or.mp hnot).imp_left not_lt.mp
  have hworkers : ∀ x ∈ v.db.workers.rows, x.status = .online →
      now - seconds settings.workerStaleSeconds ≤ x.lastHeartbeatAt := by
    intro x hx honline
    obtain ⟨hnot, x', hx', hid, honline', hheartbeat⟩ := hreconciles.of_online hx honline
    by_contra hlate
    rw [← hstale] at hnot
    refine hnot (List.mem_map.mpr ⟨x', List.mem_filter.mpr ⟨hx', ?_⟩, hid⟩)
    exact decide_eq_true ⟨honline', hheartbeat ▸ not_le.mp hlate⟩
  refine .ret ⟨now, staleIds, released, rfl, hstale.symm, hreleased.symm, rfl,
    hfinal ▸ hreconciles, hfinal ▸ hleases, hfinal ▸ hworkers, fun env' hnow' => ?_⟩
  rw [hfinal]
  refine reconcile_idle hnow'.symm ?_ ?_
  · refine List.filter_eq_nil_iff.mpr fun x hx => ?_
    simpa using hworkers x hx
  · refine List.filter_eq_nil_iff.mpr fun a ha => ?_
    simpa using (hleases a ha).1

namespace Demo

/-- A hundred seconds into the run of the cluster. -/
def late : Conditions := ⟨fun n _ => input (100000000 + n), fun _ _ => false⟩

end Demo

/-- The worker has been silent for too long, so its lease is released. -/
theorem reconciliation_assigned : ∃ w, Reachable Demo.runtime Demo.settings Demo.templates w ∧
    ((reconcile Demo.settings).alone storage Demo.late (.start w.state)).1.toOption = some 1 ∧
    ((reconcile Demo.settings).alone storage Demo.late
      (.start w.state)).2.state.db.runs.get? 201 ≠ w.state.db.runs.get? 201 := by
  have h : (Demo.exec (Demo.assigned Demo.slow)).any fun w =>
      ((reconcile Demo.settings).alone storage Demo.late (.start w.state)).1.toOption = some 1 ∧
      w.state.db.activeAllocations.all fun a => a.runId = 201 := by decide +kernel
  obtain ⟨w, hw, hlast⟩ := Demo.reachable h
  simp only [Bool.decide_and, Bool.and_eq_true, decide_eq_true_eq, List.all_eq_true] at hlast
  obtain ⟨hcount, hruns⟩ := hlast
  have hreconciled := reconciliation hw Demo.late
  rw [Prog.Yields, Prog.Leads] at hreconciled
  refine ⟨w, hw, hcount, ?_⟩
  cases houtcome : ((reconcile Demo.settings).alone storage Demo.late (.start w.state)).1 with
  | error e => rw [houtcome] at hcount; cases hcount
  | ok n =>
      rw [houtcome] at hcount hreconciled
      obtain ⟨now, staleIds, released, -, -, hreleased, hn, hreconciles, -⟩ := hreconciled
      obtain rfl : n = 1 := Option.some.inj hcount
      obtain ⟨a, rfl⟩ := List.length_eq_one_iff.mp hn.symm
      obtain ⟨run, run', hrun, hrun', hrecovers⟩ := hreconciles.runs a (by simp)
      have ha : a ∈ w.state.db.activeAllocations :=
        List.mem_of_mem_filter (hreleased ▸ List.mem_singleton_self a)
      rw [← hruns a ha, hrun, hrun']
      intro heq
      have hversion := congrArg Run.version (Option.some.inj heq)
      cases hrecovers <;> simp at hversion

end Runscope
