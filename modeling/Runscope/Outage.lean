import Mathlib.Data.Set.Finite.Lattice
import Runscope.SchedulingOrder

/-!
A cluster after an outage.

Whatever its sessions were at when all of them were lost, and their locks with
them, one pass of the scheduler that runs alone and begins once every lease is
overdue and every worker has been silent for too long leaves no lease, no
worker online and no run that is neither queued nor finished. Beside other
sessions a pass skips the rows they have locked.
-/

namespace Runscope

open Transact RunStatus

variable {rt : Runtime} {settings : Settings} {templates : Table TrainingTemplate.id} {w : Cluster}
  {env : Conditions} {fails : Prop} {r : Sitting} {v : Platform} {p q : Db}

namespace Db

/-- At this time every lease is overdue, and whoever is online has been silent
for too long. -/
structure Overdue (db : Db) (settings : Settings) (now : Time) : Prop where
  leases : ∀ a ∈ db.activeAllocations, a.leaseExpiresAt < now
  workers : ∀ x ∈ db.workers.rows, x.status = .online →
    x.lastHeartbeatAt < now - seconds settings.workerStaleSeconds

/-- What has become of every lease, worker, run and message of `q`. -/
structure Outlives (q p : Db) : Prop where
  leases : p.activeAllocations = []
  workers : ∀ x ∈ p.workers.rows, x.status ≠ .online
  runs : ∀ r run, q.runs.get? r = some run → ∃ run', p.runs.get? r = some run' ∧
    (if run.status.leased then run.Recovers run' else run' = run) ∧
    (run'.status = queued ∨ run'.status.finished)
  absent : ∀ r, q.runs.get? r = none → p.runs.get? r = none
  messages : p.outbox = q.outbox

end Db

/-- A recovered run waits, or is finished. -/
theorem Run.Recovers.status {run run' : Run} (h : run.Recovers run') :
    run'.status = queued ∨ run'.status.finished := by
  cases h with
  | requeued => exact .inl rfl
  | failed | cancelled => exact .inr rfl

/-- Where everything is overdue, a recovery gets hold of everything. -/
theorem Reconciles.outlives {now : Time} {staleIds : List Uuid}
    (hI : Invariant (.plain rt) v) (h : Reconciles staleIds v.db.activeAllocations v.db p)
    (hstale : staleIds = (v.db.silentWorkers
      (now - seconds settings.workerStaleSeconds)).map Worker.id)
    (hover : v.db.Overdue settings now) : v.db.Outlives p where
  leases := by
    refine List.eq_nil_iff_forall_not_mem.mpr fun a ha => ?_
    obtain ⟨hactive, hkept⟩ := h.of_active ha
    exact hkept a hactive rfl
  workers x hx honline := by
    obtain ⟨hnot, y, hy, hid, hyonline, -⟩ := h.of_online hx honline
    refine hnot (hstale ▸ List.mem_map.mpr ⟨y, List.mem_filter.mpr ⟨hy, ?_⟩, hid⟩)
    exact decide_eq_true ⟨hyonline, hover.workers y hy hyonline⟩
  runs r run hrun := by
    have hcoherent := (hI.runs r).present run hrun
    by_cases hleased : run.status.leased
    · obtain ⟨lease, hlease, -⟩ := hcoherent.leased hleased
      have hmem : lease ∈ (v.db.runView r).active := hlease ▸ List.mem_singleton_self lease
      rw [active_runView] at hmem
      obtain ⟨a, ha, rfl⟩ := List.mem_map.mp hmem
      obtain ⟨hactive, har⟩ := List.mem_filter.mp ha
      obtain rfl : a.runId = r := by simpa using har
      obtain ⟨old, new, hold, hnew, hrecovers⟩ := h.runs a hactive
      obtain rfl := Option.some.inj (hold.symm.trans hrun)
      exact ⟨new, hnew, by rwa [if_pos hleased], hrecovers.status⟩
    · have hother : ∀ a ∈ v.db.activeAllocations, a.runId ≠ r := by
        rintro a ha rfl
        obtain ⟨row, hrow, hrowLeased, -⟩ := leased_of_active hI ha
        obtain rfl := Option.some.inj (hrow.symm.trans hrun)
        exact hleased hrowLeased
      refine ⟨run, (h.otherRuns r hother).trans hrun, by rw [if_neg hleased], ?_⟩
      have hstatus := hcoherent.status
      revert hleased hstatus
      cases run.status <;> simp [RunStatus.leased, RunStatus.finished]
  absent r hr := by
    refine (h.otherRuns r fun a ha heq => ?_).trans hr
    obtain ⟨old, -, hold, -⟩ := h.runs a ha
    rw [heq, hr] at hold
    cases hold
  messages := h.messages

/-- Where no worker is online, nothing is assigned. -/
theorem assignRuns_offline {now healthyAfter : Time} {queue : List Run}
    (hoffline : ∀ x ∈ (r.view storage).db.workers.rows, x.status ≠ .online)
    {Q : ℕ × List Write → Sitting → Prop}
    (hQ : ∀ r', r'.view storage = r.view storage → Q (0, []) r') :
    (assignRuns settings now healthyAfter [] queue).Yields storage env fails r Q := by
  induction queue generalizing r with
  | nil => exact .ret (hQ r rfl)
  | cons run rest ih =>
      refine .bind (flush_yields (.inl fun _ => rfl) fun i r₁ _ hr₁ => ?_)
      have hview₁ : r₁.view storage = r.view storage := hr₁.view
      refine .bind (selectForUpdate_yields fun r₂ hr₂ => ?_)
      have hview₂ := hr₂.view.trans hview₁
      have hfound : (r₁.view storage).db.fitting healthyAfter run (fun _ => true) = [] := by
        have hnone : (r₁.view storage).db.workers.rows.filter (fun x => x.status = .online ∧
            healthyAfter ≤ x.lastHeartbeatAt ∧ run.requestedCpu ≤ x.availableCpu ∧
            run.requestedMemoryMb ≤ x.availableMemoryMb ∧ (fun _ => true) x) = [] := by
          refine List.filter_eq_nil_iff.mpr fun x hx => ?_
          have hnot := hoffline x (hview₁ ▸ hx)
          simp [hnot]
        rw [Db.fitting, hnone]
        rfl
      rw [hfound]
      exact ih (by rwa [hview₂]) fun r' hr' => hQ r' (hr'.trans hview₂)

/-- The whole pass. -/
theorem scheduleOnce_outlives (hI : Invariant (.plain rt) v) {now : Time}
    (hnow : now = (env.draw 0 (.call .pause)).clock) (hover : v.db.Overdue settings now) :
    (scheduleOnce settings).Yields storage env fails (.start v) fun _ r =>
      v.db.Outlives r.state.db := by
  generalize hstale : (v.db.silentWorkers (now - seconds settings.workerStaleSeconds)).map
    Worker.id = staleIds
  have hall : v.db.expiredAllocations now staleIds = v.db.activeAllocations :=
    List.filter_eq_self.mpr fun a ha => decide_eq_true (.inl (hover.leases a ha))
  refine .bind (recoverExpiredAllocations_yields (r := .start v) hI hnow hstale.symm hall.symm
    fun r pending found hpends hreconciles => ?_)
  have houtlives := hreconciles.outlives hI hstale.symm hover
  refine .bind (datetimeNow_yields fun r₁ hr₁ => ?_)
  dsimp only
  refine .bind (flush_yields (.inl (hr₁.view.symm ▸ hpends.admits)) fun i r₂ _ hr₂ => ?_)
  have hview₂ : r₂.view storage = found := by rw [hr₂.view, hr₁.view, hpends.seen]
  refine .bind (selectForUpdate_yields fun r₃ hr₃ => ?_)
  have hview₃ := hr₃.view.trans hview₂
  refine .bind (assignRuns_offline (by rw [hview₃]; exact houtlives.workers) fun r₄ hr₄ => ?_)
  refine .bind (commit_yields (.inl fun _ => rfl) fun _ r₅ _ _ hstate => .ret ?_)
  have hfinal : r₅.state = found := hstate.trans (hr₄.trans hview₃)
  rwa [hfinal]

/-- There is a time when everything is overdue. -/
theorem Db.exists_overdue (db : Db) (settings : Settings) : ∃ now, db.Overdue settings now := by
  obtain ⟨lease, hlease⟩ :=
    ((List.finite_toSet db.activeAllocations).image ResourceAllocation.leaseExpiresAt).bddAbove
  obtain ⟨heartbeat, hheartbeat⟩ :=
    ((List.finite_toSet db.workers.rows).image Worker.lastHeartbeatAt).bddAbove
  generalize hstale : seconds settings.workerStaleSeconds = stale
  obtain ⟨hlater, hlater'⟩ := max_le_iff.mp (le_refl (max lease (heartbeat + stale)))
  generalize max lease (heartbeat + stale) = now at hlater hlater'
  refine ⟨now + 1, fun a ha => ?_, fun x hx _ => ?_⟩
  · exact Int.lt_add_one_of_le ((hlease ⟨a, ha, rfl⟩).trans hlater)
  · have hle : x.lastHeartbeatAt ≤ heartbeat := hheartbeat ⟨x, hx, rfl⟩
    rw [hstale]
    exact lt_sub_iff_add_lt.mpr (Int.lt_add_one_of_le ((add_le_add_left hle stale).trans hlater'))

/-- On the database of any reachable world, a pass that runs alone, where no
other session holds a lock, and begins late enough leaves no lease, no worker
online, and every run waiting or finished; and whatever the sessions are at,
the cluster can get there, with no session going on: all are lost, and such a
pass runs. -/
theorem outage_outlived (h : Reachable rt settings templates w) :
    (∀ env : Conditions, w.state.db.Overdue settings (env.draw 0 (.call .pause)).clock →
      (scheduleOnce settings).Yields storage env False (.start w.state) fun _ r =>
        w.state.db.Outlives r.state.db) ∧
    ∃ w', Reach (system rt settings) (fun _ _ _ => True) w w' ∧ w'.Settled ∧
      w.state.db.Outlives w'.state.db := by
  refine ⟨fun env hover => scheduleOnce_outlives h.inv rfl hover, ?_⟩
  obtain ⟨now, hover⟩ := w.state.db.exists_overdue settings
  let env : Conditions := ⟨fun _ _ => ⟨now, 0, none, false, ⟨[], [], []⟩⟩, fun _ _ => false⟩
  -- all sessions are lost, the pass runs, and its session ends
  obtain ⟨w₁, hreach₁, hstate₁, hsettled₁⟩ := Reach.settle (system rt settings) w
  have hadmits : (system rt settings).admits .schedule w₁.state := trivial
  obtain ⟨w₂, hreach₂, hstate₂⟩ := Reach.of_alone hsettled₁ hadmits env
  obtain ⟨w₃, hreach₃, hstate₃, hsettled₃⟩ := Reach.settle (system rt settings) w₂
  refine ⟨w₃, (hreach₁.trans hreach₂).trans hreach₃, hsettled₃, ?_⟩
  rw [hstate₃, hstate₂, hstate₁]
  have hpass : (Kind.schedule.code rt settings).Yields storage env False (.start w.state)
      fun _ r => w.state.db.Outlives r.state.db :=
    .bind ((scheduleOnce_outlives h.inv rfl hover).mono fun _ _ houtlives => .ret houtlives)
  obtain ⟨_, -, houtlives⟩ := hpass.returns fun _ _ => rfl
  exact houtlives

/-- A run whose delivery was under way has failed. -/
theorem outage_outlived_running : ∃ w w',
    Reach (system Demo.runtime Demo.settings) (fun _ _ _ => True) w w' ∧
    (∃ q ∈ w.procs, q.prog.point?.isSome) ∧
    ((w.state.db.runs.get? 201).map Run.status, (w'.state.db.runs.get? 201).map Run.status) =
      (some running, some failed) := by
  have h : (Demo.exec (Demo.delivered Demo.slow 12)).any fun w =>
      (w.state.db.runs.get? 201).any (fun run => run.status = running) ∧
      w.procs.any fun q => q.prog.point?.isSome := by decide +kernel
  obtain ⟨w, hw, hlast⟩ := Demo.reachable h
  obtain ⟨hrun, hgoing⟩ := of_decide_eq_true hlast
  obtain ⟨run, hget, hstatus⟩ := (Option.any_eq_true _ _).mp hrun
  obtain ⟨w', hreach, -, houtlives⟩ := (outage_outlived hw).2
  obtain ⟨run', hget', hbecomes, -⟩ := houtlives.runs 201 run hget
  have hrunning : run.status = running := of_decide_eq_true hstatus
  refine ⟨w, w', hreach, List.any_eq_true.mp hgoing, ?_⟩
  rw [hrunning, if_pos (by rfl)] at hbecomes
  cases hbecomes with
  | requeued hscheduling => rw [hrunning] at hscheduling; cases hscheduling
  | failed => rw [hget, hget']; simp [hrunning]
  | cancelled hcancelling => rw [hrunning] at hcancelling; cases hcancelling

end Runscope
