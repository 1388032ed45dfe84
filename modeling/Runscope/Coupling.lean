import Runscope.Reachable

/-!
How the tables agree with each other: leases with the status of their run,
outbox messages with the state they announce.
-/

namespace Runscope

open Transact RunStatus

variable {rt : Runtime} {settings : Settings} {templates : Table TrainingTemplate.id}
  {w w' : Cluster}

theorem leased_iff (s : RunStatus) : s.leased = true ↔ s ∈ [scheduling, running, cancelling] := by
  simp [RunStatus.leased]

/-- The unreleased allocations of a run, as leases. -/
theorem map_lease_unreleased (db : Db) (r : Uuid) :
    (db.allocations.rows.filter fun a => a.runId = r ∧ a.releasedAt = none).map
      ResourceAllocation.lease = (db.runView r).active := by
  rw [active_runView, Db.activeAllocations, List.filter_filter]
  congr 1
  refine List.filter_congr fun a _ => ?_
  cases hreleased : a.releasedAt <;> simp [ResourceAllocation.active, hreleased]

/-- A run is scheduled, running or cancelling while exactly one allocation of
it is unreleased, which is on its worker and has what it requested; a queued
run has no worker; so no insert of an allocation meets an unreleased one. -/
theorem lease_status_coupling (h : Reachable rt settings templates w) :
    (∀ r run, w.state.db.runs.get? r = some run →
      (run.status ∈ [scheduling, running, cancelling] ↔ ∃ a,
        (w.state.db.allocations.rows.filter fun a => a.runId = r ∧ a.releasedAt = none) = [a]) ∧
      (∀ a ∈ w.state.db.allocations.rows, a.runId = r → a.releasedAt = none →
        run.assignedWorkerId = some a.workerId ∧ a.cpu = run.requestedCpu ∧
          a.memoryMb = run.requestedMemoryMb) ∧
      (run.status = queued → run.assignedWorkerId = none)) ∧
    ∀ (pid : ℕ) (p : Process) pt ws next i, w.procs[pid]? = some p →
      p.prog = .step pt (.flush ws) next →
      storage.firstError (p.session.view storage w.state) (p.session.stamped storage i ws) ≠
        some (.integrity "uq_resource_allocations_active_run") := by
  refine ⟨fun r run hget => ?_, fun pid p pt ws next i hp hprog =>
    (h.ok.need hp hprog).activeRun ws rfl i⟩
  have hcoherent := (h.inv.runs r).present run hget
  have hactive := map_lease_unreleased w.state.db r
  refine ⟨?_, fun a ha hrun hreleased => ?_, hcoherent.unassigned⟩
  · rw [← leased_iff]
    constructor
    · intro hleased
      obtain ⟨lease, hlease, -⟩ := hcoherent.leased hleased
      rw [hlease, List.map_eq_singleton_iff] at hactive
      obtain ⟨a, ha, -⟩ := hactive
      exact ⟨a, ha⟩
    · rintro ⟨a, ha⟩
      by_contra hunleased
      rw [ha, hcoherent.unleased hunleased] at hactive
      simp at hactive
  · have hmem : a.lease ∈ (w.state.db.runView r).active := by
      rw [← hactive]
      exact List.mem_map_of_mem (List.mem_filter.mpr ⟨ha, by simp [hrun, hreleased]⟩)
    have hleased : run.status.leased := by
      by_contra hunleased
      rw [hcoherent.unleased hunleased] at hmem
      simp at hmem
    obtain ⟨lease, hlease, hworker, hcpu, hmemory⟩ := hcoherent.leased hleased
    rw [hlease, List.mem_singleton] at hmem
    subst hmem
    exact ⟨hworker, hcpu, hmemory⟩

theorem lease_status_coupling_scheduled : ∃ w a,
    Reachable Demo.runtime Demo.settings Demo.templates w ∧
    (w.state.db.allocations.rows.filter fun a => a.runId = 201 ∧ a.releasedAt = none) = [a] := by
  obtain ⟨w, hw, run, hget, hstatus⟩ := Demo.scheduled
  obtain ⟨a, ha⟩ := ((lease_status_coupling hw).1 201 run hget).1.mp (by simp [hstatus])
  exact ⟨w, a, hw, ha⟩

/-! ### The outbox -/

/-- The message announces the allocation, with all a worker has to know. -/
structure Announces (m : EventEnvelope) (a : ResourceAllocation) : Prop where
  runId : m.runId = some a.runId
  workerId : m.workerId = some a.workerId
  payload : m.payload = [("lease_token", .uuid a.leaseToken), ("requested_cpu", .num a.cpu),
    ("requested_memory_mb", .int a.memoryMb)]

/-- The messages of one type about a run. -/
def Db.sent (db : Db) (r : Uuid) (eventType : String) : List EventEnvelope :=
  (db.outbox.rows.map OutboxMessage.envelope).filter fun m =>
    m.runId = some r ∧ m.eventType = eventType

theorem sent_runView (db : Db) (r : Uuid) (eventType : String) :
    (db.runView r).sent eventType = db.sent r eventType := by
  simp only [RunView.sent, Db.runView, Db.messagesOf, Db.sent, List.filter_filter]
  refine List.filter_congr fun m _ => ?_
  by_cases hrun : m.runId = some r <;> simp [hrun]

/-- Run by run, the assignment messages are the allocations. -/
theorem announces_of_carries {ms : List EventEnvelope} {as : List ResourceAllocation} {r : Uuid}
    (hms : ∀ m ∈ ms, m.runId = some r) (has : ∀ a ∈ as, a.runId = r)
    (h : List.Forall₂ Carries ms (as.map ResourceAllocation.lease)) :
    List.Forall₂ Announces ms as := by
  rw [List.forall₂_map_right_iff] at h
  induction h with
  | nil => exact .nil
  | @cons m a ms as hm _ ih =>
      refine .cons ⟨?_, hm.workerId, hm.payload⟩ (ih (fun m' hm' => hms m' (by simp [hm']))
        fun a' ha' => has a' (by simp [ha']))
      rw [hms m (by simp), has a (by simp)]

/-- Every run was submitted once, its assignments were announced one by one,
its cancellation was requested as often as recorded, and nothing else was
sent; a lost transaction leaves everything as it was. -/
theorem outbox_mirrors_state (h : Reachable rt settings templates w) :
    (∀ r run, w.state.db.runs.get? r = some run →
      (w.state.db.sent r "run.submitted").length = 1 ∧
      (w.state.db.sent r "run.cancel.requested").length =
        if ∃ x ∈ w.state.db.transitionsOf r, x.2 = some cancelling then 1 else 0) ∧
    (∀ r, List.Forall₂ Announces (w.state.db.sent r "run.assigned")
      (w.state.db.allocations.rows.filter fun a => a.runId = r)) ∧
    (w.state.db.allocations.rows.map ResourceAllocation.leaseToken).Nodup ∧
    (∀ a ∈ w.state.db.allocations.rows, (w.state.db.runs.get? a.runId).isSome) ∧
    (∀ x ∈ w.state.db.outbox.rows, ∃ r, x.envelope.runId = some r ∧
      (w.state.db.runs.get? r).isSome ∧
      x.envelope.eventType ∈ ["run.submitted", "run.assigned", "run.cancel.requested"]) ∧
    ∀ pid w', w.step (system rt settings) (.fault pid) = some w' ∨
      w.step (system rt settings) (.kill pid) = some w' → w'.state = w.state := by
  have hstored (r : Uuid) (hne : w.state.db.runView r ≠ .absent) :
      ∃ run, w.state.db.runs.get? r = some run := by
    cases hget : w.state.db.runs.get? r with
    | none => exact absurd ((h.inv.runs r).absent hget) hne
    | some run => exact ⟨run, rfl⟩
  refine ⟨fun r run hget => ?_, fun r => ?_, h.inv.tokens, fun a ha => ?_, fun x hx => ?_, ?_⟩
  · have hcoherent := (h.inv.runs r).present run hget
    have hcancelled := hcoherent.cancelled
    have hentered : 0 < (w.state.db.runView r).entered cancelling ↔
        ∃ x ∈ w.state.db.transitionsOf r, x.2 = some cancelling := by
      rw [RunView.entered, List.count_pos_iff, List.mem_map]
      rfl
    rw [← sent_runView, ← sent_runView]
    refine ⟨hcoherent.submitted, hcoherent.cancelRequests.trans ?_⟩
    rw [if_congr hentered.symm rfl rfl]
    split_ifs at hcancelled ⊢ <;> omega
  · rw [← sent_runView]
    refine @announces_of_carries _ _ r (fun m hm => ?_) (fun a ha => ?_) ?_
    · simpa using (List.mem_filter.mp (List.mem_filter.mp hm).1).2
    · simpa using (List.mem_filter.mp ha).2
    · cases hget : w.state.db.runs.get? r with
      | none =>
          have habsent := (h.inv.runs r).absent hget
          have hleases : w.state.db.leasesOf r = [] := congrArg RunView.leases habsent
          rw [habsent, show ((w.state.db.allocations.rows.filter fun a => a.runId = r).map
            ResourceAllocation.lease) = [] from hleases]
          exact .nil
      | some run => exact ((h.inv.runs r).present run hget).assigned
  · obtain ⟨run, hget⟩ := hstored a.runId fun habsent => by
      have hleases : w.state.db.leasesOf a.runId = [] := congrArg RunView.leases habsent
      rw [Db.leasesOf, List.map_eq_nil_iff, List.filter_eq_nil_iff] at hleases
      simpa using hleases a ha
    simp [hget]
  · obtain ⟨r, hr⟩ := h.inv.addressed x hx
    have hmem : x.envelope ∈ w.state.db.messagesOf r :=
      List.mem_filter.mpr ⟨List.mem_map_of_mem hx, by simpa using hr⟩
    obtain ⟨run, hget⟩ := hstored r fun habsent => by
      have hmessages : w.state.db.messagesOf r = [] := congrArg RunView.messages habsent
      simp [hmessages] at hmem
    exact ⟨r, hr, by simp [hget], ((h.inv.runs r).present run hget).messages _ hmem⟩
  · rintro pid w' (hstep | hstep)
    · rcases World.step_cases hstep with ⟨k, hk, -⟩ | ⟨_, _, _, _, _, _, hk, -⟩ |
        ⟨_, _, _, -, -, -, rfl⟩ | ⟨_, _, hk, -⟩
      · cases hk
      · cases hk
      · rfl
      · cases hk
    · rcases World.step_cases hstep with ⟨k, hk, -⟩ | ⟨_, _, _, _, _, _, hk, -⟩ |
        ⟨_, _, _, hk, -⟩ | ⟨_, _, -, -, rfl⟩
      · cases hk
      · cases hk
      · cases hk
      · rfl

theorem outbox_mirrors_state_scheduled : ∃ w,
    Reachable Demo.runtime Demo.settings Demo.templates w ∧
    (w.state.db.sent 201 "run.submitted").length = 1 ∧
    List.Forall₂ Announces (w.state.db.sent 201 "run.assigned")
      (w.state.db.allocations.rows.filter fun a => a.runId = 201) := by
  obtain ⟨w, hw, run, hget, -⟩ := Demo.scheduled
  obtain ⟨hsubmitted, hassigned, -⟩ := outbox_mirrors_state hw
  exact ⟨w, hw, (hsubmitted 201 run hget).1, hassigned 201⟩

end Runscope
