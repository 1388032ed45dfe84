import Runscope.Executors

/-!
Fenced execution at most once.

A run moves to RUNNING once, by a delivery of the message that carries the
token of the lease the run then has; and when the same delivery ends the run
later, that lease is the one it releases.
-/

namespace Runscope

open Transact RunStatus

variable {rt : Runtime} {settings : Settings} {templates : Table TrainingTemplate.id}
  {w w' : Cluster} {a : Action Kind Input}

/-- The allocations of a run that are not released. -/
def Db.unreleased (db : Db) (r : Uuid) : List ResourceAllocation :=
  db.allocations.rows.filter fun a => a.runId = r ∧ a.releasedAt = none

theorem unreleased_lease (db : Db) (r : Uuid) :
    (db.unreleased r).map ResourceAllocation.lease = (db.runView r).active := by
  rw [active_runView, Db.activeAllocations, List.filter_filter, Db.unreleased]
  congr 1
  refine List.filter_congr fun a _ => ?_
  cases hreleased : a.releasedAt <;> simp [ResourceAllocation.active, hreleased]

theorem unreleased_of_active {db : Db} {r : Uuid} {lease : Lease}
    (h : (db.runView r).active = [lease]) : ∃ x, db.unreleased r = [x] ∧ x.lease = lease := by
  rw [← unreleased_lease, List.map_eq_singleton_iff] at h
  exact h

/-- What a step adds to the transitions of a run, its session did. -/
theorem Reachable.entering (h : Reachable rt settings templates w)
    (hstep : w.step (system rt settings) a = some w') {r : Uuid} {target : RunStatus}
    (hlt : (w.state.db.runView r).entered target < (w'.state.db.runView r).entered target) :
    ∃ pid i p, a = .run pid i ∧ w.procs[pid]? = some p ∧
      Moves p.kind r (w.state.db.runView r) (w'.state.db.runView r) := by
  rcases h.ok.guar hstep with heq | ⟨pid, i, p, pt, rfl, hp, -, hguar⟩
  · rw [heq] at hlt
    exact absurd hlt (lt_irrefl _)
  · exact ⟨pid, i, p, rfl, hp, hguar.runs r⟩

/-- A commit that starts a run is a delivery's, and its message has the token
of the run's lease. -/
theorem Moves.started {κ : Kind} {r : Uuid} {v v' : RunView} (h : Moves κ r v v')
    (hlt : v.entered running < v'.entered running) :
    ∃ event workerId lease, κ = .processEvent event workerId ∧ event.runId = some r ∧
      event.fences workerId lease ∧ v.active = [lease] ∧ v'.leases = v.leases := by
  cases h with
  | refl => exact absurd hlt (lt_irrefl _)
  | pass hκ h =>
      subst hκ
      have hsame : v'.entered running = v.entered running := h.entered_eq fun l hl => by
        cases l <;> simp_all [Kind.allows, Label.enters]
        rcases hl with rfl | rfl <;> simp
      omega
  | single l hl h =>
      have hentered := h.entered running
      split at hentered
      · next henters =>
        cases l with
        | start lease =>
            obtain ⟨hactive, hleases⟩ := h.of_start
            cases κ <;> simp only [Kind.allows] at hl
            obtain ⟨hrun, hfences⟩ := hl
            exact ⟨_, _, lease, rfl, hrun, hfences, hactive, hleases⟩
        | finish target lease =>
            obtain rfl : target = running := Option.some.inj henters
            cases h with
            | finish _ _ _ _ _ _ _ _ _ _ hstatus => simp at hstatus
        | _ => simp [Label.enters] at henters
      · omega

/-- A commit of a delivery that ends a run releases the lease that its message
has the token of. -/
theorem Moves.ended {event : EventEnvelope} {workerId : Option Uuid} {r : Uuid} {v v' : RunView}
    {target : RunStatus} (h : Moves (.processEvent event workerId) r v v')
    (htarget : target ∈ [succeeded, failed, cancelled]) (hlt : v.entered target < v'.entered target) :
    ∃ lease time, event.fences workerId lease ∧ v.active = [lease] ∧
      v'.leases = releaseLease lease.id time v.leases := by
  cases h with
  | refl => exact absurd hlt (lt_irrefl _)
  | pass hκ => cases hκ
  | single l hl h =>
      have hentered := h.entered target
      split at hentered
      · next henters =>
        cases l with
        | finish target' lease =>
            obtain ⟨hactive, time, hleases⟩ := h.of_finish
            exact ⟨lease, time, hl.2, hactive, hleases⟩
        | start lease =>
            obtain rfl := Option.some.inj henters
            simp at htarget
        | _ => exact hl.elim
      · omega

theorem mem_leases_of_active {v : RunView} {lease : Lease} (h : lease ∈ v.active) : lease ∈ v.leases :=
  List.mem_of_mem_filter h

/-- A lease with a token known from before is the same lease still. -/
theorem Reachable.same_lease (h : Reachable rt settings templates w) {r : Uuid} {x : Lease}
    {y : ResourceAllocation} (hx : ∃ x' ∈ (w.state.db.runView r).leases,
      x' = { x with releasedAt := x'.releasedAt }) (hy : y ∈ w.state.db.allocations.rows)
    (htoken : y.leaseToken = x.leaseToken) : y.lease = { x with releasedAt := y.releasedAt } := by
  obtain ⟨x', hmem, heq⟩ := hx
  obtain ⟨z, hz, rfl⟩ := List.mem_map.mp hmem
  have hz' : z.leaseToken = y.leaseToken := by
    have : z.lease.leaseToken = x.leaseToken := by rw [heq]
    exact this.trans htoken.symm
  have hzy : z = y := List.inj_on_of_nodup_map h.inv.tokens (List.mem_filter.mp hz).1 hy hz'
  exact hzy ▸ heq

/-- A delivery that ends a run releases the lease its message has the token
of, if there has been one. -/
theorem Reachable.releases (h : Reachable rt settings templates w) {pid : ℕ} {j : Input}
    (hstep : w.step (system rt settings) (.run pid j) = some w') {p : Process}
    (hp : w.procs[pid]? = some p) {event : EventEnvelope} {workerId : Option Uuid}
    (hkind : p.kind = .processEvent event workerId) {r : Uuid} {x : Lease}
    (hx : ∃ x' ∈ (w.state.db.runView r).leases, x' = { x with releasedAt := x'.releasedAt })
    (hopen : x.releasedAt = none) (htoken : event.leaseToken = .ok (some x.leaseToken))
    {target : RunStatus} (htarget : target ∈ [succeeded, failed, cancelled])
    (hlt : (w.state.db.runView r).entered target < (w'.state.db.runView r).entered target) :
    (∃ y, w.state.db.unreleased r = [y] ∧ y.lease = x) ∧
      ∃ y ∈ w'.state.db.allocations.rows, y.id = x.id ∧ y.releasedAt.isSome := by
  obtain ⟨pid', j', p', heq, hp', hmoves⟩ := h.entering hstep hlt
  obtain ⟨rfl, rfl⟩ : pid' = pid ∧ j' = j := by simpa [eq_comm] using heq
  obtain rfl := Option.some.inj (hp'.symm.trans hp)
  rw [hkind] at hmoves
  obtain ⟨lease, time, ⟨htoken', -⟩, hactive, hleases⟩ := hmoves.ended htarget hlt
  obtain ⟨y, hy, rfl⟩ := unreleased_of_active hactive
  have hmem : y ∈ w.state.db.unreleased r := by simp [hy]
  obtain ⟨hrow, hfilter⟩ := List.mem_filter.mp hmem
  have hopen' : y.releasedAt = none := by
    simp only [decide_eq_true_eq] at hfilter
    exact hfilter.2
  -- the message has one token, and the token belongs to one allocation
  have hsame : y.lease = x := by
    have hyx : y.leaseToken = x.leaseToken :=
      Option.some.inj (Except.ok.inj (htoken'.symm.trans htoken))
    rw [h.same_lease hx hrow hyx, hopen', ← hopen]
  refine ⟨⟨y, hy, hsame⟩, ?_⟩
  have hreleased : { y.lease with releasedAt := some time } ∈ (w'.state.db.runView r).leases := by
    rw [hleases]
    exact List.mem_map.mpr ⟨y.lease, mem_leases_of_active (by simp [hactive]), by simp⟩
  obtain ⟨z, hz, hlease⟩ := List.mem_map.mp hreleased
  refine ⟨z, (List.mem_filter.mp hz).1, ?_, ?_⟩
  · rw [← hsame]
    exact congrArg Lease.id hlease
  · have htime : z.releasedAt = some time := congrArg Lease.releasedAt hlease
    rw [htime]
    rfl

/-- A run is started at most once and its template is executed at most once.
The run has one unreleased allocation when it is started, which is on the
worker that starts it and has the token of the message being processed; and
when the session that started it ends it later, it releases that allocation. -/
theorem fenced_execution (h : Reachable rt settings templates w) :
    (∀ r, (w.state.db.runView r).entered running ≤ 1 ∧ w.state.executions.count r ≤ 1) ∧
    ∀ a w₁ r, w.step (system rt settings) a = some w₁ →
      (w.state.db.runView r).entered running < (w₁.state.db.runView r).entered running →
      ∃ pid i p event workerId eventWorkerId x x₁, a = .run pid i ∧ w.procs[pid]? = some p ∧
        p.kind = .processEvent event workerId ∧ event.runId = some r ∧
        event.workerId = some eventWorkerId ∧ w.state.db.unreleased r = [x] ∧
        w₁.state.db.unreleased r = [x₁] ∧ x₁.lease = x.lease ∧
        x.workerId = workerId.getD eventWorkerId ∧ event.leaseToken = .ok (some x.leaseToken) ∧
        ∀ w₂, Reach (system rt settings) (fun _ _ _ => True) w₁ w₂ → ∀ j w₃ target,
          w₂.step (system rt settings) (.run pid j) = some w₃ →
          target ∈ [succeeded, failed, cancelled] →
          (w₂.state.db.runView r).entered target < (w₃.state.db.runView r).entered target →
          (∃ x₂, w₂.state.db.unreleased r = [x₂] ∧ x₂.lease = x.lease) ∧
          ∃ x₃ ∈ w₃.state.db.allocations.rows, x₃.id = x.id ∧ x₃.releasedAt.isSome := by
  refine ⟨fun r => ⟨h.started_le r, h.executed_le r⟩, fun a w₁ r hstep hlt => ?_⟩
  obtain ⟨pid, i, p, rfl, hp, hmoves⟩ := h.entering hstep hlt
  obtain ⟨event, workerId, lease, hkind, hrun, hfences, hactive, hleases⟩ := hmoves.started hlt
  obtain ⟨htoken, eventWorkerId, heventWorker, hworker⟩ := hfences
  obtain ⟨x, hx, rfl⟩ := unreleased_of_active hactive
  have hactive₁ : (w₁.state.db.runView r).active = [x.lease] := by
    rw [← hactive, RunView.active, hleases]
    rfl
  obtain ⟨x₁, hx₁, hlease₁⟩ := unreleased_of_active hactive₁
  refine ⟨pid, i, p, event, workerId, eventWorkerId, x, x₁, rfl, hp, hkind, hrun, heventWorker, hx,
    hx₁, hlease₁, hworker, htoken, fun w₂ hreach j w₃ target hstep₃ htarget hlt₃ => ?_⟩
  obtain ⟨hreach₂, hlater⟩ := (h.step hstep).later hreach
  obtain ⟨p₁, hp₁, hkind₁⟩ := World.kind_step hstep hp
  obtain ⟨p₂, hp₂, hkind₂⟩ := hreach.kind hp₁
  have hmem : x.lease ∈ (w₁.state.db.runView r).active := by simp [hactive₁]
  have hopen : x.lease.releasedAt = none := by
    simpa using (List.mem_filter.mp hmem).2
  exact hreach₂.releases hstep₃ hp₂ ((hkind₂.trans hkind₁).trans hkind)
    ((hlater r).lease (mem_leases_of_active hmem)) hopen htoken htarget hlt₃

theorem fenced_execution_started : ∃ w w₁ x,
    Reachable Demo.runtime Demo.settings Demo.templates w ∧
    w.step (system Demo.runtime Demo.settings) (.run 4 (Demo.input 507)) = some w₁ ∧
    w.state.db.unreleased 201 = [x] ∧ (w₁.state.db.runView 201).entered running = 1 := by
  have h : (Demo.exec (Demo.delivered Demo.classification 7)).any fun w =>
      (w.step (system Demo.runtime Demo.settings) (.run 4 (Demo.input 507))).any fun w₁ =>
        (w.state.db.runView 201).entered running = 0 ∧
          (w₁.state.db.runView 201).entered running = 1 := by decide +kernel
  obtain ⟨w, hw, hstep⟩ := Demo.reachable h
  obtain ⟨w₁, hstep, hentered⟩ := (Option.any_eq_true _ _).mp hstep
  obtain ⟨hbefore, hafter⟩ := of_decide_eq_true hentered
  obtain ⟨-, -, -, -, -, -, x, -, -, -, -, -, -, hx, -⟩ :=
    (fenced_execution hw).2 _ w₁ 201 hstep (by omega)
  exact ⟨w, w₁, x, hw, hstep, hx, hafter⟩

end Runscope
