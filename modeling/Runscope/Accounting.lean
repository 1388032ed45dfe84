import Mathlib.Algebra.Order.BigOperators.Group.List
import Runscope.Reachable

/-!
The capacity of workers.

A worker's counters are kept on two paths: the scheduler counts down what it
assigns, everyone else counts the unreleased allocations again and writes the
result. The paths agree as long as no session writes what it counted from rows
that another one has changed in the meantime.
-/

namespace Runscope

open Transact RunStatus

variable {rt : Runtime} {settings : Settings} {templates : Table TrainingTemplate.id}
  {w w' : Cluster} {a : Action Kind Input}

/-- The capacity of workers is accounted for. -/
def Mode.accounted (rt : Runtime) : Mode := ⟨rt, True, False, False⟩

namespace Db

/-- The CPUs of a worker's unreleased allocations. -/
def cpuOf (db : Db) (workerId : Uuid) : ℚ :=
  ((db.loadOf workerId).map ResourceAllocation.cpu).sum

/-- The memory of a worker's unreleased allocations. -/
def memoryOf (db : Db) (workerId : Uuid) : ℤ :=
  ((db.loadOf workerId).map ResourceAllocation.memoryMb).sum

theorem cpuOf_eq (db : Db) (workerId : Uuid) :
    db.cpuOf workerId = ((db.workerView workerId).leases.map Lease.cpu).sum := by
  rw [cpuOf, workerView, List.map_map]
  rfl

theorem memoryOf_eq (db : Db) (workerId : Uuid) :
    db.memoryOf workerId = ((db.workerView workerId).leases.map Lease.memoryMb).sum := by
  rw [memoryOf, workerView, List.map_map]
  rfl

end Db

/-- Counting a worker's allocations again changes nothing. -/
theorem withLoad_of_invariant {p : Platform} (hI : Invariant (.accounted rt) p) {worker : Worker}
    (hworker : worker ∈ p.db.workers.rows) : worker.withLoad (p.db.loadOf worker.id) = worker := by
  rw [Worker.withLoad_eq]
  exact (hI.capacity trivial worker.id).counted worker (Table.get?_of_mem hworker)

/-- An unreleased allocation takes something. -/
theorem lease_pos {m : Mode} {p : Platform} (hI : Invariant m p) {id : Uuid} {lease : Lease}
    (h : lease ∈ (p.db.workerView id).leases) : 0 < lease.cpu ∧ 0 < lease.memoryMb := by
  obtain ⟨x, hx, rfl⟩ := List.mem_map.mp h
  have hactive : x.lease ∈ (p.db.runView x.runId).active := by
    rw [active_runView]
    refine List.mem_map.mpr ⟨x, List.mem_filter.mpr ⟨(List.mem_filter.mp hx).1, by simp⟩, rfl⟩
  cases hget : p.db.runs.get? x.runId with
  | none =>
      rw [(hI.runs x.runId).absent hget] at hactive
      simp [RunView.absent, RunView.active] at hactive
  | some run =>
      have hcoherent := (hI.runs x.runId).present run hget
      have hleased : run.status.leased := by
        by_contra hnot
        rw [hcoherent.unleased hnot] at hactive
        simp at hactive
      obtain ⟨lease, hlease, -, hcpu, hmemory⟩ := hcoherent.leased hleased
      rw [hlease, List.mem_singleton] at hactive
      rw [hactive, hcpu, hmemory]
      exact ⟨hcoherent.requestedCpu, hcoherent.requestedMemoryMb⟩

/-- The action is a step of a worker's registration. -/
def Registration (w : Cluster) (a : Action Kind Input) : Prop :=
  ∃ (pid : ℕ) (i : Input) (p : Process) (name : String) (totals : WorkerTotals),
    a = .run pid i ∧ w.procs[pid]? = some p ∧ p.kind = .registerWorker name totals

/-! ### Room on a worker -/

/-- What a commit may do to the room on a worker. -/
def WorkerView.Rooms (registers : Prop) (v v' : WorkerView) : Prop :=
  registers ∧ v.row.isSome ∧ v'.leases = v.leases ∨ v'.Fits ∨ v.Shrinks v'

theorem room_step (hok : w.Ok (system rt settings) (Invariant (.accounted rt))
    (contract (.accounted rt))) (hstep : w.step (system rt settings) a = some w') (id : Uuid) :
    (w.state.db.workerView id).Rooms (Registration w a) (w'.state.db.workerView id) := by
  rcases hok.guar hstep with heq | ⟨pid, i, p, pt, rfl, hp, -, hguar⟩
  · rw [heq]
    exact .inr (.inr (.refl _))
  · refine (hguar.room trivial id).imp_left fun ⟨⟨name, totals, hkind⟩, hrow, hleases⟩ => ?_
    exact ⟨⟨pid, i, p, name, totals, rfl, hp, hkind⟩, hrow, hleases⟩

/-- The leases exceed a worker's total if they did before, or if it registers
with a smaller one. -/
theorem WorkerView.Rooms.exceeds {α : Type} [AddCommMonoid α] [LinearOrder α] [IsOrderedAddMonoid α]
    {registers : Prop} {v v' : WorkerView} (h : v.Rooms registers v') (amount : Lease → α)
    (total : Worker → α) (hpos : ∀ l ∈ v.leases, 0 ≤ amount l)
    (hfits : v'.Fits → ∀ x, v'.row = some x → (v'.leases.map amount).sum ≤ total x)
    (hshrinks : v.Shrinks v' → v'.row.map total = v.row.map total) {worker' : Worker}
    (hrow : v'.row = some worker') (hover : total worker' < (v'.leases.map amount).sum) :
    ∃ worker, v.row = some worker ∧ (total worker < (v.leases.map amount).sum ∨
      registers ∧ total worker' < total worker) := by
  rcases h with ⟨hregisters, hsome, hleases⟩ | hfit | hshrink
  · obtain ⟨worker, hworker⟩ := Option.isSome_iff_exists.mp hsome
    refine ⟨worker, hworker, ?_⟩
    rw [hleases] at hover
    rcases lt_or_ge (total worker) (v.leases.map amount).sum with hlt | hge
    · exact .inl hlt
    · exact .inr ⟨hregisters, hover.trans_le hge⟩
  · exact absurd hover (not_lt.mpr (hfits hfit worker' hrow))
  · have htotal := hshrinks hshrink
    rw [hrow, Option.map_some] at htotal
    obtain ⟨worker, hworker, hsame⟩ := Option.map_eq_some_iff.mp htotal.symm
    have hsum : (v'.leases.map amount).sum ≤ (v.leases.map amount).sum :=
      (hshrink.2.map amount).sum_le_sum fun x hx => by
        obtain ⟨l, hl, rfl⟩ := List.mem_map.mp hx
        exact hpos l hl
    exact ⟨worker, hworker, .inl (hsame ▸ hover.trans_le hsum)⟩

section Exceeds

variable (hok : w.Ok (system rt settings) (Invariant (.accounted rt)) (contract (.accounted rt)))
  (hstep : w.step (system rt settings) a = some w') {worker' : Worker}
  (hworker : worker' ∈ w'.state.db.workers.rows)

include hok hstep hworker

theorem cpu_exceeds (hover : worker'.totalCpu < w'.state.db.cpuOf worker'.id) :
    ∃ worker ∈ w.state.db.workers.rows, worker.id = worker'.id ∧
      (worker.totalCpu < w.state.db.cpuOf worker.id ∨
        Registration w a ∧ worker'.totalCpu < worker.totalCpu) := by
  rw [Db.cpuOf_eq] at hover
  obtain ⟨worker, hrow, hcases⟩ := (room_step hok hstep worker'.id).exceeds Lease.cpu Worker.totalCpu
    (fun l hl => (lease_pos hok.inv hl).1.le) (fun hfits x hx => (hfits x hx).1)
    (fun hshrinks => by
      have := congrArg (Option.map Prod.fst) hshrinks.1
      simpa [WorkerView.totals, Option.map_map, Function.comp_def] using this)
    (Table.get?_of_mem hworker) hover
  have hid : worker.id = worker'.id := Table.key_of_get? hrow
  exact ⟨worker, Table.mem_of_get? hrow, hid, by rwa [Db.cpuOf_eq, hid]⟩

theorem memory_exceeds (hover : worker'.totalMemoryMb < w'.state.db.memoryOf worker'.id) :
    ∃ worker ∈ w.state.db.workers.rows, worker.id = worker'.id ∧
      (worker.totalMemoryMb < w.state.db.memoryOf worker.id ∨
        Registration w a ∧ worker'.totalMemoryMb < worker.totalMemoryMb) := by
  rw [Db.memoryOf_eq] at hover
  obtain ⟨worker, hrow, hcases⟩ := (room_step hok hstep worker'.id).exceeds Lease.memoryMb
    Worker.totalMemoryMb (fun l hl => (lease_pos hok.inv hl).2.le) (fun hfits x hx => (hfits x hx).2)
    (fun hshrinks => by
      have := congrArg (Option.map Prod.snd) hshrinks.1
      simpa [WorkerView.totals, Option.map_map, Function.comp_def] using this)
    (Table.get?_of_mem hworker) hover
  have hid : worker.id = worker'.id := Table.key_of_get? hrow
  exact ⟨worker, Table.mem_of_get? hrow, hid, by rwa [Db.memoryOf_eq, hid]⟩

/-- An assignment leaves its worker with no more than it has. -/
theorem fits_of_assigned {x : ResourceAllocation} (hx : x ∈ w'.state.db.loadOf worker'.id)
    (hnew : ∀ y ∈ w.state.db.allocations.rows, y.id ≠ x.id) :
    w'.state.db.cpuOf worker'.id ≤ worker'.totalCpu ∧
      w'.state.db.memoryOf worker'.id ≤ worker'.totalMemoryMb := by
  have hmem : x.lease ∈ (w'.state.db.workerView worker'.id).leases := List.mem_map_of_mem hx
  have habsent : x.lease ∉ (w.state.db.workerView worker'.id).leases := by
    intro hold
    obtain ⟨y, hy, hlease⟩ := List.mem_map.mp hold
    have hrow : y ∈ w.state.db.allocations.rows :=
      (List.mem_filter.mp (List.mem_filter.mp hy).1).1
    exact hnew y hrow (congrArg Lease.id hlease)
  rcases room_step hok hstep worker'.id with ⟨-, -, hleases⟩ | hfits | hshrinks
  · exact absurd (hleases ▸ hmem) habsent
  · rw [Db.cpuOf_eq, Db.memoryOf_eq]
    exact hfits worker' (Table.get?_of_mem hworker)
  · exact absurd (hshrinks.2.subset hmem) habsent

end Exceeds

/-! ### Transactions one after the other -/

/-- While a session has a transaction open, no other session runs. -/
def Atomic (w : Cluster) (a : Action Kind Input) (_ : Cluster) : Prop :=
  ∀ pid i, a = .run pid i → ∀ (j : ℕ) (q : Process), w.procs[j]? = some q → j ≠ pid →
    q.prog.point?.isSome → q.session.began = none

theorem Atomic.undisturbed (h : Atomic w a w') : Undisturbed (.accounted rt) w a w' := by
  intro pid i ha j q pt hq hj hpt
  have hclosed := h pid i ha j q hq hj (by simp [hpt])
  exact ⟨fun _ hbegan => by simp [hclosed] at hbegan, fun _ hbegan => by simp [hclosed] at hbegan,
    False.elim, False.elim⟩

/-- Where transactions do not overlap, the counters of every worker are those
of its unreleased allocations, so that counting again changes nothing and
nothing available is negative; and a worker's allocations exceed its total
only where it has registered again with a smaller one, never by an
assignment. -/
theorem capacity_accounted
    (h : Reach (system rt settings) Atomic (.initial (.empty templates)) w) :
    (∀ worker ∈ w.state.db.workers.rows,
      worker.availableCpu = max 0 (worker.totalCpu - w.state.db.cpuOf worker.id) ∧
      worker.availableMemoryMb = max 0 (worker.totalMemoryMb - w.state.db.memoryOf worker.id) ∧
      worker.currentRunCount = (w.state.db.loadOf worker.id).length ∧
      worker.withLoad (w.state.db.loadOf worker.id) = worker ∧
      0 ≤ worker.availableCpu ∧ 0 ≤ worker.availableMemoryMb) ∧
    ∀ a w', w.step (system rt settings) a = some w' → Atomic w a w' →
      ∀ worker' ∈ w'.state.db.workers.rows,
        (worker'.totalCpu < w'.state.db.cpuOf worker'.id →
          ∃ worker ∈ w.state.db.workers.rows, worker.id = worker'.id ∧
            (worker.totalCpu < w.state.db.cpuOf worker.id ∨
              Registration w a ∧ worker'.totalCpu < worker.totalCpu)) ∧
        (worker'.totalMemoryMb < w'.state.db.memoryOf worker'.id →
          ∃ worker ∈ w.state.db.workers.rows, worker.id = worker'.id ∧
            (worker.totalMemoryMb < w.state.db.memoryOf worker.id ∨
              Registration w a ∧ worker'.totalMemoryMb < worker.totalMemoryMb)) ∧
        ∀ x ∈ w'.state.db.loadOf worker'.id, (∀ y ∈ w.state.db.allocations.rows, y.id ≠ x.id) →
          w'.state.db.cpuOf worker'.id ≤ worker'.totalCpu ∧
          w'.state.db.memoryOf worker'.id ≤ worker'.totalMemoryMb := by
  have hok : w.Ok (system rt settings) (Invariant (.accounted rt)) (contract (.accounted rt)) :=
    ok_of_undisturbed (m := .accounted rt) (h.mono fun _ _ _ => Atomic.undisturbed)
  refine ⟨fun worker hworker => ?_, fun a w' hstep _ worker' hworker => ?_⟩
  · have hcounted := withLoad_of_invariant hok.inv hworker
    have hcpu := congrArg Worker.availableCpu hcounted
    have hmemory := congrArg Worker.availableMemoryMb hcounted
    have hcount := congrArg Worker.currentRunCount hcounted
    refine ⟨hcpu.symm, hmemory.symm, hcount.symm, hcounted, ?_, ?_⟩
    · rw [← hcpu]
      exact le_max_left _ _
    · rw [← hmemory]
      exact le_max_left _ _
  · exact ⟨cpu_exceeds hok hstep hworker, memory_exceeds hok hstep hworker,
      fun x hx hnew => fits_of_assigned hok hstep hworker hx hnew⟩

/-- Whether a step is `Atomic`. -/
def atomic (w : Cluster) (a : Action Kind Input) (_ : Cluster) : Bool :=
  match a with
  | .run pid _ => w.procs.zipIdx.all fun q =>
      q.2 == pid || q.1.prog.point?.isNone || q.1.session.began.isNone
  | _ => true

theorem atomic_sound (h : atomic w a w') : Atomic w a w' := by
  rintro pid i rfl j q hq hj hpt
  have hmem : (q, j) ∈ w.procs.zipIdx := by
    rw [List.mk_mem_zipIdx_iff_getElem?]
    exact hq
  have hentry := List.all_eq_true.mp h (q, j) hmem
  obtain ⟨pt, hpt⟩ := Option.isSome_iff_exists.mp hpt
  simpa [hj, hpt] using hentry

/-- A worker of four CPUs with one run of one CPU assigned. -/
theorem capacity_accounted_assigned : ∃ w worker,
    Reach (system Demo.runtime Demo.settings) Atomic (.initial (.empty Demo.templates)) w ∧
    worker ∈ w.state.db.workers.rows ∧ w.state.db.cpuOf worker.id = 1 ∧
    worker.availableCpu = 3 ∧ worker.currentRunCount = (w.state.db.loadOf worker.id).length := by
  have h : ((World.initial (.empty Demo.templates)).execIf (system Demo.runtime Demo.settings) atomic
      (Demo.assigned Demo.slow)).any fun w => (w.state.db.workers.get? 102).any fun worker =>
        worker.totalCpu = 4 ∧ w.state.db.cpuOf 102 = 1 := by decide +kernel
  obtain ⟨w, hw, hworker⟩ := (Option.any_eq_true _ _).mp h
  obtain ⟨worker, hget, hnumbers⟩ := (Option.any_eq_true _ _).mp hworker
  obtain ⟨htotal, hload⟩ := of_decide_eq_true hnumbers
  have hid : worker.id = 102 := Table.key_of_get? hget
  rw [← hid] at hload
  have hreach := Reach.of_execIf (fun _ _ _ => atomic_sound) .refl hw
  have hmem := Table.mem_of_get? hget
  obtain ⟨hcpu, -, hcount, -⟩ := (capacity_accounted hreach).1 worker hmem
  refine ⟨w, worker, hreach, hmem, hload, ?_, hcount⟩
  rw [hcpu, htotal, hload]
  norm_num

/-! ### Transactions that overlap -/

/-- No worker registers again with less than it had. -/
def KeepsTotals (w w' : Cluster) : Prop :=
  ∀ worker ∈ w.state.db.workers.rows, ∀ worker' ∈ w'.state.db.workers.rows,
    worker'.id = worker.id →
      worker.totalCpu ≤ worker'.totalCpu ∧ worker.totalMemoryMb ≤ worker'.totalMemoryMb

instance : Decidable (KeepsTotals w w') := by unfold KeepsTotals; infer_instance

/-- The counters of every worker are those of its unreleased allocations,
which do not exceed its totals. -/
def Accounted (w : Cluster) : Prop :=
  ∀ worker ∈ w.state.db.workers.rows,
    worker.availableCpu = worker.totalCpu - w.state.db.cpuOf worker.id ∧
    worker.availableMemoryMb = worker.totalMemoryMb - w.state.db.memoryOf worker.id ∧
    worker.currentRunCount = (w.state.db.loadOf worker.id).length ∧
    w.state.db.cpuOf worker.id ≤ worker.totalCpu ∧
    w.state.db.memoryOf worker.id ≤ worker.totalMemoryMb

/-- The step commits no change of a worker's row or unreleased allocations
while another transaction that releases a lease has loaded the worker and is
still to write its counters; and while a heartbeat has a copy of the row, it
commits no change of the totals. The row is locked when a heartbeat counts, if
there was anything to write of it. -/
abbrev Unovertaken (rt : Runtime) : Cluster → Action Kind Input → Cluster → Prop :=
  Undisturbed (.accounted rt)

/-- Nothing exceeds a worker's totals, as only a smaller registration could
make it. -/
theorem within_totals
    (h : Reach (system rt settings) (fun w a w' => Unovertaken rt w a w' ∧ KeepsTotals w w')
      (.initial (.empty templates)) w) {worker : Worker}
    (hworker : worker ∈ w.state.db.workers.rows) :
    w.state.db.cpuOf worker.id ≤ worker.totalCpu ∧
      w.state.db.memoryOf worker.id ≤ worker.totalMemoryMb := by
  induction h generalizing worker with
  | refl => cases hworker
  | @step w w' a hreach hstep hallowed ih =>
      have hok : w.Ok (system rt settings) (Invariant (.accounted rt))
          (contract (.accounted rt)) :=
        ok_of_undisturbed (m := .accounted rt) (hreach.mono fun _ _ _ h => h.1)
      constructor
      · by_contra hnot
        obtain ⟨worker₀, hmem, hid, hover | ⟨-, hless⟩⟩ :=
          cpu_exceeds hok hstep hworker (not_le.mp hnot)
        · exact absurd (ih hmem).1 (not_le.mpr hover)
        · exact absurd (hallowed.2 worker₀ hmem worker hworker hid.symm).1 (not_le.mpr hless)
      · by_contra hnot
        obtain ⟨worker₀, hmem, hid, hover | ⟨-, hless⟩⟩ :=
          memory_exceeds hok hstep hworker (not_le.mp hnot)
        · exact absurd (ih hmem).2 (not_le.mpr hover)
        · exact absurd (hallowed.2 worker₀ hmem worker hworker hid.symm).2 (not_le.mpr hless)

/-- As long as no transaction writes counters it has computed from rows that
others have changed since, the counters of every worker are those of its
unreleased allocations. -/
theorem accounted_unovertaken
    (h : Reach (system rt settings) (fun w a w' => Unovertaken rt w a w' ∧ KeepsTotals w w')
      (.initial (.empty templates)) w) : Accounted w := by
  have hok : w.Ok (system rt settings) (Invariant (.accounted rt)) (contract (.accounted rt)) :=
    ok_of_undisturbed (m := .accounted rt) (h.mono fun _ _ _ h => h.1)
  intro worker hworker
  have hcounted := withLoad_of_invariant hok.inv hworker
  have hcpu : max 0 (worker.totalCpu - w.state.db.cpuOf worker.id) = worker.availableCpu :=
    congrArg Worker.availableCpu hcounted
  have hmemory : max 0 (worker.totalMemoryMb - w.state.db.memoryOf worker.id) =
      worker.availableMemoryMb := congrArg Worker.availableMemoryMb hcounted
  have hcount := congrArg Worker.currentRunCount hcounted
  obtain ⟨hcpuFits, hmemoryFits⟩ := within_totals h hworker
  refine ⟨?_, ?_, hcount.symm, hcpuFits, hmemoryFits⟩
  · rw [← hcpu, max_eq_right (sub_nonneg.mpr hcpuFits)]
  · rw [← hmemory, max_eq_right (sub_nonneg.mpr hmemoryFits)]

namespace Demo

/-- Between the executor's count of a worker's allocations and its commit, a
second run is submitted and assigned to the same worker. -/
def overtaken : List (Action Kind Input) :=
  delivered classification 8 ++ .run 4 { input 508 with result := result } :: steps 4 509 8 ++
    .spawn (.createRun slow 5 requestId) :: steps 5 600 10 ++
    .spawn .schedule :: steps 6 700 19 ++ steps 4 800 5

end Demo

/-- The executor erases what the scheduler has counted down: all have ended,
and the worker has four CPUs available of four with one of them assigned. -/
theorem accounted_overtaken : ∃ w,
    Reach (system Demo.runtime Demo.settings) (fun w _ w' => KeepsTotals w w')
      (.initial (.empty Demo.templates)) w ∧
    (∀ q ∈ w.procs, q.prog.point? = none) ∧ ¬ Accounted w := by
  have h : ((World.initial (.empty Demo.templates)).execIf (system Demo.runtime Demo.settings)
      (fun w _ w' => decide (KeepsTotals w w')) Demo.overtaken).any fun w =>
        (w.procs.all fun q => q.prog.point?.isNone) ∧
          (w.state.db.workers.get? 102).any fun worker =>
            worker.totalCpu = 4 ∧ worker.availableCpu = 4 ∧ w.state.db.cpuOf worker.id = 1 := by
    decide +kernel
  obtain ⟨w, hw, hcheck⟩ := (Option.any_eq_true _ _).mp h
  obtain ⟨hended, hworker⟩ := of_decide_eq_true hcheck
  obtain ⟨worker, hget, hnumbers⟩ := (Option.any_eq_true _ _).mp hworker
  obtain ⟨htotal, havailable, hload⟩ := of_decide_eq_true hnumbers
  refine ⟨w, Reach.of_execIf (fun _ _ _ => of_decide_eq_true) .refl hw, fun q hq => ?_, fun hok => ?_⟩
  · simpa using List.all_eq_true.mp hended q hq
  · have hcpu := (hok worker (Table.mem_of_get? hget)).1
    rw [htotal, havailable, hload] at hcpu
    norm_num at hcpu

/-- Whether a step is `Unovertaken`. -/
def unovertaken (w : Cluster) (a : Action Kind Input) (w' : Cluster) : Bool :=
  match a with
  | .run pid _ => w.procs.zipIdx.all fun q =>
      q.2 == pid || q.1.session.began.isNone || q.1.prog.point?.all fun pt =>
        (pt.worker.all fun id => w'.state.db.workerView id = w.state.db.workerView id) &&
          pt.totals.all fun id =>
            (w'.state.db.workerView id).totals = (w.state.db.workerView id).totals
  | _ => true

theorem unovertaken_sound (h : unovertaken w a w') : Unovertaken rt w a w' := by
  rintro pid i rfl j q pt hq hj hpt
  have hmem : (q, j) ∈ w.procs.zipIdx := by
    rw [List.mk_mem_zipIdx_iff_getElem?]
    exact hq
  have hentry := List.all_eq_true.mp h (q, j) hmem
  refine ⟨fun _ hbegan id hid => ?_, fun _ hbegan id hid => ?_, False.elim, False.elim⟩
  · have hopen := Option.isSome_iff_ne_none.mp hbegan
    simp only [hpt, hid, Option.all_some, Bool.or_eq_true, Bool.and_eq_true] at hentry
    simpa using ((hentry.resolve_left (by simp [hj, hopen])).1 : decide _ = true)
  · have hopen := Option.isSome_iff_ne_none.mp hbegan
    simp only [hpt, hid, Option.all_some, Bool.or_eq_true, Bool.and_eq_true] at hentry
    simpa using ((hentry.resolve_left (by simp [hj, hopen])).2 : decide _ = true)

namespace Demo

/-- While the heartbeat of a worker holds a copy of its row, the run it
executes is completed and another one is submitted and assigned to it. -/
def renewing : List (Action Kind Input) :=
  delivered classification 8 ++ .run 4 { input 508 with result := result } :: steps 4 509 8 ++
    .spawn (.heartbeat 102) :: steps 5 600 2 ++ steps 4 700 5 ++
    .spawn (.createRun slow 5 requestId) :: steps 6 800 10 ++
    .spawn .schedule :: steps 7 900 19 ++ steps 5 1000 7

end Demo

/-- A completion and an assignment during a heartbeat are accounted for. -/
theorem accounted_unovertaken_overlapping : ∃ w,
    Reach (system Demo.runtime Demo.settings)
      (fun w a w' => Unovertaken Demo.runtime w a w' ∧ KeepsTotals w w')
      (.initial (.empty Demo.templates)) w ∧
    (∃ run, w.state.db.runs.get? 201 = some run ∧ run.status = succeeded) ∧
    (∃ worker ∈ w.state.db.workers.rows, worker.currentRunCount = 1) ∧ Accounted w := by
  have h : ((World.initial (.empty Demo.templates)).execIf (system Demo.runtime Demo.settings)
      (fun w a w' => unovertaken w a w' && decide (KeepsTotals w w')) Demo.renewing).any fun w =>
        (w.state.db.runs.get? 201).any (fun run => run.status = succeeded) &&
          w.state.db.workers.rows.any fun worker => worker.currentRunCount = 1 := by
    decide +kernel
  obtain ⟨w, hw, hends⟩ := (Option.any_eq_true _ _).mp h
  obtain ⟨hrun, hworker⟩ := Bool.and_eq_true_iff.mp hends
  obtain ⟨run, hget, hstatus⟩ := (Option.any_eq_true _ _).mp hrun
  obtain ⟨worker, hmem, hcount⟩ := List.any_eq_true.mp hworker
  have hallowed (w w' : Cluster) (a : Action Kind Input)
      (hcheck : (unovertaken w a w' && decide (KeepsTotals w w')) = true) :
      Unovertaken Demo.runtime w a w' ∧ KeepsTotals w w' := by
    obtain ⟨hunovertaken, hkeeps⟩ := Bool.and_eq_true_iff.mp hcheck
    exact ⟨unovertaken_sound hunovertaken, of_decide_eq_true hkeeps⟩
  have hreach := Reach.of_execIf (fun w a w' => hallowed w w' a) .refl hw
  exact ⟨w, hreach, ⟨run, hget, of_decide_eq_true hstatus⟩,
    ⟨worker, hmem, of_decide_eq_true hcount⟩, accounted_unovertaken hreach⟩

end Runscope
