import Mathlib.Data.List.Forall2
import Runscope.StateMachine
import Runscope.Transact.Labelled

/-!
The life of one run, apart from how it is stored.

A `RunView` is everything the database says about a run: its row, the leases
it has had, its transitions in order, and the messages sent about it. A run
lives by `RunStep`s, each of which stores a new version of the row. What the
services may rely on between steps is `RunView.Inv`, which every step keeps.
-/

namespace Runscope

open Transact RunStatus

/-- An allocation without its expiry. -/
structure Lease where
  id : Uuid
  workerId : Uuid
  cpu : ℚ
  memoryMb : ℤ
  leaseToken : Uuid
  releasedAt : Option Time
  deriving DecidableEq

structure RunView where
  run : Option Run
  leases : List Lease
  transitions : List (Option RunStatus × Option RunStatus)
  messages : List EventEnvelope

namespace RunView

/-- No such run. -/
def absent : RunView := ⟨none, [], [], []⟩

/-- The leases not released yet. -/
def active (v : RunView) : List Lease := v.leases.filter fun l => l.releasedAt.isNone

def version (v : RunView) : ℕ := (v.run.map Run.version).elim 0 (· + 1)

end RunView

/-- The lease with the given id is released. -/
def releaseLease (id : Uuid) (time : Time) (leases : List Lease) : List Lease :=
  leases.map fun l => if l.id = id then { l with releasedAt := some time } else l

/-- What an assignment message says about its lease. -/
def Lease.payload (l : Lease) : Record :=
  [("lease_token", .uuid l.leaseToken), ("requested_cpu", .num l.cpu),
    ("requested_memory_mb", .int l.memoryMb)]

/-- The message tells the worker of the lease all about it. -/
structure Carries (message : EventEnvelope) (l : Lease) : Prop where
  eventType : message.eventType = "run.assigned"
  workerId : message.workerId = some l.workerId
  payload : message.payload = l.payload

inductive Label where
  | create
  | edit
  | assign (lease : Lease)
  | requeue (lease : Lease)
  | start (lease : Lease)
  | requestCancel
  | finish (target : RunStatus) (lease : Lease)

/-- The status a step leads to. -/
def Label.enters : Label → Option RunStatus
  | .create => some queued
  | .edit => none
  | .assign _ => some scheduling
  | .requeue _ => some queued
  | .start _ => some running
  | .requestCancel => some cancelling
  | .finish target _ => some target

/-- The statuses in which a run holds a lease. -/
def RunStatus.leased (s : RunStatus) : Bool := s ∈ [scheduling, running, cancelling]

/-- The statuses that end an execution. -/
def RunStatus.finished (s : RunStatus) : Bool := s ∈ [succeeded, failed, cancelled]

/-- The statuses of a run that has been started. -/
def RunStatus.begun (s : RunStatus) : Bool :=
  s ∈ [running, cancelling, succeeded, failed, cancelled]

inductive RunStep : Label → RunView → RunView → Prop where
  | create (run : Run) (submitted : EventEnvelope) (hstatus : run.status = queued)
      (hworker : run.assignedWorkerId = none) (hqueued : run.queuedAt.isSome)
      (hstarted : run.startedAt = none) (hcompleted : run.completedAt = none)
      (hcode : run.failureCode = none) (hmessage : run.failureMessage = none)
      (hcpu : 0 < run.requestedCpu) (hmemory : 0 < run.requestedMemoryMb)
      (hsubmitted : submitted.eventType = "run.submitted") :
      RunStep .create .absent ⟨some run, [], [(some draft, some queued)], [submitted]⟩
  | edit (v : RunView) (run : Run) (notes : String) (tags : List String) (version : ℕ)
      (hrun : v.run = some run) (hversion : run.version < version) :
      RunStep .edit v { v with run := some { run with notes, tags, version } }
  | assign (v : RunView) (run : Run) (lease : Lease) (message : EventEnvelope) (version : ℕ)
      (hrun : v.run = some run) (hstatus : run.status = queued) (hversion : run.version < version)
      (hactive : lease.releasedAt = none) (hcpu : lease.cpu = run.requestedCpu)
      (hmemory : lease.memoryMb = run.requestedMemoryMb) (hcarries : Carries message lease) :
      RunStep (.assign lease) v
        ⟨some { run with status := scheduling, assignedWorkerId := some lease.workerId, version },
          v.leases ++ [lease], v.transitions ++ [(some queued, some scheduling)],
          v.messages ++ [message]⟩
  | requeue (v : RunView) (run : Run) (lease : Lease) (time : Time) (version : ℕ)
      (hrun : v.run = some run) (hstatus : run.status = scheduling)
      (hversion : run.version < version) (hlease : v.active = [lease]) :
      RunStep (.requeue lease) v
        ⟨some { run with status := queued, assignedWorkerId := none, version },
          releaseLease lease.id time v.leases,
          v.transitions ++ [(some scheduling, some queued)], v.messages⟩
  | start (v : RunView) (run : Run) (lease : Lease) (now : Time) (version : ℕ)
      (hrun : v.run = some run) (hstatus : run.status = scheduling)
      (hversion : run.version < version) (hlease : v.active = [lease]) :
      RunStep (.start lease) v
        ⟨some { run with status := running, startedAt := some now, version }, v.leases,
          v.transitions ++ [(some scheduling, some running)], v.messages⟩
  | requestCancel (v : RunView) (run : Run) (message : EventEnvelope) (version : ℕ)
      (hrun : v.run = some run) (hstatus : run.status = running) (hversion : run.version < version)
      (hmessage : message.eventType = "run.cancel.requested") :
      RunStep .requestCancel v
        ⟨some { run with status := cancelling, version }, v.leases,
          v.transitions ++ [(some running, some cancelling)], v.messages ++ [message]⟩
  | finish (v : RunView) (run : Run) (target : RunStatus) (lease : Lease) (now time : Time)
      (code message : Option String) (version : ℕ) (hrun : v.run = some run)
      (hstatus : (run.status, target) ∈
        [(running, succeeded), (running, failed), (cancelling, cancelled)])
      (hversion : run.version < version) (hlease : v.active = [lease])
      (hcode : code.isSome ↔ target = failed) (hmessage : message.isSome ↔ target = failed) :
      RunStep (.finish target lease) v
        ⟨some { run with
            status := target, completedAt := some now, failureCode := code,
            failureMessage := message, version },
          releaseLease lease.id time v.leases,
          v.transitions ++ [(some run.status, some target)], v.messages⟩

/-- A transition of the table, between stored statuses. -/
def ValidStep (previous target : Option RunStatus) : Prop :=
  ∃ p ∈ previous, ∃ t ∈ target, t ∈ validTransitions p

theorem ValidStep.of_mem (p t : RunStatus) (h : t ∈ validTransitions p) :
    ValidStep (some p) (some t) := ⟨p, rfl, t, rfl, h⟩

/-- How many transitions led to `target`. -/
def RunView.entered (v : RunView) (target : RunStatus) : ℕ :=
  (v.transitions.map Prod.snd).count (some target)

/-- The messages of one type. -/
def RunView.sent (v : RunView) (eventType : String) : List EventEnvelope :=
  v.messages.filter fun m => m.eventType = eventType

/-- What holds of a run and everything stored about it. -/
structure RunView.Coherent (v : RunView) (run : Run) : Prop where
  status : run.status ≠ draft ∧ run.status ≠ retrying
  leased : run.status.leased → ∃ lease, v.active = [lease] ∧
    run.assignedWorkerId = some lease.workerId ∧ lease.cpu = run.requestedCpu ∧
    lease.memoryMb = run.requestedMemoryMb
  unleased : ¬ run.status.leased → v.active = []
  unassigned : run.status = queued → run.assignedWorkerId = none
  ledger : IsPath ValidStep (some draft) v.transitions (some run.status)
  started : v.entered running = if run.status.begun then 1 else 0
  queuedAt : run.queuedAt.isSome
  startedAt : run.startedAt.isSome ↔ run.status.begun
  completedAt : run.completedAt.isSome ↔ run.status.finished
  failureCode : run.failureCode.isSome ↔ run.status = failed
  failureMessage : run.failureMessage.isSome ↔ run.status = failed
  requestedCpu : 0 < run.requestedCpu
  requestedMemoryMb : 0 < run.requestedMemoryMb
  submitted : (v.sent "run.submitted").length = 1
  assigned : List.Forall₂ Carries (v.sent "run.assigned") v.leases
  cancelRequests : (v.sent "run.cancel.requested").length = v.entered cancelling
  cancelled : v.entered cancelling = if run.status ∈ [cancelling, cancelled] then 1 else 0
  messages : ∀ m ∈ v.messages,
    m.eventType ∈ ["run.submitted", "run.assigned", "run.cancel.requested"]

/-- A run that is not stored has left no trace. -/
structure RunView.Inv (v : RunView) : Prop where
  absent : v.run = none → v = .absent
  present : ∀ run, v.run = some run → v.Coherent run

theorem RunView.Inv.absent_view : RunView.absent.Inv := ⟨fun _ => rfl, fun _ h => by cases h⟩

/-! ### What a step does to the parts of a view -/

section Parts

variable {v : RunView}

theorem active_release (id : Uuid) (time : Time) (leases : List Lease) :
    (releaseLease id time leases).filter (fun l => l.releasedAt.isNone) =
      (leases.filter fun l => l.releasedAt.isNone).filter fun l => l.id ≠ id := by
  induction leases with
  | nil => rfl
  | cons l leases ih =>
      simp only [releaseLease, List.map_cons] at ih ⊢
      by_cases hid : l.id = id <;> by_cases hrel : l.releasedAt.isNone <;>
        simp_all

/-- Releasing the only active lease leaves none. -/
theorem active_release_eq_nil {lease : Lease} (h : v.active = [lease]) (time : Time)
    (run : Option Run) (transitions : List (Option RunStatus × Option RunStatus))
    (messages : List EventEnvelope) :
    RunView.active ⟨run, releaseLease lease.id time v.leases, transitions, messages⟩ = [] := by
  have : v.leases.filter (fun l => l.releasedAt.isNone) = [lease] := h
  simp only [RunView.active]
  rw [active_release, this]
  simp

theorem entered_snoc (run : Option Run) (leases : List Lease) (messages : List EventEnvelope)
    (previous : Option RunStatus) (target entry : RunStatus) :
    RunView.entered ⟨run, leases, v.transitions ++ [(previous, some target)], messages⟩ entry =
      v.entered entry + if target = entry then 1 else 0 := by
  simp [RunView.entered, List.count_append, List.count_cons]

theorem sent_same (run : Option Run) (leases : List Lease)
    (transitions : List (Option RunStatus × Option RunStatus)) (eventType : String) :
    RunView.sent ⟨run, leases, transitions, v.messages⟩ eventType = v.sent eventType := rfl

theorem sent_snoc (run : Option Run) (leases : List Lease)
    (transitions : List (Option RunStatus × Option RunStatus)) (message : EventEnvelope)
    (eventType : String) :
    RunView.sent ⟨run, leases, transitions, v.messages ++ [message]⟩ eventType =
      v.sent eventType ++ if message.eventType = eventType then [message] else [] := by
  by_cases h : message.eventType = eventType <;> simp [RunView.sent, h]

theorem carries_release {messages : List EventEnvelope} {leases : List Lease} (id : Uuid)
    (time : Time) (h : List.Forall₂ Carries messages leases) :
    List.Forall₂ Carries messages (releaseLease id time leases) := by
  induction h with
  | nil => exact .nil
  | cons hm _ ih =>
      refine .cons ?_ ih
      dsimp only
      split
      · exact ⟨hm.eventType, hm.workerId, hm.payload⟩
      · exact hm

theorem carries_of_mem {messages : List EventEnvelope} {leases : List Lease} {e : EventEnvelope}
    (h : List.Forall₂ Carries messages leases) (he : e ∈ messages) :
    ∃ lease ∈ leases, Carries e lease := by
  induction h with
  | nil => cases he
  | cons hm _ ih =>
      rcases List.mem_cons.mp he with rfl | he
      · exact ⟨_, List.mem_cons_self, hm⟩
      · obtain ⟨lease, hlease, hcarries⟩ := ih he
        exact ⟨lease, List.mem_cons_of_mem _ hlease, hcarries⟩

end Parts

/-! ### Every step keeps the invariant -/

namespace RunStep

variable {v v' : RunView} {l : Label}

theorem version_lt (h : RunStep l v v') : v.version < v'.version := by
  cases h with
  | create => simp [RunView.version, RunView.absent]
  | edit | assign | requeue | start | requestCancel | finish => simp [RunView.version, *]

/-- Nothing leads back to a run that does not exist. -/
theorem run_isSome (h : RunStep l v v') : v'.run.isSome := by
  cases h <;> rfl

theorem inv (h : RunStep l v v') (hv : v.Inv) : v'.Inv := by
  refine ⟨fun hnone => by simpa [hnone] using h.run_isSome, ?_⟩
  cases h with
  | create run submitted hstatus hworker hqueued hstarted hcompleted hcode hmessage hcpu hmemory
      hsubmitted =>
      rintro run' ⟨⟩
      constructor <;>
        simp_all [RunStatus.leased, RunStatus.begun, RunStatus.finished, RunView.active,
          RunView.entered, RunView.sent, IsPath, ValidStep, validTransitions]
  | edit v run notes tags version hrun hversion =>
      rintro run' ⟨⟩
      exact { hv.present run hrun with }
  | assign v run lease message version hrun hstatus hversion hactive hcpu hmemory hcarries =>
      rintro run' ⟨⟩
      have h := hv.present run hrun
      have hnone : v.active = [] := h.unleased (by simp [hstatus, RunStatus.leased])
      have htype := hcarries.eventType
      have hvalid := ValidStep.of_mem queued scheduling (by simp [validTransitions])
      have hpath := (hstatus ▸ h.ledger).snoc hvalid
      refine { h with
        status := by simp
        leased := fun _ => ⟨lease, ?_, rfl, hcpu, hmemory⟩
        unleased := by simp [RunStatus.leased]
        unassigned := by simp
        ledger := hpath
        started := by simp [entered_snoc, h.started, hstatus, RunStatus.begun]
        startedAt := by simp [h.startedAt, hstatus, RunStatus.begun]
        completedAt := by simp [h.completedAt, hstatus, RunStatus.finished]
        failureCode := by simp [h.failureCode, hstatus]
        failureMessage := by simp [h.failureMessage, hstatus]
        submitted := by simp [sent_snoc, h.submitted, htype]
        assigned := by simpa [sent_snoc, htype] using
          List.rel_append h.assigned (.cons hcarries .nil)
        cancelRequests := by simp [sent_snoc, entered_snoc, h.cancelRequests, htype]
        cancelled := by simp [entered_snoc, h.cancelled, hstatus]
        messages := by simpa [or_imp, forall_and, htype] using h.messages }
      simpa [RunView.active, hactive] using hnone
  | requeue v run lease time version hrun hstatus hversion hlease =>
      rintro run' ⟨⟩
      have h := hv.present run hrun
      have hvalid := ValidStep.of_mem scheduling queued (by simp [validTransitions])
      have hpath := (hstatus ▸ h.ledger).snoc hvalid
      exact { h with
        status := by simp
        leased := by simp [RunStatus.leased]
        unleased := fun _ => active_release_eq_nil hlease _ _ _ _
        unassigned := fun _ => rfl
        ledger := hpath
        started := by simp [entered_snoc, h.started, hstatus, RunStatus.begun]
        startedAt := by simp [h.startedAt, hstatus, RunStatus.begun]
        completedAt := by simp [h.completedAt, hstatus, RunStatus.finished]
        failureCode := by simp [h.failureCode, hstatus]
        failureMessage := by simp [h.failureMessage, hstatus]
        assigned := carries_release _ _ h.assigned
        cancelRequests := by simp [sent_same, entered_snoc, h.cancelRequests]
        cancelled := by simp [entered_snoc, h.cancelled, hstatus] }
  | start v run lease now version hrun hstatus hversion hlease =>
      rintro run' ⟨⟩
      have h := hv.present run hrun
      have hvalid := ValidStep.of_mem scheduling running (by simp [validTransitions])
      have hpath := (hstatus ▸ h.ledger).snoc hvalid
      exact { h with
        status := by simp
        leased := fun _ => h.leased (by simp [hstatus, RunStatus.leased])
        unleased := by simp [RunStatus.leased]
        unassigned := by simp
        ledger := hpath
        started := by simp [entered_snoc, h.started, hstatus, RunStatus.begun]
        startedAt := by simp [RunStatus.begun]
        completedAt := by simp [h.completedAt, hstatus, RunStatus.finished]
        failureCode := by simp [h.failureCode, hstatus]
        failureMessage := by simp [h.failureMessage, hstatus]
        cancelRequests := by simp [sent_same, entered_snoc, h.cancelRequests]
        cancelled := by simp [entered_snoc, h.cancelled, hstatus] }
  | requestCancel v run message version hrun hstatus hversion hmessage =>
      rintro run' ⟨⟩
      have h := hv.present run hrun
      have hvalid := ValidStep.of_mem running cancelling (by simp [validTransitions])
      have hpath := (hstatus ▸ h.ledger).snoc hvalid
      exact { h with
        status := by simp
        leased := fun _ => h.leased (by simp [hstatus, RunStatus.leased])
        unleased := by simp [RunStatus.leased]
        unassigned := by simp
        ledger := hpath
        started := by simp [entered_snoc, h.started, hstatus, RunStatus.begun]
        startedAt := by simp [h.startedAt, hstatus, RunStatus.begun]
        completedAt := by simp [h.completedAt, hstatus, RunStatus.finished]
        failureCode := by simp [h.failureCode, hstatus]
        failureMessage := by simp [h.failureMessage, hstatus]
        submitted := by simp [sent_snoc, h.submitted, hmessage]
        assigned := by simpa [sent_snoc, hmessage] using h.assigned
        cancelRequests := by simp [sent_snoc, entered_snoc, h.cancelRequests, hmessage]
        cancelled := by simp [entered_snoc, h.cancelled, hstatus]
        messages := by simpa [or_imp, forall_and, hmessage] using h.messages }
  | finish v run target lease now time code message version hrun hstatus hversion hlease hcode
      hmessage =>
      rintro run' ⟨⟩
      have h := hv.present run hrun
      have hleases := active_release_eq_nil hlease time
      simp only [List.mem_cons, Prod.mk.injEq, List.not_mem_nil, or_false] at hstatus
      have hvalid := ValidStep.of_mem run.status target (by
        rcases hstatus with ⟨hs, rfl⟩ | ⟨hs, rfl⟩ | ⟨hs, rfl⟩ <;> simp [hs, validTransitions])
      have hpath := h.ledger.snoc hvalid
      rcases hstatus with ⟨hs, rfl⟩ | ⟨hs, rfl⟩ | ⟨hs, rfl⟩
      all_goals
        exact { h with
          status := by simp
          leased := by simp [RunStatus.leased]
          unleased := fun _ => hleases _ _ _
          unassigned := by simp
          ledger := hpath
          started := by simp [entered_snoc, h.started, hs, RunStatus.begun]
          startedAt := by simp [h.startedAt, hs, RunStatus.begun]
          completedAt := by simp [RunStatus.finished]
          failureCode := hcode
          failureMessage := hmessage
          assigned := carries_release _ _ h.assigned
          cancelRequests := by simp [sent_same, entered_snoc, h.cancelRequests]
          cancelled := by simp [entered_snoc, h.cancelled, hs] }

end RunStep

/-- The run has been started, and any lease it still holds is one of `P`. -/
def RunView.Held (P : Lease → Prop) (v : RunView) : Prop :=
  ∃ run, v.run = some run ∧ run.status.begun ∧ ∀ l ∈ v.active, P l

/-- A run that has been started gets no new lease. -/
theorem RunStep.held {P : Lease → Prop} {v v' : RunView} {l : Label} (h : RunStep l v v')
    (hv : v.Held P) : v'.Held P := by
  obtain ⟨run₀, hrun₀, hbegun, hactive⟩ := hv
  cases h with
  | create => cases hrun₀
  | edit v run notes tags version hrun hversion =>
      obtain rfl := Option.some.inj (hrun.symm.trans hrun₀)
      exact ⟨_, rfl, hbegun, hactive⟩
  | assign v run _ _ _ hrun hstatus | requeue v run _ _ _ hrun hstatus
  | start v run _ _ _ hrun hstatus =>
      obtain rfl := Option.some.inj (hrun.symm.trans hrun₀)
      simp [hstatus, RunStatus.begun] at hbegun
  | requestCancel v run message version hrun hstatus hversion hmessage =>
      exact ⟨_, rfl, by simp [RunStatus.begun], hactive⟩
  | finish v run target lease now time code message version hrun hstatus hversion hlease =>
      refine ⟨_, rfl, ?_, ?_⟩
      · simp only [List.mem_cons, Prod.mk.injEq, List.not_mem_nil, or_false] at hstatus
        rcases hstatus with ⟨-, rfl⟩ | ⟨-, rfl⟩ | ⟨-, rfl⟩ <;> simp [RunStatus.begun]
      · rw [active_release_eq_nil hlease]
        simp

/-- What ends a run leaves it ended. -/
theorem RunStep.ended {v v' : RunView} {target : RunStatus} {lease : Lease}
    (h : RunStep (.finish target lease) v v') : ∃ run, v'.run = some run ∧ run.status = target := by
  cases h with
  | finish => exact ⟨_, rfl, rfl⟩

/-- Messages are never lost. -/
theorem RunStep.messages {v v' : RunView} {l : Label} {e : EventEnvelope} (h : RunStep l v v')
    (he : e ∈ v.messages) : e ∈ v'.messages := by
  cases h with
  | create => simp [RunView.absent] at he
  | assign | requestCancel => simp [he]
  | edit | requeue | start | finish => exact he

/-- Each step is recorded as a transition to the status it leads to. -/
theorem RunStep.entered {l : Label} {v v' : RunView} (h : RunStep l v v') (target : RunStatus) :
    v'.entered target = v.entered target + if l.enters = some target then 1 else 0 := by
  cases h with
  | create => by_cases ht : queued = target <;> simp [RunView.entered, RunView.absent, Label.enters, ht]
  | edit => rfl
  | assign | requeue | start | requestCancel | finish => simp [entered_snoc, Label.enters]

/-- A start keeps the lease the run has. -/
theorem RunStep.of_start {v v' : RunView} {lease : Lease} (h : RunStep (.start lease) v v') :
    v.active = [lease] ∧ v'.leases = v.leases := by
  cases h with
  | start _ _ _ _ _ _ _ _ hlease => exact ⟨hlease, rfl⟩

/-- An ending releases the lease the run has. -/
theorem RunStep.of_finish {v v' : RunView} {target : RunStatus} {lease : Lease}
    (h : RunStep (.finish target lease) v v') :
    v.active = [lease] ∧ ∃ time, v'.leases = releaseLease lease.id time v.leases := by
  cases h with
  | finish _ _ _ _ _ time _ _ _ _ _ _ hlease => exact ⟨hlease, time, rfl⟩

/-- A lease never changes, except that it is released. -/
theorem RunStep.lease {l : Label} {v v' : RunView} {x : Lease} (h : RunStep l v v')
    (hx : x ∈ v.leases) : ∃ x' ∈ v'.leases, x' = { x with releasedAt := x'.releasedAt } := by
  have hrelease (id : Uuid) (time : Time) : ∃ x' ∈ releaseLease id time v.leases,
      x' = { x with releasedAt := x'.releasedAt } := by
    refine ⟨_, List.mem_map_of_mem hx, ?_⟩
    split <;> rfl
  cases h with
  | create => simp [RunView.absent] at hx
  | edit | start | requestCancel => exact ⟨x, hx, rfl⟩
  | assign => exact ⟨x, List.mem_append_left _ hx, rfl⟩
  | requeue | finish => exact hrelease _ _

/-- A lease that is released stays released. -/
theorem RunStep.released {l : Label} {v v' : RunView} {x : Lease} (h : RunStep l v v')
    (hx : x ∈ v.leases) (hreleased : x.releasedAt.isSome) :
    ∃ x' ∈ v'.leases, x' = { x with releasedAt := x'.releasedAt } ∧ x'.releasedAt.isSome := by
  have hrelease (id : Uuid) (time : Time) : ∃ x' ∈ releaseLease id time v.leases,
      x' = { x with releasedAt := x'.releasedAt } ∧ x'.releasedAt.isSome := by
    refine ⟨_, List.mem_map_of_mem hx, ?_⟩
    split
    · exact ⟨rfl, rfl⟩
    · exact ⟨rfl, hreleased⟩
  cases h with
  | create => simp [RunView.absent] at hx
  | edit | start | requestCancel => exact ⟨x, hx, rfl, hreleased⟩
  | assign => exact ⟨x, List.mem_append_left _ hx, rfl, hreleased⟩
  | requeue | finish => exact hrelease _ _

/-- A finished run stays finished. -/
theorem RunStep.finished {l : Label} {v v' : RunView} (h : RunStep l v v')
    (hv : ∃ run, v.run = some run ∧ run.status.finished) :
    ∃ run, v'.run = some run ∧ run.status.finished := by
  obtain ⟨run₀, hrun₀, hfinished⟩ := hv
  cases h with
  | create => cases hrun₀
  | edit v run notes tags version hrun =>
      obtain rfl := Option.some.inj (hrun.symm.trans hrun₀)
      exact ⟨_, rfl, hfinished⟩
  | assign v run _ _ _ hrun hstatus | requeue v run _ _ _ hrun hstatus
  | start v run _ _ _ hrun hstatus | requestCancel v run _ _ hrun hstatus =>
      obtain rfl := Option.some.inj (hrun.symm.trans hrun₀)
      simp [hstatus, RunStatus.finished] at hfinished
  | finish v run target _ _ _ _ _ _ hrun hstatus =>
      obtain rfl := Option.some.inj (hrun.symm.trans hrun₀)
      simp only [List.mem_cons, Prod.mk.injEq, List.not_mem_nil, or_false] at hstatus
      rcases hstatus with ⟨h, -⟩ | ⟨h, -⟩ | ⟨h, -⟩ <;> simp [h, RunStatus.finished] at hfinished

/-- A run that has come to an end is there still. -/
def RunView.Closed (v : RunView) : Prop :=
  ∀ previous target, (previous, some target) ∈ v.transitions → target.finished →
    ∃ run, v.run = some run ∧ run.status.finished

theorem RunStep.closed {l : Label} {v v' : RunView} (h : RunStep l v v') (hv : v.Closed) :
    v'.Closed := by
  intro previous target hmem htarget
  have hbefore (hmem : (previous, some target) ∈ v.transitions) :=
    h.finished (hv previous target hmem htarget)
  cases h with
  | create =>
      simp only [List.mem_singleton, Prod.mk.injEq, Option.some.injEq] at hmem
      simp [hmem.2, RunStatus.finished] at htarget
  | edit => exact hbefore hmem
  | assign | requeue | start | requestCancel =>
      rcases List.mem_append.mp hmem with hmem | hmem
      · exact hbefore hmem
      · simp only [List.mem_singleton, Prod.mk.injEq, Option.some.injEq] at hmem
        simp [hmem.2, RunStatus.finished] at htarget
  | finish v run target' _ _ _ _ _ _ hrun hstatus =>
      refine ⟨_, rfl, ?_⟩
      simp only [List.mem_cons, Prod.mk.injEq, List.not_mem_nil, or_false] at hstatus
      rcases hstatus with ⟨-, rfl⟩ | ⟨-, rfl⟩ | ⟨-, rfl⟩ <;> simp [RunStatus.finished]

/-- The transition that a step enters. -/
inductive Label.Makes : Label → RunStatus → RunStatus → Prop where
  | create : Makes .create draft queued
  | assign (lease : Lease) : Makes (.assign lease) queued scheduling
  | requeue (lease : Lease) : Makes (.requeue lease) scheduling queued
  | start (lease : Lease) : Makes (.start lease) scheduling running
  | requestCancel : Makes .requestCancel running cancelling
  | finish (previous target : RunStatus) (lease : Lease) (h : (previous, target) ∈
      [(running, succeeded), (running, failed), (cancelling, cancelled)]) :
      Makes (.finish target lease) previous target

theorem RunStep.added {l : Label} {v v' : RunView} (h : RunStep l v v') :
    ∃ added, v'.transitions = v.transitions ++ added ∧
      ∀ x ∈ added, ∃ previous target, x = (some previous, some target) ∧ l.Makes previous target := by
  have hone {previous target : RunStatus} (h : l.Makes previous target) :
      ∀ x ∈ [(some previous, some target)], ∃ previous target, x = (some previous, some target) ∧
        l.Makes previous target := by
    rintro x hx
    exact ⟨previous, target, List.mem_singleton.mp hx, h⟩
  cases h with
  | create => exact ⟨_, rfl, hone .create⟩
  | edit => exact ⟨[], (List.append_nil _).symm, by simp⟩
  | assign => exact ⟨_, rfl, hone (.assign _)⟩
  | requeue => exact ⟨_, rfl, hone (.requeue _)⟩
  | start => exact ⟨_, rfl, hone (.start _)⟩
  | requestCancel => exact ⟨_, rfl, hone .requestCancel⟩
  | finish v run target lease now time code message version hrun hstatus =>
      exact ⟨_, rfl, hone (.finish _ _ _ hstatus)⟩

/-- A run that has been started is only asked to cancel and finished. -/
theorem RunStep.begun {l : Label} {v v' : RunView} (h : RunStep l v v')
    (hv : ∃ run, v.run = some run ∧ run.status.begun) :
    (∃ run, v'.run = some run ∧ run.status.begun) ∧
      ∃ added, v'.transitions = v.transitions ++ added ∧ ∀ x ∈ added, x ∈
        [(some running, some cancelling), (some running, some succeeded),
          (some running, some failed), (some cancelling, some cancelled)] := by
  obtain ⟨run₀, hrun₀, hbegun⟩ := hv
  cases h with
  | create => cases hrun₀
  | edit v run notes tags version hrun =>
      obtain rfl := Option.some.inj (hrun.symm.trans hrun₀)
      exact ⟨⟨_, rfl, hbegun⟩, [], (List.append_nil _).symm, by simp⟩
  | assign v run _ _ _ hrun hstatus | requeue v run _ _ _ hrun hstatus
  | start v run _ _ _ hrun hstatus =>
      obtain rfl := Option.some.inj (hrun.symm.trans hrun₀)
      simp [hstatus, RunStatus.begun] at hbegun
  | requestCancel v run _ _ hrun hstatus =>
      exact ⟨⟨_, rfl, by simp [RunStatus.begun]⟩, _, rfl, by simp⟩
  | finish v run target _ _ _ _ _ _ hrun hstatus =>
      refine ⟨⟨_, rfl, ?_⟩, _, rfl, ?_⟩ <;>
        simp only [List.mem_cons, Prod.mk.injEq, List.not_mem_nil, or_false] at hstatus <;>
        rcases hstatus with ⟨h, rfl⟩ | ⟨h, rfl⟩ | ⟨h, rfl⟩ <;> simp [h, RunStatus.begun]

/-- Who has created the run is not changed. -/
theorem RunStep.createdBy {l : Label} {v v' : RunView} (h : RunStep l v v') {u : Uuid}
    (hv : ∃ run, v.run = some run ∧ run.createdBy = u) :
    ∃ run, v'.run = some run ∧ run.createdBy = u := by
  obtain ⟨run₀, hrun₀, hcreated⟩ := hv
  cases h with
  | create => cases hrun₀
  | edit v run _ _ _ hrun | assign v run _ _ _ hrun | requeue v run _ _ _ hrun
  | start v run _ _ _ hrun | requestCancel v run _ _ hrun
  | finish v run _ _ _ _ _ _ _ hrun =>
      obtain rfl := Option.some.inj (hrun.symm.trans hrun₀)
      exact ⟨_, rfl, hcreated⟩

/-- Only an edit changes the notes and the tags. -/
theorem RunStep.annotations {l : Label} {v v' : RunView} (h : RunStep l v v') (hl : l ≠ .edit)
    {notes : String} {tags : List String}
    (hv : ∃ run, v.run = some run ∧ run.notes = notes ∧ run.tags = tags) :
    ∃ run, v'.run = some run ∧ run.notes = notes ∧ run.tags = tags := by
  obtain ⟨run₀, hrun₀, hannotated⟩ := hv
  cases h with
  | create => cases hrun₀
  | edit => exact absurd rfl hl
  | assign v run _ _ _ hrun | requeue v run _ _ _ hrun
  | start v run _ _ _ hrun | requestCancel v run _ _ hrun
  | finish v run _ _ _ _ _ _ _ hrun =>
      obtain rfl := Option.some.inj (hrun.symm.trans hrun₀)
      exact ⟨_, rfl, hannotated⟩

/-- A run lives on by steps with labels from `L`. -/
abbrev Lives (L : Label → Prop) : RunView → RunView → Prop := Chain RunStep L

namespace Lives

variable {L : Label → Prop} {v v' : RunView}

theorem inv (h : Lives L v v') (hv : v.Inv) : v'.Inv :=
  h.preserves (fun _ _ _ _ hstep => hstep.inv) hv

theorem held {P : Lease → Prop} (h : Lives L v v') (hv : v.Held P) : v'.Held P :=
  h.preserves (fun _ _ _ _ hstep => hstep.held) hv

theorem messages {e : EventEnvelope} (h : Lives L v v') : e ∈ v.messages → e ∈ v'.messages :=
  Chain.preserves (fun _ _ _ _ hstep => hstep.messages) h

/-- A run whose version is as it was is as it was. -/
theorem eq_of_version (h : Lives L v v') (hversion : v'.version = v.version) : v' = v :=
  (h.rank RunView.version fun _ _ _ hstep => hstep.version_lt).resolve_right (by omega)

theorem version_le (h : Lives L v v') : v.version ≤ v'.version := by
  rcases h.rank RunView.version fun _ _ _ hstep => hstep.version_lt with rfl | h <;> omega

/-- If a run is back at its version, it has not moved in between. -/
theorem eq_of_between {v'' : RunView} (h : Lives L v v') (h' : Lives L v' v'')
    (hback : v'' = v) : v' = v := by
  have hle := h.version_le
  have hle' := h'.version_le
  exact h.eq_of_version (by rw [hback] at hle'; omega)

/-- The same row means the same view: the version is part of the row. -/
theorem eq_of_run (h : Lives L v v') (hrun : v'.run = v.run) : v' = v :=
  h.eq_of_version (by simp [RunView.version, hrun])

/-- A run that gets no step of the kind enters no status. -/
theorem entered_eq {target : RunStatus} (h : Lives L v v')
    (hL : ∀ l, L l → l.enters ≠ some target) : v'.entered target = v.entered target := by
  induction h with
  | refl => rfl
  | tail _ hstep ih =>
      obtain ⟨l, hl, hstep⟩ := hstep
      rw [hstep.entered, if_neg (hL l hl), ih, Nat.add_zero]

theorem lease {x : Lease} (h : Lives L v v')
    (hx : x ∈ v.leases) : ∃ x' ∈ v'.leases, x' = { x with releasedAt := x'.releasedAt } := by
  induction h with
  | refl => exact ⟨x, hx, rfl⟩
  | tail _ hstep ih =>
      obtain ⟨l, -, hstep⟩ := hstep
      obtain ⟨x', hx', heq⟩ := ih
      obtain ⟨x'', hx'', heq'⟩ := hstep.lease hx'
      refine ⟨x'', hx'', ?_⟩
      rw [heq', heq]

theorem released {x : Lease} (h : Lives L v v') (hx : x ∈ v.leases)
    (hreleased : x.releasedAt.isSome) :
    ∃ x' ∈ v'.leases, x' = { x with releasedAt := x'.releasedAt } ∧ x'.releasedAt.isSome := by
  induction h with
  | refl => exact ⟨x, hx, rfl, hreleased⟩
  | tail _ hstep ih =>
      obtain ⟨l, -, hstep⟩ := hstep
      obtain ⟨x', hx', heq, hreleased'⟩ := ih
      obtain ⟨x'', hx'', heq', hreleased''⟩ := hstep.released hx' hreleased'
      refine ⟨x'', hx'', ?_, hreleased''⟩
      rw [heq', heq]

theorem closed (h : Lives L v v') (hv : v.Closed) : v'.Closed :=
  h.preserves (fun _ _ _ _ hstep => hstep.closed) hv

theorem added (h : Lives L v v') : ∃ added, v'.transitions = v.transitions ++ added ∧
    ∀ x ∈ added, ∃ l previous target, L l ∧ x = (some previous, some target) ∧
      l.Makes previous target := by
  induction h with
  | refl => exact ⟨[], (List.append_nil _).symm, by simp⟩
  | tail _ hstep ih =>
      obtain ⟨l, hl, hstep⟩ := hstep
      obtain ⟨added, hadded, hmade⟩ := ih
      obtain ⟨more, hmore, hmakes⟩ := hstep.added
      refine ⟨added ++ more, by rw [hmore, hadded, List.append_assoc], fun x hx => ?_⟩
      rcases List.mem_append.mp hx with hx | hx
      · exact hmade x hx
      · obtain ⟨previous, target, heq, hmakes⟩ := hmakes x hx
        exact ⟨l, previous, target, hl, heq, hmakes⟩

theorem begun (h : Lives L v v') (hv : ∃ run, v.run = some run ∧ run.status.begun) :
    (∃ run, v'.run = some run ∧ run.status.begun) ∧
      ∃ added, v'.transitions = v.transitions ++ added ∧ ∀ x ∈ added, x ∈
        [(some running, some cancelling), (some running, some succeeded),
          (some running, some failed), (some cancelling, some cancelled)] := by
  induction h with
  | refl => exact ⟨hv, [], (List.append_nil _).symm, by simp⟩
  | tail _ hstep ih =>
      obtain ⟨l, -, hstep⟩ := hstep
      obtain ⟨hbefore, added, hadded, hworked⟩ := ih
      obtain ⟨hafter, more, hmore, hnext⟩ := hstep.begun hbefore
      refine ⟨hafter, added ++ more, by rw [hmore, hadded, List.append_assoc], fun x hx => ?_⟩
      exact (List.mem_append.mp hx).elim (hworked x) (hnext x)

/-- Who may only create a run leaves a run alone. -/
theorem of_create (h : Lives L v v') (hL : ∀ l, L l → l = .create) : v' = v ∨ v = .absent := by
  induction h with
  | refl => exact .inl rfl
  | tail _ hstep ih =>
      obtain ⟨l, hl, hstep⟩ := hstep
      obtain rfl := hL l hl
      cases hstep with
      | create => exact .inr (ih.elim Eq.symm id)

theorem createdBy {u : Uuid} (h : Lives L v v') (hv : ∃ run, v.run = some run ∧ run.createdBy = u) :
    ∃ run, v'.run = some run ∧ run.createdBy = u :=
  h.preserves (P := fun v => ∃ run, v.run = some run ∧ run.createdBy = u)
    (fun _ _ _ _ hstep => hstep.createdBy) hv

theorem annotations {notes : String} {tags : List String} (h : Lives L v v')
    (hL : ∀ l, L l → l ≠ .edit)
    (hv : ∃ run, v.run = some run ∧ run.notes = notes ∧ run.tags = tags) :
    ∃ run, v'.run = some run ∧ run.notes = notes ∧ run.tags = tags :=
  h.preserves (P := fun v => ∃ run, v.run = some run ∧ run.notes = notes ∧ run.tags = tags)
    (fun l _ _ hl hstep => hstep.annotations (hL l hl)) hv

end Lives

/-! ### What later steps leave as it was -/

/-- What later steps leave of a run as it was. -/
structure Run.Continues (run run' : Run) : Prop where
  origin : run'.parentRunId = run.parentRunId ∧ run'.attemptNumber = run.attemptNumber ∧
    run'.experimentId = run.experimentId ∧ run'.templateId = run.templateId ∧
    run'.priority = run.priority ∧ run'.requestedCpu = run.requestedCpu ∧
    run'.requestedMemoryMb = run.requestedMemoryMb
  started : run.startedAt.isSome → run'.startedAt = run.startedAt
  finished : run.status.finished → run'.status = run.status ∧ run'.completedAt = run.completedAt ∧
    run'.failureCode = run.failureCode ∧ run'.failureMessage = run.failureMessage ∧
    run'.assignedWorkerId = run.assignedWorkerId

theorem Run.Continues.refl (run : Run) : run.Continues run :=
  ⟨by simp, fun _ => rfl, fun _ => by simp⟩

theorem Run.Continues.trans {run run' run'' : Run} (h : run.Continues run') (h' : run'.Continues run'') :
    run.Continues run'' where
  origin := by
    obtain ⟨h₁, h₂, h₃, h₄, h₅, h₆, h₇⟩ := h.origin
    obtain ⟨h₁', h₂', h₃', h₄', h₅', h₆', h₇'⟩ := h'.origin
    exact ⟨h₁'.trans h₁, h₂'.trans h₂, h₃'.trans h₃, h₄'.trans h₄, h₅'.trans h₅, h₆'.trans h₆,
      h₇'.trans h₇⟩
  started hstarted := by
    have hsame := h.started hstarted
    exact (h'.started (hsame ▸ hstarted)).trans hsame
  finished hfinished := by
    obtain ⟨h₁, h₂, h₃, h₄, h₅⟩ := h.finished hfinished
    obtain ⟨h₁', h₂', h₃', h₄', h₅'⟩ := h'.finished (h₁ ▸ hfinished)
    exact ⟨h₁'.trans h₁, h₂'.trans h₂, h₃'.trans h₃, h₄'.trans h₄, h₅'.trans h₅⟩

theorem RunStep.continues {l : Label} {v v' : RunView} (h : RunStep l v v') (hv : v.Inv)
    {run : Run} (hrun : v.run = some run) :
    ∃ run', v'.run = some run' ∧ run.Continues run' := by
  have hunstarted (hstatus : run.status = scheduling) : run.startedAt.isSome = false := by
    simpa [hstatus, RunStatus.begun] using (hv.present run hrun).startedAt
  cases h with
  | create => simp [RunView.absent] at hrun
  | edit v run₀ notes tags version hrun₀ =>
      obtain rfl := Option.some.inj (hrun₀.symm.trans hrun)
      exact ⟨_, rfl, by simp, fun _ => rfl, fun _ => by simp⟩
  | start v run₀ lease now version hrun₀ hstatus =>
      obtain rfl := Option.some.inj (hrun₀.symm.trans hrun)
      refine ⟨_, rfl, by simp, fun hstarted => ?_, fun hfinished => ?_⟩
      · simp [hunstarted hstatus] at hstarted
      · simp [hstatus, RunStatus.finished] at hfinished
  | assign v run₀ _ _ _ hrun₀ hstatus | requeue v run₀ _ _ _ hrun₀ hstatus
  | requestCancel v run₀ _ _ hrun₀ hstatus =>
      obtain rfl := Option.some.inj (hrun₀.symm.trans hrun)
      refine ⟨_, rfl, by simp, fun _ => rfl, fun hfinished => ?_⟩
      simp [hstatus, RunStatus.finished] at hfinished
  | finish v run₀ target _ _ _ _ _ _ hrun₀ hstatus =>
      obtain rfl := Option.some.inj (hrun₀.symm.trans hrun)
      refine ⟨_, rfl, by simp, fun _ => rfl, fun hfinished => ?_⟩
      simp only [List.mem_cons, Prod.mk.injEq, List.not_mem_nil, or_false] at hstatus
      rcases hstatus with ⟨h, -⟩ | ⟨h, -⟩ | ⟨h, -⟩ <;> simp [h, RunStatus.finished] at hfinished

theorem Lives.continues {L : Label → Prop} {v v' : RunView} (h : Lives L v v') (hv : v.Inv)
    {run : Run} (hrun : v.run = some run) :
    ∃ run', v'.run = some run' ∧ run.Continues run' := by
  induction h with
  | refl => exact ⟨run, hrun, .refl run⟩
  | tail hchain hstep ih =>
      obtain ⟨l, -, hstep⟩ := hstep
      obtain ⟨run', hrun', hcontinues⟩ := ih
      obtain ⟨run'', hrun'', hcontinues'⟩ := hstep.continues (Lives.inv hchain hv) hrun'
      exact ⟨run'', hrun'', hcontinues.trans hcontinues'⟩

/-- A stored run stays stored. -/
theorem Lives.run_isSome {L : Label → Prop} {v v' : RunView} (h : Lives L v v') (hrun : v.run.isSome) :
    v'.run.isSome :=
  h.preserves (P := fun v => v.run.isSome) (fun _ _ _ _ hstep _ => hstep.run_isSome) hrun

end Runscope
