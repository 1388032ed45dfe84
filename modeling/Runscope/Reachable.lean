import Runscope.ExecutionSound
import Runscope.OutboxSound
import Runscope.SchedulerSound

/-!
Every session keeps its contract, so the invariant holds in every reachable
world.

A schedule is `Undisturbed` in a mode if its steps leave alone what the mode
makes other sessions rely on; with nothing in force, every schedule is.
-/

namespace Runscope

open Transact RunStatus

section Worlds

variable {m : Mode} {rt : Runtime} {settings : Settings} {templates : Table TrainingTemplate.id}
  {w w' : Cluster} {a : Action Kind Input}

theorem code_holds (κ : Kind) (p : Platform) (hI : Invariant m p) (hadmits : κ.admits p) :
    Holds m κ (fun _ _ _ => True) (κ.code m.rt settings) .fresh p := by
  have hQ {α : Type} (x : Except Exc α) (t : Session) (p : Platform) :
      Then m κ (fun _ _ _ => True) (fun _ => Prog.ret ()) x t p := by
    cases x <;> trivial
  cases κ with
  | createRun body createdBy correlationId => exact .bind (createQueuedRun_holds hQ rfl)
  | retryRun runId body user correlationId => exact .bind (retryRun_holds hQ rfl)
  | cancelRun runId user correlationId => exact .bind (cancelRun_holds hQ rfl)
  | updateRunMetadata runId body user => exact .bind (updateRunMetadata_holds hQ rfl)
  | registerWorker name totals => exact .bind (registerWorker_holds hQ rfl)
  | heartbeat workerId => exact .bind (heartbeatWorker_holds hQ rfl)
  | schedule => exact .bind (scheduleOnce_holds hQ rfl)
  | processEvent event workerId =>
      exact .bind (processEvent_holds hQ hI rfl (fun _ => rfl) hadmits)
  | dispatchBatch limit maxAttempts => exact .bind (dispatchBatch_holds hQ rfl)

/-- The step leaves the workers alone that another session has loaded to write
their capacity, or their totals where that session will count under a lock,
finishes no run that another session still records, and is not of a second
executor. -/
def Undisturbed (m : Mode) (w : Cluster) (a : Action Kind Input) (w' : Cluster) : Prop :=
  ∀ pid i, a = .run pid i → ∀ j q pt, w.procs[j]? = some q → j ≠ pid → q.prog.point? = some pt →
    (m.accounting → q.session.began.isSome → ∀ id, pt.worker = some id →
      w'.state.db.workerView id = w.state.db.workerView id) ∧
    (m.accounting → q.session.began.isSome → ∀ id, pt.totals = some id →
      (w'.state.db.workerView id).totals = (w.state.db.workerView id).totals) ∧
    (m.telemetry → ∀ r, pt.records = some r → w'.state.db.finished r → w.state.db.finished r) ∧
    (m.exclusive → ∀ p r, w.procs[pid]? = some p → 0 < startsOf r q.session.committed →
      startsOf r p.session.committed = 0)

theorem compatible : Compatible (system m.rt settings) (Invariant m) (contract m) (Undisturbed m) := by
  intro w w' pid i p pt hok _ hallowed hp _ hguar j q pt' hq hj hpt'
  obtain ⟨hloaded, htotals, hrecords, hsole⟩ := hallowed pid i rfl j q pt' hq hj hpt'
  refine ⟨fun r => (hguar.runs r).lives.mono fun _ _ => trivial, hloaded, htotals,
    fun hm id hid => ?_, hrecords, hguar.templates, hguar.parameters, fun hm r hr => ?_⟩
  · refine (hguar.workers hm id).resolve_right fun hmine => ?_
    exact hok.disjoint pid j p q hp hq (Ne.symm hj) _ hmine hid
  · exact (hguar.own r).resolve_right (by simp [hsole hm p r hp hr])

/-- Nothing is stored about a run that does not exist. -/
theorem invariant_empty : Invariant m (.empty templates) where
  runs _ := RunView.Inv.absent_view
  tokens := List.nodup_nil
  addressed := nofun
  topic := nofun
  capacity _ _ := ⟨fun _ => rfl, nofun⟩
  parented _ _ h := by cases h
  parameterized _ _ h := by cases h
  parameters := nofun
  artifacts _ := nofun

/-- Worlds the system can reach from an empty database. -/
abbrev Reachable (rt : Runtime) (settings : Settings) (templates : Table TrainingTemplate.id) :
    Cluster → Prop :=
  Reach (system rt settings) (fun _ _ _ => True) (.initial (.empty templates))

/-- Nothing conditional is in force. -/
def Mode.plain (rt : Runtime) : Mode := ⟨rt, False, False, False⟩

theorem undisturbed_plain : Undisturbed (.plain rt) w a w' :=
  fun _ _ _ _ _ _ _ _ _ => ⟨False.elim, False.elim, False.elim, False.elim⟩

theorem ok_of_undisturbed
    (h : Reach (system m.rt settings) (Undisturbed m) (.initial (.empty templates)) w) :
    w.Ok (system m.rt settings) (Invariant m) (contract m) :=
  Reach.ok (fun κ p => code_holds κ p) compatible invariant_empty h

theorem Reachable.ok (h : Reachable rt settings templates w) :
    w.Ok (system rt settings) (Invariant (.plain rt)) (contract (.plain rt)) :=
  Reach.ok (fun κ p => code_holds κ p)
    (fun w w' pid i p pt hok hstep _ => compatible w w' pid i p pt hok hstep undisturbed_plain)
    invariant_empty h

theorem Reachable.inv (h : Reachable rt settings templates w) : Invariant (.plain rt) w.state :=
  h.ok.inv

theorem Reachable.step (h : Reachable rt settings templates w)
    (hstep : w.step (system rt settings) a = some w') : Reachable rt settings templates w' :=
  Reach.step h hstep trivial

/-- What a step does to a run is what its session may do. -/
theorem Reachable.lives (h : Reachable rt settings templates w)
    (hstep : w.step (system rt settings) a = some w') :
    w'.state = w.state ∨ ∃ pid i p, a = .run pid i ∧ w.procs[pid]? = some p ∧
      ∀ r, Lives (p.kind.allows r) (w.state.db.runView r) (w'.state.db.runView r) := by
  rcases h.ok.guar hstep with heq | ⟨pid, i, p, pt, rfl, hp, -, hguar⟩
  · exact .inl heq
  · exact .inr ⟨pid, i, p, rfl, hp, fun r => (hguar.runs r).lives⟩

/-- Runs live on from any reachable world. -/
theorem Reachable.later (h : Reachable rt settings templates w)
    (h' : Reach (system rt settings) (fun _ _ _ => True) w w') :
    Reachable rt settings templates w' ∧ Later w.state w'.state := by
  induction h' with
  | refl => exact ⟨h, .refl _⟩
  | step _ hstep _ ih =>
      obtain ⟨hreach, hlater⟩ := ih
      refine ⟨hreach.step hstep, ?_⟩
      rcases hreach.lives hstep with heq | ⟨pid, i, p, -, -, hlives⟩
      · rwa [heq]
      · exact hlater.trans fun r => (hlives r).mono fun _ _ => trivial

end Worlds

/-! ### A small cluster

Concrete schedules on which the results below are tried out: the conversions
of the runtime accept values of the field's own type only.
-/

namespace Demo

def runtime : Runtime where
  lower := id
  sqlLower := id
  sha256 data := toString data.size
  toInt
    | .int n => some n
    | _ => none
  toFloat
    | .num q => some q
    | _ => none
  toBool
    | .bool b => some b
    | _ => none
  errors _ := ""

def settings : Settings := ⟨"runscope.events", 60, 30⟩

def templates : Table TrainingTemplate.id where
  rows := [⟨1, "sklearn-iris-classification", "1.0.0", true⟩,
    ⟨2, "slow-demonstration", "1.0.0", true⟩]
  nodup := by decide

theorem notes_fit : "".length ≤ 4000 := by decide

theorem tags_fit : ([] : List String).length ≤ 20 := by decide

/-- A run of the given template with default parameters. -/
def submission (templateKey : String)
    (templateKey_length : 1 ≤ templateKey.length ∧ templateKey.length ≤ 100) : RunCreate where
  experimentId := 7
  templateKey := templateKey
  templateVersion := "1.0.0"
  parameters := []
  requestedCpu := 1
  requestedMemoryMb := 512
  priority := 0
  notes := ""
  tags := []
  templateKey_length := templateKey_length
  templateVersion_length := by decide
  requestedCpu_bounds := by norm_num
  requestedMemoryMb_bounds := by decide
  priority_bounds := by decide
  notes_length := notes_fit
  tags_length := tags_fit

def requestId : RequestId := ⟨"demo", by decide, by decide⟩

def totals : WorkerTotals := ⟨4, 8192, by norm_num, by decide⟩

/-- At instant `n` the clock shows `n`, and `n` is the next UUID. -/
def input (n : ℕ) : Input := ⟨n, n, none, false, ⟨[], [], []⟩⟩

/-- `count` statements of session `pid`, from instant `start` on. -/
def steps (pid start count : ℕ) : List (Action Kind Input) :=
  (List.range' start count).map fun n => .run pid (input n)

/-- A worker registers, a run is submitted and assigned. -/
def assigned (body : RunCreate) : List (Action Kind Input) :=
  .spawn (.registerWorker "worker" totals) :: steps 0 100 7 ++
    .spawn (.createRun body 5 requestId) :: steps 1 200 10 ++
    .spawn .schedule :: steps 2 300 19

/-- What the scheduler announces then. -/
def assignment : EventEnvelope where
  eventId := 314
  eventVersion := 1
  eventType := "run.assigned"
  occurredAt := 315
  correlationId := .scheduler 313
  runId := some 201
  workerId := some 102
  payload := [("lease_token", .uuid 310), ("requested_cpu", .num 1),
    ("requested_memory_mb", .int 512)]

/-- The announcement is published, and `count` statements of its delivery
have run. -/
def delivered (body : RunCreate) (count : ℕ) : List (Action Kind Input) :=
  assigned body ++ .spawn (.dispatchBatch 10 5) :: steps 3 400 7 ++
    .spawn (.processEvent assignment none) :: steps 4 500 count

def result : TemplateResult where
  metrics := [("accuracy", 1)]
  logs := [("INFO", "trained")]
  artifacts := [⟨"model.txt", "text/plain", "model".toUTF8⟩]

/-- The delivery executes the template, which has a result, and finishes. -/
def executed : List (Action Kind Input) :=
  delivered (submission "sklearn-iris-classification" (by decide)) 8 ++
    .run 4 { input 508 with result := result } :: steps 4 509 13

def slow : RunCreate := submission "slow-demonstration" (by decide)

def classification : RunCreate := submission "sklearn-iris-classification" (by decide)

/-- The executor of a run is lost. -/
def lost : List (Action Kind Input) := delivered slow 12 ++ [.kill 4]

/-- The scheduler finds the lease expired. -/
def salvage : List (Action Kind Input) := .spawn .schedule :: steps 5 100000000 19

def exec (as : List (Action Kind Input)) : Option Cluster :=
  (World.initial (.empty templates)).exec (system runtime settings) as

/-- A schedule that goes through leads to a reachable world. -/
theorem reachable {as : List (Action Kind Input)} {P : Cluster → Bool} (h : (exec as).any P) :
    ∃ w, Reachable runtime settings templates w ∧ P w := by
  obtain ⟨w, hw, hP⟩ := (Option.any_eq_true _ _).mp h
  exact ⟨w, Reach.refl.of_exec hw, hP⟩

/-- The run of `assigned` is scheduled. -/
theorem scheduled : ∃ w, Reachable runtime settings templates w ∧ ∃ run,
    w.state.db.runs.get? 201 = some run ∧ run.status = scheduling := by
  have h : (exec (assigned slow)).any fun w =>
      (w.state.db.runs.get? 201).any fun run => run.status = scheduling := by decide +kernel
  obtain ⟨w, hw, hrun⟩ := reachable h
  obtain ⟨run, hget, hstatus⟩ := (Option.any_eq_true _ _).mp hrun
  exact ⟨w, hw, run, hget, by simpa using hstatus⟩

end Demo

end Runscope
