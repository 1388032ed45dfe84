import Runscope.StateMachine
import Runscope.Templates
import Runscope.WorkerRegistry

/-!
Creating and executing runs (`run_execution.py`).

Live events are left out: the publisher a worker passes swallows every
exception and nothing reads them back from the database.
-/

namespace Runscope

open Transact

def findTemplate (key version : String) : Program TrainingTemplate := do
  let found ← session.select {} fun db =>
    db.templates.rows.find? fun t => t.key = key ∧ t.version = version ∧ t.enabled
  match found with
  | none =>
    .raise (.app {
      code := "template_not_found"
      message := "The requested training template or version is not available"
      statusCode := 404
      details := [] })
  | some template =>
    match registryGet template.key template.version with
    | .error _ =>
      .raise (.app {
        code := "template_unregistered"
        message := "The template metadata is not backed by trusted executable code"
        statusCode := 409
        details := [] })
    | .ok _ => .ret template

def validateParameters (rt : Runtime) (template : TrainingTemplate) (values : Record) :
    Except Exc (Parameters × Record) := do
  let definition ← registryGet template.key template.version
  match definition.validateParameters rt values with
  | none =>
    .error (.app {
      code := "invalid_template_parameters"
      message := "One or more template parameters are invalid"
      statusCode := 422
      details := [("validation_errors", .nested (rt.errors values))] })
  | some validated => .ok (validated, validated.modelDump)

/-- An `OutboxMessage` around a new `EventEnvelope`; the server fills in
`created_at`. -/
def newMessage (settings : Settings) (eventType : String) (correlationId : CorrelationId)
    (runId : Uuid) (workerId : Option Uuid) (payload : Record) : Program OutboxMessage := do
  let eventId ← uuid4 {}
  let occurredAt ← datetimeNow {}
  let id ← uuid4 {}
  .ret {
    id := id
    topic := settings.brokerTopic
    partitionKey := runId
    envelope := {
      eventId := eventId
      eventVersion := 1
      eventType := eventType
      occurredAt := occurredAt
      correlationId := correlationId
      runId := some runId
      workerId := workerId
      payload := payload }
    createdAt := 0
    publishedAt := none
    publishAttempts := 0
    lastError := none }

/-- `list(dict.fromkeys(tag.strip().lower() for tag in tags if tag.strip()))` -/
def normalizedTags (rt : Runtime) (tags : List String) : List String :=
  ((tags.filter fun tag => rt.strip tag ≠ "").map fun tag => rt.lower (rt.strip tag)).eraseDups

/-- The rows a new run's parameters are stored in. -/
def parameterRows (runId : Uuid) (parameters : Record) : List Write :=
  parameters.map fun x => .insertParameter ⟨runId, x.1, x.2⟩

theorem parameterRows_stamp (i : Input) (runId : Uuid) (parameters : Record) :
    (parameterRows runId parameters).map (Write.stamp i) = parameterRows runId parameters := by
  rw [parameterRows, List.map_map]
  rfl

/-- `{parameter.name: parameter.value for parameter in …}` -/
def Db.storedParameters (db : Db) (runId : Uuid) : Record :=
  Record.update [] ((db.parameters.filter fun p => p.runId = runId).map fun p => (p.name, p.value))

def createQueuedRun (rt : Runtime) (settings : Settings) (body : RunCreate) (createdBy : Uuid)
    (correlationId : RequestId) : Program Run := do
  let template ← findTemplate body.templateKey body.templateVersion
  let (_, parameters) ← Prog.ofExcept (validateParameters rt template body.parameters)
  let id ← uuid4 {}
  let draft : Run := {
    id := id
    experimentId := body.experimentId
    templateId := template.id
    status := .draft
    priority := body.priority
    requestedCpu := body.requestedCpu
    requestedMemoryMb := body.requestedMemoryMb
    assignedWorkerId := none
    attemptNumber := 1
    parentRunId := none
    createdBy := createdBy
    createdAt := 0
    queuedAt := none
    startedAt := none
    completedAt := none
    failureCode := none
    failureMessage := none
    notes := body.notes
    tags := normalizedTags rt body.tags
    version := 1 }
  Prog.ofExcept (sendText draft.notes)
  session.flush {} [.insertRun draft]
  let (run, event) ← transitionRun {} draft .queued "run.queued" []
  let message ← newMessage settings "run.submitted" (.request correlationId) run.id none
    [("template_key", .str template.key), ("template_version", .str template.version),
      ("requested_cpu", .num run.requestedCpu), ("requested_memory_mb", .int run.requestedMemoryMb),
      ("priority", .int run.priority)]
  session.commit {}
    (parameterRows run.id parameters ++ [.updateRun run, .insertEvent event, .insertOutbox message])
  session.refreshRun {} run

/-- The lines every ending of an execution shares: the transition, the
release of the lease, the commit. `added` are the rows added to the session
before. -/
def finishRun (run : Run) (target : RunStatus) (eventType : String) (metadata : Record)
    (added : List Write) : Program Run := do
  let (run, event) ← transitionRun {} run target eventType metadata
  let (_, _, pending) ← releaseAllocation run.id (added ++ [.updateRun run, .insertEvent event]) []
  session.commit { worker := updatedWorker pending } pending
  .ret run.flushed

/-- A run whose failure is recorded. -/
def Run.withFailure (run : Run) (code message : String) : Run :=
  { run with failureCode := some code, failureMessage := some message }

/-- The artifact loop: stores each object and returns the rows to be added. The
first row added begins a transaction, if the session has not `begun` one. A put
that fails is returned with what the handler finds. -/
def putArtifacts (rt : Runtime) (runId : Uuid) (begun : Bool) :
    List GeneratedArtifact → Program (Except (Bool × Exc) (List Write))
  | [] => .ret (.ok [])
  | generated :: rest => do
    let input ← Prog.stmt { begun := begun } (.call (.put (runId, generated.name) generated.data))
      fun r => r.input
    match input.failure with
    | some exc => .ret (.error (begun, exc))
    | none =>
      let added ← putArtifacts rt runId true rest
      .ret (added.map fun rows =>
        .insertArtifact {
          runId := runId
          name := generated.name
          storageKey := (runId, generated.name)
          mimeType := generated.mimeType
          sizeBytes := generated.data.size
          checksum := rt.sha256 generated.data } :: rows)

/-- The rows for the artifacts of a result, once all are stored. -/
def artifactRows (rt : Runtime) (runId : Uuid) (artifacts : List GeneratedArtifact) : List Write :=
  artifacts.map fun generated => .insertArtifact {
    runId := runId
    name := generated.name
    storageKey := (runId, generated.name)
    mimeType := generated.mimeType
    sizeBytes := generated.data.size
    checksum := rt.sha256 generated.data }

/-- `enumerate(result.logs, start=1)` -/
def logRows (runId : Uuid) (logs : List (String × String)) : List Write :=
  logs.zipIdx.map fun x => .insertLog ⟨runId, x.2 + 1, x.1.1, x.1.2⟩

def metricRows (runId : Uuid) (metrics : List (String × ℚ)) : List Write :=
  metrics.map fun x => .insertMetric ⟨runId, x.1, x.2, 1⟩

/-- The handler of the `try` in `execute_existing_run`, before the last flush.
A rollback expires `run` if a transaction has `begun`, and reading `run.id`
then needs a connection outside of `await`. -/
def executeFailed (run : Run) (begun : Bool) (exc : Exc) : Program Run := do
  session.rollback {}
  if begun then .raise (.other "MissingGreenlet")
  else
    match ← session.getRun {} run.id with
    | none => .raise exc
    | some failedRun =>
      let failedRun :=
        match exc with
        | .artifactStorage _ =>
          failedRun.withFailure "artifact_upload_failed" "Artifact storage remained unavailable"
        | _ => failedRun.withFailure "template_execution_failed" "Trusted template execution failed"
      finishRun failedRun .failed "run.failed" [] []

/-- That `try`, each of its failures with what the handler makes of it. -/
def executeTemplate (rt : Runtime) (definition : TemplateDefinition) (run : Run) : Program Run := do
  if definition.executes then
    let input ← Prog.stmt {} (.call (.execute run.id)) fun r => r.input
    match input.failure with
    | some exc => executeFailed run false exc
    | none =>
      let result := input.result
      let begun := ¬ (result.logs = [] ∧ result.metrics = [])
      match ← putArtifacts rt run.id begun result.artifacts with
      | .error failure => executeFailed run failure.1 failure.2
      | .ok artifacts =>
        (finishRun run .succeeded "run.succeeded"
          [("metric_count", .int result.metrics.length),
            ("artifact_count", .int result.artifacts.length)]
          (logRows run.id result.logs ++ metricRows run.id result.metrics ++ artifacts)).tryCatch
            -- a failed flush has expired `run`, so the log line, which names it, raises
            fun _ => .raise (.other "PendingRollbackError")
  else executeFailed run false (.runtime "Template has no registered executor")

/-- The checkpoints of `execute_slow_run`. The result tells whether the run
was cancelled at one of them. -/
def slowCheckpoints (run : Run) (totalSteps : ℕ) : List ℕ → Program (Bool × Run)
  | [] => .ret (false, run)
  | step :: steps => do
    let run ← session.refreshRun { records := some run.id } run
    if run.status = .cancelling then
      let run ← finishRun run .cancelled "run.cancelled" []
        [.insertLog ⟨run.id, step + 1, "INFO", "Cancellation acknowledged at a safe checkpoint"⟩]
      let run ← session.refreshRun {} run
      .ret (true, run)
    else
      let progress : ℚ := step / totalSteps
      session.commit { records := some run.id }
        [.insertLog ⟨run.id, step + 1, "INFO", "Demonstration progress " ++ percent progress⟩,
          .insertMetric ⟨run.id, "progress", progress, step⟩]
      slowCheckpoints run totalSteps steps

/-- What `execute_slow_run` does after its loop. -/
def finishSlowRun (rt : Runtime) (run : Run) (parameters : SlowDemoParameters) (totalSteps : ℕ) :
    Program Run := do
  if parameters.failIntentionally then
    let run := run.withFailure "intentional_demo_failure"
      "The slow demonstration was configured to fail"
    let run ← finishRun run .failed "run.failed"
      [("retryable", .bool true), ("intentional", .bool true)] []
    session.refreshRun {} run
  else
    let data := progressJson totalSteps
    let input ← Prog.stmt {} (.call (.put (run.id, "progress.json") data)) fun r => r.input
    match input.failure with
    | some (.artifactStorage _) =>
      let run := run.withFailure "artifact_upload_failed" "Artifact storage remained unavailable"
      let run ← finishRun run .failed "run.failed"
        [("retryable", .bool true), ("reason", .str "artifact_storage")] []
      session.refreshRun {} run
    | some exc => .raise exc
    | none =>
      let run ← finishRun run .succeeded "run.succeeded"
        [("metric_count", .int totalSteps), ("artifact_count", .int 1)]
        [.insertArtifact {
          runId := run.id
          name := "progress.json"
          storageKey := (run.id, "progress.json")
          mimeType := "application/json"
          sizeBytes := data.size
          checksum := rt.sha256 data }]
      session.refreshRun {} run

/-- The worker itself is the workload of this template, so its execution
starts here. -/
def executeSlowRun (rt : Runtime) (run : Run) (parameters : SlowDemoParameters) : Program Run := do
  let totalSteps := parameters.totalSteps
  Prog.stmt { records := some run.id } (.call (.execute run.id)) fun _ => ()
  session.commit { records := some run.id }
    [.insertLog ⟨run.id, 1, "INFO",
      s!"Started bounded progress demonstration with {totalSteps} steps"⟩]
  let (cancelled, run) ← slowCheckpoints run totalSteps (List.range' 1 totalSteps)
  if cancelled then .ret run else finishSlowRun rt run parameters totalSteps

/-- What `execute_existing_run` does once the run is `RUNNING`. -/
def executeStarted (rt : Runtime) (run : Run) (template : TrainingTemplate)
    (validated : Parameters) : Program Run := do
  let definition ← Prog.ofExcept (registryGet template.key template.version)
  if template.key = "slow-demonstration" then
    match validated with
    | .slowDemo parameters => executeSlowRun rt run parameters
    | .classification _ => .raise (.runtime "Slow template parameters were not validated")
  else
    let run ← executeTemplate rt definition run
    session.refreshRun {} run

/-- Whether the event's claims on the lease hold. -/
def ResourceAllocation.claimedBy (allocation : ResourceAllocation)
    (expectedWorkerId leaseToken : Option Uuid) : Bool :=
  (expectedWorkerId = none ∨ expectedWorkerId = some allocation.workerId) ∧
    (leaseToken = none ∨ leaseToken = some allocation.leaseToken)

def executeExistingRun (rt : Runtime) (runId : Uuid) (expectedWorkerId leaseToken : Option Uuid) :
    Program (Option Run) := do
  match ← session.getRun {} runId with
  | none => .ret none
  | some run =>
    if run.status = .scheduling then
      let found ← session.select {} fun db => db.activeAllocations.find? fun a => a.runId = run.id
      match found with
      | none => .ret (some run)
      | some allocation =>
        if allocation.claimedBy expectedWorkerId leaseToken then
          match ← session.select {} fun db => db.templates.get? run.templateId with
          | none => .raise (.runtime "Run references a missing training template")
          | some template =>
            let parameters ← session.select {} fun db => db.storedParameters run.id
            let (validated, _) ← Prog.ofExcept (validateParameters rt template parameters)
            let (run, event) ← transitionRun {} run .running "run.started"
              [("worker_id", .uuid allocation.workerId), ("lease_id", .uuid allocation.id)]
            session.commit {} [.updateRun run, .insertEvent event]
            let run ← executeStarted rt run.flushed template validated
            .ret (some run)
        else .ret (some run)
    else .ret (some run)

end Runscope
