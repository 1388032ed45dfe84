import Runscope.RunExecution

/-!
The commands of the runs API (`api/runs.py`).
-/

namespace Runscope

open Transact

def getRunOr404 (runId : Uuid) : Program Run := do
  match ← session.getRun {} runId with
  | none =>
    .raise (.app {
      code := "run_not_found"
      message := "Run was not found"
      statusCode := 404
      details := [] })
  | some run => .ret run

def ensureRunControl (user : User) (run : Run) : Except Exc Unit :=
  if user.role ≠ .administrator ∧ run.createdBy ≠ user.id then
    .error (.app {
      code := "run_control_denied"
      message := "Researchers may control only runs they created"
      statusCode := 403
      details := [] })
  else .ok ()

/-- `add_outbox_event` -/
def outboxEvent (settings : Settings) (run : Run) (eventType : String) (payload : Record)
    (correlationId : RequestId) : Program OutboxMessage :=
  newMessage settings eventType (.request correlationId) run.id none payload

def cancelRun (settings : Settings) (runId : Uuid) (user : User) (correlationId : RequestId) :
    Program Run := do
  let run ← getRunOr404 runId
  Prog.ofExcept (ensureRunControl user run)
  if run.status = .running then
    let (run, event) ← transitionRun {} run .cancelling "run.cancel.requested" []
    let message ← outboxEvent settings run "run.cancel.requested"
      [("requested_by", .uuid user.id)] correlationId
    session.commit {} [.updateRun run, .insertEvent event, .insertOutbox message]
    session.refreshRun {} run
  else
    .raise (.app {
      code := "run_not_cancellable"
      message := "Only a running run can be cancelled"
      statusCode := 409
      details := [("status", .str run.status.value)] })

def retryRun (rt : Runtime) (settings : Settings) (runId : Uuid) (body : RunRetryRequest)
    (user : User) (correlationId : RequestId) : Program Run := do
  let parent ← getRunOr404 runId
  Prog.ofExcept (ensureRunControl user parent)
  if parent.status = .failed then
    match ← session.select {} fun db => db.templates.get? parent.templateId with
    | none =>
      .raise (.app {
        code := "template_not_found"
        message := "Training template was not found"
        statusCode := 404
        details := [] })
    | some template =>
      let stored ← session.select {} fun db => db.storedParameters parent.id
      let (_, parameters) ← Prog.ofExcept
        (validateParameters rt template (stored.update body.parameterOverrides))
      let id ← uuid4 {}
      let draft : Run := {
        id := id
        experimentId := parent.experimentId
        templateId := parent.templateId
        status := .draft
        priority := parent.priority
        requestedCpu := parent.requestedCpu
        requestedMemoryMb := parent.requestedMemoryMb
        assignedWorkerId := none
        attemptNumber := parent.attemptNumber + 1
        parentRunId := some parent.id
        createdBy := user.id
        createdAt := 0
        queuedAt := none
        startedAt := none
        completedAt := none
        failureCode := none
        failureMessage := none
        notes := parent.notes
        tags := parent.tags
        version := 1 }
      session.flush {} [.insertRun draft]
      let (child, event) ← transitionRun {} draft .queued "run.queued"
        [("retry_of", .uuid parent.id)]
      let message ← outboxEvent settings child "run.submitted"
        [("template_key", .str template.key), ("template_version", .str template.version),
          ("retry_of", .uuid parent.id), ("attempt_number", .int child.attemptNumber)] correlationId
      session.commit {} (parameterRows child.id parameters ++
        [.updateRun child, .insertEvent event, .insertOutbox message])
      session.refreshRun {} child
  else
    .raise (.app {
      code := "run_not_retryable"
      message := "Only a failed run can be retried"
      statusCode := 409
      details := [("status", .str parent.status.value)] })

def updateRunMetadata (rt : Runtime) (runId : Uuid) (body : RunMetadataUpdate) (user : User) :
    Program Run := do
  let run ← getRunOr404 runId
  Prog.ofExcept (ensureRunControl user run)
  let normalized := (body.tags.filter fun tag => rt.strip tag ≠ "").map fun tag =>
    rt.lower (rt.strip tag)
  if normalized.any fun tag => 40 < tag.length then
    .raise (.app {
      code := "invalid_tags"
      message := "Tags must be at most 40 characters"
      statusCode := 422
      details := [] })
  else
    let edited := { run with notes := body.notes, tags := normalized.eraseDups }
    Prog.ofExcept (if edited.notes = run.notes then .ok () else sendText edited.notes)
    let event : RunEvent := {
      runId := run.id
      eventType := "run.metadata.updated"
      previousStatus := none
      newStatus := none
      eventMetadata := [("updated_by", .uuid user.id)]
      createdAt := 0 }
    -- equal values are no change, and an unchanged row is not updated
    session.commit {}
      ((if edited = run then [] else [.updateRun edited]) ++ [.insertEvent event])
    session.refreshRun {} edited

end Runscope
