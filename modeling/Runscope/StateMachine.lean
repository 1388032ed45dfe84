import Runscope.Program

/-!
The state machine of a run (`state_machine.py`).
-/

namespace Runscope

open Transact RunStatus

/-- `VALID_TRANSITIONS` -/
def validTransitions : RunStatus → List RunStatus
  | draft => [queued]
  | queued => [scheduling]
  | scheduling => [running, queued]
  | running => [succeeded, failed, cancelling]
  | cancelling => [cancelled]
  | failed => [retrying]
  | retrying => [queued]
  | succeeded => []
  | cancelled => []

def validateTransition (previous target : RunStatus) : Except Exc Unit :=
  if target ∈ validTransitions previous then .ok ()
  else
    .error (.app {
      code := "run_invalid_transition"
      message := s!"Run cannot transition from {previous.value} to {target.value}"
      statusCode := 409
      details := [("previous_status", .str previous.value),
        ("requested_status", .str target.value)] })

/-- What `transition_run` assigns to the run. -/
def Run.transitioned (run : Run) (target : RunStatus) (now : Time) : Run :=
  { run with
    status := target
    queuedAt := if target = queued ∧ run.queuedAt = none then some now else run.queuedAt
    startedAt := if target = running then some now else run.startedAt
    completedAt :=
      if target ∈ [succeeded, failed, cancelled] then some now else run.completedAt }

/-- The event `transition_run` adds; the server fills in `created_at`. -/
def Run.transitionEvent (run : Run) (target : RunStatus) (eventType : String) (metadata : Record) :
    RunEvent where
  runId := run.id
  eventType := eventType
  previousStatus := some run.status
  newStatus := some target
  eventMetadata := metadata
  createdAt := 0

@[simp] theorem Run.transitioned_id (run : Run) (target : RunStatus) (now : Time) :
    (run.transitioned target now).id = run.id := rfl

@[simp] theorem Run.transitioned_version (run : Run) (target : RunStatus) (now : Time) :
    (run.transitioned target now).version = run.version := rfl

/-- Returns the changed run and the event to be added. -/
def transitionRun (pt : Point) (run : Run) (target : RunStatus) (eventType : String)
    (metadata : Record) : Program (Run × RunEvent) := do
  Prog.ofExcept (validateTransition run.status target)
  let now ← datetimeNow pt
  .ret (run.transitioned target now, run.transitionEvent target eventType metadata)

end Runscope
