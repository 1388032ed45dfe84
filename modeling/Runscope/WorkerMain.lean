import Runscope.RunExecution

/-!
The handling of one message by a worker (`runscope_worker/main.py`).
-/

namespace Runscope

open Transact

def consumerNamePrefix : String := "trusted-template-worker-v2"

/-- `UUID(str(value)) if value else None` for `event.payload.get("lease_token")` -/
def EventEnvelope.leaseToken (event : EventEnvelope) : Except Exc (Option Uuid) :=
  match event.payload.get? "lease_token" with
  | none => .ok none
  | some (.uuid token) => .ok (some token)
  | some value => if value.truthy then .error (.other "ValueError") else .ok none

def processAssignment (rt : Runtime) (event : EventEnvelope) (workerId : Option Uuid) :
    Program Bool := do
  match event.runId, event.workerId with
  | some runId, some eventWorkerId =>
    let activeWorkerId := workerId.getD eventWorkerId
    let message : ProcessedMessage := ⟨event.eventId, (consumerNamePrefix, activeWorkerId)⟩
    let processed ← session.select {} fun db => decide (message ∈ db.processed)
    if processed then .ret false
    else
      let leaseToken ← Prog.ofExcept event.leaseToken
      let _ ← executeExistingRun rt runId (some activeWorkerId) leaseToken
      session.commit {} [.insertProcessed message]
      .ret true
  | _, _ => .ret false

def processEvent (rt : Runtime) (event : EventEnvelope) (workerId : Option Uuid) :
    Program Bool :=
  if event.eventType ≠ "run.assigned" ∨ event.runId = none ∨ event.workerId = none ∨
      (workerId ≠ none ∧ event.workerId ≠ workerId) then
    .ret false
  else processAssignment rt event workerId

end Runscope
