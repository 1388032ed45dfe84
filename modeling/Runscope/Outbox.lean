import Mathlib.Data.List.Sort
import Runscope.Program

/-!
The outbox dispatcher (`outbox.py`).
-/

namespace Runscope

open Transact

/-- `type(exc).__name__` -/
def Exc.typeName : Exc → String
  | app _ => "AppError"
  | staleData => "StaleDataError"
  | integrity _ => "IntegrityError"
  | connectionLost => "OperationalError"
  | noResultFound => "NoResultFound"
  | runtime _ => "RuntimeError"
  | key _ => "KeyError"
  | artifactStorage _ => "ArtifactStorageError"
  | other name => name

/-- The messages to be sent, oldest first. -/
def Db.unpublished (db : Db) (limit maxAttempts : ℕ) (free : OutboxMessage → Bool) :
    List OutboxMessage :=
  ((db.outbox.rows.filter fun m =>
    m.publishedAt = none ∧ m.publishAttempts < maxAttempts ∧ free m).insertionSort
      fun a b => a.createdAt ≤ b.createdAt).take limit

/-- The loop over the messages, which ends at the first failure. Returns the
number published and the updates pending. -/
def publishMessages : List OutboxMessage → Program (ℕ × List Write)
  | [] => .ret (0, [])
  | message :: rest => do
    let input ← Prog.stmt {} (.call (.publish message.envelope)) fun r => r.input
    match input.failure with
    | some exc =>
      .ret (0, [.updateOutbox message { message with
        publishAttempts := message.publishAttempts + 1
        lastError := some (String.ofList (exc.typeName.toList.take 500)) }])
    | none =>
      let now ← datetimeNow {}
      let (published, pending) ← publishMessages rest
      .ret (published + 1, .updateOutbox message { message with
        publishedAt := some now
        lastError := none } :: pending)

def dispatchBatch (limit maxAttempts : ℕ) : Program ℕ := do
  let messages ← session.selectForUpdate {} true (fun m => .outbox m.id) fun db free =>
    db.unpublished limit maxAttempts free
  let (published, pending) ← publishMessages messages
  session.commit {} pending
  .ret published

end Runscope
