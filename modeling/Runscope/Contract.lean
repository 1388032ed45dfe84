import Runscope.Capacity
import Runscope.Origin
import Runscope.System
import Runscope.Transact.Logic

/-!
The invariant of the committed state, and what each session relies on and
guarantees.

Three parts are conditional. Two of them the code meets only under conditions
on the schedule: the accounting of worker capacity and the silence about
finished runs. The third, what an executor stores and records being its own,
holds because no run has two executors, which is known only once the rest is.
A `Mode` says which of them are in force.
-/

namespace Runscope

open Transact RunStatus

structure Mode where
  rt : Runtime
  accounting : Prop
  telemetry : Prop
  exclusive : Prop

namespace Db

/-- Logs, metrics and artifacts of a run. -/
def recordsOf (db : Db) (runId : Uuid) : List RunLog × List RunMetric × List Artifact :=
  (db.logs.filter fun x => x.runId = runId, db.metrics.filter fun x => x.runId = runId,
    db.artifacts.filter fun x => x.runId = runId)

def finished (db : Db) (runId : Uuid) : Prop :=
  ∃ run, db.runs.get? runId = some run ∧ run.status.finished

end Db

/-- How often the writes start a run. -/
def startsOf (runId : Uuid) (ws : List Write) : ℕ :=
  ws.countP fun
    | .insertEvent e => e.runId = runId ∧ e.newStatus = some running
    | _ => false

/-- How often the calls execute a run's template. -/
def executesOf (runId : Uuid) (calls : List Call) : ℕ :=
  calls.countP fun
    | .execute r => r = runId
    | _ => false

@[simp] theorem startsOf_append (runId : Uuid) (ws ws' : List Write) :
    startsOf runId (ws ++ ws') = startsOf runId ws + startsOf runId ws' := List.countP_append

@[simp] theorem executesOf_append (runId : Uuid) (calls calls' : List Call) :
    executesOf runId (calls ++ calls') = executesOf runId calls + executesOf runId calls' :=
  List.countP_append

/-- The object under a key. -/
def Platform.content (p : Platform) (key : StorageKey) : Option ByteArray :=
  lastWritten p.objects key

/-- The artifact's row tells the size and the checksum of the object under its
key. -/
structure Described (rt : Runtime) (p : Platform) (a : Artifact) : Prop where
  storageKey : a.storageKey = (a.runId, a.name)
  content : ∃ data, p.content a.storageKey = some data ∧ data.size = a.sizeBytes ∧
    rt.sha256 data = a.checksum

/-- Neither the records nor the objects of a run have changed. -/
structure Untouched (runId : Uuid) (p p' : Platform) : Prop where
  records : p'.db.recordsOf runId = p.db.recordsOf runId
  content : ∀ name, p'.content (runId, name) = p.content (runId, name)

theorem Untouched.refl (runId : Uuid) (p : Platform) : Untouched runId p p := ⟨rfl, fun _ => rfl⟩

theorem Untouched.trans {runId : Uuid} {p₁ p₂ p₃ : Platform} (h₁ : Untouched runId p₁ p₂)
    (h₂ : Untouched runId p₂ p₃) : Untouched runId p₁ p₃ :=
  ⟨h₂.records.trans h₁.records, fun name => (h₂.content name).trans (h₁.content name)⟩

structure Invariant (m : Mode) (p : Platform) : Prop where
  runs : ∀ r, (p.db.runView r).Inv
  tokens : (p.db.allocations.rows.map ResourceAllocation.leaseToken).Nodup
  addressed : ∀ x ∈ p.db.outbox.rows, ∃ r, x.envelope.runId = some r
  topic : ∀ e ∈ p.topic, ∃ r, e ∈ p.db.messagesOf r
  capacity : m.accounting → ∀ id, (p.db.workerView id).Balanced
  parented : ∀ r run, p.db.runs.get? r = some run → Parented p.db run
  parameterized : ∀ r run, p.db.runs.get? r = some run → Parameterized p.db run
  parameters : ∀ x ∈ p.db.parameters, (p.db.runs.get? x.runId).isSome
  artifacts : m.exclusive → ∀ a ∈ p.db.artifacts, p.db.finished a.runId ∧ Described m.rt p a

/-- What the worker has registered with. -/
def WorkerView.totals (v : WorkerView) : Option (ℚ × ℤ) :=
  v.row.map fun w => (w.totalCpu, w.totalMemoryMb)

/-- The sessions, to the services. -/
abbrev Session := Transact.Session RowKey Write Call Input

/-- The other sessions let every run live on, and leave templates and stored
parameters as they are; and where it matters, they leave alone the workers
that this session has loaded or locked, or their totals, do not finish a run that this session
still records, and do not touch a run that this session has started. -/
structure Relies (m : Mode) (pt : Point) (t : Session) (p p' : Platform) : Prop where
  runs : ∀ r, Lives (fun _ => True) (p.db.runView r) (p'.db.runView r)
  loaded : m.accounting → t.began.isSome → ∀ id, pt.worker = some id →
    p'.db.workerView id = p.db.workerView id
  totals : m.accounting → t.began.isSome → ∀ id, pt.totals = some id →
    (p'.db.workerView id).totals = (p.db.workerView id).totals
  locked : m.accounting → ∀ id, RowKey.worker id ∈ t.locks →
    p'.db.workerView id = p.db.workerView id
  records : m.telemetry → ∀ r, pt.records = some r → p'.db.finished r → p.db.finished r
  templates : p'.db.templates = p.db.templates
  parameters : ∀ r, (p.db.runs.get? r).isSome → p'.db.parametersOf r = p.db.parametersOf r
  own : m.exclusive → ∀ r, 0 < startsOf r t.committed → Untouched r p p'

/-- The message authorises work on this lease. -/
def EventEnvelope.fences (event : EventEnvelope) (workerId : Option Uuid) (lease : Lease) : Prop :=
  event.leaseToken = .ok (some lease.leaseToken) ∧ ∃ w ∈ event.workerId,
    lease.workerId = workerId.getD w

/-- The steps in the life of a run that a session may take. -/
def Kind.allows (κ : Kind) (runId : Uuid) (l : Label) : Prop :=
  match κ, l with
  | createRun .., .create => True
  | retryRun .., .create => True
  | cancelRun r .., .requestCancel => r = runId
  | updateRunMetadata r .., .edit => r = runId
  | schedule, .assign _ => True
  | schedule, .requeue _ => True
  | schedule, .finish target _ => target ∈ [failed, cancelled]
  | processEvent event workerId, .start lease =>
      event.runId = some runId ∧ event.fences workerId lease
  | processEvent event workerId, .finish _ lease =>
      event.runId = some runId ∧ event.fences workerId lease
  | _, _ => False

/-- The sessions that store a new run. -/
def Kind.submits : Kind → Bool
  | createRun .. | retryRun .. => true
  | _ => false

/-- What one commit does to a run: a single step, unless it is a pass of the
scheduler, which may release and assign a run in one transaction. -/
inductive Moves (κ : Kind) (runId : Uuid) : RunView → RunView → Prop where
  | refl {v : RunView} : Moves κ runId v v
  | single {v v' : RunView} (l : Label) (hl : κ.allows runId l) (h : RunStep l v v') :
      Moves κ runId v v'
  | pass {v v' : RunView} (hκ : κ = .schedule) (h : Lives (κ.allows runId) v v') :
      Moves κ runId v v'

theorem Moves.lives {κ : Kind} {runId : Uuid} {v v' : RunView} (h : Moves κ runId v v') :
    Lives (κ.allows runId) v v' := by
  cases h with
  | refl => exact .refl
  | single l hl h => exact .single l hl h
  | pass _ h => exact h

/-- What holds of a run that a commit has stored, from `p` to `p'`. -/
structure Founded (m : Mode) (κ : Kind) (p p' : Platform) (run : Run) : Prop where
  parented : Parented p.db run
  parameterized : Parameterized p'.db run
  retried : ∀ parentId body user correlationId, κ = .retryRun parentId body user correlationId →
    run.parentRunId = some parentId ∧ ∃ template values,
      p.db.templates.get? run.templateId = some template ∧
      validateParameters m.rt template
        ((p.db.storedParameters parentId).update body.parameterOverrides) =
          .ok (values, p'.db.parametersOf run.id)

/-- What is stored about a run besides its row, its leases and its messages. -/
def Db.historyOf (db : Db) (runId : Uuid) :=
  (db.recordsOf runId, db.parametersOf runId, db.events.filter fun x => x.runId = runId)

namespace WorkerView

/-- The leases do not exceed the totals. -/
def Fits (v : WorkerView) : Prop :=
  ∀ w, v.row = some w → (v.leases.map Lease.cpu).sum ≤ w.totalCpu ∧
    (v.leases.map Lease.memoryMb).sum ≤ w.totalMemoryMb

/-- The same totals and no new lease. -/
def Shrinks (v v' : WorkerView) : Prop :=
  v'.totals = v.totals ∧ v'.leases.Sublist v.leases

end WorkerView

/-- A worker registers again, which leaves its leases alone. -/
def Kind.Registers (κ : Kind) (v v' : WorkerView) : Prop :=
  (∃ name totals, κ = .registerWorker name totals) ∧ v.row.isSome ∧ v'.leases = v.leases

/-- What a session promises of a change it commits. -/
structure Guarantees (m : Mode) (κ : Kind) (t : Session) (p p' : Platform) : Prop where
  runs : ∀ r, Moves κ r (p.db.runView r) (p'.db.runView r)
  workers : m.accounting → ∀ id,
    p'.db.workerView id = p.db.workerView id ∨ RowKey.worker id ∈ t.locks
  room : m.accounting → ∀ id, κ.Registers (p.db.workerView id) (p'.db.workerView id) ∨
    (p'.db.workerView id).Fits ∨ (p.db.workerView id).Shrinks (p'.db.workerView id)
  records : m.telemetry → ∀ r, p.db.finished r → p'.db.recordsOf r = p.db.recordsOf r
  templates : p'.db.templates = p.db.templates
  parameters : ∀ r, (p.db.runs.get? r).isSome → p'.db.parametersOf r = p.db.parametersOf r
  founded : ∀ r run, p.db.runs.get? r = none → p'.db.runs.get? r = some run → Founded m κ p p' run
  frame : κ.submits → ∀ r, (p.db.runs.get? r).isSome → p'.db.historyOf r = p.db.historyOf r
  own : ∀ r, Untouched r p p' ∨ 0 < startsOf r t.committed
  kept : m.exclusive → ∀ a ∈ p.db.artifacts, p'.content a.storageKey = p.content a.storageKey

/-- No insert of a lease fails on the unique index, and a template is
executed only after a start of its own. -/
structure Needs (st : Stmt Platform RowKey Write Call) (t : Session) (p : Platform) : Prop where
  activeRun : ∀ ws, st = .flush ws → ∀ i,
    storage.firstError (t.view storage p) (t.stamped storage i ws) ≠
      some (.integrity "uq_resource_allocations_active_run")
  execute : ∀ r, st = .call (.execute r) → executesOf r t.called < startsOf r t.committed

theorem Relies.refl {m : Mode} {pt : Point} {t : Session} {p : Platform} : Relies m pt t p p where
  runs _ := .refl
  loaded _ _ _ _ := rfl
  totals _ _ _ _ := rfl
  locked _ _ _ := rfl
  records _ _ _ h := h
  templates := rfl
  parameters _ _ := rfl
  own _ r _ := .refl r p

theorem Relies.trans {m : Mode} {pt : Point} {t : Session} {p₁ p₂ p₃ : Platform}
    (h₁ : Relies m pt t p₁ p₂) (h₂ : Relies m pt t p₂ p₃) : Relies m pt t p₁ p₃ where
  runs r := (h₁.runs r).trans (h₂.runs r)
  loaded hm ht id hid := (h₂.loaded hm ht id hid).trans (h₁.loaded hm ht id hid)
  totals hm ht id hid := (h₂.totals hm ht id hid).trans (h₁.totals hm ht id hid)
  locked hm id hid := (h₂.locked hm id hid).trans (h₁.locked hm id hid)
  records hm r hr h := h₁.records hm r hr (h₂.records hm r hr h)
  templates := h₂.templates.trans h₁.templates
  parameters r hr := (h₂.parameters r ((h₁.runs r).run_isSome hr)).trans (h₁.parameters r hr)
  own hm r hr := (h₁.own hm r hr).trans (h₂.own hm r hr)

def contract (m : Mode) (κ : Kind) : Contract Platform RowKey Write Call Input Point where
  rely := Relies m
  guar _ := Guarantees m κ
  need := Needs
  rely_refl := .refl
  rely_trans := .trans

end Runscope
