import Runscope.Contract
import Runscope.Scheduler
import Runscope.Transact.Yields
import Runscope.WorkersSound

/-!
What the functions of the services come to see where their session runs
alone.
-/

namespace Runscope

open Transact

/-- A session that runs alone, between two of its statements. -/
abbrev Sitting := Turn Platform RowKey Write Call Input

/-- What such a session meets. -/
abbrev Conditions := Surroundings Platform RowKey Write Call Input

variable {env : Conditions} {fails : Prop} {r : Sitting} {pt : Point} {α : Type}

/-! ### Statements -/

/-- A read of the clock, a fresh UUID, a sleep. -/
theorem pause_yields {f : Reply Platform RowKey Input → α} {Q : α → Sitting → Prop}
    (h : ∀ r', r.Reads storage r' → r.count < r'.count →
      Q (f ⟨r'.view storage, fun _ => true, env.draw r.count (.call .pause)⟩) r') :
    (Prog.stmt pt (.call .pause) f : Program α).Yields storage env fails r Q :=
  .call fun r' hr' => h r' (.of_next hr' (by simp)) hr'.count_lt

theorem datetimeNow_yields {Q : Time → Sitting → Prop}
    (h : ∀ r', r.Reads storage r' → Q (env.draw r.count (.call .pause)).clock r') :
    (datetimeNow pt).Yields storage env fails r Q := pause_yields fun r' hr' _ => h r' hr'

/-- The UUIDs of a session are drawn at different statements. -/
theorem uuid4_yields {Q : Uuid → Sitting → Prop}
    (h : ∀ r', r.Reads storage r' → r.count < r'.count →
      Q (env.draw r.count (.call .pause)).uuid r') :
    (uuid4 pt).Yields storage env fails r Q := pause_yields h

theorem select_yields {query : Db → α} {Q : α → Sitting → Prop}
    (h : ∀ r', r.Reads storage r' → Q (query (r.view storage).db) r') :
    (session.select pt query).Yields storage env fails r Q := .select fun _ => h

/-- A lock gets every row it asks for. -/
theorem selectForUpdate_yields {skip : Bool} {key : α → RowKey}
    {query : Db → (α → Bool) → List α} {Q : List α → Sitting → Prop}
    (h : ∀ r', r.Reads storage r' → Q (query (r.view storage).db fun _ => true) r') :
    (session.selectForUpdate pt skip key query).Yields storage env fails r Q := .lock fun _ => h

/-- What is seen once the writes are flushed. -/
def Platform.flushed (p : Platform) (i : Input) (ws : List Write) : Platform :=
  storage.applyAll p (ws.map (Write.stamp i))

/-- The constraints admit the writes. -/
def Platform.Admits (p : Platform) (ws : List Write) : Prop :=
  ∀ i, storage.firstError p (ws.map (Write.stamp i)) = none

theorem flush_yields {ws : List Write} {Q : Unit → Sitting → Prop}
    (hadmits : (r.view storage).Admits ws ∨ fails)
    (h : ∀ i r', storage.firstError (r.view storage) (ws.map (Write.stamp i)) = none →
      r.Next storage (.flush ws) r' ((r.view storage).flushed i ws) → Q () r') :
    (session.flush pt ws).Yields storage env fails r Q :=
  .flush (fun i herror => hadmits.resolve_left fun hadmits => herror (hadmits i)) fun i _ => h i

theorem commit_yields {ws : List Write} {Q : Unit → Sitting → Prop}
    (hadmits : (r.view storage).Admits ws ∨ fails)
    (h : ∀ i r', storage.firstError (r.view storage) (ws.map (Write.stamp i)) = none →
      (∃ r₁, r.Next storage (.flush ws) r₁ ((r.view storage).flushed i ws) ∧
        r₁.Reads storage r') → r'.state = (r.view storage).flushed i ws → Q () r') :
    (session.commit pt ws).Yields storage env fails r Q := by
  refine .bind (flush_yields hadmits fun i r₁ herror hr₁ => .commit fun _ r₂ hr₂ hstate => ?_)
  exact h i r₂ herror ⟨r₁, hr₁, .of_next hr₂ (by simp)⟩ (hstate.trans hr₁.view)

theorem transitionRun_yields {run : Run} {target : RunStatus} {eventType : String}
    {metadata : Record} {Q : Run × RunEvent → Sitting → Prop}
    (hvalid : target ∈ validTransitions run.status)
    (h : ∀ now r', r.Reads storage r' →
      Q (run.transitioned target now, run.transitionEvent target eventType metadata) r') :
    (transitionRun pt run target eventType metadata).Yields storage env fails r Q :=
  .bind (.ofExcept (if_pos hvalid) (.bind (datetimeNow_yields fun r' hr' => h _ r' hr')))

theorem newMessage_yields {settings : Settings} {eventType : String} {correlationId : CorrelationId}
    {runId : Uuid} {workerId : Option Uuid} {payload : Record} {Q : OutboxMessage → Sitting → Prop}
    (h : ∀ r' message n, r.Reads storage r' → r.count ≤ n → n < r'.count →
      message.id = (env.draw n (.call .pause)).uuid → Q message r') :
    (newMessage settings eventType correlationId runId workerId payload).Yields storage env fails
      r Q := by
  refine .bind (uuid4_yields fun r₁ hr₁ _ => .bind (datetimeNow_yields fun r₂ hr₂ =>
    .bind (uuid4_yields fun r₃ hr₃ hlt => ?_)))
  have hreads := hr₁.trans hr₂
  exact h r₃ _ r₂.count (hreads.trans hr₃) hreads.count_le hlt rfl

theorem refreshWorkerCapacity_yields {worker : Worker} {Q : Worker → Sitting → Prop}
    (h : ∀ r', r.Reads storage r' →
      Q (worker.withLoad ((r.view storage).db.loadOf worker.id)) r') :
    (refreshWorkerCapacity pt worker).Yields storage env fails r Q :=
  .bind (select_yields fun r' hr' => h r' hr')

/-! ### What is pending -/

/-- Once `pending` is flushed, `v` is seen in place of `p`. -/
structure Pends (p : Platform) (pending : List Write) (v : Platform) : Prop where
  admits : p.Admits pending
  seen : ∀ i, p.flushed i pending = v

variable {p : Platform}

theorem pends_nil (p : Platform) : Pends p [] p := ⟨fun _ => rfl, fun _ => rfl⟩

theorem flushed_append (p : Platform) (i : Input) (ws ws' : List Write) :
    p.flushed i (ws ++ ws') = (p.flushed i ws).flushed i ws' := by
  rw [Platform.flushed, List.map_append, Storage.applyAll_append]
  rfl

theorem admits_append {ws ws' : List Write} (h : p.Admits ws)
    (h' : ∀ i, (p.flushed i ws).Admits ws') : p.Admits (ws ++ ws') := by
  intro i
  rw [List.map_append, storage.firstError_append_eq_none]
  exact ⟨h i, h' i i⟩

theorem Pends.append {ws ws' : List Write} {v v' : Platform} (h : Pends p ws v)
    (h' : Pends v ws' v') : Pends p (ws ++ ws') v' := by
  refine ⟨admits_append h.admits fun i => ?_, fun i => ?_⟩
  · rw [h.seen i]
    exact h'.admits
  · rw [flushed_append, h.seen i]
    exact h'.seen i

/-- The update of a row that is as it was loaded. -/
theorem pends_workerUpdate {worker : Worker} (changed : Worker)
    (hget : p.db.workers.get? worker.id = some worker) (hid : changed.id = worker.id)
    (hname : changed.name = worker.name) :
    ∃ workers, Pends p (workerUpdate worker changed)
        { p with db := { p.db with workers := workers } } ∧
      ∀ id, workers.get? id = if id = worker.id then some changed else p.db.workers.get? id := by
  rw [workerUpdate]
  split
  · next h =>
    refine ⟨p.db.workers, ⟨fun _ => rfl, fun _ => rfl⟩, fun id => ?_⟩
    split
    · next heq => rw [heq, h]; exact hget
    · rfl
  · refine ⟨_, ⟨fun i => ?_, fun _ => rfl⟩, fun id => ?_⟩
    · exact storage.firstError_cons_eq_none.mpr ⟨if_pos (by rw [hget]; rfl), rfl⟩
    · rw [Table.get?_update]
      split
      · next heq => rw [heq, hget, Option.map_some, Worker.merge_loaded hid hname]
      · rfl

/-! ### The release of a lease -/

/-- What `release_allocation` makes of the caller's workers, and the update it
leaves pending, once the lease is released. -/
def Db.recounted (db : Db) (workerId : Uuid) (loaded : List Worker) : List Worker × List Write :=
  match db.workers.get? workerId with
  | none => (loaded, [])
  | some worker =>
    (loaded.map fun w => if w.id = worker.id then worker.withLoad (db.loadOf worker.id) else w,
      workerUpdate worker (worker.withLoad (db.loadOf worker.id)))

/-- A release of the one lease that the run has. -/
theorem releaseAllocation_yields {runId : Uuid} {pending : List Write} {loaded : List Worker}
    {a : ResourceAllocation}
    {Q : Option ResourceAllocation × List Worker × List Write → Sitting → Prop}
    (hadmits : (r.view storage).Admits pending ∨ fails)
    (hactive : ∀ i, ((r.view storage).flushed i pending).db.activeAllocations.filter
      (fun x => x.runId = runId) = [a])
    (hloaded : ∀ i, ∀ w ∈ loaded,
      ((r.view storage).flushed i pending).db.workers.get? w.id = some w)
    (h : ∀ i now r', r'.view storage =
        ((r.view storage).flushed i pending).flushed i [.releaseAllocation a now] →
      Q (some { a with releasedAt := some now },
        (r'.view storage).db.recounted a.workerId loaded) r') :
    (releaseAllocation runId pending loaded).Yields storage env fails r Q := by
  refine .bind (flush_yields hadmits fun i r₁ _ hr₁ => ?_)
  specialize hactive i
  specialize hloaded i
  specialize h i
  generalize (r.view storage).flushed i pending = p at *
  refine .bind (selectForUpdate_yields fun r₂ hr₂ => ?_)
  rw [hr₁.view, hactive]
  refine .bind (datetimeNow_yields fun r₃ hr₃ => ?_)
  have hview : r₃.view storage = p := by rw [hr₃.view, hr₂.view, hr₁.view]
  generalize (env.draw r₂.count (.call .pause)).clock = now
  have hget : p.db.allocations.get? a.id = some a := by
    have ha : a ∈ p.db.activeAllocations.filter fun x => x.runId = runId := by
      rw [hactive]
      exact List.mem_singleton_self a
    exact Table.get?_of_mem (List.mem_of_mem_filter (List.mem_of_mem_filter ha))
  refine .bind (flush_yields (.inl fun j => ?_) fun j r₄ _ hr₄ => ?_)
  · rw [hview]
    exact storage.firstError_cons_eq_none.mpr
      ⟨by simp [storage, Write.check, Write.stamp, hget, ResourceAllocation.sameLease], rfl⟩
  rw [hview] at hr₄
  have hworkers : (r₄.view storage).db.workers = p.db.workers := by
    rw [hr₄.view]
    rfl
  specialize h now
  -- what is left to do once the worker is known
  have hfound (worker? : Option Worker) (r' : Sitting) (hr' : r₄.Reads storage r')
      (hworker : worker? = p.db.workers.get? a.workerId) :
      (match worker? with
        | none => (.ret (some { a with releasedAt := some now }, loaded, []) : Program _)
        | some worker => do
          let refreshed ← refreshWorkerCapacity { worker := some worker.id } worker
          .ret (some { a with releasedAt := some now },
            loaded.map fun (w : Worker) => if w.id = refreshed.id then refreshed else w,
            workerUpdate worker refreshed)).Yields storage env fails r' Q := by
    have hseen {r'' : Sitting} (hr'' : r''.view storage = r'.view storage) :
        r''.view storage = p.flushed i [.releaseAllocation a now] :=
      hr''.trans (hr'.view.trans hr₄.view)
    have hget' {r'' : Sitting} (hr'' : r''.view storage = r'.view storage) :
        (r''.view storage).db.workers.get? a.workerId = worker? := by
      rw [hr'', hr'.view, hworkers, hworker]
    cases worker? with
    | none =>
        have hQ := h r' (hseen rfl)
        rw [Db.recounted, hget' rfl] at hQ
        exact hQ
    | some worker =>
        refine .bind (refreshWorkerCapacity_yields fun r'' hr'' => ?_)
        have hQ := h r'' (hseen hr''.view)
        rw [Db.recounted, hget' hr''.view, hr''.view] at hQ
        exact hQ
  cases hworker : loaded.find? fun w => w.id = a.workerId with
  | some worker =>
      have hid : worker.id = a.workerId := by simpa using List.find?_some hworker
      have hrow := hloaded worker (List.mem_of_find?_eq_some hworker)
      exact .bind (.ret (hfound (some worker) r₄ (.refl r₄) (hid ▸ hrow.symm)))
  | none =>
      refine .bind (select_yields fun r₅ hr₅ => hfound _ r₅ hr₅ ?_)
      rw [hworkers]

end Runscope
