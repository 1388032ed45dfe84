import Runscope.System
import Runscope.Transact.Writes

/-!
The terms of runs: what they ask for, and the notes and tags they carry.

Only the submission of a run and the edit of its metadata choose terms; every
other session writes those it has read. So what these two keep holds of every
stored run.
-/

namespace Runscope

open Transact

/-- What a run asks for, and what its user says about it. -/
structure Terms where
  requestedCpu : ℚ
  requestedMemoryMb : ℤ
  notes : String
  tags : List String

def Run.terms (run : Run) : Terms := ⟨run.requestedCpu, run.requestedMemoryMb, run.notes, run.tags⟩

/-- What is asked of the terms of stored runs, and of new leases. -/
structure Standard where
  run : Terms → Prop
  lease : ResourceAllocation → Prop

section Written

variable {R : Standard} {P : Write → Prop} {rt : Runtime} {settings : Settings} {pt : Point}
  {α : Type}

/-- The terms of every run are up to `R`. -/
def Noted (R : Standard) (p : Platform) : Prop :=
  ∀ r run, p.db.runs.get? r = some run → R.run run.terms

def Write.Noted (R : Standard) : Write → Prop
  | insertRun run => R.run run.terms
  | updateRun run => R.run run.terms
  | insertAllocation a => R.lease a
  | _ => True

/-- Every write but those that say what has become of a message: to the outbox
new messages are added, and none is entered as processed. -/
def Write.Ordinary : Write → Prop
  | insertOutbox message => message.publishedAt = none ∧ message.publishAttempts = 0
  | updateOutbox _ _ => False
  | insertProcessed _ => False
  | _ => True

/-- The ordinary writes whose terms are up to `R` satisfy `P`. -/
def Covers (R : Standard) (P : Write → Prop) : Prop := ∀ x : Write, x.Noted R → x.Ordinary → P x

theorem Covers.forall (hP : Covers R P) {ws : List Write} (h : ∀ x ∈ ws, x.Noted R ∧ x.Ordinary) :
    ∀ x ∈ ws, P x := fun x hx => hP x (h x hx).1 (h x hx).2

theorem ordinary_stamp (i : Input) (x : Write) (h : x.Ordinary) : (x.stamp i).Ordinary := by
  cases x <;> exact h

/-- Given that it reads runs that are noted, the program flushes only writes
that satisfy `P`. -/
abbrev Stores (R : Standard) (P : Write → Prop) (Q : α → Prop) (p : Program α) : Prop :=
  p.Writes (Noted R) P Q

/-- The program stores only runs that are noted, given that it reads such. -/
abbrev Notes (R : Standard) (Q : α → Prop) (p : Program α) : Prop :=
  p.Writes (Noted R) (Write.Noted R) Q

/-- Nothing is asked of the terms of runs. -/
def Standard.any : Standard := ⟨fun _ => True, fun _ => True⟩

theorem noted_any (p : Platform) : Noted .any p := fun _ _ _ => trivial

theorem noted_stamp (i : Input) (x : Write) (h : x.Noted R) : (x.stamp i).Noted R := by
  cases x <;> exact h

theorem noted_apply (x : Write) (p : Platform) (hx : x.Noted R) (h : Noted R p) :
    Noted R (x.apply p) := by
  intro r run hget
  cases x with
  | insertRun run' =>
      rw [show (Write.apply (.insertRun run') p).db.runs = p.db.runs.insert run' from rfl,
        Table.get?_insert] at hget
      split at hget
      · cases hstored : p.db.runs.get? r with
        | none =>
            simp only [hstored, Option.getD_none, Option.some.injEq] at hget
            exact hget ▸ hx
        | some old =>
            simp only [hstored, Option.getD_some, Option.some.injEq] at hget
            exact hget ▸ h r old hstored
      · exact h r run hget
  | updateRun run' =>
      have hupdate : (Write.apply (.updateRun run') p).db.runs =
          p.db.runs.update run'.id run'.stored run'.stored_id := rfl
      rw [hupdate, Table.get?_update] at hget
      split at hget
      · obtain ⟨current, -, rfl⟩ := Option.map_eq_some_iff.mp hget
        exact hx
      · exact h r run hget
  | _ => exact h r run hget

theorem noted_perform (c : Call) (i : Input) (p : Platform) (h : Noted R p) :
    Noted R (c.perform i p) := by
  intro r run hget
  rw [Call.perform_db] at hget
  exact h r run hget

theorem stores_select {query : Db → α} :
    Stores R P (fun _ => True) (session.select pt query) := .stmt nofun fun _ _ => trivial

theorem stores_selectForUpdate {skip : Bool} {key : α → RowKey}
    {query : Db → (α → Bool) → List α} :
    Stores R P (fun _ => True) (session.selectForUpdate pt skip key query) :=
  .stmt nofun fun _ _ => trivial

theorem stores_flush {ws : List Write} (h : ∀ x ∈ ws, P x) :
    Stores R P (fun _ => True) (session.flush pt ws) := .flush h fun _ => trivial

theorem stores_commit {ws : List Write} (h : ∀ x ∈ ws, P x) :
    Stores R P (fun _ => True) (session.commit pt ws) :=
  (stores_flush h).bind fun _ _ => .stmt nofun fun _ _ => trivial

theorem stores_call {c : Call} {f : Reply Platform RowKey Input → α} :
    Stores R P (fun _ => True) (.stmt pt (.call c) f) := .stmt nofun fun _ _ => trivial

theorem stores_getRun {runId : Uuid} :
    Stores R P (fun found => ∀ run, found = some run → R.run run.terms)
      (session.getRun pt runId) := .stmt nofun fun _ hgood run hrun => hgood runId run hrun

theorem stores_refreshRun {run : Run} :
    Stores R P (fun run => R.run run.terms) (session.refreshRun pt run) := by
  refine stores_getRun.bind fun found hfound => ?_
  cases found with
  | none => exact trivial
  | some run => exact hfound run rfl

theorem stores_transitionRun {run : Run} {target : RunStatus} {eventType : String}
    {metadata : Record} (h : R.run run.terms) :
    Stores R P (fun x => R.run x.1.terms) (transitionRun pt run target eventType metadata) :=
  .bind (.ofExcept (Q := fun _ => True) fun _ _ => trivial) fun _ _ => stores_call.bind fun _ _ => h

/-! ### Every session -/

theorem covered_workerUpdate (hP : Covers R P) {loaded changed : Worker} :
    ∀ x ∈ workerUpdate loaded changed, P x := by
  unfold workerUpdate
  split <;> exact hP.forall (by simp [Write.Noted, Write.Ordinary])

theorem covered_renewal (hP : Covers R P) {until_ : Time} {a : ResourceAllocation} :
    ∀ x ∈ renewal until_ a, P x := by
  unfold renewal
  split <;> exact hP.forall (by simp [Write.Noted, Write.Ordinary])

theorem covered_parameterRows (hP : Covers R P) {runId : Uuid} {parameters : Record} :
    ∀ x ∈ parameterRows runId parameters, P x := by
  intro x hx
  obtain ⟨_, -, rfl⟩ := List.mem_map.mp hx
  exact hP _ trivial trivial

theorem stores_refreshWorkerCapacity {worker : Worker} :
    Stores R P (fun _ => True) (refreshWorkerCapacity pt worker) := by
  unfold refreshWorkerCapacity
  exact stores_select.bind fun _ _ => trivial

theorem stores_getWorker {workerId : Uuid} :
    Stores R P (fun _ => True) (session.getWorker pt workerId) := stores_select

theorem stores_refreshWorker {worker : Worker} :
    Stores R P (fun _ => True) (session.refreshWorker pt worker) := by
  refine stores_getWorker.bind fun found _ => ?_
  cases found <;> exact trivial

theorem stores_newMessage {eventType : String} {correlationId : CorrelationId} {runId : Uuid}
    {workerId : Option Uuid} {payload : Record} :
    Stores R P (fun message => message.publishedAt = none ∧ message.publishAttempts = 0)
      (newMessage settings eventType correlationId runId workerId payload) :=
  stores_call.bind fun _ _ => stores_call.bind fun _ _ => stores_call.bind fun _ _ => ⟨rfl, rfl⟩

/-- What is left of a release once its worker is known. -/
theorem stores_released (hP : Covers R P) {allocation : ResourceAllocation} {loaded : List Worker}
    (worker? : Option Worker) : Stores R P (fun x => ∀ y ∈ x.2.2, P y)
      (match worker? with
      | none => .ret (some allocation, loaded, [])
      | some worker => do
        let refreshed ← refreshWorkerCapacity { worker := some worker.id } worker
        .ret (some allocation, loaded.map fun w => if w.id = refreshed.id then refreshed else w,
          workerUpdate worker refreshed)) := by
  cases worker? with
  | none => simp [Prog.Writes]
  | some worker => exact stores_refreshWorkerCapacity.bind fun _ _ => covered_workerUpdate hP

theorem stores_releaseAllocation (hP : Covers R P) {runId : Uuid} {pending : List Write}
    {loaded : List Worker}
    (h : ∀ x ∈ pending, P x) :
    Stores R P (fun x => ∀ y ∈ x.2.2, P y) (releaseAllocation runId pending loaded) := by
  refine (stores_flush h).bind fun _ _ => stores_selectForUpdate.bind fun found _ => ?_
  cases found with
  | nil => simp [Prog.Writes]
  | cons allocation rest =>
      refine stores_call.bind fun now _ => ?_
      refine (stores_flush (hP.forall (by simp [Write.Noted, Write.Ordinary]))).bind fun _ _ => ?_
      cases loaded.find? fun w => w.id = allocation.workerId with
      | some worker => exact stores_released hP (some worker)
      | none => exact stores_getWorker.bind fun worker? _ => stores_released hP worker?

theorem stores_finishRun (hP : Covers R P) {run : Run} {target : RunStatus} {eventType : String}
    {metadata : Record}
    {added : List Write} (h : R.run run.terms) (hadded : ∀ x ∈ added, P x) :
    Stores R P (fun run => R.run run.terms)
      (finishRun run target eventType metadata added) := by
  refine (stores_transitionRun h).bind fun x hx => ?_
  have hpending : ∀ y ∈ added ++ [Write.updateRun x.1, .insertEvent x.2], P y := by
    intro y hy
    rcases List.mem_append.mp hy with hy | hy
    · exact hadded y hy
    · simp only [List.mem_cons, List.not_mem_nil, or_false] at hy
      rcases hy with rfl | rfl
      · exact hP _ hx trivial
      · exact hP _ trivial trivial
  exact (stores_releaseAllocation hP hpending).bind fun _ hy => (stores_commit hy).bind fun _ _ => hx

theorem stores_getRunOr404 {runId : Uuid} :
    Stores R P (fun run => R.run run.terms) (getRunOr404 runId) := by
  refine stores_getRun.bind fun found hfound => ?_
  cases found with
  | none => exact trivial
  | some run => exact hfound run rfl

theorem stores_ensureRunControl {user : User} {run : Run} :
    Stores R P (fun _ => True) (Prog.ofExcept (ensureRunControl user run)) :=
  .ofExcept fun _ _ => trivial

/-- The flush of a draft, its transition and the message about it. -/
theorem covered_submitted (hP : Covers R P) {child : Run} {event : RunEvent} {message : OutboxMessage}
    {parameters : Record} (hchild : R.run child.terms)
    (hmessage : message.publishedAt = none ∧ message.publishAttempts = 0) :
    ∀ x ∈ parameterRows child.id parameters ++
      [Write.updateRun child, .insertEvent event, .insertOutbox message], P x := by
  intro x hx
  rcases List.mem_append.mp hx with hx | hx
  · exact covered_parameterRows hP x hx
  · simp only [List.mem_cons, List.not_mem_nil, or_false] at hx
    rcases hx with rfl | rfl | rfl
    · exact hP _ hchild trivial
    · exact hP _ trivial trivial
    · exact hP _ trivial hmessage

theorem stores_createQueuedRun (hP : Covers R P) {body : RunCreate} {createdBy : Uuid}
    {correlationId : RequestId}
    (h : R.run ⟨body.requestedCpu, body.requestedMemoryMb, body.notes,
      normalizedTags rt body.tags⟩) :
    Stores R P (fun _ => True) (createQueuedRun rt settings body createdBy correlationId) := by
  have htemplate : Stores R P (fun _ => True) (findTemplate body.templateKey body.templateVersion) := by
    unfold findTemplate
    refine stores_select.bind fun found _ => ?_
    cases found with
    | none => exact trivial
    | some template =>
        dsimp only
        cases registryGet template.key template.version <;> exact trivial
  refine htemplate.bind fun template _ => ?_
  refine .bind (.ofExcept (Q := fun _ => True) fun _ _ => trivial) fun validated _ => ?_
  refine stores_call.bind fun id _ =>
    .bind (.ofExcept (Q := fun _ => True) fun _ _ => trivial) fun _ _ => ?_
  refine (stores_flush (List.forall_mem_singleton.mpr
    (hP _ (by exact h) (by trivial)))).bind fun _ _ => ?_
  refine (stores_transitionRun h).bind fun x hx => stores_newMessage.bind fun message hmessage => ?_
  exact (stores_commit (covered_submitted hP hx hmessage)).bind fun _ _ =>
    stores_refreshRun.mono fun _ _ => trivial

theorem stores_retryRun (hP : Covers R P) {runId : Uuid} {body : RunRetryRequest} {user : User}
    {correlationId : RequestId} :
    Stores R P (fun _ => True) (retryRun rt settings runId body user correlationId) := by
  refine stores_getRunOr404.bind fun parent hparent => stores_ensureRunControl.bind fun _ _ => ?_
  split
  · refine stores_select.bind fun found _ => ?_
    cases found with
    | none => exact trivial
    | some template =>
        refine stores_select.bind fun stored _ => ?_
        refine .bind (.ofExcept (Q := fun _ => True) fun _ _ => trivial) fun validated _ => ?_
        refine stores_call.bind fun id _ =>
          (stores_flush (List.forall_mem_singleton.mpr
            (hP _ (by exact hparent) (by trivial)))).bind fun _ _ => ?_
        refine (stores_transitionRun (by exact hparent)).bind fun x hx =>
          stores_newMessage.bind fun message hmessage => ?_
        exact (stores_commit (covered_submitted hP hx hmessage)).bind fun _ _ =>
          stores_refreshRun.mono fun _ _ => trivial
  · exact trivial

theorem stores_cancelRun (hP : Covers R P) {runId : Uuid} {user : User} {correlationId : RequestId} :
    Stores R P (fun _ => True) (cancelRun settings runId user correlationId) := by
  refine stores_getRunOr404.bind fun run hrun => stores_ensureRunControl.bind fun _ _ => ?_
  split
  · refine (stores_transitionRun hrun).bind fun x hx =>
      stores_newMessage.bind fun message hmessage => ?_
    have hwrites : ∀ y ∈ [Write.updateRun x.1, .insertEvent x.2, .insertOutbox message],
        P y := hP.forall (by simpa [Write.Noted, Write.Ordinary] using ⟨hx, hmessage⟩)
    exact (stores_commit hwrites).bind fun _ _ => stores_refreshRun.mono fun _ _ => trivial
  · exact trivial

/-- An edit stores what it was sent, in normal form, if no tag is too long. -/
theorem stores_updateRunMetadata (hP : Covers R P) {runId : Uuid} {body : RunMetadataUpdate}
    {user : User}
    (h : (∀ tag ∈ normalizedTags rt body.tags, tag.length ≤ 40) → ∀ terms, R.run terms →
      R.run { terms with notes := body.notes, tags := normalizedTags rt body.tags }) :
    Stores R P (fun _ => True) (updateRunMetadata rt runId body user) := by
  refine stores_getRunOr404.bind fun run hrun => stores_ensureRunControl.bind fun _ _ => ?_
  dsimp only
  split
  · exact trivial
  · next hshort =>
    have hnoted := h (fun tag htag => not_lt.mp fun hlong => hshort (List.any_eq_true.mpr
      ⟨tag, List.mem_eraseDups.mp htag, decide_eq_true hlong⟩)) run.terms hrun
    refine .bind (.ofExcept (Q := fun _ => True) fun _ _ => trivial) fun _ _ => ?_
    refine (stores_commit fun x hx => ?_).bind fun _ _ => stores_refreshRun.mono fun _ _ => trivial
    rcases List.mem_append.mp hx with hx | hx
    · split at hx
      · cases hx
      · obtain rfl := List.mem_singleton.mp hx
        exact hP _ hnoted trivial
    · obtain rfl := List.mem_singleton.mp hx
      exact hP _ trivial trivial

theorem stores_registerWorker (hP : Covers R P) {name : String} {totals : WorkerTotals} :
    Stores R P (fun _ => True) (registerWorker name totals) := by
  unfold registerWorker
  refine stores_selectForUpdate.bind fun found _ => ?_
  cases found with
  | nil =>
      exact stores_call.bind fun _ _ => stores_call.bind fun _ _ =>
        (stores_flush (hP.forall (by simp [Write.Noted, Write.Ordinary]))).bind fun _ _ =>
          (stores_commit (by simp)).bind fun _ _ => stores_refreshWorker
  | cons loaded rest =>
      exact stores_call.bind fun _ _ => (stores_flush (covered_workerUpdate hP)).bind fun _ _ =>
        stores_refreshWorkerCapacity.bind fun _ _ =>
          (stores_commit (covered_workerUpdate hP)).bind fun _ _ => stores_refreshWorker

theorem stores_heartbeatWorker (hP : Covers R P) {workerId : Uuid} {leaseSeconds : ℤ} :
    Stores R P (fun _ => True) (heartbeatWorker workerId leaseSeconds) := by
  refine stores_getWorker.bind fun found _ => ?_
  cases found with
  | none => exact trivial
  | some loaded =>
      refine stores_call.bind fun now _ => (stores_flush (covered_workerUpdate hP)).bind fun _ _ => ?_
      refine stores_select.bind fun allocations _ => (stores_flush fun x hx => ?_).bind fun _ _ => ?_
      · obtain ⟨a, -, hx⟩ := List.mem_flatMap.mp hx
        exact covered_renewal hP x hx
      · exact stores_refreshWorkerCapacity.bind fun _ _ =>
          (stores_commit (covered_workerUpdate hP)).bind fun _ _ =>
            stores_refreshWorker.bind fun _ _ => trivial

theorem stores_putArtifacts (hP : Covers R P) {runId : Uuid} {begun : Bool}
    {artifacts : List GeneratedArtifact} :
    Stores R P (fun added => ∀ rows, added = .ok rows → ∀ x ∈ rows, P x)
      (putArtifacts rt runId begun artifacts) := by
  induction artifacts generalizing begun with
  | nil => simp [putArtifacts, Prog.Writes]
  | cons generated rest ih =>
      unfold putArtifacts
      refine stores_call.bind fun input _ => ?_
      cases input.failure with
      | some exc => exact fun rows h => by cases h
      | none =>
          refine ih.bind fun added hadded rows hrows x hx => ?_
          cases added with
          | error failure => cases hrows
          | ok added =>
              obtain rfl := Except.ok.inj hrows
              rcases List.mem_cons.mp hx with rfl | hx
              · exact hP _ trivial trivial
              · exact hadded added rfl x hx

theorem covered_logRows (hP : Covers R P) {runId : Uuid} {logs : List (String × String)} :
    ∀ x ∈ logRows runId logs, P x := by
  intro x hx
  obtain ⟨_, -, rfl⟩ := List.mem_map.mp hx
  exact hP _ trivial trivial

theorem covered_metricRows (hP : Covers R P) {runId : Uuid} {metrics : List (String × ℚ)} :
    ∀ x ∈ metricRows runId metrics, P x := by
  intro x hx
  obtain ⟨_, -, rfl⟩ := List.mem_map.mp hx
  exact hP _ trivial trivial

theorem stores_executeFailed (hP : Covers R P) {run : Run} {begun : Bool} {exc : Exc} :
    Stores R P (fun run => R.run run.terms) (executeFailed run begun exc) := by
  refine .bind (R := fun _ => True) (.stmt nofun fun _ _ => trivial) fun _ _ => ?_
  split
  · exact trivial
  · refine stores_getRun.bind fun found hfound => ?_
    cases found with
    | none => exact trivial
    | some run =>
        have hrun := hfound run rfl
        cases exc with
        | _ => exact stores_finishRun hP hrun (by simp)

theorem stores_executeTemplate (hP : Covers R P) {definition : TemplateDefinition} {run : Run}
    (h : R.run run.terms) :
    Stores R P (fun run => R.run run.terms) (executeTemplate rt definition run) := by
  unfold executeTemplate
  split
  · refine stores_call.bind fun input _ => ?_
    cases input.failure with
    | some exc => exact stores_executeFailed hP
    | none =>
        refine (stores_putArtifacts hP).bind fun artifacts hartifacts => ?_
        cases artifacts with
        | error failure => exact stores_executeFailed hP
        | ok artifacts =>
            refine (stores_finishRun hP h fun x hx => ?_).tryCatch fun _ => trivial
            rcases List.mem_append.mp hx with hx | hx
            · rcases List.mem_append.mp hx with hx | hx
              · exact covered_logRows hP x hx
              · exact covered_metricRows hP x hx
            · exact hartifacts artifacts rfl x hx
  · exact stores_executeFailed hP

theorem stores_slowCheckpoints (hP : Covers R P) {run : Run} {totalSteps : ℕ} {steps : List ℕ}
    (h : R.run run.terms) :
    Stores R P (fun x => R.run x.2.terms) (slowCheckpoints run totalSteps steps) := by
  induction steps generalizing run with
  | nil => exact h
  | cons step steps ih =>
      unfold slowCheckpoints
      refine stores_refreshRun.bind fun run hrun => ?_
      split
      · exact (stores_finishRun hP hrun
          (hP.forall (by simp [Write.Noted, Write.Ordinary]))).bind fun run _ =>
            stores_refreshRun.bind fun run hrun => hrun
      · exact (stores_commit
          (hP.forall (by simp [Write.Noted, Write.Ordinary]))).bind fun _ _ => ih hrun

theorem stores_finishSlowRun (hP : Covers R P) {run : Run} {parameters : SlowDemoParameters}
    {totalSteps : ℕ}
    (h : R.run run.terms) :
    Stores R P (fun _ => True) (finishSlowRun rt run parameters totalSteps) := by
  have hend {run : Run} {target : RunStatus} {eventType : String} {metadata : Record}
      {added : List Write} (h : R.run run.terms) (hadded : ∀ x ∈ added, P x) :
      Stores R P (fun _ => True) (do
        let run ← finishRun run target eventType metadata added
        session.refreshRun {} run) :=
    (stores_finishRun hP h hadded).bind fun run _ => stores_refreshRun.mono fun _ _ => trivial
  unfold finishSlowRun
  split
  · exact hend (by exact h) (by simp)
  · refine stores_call.bind fun input _ => ?_
    cases input.failure with
    | none => exact hend h (hP.forall (by simp [Write.Noted, Write.Ordinary]))
    | some exc =>
        cases exc with
        | artifactStorage message => exact hend (by exact h) (by simp)
        | _ => exact trivial

theorem stores_executeStarted (hP : Covers R P) {run : Run} {template : TrainingTemplate}
    {validated : Parameters}
    (h : R.run run.terms) :
    Stores R P (fun _ => True) (executeStarted rt run template validated) := by
  refine .bind (.ofExcept (Q := fun _ => True) fun _ _ => trivial) fun definition _ => ?_
  split
  · cases validated with
    | classification _ => exact trivial
    | slowDemo parameters =>
        refine stores_call.bind fun _ _ => ?_
        refine (stores_commit (hP.forall (by simp [Write.Noted, Write.Ordinary]))).bind fun _ _ => ?_
        refine (stores_slowCheckpoints hP h).bind fun x hx => ?_
        dsimp only
        split
        · exact trivial
        · exact stores_finishSlowRun hP hx
  · exact (stores_executeTemplate hP h).bind fun _ _ => stores_refreshRun.mono fun _ _ => trivial

theorem stores_executeExistingRun (hP : Covers R P) {runId : Uuid}
    {expectedWorkerId leaseToken : Option Uuid} :
    Stores R P (fun _ => True) (executeExistingRun rt runId expectedWorkerId leaseToken) := by
  refine stores_getRun.bind fun found hfound => ?_
  cases found with
  | none => exact trivial
  | some run =>
      have hrun := hfound run rfl
      dsimp only
      split
      · refine stores_select.bind fun found _ => ?_
        cases found with
        | none => exact trivial
        | some allocation =>
            dsimp only
            split
            · refine stores_select.bind fun found _ => ?_
              cases found with
              | none => exact trivial
              | some template =>
                  refine stores_select.bind fun parameters _ => ?_
                  refine .bind (.ofExcept (Q := fun _ => True) fun _ _ => trivial) fun validated _ => ?_
                  refine (stores_transitionRun hrun).bind fun x hx => ?_
                  refine (stores_commit (hP.forall
                    (by simpa [Write.Noted, Write.Ordinary] using hx))).bind fun _ _ => ?_
                  exact (stores_executeStarted hP (by exact hx)).bind fun _ _ => trivial
            · exact trivial
      · exact trivial

theorem stores_processEvent (hP : Covers R P) {event : EventEnvelope} {workerId : Option Uuid}
    (hprocessed : ∀ eventWorkerId, P (.insertProcessed
      ⟨event.eventId, (consumerNamePrefix, workerId.getD eventWorkerId)⟩)) :
    Stores R P (fun _ => True) (processEvent rt event workerId) := by
  unfold processEvent
  split
  · exact trivial
  · unfold processAssignment
    split
    · refine stores_select.bind fun processed _ => ?_
      split
      · exact trivial
      · exact .bind (.ofExcept (Q := fun _ => True) fun _ _ => trivial) fun leaseToken _ =>
          (stores_executeExistingRun hP).bind fun _ _ =>
            (stores_commit (List.forall_mem_singleton.mpr (hprocessed _))).bind fun _ _ => trivial
    · exact trivial

theorem stores_dispatchBatch (hdispatched : ∀ loaded changed, P (.updateOutbox loaded changed))
    {limit maxAttempts : ℕ} :
    Stores R P (fun _ => True) (dispatchBatch limit maxAttempts) := by
  have hpublish (messages : List OutboxMessage) :
      Stores R P (fun x => ∀ y ∈ x.2, P y) (publishMessages messages) := by
    induction messages with
    | nil => simp [publishMessages, Prog.Writes]
    | cons message rest ih =>
        unfold publishMessages
        refine stores_call.bind fun input _ => ?_
        cases input.failure with
        | some exc => exact List.forall_mem_singleton.mpr (hdispatched _ _)
        | none => exact stores_call.bind fun now _ => ih.bind fun x hx =>
            List.forall_mem_cons.mpr ⟨hdispatched _ _, hx⟩
  unfold dispatchBatch
  exact stores_selectForUpdate.bind fun messages _ => (hpublish messages).bind fun x hx =>
    (stores_commit hx).bind fun _ _ => trivial

theorem stores_recoverRun (hP : Covers R P) {allocation : ResourceAllocation} {run : Run}
    (h : R.run run.terms) :
    Stores R P (fun pending => ∀ x ∈ pending, P x) (recoverRun allocation run) := by
  have htransition {run : Run} {target : RunStatus} {eventType : String} {metadata : Record}
      (change : Run → Run) (h : R.run run.terms)
      (hchange : ∀ run, R.run run.terms → R.run (change run).terms) :
      Stores R P (fun pending => ∀ x ∈ pending, P x) 
        (transitionRun {} run target eventType metadata >>= fun x =>
          Prog.ret [Write.updateRun (change x.1), .insertEvent x.2]) :=
    (stores_transitionRun h).bind fun x hx =>
      hP.forall (by simpa [Write.Noted, Write.Ordinary] using hchange _ hx)
  unfold recoverRun
  split
  · exact htransition (fun run => { run with assignedWorkerId := none }) h fun _ => id
  · exact htransition id (by exact h) fun _ => id
  · exact htransition id h fun _ => id
  · simp [Prog.Writes]

theorem stores_recoverAllocations (hP : Covers R P) {loaded : List Worker} {pending : List Write}
    {allocations : List ResourceAllocation} (h : ∀ x ∈ pending, P x) :
    Stores R P (fun x => ∀ y ∈ x.2, P y) (recoverAllocations loaded pending allocations) := by
  induction allocations generalizing loaded pending with
  | nil => exact h
  | cons allocation rest ih =>
      unfold recoverAllocations
      refine (stores_flush h).bind fun _ _ => stores_getRun.bind fun found hfound => ?_
      have hrest {pending : List Write} (h : ∀ x ∈ pending, P x) :
          Stores R P (fun x => ∀ y ∈ x.2, P y)
            (releaseAllocation allocation.runId pending loaded >>= fun x =>
              recoverAllocations x.2.1 x.2.2 rest) :=
        (stores_releaseAllocation hP h).bind fun x hx => ih hx
      cases found with
      | none => exact hrest (by simp)
      | some run =>
          exact (stores_recoverRun hP (hfound run rfl)).bind fun pending hpending => hrest hpending

theorem stores_refreshWorkers (hP : Covers R P) {pending : List Write} {workers : List Worker}
    (h : ∀ x ∈ pending, P x) :
    Stores R P (fun pending => ∀ x ∈ pending, P x) (refreshWorkers pending workers) := by
  induction workers generalizing pending with
  | nil => exact h
  | cons worker rest ih =>
      unfold refreshWorkers
      exact (stores_flush h).bind fun _ _ => stores_refreshWorkerCapacity.bind fun _ _ =>
        ih (covered_workerUpdate hP)

theorem stores_recoverExpiredAllocations (hP : Covers R P) :
    Stores R P (fun x => ∀ y ∈ x.2, P y) (recoverExpiredAllocations settings) := by
  unfold recoverExpiredAllocations
  refine stores_call.bind fun now _ => stores_selectForUpdate.bind fun stale _ => ?_
  refine (stores_flush fun x hx => ?_).bind fun _ _ =>
    stores_selectForUpdate.bind fun allocations _ => ?_
  · obtain ⟨worker, -, hx⟩ := List.mem_flatMap.mp hx
    exact covered_workerUpdate hP x hx
  · exact (stores_recoverAllocations hP (by simp)).bind fun x hx =>
      (stores_refreshWorkers hP hx).bind fun pending hpending => hpending

theorem stores_assignRuns (hP : Covers R P) {now healthyAfter : Time} {pending : List Write}
    {runs : List Run}
    (h : ∀ x ∈ pending, P x) (hruns : ∀ run ∈ runs, R.run run.terms)
    (hlease : ∀ a, R.lease a) :
    Stores R P (fun x => ∀ y ∈ x.2, P y) (assignRuns settings now healthyAfter pending runs) := by
  induction runs generalizing pending with
  | nil => exact h
  | cons run rest ih =>
      have hrest : ∀ run ∈ rest, R.run run.terms := fun run hrun => hruns run (by simp [hrun])
      unfold assignRuns
      refine (stores_flush h).bind fun _ _ => stores_selectForUpdate.bind fun found _ => ?_
      cases found with
      | nil => exact ih (by simp) hrest
      | cons worker _ =>
          refine stores_call.bind fun id _ => stores_call.bind fun leaseToken _ => ?_
          refine (stores_flush (hP.forall
            (by simpa [Write.Noted, Write.Ordinary] using hlease _))).bind fun _ _ => ?_
          refine (stores_transitionRun (by exact hruns run (by simp))).bind fun x hx => ?_
          have hmessage : Stores R P
              (fun message => message.publishedAt = none ∧ message.publishAttempts = 0)
              (assignmentEvent settings run worker {
              id := id, runId := run.id, workerId := worker.id, cpu := run.requestedCpu,
              memoryMb := run.requestedMemoryMb, leaseToken := leaseToken,
              leaseExpiresAt := now + seconds settings.allocationLeaseSeconds, releasedAt := none }) :=
            stores_call.bind fun _ _ => stores_newMessage
          refine hmessage.bind fun message hnew => (ih (fun y hy => ?_) hrest).bind fun x hx => hx
          simp only [List.cons_append, List.nil_append, List.mem_cons, List.mem_append,
            List.not_mem_nil, or_false] at hy
          rcases hy with rfl | rfl | hy | rfl
          · exact hP _ hx trivial
          · exact hP _ trivial trivial
          · exact covered_workerUpdate hP y hy
          · exact hP _ trivial hnew

theorem stores_scheduleOnce (hP : Covers R P) (hlease : ∀ a, R.lease a) :
    Stores R P (fun _ => True) (scheduleOnce settings) := by
  unfold scheduleOnce
  refine (stores_recoverExpiredAllocations hP).bind fun x hx => stores_call.bind fun now _ => ?_
  refine (stores_flush hx).bind fun _ _ => ?_
  have hqueue : Stores R P (fun runs => ∀ run ∈ runs, R.run run.terms)
      (session.selectForUpdate {} true (fun r => .run r.id) fun db free => db.queue free) := by
    refine .stmt nofun fun reply hgood run hrun => ?_
    have hmem := (List.mem_insertionSort _).mp (List.mem_of_mem_take hrun)
    exact hgood run.id run (Table.get?_of_mem (List.mem_filter.mp hmem).1)
  exact hqueue.bind fun runs hruns => (stores_assignRuns hP (by simp) hruns hlease).bind fun x hx =>
    (stores_commit hx).bind fun _ _ => trivial

/-- Every session stores ordinary writes; a delivery enters its message as
processed and a dispatcher updates the outbox besides. -/
theorem stores_code (hP : Covers R P) {κ : Kind} (hcreate : ∀ body createdBy correlationId,
      κ = .createRun body createdBy correlationId → R.run ⟨body.requestedCpu,
        body.requestedMemoryMb, body.notes, normalizedTags rt body.tags⟩)
    (hupdate : ∀ runId body user, κ = .updateRunMetadata runId body user →
      (∀ tag ∈ normalizedTags rt body.tags, tag.length ≤ 40) → ∀ terms, R.run terms →
        R.run { terms with notes := body.notes, tags := normalizedTags rt body.tags })
    (hlease : κ = .schedule → ∀ a, R.lease a)
    (hprocessed : ∀ event workerId, κ = .processEvent event workerId → ∀ eventWorkerId,
      P (.insertProcessed ⟨event.eventId, (consumerNamePrefix, workerId.getD eventWorkerId)⟩))
    (hdispatched : ∀ limit maxAttempts, κ = .dispatchBatch limit maxAttempts →
      ∀ loaded changed, P (.updateOutbox loaded changed)) :
    Stores R P (fun _ => True) (κ.code rt settings) := by
  cases κ with
  | createRun body createdBy correlationId =>
      exact (stores_createQueuedRun hP (hcreate _ _ _ rfl)).bind fun _ _ => trivial
  | retryRun runId body user correlationId => exact (stores_retryRun hP).bind fun _ _ => trivial
  | cancelRun runId user correlationId => exact (stores_cancelRun hP).bind fun _ _ => trivial
  | updateRunMetadata runId body user =>
      exact (stores_updateRunMetadata hP (hupdate _ _ _ rfl)).bind fun _ _ => trivial
  | registerWorker name totals => exact (stores_registerWorker hP).bind fun _ _ => trivial
  | heartbeat workerId => exact (stores_heartbeatWorker hP).bind fun _ _ => trivial
  | schedule => exact (stores_scheduleOnce hP (hlease rfl)).bind fun _ _ => trivial
  | processEvent event workerId =>
      exact (stores_processEvent hP (hprocessed _ _ rfl)).bind fun _ _ => trivial
  | dispatchBatch limit maxAttempts =>
      exact (stores_dispatchBatch (hdispatched _ _ rfl)).bind fun _ _ => trivial

/-- Whatever is related by the normal forms of what requests submit, is
related throughout. -/
theorem notes_code {κ : Kind} (hcreate : ∀ body createdBy correlationId,
      κ = .createRun body createdBy correlationId → R.run ⟨body.requestedCpu,
        body.requestedMemoryMb, body.notes, normalizedTags rt body.tags⟩)
    (hupdate : ∀ runId body user, κ = .updateRunMetadata runId body user →
      (∀ tag ∈ normalizedTags rt body.tags, tag.length ≤ 40) → ∀ terms, R.run terms →
        R.run { terms with notes := body.notes, tags := normalizedTags rt body.tags })
    (hlease : κ = .schedule → ∀ a, R.lease a) :
    Notes R (fun _ => True) (κ.code rt settings) :=
  stores_code (fun _ hnoted _ => hnoted) hcreate hupdate hlease (fun _ _ _ _ => trivial)
    fun _ _ _ _ _ => trivial

end Written

end Runscope
