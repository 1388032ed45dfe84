import Runscope.ExperimentNames
import Runscope.RunCommands
import Runscope.Transact.Race

/-!
How the mutations of the API end when others commit between their reads and
their commit.

A command that the database refuses where its own checks passed ends in
`unexpected_error_handler`, unless it catches the refusal. Which states do
that is `Mutation.Undisputed`.
-/

namespace Runscope

open Transact

inductive Response where
  | success (statusCode : ℕ)
  /-- `app_error_handler` -/
  | error (error : AppError)
  /-- `unexpected_error_handler`: 500, `internal_error` -/
  | unexpected
  deriving DecidableEq, Repr

def respond {α : Type} (statusCode : ℕ) : Except Exc α → Response
  | .ok _ => .success statusCode
  | .error (.app error) => .error error
  | .error _ => .unexpected

inductive Mutation where
  | cancelRun (runId : Uuid) (user : User) (correlationId : RequestId)
  | retryRun (runId : Uuid) (body : RunRetryRequest) (user : User) (correlationId : RequestId)
  | updateRunMetadata (runId : Uuid) (body : RunMetadataUpdate) (user : User)
  | createExperiment (body : ExperimentCreate) (userId : Uuid)
  | updateExperiment (experimentId : Uuid) (body : ExperimentUpdate)
  | deleteExperiment (experimentId : Uuid)
  | deleteProject (projectId : Uuid)

/-- The answer to a request, whether it sent any writes, the state the others
left, and the one it leaves. -/
structure Ending where
  response : Response
  sent : Bool
  found : Catalog
  left : Catalog

/-- A run command leaves the rest of the catalog alone. -/
abbrev Catalog.withPlatform (c : Catalog) (p : Platform) : Catalog := { c with platform := p }

section Endings

variable {α : Type}

/-- A command on runs; it reads and writes the platform only. -/
def Ending.ofProgram (statusCode : ℕ) (draw : ℕ → Input) (reads : ℕ → Catalog) (met : Catalog)
    (p : Program α) : Ending :=
  let result := p.play storage draw (.start (fun n => (reads n).platform) met.platform)
  { response := respond statusCode result.1
    sent := result.2.met.isNone
    found := met.withPlatform result.2.found
    left := met.withPlatform result.2.state }

def Ending.ofCatalogProgram (statusCode : ℕ) (draw : ℕ → Input) (reads : ℕ → Catalog)
    (met : Catalog) (p : CatalogProgram α) : Ending :=
  let result := p.play catalogStorage draw (.start reads met)
  { response := respond statusCode result.1
    sent := result.2.met.isNone
    found := result.2.found
    left := result.2.state }

end Endings

variable (rt : Runtime) (settings : Settings)

/-- The endpoint's answer is built from the row it returns. -/
def rendered (p : CatalogProgram Experiment) : CatalogProgram ExperimentResponse := do
  let experiment ← p
  Prog.ofExcept experiment.response

/-- The command whose reads find `reads`, in this order, and whose writes
meet `met`. -/
def Mutation.ending (draw : ℕ → Input) (reads : ℕ → Catalog) (met : Catalog) : Mutation → Ending
  | cancelRun runId user correlationId =>
      .ofProgram 200 draw reads met (Runscope.cancelRun settings runId user correlationId)
  | retryRun runId body user correlationId =>
      .ofProgram 201 draw reads met (Runscope.retryRun rt settings runId body user correlationId)
  | updateRunMetadata runId body user =>
      .ofProgram 200 draw reads met (Runscope.updateRunMetadata rt runId body user)
  | createExperiment body userId =>
      .ofCatalogProgram 201 draw reads met
        (rendered (Runscope.createExperiment rt body userId))
  | updateExperiment experimentId body =>
      .ofCatalogProgram 200 draw reads met
        (rendered (Runscope.updateExperiment rt experimentId body))
  | deleteExperiment experimentId =>
      .ofCatalogProgram 204 draw reads met (Runscope.deleteExperiment experimentId)
  | deleteProject projectId =>
      .ofCatalogProgram 204 draw reads met (Runscope.deleteProject projectId)

/-- The tags a metadata request asks for. -/
def RunMetadataUpdate.normalized (body : RunMetadataUpdate) : List String :=
  (body.tags.filter fun tag => rt.strip tag ≠ "").map fun tag => rt.lower (rt.strip tag)

/-- The run as a metadata request changes it. -/
def RunMetadataUpdate.edited (body : RunMetadataUpdate) (run : Run) : Run :=
  { run with notes := body.notes, tags := (body.normalized rt).eraseDups }

/-- The command's change is in. A column that is set to the value it was read
with is no change. -/
def Mutation.Done (read found left : Catalog) : Mutation → Prop
  | cancelRun runId _ _ =>
      ∃ run, left.platform.db.runs.get? runId = some run ∧ run.status = .cancelling
  | retryRun runId _ user _ =>
      ∃ child, found.platform.db.runs.get? child.id = none ∧
        left.platform.db.runs.get? child.id = some child ∧ child.parentRunId = some runId ∧
        child.status = .queued ∧ child.createdBy = user.id
  | updateRunMetadata runId body user =>
      ∃ loaded run, read.platform.db.runs.get? runId = some loaded ∧
        left.platform.db.runs.get? runId = some run ∧
        (body.edited rt loaded ≠ loaded →
          run.notes = body.notes ∧ run.tags = (body.normalized rt).eraseDups) ∧
        ∃ event ∈ left.platform.db.events, event.runId = runId ∧
          event.eventType = "run.metadata.updated" ∧
          event.eventMetadata = [("updated_by", .uuid user.id)]
  | createExperiment body userId =>
      ∃ id, found.experiments.get? id = none ∧ left.experiments.get? id =
        some ⟨id, body.projectId, body.name, body.description, some body.tags, userId⟩
  | updateExperiment experimentId body =>
      ∃ loaded experiment, read.experiments.get? experimentId = some loaded ∧
        left.experiments.get? experimentId = some experiment ∧
        (∀ name, body.name = some (some name) → name ≠ loaded.name → experiment.name = name) ∧
        (∀ text, body.description = some (some text) → text ≠ loaded.description →
          experiment.description = text) ∧
        ∀ tags, body.tags = some tags → tags ≠ loaded.tags → experiment.tags = tags
  | deleteExperiment experimentId => left.experiments.get? experimentId = none
  | deleteProject projectId => left.projects.get? projectId = none

/-- What the command reads stands in its way: its name is taken, or the project
has dependants. -/
def Mutation.Obstructed (reads : ℕ → Catalog) : Mutation → Prop
  | createExperiment body _ =>
      ((reads 0).projects.get? body.projectId).isSome ∧
        NameClaim.rivals ⟨body.projectId, body.name, none⟩ rt (reads 1) ≠ []
  | updateExperiment experimentId body =>
      ∃ experiment name, (reads 0).experiments.get? experimentId = some experiment ∧
        body.name = some (some name) ∧ name ≠ "" ∧
        NameClaim.rivals ⟨experiment.projectId, name, some experiment.id⟩ rt (reads 1) ≠ []
  | deleteProject projectId =>
      ((reads 0).projects.get? projectId).isSome ∧
        ∃ e ∈ (reads 1).experiments.rows, e.projectId = projectId
  | cancelRun .. | retryRun .. | updateRunMetadata .. | deleteExperiment _ => False

/-- Either the change is in and the answer is 2xx, or the answer is a
structured 4xx and the database is as the others left it. The answer is 409 if
it was the database that refused, or the command found what it would refuse. -/
def Mutation.Clean (m : Mutation) (reads : ℕ → Catalog) (e : Ending) : Prop :=
  match e.response with
  | .success statusCode =>
      200 ≤ statusCode ∧ statusCode < 300 ∧ m.Done rt (reads 0) e.found e.left
  | .error error =>
      400 ≤ error.statusCode ∧ error.statusCode < 500 ∧
        (e.sent ∨ m.Obstructed rt reads → error.statusCode = 409) ∧ e.left = e.found
  | .unexpected => False

/-- The loaded experiment still exists, and if the database accepts the update
its tags are not null then. -/
def ExperimentUpdate.Renderable (body : ExperimentUpdate) (loaded : Experiment) (met : Catalog) :
    Prop :=
  ∃ current, met.experiments.get? loaded.id = some current ∧
    (catalogStorage.firstError met
        (experimentUpdate loaded (body.assign loaded.columns)) = none →
      (Experiment.merge loaded (body.assign loaded.columns) current).tags.isSome)

/-- The columns of the loaded experiment that change take texts. -/
def ExperimentUpdate.Storable (body : ExperimentUpdate) (loaded : Experiment) : Prop :=
  ∀ text ∈ (CatalogWrite.updateExperiment loaded (body.assign loaded.columns)).texts, storable text

/-- What the command's own checks let through, the database accepts, and the
row it leaves makes an answer. -/
def Mutation.Undisputed (reads : ℕ → Catalog) (met : Catalog) : Mutation → Prop
  | cancelRun runId user _ =>
      ∀ run, (reads 0).platform.db.runs.get? runId = some run → ensureRunControl user run = .ok () →
        run.status = .running → (met.platform.db.runs.get? runId).map Run.version = some run.version
  | retryRun runId _ user _ =>
      -- the template's code is still registered
      ∀ parent template, (reads 0).platform.db.runs.get? runId = some parent →
        ensureRunControl user parent = .ok () → parent.status = .failed →
        (reads 1).platform.db.templates.get? parent.templateId = some template →
        (registry.find? fun d => d.key = template.key ∧ d.version = template.version).isSome
  | updateRunMetadata runId body user =>
      ∀ run, (reads 0).platform.db.runs.get? runId = some run → ensureRunControl user run = .ok () →
        (∀ tag ∈ body.normalized rt, tag.length ≤ 40) →
        (body.notes ≠ run.notes → storable body.notes) ∧
        (met.platform.db.runs.get? runId).isSome ∧ (body.edited rt run ≠ run →
          (met.platform.db.runs.get? runId).map Run.version = some run.version)
  | createExperiment body _ =>
      ((reads 0).projects.get? body.projectId).isSome → storable (rt.lower body.name) ∧
        (NameClaim.rivals ⟨body.projectId, body.name, none⟩ rt (reads 1) = [] →
          storable body.name ∧ storable body.description)
  | updateExperiment experimentId body =>
      ∀ experiment, (reads 0).experiments.get? experimentId = some experiment →
        (∀ name, body.name = some (some name) → name ≠ "" → storable (rt.lower name)) ∧
        ((∀ name, body.name = some (some name) → name ≠ "" →
          NameClaim.rivals ⟨experiment.projectId, name, some experiment.id⟩ rt (reads 1) = []) →
        body.Renderable experiment met ∧ body.Storable experiment)
  | deleteExperiment experimentId =>
      ((reads 0).experiments.get? experimentId).isSome →
        (met.experiments.get? experimentId).isSome →
        ∀ run ∈ met.platform.db.runs.rows, run.experimentId ≠ experimentId
  | deleteProject projectId =>
      ((reads 0).projects.get? projectId).isSome →
        (∀ e ∈ (reads 1).experiments.rows, e.projectId ≠ projectId) →
        (met.projects.get? projectId).isSome →
        ∀ e ∈ met.experiments.rows, e.projectId ≠ projectId

/-- `uuid4` has drawn no key that is in use. -/
def FreshDraws (draw : ℕ → Input) (met : Catalog) : Prop :=
  ∀ n, met.platform.db.runs.get? (draw n).uuid = none ∧
    met.platform.db.outbox.get? (draw n).uuid = none ∧
    ∀ p ∈ met.platform.db.parameters, p.runId ≠ (draw n).uuid

section Clean

variable {rt} {m : Mutation} {reads : ℕ → Catalog} {found left : Catalog} {sent : Bool}

theorem Mutation.clean_success {statusCode : ℕ} (h : 200 ≤ statusCode ∧ statusCode < 300)
    (hdone : m.Done rt (reads 0) found left) :
    m.Clean rt reads ⟨.success statusCode, sent, found, left⟩ := ⟨h.1, h.2, hdone⟩

theorem Mutation.clean_error {error : AppError}
    (h : 400 ≤ error.statusCode ∧ error.statusCode < 500)
    (hobstructed : m.Obstructed rt reads → error.statusCode = 409) :
    m.Clean rt reads ⟨.error error, false, found, found⟩ :=
  ⟨h.1, h.2, fun hsent => hobstructed (hsent.resolve_left Bool.false_ne_true), rfl⟩

theorem Mutation.clean_conflict {error : AppError} (h : error.statusCode = 409) :
    m.Clean rt reads ⟨.error error, sent, found, found⟩ := by
  refine ⟨?_, ?_, fun _ => h, rfl⟩ <;> rw [h] <;> decide

end Clean

section Settled

variable {α S Row W : Type} {rt} {m : Mutation} {reads : ℕ → Catalog} {met : Catalog}
  {embed : S → Catalog} {statusCode : ℕ} {r : Racer S Row W Call Input} {rs : ℕ → S} {s s' : S}

/-- Where the command ends, it ends clean just if it was undisputed; `embed`
tells the catalog its database belongs to. -/
def Mutation.Settled (rt : Runtime) (m : Mutation) (reads : ℕ → Catalog) (met : Catalog)
    (embed : S → Catalog) (statusCode : ℕ) (outcome : Except Exc α)
    (r : Racer S Row W Call Input) : Prop :=
  m.Clean rt reads ⟨respond statusCode outcome, r.met.isNone, embed r.found, embed r.state⟩ ↔
    m.Undisputed rt reads met

/-- The command's own checks turn it down. -/
theorem Mutation.Settled.rejected {error : AppError} (hr : r.Before rs s)
    (h : 400 ≤ error.statusCode ∧ error.statusCode < 500)
    (hobstructed : m.Obstructed rt reads → error.statusCode = 409)
    (hundisputed : m.Undisputed rt reads met) :
    m.Settled rt reads met embed statusCode (.error (.app error) : Except Exc α) r := by
  refine iff_of_true ?_ hundisputed
  simp only [hr.met, hr.found, Option.isNone_some]
  exact clean_error h hobstructed

/-- The database refuses the change, and the command says so. -/
theorem Mutation.Settled.conflict {error : AppError} (hr : r.After s s)
    (h : error.statusCode = 409) (hundisputed : m.Undisputed rt reads met) :
    m.Settled rt reads met embed statusCode (.error (.app error) : Except Exc α) r := by
  refine iff_of_true ?_ hundisputed
  simp only [hr.state, hr.found]
  exact clean_conflict h

/-- The change is in. -/
theorem Mutation.Settled.accepted {a : α} (hr : r.After s s')
    (h : 200 ≤ statusCode ∧ statusCode < 300) (hdone : m.Done rt (reads 0) (embed s) (embed s'))
    (hundisputed : m.Undisputed rt reads met) :
    m.Settled rt reads met embed statusCode (.ok a) r := by
  refine iff_of_true ?_ hundisputed
  simp only [hr.found, hr.state]
  exact clean_success h hdone

/-- An exception nobody expects. -/
theorem Mutation.Settled.failed {e : Exc} (he : ∀ error, e ≠ .app error)
    (hdisputed : ¬ m.Undisputed rt reads met) :
    m.Settled rt reads met embed statusCode (.error e : Except Exc α) r := by
  refine iff_of_false ?_ hdisputed
  cases e with
  | app error => exact absurd rfl (he error)
  | staleData | integrity | connectionLost | noResultFound | runtime | key | artifactStorage
  | other => exact id

end Settled

/-! ### Commands on runs -/

section Runs

variable {α : Type} {rt settings} {draw : ℕ → Input} {reads : ℕ → Catalog} {met : Catalog}
  {m : Mutation} {r : Racer Platform RowKey Write Call Input}

/-- The platforms of the states a command finds. -/
abbrev platforms (reads : ℕ → Catalog) : ℕ → Platform := fun n => (reads n).platform

variable {β : Type} {Q : Except Exc α → Racer Platform RowKey Write Call Input → Prop}
  {rs : ℕ → Platform} {p p' : Platform} {pt : Point}

theorem select_ends {query : Db → β} {k : β → Program α} (hr : r.Before rs p)
    (h : ∀ r', r'.Before (fun n => rs (n + 1)) p →
      (k (query (rs 0).db)).Ends storage draw r' Q) :
    (session.select pt query >>= k).Ends storage draw r Q :=
  Prog.Ends.bind (Prog.Ends.read hr fun _ => h)

theorem getRunOr404_ends {runId : Uuid} {k : Run → Program α} (hr : r.Before rs p)
    (hnone : ∀ error r', (rs 0).db.runs.get? runId = none → error.statusCode = 404 →
      r'.Before (fun n => rs (n + 1)) p → Q (.error (.app error)) r')
    (hsome : ∀ run r', (rs 0).db.runs.get? runId = some run →
      r'.Before (fun n => rs (n + 1)) p → (k run).Ends storage draw r' Q) :
    (getRunOr404 runId >>= k).Ends storage draw r Q := by
  refine Prog.Ends.bind (select_ends hr fun r' hr' => ?_)
  cases hget : (rs 0).db.runs.get? runId with
  | none => exact Prog.Ends.raise (hnone _ r' hget rfl hr')
  | some run => exact Prog.Ends.ret (hsome run r' hget hr')

theorem ensureRunControl_cases (user : User) (run : Run) :
    ensureRunControl user run = .ok () ∨
      ∃ error, ensureRunControl user run = .error (.app error) ∧ error.statusCode = 403 := by
  unfold ensureRunControl
  split
  · exact Or.inr ⟨_, rfl, rfl⟩
  · exact Or.inl rfl

/-- How the commands on a run begin. -/
theorem controlled_ends {runId : Uuid} {user : User} {k : Run → Program α} (hr : r.Before rs p)
    (hrejected : ∀ error r', 400 ≤ error.statusCode ∧ error.statusCode < 500 →
      (∀ run, (rs 0).db.runs.get? runId = some run → ensureRunControl user run ≠ .ok ()) →
      r'.Before (fun n => rs (n + 1)) p → Q (.error (.app error)) r')
    (hcontrolled : ∀ run r', (rs 0).db.runs.get? runId = some run →
      ensureRunControl user run = .ok () → r'.Before (fun n => rs (n + 1)) p →
      (k run).Ends storage draw r' Q) :
    (getRunOr404 runId >>= fun run =>
      Prog.ofExcept (ensureRunControl user run) >>= fun _ => k run).Ends storage draw r Q := by
  refine getRunOr404_ends hr (fun error r hget hcode hr => ?_) fun run r hget hr => ?_
  · refine hrejected error r (by rw [hcode]; decide) (fun run hrun => ?_) hr
    exact nomatch hget.symm.trans hrun
  obtain hcontrol | ⟨error, hcontrol, hcode⟩ := ensureRunControl_cases user run
  · rw [hcontrol]
    exact Prog.Ends.bind (Prog.Ends.ret (hcontrolled run r hget hcontrol hr))
  · rw [hcontrol]
    refine hrejected error r (by rw [hcode]; decide) (fun run' hrun => ?_) hr
    obtain rfl := Option.some.inj (hget.symm.trans hrun)
    simp [hcontrol]

section Calls

variable {P : Racer Platform RowKey Write Call Input → Prop}

theorem datetimeNow_ends {k : Time → Program α} (hP : Racer.Calm P) (hr : P r)
    (h : ∀ now r', P r' → (k now).Ends storage draw r' Q) :
    (datetimeNow pt >>= k).Ends storage draw r Q :=
  Prog.Ends.bind (Prog.Ends.call hP hr (fun _ _ => rfl) fun _ _ => h _)

theorem uuid4_ends {k : Uuid → Program α} (hP : Racer.Calm P) (hr : P r)
    (h : ∀ n r', P r' → (k (draw n).uuid).Ends storage draw r' Q) :
    (uuid4 pt >>= k).Ends storage draw r Q :=
  Prog.Ends.bind (Prog.Ends.call hP hr (fun _ _ => rfl) fun n _ => h n)

theorem outboxEvent_ends {run : Run} {eventType : String} {payload : Record}
    {correlationId : RequestId} {k : OutboxMessage → Program α} (hP : Racer.Calm P) (hr : P r)
    (h : ∀ n message r', message.id = (draw n).uuid → P r' → (k message).Ends storage draw r' Q) :
    (outboxEvent settings run eventType payload correlationId >>= k).Ends storage draw r Q := by
  refine Prog.Ends.bind (uuid4_ends hP hr fun _ _ hr => datetimeNow_ends hP hr fun _ _ hr =>
    uuid4_ends hP hr fun n r' hr' => Prog.Ends.ret ?_)
  exact h n _ r' rfl hr'

theorem transitionRun_ends {run : Run} {target : RunStatus} {eventType : String}
    {metadata : Record} {k : Run × RunEvent → Program α} (h : target ∈ validTransitions run.status)
    (hP : Racer.Calm P) (hr : P r)
    (hk : ∀ now r', P r' →
      (k (run.transitioned target now, run.transitionEvent target eventType metadata)).Ends storage
        draw r' Q) :
    (transitionRun pt run target eventType metadata >>= k).Ends storage draw r Q := by
  refine Prog.Ends.bind ?_
  rw [transitionRun, validateTransition, if_pos h]
  exact Prog.Ends.bind (Prog.Ends.ret (datetimeNow_ends hP hr fun now r' hr' =>
    Prog.Ends.ret (hk now r' hr')))

end Calls

theorem commit_ends {pending : List Write} {k : Unit → Program α} (hr : r.Before rs p)
    (hrefused : ∀ i e r', storage.firstError p (pending.map (Write.stamp i)) = some e →
      r'.After p p → Q (.error e) r')
    (haccepted : ∀ i r', storage.firstError p (pending.map (Write.stamp i)) = none →
      r'.After p (storage.applyAll p (pending.map (Write.stamp i))) →
      (k ()).Ends storage draw r' Q) :
    (session.commit pt pending >>= k).Ends storage draw r Q :=
  Prog.Ends.bind (Prog.Ends.flush_commit hr hrefused haccepted)

section Refresh

variable {run : Run} {Q : Except Exc Run → Racer Platform RowKey Write Call Input → Prop}

theorem refreshRun_ends_get? (hr : r.After p p')
    (h : ∀ r', r'.After p p' → (match p'.db.runs.get? run.id with
      | some run => Prog.ret run
      | none => Prog.raise (.other "InvalidRequestError") : Program Run).Ends storage draw r' Q) :
    (session.refreshRun {} run).Ends storage draw r Q :=
  Prog.Ends.bind (Prog.Ends.reread hr fun _ r' hr' => h r' hr')

theorem refreshRun_ends {current : Run} (hr : r.After p p')
    (hget : p'.db.runs.get? run.id = some current)
    (h : ∀ r', r'.After p p' → Q (.ok current) r') :
    (session.refreshRun {} run).Ends storage draw r Q := by
  refine refreshRun_ends_get? hr fun r' hr' => ?_
  rw [hget]
  exact h r' hr'

theorem refreshRun_ends_none (hr : r.After p p') (hget : p'.db.runs.get? run.id = none)
    (h : ∀ r', r'.After p p' → Q (.error (.other "InvalidRequestError")) r') :
    (session.refreshRun {} run).Ends storage draw r Q := by
  refine refreshRun_ends_get? hr fun r' hr' => ?_
  rw [hget]
  exact h r' hr'

end Refresh

section Checks

variable {q : Platform} {w : Write} {ws : List Write}

theorem firstError_cons_of_check (h : w.check q = none) :
    storage.firstError q (w :: ws) = storage.firstError (w.apply q) ws := by
  rw [Storage.firstError, show storage.check w q = none from h]
  rfl

theorem firstError_cons_of_refused {e : Exc} (h : w.check q = some e) :
    storage.firstError q (w :: ws) = some e := by
  rw [Storage.firstError, show storage.check w q = some e from h]

/-- A new event and a new message are always accepted. -/
theorem firstError_message {event : RunEvent} {message : OutboxMessage}
    (h : q.db.outbox.get? message.id = none) :
    storage.firstError q [.insertEvent event, .insertOutbox message] = none := by
  rw [firstError_cons_of_check rfl, firstError_cons_of_check, Storage.firstError_nil]
  simp [Write.check, Write.apply, Write.applyDb, h]

/-- A versioned update before writes that are accepted. -/
theorem firstError_updateRun {run : Run}
    (h : storage.firstError ((Write.updateRun run).apply q) ws = none) :
    storage.firstError q (.updateRun run :: ws) =
      if (q.db.runs.get? run.id).map Run.version = some run.version then none
      else some .staleData := by
  split
  · next hversion => rw [firstError_cons_of_check (by rw [Write.check, if_pos hversion]), h]
  · next hversion => exact firstError_cons_of_refused (by rw [Write.check, if_neg hversion])

theorem get?_updateRun {run current : Run} (h : q.db.runs.get? run.id = some current) :
    ((Write.updateRun run).apply q).db.runs.get? run.id = some (run.stored current) := by
  simp [Write.apply, Write.applyDb, Table.get?_update, h]

/-- The parameters of a run that has none yet. -/
theorem firstError_parameterRows {runId : Uuid} {parameters : Record}
    (hnodup : (parameters.map Prod.fst).Nodup)
    (hfree : ∀ x ∈ parameters, ∀ y ∈ q.db.parameters, ¬ (y.runId = runId ∧ y.name = x.1)) :
    storage.firstError q (parameterRows runId parameters) = none := by
  induction parameters generalizing q with
  | nil => rfl
  | cons x parameters ih =>
      obtain ⟨hx, hnodup⟩ := List.nodup_cons.mp hnodup
      have hcheck : (Write.insertParameter ⟨runId, x.1, x.2⟩).check q = none := by
        have hany : ¬ q.db.parameters.any fun y => y.runId = runId ∧ y.name = x.1 := by
          simpa using hfree x (by simp)
        exact if_neg hany
      refine (firstError_cons_of_check hcheck).trans (ih hnodup fun x' hx' y hy => ?_)
      obtain hy | rfl := List.mem_append.mp hy |>.imp_right List.mem_singleton.mp
      · exact hfree x' (List.mem_cons_of_mem _ hx') y hy
      · exact fun h => hx (List.mem_map.mpr ⟨x', hx', h.2.symm⟩)

theorem applyAll_parameterRows (runId : Uuid) (parameters : Record) :
    (storage.applyAll q (parameterRows runId parameters)).db.runs = q.db.runs ∧
      (storage.applyAll q (parameterRows runId parameters)).db.outbox = q.db.outbox := by
  induction parameters generalizing q with
  | nil => exact ⟨rfl, rfl⟩
  | cons x parameters ih => exact ih

end Checks

/-- A versioned update is the only write of the command that the database may refuse. -/
theorem update_ends {run : Run} {rest : List Write} {statusCode : ℕ}
    (hr : r.Before rs met.platform) (hcode : 200 ≤ statusCode ∧ statusCode < 300)
    (hrest : ∀ i, storage.firstError ((Write.updateRun run).apply met.platform)
      (rest.map (Write.stamp i)) = none)
    (hruns : ∀ i q, (storage.applyAll q (rest.map (Write.stamp i))).db.runs = q.db.runs)
    (hundisputed : m.Undisputed rt reads met ↔
      (met.platform.db.runs.get? run.id).map Run.version = some run.version)
    (hdone : ∀ i current p, p = storage.applyAll ((Write.updateRun run).apply met.platform)
      (rest.map (Write.stamp i)) → p.db.runs.get? run.id = some (run.stored current) →
      m.Done rt (reads 0) met (met.withPlatform p)) :
    (session.commit {} (.updateRun run :: rest) >>= fun _ => session.refreshRun {} run).Ends storage
      draw r (m.Settled rt reads met met.withPlatform statusCode) := by
  have hchecked (i : Input) : storage.firstError met.platform
      ((.updateRun run :: rest).map (Write.stamp i)) =
      if (met.platform.db.runs.get? run.id).map Run.version = some run.version then none
      else some .staleData := firstError_updateRun (hrest i)
  refine commit_ends hr (fun i e r hrefused hr => ?_) fun i r haccepted hr => ?_
  · rw [hchecked] at hrefused
    split at hrefused
    case isTrue => cases hrefused
    case isFalse hversion =>
      cases hrefused
      exact Mutation.Settled.failed (by simp) fun h => hversion (hundisputed.mp h)
  · rw [hchecked] at haccepted
    split at haccepted
    case isFalse => cases haccepted
    case isTrue hversion =>
      obtain ⟨current, hcurrent, -⟩ := Option.map_eq_some_iff.mp hversion
      have hleft : (storage.applyAll met.platform
          ((Write.updateRun run :: rest).map (Write.stamp i))).db.runs.get? run.id =
          some (run.stored current) := by
        rw [List.map_cons, Storage.applyAll_cons, hruns]
        exact get?_updateRun hcurrent
      exact refreshRun_ends hr hleft fun r hr => Mutation.Settled.accepted hr hcode
        (hdone i current _ rfl hleft) (hundisputed.mpr hversion)

theorem cancelRun_settled (runId : Uuid) (user : User) (correlationId : RequestId)
    (hfresh : FreshDraws draw met) :
    (Mutation.cancelRun runId user correlationId).Clean rt reads
        ((Mutation.cancelRun runId user correlationId).ending rt settings draw reads met) ↔
      (Mutation.cancelRun runId user correlationId).Undisputed rt reads met := by
  have hends : (cancelRun settings runId user correlationId).Ends storage draw
      (.start (platforms reads) met.platform)
      ((Mutation.cancelRun runId user correlationId).Settled rt reads met met.withPlatform 200) := by
    refine controlled_ends (Racer.before_start _ _) (fun error r hcode hdenied hr => ?_)
      fun run r hget hcontrol hr => ?_
    · exact Mutation.Settled.rejected hr hcode False.elim fun run hrun hok =>
        absurd hok (hdenied run hrun)
    have hundisputed : (Mutation.cancelRun runId user correlationId).Undisputed rt reads met ↔
        (run.status = .running →
          (met.platform.db.runs.get? runId).map Run.version = some run.version) := by
      refine ⟨fun h => h run hget hcontrol, fun h run' hrun _ => ?_⟩
      obtain rfl := Option.some.inj (hget.symm.trans hrun)
      exact h
    by_cases hrunning : run.status = .running
    · rw [if_pos hrunning]
      obtain rfl : run.id = runId := Table.key_of_get? hget
      refine transitionRun_ends (by rw [hrunning]; decide) (Racer.calm_before _ _) hr
        fun now r hr => ?_
      refine outboxEvent_ends (Racer.calm_before _ _) hr fun n message r hid hr => ?_
      refine update_ends hr (by decide) (fun i => firstError_message (hid ▸ (hfresh n).2.1))
        (fun _ _ => rfl) ?_ fun i current p _ hleft => ⟨_, hleft, rfl⟩
      exact hundisputed.trans ⟨fun h => h hrunning, fun h _ => h⟩
    · rw [if_neg hrunning]
      exact Mutation.Settled.rejected hr (by simp) False.elim
        (hundisputed.mpr fun h => absurd h hrunning)
  exact hends

/-- The event a metadata request adds. -/
def RunMetadataUpdate.event (_ : RunMetadataUpdate) (user : User) (run : Run) : RunEvent where
  runId := run.id
  eventType := "run.metadata.updated"
  previousStatus := none
  newStatus := none
  eventMetadata := [("updated_by", .uuid user.id)]
  createdAt := 0

/-- How a metadata request that passed its checks ends. -/
theorem edited_ends {body : RunMetadataUpdate} {user : User} {run : Run}
    (hr : r.Before rs met.platform) (hget : (reads 0).platform.db.runs.get? run.id = some run)
    (hundisputed : (Mutation.updateRunMetadata run.id body user).Undisputed rt reads met ↔
      (met.platform.db.runs.get? run.id).isSome ∧ (body.edited rt run ≠ run →
        (met.platform.db.runs.get? run.id).map Run.version = some run.version)) :
    (session.commit {} ((if body.edited rt run = run then []
      else [.updateRun (body.edited rt run)]) ++ [.insertEvent (body.event user run)]) >>= fun _ =>
        session.refreshRun {} (body.edited rt run)).Ends storage draw r
      ((Mutation.updateRunMetadata run.id body user).Settled rt reads met met.withPlatform 200) := by
  have hevent (p : Platform) (i : Input) : ∃ event ∈ (storage.applyAll p
      ([.insertEvent (body.event user run)].map (Write.stamp i))).db.events,
        event.runId = run.id ∧ event.eventType = "run.metadata.updated" ∧
          event.eventMetadata = [("updated_by", .uuid user.id)] :=
    ⟨{ body.event user run with createdAt := i.clock },
      List.mem_append_right _ (List.mem_singleton_self _), rfl, rfl, rfl⟩
  by_cases hsame : body.edited rt run = run
  · rw [if_pos hsame]
    refine commit_ends hr (fun i e r hrefused hr => nomatch hrefused) fun i r _ hr => ?_
    cases hcurrent : met.platform.db.runs.get? run.id with
    | none =>
        refine refreshRun_ends_none hr hcurrent fun r hr => ?_
        refine Mutation.Settled.failed (by simp) fun h => ?_
        exact absurd (hundisputed.mp h).1 (by simp [hcurrent])
    | some current =>
        refine refreshRun_ends hr hcurrent fun r hr => ?_
        refine Mutation.Settled.accepted hr (by decide) ⟨run, current, hget, hcurrent,
          fun h => absurd hsame h, hevent _ i⟩ (hundisputed.mpr ⟨by simp [hcurrent], ?_⟩)
        exact fun h => absurd hsame h
  · rw [if_neg hsame]
    refine update_ends hr (by decide) (fun _ => rfl) (fun _ _ => rfl) (hundisputed.trans ?_)
      fun i current p hp hleft => ⟨run, _, hget, hleft, fun _ => ⟨rfl, rfl⟩, ?_⟩
    · refine ⟨fun h => h.2 hsame, fun h => ⟨?_, fun _ => h⟩⟩
      obtain ⟨current, hcurrent, -⟩ := Option.map_eq_some_iff.mp h
      exact Option.isSome_iff_exists.mpr ⟨current, hcurrent⟩
    · rw [hp]
      exact hevent _ i

theorem updateRunMetadata_settled (runId : Uuid) (body : RunMetadataUpdate) (user : User) :
    (Mutation.updateRunMetadata runId body user).Clean rt reads
        ((Mutation.updateRunMetadata runId body user).ending rt settings draw reads met) ↔
      (Mutation.updateRunMetadata runId body user).Undisputed rt reads met := by
  have hends : (updateRunMetadata rt runId body user).Ends storage draw
      (.start (platforms reads) met.platform)
      ((Mutation.updateRunMetadata runId body user).Settled rt reads met met.withPlatform 200) := by
    refine controlled_ends (Racer.before_start _ _) (fun error r hcode hdenied hr => ?_)
      fun run r hget hcontrol hr => ?_
    · exact Mutation.Settled.rejected hr hcode False.elim fun run hrun hok =>
        absurd hok (hdenied run hrun)
    have hundisputed : (Mutation.updateRunMetadata runId body user).Undisputed rt reads met ↔
        ((∀ tag ∈ body.normalized rt, tag.length ≤ 40) →
          (body.notes ≠ run.notes → storable body.notes) ∧
          (met.platform.db.runs.get? runId).isSome ∧ (body.edited rt run ≠ run →
            (met.platform.db.runs.get? runId).map Run.version = some run.version)) := by
      refine ⟨fun h => h run hget hcontrol, fun h run' hrun _ => ?_⟩
      obtain rfl := Option.some.inj (hget.symm.trans hrun)
      exact h
    change (if (body.normalized rt).any fun tag => 40 < tag.length then _ else _ :
      Program Run).Ends storage draw r _
    split
    case isTrue hlong =>
      refine Mutation.Settled.rejected hr (by simp) False.elim (hundisputed.mpr fun h => ?_)
      obtain ⟨tag, htag, hlength⟩ := List.any_eq_true.mp hlong
      exact absurd (h tag htag) (by simpa using hlength)
    case isFalse hshort =>
      have htags : ∀ tag ∈ body.normalized rt, tag.length ≤ 40 := by simpa using hshort
      obtain rfl : run.id = runId := Table.key_of_get? hget
      have hchecked : (Mutation.updateRunMetadata run.id body user).Undisputed rt reads met ↔ _ :=
        hundisputed.trans ⟨fun h => h htags, fun h _ => h⟩
      by_cases hnotes : body.notes = run.notes ∨ storable body.notes
      · have hsent : (if body.notes = run.notes then .ok () else sendText body.notes :
            Except Exc Unit) = .ok () := by
          rw [sendText]
          grind
        dsimp only
        rw [hsent]
        exact Prog.Ends.bind (Prog.Ends.ret (edited_ends hr hget
          (hchecked.trans ⟨And.right, fun h => ⟨hnotes.resolve_left, h⟩⟩)))
      · obtain ⟨hchanged, hnul⟩ := not_or.mp hnotes
        dsimp only
        rw [if_neg hchanged, sendText, if_neg hnul]
        refine Prog.Ends.bind (Prog.Ends.raise (Mutation.Settled.failed (by simp) fun h => ?_))
        exact hnul ((hchecked.mp h).1 hchanged)
  exact hends

/-- A new run with its parameters, where its id is not in use. -/
theorem submit_ends {draft : Run} {metadata parameters : Record} {correlationId : RequestId}
    {payload : Run → Record} {statusCode : ℕ} {k : Run × RunEvent → Program Run}
    (hk : ∀ run event, k (run, event) = do
      let message ← outboxEvent settings run "run.submitted" (payload run) correlationId
      session.commit {} (parameterRows run.id parameters ++
        [.updateRun run, .insertEvent event, .insertOutbox message])
      session.refreshRun {} run)
    (hr : r.Before rs met.platform) (hcode : 200 ≤ statusCode ∧ statusCode < 300)
    (hstatus : draft.status = .draft) (hnodup : (parameters.map Prod.fst).Nodup)
    (hfresh : FreshDraws draw met) (hid : ∃ n, draft.id = (draw n).uuid)
    (hundisputed : m.Undisputed rt reads met)
    (hdone : ∀ child p, p.db.runs.get? draft.id = some child → child.status = .queued →
      child.id = draft.id → child.parentRunId = draft.parentRunId →
      child.createdBy = draft.createdBy → m.Done rt (reads 0) met (met.withPlatform p)) :
    (session.flush {} [.insertRun draft] >>= fun _ =>
      transitionRun {} draft .queued "run.queued" metadata >>= k).Ends storage draw r
      (m.Settled rt reads met met.withPlatform statusCode) := by
  obtain ⟨n, hid⟩ := hid
  obtain ⟨hrun, -, hparameters⟩ := hfresh n
  rw [← hid] at hrun hparameters
  have hinsert (i : Input) : (Write.insertRun { draft with createdAt := i.clock }).check
      met.platform = none := by simp [Write.check, hrun]
  refine Prog.Ends.bind (Prog.Ends.flush hr (fun i e r hrefused _ => ?_) fun i r _ hr => ?_)
  · have haccepted : storage.firstError met.platform
        [.insertRun { draft with createdAt := i.clock }] = none :=
      firstError_cons_of_check (hinsert i)
    cases hrefused.symm.trans haccepted
  refine transitionRun_ends (by rw [hstatus]; decide) (Racer.calm_within _ _ _) hr
    fun now r hr => ?_
  rw [hk]
  refine outboxEvent_ends (Racer.calm_within _ _ _) hr fun k message r hmessage hr => ?_
  let created : Run := { draft with createdAt := i.clock }
  let start := (Write.insertRun created).apply met.platform
  have hrow : start.db.runs.get? draft.id = some created := by
    simp [start, created, Write.apply, Write.applyDb, Table.get?_insert, hrun]
  obtain ⟨hruns, houtbox⟩ := applyAll_parameterRows (q := start) draft.id parameters
  have hwrites : (parameterRows draft.id parameters ++ [Write.updateRun (draft.transitioned .queued now),
      .insertEvent (draft.transitionEvent .queued "run.queued" metadata),
      .insertOutbox message]).map (Write.stamp i) = parameterRows draft.id parameters ++
      [Write.updateRun (draft.transitioned .queued now),
        .insertEvent { draft.transitionEvent .queued "run.queued" metadata with
          createdAt := i.clock },
        .insertOutbox { message with createdAt := i.clock }] := by
    rw [List.map_append, parameterRows_stamp]
    rfl
  refine Prog.Ends.bind (Prog.Ends.bind (Prog.Ends.reflush hr ?_ fun r hr =>
    Prog.Ends.commit hr fun r hr => ?_))
  · change storage.firstError start ((parameterRows draft.id parameters ++ _).map
      (Write.stamp i)) = none
    rw [hwrites, Storage.firstError_append_eq_none]
    refine ⟨firstError_parameterRows hnodup fun x _ y hy h => hparameters y hy h.1, ?_⟩
    rw [firstError_updateRun, if_pos]
    · rw [hruns, Run.transitioned_id, hrow]
      rfl
    · refine firstError_message ?_
      change (storage.applyAll start _).db.outbox.get? message.id = none
      rw [houtbox, hmessage]
      exact (hfresh k).2.1
  · have hleft : (storage.applyAll met.platform ([Write.insertRun created] ++
        (parameterRows draft.id parameters ++ [Write.updateRun (draft.transitioned .queued now),
        .insertEvent (draft.transitionEvent .queued "run.queued" metadata),
        .insertOutbox message]).map (Write.stamp i))).db.runs.get? draft.id =
        some ((draft.transitioned .queued now).stored created) := by
      rw [hwrites, Storage.applyAll_append, Storage.applyAll_append]
      refine get?_updateRun ?_
      change (storage.applyAll start _).db.runs.get? draft.id = _
      rw [hruns, hrow]
    exact refreshRun_ends hr hleft fun r hr => Mutation.Settled.accepted hr hcode
      (hdone _ _ hleft rfl rfl rfl rfl) hundisputed

theorem validateParameters_cases (template : TrainingTemplate) (values : Record) :
    ((registry.find? fun d => d.key = template.key ∧ d.version = template.version) = none ∧
      ∃ message, validateParameters rt template values = .error (.key message)) ∨
    ((registry.find? fun d => d.key = template.key ∧ d.version = template.version).isSome ∧
      ((∃ error, error.statusCode = 422 ∧
          validateParameters rt template values = .error (.app error)) ∨
        ∃ validated : Parameters,
          validateParameters rt template values = .ok (validated, validated.modelDump))) := by
  unfold validateParameters registryGet
  cases hfind : registry.find? fun d => d.key = template.key ∧ d.version = template.version with
  | none => exact Or.inl ⟨rfl, _, rfl⟩
  | some d =>
      refine Or.inr ⟨rfl, ?_⟩
      cases hvalid : d.validateParameters rt values with
      | none => exact Or.inl ⟨_, rfl, by simp [bind, Except.bind, hvalid]; rfl⟩
      | some validated => exact Or.inr ⟨validated, by simp [bind, Except.bind, hvalid]⟩

theorem retryRun_settled (runId : Uuid) (body : RunRetryRequest) (user : User)
    (correlationId : RequestId) (hfresh : FreshDraws draw met) :
    (Mutation.retryRun runId body user correlationId).Clean rt reads
        ((Mutation.retryRun runId body user correlationId).ending rt settings draw reads met) ↔
      (Mutation.retryRun runId body user correlationId).Undisputed rt reads met := by
  have hends : (retryRun rt settings runId body user correlationId).Ends storage draw
      (.start (platforms reads) met.platform)
      ((Mutation.retryRun runId body user correlationId).Settled rt reads met met.withPlatform 201) := by
    refine controlled_ends (Racer.before_start _ _) (fun error r hcode hdenied hr => ?_)
      fun parent r hget hcontrol hr => ?_
    · exact Mutation.Settled.rejected hr hcode False.elim fun run _ hrun hok _ _ =>
        absurd hok (hdenied run hrun)
    have hundisputed : (Mutation.retryRun runId body user correlationId).Undisputed rt reads met ↔
        (parent.status = .failed → ∀ template,
          (reads 1).platform.db.templates.get? parent.templateId = some template →
          (registry.find? fun d => d.key = template.key ∧ d.version = template.version).isSome) := by
      refine ⟨fun h hfailed template => h parent template hget hcontrol hfailed,
        fun h run template hrun _ => ?_⟩
      obtain rfl := Option.some.inj (hget.symm.trans hrun)
      exact fun hfailed => h hfailed template
    by_cases hfailed : parent.status = .failed
    case neg =>
      rw [if_neg hfailed]
      exact Mutation.Settled.rejected hr (by simp) False.elim
        (hundisputed.mpr fun h => absurd h hfailed)
    rw [if_pos hfailed]
    refine select_ends hr fun r hr => ?_
    split
    case h_1 htemplate =>
      refine Mutation.Settled.rejected hr (by simp) False.elim
        (hundisputed.mpr fun _ template h => ?_)
      exact nomatch htemplate.symm.trans h
    case h_2 template htemplate =>
    have hregistered : (Mutation.retryRun runId body user correlationId).Undisputed rt reads met ↔
        (registry.find? fun d => d.key = template.key ∧ d.version = template.version).isSome := by
      refine hundisputed.trans ⟨fun h => h hfailed template htemplate, fun h _ template' h' => ?_⟩
      obtain rfl := Option.some.inj (htemplate.symm.trans h')
      exact h
    refine select_ends hr fun r hr => ?_
    refine Prog.Ends.bind ?_
    obtain ⟨hfind, message, hvalid⟩ | ⟨hfind, ⟨error, hcode, hvalid⟩ | ⟨validated, hvalid⟩⟩ :=
      @validateParameters_cases rt template
        (Record.update ((reads 2).platform.db.storedParameters parent.id) body.parameterOverrides)
    · rw [show validateParameters rt template _ = _ from hvalid]
      refine Mutation.Settled.failed (by simp) fun h => ?_
      have hsome := hregistered.mp h
      rw [hfind] at hsome
      cases hsome
    · rw [show validateParameters rt template _ = _ from hvalid]
      exact Mutation.Settled.rejected hr (by rw [hcode]; decide) False.elim (hregistered.mpr hfind)
    rw [show validateParameters rt template _ = _ from hvalid]
    refine Prog.Ends.ret ?_
    refine uuid4_ends (Racer.calm_before _ _) hr fun n r hr => ?_
    obtain rfl : parent.id = runId := Table.key_of_get? hget
    refine submit_ends (fun run event => rfl) hr (by decide) rfl validated.modelDump_nodup hfresh
      ⟨n, rfl⟩ (hregistered.mpr hfind) fun child p hchild hstatus hid hparent hcreator => ?_
    refine ⟨child, ?_, ?_, hparent, hstatus, hcreator⟩
    · rw [hid]
      exact (hfresh n).1
    · rw [hid]
      exact hchild
  exact hends

end Runs

/-! ### Commands on experiments and projects -/

section Catalogs

variable {α β : Type} {rt settings} {draw : ℕ → Input} {reads rs : ℕ → Catalog} {met c c' : Catalog}
  {m : Mutation} {r : Racer Catalog CatalogRow CatalogWrite Call Input} {pt : CatalogPoint}
  {Q : Except Exc α → Racer Catalog CatalogRow CatalogWrite Call Input → Prop}

theorem catalogSelect_ends {query : Catalog → β} {k : β → CatalogProgram α} (hr : r.Before rs c)
    (h : ∀ r', r'.Before (fun n => rs (n + 1)) c → (k (query (rs 0))).Ends catalogStorage draw r' Q) :
    (catalog.select pt query >>= k).Ends catalogStorage draw r Q :=
  Prog.Ends.bind (Prog.Ends.read hr fun _ => h)

theorem getExperimentOr404_ends {experimentId : Uuid} {k : Experiment → CatalogProgram α}
    (hr : r.Before rs c)
    (hnone : ∀ error r', (rs 0).experiments.get? experimentId = none → error.statusCode = 404 →
      r'.Before (fun n => rs (n + 1)) c → Q (.error (.app error)) r')
    (hsome : ∀ experiment r', (rs 0).experiments.get? experimentId = some experiment →
      r'.Before (fun n => rs (n + 1)) c → (k experiment).Ends catalogStorage draw r' Q) :
    (getExperimentOr404 experimentId >>= k).Ends catalogStorage draw r Q := by
  refine Prog.Ends.bind (catalogSelect_ends hr fun r' hr' => ?_)
  cases hget : (rs 0).experiments.get? experimentId with
  | none => exact Prog.Ends.raise (hnone _ r' hget rfl hr')
  | some experiment => exact Prog.Ends.ret (hsome experiment r' hget hr')

theorem getProjectOr404_ends {projectId : Uuid} {k : Project → CatalogProgram α}
    (hr : r.Before rs c)
    (hnone : ∀ error r', (rs 0).projects.get? projectId = none → error.statusCode = 404 →
      r'.Before (fun n => rs (n + 1)) c → Q (.error (.app error)) r')
    (hsome : ∀ project r', (rs 0).projects.get? projectId = some project →
      r'.Before (fun n => rs (n + 1)) c → (k project).Ends catalogStorage draw r' Q) :
    (getProjectOr404 projectId >>= k).Ends catalogStorage draw r Q := by
  refine Prog.Ends.bind (catalogSelect_ends hr fun r' hr' => ?_)
  cases hget : (rs 0).projects.get? projectId with
  | none => exact Prog.Ends.raise (hnone _ r' hget rfl hr')
  | some project => exact Prog.Ends.ret (hsome project r' hget hr')

theorem ensureUniqueName_ends {claim : NameClaim} {k : Unit → CatalogProgram α}
    (hr : r.Before rs c)
    (hrefused : ¬ storable (rt.lower claim.name) → Q (.error (.other "DBAPIError")) r)
    (htaken : ∀ r', storable (rt.lower claim.name) → claim.rivals rt (rs 0) ≠ [] →
      r'.Before (fun n => rs (n + 1)) c → Q (.error (.app nameConflict)) r')
    (hfree : ∀ r', storable (rt.lower claim.name) → claim.rivals rt (rs 0) = [] →
      r'.Before (fun n => rs (n + 1)) c → (k ()).Ends catalogStorage draw r' Q) :
    (ensureUniqueName rt claim >>= k).Ends catalogStorage draw r Q := by
  refine Prog.Ends.bind ?_
  rw [ensureUniqueName, sendText]
  split
  case isFalse hnul => exact Prog.Ends.raise (hrefused hnul)
  case isTrue hname =>
    refine Prog.Ends.bind (Prog.Ends.ret (catalogSelect_ends hr fun r' hr' => ?_))
    cases hrivals : claim.rivals rt (rs 0) with
    | nil => exact Prog.Ends.ret (hfree r' hname hrivals hr')
    | cons e es => exact Prog.Ends.raise (htaken r' hname (by simp [hrivals]) hr')

theorem stamp_pending (i : Input) (pending : List CatalogWrite) :
    pending.map (catalogStorage.stamp i) = pending := List.map_id' pending

theorem catalogCommit_ends {pending : List CatalogWrite}
    {Q : Except Exc Unit → Racer Catalog CatalogRow CatalogWrite Call Input → Prop}
    (hr : r.Before rs c)
    (hrefused : ∀ e r', catalogStorage.firstError c pending = some e → r'.After c c →
      Q (.error e) r')
    (haccepted : ∀ r', catalogStorage.firstError c pending = none →
      r'.After c (catalogStorage.applyAll c pending) → Q (.ok ()) r') :
    (catalog.commit pt pending).Ends catalogStorage draw r Q := by
  refine Prog.Ends.flush_commit hr (fun i e r' hchecked hr' => ?_) fun i r' hchecked hr' => ?_
  · rw [stamp_pending] at hchecked
    exact hrefused e r' hchecked hr'
  · rw [stamp_pending] at hchecked hr'
    exact haccepted r' hchecked hr'

/-- An integrity error is reported as a conflict of names. -/
theorem commitNamed_ends {pending : List CatalogWrite} {k : Unit → CatalogProgram α}
    (hr : r.Before rs c)
    (hconflict : ∀ name r', catalogStorage.firstError c pending = some (.integrity name) →
      r'.After c c → Q (.error (.app nameConflict)) r')
    (hrefused : ∀ e r', catalogStorage.firstError c pending = some e →
      (∀ name, e ≠ .integrity name) → r'.After c c → Q (.error e) r')
    (haccepted : ∀ r', catalogStorage.firstError c pending = none →
      r'.After c (catalogStorage.applyAll c pending) → (k ()).Ends catalogStorage draw r' Q) :
    (commitNamed pt pending >>= k).Ends catalogStorage draw r Q := by
  refine Prog.Ends.bind (Prog.Ends.tryCatch ?_)
  refine Prog.Ends.flush_commit hr (fun i e r' hchecked hr' => ?_) fun i r' hchecked hr' => ?_
  · rw [stamp_pending] at hchecked
    cases e with
    | integrity name =>
        exact Prog.Ends.bind (Prog.Ends.rollback hr' fun r'' hr'' =>
          Prog.Ends.raise (hconflict name r'' hchecked hr''))
    | app | staleData | connectionLost | noResultFound | runtime | key | artifactStorage | other =>
        exact Prog.Ends.raise (hrefused _ r' hchecked (by simp) hr')
  · rw [stamp_pending] at hchecked hr'
    exact haccepted r' hchecked hr'

section Refresh

variable {experiment : Experiment}
  {Q : Except Exc Experiment → Racer Catalog CatalogRow CatalogWrite Call Input → Prop}

theorem catalogRefresh_ends_get? (hr : r.After c c')
    (h : ∀ r', r'.After c c' → (match c'.experiments.get? experiment.id with
      | some experiment => Prog.ret experiment
      | none => Prog.raise (.other "InvalidRequestError") :
        CatalogProgram Experiment).Ends catalogStorage draw r' Q) :
    (catalog.refresh experiment).Ends catalogStorage draw r Q :=
  Prog.Ends.bind (Prog.Ends.reread hr fun _ r' hr' => h r' hr')

theorem catalogRefresh_ends {current : Experiment} (hr : r.After c c')
    (hget : c'.experiments.get? experiment.id = some current)
    (h : ∀ r', r'.After c c' → Q (.ok current) r') :
    (catalog.refresh experiment).Ends catalogStorage draw r Q := by
  refine catalogRefresh_ends_get? hr fun r' hr' => ?_
  rw [hget]
  exact h r' hr'

theorem catalogRefresh_ends_none (hr : r.After c c')
    (hget : c'.experiments.get? experiment.id = none)
    (h : ∀ r', r'.After c c' → Q (.error (.other "InvalidRequestError")) r') :
    (catalog.refresh experiment).Ends catalogStorage draw r Q := by
  refine catalogRefresh_ends_get? hr fun r' hr' => ?_
  rw [hget]
  exact h r' hr'

end Refresh

/-- One write, checked and applied. -/
theorem firstError_single (w : CatalogWrite) :
    catalogStorage.firstError c [w] = w.check c := by
  rw [Storage.firstError]
  cases h : w.check c <;> simp [catalogStorage, h]

/-- A delete; nothing catches the refusal. -/
theorem delete_ends {w : CatalogWrite} {name : String} {P : Prop} [Decidable P]
    (hcheck : w.check met = if P then some (.integrity name) else none) (hr : r.Before rs met)
    (hundisputed : m.Undisputed rt reads met ↔ ¬ P)
    (hdone : m.Done rt (reads 0) met (w.apply met)) :
    (catalog.commit .idle [w]).Ends catalogStorage draw r (m.Settled rt reads met id 204) := by
  refine catalogCommit_ends hr (fun e r hrefused _ => ?_) fun r haccepted hr => ?_
  · rw [firstError_single, hcheck] at hrefused
    split at hrefused
    case isTrue h =>
      cases hrefused
      exact Mutation.Settled.failed (by simp) fun hund => hundisputed.mp hund h
    case isFalse => cases hrefused
  · rw [firstError_single, hcheck] at haccepted
    split at haccepted
    case isTrue => cases haccepted
    case isFalse h => exact Mutation.Settled.accepted hr (by decide) hdone (hundisputed.mpr h)

theorem deleteExperiment_settled (experimentId : Uuid) :
    (Mutation.deleteExperiment experimentId).Clean rt reads
        ((Mutation.deleteExperiment experimentId).ending rt settings draw reads met) ↔
      (Mutation.deleteExperiment experimentId).Undisputed rt reads met := by
  have hends : (deleteExperiment experimentId).Ends catalogStorage draw (.start reads met)
      ((Mutation.deleteExperiment experimentId).Settled rt reads met id 204) := by
    refine getExperimentOr404_ends (Racer.before_start _ _) (fun error r hget hcode hr => ?_)
      fun experiment r hget hr => ?_
    · refine Mutation.Settled.rejected hr (by rw [hcode]; decide) False.elim fun hsome => ?_
      simp [hget] at hsome
    obtain rfl : experiment.id = experimentId := Table.key_of_get? hget
    refine delete_ends rfl hr ?_ (Table.get?_erase_self _ _)
    simp only [Mutation.Undisputed, hget, Option.isSome_some, true_imp_iff, List.any_eq_true,
      decide_eq_true_eq, not_and, not_exists]
  exact hends

theorem deleteProject_settled (projectId : Uuid) :
    (Mutation.deleteProject projectId).Clean rt reads
        ((Mutation.deleteProject projectId).ending rt settings draw reads met) ↔
      (Mutation.deleteProject projectId).Undisputed rt reads met := by
  have hends : (deleteProject projectId).Ends catalogStorage draw (.start reads met)
      ((Mutation.deleteProject projectId).Settled rt reads met id 204) := by
    refine getProjectOr404_ends (Racer.before_start _ _) (fun error r hget hcode hr => ?_)
      fun project r hget hr => ?_
    · refine Mutation.Settled.rejected hr (by rw [hcode]; decide) (fun h => ?_) fun hsome => ?_
      · simp [Mutation.Obstructed, hget] at h
      · simp [hget] at hsome
    obtain rfl : project.id = projectId := Table.key_of_get? hget
    refine catalogSelect_ends hr fun r hr => ?_
    split
    case h_1 e hfound =>
      have hproject : e.projectId = project.id := by simpa using List.find?_some hfound
      exact Mutation.Settled.rejected hr (by simp) (fun _ => rfl) fun _ hfree =>
        absurd hproject (hfree e (List.mem_of_find?_eq_some hfound))
    case h_2 hfound =>
      have hfree : ∀ e ∈ (reads 1).experiments.rows, e.projectId ≠ project.id := by
        simpa using List.find?_eq_none.mp hfound
      refine delete_ends rfl hr ?_ (Table.get?_erase_self _ _)
      simp only [Mutation.Undisputed, hget, Option.isSome_some, true_imp_iff, List.any_eq_true,
        decide_eq_true_eq, not_and, not_exists]
      exact ⟨fun h => h hfree, fun h _ => h⟩
  exact hends

/-- Where the command ends, its answer made. -/
abbrev Mutation.SettledRow (rt : Runtime) (m : Mutation) (reads : ℕ → Catalog) (met : Catalog)
    (statusCode : ℕ) (outcome : Except Exc Experiment)
    (r : Racer Catalog CatalogRow CatalogWrite Call Input) : Prop :=
  m.Settled rt reads met id statusCode (outcome.bind Experiment.response) r

/-- The change is in, and its answer is made unless the tags are null. -/
theorem Mutation.SettledRow.returned {experiment : Experiment} {statusCode : ℕ} {s s' : Catalog}
    (hr : r.After s s') (h : 200 ≤ statusCode ∧ statusCode < 300) (hdone : m.Done rt (reads 0) s s')
    (hundisputed : m.Undisputed rt reads met ↔ experiment.tags.isSome) :
    m.SettledRow rt reads met statusCode (.ok experiment) r := by
  show m.Settled rt reads met id statusCode experiment.response r
  unfold Experiment.response
  split
  · next htags => exact Mutation.Settled.accepted hr h hdone (hundisputed.mpr (by simp [htags]))
  · next htags =>
    exact Mutation.Settled.failed (by simp) fun hund => by simpa [htags] using hundisputed.mp hund

theorem rendered_ends {p : CatalogProgram Experiment} {statusCode : ℕ}
    (h : p.Ends catalogStorage draw r (m.SettledRow rt reads met statusCode)) :
    (rendered p).Ends catalogStorage draw r (m.Settled rt reads met id statusCode) := by
  refine Prog.Ends.bind (h.mono fun outcome r hsettled => ?_)
  cases outcome with
  | error e => exact hsettled
  | ok experiment =>
      have hsettled : m.Settled rt reads met id statusCode experiment.response r := hsettled
      show (Prog.ofExcept experiment.response).Ends catalogStorage draw r _
      cases hresponse : experiment.response with
      | ok response => exact Prog.Ends.ret (hresponse ▸ hsettled)
      | error e => exact Prog.Ends.raise (hresponse ▸ hsettled)

theorem check_of_storable {w : CatalogWrite} (h : ∀ text ∈ w.texts, storable text) (c : Catalog) :
    w.check c = w.violation c := if_pos (List.all_eq_true.mpr h)

theorem check_of_not_storable {w : CatalogWrite} (h : ¬ ∀ text ∈ w.texts, storable text)
    (c : Catalog) : w.check c = some (.other "DBAPIError") :=
  if_neg (mt List.all_eq_true.mp h)

theorem insertExperiment_violation (c : Catalog) (e : Experiment) :
    ((CatalogWrite.insertExperiment e).violation c = none ∧ c.experiments.get? e.id = none) ∨
      ∃ name, (CatalogWrite.insertExperiment e).violation c = some (.integrity name) := by
  by_cases hid : (c.experiments.get? e.id).isSome
  · exact Or.inr ⟨_, if_pos hid⟩
  by_cases hproject : c.projects.get? e.projectId = none
  · exact Or.inr ⟨_, (if_neg hid).trans (if_pos hproject)⟩
  by_cases htaken : c.taken e.projectId e.name e.id
  · exact Or.inr ⟨_, (if_neg hid).trans ((if_neg hproject).trans (if_pos htaken))⟩
  · exact Or.inl ⟨(if_neg hid).trans ((if_neg hproject).trans (if_neg htaken)), by simpa using hid⟩

theorem updateExperiment_violation {c : Catalog} {loaded current : Experiment}
    (hget : c.experiments.get? loaded.id = some current) (changed : ExperimentColumns) :
    (CatalogWrite.updateExperiment loaded changed).violation c = none ∨
      ∃ name, (CatalogWrite.updateExperiment loaded changed).violation c =
        some (.integrity name) := by
  simp only [CatalogWrite.violation, hget]
  split
  · exact Or.inr ⟨_, rfl⟩
  · split
    · exact Or.inr ⟨_, rfl⟩
    · exact Or.inl rfl

/-- A write with a text that cannot be stored; nothing catches the refusal. -/
theorem unstorable_ends {w : CatalogWrite} {k : Unit → CatalogProgram Experiment} {statusCode : ℕ}
    (hr : r.Before rs met) (hnul : ¬ ∀ text ∈ w.texts, storable text)
    (hdisputed : ¬ m.Undisputed rt reads met) :
    (commitNamed pt [w] >>= k).Ends catalogStorage draw r
      (m.SettledRow rt reads met statusCode) := by
  have hcheck := (firstError_single w).trans (check_of_not_storable hnul met)
  refine commitNamed_ends hr (fun name r h _ => ?_) (fun e r h _ _ => ?_) fun r h _ => ?_
  · cases hcheck.symm.trans h
  · obtain rfl := Option.some.inj (hcheck.symm.trans h)
    exact Mutation.Settled.failed (by simp) hdisputed
  · cases hcheck.symm.trans h

theorem createExperiment_settled (body : ExperimentCreate) (userId : Uuid) :
    (Mutation.createExperiment body userId).Clean rt reads
        ((Mutation.createExperiment body userId).ending rt settings draw reads met) ↔
      (Mutation.createExperiment body userId).Undisputed rt reads met := by
  have hends : (createExperiment rt body userId).Ends catalogStorage draw (.start reads met)
      ((Mutation.createExperiment body userId).SettledRow rt reads met 201) := by
    refine getProjectOr404_ends (Racer.before_start _ _) (fun error r hget hcode hr => ?_)
      fun project r hget hr => ?_
    · refine Mutation.Settled.rejected hr (by rw [hcode]; decide) (fun h => ?_) fun hsome => ?_
      · simp [Mutation.Obstructed, hget] at h
      · simp [hget] at hsome
    have hundisputed : (Mutation.createExperiment body userId).Undisputed rt reads met ↔
        storable (rt.lower body.name) ∧
          (NameClaim.rivals ⟨body.projectId, body.name, none⟩ rt (reads 1) = [] →
            storable body.name ∧ storable body.description) := by
      simp [Mutation.Undisputed, hget]
    refine ensureUniqueName_ends hr (fun hnul => ?_) (fun r hname hrivals hr => ?_)
      fun r hname hfree hr => ?_
    · exact Mutation.Settled.failed (by simp) fun h => hnul (hundisputed.mp h).1
    · exact Mutation.Settled.rejected hr (by decide) (fun _ => rfl)
        (hundisputed.mpr ⟨hname, fun h => absurd h hrivals⟩)
    refine Prog.Ends.bind (Prog.Ends.call (Racer.calm_before _ _) hr (fun _ _ => rfl)
      fun n _ r hr => ?_)
    let experiment : Experiment :=
      ⟨(draw n).uuid, body.projectId, body.name, body.description, some body.tags, userId⟩
    have hstored : (Mutation.createExperiment body userId).Undisputed rt reads met ↔
        ∀ text ∈ (CatalogWrite.insertExperiment experiment).texts, storable text := by
      rw [hundisputed]
      simp [CatalogWrite.texts, experiment, hname, show _ = [] from hfree]
    by_cases htexts : ∀ text ∈ (CatalogWrite.insertExperiment experiment).texts, storable text
    case neg => exact unstorable_ends hr htexts (mt hstored.mp htexts)
    replace hundisputed := hstored.mpr htexts
    have hchecked : catalogStorage.firstError met [.insertExperiment experiment] =
        (CatalogWrite.insertExperiment experiment).violation met :=
      (firstError_single _).trans (check_of_storable htexts met)
    have hviolation := insertExperiment_violation met experiment
    refine commitNamed_ends hr (fun name r _ hr => ?_) (fun e r hrefused hinteg _ => ?_)
      fun r haccepted hr => ?_
    · exact Mutation.Settled.conflict hr rfl hundisputed
    · rw [hchecked] at hrefused
      obtain ⟨hok, -⟩ | ⟨name, herror⟩ := hviolation
      · cases hok.symm.trans hrefused
      · exact absurd (Option.some.inj (hrefused.symm.trans herror)) (hinteg name)
    · rw [hchecked] at haccepted
      obtain ⟨-, hnew⟩ | ⟨name, herror⟩ := hviolation
      · have hrow : ((CatalogWrite.insertExperiment experiment).apply met).experiments.get?
            experiment.id = some experiment := by
          simp [CatalogWrite.apply, Table.get?_insert, hnew]
        exact catalogRefresh_ends hr hrow fun r hr =>
          Mutation.Settled.accepted hr (by decide) ⟨experiment.id, hnew, hrow⟩ hundisputed
      · cases herror.symm.trans haccepted
  exact rendered_ends hends

theorem assignColumn_of_ne {α : Type} [DecidableEq α] {loaded value : α} (h : value ≠ loaded)
    (current : α) : assignColumn loaded (some value) current = value := if_neg h

theorem Experiment.merge_columns (loaded current : Experiment) :
    Experiment.merge loaded loaded.columns current = current := by
  simp [Experiment.merge, Experiment.columns, assignColumn, mergeColumn]

/-- The fields of a request reach the row. -/
theorem done_of_merge {loaded : Experiment} (current : Experiment) {body : ExperimentUpdate}
    {read found : Catalog}
    (hread : read.experiments.get? loaded.id = some loaded)
    (hleft : c.experiments.get? loaded.id =
      some (Experiment.merge loaded (body.assign loaded.columns) current)) :
    (Mutation.updateExperiment loaded.id body).Done rt read found c := by
  refine ⟨loaded, _, hread, hleft, fun name hname hne => ?_, fun text htext hne => ?_,
    fun tags htags hne => ?_⟩
  · simp only [Experiment.merge, ExperimentUpdate.assign, hname, Option.getD_some]
    exact assignColumn_of_ne hne _
  · simp only [Experiment.merge, ExperimentUpdate.assign, htext, Option.getD_some]
    exact assignColumn_of_ne hne _
  · simp only [Experiment.merge, ExperimentUpdate.assign, htags, Option.getD_some]
    exact assignColumn_of_ne hne _

/-- How a request ends whose new name, if any, was free. -/
theorem updated_ends {loaded : Experiment} {body : ExperimentUpdate} (hr : r.Before rs met)
    (hread : (reads 0).experiments.get? loaded.id = some loaded)
    (hundisputed : (Mutation.updateExperiment loaded.id body).Undisputed rt reads met ↔
      body.Renderable loaded met ∧ body.Storable loaded) :
    (commitNamed pt (experimentUpdate loaded (body.assign loaded.columns)) >>= fun _ =>
      catalog.refresh loaded).Ends catalogStorage draw r
      ((Mutation.updateExperiment loaded.id body).SettledRow rt reads met 200) := by
  cases hget : met.experiments.get? loaded.id with
  | none =>
      have hdisputed : ¬ (Mutation.updateExperiment loaded.id body).Undisputed rt reads met := by
        rw [hundisputed]
        rintro ⟨⟨current, hcurrent, -⟩, -⟩
        cases hget.symm.trans hcurrent
      unfold experimentUpdate
      split
      case isTrue =>
        refine commitNamed_ends hr (by rintro _ _ ⟨⟩) (by rintro _ _ ⟨⟩)
          fun r _ hr => ?_
        exact catalogRefresh_ends_none hr hget fun r _ =>
          Mutation.Settled.failed (by simp) hdisputed
      case isFalse =>
        by_cases htexts : body.Storable loaded
        case neg => exact unstorable_ends hr htexts hdisputed
        have hviolation : (CatalogWrite.updateExperiment loaded
            (body.assign loaded.columns)).violation met = some .staleData := by
          simp [CatalogWrite.violation, hget]
        have hchecked :=
          (firstError_single _).trans ((check_of_storable htexts met).trans hviolation)
        refine commitNamed_ends hr (fun name _ h _ => ?_) (fun e r h _ hr => ?_) fun r h _ => ?_
        · cases hchecked.symm.trans h
        · obtain rfl := Option.some.inj (hchecked.symm.trans h)
          exact Mutation.Settled.failed (by simp) hdisputed
        · cases hchecked.symm.trans h
  | some current =>
      have hrenderable : body.Renderable loaded met ↔
          (catalogStorage.firstError met
              (experimentUpdate loaded (body.assign loaded.columns)) = none →
            (Experiment.merge loaded (body.assign loaded.columns) current).tags.isSome) := by
        refine ⟨?_, fun h => ⟨current, hget, h⟩⟩
        rintro ⟨current', hcurrent, h⟩
        obtain rfl := Option.some.inj (hget.symm.trans hcurrent)
        exact h
      rw [hrenderable] at hundisputed
      unfold experimentUpdate at hundisputed ⊢
      split at hundisputed
      case isTrue hsame =>
        rw [if_pos hsame]
        have htexts : body.Storable loaded := by
          rw [ExperimentUpdate.Storable, hsame]
          simp [CatalogWrite.texts, sentText, Experiment.columns]
        refine commitNamed_ends hr (by rintro _ _ ⟨⟩) (by rintro _ _ ⟨⟩)
          fun r _ hr => ?_
        have hmerged : Experiment.merge loaded (body.assign loaded.columns) current = current := by
          rw [hsame, Experiment.merge_columns]
        rw [hmerged] at hundisputed
        refine catalogRefresh_ends hr hget fun r hr => Mutation.SettledRow.returned hr (by decide)
          (done_of_merge current hread ?_)
          (hundisputed.trans ⟨fun h => h.1 rfl, fun h => ⟨fun _ => h, htexts⟩⟩)
        rw [hmerged]
        exact hget
      case isFalse hsame =>
        rw [if_neg hsame]
        by_cases htexts : body.Storable loaded
        case neg => exact unstorable_ends hr htexts fun h => htexts (hundisputed.mp h).2
        have hviolation := updateExperiment_violation hget (body.assign loaded.columns)
        refine commitNamed_ends hr (fun _ r hrefused hr => ?_) (fun e r h hinteg _ => ?_)
          fun r haccepted hr => ?_
        · refine Mutation.Settled.conflict hr rfl (hundisputed.mpr ⟨fun haccepted => ?_, htexts⟩)
          cases hrefused.symm.trans haccepted
        · rw [firstError_single, check_of_storable htexts] at h
          obtain hok | ⟨name, herror⟩ := hviolation
          · cases hok.symm.trans h
          · exact absurd (Option.some.inj (h.symm.trans herror)) (hinteg name)
        · have hrow : ((CatalogWrite.updateExperiment loaded (body.assign loaded.columns)).apply
              met).experiments.get? loaded.id =
              some (Experiment.merge loaded (body.assign loaded.columns) current) := by
            simp [CatalogWrite.apply, Table.get?_update, hget]
          exact catalogRefresh_ends hr hrow fun r hr => Mutation.SettledRow.returned hr (by decide)
            (done_of_merge current hread hrow)
            (hundisputed.trans ⟨fun h => h.1 haccepted, fun h => ⟨fun _ => h, htexts⟩⟩)

theorem updateExperiment_settled (experimentId : Uuid) (body : ExperimentUpdate) :
    (Mutation.updateExperiment experimentId body).Clean rt reads
        ((Mutation.updateExperiment experimentId body).ending rt settings draw reads met) ↔
      (Mutation.updateExperiment experimentId body).Undisputed rt reads met := by
  have hends : (updateExperiment rt experimentId body).Ends catalogStorage draw (.start reads met)
      ((Mutation.updateExperiment experimentId body).SettledRow rt reads met 200) := by
    refine getExperimentOr404_ends (Racer.before_start _ _) (fun error r hget hcode hr => ?_)
      fun loaded r hget hr => ?_
    · refine Mutation.Settled.rejected hr (by rw [hcode]; decide) (fun h => ?_)
        fun experiment h => ?_
      · obtain ⟨experiment, -, h, -⟩ := h
        exact nomatch hget.symm.trans h
      · exact nomatch hget.symm.trans h
    obtain rfl : loaded.id = experimentId := Table.key_of_get? hget
    have hundisputed : (Mutation.updateExperiment loaded.id body).Undisputed rt reads met ↔
        (∀ name, body.name = some (some name) → name ≠ "" → storable (rt.lower name)) ∧
        ((∀ name, body.name = some (some name) → name ≠ "" →
          NameClaim.rivals ⟨loaded.projectId, name, some loaded.id⟩ rt (reads 1) = []) →
        body.Renderable loaded met ∧ body.Storable loaded) := by
      refine ⟨fun h => h loaded hget, fun h experiment hexperiment => ?_⟩
      obtain rfl := Option.some.inj (hget.symm.trans hexperiment)
      exact h
    have hunchecked (h : ∀ name, body.name = some (some name) → name = "") :
        (Mutation.updateExperiment loaded.id body).Undisputed rt reads met ↔
          body.Renderable loaded met ∧ body.Storable loaded :=
      hundisputed.trans ⟨fun hund => hund.2 fun name hname hne => absurd (h name hname) hne,
        fun hsome => ⟨fun name hname hne => absurd (h name hname) hne, fun _ => hsome⟩⟩
    cases hname : body.name with
    | none => exact updated_ends hr hget (hunchecked (by simp [hname]))
    | some name? =>
        cases name? with
        | none => exact updated_ends hr hget (hunchecked (by simp [hname]))
        | some name =>
            by_cases hempty : name = ""
            · simp only [hempty, if_true]
              exact updated_ends hr hget (hunchecked (by simp [hname, hempty]))
            · simp only [hempty, if_false]
              have honly (name' : String) (h : body.name = some (some name')) : name' = name :=
                Option.some.inj (Option.some.inj (h.symm.trans hname))
              refine ensureUniqueName_ends hr (fun hnul => ?_) (fun r hstored hrivals hr => ?_)
                fun r hstored hrivals hr => ?_
              · exact Mutation.Settled.failed (by simp) fun h =>
                  hnul ((hundisputed.mp h).1 name hname hempty)
              · refine Mutation.Settled.rejected hr (by decide) (fun _ => rfl)
                  (hundisputed.mpr ⟨fun name' h _ => honly name' h ▸ hstored, fun h => ?_⟩)
                exact absurd (h name hname hempty) hrivals
              · refine updated_ends hr hget (hundisputed.trans ⟨fun h => h.2 ?_, fun h =>
                  ⟨fun name' h' _ => honly name' h' ▸ hstored, fun _ => h⟩⟩)
                intro name' hname' _
                obtain rfl := honly name' hname'
                exact hrivals
  exact rendered_ends hends

end Catalogs

/-- A mutation ends clean, whatever others commit before its writes, just if
the database accepts what the command's own checks let through. -/
theorem conflicts_structured {draw : ℕ → Input} {reads : ℕ → Catalog} {met : Catalog}
    (hfresh : FreshDraws draw met) (m : Mutation) :
    m.Clean rt reads (m.ending rt settings draw reads met) ↔ m.Undisputed rt reads met := by
  cases m with
  | cancelRun runId user correlationId => exact cancelRun_settled runId user correlationId hfresh
  | retryRun runId body user correlationId =>
      exact retryRun_settled runId body user correlationId hfresh
  | updateRunMetadata runId body user => exact updateRunMetadata_settled runId body user
  | createExperiment body userId => exact createExperiment_settled body userId
  | updateExperiment experimentId body => exact updateExperiment_settled experimentId body
  | deleteExperiment experimentId => exact deleteExperiment_settled experimentId
  | deleteProject projectId => exact deleteProject_settled projectId

namespace Demo

/-- A running run of experiment 2. -/
def started (version : ℕ) : Run where
  id := 3
  experimentId := 2
  templateId := 1
  status := .running
  priority := 0
  requestedCpu := 1
  requestedMemoryMb := 512
  assignedWorkerId := some 8
  attemptNumber := 1
  parentRunId := none
  createdBy := 5
  createdAt := 0
  queuedAt := some 0
  startedAt := some 0
  completedAt := none
  failureCode := none
  failureMessage := none
  notes := ""
  tags := []
  version := version

/-- A project with one experiment and its run. -/
def occupied (version : ℕ) : Catalog :=
  { vision with
    experiments := ⟨[⟨2, 1, "Baseline", "", some [], 5⟩], by decide⟩
    platform := { vision.platform with
      db := { vision.platform.db with runs := ⟨[started version], List.nodup_singleton _⟩ } } }

def owner : User := ⟨5, .researcher⟩

def cancelRequest : RequestId := ⟨"cancel", by decide, by decide⟩

def brokerSettings : Settings := ⟨"runscope.events", 60, 30⟩

/-- Draws that use no key of the catalog above. -/
def draws (n : ℕ) : Input := ⟨n, n + 10, none, false, ⟨[], [], []⟩⟩

theorem draws_fresh (version : ℕ) : FreshDraws draws (occupied version) := fun n =>
  ⟨Table.get?_eq_none.mpr (by simp [occupied, started, draws]), rfl, nofun⟩

end Demo

/-- An experiment that has runs is deleted; a run is cancelled that another
transaction has changed since. -/
theorem conflicts_unstructured :
    ¬ (Mutation.deleteExperiment 2).Clean Demo.lowering (fun _ => Demo.occupied 3)
        ((Mutation.deleteExperiment 2).ending Demo.lowering Demo.brokerSettings Demo.draws
          (fun _ => Demo.occupied 3) (Demo.occupied 3)) ∧
      ¬ (Mutation.cancelRun 3 Demo.owner Demo.cancelRequest).Clean Demo.lowering
        (fun _ => Demo.occupied 3)
        ((Mutation.cancelRun 3 Demo.owner Demo.cancelRequest).ending Demo.lowering
          Demo.brokerSettings Demo.draws (fun _ => Demo.occupied 3) (Demo.occupied 4)) := by
  constructor
  · intro h
    have hundisputed : (Mutation.deleteExperiment 2).Undisputed Demo.lowering
        (fun _ => Demo.occupied 3) (Demo.occupied 3) := (deleteExperiment_settled 2).mp h
    exact hundisputed rfl rfl (Demo.started 3) (List.mem_singleton_self _) rfl
  · intro h
    have hundisputed : (Mutation.cancelRun 3 Demo.owner Demo.cancelRequest).Undisputed Demo.lowering
        (fun _ => Demo.occupied 3) (Demo.occupied 4) :=
      (cancelRun_settled 3 Demo.owner Demo.cancelRequest (Demo.draws_fresh 4)).mp h
    exact absurd (hundisputed (Demo.started 3) rfl rfl rfl) (by decide)

/-- The run nobody else has changed is cancelled. -/
theorem conflicts_structured_cancelled :
    (Mutation.cancelRun 3 Demo.owner Demo.cancelRequest).Clean Demo.lowering
      (fun _ => Demo.occupied 3)
      ((Mutation.cancelRun 3 Demo.owner Demo.cancelRequest).ending Demo.lowering
        Demo.brokerSettings Demo.draws (fun _ => Demo.occupied 3) (Demo.occupied 3)) := by
  have hundisputed : (Mutation.cancelRun 3 Demo.owner Demo.cancelRequest).Undisputed Demo.lowering
      (fun _ => Demo.occupied 3) (Demo.occupied 3) := by
    rintro run hrun - -
    obtain rfl : Demo.started 3 = run := Option.some.inj hrun
    rfl
  exact (conflicts_structured Demo.lowering Demo.brokerSettings (Demo.draws_fresh 3) _).mpr
    hundisputed

end Runscope
