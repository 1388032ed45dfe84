import Runscope.Program
import Runscope.Templates

/-!
Projects and experiments: request bodies (`schemas/projects.py`) and the
commands that store, change and delete rows (`api/projects.py`,
`api/experiments.py`).

The catalog has a database of its own beside the platform, whose runs refer to
its experiments. A command flushes and commits in one go, so all its tables
are locked as one row; reads take no lock. Users are not deleted, and the
columns that refer to them are not checked again.
-/

namespace Runscope

open Transact

structure Project where
  id : Uuid
  name : String
  description : String
  createdBy : Uuid
  deriving DecidableEq

/-- A row of `experiments`. Null in the JSON column `tags` is the JSON text
`null`, which the constraint `NOT NULL` lets through. -/
structure Experiment where
  id : Uuid
  projectId : Uuid
  name : String
  description : String
  tags : Option (List String)
  createdBy : Uuid
  deriving DecidableEq

/-- `ExperimentResponse` -/
structure ExperimentResponse where
  id : Uuid
  projectId : Uuid
  name : String
  description : String
  tags : List String
  createdBy : Uuid
  deriving DecidableEq

/-- `ExperimentResponse.model_validate` of a row. -/
def Experiment.response (e : Experiment) : Except Exc ExperimentResponse :=
  match e.tags with
  | some tags => .ok ⟨e.id, e.projectId, e.name, e.description, tags, e.createdBy⟩
  | none => .error (.other "ResponseValidationError")

structure Catalog where
  projects : Table Project.id
  experiments : Table Experiment.id
  platform : Platform

/-- The columns of an experiment that a request assigns to; `none` is null. -/
structure ExperimentColumns where
  name : Option String
  description : Option String
  tags : Option (List String)
  deriving DecidableEq

def Experiment.columns (e : Experiment) : ExperimentColumns :=
  ⟨some e.name, some e.description, e.tags⟩

/-- The columns of a project that a request assigns to; `none` is null. -/
structure ProjectColumns where
  name : Option String
  description : Option String
  deriving DecidableEq

def Project.columns (p : Project) : ProjectColumns := ⟨some p.name, some p.description⟩

inductive CatalogWrite where
  | insertProject (project : Project)
  | updateProject (loaded : Project) (changed : ProjectColumns)
  | insertExperiment (experiment : Experiment)
  | updateExperiment (loaded : Experiment) (changed : ExperimentColumns)
  | deleteExperiment (id : Uuid)
  | deleteProject (id : Uuid)
  deriving DecidableEq

inductive CatalogRow where
  | tables
  deriving DecidableEq

/-- A column the session changed takes the new value, if that is not null. -/
def assignColumn {α : Type} [DecidableEq α] (loaded : α) (changed : Option α) (current : α) : α :=
  match changed with
  | none => current
  | some value => mergeColumn loaded value current

/-- The columns of `current` that the session changed take the new value. -/
def Experiment.merge (loaded : Experiment) (changed : ExperimentColumns) (current : Experiment) :
    Experiment :=
  { current with
    name := assignColumn loaded.name changed.name current.name
    description := assignColumn loaded.description changed.description current.description
    tags := mergeColumn loaded.tags changed.tags current.tags }

theorem Experiment.merge_id (loaded : Experiment) (changed : ExperimentColumns)
    (current : Experiment) : (Experiment.merge loaded changed current).id = current.id := rfl

/-- The columns of `current` that the session changed take the new value. -/
def Project.merge (loaded : Project) (changed : ProjectColumns) (current : Project) : Project :=
  { current with
    name := assignColumn loaded.name changed.name current.name
    description := assignColumn loaded.description changed.description current.description }

theorem Project.merge_id (loaded : Project) (changed : ProjectColumns) (current : Project) :
    (Project.merge loaded changed current).id = current.id := rfl

/-- What a statement sends of a column: nothing, unless the session changed it. -/
def sentText (loaded : String) (changed : Option String) : Option String :=
  if changed = some loaded then none else changed

namespace Catalog

/-- Another experiment of the project has the name, letter by letter. -/
def taken (c : Catalog) (projectId : Uuid) (name : String) (id : Uuid) : Bool :=
  c.experiments.rows.any fun e => e.projectId = projectId ∧ e.name = name ∧ e.id ≠ id

end Catalog

namespace CatalogWrite

/-- The texts the statement sends. The JSON column `tags` takes any text. -/
def texts : CatalogWrite → List String
  | insertProject p => [p.name, p.description]
  | updateProject loaded changed =>
      (sentText loaded.name changed.name).toList ++
        (sentText loaded.description changed.description).toList
  | insertExperiment e => [e.name, e.description]
  | updateExperiment loaded changed =>
      (sentText loaded.name changed.name).toList ++
        (sentText loaded.description changed.description).toList
  | deleteExperiment _ | deleteProject _ => []

/-- What the tables have against the statement. -/
def violation (w : CatalogWrite) (c : Catalog) : Option Exc :=
  match w with
  | insertProject p =>
      if (c.projects.get? p.id).isSome then some (.integrity "projects_pkey") else none
  | updateProject loaded changed =>
      if c.projects.get? loaded.id = none then some .staleData
      else if changed.name = none ∨ changed.description = none then some (.integrity "not_null")
      else none
  | insertExperiment e =>
      if (c.experiments.get? e.id).isSome then some (.integrity "experiments_pkey")
      else if c.projects.get? e.projectId = none then
        some (.integrity "experiments_project_id_fkey")
      else if c.taken e.projectId e.name e.id then some (.integrity "uq_experiments_project_name")
      else none
  | updateExperiment loaded changed =>
      match c.experiments.get? loaded.id with
      | none => some .staleData
      | some current =>
        if changed.name = none ∨ changed.description = none then
          some (.integrity "not_null")
        else if c.taken current.projectId (Experiment.merge loaded changed current).name loaded.id then
          some (.integrity "uq_experiments_project_name")
        else none
  | deleteExperiment id =>
      -- deleting a row that is gone is no error
      if (c.experiments.get? id).isSome ∧
          c.platform.db.runs.rows.any fun r => r.experimentId = id then
        some (.integrity "runs_experiment_id_fkey")
      else none
  | deleteProject id =>
      if (c.projects.get? id).isSome ∧ c.experiments.rows.any fun e => e.projectId = id then
        some (.integrity "experiments_project_id_fkey")
      else none

/-- The parameters are converted before the statement is executed. -/
def check (w : CatalogWrite) (c : Catalog) : Option Exc :=
  if w.texts.all storable then w.violation c else some (.other "DBAPIError")

theorem violation_of_check {w : CatalogWrite} {c : Catalog} (h : w.check c = none) :
    w.violation c = none := by
  rw [check] at h
  split at h
  · exact h
  · cases h

def apply (w : CatalogWrite) (c : Catalog) : Catalog :=
  match w with
  | insertProject p => { c with projects := c.projects.insert p }
  | updateProject loaded changed =>
      { c with
        projects := c.projects.update loaded.id (Project.merge loaded changed)
          (Project.merge_id loaded changed) }
  | insertExperiment e => { c with experiments := c.experiments.insert e }
  | updateExperiment loaded changed =>
      { c with
        experiments := c.experiments.update loaded.id (Experiment.merge loaded changed)
          (Experiment.merge_id loaded changed) }
  | deleteExperiment id => { c with experiments := c.experiments.erase id }
  | deleteProject id => { c with projects := c.projects.erase id }

end CatalogWrite

/-- The tables agree. -/
def Catalog.Same (c c' : Catalog) : Prop :=
  c.projects = c'.projects ∧ c.experiments = c'.experiments ∧ c.platform.db = c'.platform.db

theorem CatalogWrite.check_congr {w : CatalogWrite} {c c' : Catalog} (h : c.Same c') :
    w.check c = w.check c' := by
  obtain ⟨projects, experiments, platform⟩ := c
  obtain ⟨projects', experiments', platform'⟩ := c'
  obtain ⟨rfl, rfl, hdb⟩ := h
  have hruns : platform.db = platform'.db := hdb
  cases w with
  | insertProject | updateProject | insertExperiment | updateExperiment | deleteProject => rfl
  | deleteExperiment id => simp only [check, violation, hruns]

theorem CatalogWrite.apply_congr {w : CatalogWrite} {c c' : Catalog} (h : c.Same c') :
    (w.apply c).Same (w.apply c') := by
  obtain ⟨projects, experiments, platform⟩ := c
  obtain ⟨projects', experiments', platform'⟩ := c'
  obtain ⟨rfl, rfl, hdb⟩ := h
  cases w <;> exact ⟨rfl, rfl, hdb⟩

/-- PostgreSQL, to the commands on the catalog. -/
def catalogStorage : Storage Catalog CatalogRow CatalogWrite Call Input Exc where
  rowsOf _ := [.tables]
  stamp _ w := w
  check := CatalogWrite.check
  apply := CatalogWrite.apply
  perform c i catalog := { catalog with platform := c.perform i catalog.platform }
  same _ := Catalog.Same
  lost := .connectionLost
  same_equiv _ :=
    ⟨fun _ => ⟨rfl, rfl, rfl⟩, fun h => ⟨h.1.symm, h.2.1.symm, h.2.2.symm⟩,
      fun h h' => ⟨h.1.trans h'.1, h.2.1.trans h'.2.1, h.2.2.trans h'.2.2⟩⟩
  same_apply h _ := absurd (List.mem_singleton_self _) h
  apply_congr h _ _ := CatalogWrite.apply_congr (h .tables (List.mem_singleton_self _))
  check_congr h := CatalogWrite.check_congr (h .tables (List.mem_singleton_self _))
  same_perform _ c i catalog := ⟨rfl, rfl, (c.perform_db i catalog.platform).symm⟩

/-- The name a request wants in a project, its own experiment apart. -/
structure NameClaim where
  projectId : Uuid
  name : String
  excludeId : Option Uuid
  deriving DecidableEq

/-- Where a request stands that gives an experiment a name. -/
inductive CatalogPoint where
  | idle
  /-- It is about to look whether the name is free. -/
  | checking (claim : NameClaim)
  /-- It has found the name to be free, and has not committed it. -/
  | holding (claim : NameClaim)
  deriving DecidableEq

abbrev CatalogProgram := Prog Catalog CatalogRow CatalogWrite Call Input Exc CatalogPoint

/-! ### Request bodies (`schemas/projects.py`)

A body has been parsed when it is validated: an absent field is `none`, an
explicit null `some none`. Lengths are checked on the text as it came, before
the validators trim it. -/

/-- `Field(min_length=lo, max_length=hi)` -/
def lengthWithin (lo hi : ℕ) (s : String) : Bool := lo ≤ s.length ∧ s.length ≤ hi

/-- The field is absent or null. -/
def unchanged {α : Type} (field : Option (Option α)) : Prop := field = none ∨ field = some none

instance {α : Type} (field : Option (Option α)) : Decidable (unchanged field) :=
  match field with
  | none => .isTrue (.inl rfl)
  | some none => .isTrue (.inr rfl)
  | some (some _) => .isFalse (by simp [unchanged])

theorem unchanged_map {α β : Type} (f : α → β) (field : Option (Option α)) :
    unchanged (field.map (Option.map f)) ↔ unchanged field := by
  cases field with
  | none => simp [unchanged]
  | some value => cases value <;> simp [unchanged]

/-- A field that is set to a value passes the check. -/
def passes {α : Type} (check : α → Bool) (field : Option (Option α)) : Bool :=
  field.all fun value => value.all check

structure ProjectCreate where
  name : String
  description : String
  name_length : name.length ≤ 120
  description_length : description.length ≤ 2000

/-- The fields that are set, each to a value or to null. -/
structure ProjectUpdate where
  name : Option (Option String)
  description : Option (Option String)
  changes : ¬ (unchanged name ∧ unchanged description)

structure ExperimentCreate where
  projectId : Uuid
  name : String
  description : String
  tags : List String
  name_length : name.length ≤ 120
  description_length : description.length ≤ 4000
  tags_length : tags.length ≤ 20

/-- The fields that are set, each to a value or to null. -/
structure ExperimentUpdate where
  name : Option (Option String)
  description : Option (Option String)
  tags : Option (Option (List String))
  changes : ¬ ((name = none ∨ name = some none) ∧ (description = none ∨ description = some none) ∧
    (tags = none ∨ tags = some none))

/-- `[value.strip().lower() for value in values if value.strip()]` -/
def trimmedTags (rt : Runtime) (values : List String) : List String :=
  (values.filter fun value => rt.strip value ≠ "").map fun value => rt.lower (rt.strip value)

theorem trimmedTags_length (rt : Runtime) (values : List String) :
    (trimmedTags rt values).eraseDups.length ≤ values.length := by
  refine (Python.eraseDups_sublist _).length_le.trans ?_
  rw [trimmedTags, List.length_map]
  exact List.length_filter_le _ _

namespace ProjectCreate

def modelValidate (rt : Runtime) (name : String) (description : Option String) :
    Option ProjectCreate :=
  if h : (2 ≤ name.length ∧ name.length ≤ 120) ∧ (description.getD "").length ≤ 2000 then
    some {
      name := rt.strip name
      description := description.getD ""
      name_length := (Python.length_strip_le name).trans h.1.2
      description_length := h.2 }
  else none

end ProjectCreate

namespace ProjectUpdate

def modelValidate (rt : Runtime) (name description : Option (Option String)) :
    Option ProjectUpdate :=
  if passes (lengthWithin 2 120) name ∧ passes (lengthWithin 0 2000) description then
    if h : unchanged name ∧ unchanged description then none
    else
      some {
        name := name.map (Option.map rt.strip)
        description := description
        changes := by rwa [unchanged_map] }
  else none

end ProjectUpdate

namespace ExperimentCreate

def modelValidate (rt : Runtime) (projectId : Uuid) (name : String) (description : Option String)
    (tags : Option (List String)) : Option ExperimentCreate :=
  if h : (2 ≤ name.length ∧ name.length ≤ 120) ∧ (description.getD "").length ≤ 4000 ∧
      (tags.getD []).length ≤ 20 then
    if (trimmedTags rt (tags.getD [])).any fun value => 40 < value.length then none
    else
      some {
        projectId := projectId
        name := rt.strip name
        description := description.getD ""
        tags := (trimmedTags rt (tags.getD [])).eraseDups
        name_length := (Python.length_strip_le name).trans h.1.2
        description_length := h.2.1
        tags_length := (trimmedTags_length rt _).trans h.2.2 }
  else none

end ExperimentCreate

namespace ExperimentUpdate

def modelValidate (rt : Runtime) (name description : Option (Option String))
    (tags : Option (Option (List String))) : Option ExperimentUpdate :=
  if passes (lengthWithin 2 120) name ∧ passes (lengthWithin 0 4000) description ∧
      passes (fun values => values.length ≤ 20) tags then
    if h : unchanged name ∧ unchanged description ∧ unchanged tags then none
    else if passes (fun values => (trimmedTags rt values).all fun value => value.length ≤ 40)
        tags then
      some {
        name := name.map (Option.map rt.strip)
        description := description
        tags := tags.map (Option.map fun values => (trimmedTags rt values).eraseDups)
        changes := by
          rw [← unchanged_map rt.strip name,
            ← unchanged_map (fun values => (trimmedTags rt values).eraseDups) tags] at h
          exact h }
    else none
  else none

end ExperimentUpdate

/-! ### Commands -/

namespace catalog

variable {α : Type}

def select (pt : CatalogPoint) (query : Catalog → α) : CatalogProgram α :=
  .stmt pt .select fun reply => query reply.view

/-- Flushes what is pending and commits. -/
def commit (pt : CatalogPoint) (pending : List CatalogWrite) : CatalogProgram Unit := do
  Prog.stmt pt (.flush pending) fun _ => ()
  .stmt pt .commit fun _ => ()

def rollback (pt : CatalogPoint) : CatalogProgram Unit :=
  .stmt pt .rollback fun _ => ()

/-- `session.refresh(experiment)` -/
def refresh (experiment : Experiment) : CatalogProgram Experiment := do
  match ← select .idle fun c => c.experiments.get? experiment.id with
  | some experiment => .ret experiment
  | none => .raise (.other "InvalidRequestError")

end catalog

/-- `session.refresh(project)` -/
def catalog.refreshProject (project : Project) : CatalogProgram Project := do
  match ← select .idle fun c => c.projects.get? project.id with
  | some project => .ret project
  | none => .raise (.other "InvalidRequestError")

def getProjectOr404 (projectId : Uuid) : CatalogProgram Project := do
  match ← catalog.select .idle fun c => c.projects.get? projectId with
  | none =>
    .raise (.app {
      code := "project_not_found"
      message := "Project was not found"
      statusCode := 404
      details := [] })
  | some project => .ret project

def createProject (body : ProjectCreate) (userId : Uuid) : CatalogProgram Project := do
  let id ← Prog.stmt .idle (.call .pause) fun reply => reply.input.uuid
  let project : Project := {
    id := id
    name := body.name
    description := body.description
    createdBy := userId }
  catalog.commit .idle [.insertProject project]
  catalog.refreshProject project

/-- `for name, value in body.model_dump(exclude_unset=True).items(): setattr(…)` -/
def ProjectUpdate.assign (body : ProjectUpdate) (columns : ProjectColumns) : ProjectColumns where
  name := body.name.getD columns.name
  description := body.description.getD columns.description

/-- The update of a loaded row, if the session changed it. -/
def projectUpdate (loaded : Project) (changed : ProjectColumns) : List CatalogWrite :=
  if changed = loaded.columns then [] else [.updateProject loaded changed]

def updateProject (projectId : Uuid) (body : ProjectUpdate) : CatalogProgram Project := do
  let project ← getProjectOr404 projectId
  catalog.commit .idle (projectUpdate project (body.assign project.columns))
  catalog.refreshProject project

def getExperimentOr404 (experimentId : Uuid) : CatalogProgram Experiment := do
  match ← catalog.select .idle fun c => c.experiments.get? experimentId with
  | none =>
    .raise (.app {
      code := "experiment_not_found"
      message := "Experiment was not found"
      statusCode := 404
      details := [] })
  | some experiment => .ret experiment

def nameConflict : AppError where
  code := "experiment_name_conflict"
  message := "An experiment with this name already exists in the project"
  statusCode := 409
  details := []

/-- The experiments that stand in the way of the claim: the database lowercases
their names to what Python makes of the claim's. -/
def NameClaim.rivals (claim : NameClaim) (rt : Runtime) (c : Catalog) : List Experiment :=
  c.experiments.rows.filter fun e =>
    e.projectId = claim.projectId ∧ rt.sqlLower e.name = rt.lower claim.name ∧
      claim.excludeId ≠ some e.id

def ensureUniqueName (rt : Runtime) (claim : NameClaim) : CatalogProgram Unit := do
  Prog.ofExcept (sendText (rt.lower claim.name))
  match ← catalog.select (.checking claim) fun c => claim.rivals rt c with
  | [] => .ret ()
  | _ :: _ => .raise (.app nameConflict)

/-- `try: await session.commit() except IntegrityError: …` -/
def commitNamed (pt : CatalogPoint) (pending : List CatalogWrite) : CatalogProgram Unit :=
  (catalog.commit pt pending).tryCatch fun exc =>
    match exc with
    | .integrity _ => do
      catalog.rollback pt
      .raise (.app nameConflict)
    | exc => .raise exc

def createExperiment (rt : Runtime) (body : ExperimentCreate) (userId : Uuid) :
    CatalogProgram Experiment := do
  let _ ← getProjectOr404 body.projectId
  let claim : NameClaim := ⟨body.projectId, body.name, none⟩
  ensureUniqueName rt claim
  let id ← Prog.stmt (.holding claim) (.call .pause) fun reply => reply.input.uuid
  let experiment : Experiment := {
    id := id
    projectId := body.projectId
    name := body.name
    description := body.description
    tags := some body.tags
    createdBy := userId }
  commitNamed (.holding claim) [.insertExperiment experiment]
  catalog.refresh experiment

/-- `for name, value in values.items(): setattr(experiment, name, value)` -/
def ExperimentUpdate.assign (body : ExperimentUpdate) (columns : ExperimentColumns) :
    ExperimentColumns where
  name := body.name.getD columns.name
  description := body.description.getD columns.description
  tags := body.tags.getD columns.tags

/-- The update of a loaded row, if the session changed it. -/
def experimentUpdate (loaded : Experiment) (changed : ExperimentColumns) : List CatalogWrite :=
  if changed = loaded.columns then [] else [.updateExperiment loaded changed]

def updateExperiment (rt : Runtime) (experimentId : Uuid) (body : ExperimentUpdate) :
    CatalogProgram Experiment := do
  let experiment ← getExperimentOr404 experimentId
  let pt ←
    match body.name with
    | some (some name) =>
      -- an empty name is not checked
      if name = "" then .ret .idle
      else do
        let claim : NameClaim := ⟨experiment.projectId, name, some experiment.id⟩
        ensureUniqueName rt claim
        .ret (.holding claim)
    | _ => .ret .idle
  commitNamed pt (experimentUpdate experiment (body.assign experiment.columns))
  catalog.refresh experiment

def deleteExperiment (experimentId : Uuid) : CatalogProgram Unit := do
  let experiment ← getExperimentOr404 experimentId
  catalog.commit .idle [.deleteExperiment experiment.id]

def deleteProject (projectId : Uuid) : CatalogProgram Unit := do
  let project ← getProjectOr404 projectId
  let found ← catalog.select .idle fun c =>
    c.experiments.rows.find? fun e => e.projectId = projectId
  match found with
  | some _ =>
    .raise (.app {
      code := "project_has_experiments"
      message := "Delete the project's experiments before deleting the project"
      statusCode := 409
      details := [] })
  | none => catalog.commit .idle [.deleteProject project.id]

end Runscope
