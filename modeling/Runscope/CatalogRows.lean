import Runscope.ExperimentNames

/-!
The rows that requests on projects and experiments leave behind.

Lengths are checked before names are trimmed, and an explicit null is assigned
like any other value. So an accepted body makes a proper row if it sets no
field to null and its name is long enough without the surrounding whitespace.
-/

namespace Runscope

open Transact

/-- A name as the columns are to hold it. -/
def ProperName (name : Option String) : Prop :=
  ∃ s, name = some s ∧ Python.strip s = s ∧ 2 ≤ s.length ∧ s.length ≤ 120

def ProperText (bound : ℕ) (text : Option String) : Prop :=
  ∃ s, text = some s ∧ s.length ≤ bound

structure ProjectColumns.Proper (c : ProjectColumns) : Prop where
  name : ProperName c.name
  description : ProperText 2000 c.description

structure ExperimentColumns.Proper (c : ExperimentColumns) : Prop where
  name : ProperName c.name
  description : ProperText 4000 c.description
  tags : c.tags.isSome

/-- The name of a request that may replace a proper one: not null, and long
enough once trimmed. -/
def Replaces (name : Option (Option String)) : Prop :=
  name ≠ some none ∧ ∀ s, name = some (some s) → 2 ≤ (Python.strip s).length

section Columns

/-- The name a trimmed text becomes. -/
theorem properName_strip (rt : Runtime) {s : String} (h : s.length ≤ 120) :
    ProperName (some (rt.strip s)) ↔ 2 ≤ (Python.strip s).length := by
  constructor
  · rintro ⟨t, ht, -, hlength, -⟩
    obtain rfl := Option.some.inj ht
    exact hlength
  · intro hlength
    exact ⟨_, rfl, Python.strip_strip s, hlength, (Python.length_strip_le s).trans h⟩

theorem properText_some {bound : ℕ} {s : String} : ProperText bound (some s) ↔ s.length ≤ bound := by
  simp [ProperText]

/-- What becomes of a proper name. -/
theorem properName_assign (rt : Runtime) {name : Option (Option String)} {current : Option String}
    (hlength : passes (lengthWithin 2 120) name) (hcurrent : ProperName current) :
    ProperName ((name.map (Option.map rt.strip)).getD current) ↔ Replaces name := by
  cases name with
  | none => simp [Replaces, hcurrent]
  | some value =>
      cases value with
      | none => simp [Replaces, ProperName]
      | some s =>
          have hs : s.length ≤ 120 := by
            simp only [passes, lengthWithin, Option.all_some, decide_eq_true_eq] at hlength
            exact hlength.2
          simp [Replaces, properName_strip rt hs]

/-- What becomes of a proper description. -/
theorem properText_assign {bound : ℕ} {text : Option (Option String)} {current : Option String}
    (hlength : passes (lengthWithin 0 bound) text) (hcurrent : ProperText bound current) :
    ProperText bound (text.getD current) ↔ text ≠ some none := by
  cases text with
  | none => simp [hcurrent]
  | some value =>
      cases value with
      | none => simp [ProperText]
      | some s =>
          have hs : s.length ≤ bound := by
            simp only [passes, lengthWithin, Option.all_some, decide_eq_true_eq] at hlength
            exact hlength.2
          simp [ProperText, hs]

end Columns

/-! ### The rows the endpoints write -/

section Endpoints

variable {rt : Runtime}

theorem catalogCommit_flushes {P : List CatalogWrite → Prop} {pt : CatalogPoint}
    {pending : List CatalogWrite} (h : P pending) : (catalog.commit pt pending).Flushes P := by
  refine Prog.Flushes.bind (Prog.Flushes.stmt ?_) fun _ => Prog.Flushes.stmt nofun
  rintro _ ⟨⟩
  exact h

theorem commitNamed_flushes {P : List CatalogWrite → Prop} {pt : CatalogPoint}
    {pending : List CatalogWrite} (h : P pending) : (commitNamed pt pending).Flushes P := by
  refine (catalogCommit_flushes h).andThen fun outcome => ?_
  cases outcome with
  | ok a => exact trivial
  | error e =>
      cases e with
      | integrity name =>
          exact Prog.Flushes.bind (Prog.Flushes.stmt nofun) fun _ => trivial
      | app | staleData | connectionLost | noResultFound | runtime | key | artifactStorage
      | other => exact trivial

theorem catalogRefresh_flushes {P : List CatalogWrite → Prop} (experiment : Experiment) :
    (catalog.refresh experiment).Flushes P :=
  Prog.Flushes.bind (Prog.Flushes.stmt nofun) fun found => by cases found <;> exact trivial

theorem refreshProject_flushes {P : List CatalogWrite → Prop} (project : Project) :
    (catalog.refreshProject project).Flushes P :=
  Prog.Flushes.bind (Prog.Flushes.stmt nofun) fun found => by cases found <;> exact trivial

theorem getProjectOr404_flushes {P : List CatalogWrite → Prop} (projectId : Uuid) :
    (getProjectOr404 projectId).Flushes P :=
  Prog.Flushes.bind (Prog.Flushes.stmt nofun) fun found => by cases found <;> exact trivial

theorem getExperimentOr404_flushes {P : List CatalogWrite → Prop} (experimentId : Uuid) :
    (getExperimentOr404 experimentId).Flushes P :=
  Prog.Flushes.bind (Prog.Flushes.stmt nofun) fun found => by cases found <;> exact trivial

theorem ensureUniqueName_flushes {P : List CatalogWrite → Prop} (claim : NameClaim) :
    (ensureUniqueName rt claim).Flushes P :=
  Prog.Flushes.bind .ofExcept fun _ =>
    Prog.Flushes.bind (Prog.Flushes.stmt nofun) fun found => by cases found <;> exact trivial

theorem createProject_flushes (body : ProjectCreate) (userId : Uuid) :
    (createProject body userId).Flushes fun ws =>
      ∃ id, ws = [.insertProject ⟨id, body.name, body.description, userId⟩] :=
  Prog.Flushes.bind (Prog.Flushes.stmt nofun) fun id =>
    Prog.Flushes.bind (catalogCommit_flushes ⟨id, rfl⟩) fun _ => refreshProject_flushes _

theorem updateProject_flushes (projectId : Uuid) (body : ProjectUpdate) :
    (updateProject projectId body).Flushes fun ws =>
      ∃ project, ws = projectUpdate project (body.assign project.columns) :=
  Prog.Flushes.bind (getProjectOr404_flushes _) fun project =>
    Prog.Flushes.bind (catalogCommit_flushes ⟨project, rfl⟩) fun _ => refreshProject_flushes _

theorem createExperiment_flushes (body : ExperimentCreate) (userId : Uuid) :
    (createExperiment rt body userId).Flushes fun ws =>
      ∃ id, ws = [.insertExperiment
        ⟨id, body.projectId, body.name, body.description, some body.tags, userId⟩] :=
  Prog.Flushes.bind (getProjectOr404_flushes _) fun _ =>
    Prog.Flushes.bind (ensureUniqueName_flushes _) fun _ =>
      Prog.Flushes.bind (Prog.Flushes.stmt nofun) fun id =>
        Prog.Flushes.bind (commitNamed_flushes ⟨id, rfl⟩) fun _ => catalogRefresh_flushes _

theorem updateExperiment_flushes (experimentId : Uuid) (body : ExperimentUpdate) :
    (updateExperiment rt experimentId body).Flushes fun ws =>
      ∃ experiment, ws = experimentUpdate experiment (body.assign experiment.columns) := by
  refine Prog.Flushes.bind (getExperimentOr404_flushes _) fun experiment => ?_
  have hrest (pt : CatalogPoint) : (do
      commitNamed pt (experimentUpdate experiment (body.assign experiment.columns))
      catalog.refresh experiment : CatalogProgram Experiment).Flushes fun ws =>
        ∃ experiment, ws = experimentUpdate experiment (body.assign experiment.columns) :=
    Prog.Flushes.bind (commitNamed_flushes ⟨experiment, rfl⟩) fun _ => catalogRefresh_flushes _
  cases hname : body.name with
  | none => exact hrest .idle
  | some value =>
      cases value with
      | none => exact hrest .idle
      | some name =>
          by_cases hempty : name = ""
          · simp only [hempty, if_true]
            exact hrest .idle
          · simp only [hempty, if_false]
            exact Prog.Flushes.bind (ensureUniqueName_flushes _) fun _ => hrest _

theorem check_of_violation {w : CatalogWrite} {c : Catalog}
    (h : w.violation c ≠ some (.integrity "not_null")) :
    w.check c ≠ some (.integrity "not_null") := by
  rw [CatalogWrite.check]
  split
  · exact h
  · simp

/-- Proper columns violate no `NOT NULL`. -/
theorem check_of_proper {loaded : Experiment} {changed : ExperimentColumns}
    (h : changed.Proper) (c : Catalog) :
    (CatalogWrite.updateExperiment loaded changed).check c ≠ some (.integrity "not_null") := by
  obtain ⟨name, hname, -⟩ := h.name
  obtain ⟨text, htext, -⟩ := h.description
  refine check_of_violation ?_
  simp only [CatalogWrite.violation, hname, htext, reduceCtorEq, or_self, if_false]
  split
  · simp
  · split <;> simp

theorem checkProject_of_proper {loaded : Project} {changed : ProjectColumns}
    (h : changed.Proper) (c : Catalog) :
    (CatalogWrite.updateProject loaded changed).check c ≠ some (.integrity "not_null") := by
  obtain ⟨name, hname, -⟩ := h.name
  obtain ⟨text, htext, -⟩ := h.description
  refine check_of_violation ?_
  simp only [CatalogWrite.violation, hname, htext, reduceCtorEq, or_self, if_false]
  split <;> simp

/-- A row whose tags are a list makes an answer. -/
theorem response_of_proper {e : Experiment} (h : e.columns.Proper) :
    ∃ response, e.response = .ok response := by
  obtain ⟨tags, htags⟩ := Option.isSome_iff_exists.mp h.tags
  have htags : e.tags = some tags := htags
  exact ⟨_, by rw [Experiment.response, htags]⟩

end Endpoints

/-! ### What becomes of an accepted body -/

section Bodies

variable {rt : Runtime}

theorem projectCreate_proper {name : String} {description : Option String} {body : ProjectCreate}
    (h : ProjectCreate.modelValidate rt name description = some body) (id userId : Uuid) :
    (Project.columns ⟨id, body.name, body.description, userId⟩).Proper ↔
      2 ≤ (Python.strip name).length := by
  rw [ProjectCreate.modelValidate] at h
  split at h
  case isFalse => cases h
  case isTrue hlengths =>
    obtain rfl := Option.some.inj h
    rw [← properName_strip rt hlengths.1.2]
    exact ⟨fun h => h.name, fun h => ⟨h, properText_some.mpr hlengths.2⟩⟩

theorem projectUpdate_proper {name description : Option (Option String)} {body : ProjectUpdate}
    (h : ProjectUpdate.modelValidate rt name description = some body) {columns : ProjectColumns}
    (hcolumns : columns.Proper) :
    (body.assign columns).Proper ↔ Replaces name ∧ description ≠ some none := by
  rw [ProjectUpdate.modelValidate] at h
  split at h
  case isFalse => cases h
  case isTrue hlengths =>
    split at h
    case isTrue => cases h
    case isFalse =>
      obtain rfl := Option.some.inj h
      rw [← properName_assign rt hlengths.1 hcolumns.name,
        ← properText_assign hlengths.2 hcolumns.description]
      exact ⟨fun h => ⟨h.name, h.description⟩, fun h => ⟨h.1, h.2⟩⟩

theorem experimentCreate_proper {projectId : Uuid} {name : String} {description : Option String}
    {tags : Option (List String)} {body : ExperimentCreate}
    (h : ExperimentCreate.modelValidate rt projectId name description tags = some body)
    (id userId : Uuid) :
    (Experiment.columns
        ⟨id, body.projectId, body.name, body.description, some body.tags, userId⟩).Proper ↔
      2 ≤ (Python.strip name).length := by
  rw [ExperimentCreate.modelValidate] at h
  split at h
  case isFalse => cases h
  case isTrue hlengths =>
    split at h
    case isTrue => cases h
    case isFalse =>
      obtain rfl := Option.some.inj h
      rw [← properName_strip rt hlengths.1.2]
      exact ⟨fun h => h.name, fun h => ⟨h, properText_some.mpr hlengths.2.1, rfl⟩⟩

theorem experimentUpdate_proper {name description : Option (Option String)}
    {tags : Option (Option (List String))} {body : ExperimentUpdate}
    (h : ExperimentUpdate.modelValidate rt name description tags = some body)
    {columns : ExperimentColumns} (hcolumns : columns.Proper) :
    (body.assign columns).Proper ↔
      Replaces name ∧ description ≠ some none ∧ tags ≠ some none := by
  rw [ExperimentUpdate.modelValidate] at h
  split at h
  case isFalse => cases h
  case isTrue hlengths =>
    split at h
    case isTrue => cases h
    case isFalse =>
      split at h
      case isFalse => cases h
      case isTrue =>
        obtain rfl := Option.some.inj h
        have htags : ((tags.map (Option.map fun values =>
            (trimmedTags rt values).eraseDups)).getD columns.tags).isSome ↔ tags ≠ some none := by
          cases tags with
          | none => simp [hcolumns.tags]
          | some value => cases value <;> simp
        rw [← properName_assign rt hlengths.1 hcolumns.name,
          ← properText_assign hlengths.2.1 hcolumns.description, ← htags]
        exact ⟨fun h => ⟨h.name, h.description, h.tags⟩, fun h => ⟨h.1, h.2.1, h.2.2⟩⟩

end Bodies

/-- Whatever an endpoint reads, the row it writes for an accepted body is
proper just if the name is long enough once trimmed and no field is set to
null; and a proper row violates no `NOT NULL` and makes an answer. -/
theorem rows_proper (rt : Runtime) :
    (∀ name description body userId,
      ProjectCreate.modelValidate rt name description = some body →
      (createProject body userId).Flushes fun ws => ∃ project, ws = [.insertProject project] ∧
        (project.columns.Proper ↔ 2 ≤ (Python.strip name).length)) ∧
    (∀ projectId name description body,
      ProjectUpdate.modelValidate rt name description = some body →
      (updateProject projectId body).Flushes fun ws => ∃ (project : Project) (columns : ProjectColumns),
        ws = projectUpdate project columns ∧ (project.columns.Proper →
          (columns.Proper ↔ Replaces name ∧ description ≠ some none))) ∧
    (∀ projectId name description tags body userId,
      ExperimentCreate.modelValidate rt projectId name description tags = some body →
      (createExperiment rt body userId).Flushes fun ws => ∃ experiment,
        ws = [.insertExperiment experiment] ∧
          (experiment.columns.Proper ↔ 2 ≤ (Python.strip name).length)) ∧
    (∀ experimentId name description tags body,
      ExperimentUpdate.modelValidate rt name description tags = some body →
      (updateExperiment rt experimentId body).Flushes fun ws =>
        ∃ (experiment : Experiment) (columns : ExperimentColumns),
          ws = experimentUpdate experiment columns ∧ (experiment.columns.Proper →
            (columns.Proper ↔ Replaces name ∧ description ≠ some none ∧ tags ≠ some none))) ∧
    (∀ (loaded : Project) columns c, columns.Proper →
      (CatalogWrite.updateProject loaded columns).check c ≠ some (.integrity "not_null")) ∧
    (∀ (loaded : Experiment) columns c, columns.Proper →
      (CatalogWrite.updateExperiment loaded columns).check c ≠ some (.integrity "not_null")) ∧
    ∀ e : Experiment, e.columns.Proper → ∃ response, e.response = .ok response := by
  refine ⟨fun name description body userId h => (createProject_flushes body userId).mono ?_,
    fun projectId name description body h => (updateProject_flushes projectId body).mono ?_,
    fun projectId name description tags body userId h =>
      (createExperiment_flushes body userId).mono ?_,
    fun experimentId name description tags body h =>
      (updateExperiment_flushes experimentId body).mono ?_,
    fun loaded columns c h => checkProject_of_proper h c,
    fun loaded columns c h => check_of_proper h c, fun e => response_of_proper⟩
  · rintro ws ⟨id, hws⟩
    exact ⟨_, hws, projectCreate_proper h id userId⟩
  · rintro ws ⟨project, hws⟩
    exact ⟨project, _, hws, projectUpdate_proper h⟩
  · rintro ws ⟨id, hws⟩
    exact ⟨_, hws, experimentCreate_proper h id userId⟩
  · rintro ws ⟨experiment, hws⟩
    exact ⟨experiment, _, hws, experimentUpdate_proper h⟩

/-- Accepted are a name of one letter after a blank, a null name beside a
description, and null tags beside a name: the first is stored, the second
violates `NOT NULL`, and the third is stored and makes no answer. -/
theorem rows_improper :
    (∃ body, ProjectCreate.modelValidate Demo.lowering " a" none = some body ∧
      ¬ (Project.columns ⟨2, body.name, body.description, 5⟩).Proper) ∧
    (∃ body, ProjectUpdate.modelValidate Demo.lowering (some none) (some (some "Images")) =
        some body ∧ ∀ project ∈ Demo.vision.projects.rows, project.columns.Proper ∧
      (CatalogWrite.updateProject project (body.assign project.columns)).check Demo.vision =
        some (.integrity "not_null")) ∧
    ∃ body, ExperimentUpdate.modelValidate Demo.lowering (some (some "Baseline")) none (some none) =
        some body ∧
      let experiment : Experiment := ⟨2, 1, "First", "", some [], 5⟩
      experiment.columns.Proper ∧ ∀ current : Experiment, ∃ e,
        (Experiment.merge experiment (body.assign experiment.columns) current).response =
          .error e := by
  refine ⟨?_, ?_, ?_⟩
  · have haccepted : (ProjectCreate.modelValidate Demo.lowering " a" none).isSome := by decide
    obtain ⟨body, hbody⟩ := Option.isSome_iff_exists.mp haccepted
    have hshort : ¬ 2 ≤ (Python.strip " a").length := by decide
    exact ⟨body, hbody, fun h => hshort ((projectCreate_proper hbody 2 5).mp h)⟩
  · refine ⟨_, rfl, fun project hproject => ?_⟩
    obtain rfl := List.mem_singleton.mp hproject
    exact ⟨⟨⟨"Vision", rfl, by decide, by decide, by decide⟩, ⟨"", rfl, by decide⟩⟩, rfl⟩
  · refine ⟨_, rfl, ⟨⟨"First", rfl, by decide, by decide, by decide⟩, ⟨"", rfl, by decide⟩, rfl⟩,
      fun current => ⟨_, rfl⟩⟩

/-- A body whose name is long enough. -/
theorem rows_proper_named : ∃ body, ProjectCreate.modelValidate Demo.lowering " Vision " none =
      some body ∧ (createProject body 5).Flushes fun ws =>
        ∃ project : Project, ws = [.insertProject project] ∧ project.columns.Proper := by
  have haccepted : (ProjectCreate.modelValidate Demo.lowering " Vision " none).isSome := by decide
  obtain ⟨body, hbody⟩ := Option.isSome_iff_exists.mp haccepted
  refine ⟨body, hbody, ((rows_proper Demo.lowering).1 _ _ body 5 hbody).mono ?_⟩
  rintro ws ⟨project, hws, hproper⟩
  exact ⟨project, hws, hproper.mpr (by decide)⟩

end Runscope
