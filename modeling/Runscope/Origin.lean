import Runscope.Projection
import Runscope.RunExecution

/-!
Where a run comes from: the run it retries and the parameters it was given.

Neither changes after the run is stored, and a run that is retried has failed
for good, so what holds of a new run keeps holding of it.
-/

namespace Runscope

open Transact RunStatus

/-- The model a `Parameters` is an instance of. -/
def Parameters.model : Parameters → ParameterModel
  | classification _ => .irisClassification
  | slowDemo _ => .slowDemo

/-- The stored parameters of a run, name by name. -/
def Db.parametersOf (db : Db) (runId : Uuid) : Record :=
  (db.parameters.filter fun x => x.runId = runId).map fun x => (x.name, x.value)

/-- A run is a first attempt, or the next attempt at what a failed run was
to do. -/
def Parented (db : Db) (run : Run) : Prop :=
  match run.parentRunId with
  | none => run.attemptNumber = 1
  | some r => ∃ parent, db.runs.get? r = some parent ∧ parent.status = failed ∧
      run.attemptNumber = parent.attemptNumber + 1 ∧ run.experimentId = parent.experimentId ∧
      run.templateId = parent.templateId ∧ run.priority = parent.priority ∧
      run.requestedCpu = parent.requestedCpu ∧ run.requestedMemoryMb = parent.requestedMemoryMb

/-- The parameters stored for a run are an instance of its template's model. -/
def Parameterized (db : Db) (run : Run) : Prop :=
  ∃ template definition values, db.templates.get? run.templateId = some template ∧
    registryGet template.key template.version = .ok definition ∧
    Parameters.model values = definition.parameterModel ∧
    db.parametersOf run.id = values.modelDump

/-- What was validated is an instance of the template's model, and what is
stored is its dump. -/
theorem validateParameters_ok {rt : Runtime} {template : TrainingTemplate} {values dump : Record}
    {validated : Parameters} (h : validateParameters rt template values = .ok (validated, dump)) :
    ∃ definition, registryGet template.key template.version = .ok definition ∧
      validated.model = definition.parameterModel ∧ dump = validated.modelDump := by
  unfold validateParameters at h
  cases hget : registryGet template.key template.version with
  | error e => simp [hget, bind, Except.bind] at h
  | ok definition =>
      cases hvalid : definition.validateParameters rt values with
      | none => simp [hget, hvalid, bind, Except.bind] at h
      | some parameters =>
          simp only [hget, hvalid, bind, Except.bind, Except.ok.injEq, Prod.mk.injEq] at h
          obtain ⟨rfl, rfl⟩ := h
          refine ⟨definition, rfl, ?_, rfl⟩
          unfold TemplateDefinition.validateParameters at hvalid
          split at hvalid
          · next hmodel =>
            obtain ⟨_, -, rfl⟩ := Option.map_eq_some_iff.mp hvalid
            exact hmodel.symm
          · next hmodel =>
            obtain ⟨_, -, rfl⟩ := Option.map_eq_some_iff.mp hvalid
            exact hmodel.symm

section Later

variable {db db' : Db} {run run' : Run}

/-- A parent keeps its failure, and its child the terms it was retried on. -/
theorem Parented.later (h : Parented db run) (hinv : ∀ r, (db.runView r).Inv)
    (hlives : ∀ r, Lives (fun _ => True) (db.runView r) (db'.runView r))
    (hrun : run.Continues run') : Parented db' run' := by
  obtain ⟨hparent, hattempt, hexperiment, htemplate, hpriority, hcpu, hmemory⟩ := hrun.origin
  rw [Parented] at h ⊢
  rw [hparent, hattempt, hexperiment, htemplate, hpriority, hcpu, hmemory]
  cases hr : run.parentRunId with
  | none => simpa [hr] using h
  | some r =>
      simp only [hr] at h ⊢
      obtain ⟨parent, hget, hfailed, hsame⟩ := h
      obtain ⟨parent', hget', hcontinues⟩ := (hlives r).continues (hinv r) hget
      obtain ⟨hstatus, -⟩ := hcontinues.finished (by simp [hfailed, RunStatus.finished])
      obtain ⟨-, h₁, h₂, h₃, h₄, h₅, h₆⟩ := hcontinues.origin
      rw [← h₁, ← h₂, ← h₃, ← h₄, ← h₅, ← h₆] at hsame
      exact ⟨parent', hget', hstatus.trans hfailed, hsame⟩

theorem Parameterized.later (h : Parameterized db run) (htemplates : db'.templates = db.templates)
    (hparameters : db'.parametersOf run.id = db.parametersOf run.id) (hid : run'.id = run.id)
    (htemplate : run'.templateId = run.templateId) : Parameterized db' run' := by
  obtain ⟨template, definition, values, hget, hdefinition, hmodel, hstored⟩ := h
  refine ⟨template, definition, values, ?_, hdefinition, hmodel, ?_⟩
  · rw [htemplates, htemplate]
    exact hget
  · rw [hid, hparameters]
    exact hstored

end Later

end Runscope
