import Runscope.Reachable

/-!
Stored parameters are a fixed point of validation.

What is stored for a run is the dump of an instance of its template's model.
Read back, it is that dump again, and to validate a dump is to get the
instance back: the conversions leave a value of the field's own type as it is.
-/

namespace Runscope

open Transact

/-- The conversions leave values of the field's own type as they are. -/
structure Runtime.Exact (rt : Runtime) : Prop where
  toInt : ∀ n, rt.toInt (.int n) = some n
  toFloat : ∀ q, rt.toFloat (.num q) = some q
  toBool : ∀ b, rt.toBool (.bool b) = some b

/-- The names of the model's fields. -/
def ParameterModel.fields : ParameterModel → List String
  | irisClassification => ["n_estimators", "max_depth", "test_size", "random_state"]
  | slowDemo => ["duration_seconds", "interval_seconds", "fail_intentionally"]

section Dump

variable {rt : Runtime}

theorem Parameters.modelDump_names (parameters : Parameters) :
    parameters.modelDump.map Prod.fst = parameters.model.fields := by
  cases parameters <;> rfl

/-- A field whose value is of its type and within its bounds is accepted. -/
theorem boundedField_of_get {α : Type} [LE α] [DecidableLE α] {convert : Value → Option α}
    {lo hi : α} {default : { x : α // lo ≤ x ∧ x ≤ hi }} {values : Record} {name : String}
    {v : Value} {x : α} (hget : values.get? name = some v) (hconvert : convert v = some x)
    (hx : lo ≤ x ∧ x ≤ hi) : boundedField convert lo hi default values name = some ⟨x, hx⟩ := by
  simp [boundedField, hget, hconvert, hx]

theorem IrisClassificationParameters.modelValidate_dump (hrt : rt.Exact)
    (p : IrisClassificationParameters) :
    modelValidate rt (Parameters.classification p).modelDump = some p := by
  have hn : Record.get? (Parameters.classification p).modelDump "n_estimators" =
      some (.int p.nEstimators) := rfl
  have hd : Record.get? (Parameters.classification p).modelDump "max_depth" =
      some (.int p.maxDepth) := rfl
  have ht : Record.get? (Parameters.classification p).modelDump "test_size" =
      some (.num p.testSize) := rfl
  have hr : Record.get? (Parameters.classification p).modelDump "random_state" =
      some (.int p.randomState) := rfl
  have hextra : noExtra (Parameters.classification p).modelDump
      ["n_estimators", "max_depth", "test_size", "random_state"] = true := by
    simp [noExtra, Parameters.modelDump]
  rw [modelValidate, boundedField_of_get hn (hrt.toInt _) p.nEstimators_bounds,
    boundedField_of_get hd (hrt.toInt _) p.maxDepth_bounds,
    boundedField_of_get ht (hrt.toFloat _) p.testSize_bounds,
    boundedField_of_get hr (hrt.toInt _) p.randomState_bounds]
  simp [hextra]

theorem SlowDemoParameters.modelValidate_dump (hrt : rt.Exact) (p : SlowDemoParameters) :
    modelValidate rt (Parameters.slowDemo p).modelDump = some p := by
  have hd : Record.get? (Parameters.slowDemo p).modelDump "duration_seconds" =
      some (.num p.durationSeconds) := rfl
  have hi : Record.get? (Parameters.slowDemo p).modelDump "interval_seconds" =
      some (.num p.intervalSeconds) := rfl
  have hf : Record.get? (Parameters.slowDemo p).modelDump "fail_intentionally" =
      some (.bool p.failIntentionally) := rfl
  have hextra : noExtra (Parameters.slowDemo p).modelDump
      ["duration_seconds", "interval_seconds", "fail_intentionally"] = true := by
    simp [noExtra, Parameters.modelDump]
  rw [modelValidate, boundedField_of_get hd (hrt.toFloat _) p.durationSeconds_bounds,
    boundedField_of_get hi (hrt.toFloat _) p.intervalSeconds_bounds]
  simp [hf, hrt.toBool, hextra]

/-- Validating a dump gives the instance back. -/
theorem TemplateDefinition.validateParameters_dump (hrt : rt.Exact) {definition : TemplateDefinition}
    {parameters : Parameters} (h : parameters.model = definition.parameterModel) :
    definition.validateParameters rt parameters.modelDump = some parameters := by
  unfold TemplateDefinition.validateParameters
  rw [← h]
  cases parameters with
  | classification p =>
      exact congrArg (Option.map Parameters.classification)
        (IrisClassificationParameters.modelValidate_dump hrt p)
  | slowDemo p =>
      exact congrArg (Option.map Parameters.slowDemo) (SlowDemoParameters.modelValidate_dump hrt p)

end Dump

namespace Record

theorem set_of_notMem {r : Record} {name : String} (h : name ∉ r.map Prod.fst) (value : Value) :
    r.set name value = r ++ [(name, value)] := by
  induction r with
  | nil => rfl
  | cons x r ih =>
      obtain ⟨hne, hrest⟩ : ¬ name = x.1 ∧ name ∉ r.map Prod.fst := by simpa using h
      rw [set, if_neg (Ne.symm hne), ih hrest, List.cons_append]

/-- New names are appended in order. -/
theorem update_of_nodup {r s : Record} (h : ((r ++ s).map Prod.fst).Nodup) :
    r.update s = r ++ s := by
  induction s generalizing r with
  | nil => simp [update]
  | cons x s ih =>
      have hx : x.1 ∉ r.map Prod.fst := by
        rw [List.map_append, List.map_cons, List.nodup_append] at h
        exact fun hmem => h.2.2 x.1 hmem x.1 (by simp) rfl
      have hstep : r.update (x :: s) = (r.set x.1 x.2).update s := rfl
      rw [hstep, set_of_notMem hx, ih (by simpa using h)]
      simp

end Record

section Stored

variable {rt : Runtime} {settings : Settings} {templates : Table TrainingTemplate.id}
  {w w' : Cluster} {a : Action Kind Input} {db : Db} {run : Run}

/-- What is read back is what is stored. -/
theorem storedParameters_eq {r : Uuid} {parameters : Parameters}
    (h : db.parametersOf r = parameters.modelDump) : db.storedParameters r = db.parametersOf r := by
  change Record.update [] (db.parametersOf r) = db.parametersOf r
  rw [h]
  exact Record.update_of_nodup (by simpa using parameters.modelDump_nodup)

/-- Stored parameters validate to the instance they are the dump of. -/
theorem Parameterized.validates (hrt : rt.Exact) (h : Parameterized db run) :
    ∃ template values, db.templates.get? run.templateId = some template ∧
      validateParameters rt template (db.storedParameters run.id) =
        .ok (values, db.parametersOf run.id) := by
  obtain ⟨template, definition, values, hget, hdefinition, hmodel, hstored⟩ := h
  refine ⟨template, values, hget, ?_⟩
  have hvalid := TemplateDefinition.validateParameters_dump hrt hmodel
  rw [storedParameters_eq hstored, hstored]
  simp [validateParameters, hdefinition, hvalid, bind, Except.bind]

/-- Templates and stored parameters stay. -/
theorem Reachable.parameters_later (h : Reachable rt settings templates w)
    (hreach : Reach (system rt settings) (fun _ _ _ => True) w w') :
    w'.state.db.templates = w.state.db.templates ∧ ∀ r, (w.state.db.runs.get? r).isSome →
      w'.state.db.parametersOf r = w.state.db.parametersOf r := by
  induction hreach with
  | refl => exact ⟨rfl, fun _ _ => rfl⟩
  | @step w₁ w₂ a hreach hstep _ ih =>
      obtain ⟨htemplates, hparameters⟩ := ih
      obtain ⟨hreach₁, hlater⟩ := h.later hreach
      rcases hreach₁.ok.guar hstep with heq | ⟨pid, i, p, pt, -, -, -, hguar⟩
      · rw [heq]
        exact ⟨htemplates, hparameters⟩
      · refine ⟨hguar.templates.trans htemplates, fun r hr => ?_⟩
        exact (hguar.parameters r ((hlater r).run_isSome hr)).trans (hparameters r hr)

/-- A run has one stored parameter for each field of its template's model and
no other. Validated again, the stored values give themselves, whenever the
template and the values are read; and a retry without overrides stores the
values of its parent. -/
theorem stored_parameters_fixed (hrt : rt.Exact) (h : Reachable rt settings templates w) :
    (∀ r run, w.state.db.runs.get? r = some run → ∃ template definition values,
      w.state.db.templates.get? run.templateId = some template ∧
      registryGet template.key template.version = .ok definition ∧
      Parameters.model values = definition.parameterModel ∧
      w.state.db.parametersOf r = values.modelDump ∧
      (w.state.db.parametersOf r).map Prod.fst = definition.parameterModel.fields ∧
      definition.parameterModel.fields.Nodup ∧
      ∀ w₂, Reach (system rt settings) (fun _ _ _ => True) w w₂ →
        w₂.state.db.templates.get? run.templateId = some template ∧
        ∀ w₃, Reach (system rt settings) (fun _ _ _ => True) w₂ w₃ →
          w₃.state.db.parametersOf r = w.state.db.parametersOf r ∧
          validateParameters rt template (w₃.state.db.storedParameters r) =
            .ok (values, w.state.db.parametersOf r)) ∧
    ∀ (pid : ℕ) i w' (p : Process) parentId (body : RunRetryRequest) user correlationId,
      w.step (system rt settings) (.run pid i) = some w' → w.procs[pid]? = some p →
      p.kind = .retryRun parentId body user correlationId → body.parameterOverrides = [] →
      ∀ r child, w.state.db.runs.get? r = none → w'.state.db.runs.get? r = some child →
        child.parentRunId = some parentId ∧
        w'.state.db.parametersOf r = w.state.db.parametersOf parentId := by
  constructor
  · intro r run hget
    obtain rfl := Table.key_of_get? hget
    obtain ⟨template, definition, values, htemplate, hdefinition, hmodel, hstored⟩ :=
      h.inv.parameterized _ run hget
    have hnames := values.modelDump_names
    have hnodup := values.modelDump_nodup
    rw [hnames, hmodel] at hnodup
    refine ⟨template, definition, values, htemplate, hdefinition, hmodel, hstored, ?_, hnodup,
      fun w₂ hreach₂ => ?_⟩
    · rw [hstored, hnames, hmodel]
    obtain ⟨htemplates₂, hparameters₂⟩ := h.parameters_later hreach₂
    obtain ⟨hreachable₂, hlater₂⟩ := h.later hreach₂
    refine ⟨htemplates₂ ▸ htemplate, fun w₃ hreach₃ => ?_⟩
    obtain ⟨-, hparameters₃⟩ := hreachable₂.parameters_later hreach₃
    have hsome : (w.state.db.runs.get? run.id).isSome := by simp [hget]
    have hsame : w₃.state.db.parametersOf run.id = w.state.db.parametersOf run.id :=
      (hparameters₃ run.id ((hlater₂ run.id).run_isSome hsome)).trans (hparameters₂ run.id hsome)
    have hvalid := TemplateDefinition.validateParameters_dump hrt hmodel
    refine ⟨hsame, ?_⟩
    rw [storedParameters_eq (hsame.trans hstored), hsame, hstored]
    simp [validateParameters, hdefinition, hvalid, bind, Except.bind]
  · intro pid i w' p parentId body user correlationId hstep hp hkind hbody r child hnone hsome
    rcases h.ok.guar hstep with heq | ⟨pid', i', p', pt, heq, hp', -, hguar⟩
    · rw [heq, hnone] at hsome
      cases hsome
    · obtain ⟨rfl, rfl⟩ : pid' = pid ∧ i' = i := by simpa [eq_comm] using heq
      obtain rfl := Option.some.inj (hp'.symm.trans hp)
      have hfounded := hguar.founded r child hnone hsome
      obtain ⟨hparent, template, values, hget, hvalid⟩ := hfounded.retried _ _ _ _ hkind
      obtain rfl := Table.key_of_get? hsome
      refine ⟨hparent, ?_⟩
      -- parent and child are of one template
      have hparented := hfounded.parented
      simp only [Parented, hparent] at hparented
      obtain ⟨parent, hgetParent, -, -, -, htemplate, -⟩ := hparented
      obtain rfl := Table.key_of_get? hgetParent
      obtain ⟨template', values', hget', hvalid'⟩ :=
        (h.inv.parameterized _ parent hgetParent).validates hrt
      rw [← htemplate, hget] at hget'
      obtain rfl := Option.some.inj hget'
      have hempty : (w.state.db.storedParameters parent.id).update body.parameterOverrides =
          w.state.db.storedParameters parent.id := by
        rw [hbody]
        rfl
      change validateParameters rt template _ = _ at hvalid
      rw [hempty, hvalid'] at hvalid
      exact (Prod.mk.inj (Except.ok.inj hvalid)).2.symm

end Stored

/-- The demonstration's conversions are exact. -/
theorem Demo.exact : Demo.runtime.Exact := ⟨fun _ => rfl, fun _ => rfl, fun _ => rfl⟩

theorem stored_parameters_fixed_scheduled : ∃ w values,
    Reachable Demo.runtime Demo.settings Demo.templates w ∧
    w.state.db.parametersOf 201 = Parameters.modelDump values := by
  obtain ⟨w, hw, run, hget, -⟩ := Demo.scheduled
  obtain ⟨-, -, values, -, -, -, hstored, -⟩ := (stored_parameters_fixed Demo.exact hw).1 201 run hget
  exact ⟨w, values, hw, hstored⟩

end Runscope
