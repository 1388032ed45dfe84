import Runscope.Loaded

/-!
The commands of the API keep the contract.
-/

namespace Runscope

open Transact RunStatus

variable {m : Mode} {κ : Kind} {t : Session} {p : Platform}

/-- A command that has only read so far goes on from a loaded run. -/
theorem getRunOr404_holds {Q : Outcome Run} {runId : Uuid} (hf : Fails m Q p)
    (ht : t.writes = [])
    (h : ∀ p' i run, Meanwhile m κ {} t p p' → run.id = runId →
      Loaded (p'.db.runView run.id) run p' → Q (.ok run) (t.begin i) p') :
    Holds m κ Q (getRunOr404 runId) t p := by
  refine .getRun hf fun p' i hp' => ?_
  rw [Session.view, ht, Storage.applyAll_nil]
  cases hget : p'.db.runs.get? runId with
  | none => exact hf _ _ _ hp'.inv (.of_meanwhile hp')
  | some run => exact h p' i run hp' (Table.key_of_get? hget) (.of_get hp'.inv hget)

theorem newMessage_holds {Q : Outcome OutboxMessage} {settings : Settings} {eventType : String}
    {correlationId : CorrelationId} {runId : Uuid} {workerId : Option Uuid} {payload : Record}
    (h : ∀ p' t' message, Idle t t' → Meanwhile m κ {} t p p' →
      message.envelope.eventType = eventType → message.envelope.runId = some runId →
      message.envelope.workerId = workerId → message.envelope.payload = payload →
      Q (.ok message) t' p') :
    Holds m κ Q (newMessage settings eventType correlationId runId workerId payload) t p := by
  refine .uuid4 fun p₁ t₁ _ ht₁ hp₁ => .datetimeNow fun p₂ t₂ _ ht₂ hp₂ =>
    .uuid4 fun p₃ t₃ _ ht₃ hp₃ => ?_
  have hp : Meanwhile m κ {} t p p₃ :=
    (hp₁.trans (ht₁.meanwhile hp₂)).trans ((ht₁.trans ht₂).meanwhile hp₃)
  exact h p₃ t₃ _ ((ht₁.trans ht₂).trans ht₃) hp rfl rfl rfl rfl

theorem cancelRun_holds {Q : Outcome Run} (hQ : ∀ x t p, Q x t p) {settings : Settings}
    {runId : Uuid} {user : User} {correlationId : RequestId} (ht : t.writes = []) :
    Holds m (.cancelRun runId user correlationId) Q
      (cancelRun settings runId user correlationId) t p := by
  have hf (p : Platform) : Fails m Q p := .of_forall hQ p
  refine .bind (getRunOr404_holds (hf p).then ht fun p₁ i run hp₁ hid hloaded => ?_)
  refine Holds.ofExcept (hf p₁) hp₁.inv fun _ _ => ?_
  by_cases hstatus : run.status = running
  · rw [if_pos hstatus]
    refine .transitionRun (hf p₁) hp₁.inv fun p₂ t₂ now ht₂ hp₂ _ => ?_
    refine .bind (newMessage_holds fun p₃ t₃ message ht₃ hp₃ htype hrunId _ _ => ?_)
    refine .commitFirst (hf p₃) (ht₃.writes.trans (ht₂.writes.trans ht)) (by simp)
      (fun p₄ i t' hc hacc => ?_) fun _ _ _ _ _ _ _ => .refreshRun (hf _) fun _ _ _ _ _ => hQ _ _ _
    have hlater := ((Later.of_meanwhile hp₂).trans (.of_meanwhile hp₃)).trans hc.later
    have hview := (hloaded.later hlater).of_accepted_head hacc rfl rfl
    refine .of_quiet_run run.id ?_ ?_ ?_ ?_ (.of_none rfl (by simp [Write.stamp, Write.founds]))
    · rw [hview]
      refine .single .requestCancel hid.symm ?_
      have hstep := RunStep.requestCancel (p₁.db.runView run.id) run message.envelope
        (run.version + 1) hloaded.row hstatus (by omega) htype
      simpa [Write.stamp, Write.onRun, Run.transitionEvent, hrunId, hloaded.row, Run.transitioned,
        Run.stored, hstatus] using hstep
    · simp [Write.stamp, Write.run?, Run.transitionEvent, hrunId]
    · simp [Write.stamp, hrunId]
    · simp [Write.stamp, Write.quiet, Write.worker?, Write.records?]
  · rw [if_neg hstatus]
    exact hQ _ _ _

theorem updateRunMetadata_holds {Q : Outcome Run} (hQ : ∀ x t p, Q x t p) {rt : Runtime}
    {runId : Uuid} {body : RunMetadataUpdate} {user : User} (ht : t.writes = []) :
    Holds m (.updateRunMetadata runId body user) Q (updateRunMetadata rt runId body user) t p := by
  have hf (p : Platform) : Fails m Q p := .of_forall hQ p
  refine .bind (getRunOr404_holds (hf p).then ht fun p₁ i run hp₁ hid hloaded => ?_)
  refine Holds.ofExcept (hf p₁) hp₁.inv fun _ _ => ?_
  dsimp only
  split
  · exact hQ _ _ _
  · refine Holds.ofExcept (hf p₁) hp₁.inv fun _ _ => ?_
    refine .commitFirst (hf p₁) ht (by split <;> simp) (fun p₂ i t' hc hacc => ?_)
      fun _ _ _ _ _ _ _ => .refreshRun (hf _) fun _ _ _ _ _ => hQ _ _ _
    split at hacc <;> split
    · refine .of_quiet_run run.id ?_ ?_ ?_ ?_ (.of_none rfl (by simp [Write.stamp, Write.founds]))
      · simpa [Write.stamp, Write.onRun] using .refl
      · simp [Write.stamp, Write.run?]
      · simp [Write.stamp]
      · simp [Write.stamp, Write.quiet, Write.worker?, Write.records?]
    · contradiction
    · contradiction
    · have hview := (hloaded.later hc.later).of_accepted_head hacc rfl rfl
      refine .of_quiet_run run.id ?_ ?_ ?_ ?_ (.of_none rfl (by simp [Write.stamp, Write.founds]))
      · rw [hview]
        refine .single .edit hid.symm ?_
        have hstep := RunStep.edit (p₁.db.runView run.id) run body.notes
          (((body.tags.filter fun tag => rt.strip tag ≠ "").map fun tag =>
            rt.lower (rt.strip tag)).eraseDups) (run.version + 1) hloaded.row (by omega)
        simpa [Write.stamp, Write.onRun, hloaded.row, Run.stored] using hstep
      · simp [Write.stamp, Write.run?]
      · simp [Write.stamp]
      · simp [Write.stamp, Write.quiet, Write.worker?, Write.records?]

/-- A row to be inserted for a new run. -/
structure Run.Fresh (draft : Run) : Prop where
  status : draft.status = .draft
  assignedWorkerId : draft.assignedWorkerId = none
  startedAt : draft.startedAt = none
  completedAt : draft.completedAt = none
  failureCode : draft.failureCode = none
  failureMessage : draft.failureMessage = none
  requestedCpu : 0 < draft.requestedCpu
  requestedMemoryMb : 0 < draft.requestedMemoryMb

/-- Parameters concern no run's life, no worker and no record. -/
theorem parameterRows_inert {w : Write} {runId : Uuid} {parameters : Record}
    (h : w ∈ parameterRows runId parameters) :
    w.run? = none ∧ w.quiet ∧ ∀ x, w ≠ .insertOutbox x := by
  obtain ⟨x, -, rfl⟩ := List.mem_map.mp h
  exact ⟨rfl, rfl, nofun⟩

/-- What a command knows of the run it is about to store: the parent, the
template and the parameters. -/
structure Submission (m : Mode) (κ : Kind) (p : Platform) (draft : Run) (parameters : Record) :
    Prop where
  parented : Parented p.db draft
  valid : ∃ template definition values, p.db.templates.get? draft.templateId = some template ∧
    registryGet template.key template.version = .ok definition ∧
    Parameters.model values = definition.parameterModel ∧ parameters = values.modelDump
  retried : ∀ parentId body user correlationId, κ = .retryRun parentId body user correlationId →
    draft.parentRunId = some parentId ∧ ∃ template values,
      p.db.templates.get? draft.templateId = some template ∧
      validateParameters m.rt template
        ((p.db.storedParameters parentId).update body.parameterOverrides) = .ok (values, parameters)

section Submission

variable {draft : Run} {parameters : Record}

theorem Parented.parent_isSome {db : Db} {r : Uuid} (h : Parented db draft)
    (hr : draft.parentRunId = some r) : (db.runs.get? r).isSome := by
  simp only [Parented, hr] at h
  obtain ⟨parent, hget, -⟩ := h
  simp [hget]

theorem Submission.later {pt : Point} {p' : Platform} (h : Submission m κ p draft parameters)
    (hI : Invariant m p) (hp' : Meanwhile m κ pt t p p') : Submission m κ p' draft parameters where
  parented := h.parented.later hI.runs hp'.rely.runs (.refl draft)
  valid := by
    rw [hp'.rely.templates]
    exact h.valid
  retried parentId body user correlationId hκ := by
    obtain ⟨hparent, hvalid⟩ := h.retried parentId body user correlationId hκ
    have hstored : p'.db.storedParameters parentId = p.db.storedParameters parentId :=
      congrArg (Record.update []) (hp'.rely.parameters parentId (h.parented.parent_isSome hparent))
    rw [hp'.rely.templates, hstored]
    exact ⟨hparent, hvalid⟩

theorem filterMap_parameterRows (runId : Uuid) (parameters : Record) :
    (parameterRows runId parameters).filterMap Write.parameter? =
      parameters.map fun x => ⟨runId, x.1, x.2⟩ := by
  rw [parameterRows, List.filterMap_map]
  exact List.filterMap_eq_map_iff_forall_eq_some.mpr fun _ _ => rfl

/-- The writes that store a run store what its command knows. -/
theorem Submission.founding {clock now : Time} {event : RunEvent} {message : OutboxMessage}
    {ws : List Write} (h : Submission m κ p draft parameters) (hI : Invariant m p)
    (hnone : p.db.runs.get? draft.id = none) (hacc : storage.firstError p ws = none)
    (hws : ws = .insertRun { draft with createdAt := clock } :: (parameterRows draft.id parameters ++
      [.updateRun (draft.transitioned queued now), .insertEvent event, .insertOutbox message]))
    (hevent : event.runId = draft.id) (hmessage : message.envelope.runId = some draft.id) :
    Founding m κ p ws := by
  have hrun (w : Write) (hw : w ∈ ws) : w.run? = none ∨ w.run? = some draft.id := by
    simp only [hws, List.mem_cons, List.mem_append, List.not_mem_nil, or_false] at hw
    rcases hw with rfl | hw | rfl | rfl | rfl
    · exact .inr rfl
    · exact .inl (parameterRows_inert hw).1
    · exact .inr rfl
    · cases hnew : event.newStatus <;> simp [Write.run?, hnew, hevent]
    · exact .inr hmessage
  have hhistory (w : Write) (hw : w ∈ ws) : w.history? = none ∨ w.history? = some draft.id := by
    simp only [hws, List.mem_cons, List.mem_append, List.not_mem_nil, or_false] at hw
    rcases hw with rfl | hw | rfl | rfl | rfl
    · exact .inl rfl
    · obtain ⟨x, -, rfl⟩ := List.mem_map.mp hw
      exact .inr rfl
    · exact .inl rfl
    · exact .inr (congrArg some hevent)
    · exact .inl rfl
  have hparameter (x : RunParameter) (hx : .insertParameter x ∈ ws) : x.runId = draft.id :=
    Option.some.inj ((hhistory (.insertParameter x) hx).resolve_left (by simp [Write.history?]))
  have hrow : (storage.applyAll p ws).db.runs.get? draft.id =
      some ((draft.transitioned queued now).stored { draft with createdAt := clock }) := by
    have hview := congrArg RunView.run (runView_applyAll hacc draft.id)
    have habsent : p.db.runView draft.id = .absent := (hI.runs draft.id).absent hnone
    have hskip (v : RunView) : onRun draft.id (parameterRows draft.id parameters) v = v :=
      onRun_of_forall_ne (fun w hw => by simp [(parameterRows_inert hw).1]) v
    rw [habsent] at hview
    refine hview.trans ?_
    rw [hws, onRun_cons, onRun_append, hskip]
    simp only [onRun_cons, onRun_nil, Write.onRun, hevent, hmessage]
    cases event.newStatus <;> simp [RunView.absent]
  -- nothing is stored for a run that is not
  have hempty : p.db.parametersOf draft.id = [] := by
    rw [Db.parametersOf, List.map_eq_nil_iff, List.filter_eq_nil_iff]
    intro x hx hid
    have hsome := hI.parameters x hx
    simp [show x.runId = draft.id by simpa using hid, hnone] at hsome
  have hparameters : (storage.applyAll p ws).db.parametersOf draft.id = parameters := by
    have hall : ((parameters.map fun x => (⟨draft.id, x.1, x.2⟩ : RunParameter)).filter fun x =>
        decide (x.runId = draft.id)) = parameters.map fun x => ⟨draft.id, x.1, x.2⟩ :=
      List.filter_eq_self.mpr fun x hx => by
        obtain ⟨y, -, rfl⟩ := List.mem_map.mp hx
        simp
    have hnew : ws.filterMap Write.parameter? = parameters.map fun x => ⟨draft.id, x.1, x.2⟩ := by
      simp [hws, List.filterMap_cons, List.filterMap_append, filterMap_parameterRows,
        Write.parameter?]
    rw [Db.parametersOf] at hempty
    rw [Db.parametersOf, parameters_applyAll, List.filter_append, List.map_append, hempty, hnew,
      hall, List.map_map, List.nil_append]
    exact List.map_id parameters
  constructor
  · intro r run hr hget
    obtain rfl : r = draft.id := by
      by_contra hne
      have hsame := congrArg RunView.run (runView_applyAll hacc r)
      rw [onRun_of_forall_ne fun w hw => by
        rcases hrun w hw with h | h <;> simp [h, Ne.symm hne]] at hsame
      have hget' : p.db.runs.get? r = some run := hsame.symm.trans hget
      simp [hr] at hget'
    obtain rfl := Option.some.inj (hrow.symm.trans hget)
    obtain ⟨template, definition, values, htemplate, hdefinition, hmodel, hvalues⟩ := h.valid
    refine ⟨h.parented, ⟨template, definition, values, ?_, hdefinition, hmodel, ?_⟩,
      fun parentId body user correlationId hκ => ?_⟩
    · rw [templates_applyAll]
      exact htemplate
    · exact hparameters.trans hvalues
    · obtain ⟨hparent, template, values, htemplate, hvalid⟩ :=
        h.retried parentId body user correlationId hκ
      refine ⟨hparent, template, values, htemplate, hvalid.trans ?_⟩
      exact congrArg (fun stored => Except.ok (values, stored)) hparameters.symm
  · intro x hx
    rw [hparameter x hx]
    exact ⟨hnone, by simp [hrow]⟩
  · intro _ r hr w hw
    have hne : r ≠ draft.id := by
      rintro rfl
      simp [hnone] at hr
    rcases hhistory w hw with h | h <;> simp [h, Ne.symm hne]

end Submission

/-- How a run comes to be, whether new or as a retry. -/
theorem submit_holds {Q : Outcome Run} (hQ : ∀ x t p, Q x t p) (hκ : ∀ r, κ.allows r .create)
    {settings : Settings} {draft : Run} (hdraft : draft.Fresh) {metadata parameters : Record}
    (hI : Invariant m p) (hsubmission : Submission m κ p draft parameters)
    {correlationId : RequestId} {payload : Run → Record} {k : Run × RunEvent → Program Run}
    (hk : ∀ run event, k (run, event) = do
      let message ← newMessage settings "run.submitted" (.request correlationId) run.id none
        (payload run)
      session.commit {} (parameterRows run.id parameters ++
        [.updateRun run, .insertEvent event, .insertOutbox message])
      session.refreshRun {} run) (ht : t.writes = []) :
    Holds m κ Q (do
      session.flush {} [.insertRun draft]
      transitionRun {} draft .queued "run.queued" metadata >>= k) t p := by
  have hf (p : Platform) : Fails m Q p := .of_forall hQ p
  refine .flush' (hf p) (by simp) fun p₁ i hp₁ _ => ?_
  have h₁ := hsubmission.later hI hp₁
  refine .transitionRun (hf p₁) hp₁.inv fun p₂ t₂ now ht₂ hp₂ _ => ?_
  have h₂ := h₁.later hp₁.inv hp₂
  rw [hk]
  refine .bind (newMessage_holds fun p₃ t₃ message ht₃ hp₃ htype hrunId _ _ => ?_)
  have h₃ := h₂.later hp₂.inv hp₃
  refine .commitAll (hf p₃) (by simp [parameterRows]) (fun p₄ j t' hc => ?_)
    fun _ _ _ _ _ _ => .refreshRun (hf _) fun _ _ _ _ _ => hQ _ _ _
  have hw : t₃.writes = [.insertRun { draft with createdAt := (t.began.getD i).clock }] := by
    rw [ht₃.writes, ht₂.writes, writes_of_nil ht]
    rfl
  have hacc := hc.accepted
  rw [List.map_append, parameterRows_stamp, hw] at hacc ⊢
  have hnone : p₄.db.runs.get? draft.id = none := by
    have hcheck := (storage.firstError_cons_eq_none.mp hacc).1
    simpa [storage, Write.check] using hcheck
  have habsent : p₄.db.runView draft.id = .absent := (hc.inv.runs draft.id).absent hnone
  have hparameters := @parameterRows_inert
  have hfounding := (h₃.later hp₃.inv hc.meanwhile).founding hc.inv hnone hacc rfl rfl hrunId
  refine .of_quiet_run draft.id ?_ ?_ ?_ ?_ hfounding
  · rw [habsent]
    refine .single .create (hκ _) ?_
    have hstep := RunStep.create
      ((draft.transitioned .queued now).stored { draft with createdAt := (t.began.getD i).clock })
      message.envelope rfl hdraft.assignedWorkerId
      (by cases h : draft.queuedAt <;> simp [Run.transitioned, Run.stored, h])
      hdraft.startedAt hdraft.completedAt hdraft.failureCode hdraft.failureMessage
      hdraft.requestedCpu hdraft.requestedMemoryMb htype
    have hskip (v : RunView) : onRun draft.id (parameterRows draft.id parameters) v = v :=
      onRun_of_forall_ne (fun w hw => by simp [(hparameters hw).1]) v
    rw [onRun_append, onRun_append, Run.transitioned_id, hskip]
    simpa [Write.stamp, Write.onRun, Run.transitionEvent, hrunId, RunView.absent,
      hdraft.status] using hstep
  · intro w hw
    simp only [List.mem_append] at hw
    rcases hw with hw | hw | hw
    · simp_all [Write.run?]
    · exact .inl (hparameters hw).1
    · simp only [List.map_cons, List.map_nil, List.mem_cons, List.not_mem_nil, or_false] at hw
      rcases hw with rfl | rfl | rfl <;> simp [Write.stamp, Write.run?, Run.transitionEvent, hrunId]
  · intro x hx
    simp only [List.mem_append] at hx
    rcases hx with hx | hx | hx
    · simp at hx
    · exact absurd rfl ((hparameters hx).2.2 x)
    · simp [Write.stamp] at hx
      simp [hx, hrunId]
  · intro w hw
    simp only [List.mem_append] at hw
    rcases hw with hw | hw | hw
    · simp_all [Write.quiet, Write.worker?, Write.records?]
    · exact (hparameters hw).2.1
    · simp only [List.map_cons, List.map_nil, List.mem_cons, List.not_mem_nil, or_false] at hw
      rcases hw with rfl | rfl | rfl <;> rfl

theorem createQueuedRun_holds {Q : Outcome Run} (hQ : ∀ x t p, Q x t p) {rt : Runtime}
    {settings : Settings} {body : RunCreate} {createdBy : Uuid} {correlationId : RequestId}
    (ht : t.writes = []) :
    Holds m (.createRun body createdBy correlationId) Q
      (createQueuedRun rt settings body createdBy correlationId) t p := by
  have hf (p : Platform) : Fails m Q p := .of_forall hQ p
  refine .bind (.select (hf p).then fun p₁ i hp₁ => ?_)
  rw [Session.view, ht, Storage.applyAll_nil]
  split
  · exact hQ _ _ _
  · next template hfound =>
    have hget := Table.get?_of_mem (List.mem_of_find?_eq_some hfound)
    split
    · exact hQ _ _ _
    · refine Holds.ofExcept (hf p₁) hp₁.inv fun _ hvalid => .uuid4 fun p₂ t₂ id ht₂ hp₂ => ?_
      extract_lets draft
      refine Holds.ofExcept (hf p₂) hp₂.inv fun _ _ => ?_
      refine submit_holds hQ ?_ ?_ hp₂.inv ?_ (fun _ _ => rfl) (ht₂.writes.trans ht)
      · exact fun _ => trivial
      · exact ⟨rfl, rfl, rfl, rfl, rfl, rfl, body.requestedCpu_pos, body.requestedMemoryMb_pos⟩
      · obtain ⟨definition, hdefinition, hmodel, hdump⟩ := validateParameters_ok hvalid
        refine ⟨rfl, ⟨template, definition, _, ?_, hdefinition, hmodel, hdump⟩,
          by rintro _ _ _ _ ⟨⟩⟩
        rw [hp₂.rely.templates]
        exact hget

theorem retryRun_holds {Q : Outcome Run} (hQ : ∀ x t p, Q x t p)
    {settings : Settings} {runId : Uuid} {body : RunRetryRequest} {user : User}
    {correlationId : RequestId} (ht : t.writes = []) :
    Holds m (.retryRun runId body user correlationId) Q
      (retryRun m.rt settings runId body user correlationId) t p := by
  have hf (p : Platform) : Fails m Q p := .of_forall hQ p
  refine .bind (getRunOr404_holds (hf p).then ht fun p₁ i parent hp₁ hid hloaded => ?_)
  refine Holds.ofExcept (hf p₁) hp₁.inv fun _ _ => ?_
  have hparent := hloaded.inv.present parent hloaded.row
  split
  · next hfailed =>
    refine .select (hf p₁) fun p₂ j hp₂ => ?_
    rw [Session.view, Session.begin_writes, ht, Storage.applyAll_nil]
    split
    · exact hQ _ _ _
    · next template hget =>
      refine .select (hf p₂) fun p₃ k hp₃ => Holds.ofExcept (hf p₃) hp₃.inv fun validated hvalid =>
        .uuid4 fun p₄ t₄ id ht₄ hp₄ => ?_
      extract_lets draft
      refine submit_holds hQ ?_ ?_ hp₄.inv ?_ (fun _ _ => rfl) (ht₄.writes.trans ht)
      · exact fun _ => trivial
      · exact ⟨rfl, rfl, rfl, rfl, rfl, rfl, hparent.requestedCpu, hparent.requestedMemoryMb⟩
      · refine Submission.later (p := p₃) ?_ hp₃.inv hp₄
        obtain ⟨definition, hdefinition, hmodel, hdump⟩ := validateParameters_ok hvalid
        have htemplate : p₃.db.templates.get? draft.templateId = some template := by
          rw [hp₃.rely.templates]
          exact hget
        refine ⟨?_, ⟨template, definition, _, htemplate, hdefinition, hmodel, hdump⟩, ?_⟩
        · have hparented : Parented p₁.db draft :=
            ⟨parent, hloaded.row, hfailed, rfl, rfl, rfl, rfl, rfl, rfl⟩
          exact (hparented.later hp₁.inv.runs hp₂.rely.runs (.refl draft)).later hp₂.inv.runs
            hp₃.rely.runs (.refl draft)
        · rintro _ _ _ _ ⟨⟩
          rw [Session.view, Session.begin_writes, Session.begin_writes, ht, Storage.applyAll_nil,
            hid] at hvalid
          exact ⟨congrArg some hid, template, validated.1, htemplate, hvalid⟩
  · exact hQ _ _ _

end Runscope
