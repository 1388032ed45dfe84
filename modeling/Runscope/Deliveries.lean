import Runscope.Entries
import Runscope.StoredParameters
import Runscope.Transact.Writes

/-!
What a delivery enters for its run, statement by statement.

A `story` is what the entries of a session may look like at any of its flushes.
The lemmas here carry a story through the functions that both kinds of
executors share; which stories there are is said where they are told.
-/

namespace Runscope

open Transact RunStatus

variable {α β : Type}

/-- Where `E` says what is known of the committed part of the trail when the
program raises. -/
def Outcomes (E : List Write → Prop) (Q : α → List Write → List Write → Prop) :
    Except Exc α → List Write → List Write → Prop
  | .ok a => Q a
  | .error _ => fun done _ => E done

/-- The program adds to the entries of its session so that they remain a
`story`. An execution of the run's template has the given `result`. -/
def Tells (good : Platform → Prop) (r : Uuid) (result : TemplateResult) (story : List Entry → Prop)
    (E : List Write → Prop) (Q : α → List Write → List Write → Prop) (p : Program α)
    (done ws : List Write) : Prop :=
  p.Trails storage good (fun c i => c = .execute r → i.result = result)
    (fun trail => story (entries r trail)) (Outcomes E Q) done ws

variable {good : Platform → Prop} {r : Uuid} {result : TemplateResult} {story : List Entry → Prop}
  {E : List Write → Prop} {Q : α → List Write → List Write → Prop} {pt : Point}
  {done ws : List Write}

namespace Tells

theorem ret {a : α} (h : Q a done ws) : Tells good r result story E Q (.ret a) done ws := h

theorem raise {e : Exc} (h : E done) : Tells good r result story E Q (.raise e) done ws := h

theorem mono {Q' : α → List Write → List Write → Prop} {p : Program α}
    (h : Tells good r result story E Q p done ws) (hQ : ∀ a done ws, Q a done ws → Q' a done ws) :
    Tells good r result story E Q' p done ws :=
  Prog.Trails.mono h fun x done ws hx => by
    cases x with
    | ok a => exact hQ a done ws hx
    | error e => exact hx

theorem bind {p : Program β} {k : β → Program α}
    (h : Tells good r result story E (fun b done ws => Tells good r result story E Q (k b) done ws) p
      done ws) : Tells good r result story E Q (p.bind k) done ws :=
  Prog.Trails.bind (Prog.Trails.mono h fun x _ _ hx => by cases x <;> exact hx)

theorem tryCatch {p : Program α} {handler : Exc → Program α}
    (h : Tells good r result story
      (fun done => ∀ e ws, Tells good r result story E Q (handler e) done ws) Q p done ws) :
    Tells good r result story E Q (p.tryCatch handler) done ws := by
  refine Prog.Trails.tryCatch (Prog.Trails.mono h fun x done ws hx => ?_)
  cases x with
  | ok a => exact hx
  | error e => exact hx e ws

theorem ofExcept {x : Except Exc α} (hE : E done) (h : ∀ a, x = .ok a → Q a done ws) :
    Tells good r result story E Q (.ofExcept x) done ws := by
  refine Prog.Trails.ofExcept ?_
  cases x with
  | ok a => exact h a rfl
  | error e => exact hE

theorem select {query : Db → α} (hE : E done)
    (h : ∀ p, (ws = [] → good p) → Q (query p.db) done ws) :
    Tells good r result story E Q (session.select pt query) done ws :=
  Prog.Trails.select (fun _ => hE) fun reply hview => h reply.view hview

theorem selectForUpdate {skip : Bool} {key : α → RowKey} {query : Db → (α → Bool) → List α}
    {Q : List α → List Write → List Write → Prop} (hE : E done)
    (h : ∀ found, Q found done ws) :
    Tells good r result story E Q (session.selectForUpdate pt skip key query) done ws :=
  Prog.Trails.lock (fun _ => hE) fun _ _ => h _

theorem call {c : Call} {f : Reply Platform RowKey Input → α} (hE : E done)
    (h : ∀ reply, (c = .execute r → reply.input.result = result) → Q (f reply) done ws) :
    Tells good r result story E Q (.stmt pt (.call c) f) done ws :=
  Prog.Trails.call (fun _ => hE) h

theorem flush {pending : List Write} {Q : Unit → List Write → List Write → Prop} (hE : E done)
    (hstory : story (entries r done ++ entries r ws ++ entries r pending))
    (h : ∀ ws', entries r ws' = entries r ws ++ entries r pending → Q () done ws') :
    Tells good r result story E Q (session.flush pt pending) done ws := by
  refine Prog.Trails.flush (fun _ => hE) fun i => ⟨?_, fun _ => h _ ?_⟩
  · show story (entries r (done ++ ws ++ pending.map (Write.stamp i)))
    rwa [entries_append, entries_append, entries_stamp]
  · rw [entries_append]
    exact congrArg _ (entries_stamp i)

theorem commit {pending : List Write} {Q : Unit → List Write → List Write → Prop} (hE : E done)
    (hstory : story (entries r done ++ entries r ws ++ entries r pending))
    (h : ∀ done', entries r done' = entries r done ++ entries r ws ++ entries r pending →
      Q () done' []) :
    Tells good r result story E Q (session.commit pt pending) done ws := by
  refine .bind (.flush hE hstory fun ws' hws' => ?_)
  refine Prog.Trails.commit (fun _ => hE) fun _ => h _ ?_
  rw [entries_append, hws', List.append_assoc]

theorem rollback {Q : Unit → List Write → List Write → Prop} (hE : E done) (h : Q () done []) :
    Tells good r result story E Q (session.rollback pt) done ws :=
  Prog.Trails.rollback (fun _ => hE) fun _ => h

end Tells

/-! ### The functions of the services -/

theorem datetimeNow_tells {Q : Time → List Write → List Write → Prop} (hE : E done)
    (h : ∀ now, Q now done ws) : Tells good r result story E Q (datetimeNow pt) done ws :=
  .call hE fun _ _ => h _

theorem refreshRun_tells {run : Run} {Q : Run → List Write → List Write → Prop} (hE : E done)
    (h : ∀ run' : Run, run'.id = run.id → Q run' done ws) :
    Tells good r result story E Q (session.refreshRun pt run) done ws := by
  refine .bind (.select hE fun p _ => ?_)
  cases hget : p.db.runs.get? run.id with
  | none => exact .raise hE
  | some run' => exact .ret (h run' (Table.key_of_get? hget))

theorem transitionRun_tells {run : Run} {target : RunStatus} {eventType : String}
    {metadata : Record} {Q : Run × RunEvent → List Write → List Write → Prop} (hE : E done)
    (h : ∀ now, target ∈ validTransitions run.status →
      Q (run.transitioned target now, run.transitionEvent target eventType metadata) done ws) :
    Tells good r result story E Q (transitionRun pt run target eventType metadata) done ws := by
  refine .bind (.ofExcept hE fun _ hvalid => .bind (datetimeNow_tells hE fun now => .ret (h now ?_)))
  by_contra hnot
  rw [validateTransition, if_neg hnot] at hvalid
  cases hvalid

theorem entries_workerUpdate (loaded changed : Worker) :
    entries r (workerUpdate loaded changed) = [] := by
  rw [workerUpdate]
  split <;> rfl

/-- What is left of a release once its worker is known. -/
theorem released_tells {allocation : ResourceAllocation} {loaded : List Worker}
    {Q : Option ResourceAllocation × List Worker × List Write → List Write → List Write → Prop}
    (hE : E done) (h : ∀ x, entries r x.2.2 = [] → Q x done ws) (worker? : Option Worker) :
    Tells good r result story E Q (do
      match worker? with
      | none => .ret (some allocation, loaded, [])
      | some worker =>
        let refreshed ← refreshWorkerCapacity { worker := some worker.id } worker
        .ret (some allocation, loaded.map fun w => if w.id = refreshed.id then refreshed else w,
          workerUpdate worker refreshed) : Program _) done ws := by
  cases worker? with
  | none => exact .ret (h _ rfl)
  | some worker =>
      refine .bind (.bind (.select hE fun p _ => .ret (.ret (h _ ?_))))
      exact entries_workerUpdate ..

theorem releaseAllocation_tells {runId : Uuid} {pending : List Write} {loaded : List Worker}
    {Q : Option ResourceAllocation × List Worker × List Write → List Write → List Write → Prop}
    (hE : E done) (hstory : story (entries r done ++ entries r ws ++ entries r pending))
    (h : ∀ x ws', entries r ws' = entries r ws ++ entries r pending → entries r x.2.2 = [] →
      Q x done ws') :
    Tells good r result story E Q (releaseAllocation runId pending loaded) done ws := by
  unfold releaseAllocation
  refine .bind (.flush hE hstory fun ws₁ hws₁ => .bind (.selectForUpdate hE fun found => ?_))
  cases found with
  | nil => exact .ret (h _ _ hws₁ rfl)
  | cons allocation rest =>
      refine .bind (datetimeNow_tells hE fun now => .bind (.flush hE ?_ fun ws₂ hws₂ => ?_))
      · rw [hws₁, ← List.append_assoc]
        exact (List.append_nil _).symm ▸ hstory
      · replace hws₂ : entries r ws₂ = entries r ws ++ entries r pending :=
          hws₂.trans ((List.append_nil _).trans hws₁)
        have hdone (x : Option ResourceAllocation × List Worker × List Write)
            (hx : entries r x.2.2 = []) : Q x done ws₂ := h x ws₂ hws₂ hx
        cases loaded.find? fun w => w.id = allocation.workerId with
        | some worker => exact .bind (.ret (released_tells hE hdone (some worker)))
        | none => exact .bind (.select hE fun p _ => released_tells hE hdone _)

theorem finishRun_tells {run : Run} {target : RunStatus} {eventType : String} {metadata : Record}
    {added : List Write} {Q : Run → List Write → List Write → Prop} (hid : run.id = r) (hE : E done)
    (hstory : target ∈ validTransitions run.status → story (entries r done ++
      (entries r added ++ [.transition (some run.status) (some target)])))
    (h : ∀ (run' : Run) done', target ∈ validTransitions run.status → run'.id = r →
      entries r done' = entries r done ++
        (entries r added ++ [.transition (some run.status) (some target)]) → Q run' done' []) :
    Tells good r result story E Q (finishRun run target eventType metadata added) done [] := by
  refine .bind (transitionRun_tells hE fun now hvalid => ?_)
  specialize hstory hvalid
  dsimp only
  generalize hpending : added ++ [Write.updateRun (run.transitioned target now),
    Write.insertEvent (run.transitionEvent target eventType metadata)] = pending
  have hentries : entries r pending =
      entries r added ++ [.transition (some run.status) (some target)] := by
    rw [← hpending, entries_append]
    simp [Write.entered?, Run.transitionEvent, hid]
  rw [← hentries] at hstory h
  refine .bind (releaseAllocation_tells hE (by simpa using hstory) fun x ws' hws' hx => ?_)
  refine .bind (.commit hE ?_ fun done' hdone' => .ret (h _ done' hvalid hid ?_))
  · rw [hws', hx, List.append_nil]
    exact hstory
  · rw [hdone', hws', hx, List.append_nil]
    rfl

/-! ### The delivery -/

/-- What stays as it is about a run: its template and its parameters. -/
structure Fixed (templates : Table TrainingTemplate.id) (templateId : Uuid) (values : Record)
    (r : Uuid) (p : Platform) : Prop where
  templates : p.db.templates = templates
  run : ∃ run, p.db.runs.get? r = some run ∧ run.templateId = templateId
  parameters : p.db.storedParameters r = values

/-- `RUNNING` -/
abbrev Entry.started : Entry := .transition (some scheduling) (some running)

variable {rt : Runtime} {templates : Table TrainingTemplate.id} {templateId : Uuid} {values : Record}

/-- The run of a delivery, once it is started. -/
theorem executeExistingRun_tells {expectedWorkerId leaseToken : Option Uuid}
    {Q : Option Run → List Write → List Write → Prop} (hnone : entries r done = [])
    (hstarted : story [.started]) (hidle : ∀ x, Q x done [])
    (hbody : ∀ run template validated dump done', run.id = r → run.status = running →
      templates.get? templateId = some template →
      validateParameters rt template values = .ok (validated, dump) → entries r done' = [.started] →
      Tells (Fixed templates templateId values r) r result story (fun _ => True)
        (fun run done ws => Q (some run) done ws) (executeStarted rt run template validated)
        done' []) :
    Tells (Fixed templates templateId values r) r result story (fun _ => True) Q
      (executeExistingRun rt r expectedWorkerId leaseToken) done [] := by
  unfold executeExistingRun
  refine .bind (.select trivial fun p hp => ?_)
  have hp := hp rfl
  cases hget : p.db.runs.get? r with
  | none => exact .ret (hidle none)
  | some run =>
      obtain ⟨run', hget', htemplateId⟩ := hp.run
      obtain rfl := Option.some.inj (hget'.symm.trans hget)
      have hid : run'.id = r := Table.key_of_get? hget
      dsimp only
      split
      case isFalse => exact .ret (hidle _)
      case isTrue hstatus =>
      refine .bind (.select trivial fun p₂ hp₂ => ?_)
      split
      case h_1 => exact .ret (hidle _)
      case h_2 allocation _ =>
      split
      case isFalse => exact .ret (hidle _)
      case isTrue =>
      refine .bind (.select trivial fun p₃ hp₃ => ?_)
      have hp₃ := hp₃ rfl
      rw [htemplateId, hp₃.templates]
      cases htemplate : templates.get? templateId with
      | none => exact .raise trivial
      | some template =>
          refine .bind (.select trivial fun p₄ hp₄ => ?_)
          rw [hid, (hp₄ rfl).parameters]
          refine .bind (.ofExcept trivial fun validated hvalidated => ?_)
          obtain ⟨validated, dump⟩ := validated
          refine .bind (transitionRun_tells trivial fun now _ => .bind (.commit trivial ?_ ?_))
          · rw [hnone]
            simpa [Write.entered?, Run.transitionEvent, hid, hstatus] using hstarted
          · intro done' hdone'
            refine .bind (.mono (hbody (run'.transitioned running now).flushed template validated
              dump done' hid rfl htemplate hvalidated ?_) fun run done ws hx => .ret hx)
            rw [hdone', hnone]
            simp [Write.entered?, Run.transitionEvent, hid, hstatus]

theorem processEvent_tells {event : EventEnvelope} {workerId : Option Uuid}
    (hrun : event.runId = some r) (hnone : story []) (hstarted : story [.started])
    (hbody : ∀ run template validated dump done', run.id = r → run.status = running →
      templates.get? templateId = some template →
      validateParameters rt template values = .ok (validated, dump) → entries r done' = [.started] →
      Tells (Fixed templates templateId values r) r result story (fun _ => True)
        (fun _ done ws => story (entries r done) ∧ ws = []) (executeStarted rt run template validated)
        done' []) :
    Tells (Fixed templates templateId values r) r result story (fun _ => True) (fun _ _ _ => True)
      (processEvent rt event workerId) [] [] := by
  unfold processEvent
  split
  · exact .ret trivial
  · unfold processAssignment
    rw [hrun]
    cases event.workerId with
    | none => exact .ret trivial
    | some eventWorkerId =>
        refine .bind (.select trivial fun p _ => ?_)
        split
        · exact .ret trivial
        · refine .bind (.ofExcept trivial fun leaseToken _ => .bind ?_)
          -- what follows marks the message as processed
          have hrest (done : List Write) (h : story (entries r done)) (message : ProcessedMessage) :
              Tells (Fixed templates templateId values r) r result story (fun _ => True)
                (fun _ _ _ => True) (do
                  session.commit {} [.insertProcessed message]
                  .ret true : Program Bool) done [] := by
            refine .bind (.commit trivial ?_ fun _ _ => .ret trivial)
            simpa [Write.entered?] using h
          refine executeExistingRun_tells rfl hstarted (fun _ => hrest [] hnone _) ?_
          intro run template validated dump done' hid hstatus htemplate hvalid hdone'
          refine .mono (hbody run template validated dump done' hid hstatus htemplate hvalid hdone')
            fun run done ws hdone => ?_
          obtain ⟨hstory, rfl⟩ := hdone
          exact hrest done hstory _

/-! ### In a reachable world -/

variable {settings : Settings} {w w' : Cluster} {a : Action Kind Input}

/-- Whenever the template of the run is executed, the result is `result`. -/
def Draws (r : Uuid) (result : TemplateResult) (w : Cluster) (a : Action Kind Input) (_ : Cluster) :
    Prop :=
  ∀ pid i p pt next, a = .run pid i → w.procs[pid]? = some p →
    p.prog = .step pt (.call (.execute r)) next → i.result = result

/-- A template is executed at most once for a run, so there is one result. -/
theorem Reachable.draws (h : Reachable rt settings templates w) (r : Uuid) :
    ∃ result, Reach (system rt settings) (Draws r result) (.initial (.empty templates)) w := by
  have hdraws : (w.state.executions.count r = 0 → ∀ result, Reach (system rt settings)
      (Draws r result) (.initial (.empty templates)) w) ∧ ∃ result,
      Reach (system rt settings) (Draws r result) (.initial (.empty templates)) w := by
    induction h with
    | refl => exact ⟨fun _ _ => .refl, ⟨[], [], []⟩, .refl⟩
    | @step w w' a hbefore hstep _ ih =>
        have hbefore : Reachable rt settings templates w := hbefore
        have hone := (hbefore.step hstep).executed_le r
        by_cases hexecutes : ∃ pid i p pt next, a = .run pid i ∧ w.procs[pid]? = some p ∧
          p.prog = .step pt (.call (.execute r)) next
        · obtain ⟨pid, i, p, pt, next, rfl, hp, hprog⟩ := hexecutes
          have hstate : w'.state = (Call.execute r).perform i w.state := by
            simp only [World.step, hp, hprog, Prog.exec, Option.some.injEq] at hstep
            rw [← hstep]
            rfl
          have hcount := count_perform (.execute r) i w.state r
          rw [← hstate] at hcount
          have hexecuted : executesOf r [.execute r] = 1 := by simp [executesOf]
          refine ⟨fun _ => by omega, i.result, .step (ih.1 (by omega) i.result) hstep ?_⟩
          rintro pid' i' p' pt' next' heq - -
          obtain ⟨-, rfl⟩ : pid = pid' ∧ i = i' := by simpa using heq
          rfl
        · have hnone (result : TemplateResult) : Draws r result w a w' :=
            fun pid i p pt next ha hp hprog => (hexecutes ⟨pid, i, p, pt, next, ha, hp, hprog⟩).elim
          have hle : w.state.executions.count r ≤ w'.state.executions.count r := by
            rcases World.commits_step hstep with ⟨pid, i, p, pt, next, -, -, -, hstate, -⟩ |
              ⟨hstate | ⟨c, i, hstate⟩, -⟩
            · change w'.state = storage.applyAll w.state p.session.writes at hstate
              rw [hstate, executions_applyAll]
            · rw [hstate]
            · change w'.state = c.perform i w.state at hstate
              rw [hstate, count_perform]
              omega
          obtain ⟨hany, result, hresult⟩ := ih
          exact ⟨fun hzero result => .step (hany (by omega) result) hstep (hnone result), result,
            .step hresult hstep (hnone result)⟩
  exact hdraws.2

/-- A message is delivered only if its run exists. -/
theorem Reachable.delivered (h : Reachable rt settings templates w) {p : Process} (hp : p ∈ w.procs)
    {event : EventEnvelope} {workerId : Option Uuid} (hkind : p.kind = .processEvent event workerId)
    (hrun : event.runId = some r) : (w.state.db.runs.get? r).isSome := by
  obtain ⟨w₁, hbefore, hadmits, hafter⟩ := Reach.admitted h hp
  have hbefore : Reachable rt settings templates w₁ := hbefore
  change p.kind.admits w₁.state at hadmits
  rw [hkind] at hadmits
  obtain ⟨r', hmessage⟩ := hbefore.inv.topic event hadmits
  obtain ⟨-, hr'⟩ := List.mem_filter.mp hmessage
  obtain rfl : r = r' := Option.some.inj (hrun.symm.trans (by simpa using hr'))
  refine Lives.run_isSome ((hbefore.later hafter).2 r) ?_
  by_contra hnone
  have habsent := (hbefore.inv.runs r).absent (Option.not_isSome_iff_eq_none.mp hnone)
  have hempty : w₁.state.db.messagesOf r = [] := congrArg RunView.messages habsent
  rw [hempty] at hmessage
  cases hmessage

/-- What is fixed about a run was so since it exists. -/
theorem Reachable.fixed {allowed : Cluster → Action Kind Input → Cluster → Prop}
    (h : Reach (system rt settings) allowed (.initial (.empty templates)) w)
    (hfixed : Fixed templates templateId values r w.state) :
    Reach (system rt settings) (fun w₁ a w₂ => allowed w₁ a w₂ ∧
      ((w₁.state.db.runs.get? r).isSome → Fixed templates templateId values r w₁.state))
      (.initial (.empty templates)) w := by
  refine Reach.backward (P := fun w₁ => (w₁.state.db.runs.get? r).isSome →
    Fixed templates templateId values r w₁.state) (fun w₁ w₂ a hbefore hstep hafter hsome => ?_) h
    fun _ => hfixed
  have hbefore : Reachable rt settings templates w₁ := hbefore.mono fun _ _ _ _ => trivial
  have hreach : Reach (system rt settings) (fun _ _ _ => True) w₁ w₂ := .step .refl hstep trivial
  obtain ⟨htemplates, hparameters⟩ := hbefore.parameters_later hreach
  have hlives := (hbefore.later hreach).2 r
  obtain ⟨htemplates', ⟨run', hget', htemplateId⟩, hparameters'⟩ :=
    hafter (Lives.run_isSome hlives hsome)
  obtain ⟨run, hget⟩ := Option.isSome_iff_exists.mp hsome
  obtain ⟨run'', hget'', hcontinues⟩ := hlives.continues (hbefore.inv.runs r) hget
  obtain rfl := Option.some.inj (hget'.symm.trans hget'')
  refine ⟨htemplates.symm.trans htemplates', ⟨run, hget, ?_⟩, ?_⟩
  · exact hcontinues.origin.2.2.2.1.symm.trans htemplateId
  · rw [← hparameters']
    exact (congrArg (Record.update []) (hparameters r hsome)).symm

/-- Every delivery of a reachable world tells its story. -/
theorem told (h : Reach (system rt settings) (Draws r result) (.initial (.empty templates)) w)
    (hfixed : Fixed templates templateId values r w.state) (hnone : story [])
    (hcode : ∀ event workerId, event.runId = some r →
      Tells (Fixed templates templateId values r) r result story (fun _ => True) (fun _ _ _ => True)
        (processEvent rt event workerId) [] []) {p : Process} (hp : p ∈ w.procs)
    (hkind : p.kind.delivers r) :
    Session.Trails storage (Fixed templates templateId values r)
      (fun c i => c = .execute r → i.result = result) (fun trail => story (entries r trail))
      (fun _ _ _ => True) p.prog p.session := by
  have hpath := Reachable.fixed h.along hfixed
  refine Reach.trails (P := fun trail => story (entries r trail)) (Kind.delivers r) hnone ?_ ?_
    hpath p hp hkind
  · rintro κ ⟨event, workerId, rfl, hrun⟩
    have htells : Tells (Fixed templates templateId values r) r result story (fun _ => True)
        (fun _ _ _ => True) ((Kind.processEvent event workerId).code rt settings) [] [] :=
      .bind ((hcode event workerId hrun).mono fun _ _ _ _ => .ret trivial)
    exact Prog.Trails.mono htells fun _ _ _ _ => trivial
  · rintro w₁ a w₂ ⟨⟨hdraws, hbefore⟩, hsince⟩
    have hbefore : Reachable rt settings templates w₁ := hbefore.mono fun _ _ _ _ => trivial
    refine ⟨?_, ?_⟩
    · rintro q hq ⟨event, workerId, hq', hrun⟩
      exact hsince (hbefore.delivered hq hq' hrun)
    · rintro pid i q pt c next ha hq hprog rfl
      exact hdraws pid i q pt next ha hq hprog

end Runscope
