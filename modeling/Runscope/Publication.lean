import Runscope.Deliveries

/-!
Classification results are published all or nothing.

The delivery that executes a classification adds the rows of the result in one
transaction with the run's last transition, or not at all.
-/

namespace Runscope

open Transact RunStatus

/-- What there is to be seen of a result once it is published. -/
def published (rt : Runtime) (runId : Uuid) (result : TemplateResult) :
    List RunLog × List RunMetric × List Artifact :=
  (result.logs.zipIdx.map fun x => ⟨runId, x.2 + 1, x.1.1, x.1.2⟩,
    result.metrics.map fun x => ⟨runId, x.1, x.2, 1⟩,
    result.artifacts.map fun generated => {
      runId := runId
      name := generated.name
      storageKey := (runId, generated.name)
      mimeType := generated.mimeType
      sizeBytes := generated.data.size
      checksum := rt.sha256 generated.data })

variable {rt : Runtime} {r : Uuid} {result : TemplateResult}

/-- The entries of a result. -/
def resultEntries (rt : Runtime) (runId : Uuid) (result : TemplateResult) : List Entry :=
  entries runId (logRows runId result.logs ++ metricRows runId result.metrics ++
    artifactRows rt runId result.artifacts)

theorem recordsIn_resultEntries :
    recordsIn (resultEntries rt r result) = published rt r result := by
  simp [resultEntries, recordsIn, published, entries, logRows, metricRows, artifactRows,
    List.filterMap_map, Function.comp_def, Write.entered?, Entry.log?, Entry.metric?, Entry.artifact?]

/-- How the entries of a session for a classification may look. -/
inductive Classified (rows : List Entry) : List Entry → Prop
  | none : Classified rows []
  | started : Classified rows [.started]
  | succeeded : Classified rows
      ([.started] ++ (rows ++ [.transition (some running) (some RunStatus.succeeded)]))
  | failed (previous : RunStatus) :
      Classified rows ([.started] ++ [.transition (some previous) (some RunStatus.failed)])

variable {good : Platform → Prop} {story : List Entry → Prop} {E : List Write → Prop}
  {done ws : List Write}

theorem putArtifacts_tells {begun : Bool} {artifacts : List GeneratedArtifact}
    {Q : Except (Bool × Exc) (List Write) → List Write → List Write → Prop} (hE : E done)
    (hfailed : ∀ failure, Q (.error failure) done ws)
    (h : Q (.ok (artifactRows rt r artifacts)) done ws) :
    Tells good r result story E Q (putArtifacts rt r begun artifacts) done ws := by
  induction artifacts generalizing begun Q with
  | nil => exact .ret h
  | cons generated rest ih =>
      refine .bind (.call hE fun reply _ => ?_)
      split
      · exact .ret (hfailed _)
      · exact .bind (ih (fun failure => .ret (hfailed failure)) (.ret h))

/-- The handler discards what has been flushed; it records the failure, or raises. -/
theorem executeFailed_tells {run : Run} {begun : Bool} {exc : Exc}
    {Q : Run → List Write → List Write → Prop}
    (hid : run.id = r) (hstarted : entries r done = [.started])
    (h : ∀ run' done', run'.id = r → Classified (resultEntries rt r result) (entries r done') →
      Q run' done' []) :
    Tells good r result (Classified (resultEntries rt r result)) (fun _ => True) Q
      (executeFailed run begun exc) done ws := by
  refine .bind (.rollback trivial ?_)
  split
  · exact .raise trivial
  · refine .bind (.select trivial fun p _ => ?_)
    cases hget : p.db.runs.get? run.id with
    | none => exact .raise trivial
    | some failedRun =>
        have hfailed : failedRun.id = r := (Table.key_of_get? hget).trans hid
        have hfinish (changed : Run) (hchanged : changed.id = r) :
            Tells good r result (Classified (resultEntries rt r result)) (fun _ => True) Q
              (finishRun changed .failed "run.failed" [] []) done [] := by
          refine finishRun_tells hchanged trivial (fun _ => ?_) fun run' done' _ hid' hdone' => ?_
          · rw [hstarted]
            exact .failed changed.status
          · refine h run' done' hid' ?_
            rw [hdone', hstarted]
            exact .failed changed.status
        cases exc <;> exact hfinish _ hfailed

/-- Whatever is raised before the last flush ends in the handler. -/
theorem executeTemplate_tells {definition : TemplateDefinition} {run : Run}
    {Q : Run → List Write → List Write → Prop} (hid : run.id = r) (hstatus : run.status = running)
    (hstarted : entries r done = [.started])
    (h : ∀ run' done', run'.id = r → Classified (resultEntries rt r result) (entries r done') →
      Q run' done' []) :
    Tells good r result (Classified (resultEntries rt r result)) (fun _ => True) Q
      (executeTemplate rt definition run) done [] := by
  unfold executeTemplate
  split
  · refine .bind (.call trivial fun reply hreply => ?_)
    obtain rfl := hid
    have hresult := hreply rfl
    split
    · exact executeFailed_tells rfl hstarted h
    · rw [hresult]
      refine .bind (putArtifacts_tells trivial (fun _ => executeFailed_tells rfl hstarted h) ?_)
      refine .tryCatch (finishRun_tells rfl (fun _ _ => .raise trivial) (fun _ => ?_)
        fun run' done' _ hid' hdone' => ?_)
      · rw [hstarted, hstatus]
        exact .succeeded
      · refine h run' done' hid' ?_
        rw [hdone', hstarted, hstatus]
        exact .succeeded
  · exact executeFailed_tells hid hstarted h

theorem executeStarted_tells {run : Run} {template : TrainingTemplate} {validated : Parameters}
    (hid : run.id = r) (hstatus : run.status = running) (hkey : template.key ≠ "slow-demonstration")
    (hstarted : entries r done = [.started]) :
    Tells good r result (Classified (resultEntries rt r result)) (fun _ => True)
      (fun _ done ws => Classified (resultEntries rt r result) (entries r done) ∧ ws = [])
      (executeStarted rt run template validated) done [] := by
  refine .bind (.ofExcept trivial fun definition _ => ?_)
  rw [if_neg hkey]
  exact .bind (executeTemplate_tells hid hstatus hstarted fun run' done' hid' hdone' =>
    refreshRun_tells trivial fun _ _ => ⟨hdone', rfl⟩)

/-! ### In a reachable world -/

variable {settings : Settings} {templates : Table TrainingTemplate.id} {w : Cluster}

/-- An ending other than success leaves no rows. -/
theorem Classified.recordsIn {rows es : List Entry} (h : Classified rows es)
    (hnot : ∀ previous, .transition previous (some RunStatus.succeeded) ∉ es) :
    Runscope.recordsIn es = ([], [], []) := by
  cases h with
  | none => rfl
  | started => rfl
  | succeeded => exact absurd (by simp) (hnot (some running))
  | failed previous => rfl

/-- Every delivery of the run's messages has this story. -/
theorem Reachable.classified
    (h : Reach (system rt settings) (Draws r result) (.initial (.empty templates)) w) {run : Run}
    (hrun : w.state.db.runs.get? r = some run) {template : TrainingTemplate}
    (htemplate : templates.get? run.templateId = some template)
    (hkey : template.key ≠ "slow-demonstration") {p : Process} (hp : p ∈ w.procs)
    (hdelivers : p.kind.delivers r) :
    Classified (resultEntries rt r result) (entries r p.session.committed) := by
  have hreachable : Reachable rt settings templates w := h.mono fun _ _ _ _ => trivial
  have htemplates := (Reachable.parameters_later (w := .initial (.empty templates)) .refl hreachable).1
  have hfixed : Fixed templates run.templateId (w.state.db.storedParameters r) r w.state :=
    ⟨htemplates, ⟨run, hrun, rfl⟩, rfl⟩
  refine (told h hfixed .none (fun event workerId hevent => ?_) hp hdelivers).committed
  refine processEvent_tells hevent .none .started ?_
  intro run' template' validated dump done' hid hstatus htemplate' _ hdone'
  obtain rfl := Option.some.inj (htemplate.symm.trans htemplate')
  exact executeStarted_tells hid hstatus hkey hdone'

/-- A run of a template other than the slow demonstration has the rows of its
execution's result, all of them, if it has succeeded, and then its allocation
is released; and it has no rows otherwise. -/
theorem classification_published (h : Reachable rt settings templates w) {run : Run}
    (hrun : w.state.db.runs.get? r = some run) {template : TrainingTemplate}
    (htemplate : templates.get? run.templateId = some template)
    (hkey : template.key ≠ "slow-demonstration") :
    (∃ result, Reach (system rt settings) (Draws r result) (.initial (.empty templates)) w) ∧
    ∀ result, Reach (system rt settings) (Draws r result) (.initial (.empty templates)) w →
      (run.status = RunStatus.succeeded →
        w.state.db.recordsOf r = published rt r result ∧ w.state.db.unreleased r = []) ∧
      (run.status ≠ RunStatus.succeeded → w.state.db.recordsOf r = ([], [], [])) := by
  refine ⟨h.draws r, fun result hdraws => ?_⟩
  have hcoherent := (h.inv.runs r).present run hrun
  have hrecorded := h.recorded r
  have hpath := hcoherent.ledger
  constructor
  · intro hstatus
    -- the session that made the run succeed has entered all of the result
    obtain ⟨previous, hmem⟩ := hpath.arrives (by simp [hstatus])
    have hentered : 0 < (w.state.db.runView r).entered RunStatus.succeeded :=
      List.count_pos_iff.mpr (List.mem_map.mpr ⟨_, hmem, by rw [hstatus]⟩)
    obtain ⟨j, p, hp, hdelivers, previous, hentry⟩ := h.succeeds hentered
    have hstory := Reachable.classified hdraws hrun htemplate hkey (List.mem_of_getElem? hp) hdelivers
    have hget := World.committed_getElem? hp
    generalize hes : entries r p.session.committed = es at hstory hentry
    cases hstory with
    | none => simp at hentry
    | started => simp at hentry
    | failed previous => simp at hentry
    | succeeded =>
        have hpos : 0 < startsOf r p.session.committed :=
          startsOf_pos ⟨some scheduling, by simp [hes]⟩
        refine ⟨?_, ?_⟩
        · rw [hrecorded.started j _ hget hpos, hes]
          simp [recordsIn_resultEntries]
        · have hactive := hcoherent.unleased (by simp [hstatus, RunStatus.leased])
          rwa [← unreleased_lease, List.map_eq_nil_iff] at hactive
  · intro hstatus
    by_cases hnone : ∀ (j : ℕ) (ws : List Write), w.committed[j]? = some ws → startsOf r ws = 0
    · exact hrecorded.none hnone
    · push Not at hnone
      obtain ⟨j, ws, hj, hstarts⟩ := hnone
      have hpos : 0 < startsOf r ws := by omega
      have hcommitted := hj
      simp only [World.committed, List.getElem?_map, Option.map_eq_some_iff] at hcommitted
      obtain ⟨p, hp, rfl⟩ := hcommitted
      rw [hrecorded.started j _ hj hpos]
      refine (Reachable.classified hdraws hrun htemplate hkey (List.mem_of_getElem? hp)
        (h.delivers hp hpos)).recordsIn fun previous hentry => hstatus ?_
      -- a run that has succeeded goes nowhere from there
      have hstop (next : Option RunStatus) : ¬ ValidStep (some RunStatus.succeeded) next := by
        rintro ⟨previous, hprevious, target, -, hvalid⟩
        obtain rfl := Option.some.inj hprevious
        cases hvalid
      exact Option.some.inj (hpath.stops hstop (h.transitions hp hentry))

theorem classification_published_executed : ∃ (w : Cluster) (result : TemplateResult),
    Reachable Demo.runtime Demo.settings Demo.templates w ∧
    Reach (system Demo.runtime Demo.settings) (Draws 201 result) (.initial (.empty Demo.templates)) w ∧
    w.state.db.recordsOf 201 = published Demo.runtime 201 result ∧
    w.state.db.unreleased 201 = [] ∧ w.state.db.artifacts ≠ [] := by
  have h : (Demo.exec Demo.executed).any fun w => !w.state.db.artifacts.isEmpty ∧
      (w.state.db.runs.get? 201).any fun run => run.templateId = 1 ∧
        run.status = RunStatus.succeeded := by decide +kernel
  obtain ⟨w, hw, hrun⟩ := Demo.reachable h
  obtain ⟨hne, hrun⟩ := of_decide_eq_true hrun
  obtain ⟨run, hget, hrun⟩ := (Option.any_eq_true _ _).mp hrun
  obtain ⟨htemplate, hstatus⟩ := of_decide_eq_true hrun
  have htemplate : Demo.templates.get? run.templateId =
      some ⟨1, "sklearn-iris-classification", "1.0.0", true⟩ := by rw [htemplate]; decide
  obtain ⟨⟨result, hdraws⟩, hpublished⟩ :=
    classification_published hw hget htemplate (by decide)
  obtain ⟨hrecords, hreleased⟩ := (hpublished result hdraws).1 hstatus
  exact ⟨w, result, hw, hdraws, hrecords, hreleased, by simpa using hne⟩

end Runscope
