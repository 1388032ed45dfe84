import Runscope.Deliveries

/-!
The telemetry of a slow demonstration.

The session that executes it adds one log when it starts, a log and a metric
at each checkpoint it passes, and a log if it is cancelled at one. The number of
a log is one more than that of its checkpoint, so the numbers have no gap.
-/

namespace Runscope

open Transact RunStatus

section Rows

variable (rt : Runtime) (r : Uuid) (n k : ℕ)

def startLog : RunLog :=
  ⟨r, 1, "INFO", s!"Started bounded progress demonstration with {n} steps"⟩

def progressLog : RunLog := ⟨r, k + 1, "INFO", "Demonstration progress " ++ percent (k / n : ℚ)⟩

def progressMetric : RunMetric := ⟨r, "progress", k / n, k⟩

def cancelLog : RunLog := ⟨r, k + 1, "INFO", "Cancellation acknowledged at a safe checkpoint"⟩

def progressArtifact : Artifact where
  runId := r
  name := "progress.json"
  storageKey := (r, "progress.json")
  mimeType := "application/json"
  sizeBytes := (progressJson n).size
  checksum := rt.sha256 (progressJson n)

/-- The logs and the metrics once `k` checkpoints of `n` are passed. -/
def progressLogs : List RunLog := startLog r n :: (List.range' 1 k).map (progressLog r n)

def progressMetrics : List RunMetric := (List.range' 1 k).map (progressMetric r n)

theorem progressLogs_numbers :
    (progressLogs r n k).map RunLog.sequenceNumber = List.range' 1 (k + 1) := by
  have hsucc : List.range' 2 k = (List.range' 1 k).map (· + 1) := List.range'_succ_left
  rw [progressLogs, List.map_cons, List.map_map, List.range'_succ, hsucc]
  rfl

theorem progressMetrics_increasing (hn : 0 < n) :
    ((progressMetrics r n k).map RunMetric.value).Pairwise (· < ·) := by
  rw [progressMetrics, List.map_map, List.pairwise_map]
  refine (List.pairwise_lt_range' 1).imp fun {a b} hab => ?_
  show (a : ℚ) / n < b / n
  gcongr

theorem progressMetrics_last (hn : 0 < n) :
    ((progressMetrics r n n).map RunMetric.value).getLast? = some 1 := by
  obtain ⟨n, rfl⟩ := Nat.exists_eq_succ_of_ne_zero hn.ne'
  rw [progressMetrics, List.range'_concat]
  have hne : (n : ℚ) + 1 ≠ 0 := by positivity
  simp [progressMetric, add_comm, hne]

/-- What the session has entered once `k` checkpoints are passed. -/
def checkpointEntries : List Entry :=
  [.started, .log (startLog r n)] ++ (List.range' 1 k).flatMap fun step =>
    [.log (progressLog r n step), .metric (progressMetric r n step)]

theorem checkpointEntries_succ : checkpointEntries r n (k + 1) = checkpointEntries r n k ++
    [.log (progressLog r n (k + 1)), .metric (progressMetric r n (k + 1))] := by
  rw [checkpointEntries, checkpointEntries, List.range'_concat, List.flatMap_append,
    List.append_assoc]
  simp [Nat.add_comm]

theorem recordsIn_checkpointEntries :
    recordsIn (checkpointEntries r n k) = (progressLogs r n k, progressMetrics r n k, []) := by
  induction k with
  | zero => rfl
  | succ k ih =>
      rw [checkpointEntries_succ, recordsIn_append, ih]
      simp [progressLogs, progressMetrics, List.range'_concat, Nat.add_comm]

/-- How the entries of a session for a slow demonstration may look. -/
inductive Demonstrated : List Entry → Prop
  | none : Demonstrated []
  | started : Demonstrated [.started]
  | checked (k : ℕ) (hk : k ≤ n) : Demonstrated (checkpointEntries r n k)
  | succeeded : Demonstrated (checkpointEntries r n n ++
      [.artifact (progressArtifact rt r n), .transition (some running) (some RunStatus.succeeded)])
  | failed : Demonstrated (checkpointEntries r n n ++
      [.transition (some running) (some RunStatus.failed)])
  | cancelled (k : ℕ) (hk : k < n) : Demonstrated (checkpointEntries r n k ++
      [.log (cancelLog r (k + 1)), .transition (some cancelling) (some RunStatus.cancelled)])

end Rows

variable {rt : Runtime} {r : Uuid} {n k : ℕ} {result : TemplateResult} {good : Platform → Prop}
  {done : List Write}

/-- The checkpoints that are left. -/
theorem slowCheckpoints_tells {run : Run} {m : ℕ} (hm : k + m = n)
    {Q : Bool × Run → List Write → List Write → Prop} (hid : run.id = r)
    (hdone : entries r done = checkpointEntries r n k)
    (hcancelled : ∀ run' done', Demonstrated rt r n (entries r done') → Q (true, run') done' [])
    (hpassed : ∀ run' done', run'.id = r → entries r done' = checkpointEntries r n n →
      Q (false, run') done' []) :
    Tells good r result (Demonstrated rt r n) (fun _ => True) Q
      (slowCheckpoints run n (List.range' (k + 1) m)) done [] := by
  induction m generalizing k run done with
  | zero => exact .ret (hpassed run done hid (hdone.trans (by rw [← hm, Nat.add_zero])))
  | succ m ih =>
      have hcancel : Demonstrated rt r n (entries r done ++
          (entries r [.insertLog (cancelLog r (k + 1))] ++
            [.transition (some cancelling) (some RunStatus.cancelled)])) := by
        rw [hdone]
        simpa [Write.entered?, cancelLog] using Demonstrated.cancelled k (by omega)
      have hprogress : entries r done ++ entries r [] ++ entries r
          [.insertLog (progressLog r n (k + 1)), .insertMetric (progressMetric r n (k + 1))] =
            checkpointEntries r n (k + 1) := by
        rw [hdone, checkpointEntries_succ]
        simp [Write.entered?, progressLog, progressMetric]
      rw [List.range'_succ]
      refine .bind (refreshRun_tells trivial fun run' hid' => ?_)
      obtain rfl : run'.id = r := hid'.trans hid
      split
      · next hstatus =>
        refine .bind (finishRun_tells rfl trivial (fun _ => hstatus ▸ hcancel) ?_)
        intro run'' done' _ _ hdone'
        refine .bind (refreshRun_tells trivial fun run₃ _ => .ret (hcancelled run₃ done' ?_))
        rw [hdone', hstatus]
        exact hcancel
      · refine .bind (.commit trivial ?_ fun done' hdone' => ?_)
        · exact hprogress ▸ .checked (k + 1) (by omega)
        · exact ih (by omega) rfl (hdone'.trans hprogress)

/-- What follows the loop. -/
theorem finishSlowRun_tells {run : Run} {parameters : SlowDemoParameters}
    {Q : Run → List Write → List Write → Prop} (hid : run.id = r)
    (hdone : entries r done = checkpointEntries r n n)
    (h : ∀ run' done', Demonstrated rt r n (entries r done') → Q run' done' []) :
    Tells good r result (Demonstrated rt r n) (fun _ => True) Q
      (finishSlowRun rt run parameters n) done [] := by
  obtain rfl := hid
  -- a run that ends so was running
  have hending {added : List Write} {target : RunStatus} {eventType : String} {metadata : Record}
      {changed : Run} (hchanged : changed.id = run.id)
      (hstory : target ∈ validTransitions changed.status →
        Demonstrated rt run.id n (checkpointEntries run.id n n ++
          (entries run.id added ++ [.transition (some changed.status) (some target)]))) :
      Tells good run.id result (Demonstrated rt run.id n) (fun _ => True) Q (do
        let run ← finishRun changed target eventType metadata added
        session.refreshRun {} run : Program Run) done [] := by
    rw [← hdone] at hstory
    refine .bind (finishRun_tells hchanged trivial hstory fun run' done' hvalid _ hdone' => ?_)
    exact refreshRun_tells trivial fun run₂ _ => h run₂ done' (hdone' ▸ hstory hvalid)
  have hfailed {code message eventType : String} {metadata : Record} :
      Tells good run.id result (Demonstrated rt run.id n) (fun _ => True) Q (do
        let run ← finishRun (run.withFailure code message) .failed eventType metadata []
        session.refreshRun {} run : Program Run) done [] := by
    refine hending rfl fun hvalid => ?_
    have hstatus : (run.withFailure code message).status = running := by
      cases hs : (run.withFailure code message).status <;> simp_all [validTransitions]
    rw [hstatus]
    exact .failed
  unfold finishSlowRun
  split
  · exact hfailed
  · refine .bind (.call trivial fun reply _ => ?_)
    split
    · exact hfailed
    · exact .raise trivial
    · refine hending rfl fun hvalid => ?_
      have hstatus : run.status = running := by
        cases hs : run.status <;> simp_all [validTransitions]
      rw [hstatus]
      simpa [Write.entered?, progressArtifact] using Demonstrated.succeeded

theorem executeSlowRun_tells {run : Run} {parameters : SlowDemoParameters} (hid : run.id = r)
    (hdone : entries r done = [.started]) :
    Tells good r result (Demonstrated rt r parameters.totalSteps) (fun _ => True)
      (fun _ done ws => Demonstrated rt r parameters.totalSteps (entries r done) ∧ ws = [])
      (executeSlowRun rt run parameters) done [] := by
  obtain rfl := hid
  have hstart : entries run.id done ++ entries run.id [] ++
      entries run.id [.insertLog (startLog run.id parameters.totalSteps)] =
        checkpointEntries run.id parameters.totalSteps 0 := by
    rw [hdone]
    simp [Write.entered?, startLog, checkpointEntries]
  refine .bind (.call trivial fun _ _ => .bind (.commit trivial ?_ fun done' hdone' => .bind ?_))
  · exact hstart ▸ .checked 0 (Nat.zero_le _)
  · refine slowCheckpoints_tells (Nat.zero_add _) rfl (hdone'.trans hstart) ?_ ?_
    · exact fun run' done' hstory => .ret ⟨hstory, rfl⟩
    · exact fun run' done' hid' hpassed =>
        finishSlowRun_tells hid' hpassed fun _ _ hstory => ⟨hstory, rfl⟩

/-! ### In a reachable world -/

theorem Demonstrated.numbers {es : List Entry} (h : Demonstrated rt r n es) :
    ∃ m, (recordsIn es).1.map RunLog.sequenceNumber = List.range' 1 m := by
  cases h with
  | none => exact ⟨0, rfl⟩
  | started => exact ⟨0, rfl⟩
  | checked k hk =>
      exact ⟨k + 1, by rw [recordsIn_checkpointEntries, progressLogs_numbers]⟩
  | succeeded => exact ⟨n + 1, by simp [recordsIn_checkpointEntries, progressLogs_numbers]⟩
  | failed => exact ⟨n + 1, by simp [recordsIn_checkpointEntries, progressLogs_numbers]⟩
  | cancelled k hk =>
      refine ⟨k + 1 + 1, ?_⟩
      rw [List.range'_concat, ← progressLogs_numbers r n k]
      simp [recordsIn_checkpointEntries, cancelLog, Nat.add_comm]

/-- Which transition has been entered tells which records have. -/
theorem Demonstrated.entered {es : List Entry} (h : Demonstrated rt r n es)
    {previous : Option RunStatus} {target : RunStatus}
    (hmem : .transition previous (some target) ∈ es) :
    Entry.started ∈ es ∧
    (target = RunStatus.succeeded →
      recordsIn es = (progressLogs r n n, progressMetrics r n n, [progressArtifact rt r n])) ∧
    (target = RunStatus.failed →
      recordsIn es = (progressLogs r n n, progressMetrics r n n, [])) ∧
    (target = RunStatus.cancelled → ∃ k < n,
      recordsIn es = (progressLogs r n k ++ [cancelLog r (k + 1)], progressMetrics r n k, [])) := by
  have hstarted (k : ℕ) : Entry.started ∈ checkpointEntries r n k := by simp [checkpointEntries]
  have honly (k : ℕ) (hmem : .transition previous (some target) ∈ checkpointEntries r n k) :
      target = running := by
    simp [checkpointEntries] at hmem
    exact hmem.2
  cases h with
  | none => cases hmem
  | started => simp_all
  | checked k hk =>
      obtain rfl := honly k hmem
      simp [hstarted]
  | succeeded =>
      rcases List.mem_append.mp hmem with hmem | hmem
      · obtain rfl := honly n hmem
        simp [hstarted]
      · obtain rfl : target = RunStatus.succeeded := by simp_all
        simp [hstarted, recordsIn_checkpointEntries]
  | failed =>
      rcases List.mem_append.mp hmem with hmem | hmem
      · obtain rfl := honly n hmem
        simp [hstarted]
      · obtain rfl : target = RunStatus.failed := by simp_all
        simp [hstarted, recordsIn_checkpointEntries]
  | cancelled k hk =>
      rcases List.mem_append.mp hmem with hmem | hmem
      · obtain rfl := honly k hmem
        simp [hstarted]
      · obtain rfl : target = RunStatus.cancelled := by simp_all
        refine ⟨by simp [hstarted], by simp, by simp, fun _ => ⟨k, hk, ?_⟩⟩
        simp [recordsIn_checkpointEntries]

/-- The session has committed the run's transition to `target`. -/
def Moved (r : Uuid) (target : RunStatus) (p : Process) : Prop :=
  ∃ e, Write.insertEvent e ∈ p.session.committed ∧ e.runId = r ∧ e.newStatus = some target

instance (r : Uuid) (target : RunStatus) (p : Process) : Decidable (Moved r target p) :=
  decidable_of_iff (p.session.committed.any fun
    | .insertEvent e => e.runId = r ∧ e.newStatus = some target
    | _ => false) <| by
    rw [List.any_eq_true]
    constructor
    · rintro ⟨x, hx, hmoved⟩
      cases x <;> simp only [Bool.false_eq_true, decide_eq_true_eq] at hmoved
      exact ⟨_, hx, hmoved⟩
    · rintro ⟨e, he, hmoved⟩
      exact ⟨_, he, decide_eq_true hmoved⟩

theorem Moved.entry {p : Process} {target : RunStatus} (h : Moved r target p) :
    ∃ previous, .transition previous (some target) ∈ entries r p.session.committed := by
  obtain ⟨e, he, hrun, hnew⟩ := h
  exact ⟨e.previousStatus, List.mem_filterMap.mpr ⟨_, he, by simp [Write.entered?, hrun, hnew]⟩⟩

variable {settings : Settings} {templates : Table TrainingTemplate.id} {w : Cluster}

/-- Every delivery of the run's messages has this story. -/
theorem Reachable.demonstrated (h : Reachable rt settings templates w) {run : Run}
    (hrun : w.state.db.runs.get? r = some run) {template : TrainingTemplate}
    (htemplate : templates.get? run.templateId = some template)
    (hkey : template.key = "slow-demonstration") {parameters : SlowDemoParameters} {dump : Record}
    (hvalid : validateParameters rt template (w.state.db.storedParameters r) =
      .ok (.slowDemo parameters, dump)) {p : Process} (hp : p ∈ w.procs)
    (hdelivers : p.kind.delivers r) : ∃ good adm, Session.Trails storage good adm
      (fun trail => Demonstrated rt r parameters.totalSteps (entries r trail)) (fun _ _ _ => True)
      p.prog p.session := by
  obtain ⟨result, hdraws⟩ := h.draws r
  have htemplates := (Reachable.parameters_later (w := .initial (.empty templates)) .refl h).1
  have hfixed : Fixed templates run.templateId (w.state.db.storedParameters r) r w.state :=
    ⟨htemplates, ⟨run, hrun, rfl⟩, rfl⟩
  refine ⟨_, _, told hdraws hfixed .none (fun event workerId hevent => ?_) hp hdelivers⟩
  refine processEvent_tells hevent .none .started ?_
  intro run' template' validated dump' done' hid hstatus htemplate' hvalid' hdone'
  obtain rfl := Option.some.inj (htemplate.symm.trans htemplate')
  obtain ⟨rfl, -⟩ := Prod.mk.inj (Except.ok.inj (hvalid.symm.trans hvalid'))
  refine .bind (.ofExcept trivial fun definition _ => ?_)
  rw [if_pos hkey]
  exact executeSlowRun_tells hid hdone'

/-- A log that the session adds has a number that is not taken. -/
theorem check_demonstrated {good : Platform → Prop} {adm : Call → Input → Prop}
    {p : Program Unit} {t : Session}
    (h : Session.Trails storage good adm (fun trail => Demonstrated rt r n (entries r trail))
      (fun _ _ _ => True) p t) {s : Platform}
    (hrecords : s.db.recordsOf r = recordsIn (entries r t.committed)) {pt : Point}
    {ws ws' : List Write} {log : RunLog} {next} (hlog : log.runId = r)
    (hprog : p = .step pt (.flush (ws ++ .insertLog log :: ws')) next) (i : Input) :
    (Write.insertLog log).check (storage.applyAll (t.view storage s) (t.stamped storage i ws)) =
      none := by
  subst hprog
  obtain ⟨hstory, -⟩ := h.prog.2 (t.began.getD i)
  obtain ⟨m, hm⟩ := hstory.numbers
  -- the logs so far and this one are the first of the trail, whose numbers differ
  have hview : (storage.applyAll (t.view storage s) (t.stamped storage i ws)).db.recordsOf r =
      recordsIn (entries r (t.committed ++ t.writes ++ ws)) := by
    rw [recordsOf_applyAll, Session.view, recordsOf_applyAll, hrecords, Session.stamped]
    simp [storage]
  have hnodup := List.nodup_range' (s := 1) (n := m)
  rw [← hm] at hnodup
  have hentries : entries r (t.committed ++ t.writes ++
      (ws ++ .insertLog log :: ws').map (storage.stamp (t.began.getD i))) =
        entries r (t.committed ++ t.writes ++ ws) ++ .log log :: entries r ws' := by
    rw [entries_append]
    simp only [storage, entries_stamp]
    simp [Write.entered?, hlog]
  rw [hentries, recordsIn_append, recordsIn_log, ← hview, List.map_append, List.map_cons,
    List.nodup_append] at hnodup
  refine if_neg fun htaken => ?_
  obtain ⟨y, hy, hsame⟩ := List.any_eq_true.mp htaken
  obtain ⟨hrun, hnumber⟩ := of_decide_eq_true hsame
  have hmem : y.sequenceNumber ∈ ((storage.applyAll (t.view storage s)
      (t.stamped storage i ws)).db.recordsOf r).1.map RunLog.sequenceNumber :=
    List.mem_map_of_mem (List.mem_filter.mpr ⟨hy, by simp [hrun, hlog]⟩)
  exact hnodup.2.2 _ hmem _ List.mem_cons_self hnumber

/-- The session that executes a slow demonstration of `n` steps numbers its
logs from 1 without a gap. A run that it ends as SUCCEEDED or FAILED has one log
for the start and one for each step, and a metric for each step whose values
strictly increase to 1; the one has an artifact, the other none. If it ends the
run as CANCELLED at checkpoint `k`, the logs are those of the steps before and
that of the cancellation, and the metrics those of the steps before. -/
theorem demonstration_telemetry (h : Reachable rt settings templates w) {run : Run}
    (hrun : w.state.db.runs.get? r = some run) {template : TrainingTemplate}
    (htemplate : templates.get? run.templateId = some template)
    (hkey : template.key = "slow-demonstration") {parameters : SlowDemoParameters} {dump : Record}
    (hvalid : validateParameters rt template (w.state.db.storedParameters r) =
      .ok (.slowDemo parameters, dump)) :
    ∃ n, n = max 1 ⌈parameters.durationSeconds / parameters.intervalSeconds⌉.toNat ∧
    ((progressMetrics r n n).map RunMetric.value).Pairwise (· < ·) ∧
    ((progressMetrics r n n).map RunMetric.value).getLast? = some 1 ∧
    (∃ m, (w.state.db.recordsOf r).1.map RunLog.sequenceNumber = List.range' 1 m) ∧
    ∀ (j : ℕ) (p : Process), w.procs[j]? = some p → p.kind.delivers r →
      (Moved r RunStatus.succeeded p → w.state.db.recordsOf r =
        (progressLogs r n n, progressMetrics r n n, [progressArtifact rt r n])) ∧
      (Moved r RunStatus.failed p → w.state.db.recordsOf r =
        (progressLogs r n n, progressMetrics r n n, [])) ∧
      (Moved r RunStatus.cancelled p → ∃ k, 1 ≤ k ∧ k ≤ n ∧ w.state.db.recordsOf r =
        (progressLogs r n (k - 1) ++ [cancelLog r k], progressMetrics r n (k - 1), []) ∧
        (w.state.db.recordsOf r).1.map RunLog.sequenceNumber = List.range' 1 (k + 1)) ∧
      (Moved r RunStatus.running p → ∀ pt ws log ws' next i,
        p.prog = .step pt (.flush (ws ++ .insertLog log :: ws')) next → log.runId = r →
        (Write.insertLog log).check (storage.applyAll (p.session.view storage w.state)
          (p.session.stamped storage i ws)) = none) := by
  have hn : 0 < parameters.totalSteps := lt_of_lt_of_le one_pos (le_max_left _ _)
  have hrecorded := h.recorded r
  have hstory {j : ℕ} {p : Process} (hp : w.procs[j]? = some p) (hdelivers : p.kind.delivers r) :=
    h.demonstrated hrun htemplate hkey hvalid (List.mem_of_getElem? hp) hdelivers
  -- what the session that has started the run has entered
  have hentered {j : ℕ} {p : Process} (hp : w.procs[j]? = some p)
      (hmem : Entry.started ∈ entries r p.session.committed) :
      w.state.db.recordsOf r = recordsIn (entries r p.session.committed) :=
    hrecorded.started j _ (World.committed_getElem? hp) (startsOf_pos ⟨_, hmem⟩)
  refine ⟨parameters.totalSteps, rfl, progressMetrics_increasing _ _ _ hn,
    progressMetrics_last _ _ hn, ?_, fun j p hp hdelivers => ?_⟩
  · by_cases hnone : ∀ (j : ℕ) (ws : List Write), w.committed[j]? = some ws → startsOf r ws = 0
    · exact ⟨0, by rw [hrecorded.none hnone]; rfl⟩
    · push Not at hnone
      obtain ⟨j, ws, hj, hstarts⟩ := hnone
      have hpos : 0 < startsOf r ws := by omega
      rw [hrecorded.started j ws hj hpos]
      simp only [World.committed, List.getElem?_map, Option.map_eq_some_iff] at hj
      obtain ⟨p, hp, rfl⟩ := hj
      obtain ⟨_, _, htrails⟩ := hstory hp (h.delivers hp hpos)
      exact htrails.committed.numbers
  · obtain ⟨good, adm, htrails⟩ := hstory hp hdelivers
    have hcommitted := htrails.committed
    specialize @hentered j p hp
    refine ⟨fun hmoved => ?_, fun hmoved => ?_, fun hmoved => ?_, fun hmoved => ?_⟩
    all_goals
      obtain ⟨previous, hmem⟩ := hmoved.entry
      obtain ⟨hstarted, hsucceeded, hfailed, hcancelled⟩ := hcommitted.entered hmem
      have hrecords := hentered hstarted
    · exact hrecords.trans (hsucceeded rfl)
    · exact hrecords.trans (hfailed rfl)
    · obtain ⟨k, hk, heq⟩ := hcancelled rfl
      refine ⟨k + 1, by omega, by omega, hrecords.trans heq, ?_⟩
      rw [hrecords, heq, List.range'_concat, ← progressLogs_numbers r parameters.totalSteps k]
      simp [cancelLog, Nat.add_comm]
    · exact fun pt ws log ws' next i hprog hlog => check_demonstrated htrails hrecords hlog hprog i

/-- The number of steps of a slow demonstration. -/
def Demo.totalSteps : Parameters → ℕ
  | .slowDemo parameters => parameters.totalSteps
  | .classification _ => 0

theorem demonstration_telemetry_succeeded : ∃ w : Cluster,
    Reachable Demo.runtime Demo.settings Demo.templates w ∧
    (w.state.db.recordsOf 201).1.length = 9 ∧
    w.state.db.recordsOf 201 = (progressLogs 201 8 8, progressMetrics 201 8 8,
      [progressArtifact Demo.runtime 201 8]) := by
  have h : (Demo.exec (Demo.delivered Demo.slow 45)).any fun w =>
      (w.state.db.runs.get? 201).any (fun run => run.templateId = 2) ∧
      ((validateParameters Demo.runtime ⟨2, "slow-demonstration", "1.0.0", true⟩
        (w.state.db.storedParameters 201)).toOption.any fun x => Demo.totalSteps x.1 = 8) ∧
      w.procs[4]?.any fun p => 0 < startsOf 201 p.session.committed ∧
        Moved 201 RunStatus.succeeded p := by decide +kernel
  obtain ⟨w, hw, hcheck⟩ := Demo.reachable h
  obtain ⟨hrun, hvalid, hproc⟩ := of_decide_eq_true hcheck
  obtain ⟨run, hget, htemplate⟩ := (Option.any_eq_true _ _).mp hrun
  obtain ⟨⟨values, dump⟩, hok, hsteps⟩ := (Option.any_eq_true _ _).mp hvalid
  obtain ⟨p, hp, hmoved⟩ := (Option.any_eq_true _ _).mp hproc
  obtain ⟨hstarted, hmoved⟩ := of_decide_eq_true hmoved
  have htemplate : Demo.templates.get? run.templateId =
      some ⟨2, "slow-demonstration", "1.0.0", true⟩ := by
    rw [of_decide_eq_true htemplate]
    decide
  cases values with
  | classification parameters => cases of_decide_eq_true hsteps
  | slowDemo parameters =>
      have hok : validateParameters Demo.runtime ⟨2, "slow-demonstration", "1.0.0", true⟩
          (w.state.db.storedParameters 201) = .ok (.slowDemo parameters, dump) := by
        cases hresult : validateParameters Demo.runtime ⟨2, "slow-demonstration", "1.0.0", true⟩
          (w.state.db.storedParameters 201) <;> simp_all [Except.toOption]
      obtain ⟨n, hn, -, -, -, htelemetry⟩ := demonstration_telemetry hw hget htemplate rfl hok
      have hrecords := (htelemetry 4 p hp (hw.delivers hp hstarted)).1 hmoved
      obtain rfl : n = 8 := hn.trans (of_decide_eq_true hsteps)
      exact ⟨w, hw, by simp [hrecords, progressLogs], hrecords⟩

end Runscope
