import Runscope.Fencing
import Runscope.Transact.Trails

/-!
What a session has entered for a run: its logs, metrics, artifacts and
transitions, in order.

Only the session that has started a run enters logs, metrics and artifacts for
it. So what the database has of them is what the trail of that one session
says.
-/

namespace Runscope

open Transact RunStatus

inductive Entry where
  | log (log : RunLog)
  | metric (metric : RunMetric)
  | artifact (artifact : Artifact)
  | transition (previous new : Option RunStatus)
  deriving DecidableEq

/-- What a write enters for the run. -/
def Write.entered? (runId : Uuid) : Write → Option Entry
  | insertLog x => if x.runId = runId then some (.log x) else none
  | insertMetric x => if x.runId = runId then some (.metric x) else none
  | insertArtifact x => if x.runId = runId then some (.artifact x) else none
  | insertEvent e =>
      if e.runId = runId ∧ e.newStatus.isSome then some (.transition e.previousStatus e.newStatus)
      else none
  | _ => none

def entries (runId : Uuid) (ws : List Write) : List Entry := ws.filterMap (Write.entered? runId)

namespace Entry

def log? : Entry → Option RunLog
  | log x => some x
  | _ => none

def metric? : Entry → Option RunMetric
  | metric x => some x
  | _ => none

def artifact? : Entry → Option Artifact
  | artifact x => some x
  | _ => none

def transition? : Entry → Option (Option RunStatus × Option RunStatus)
  | transition previous new => some (previous, new)
  | _ => none

end Entry

/-- The logs, metrics and artifacts among the entries. -/
def recordsIn (es : List Entry) : List RunLog × List RunMetric × List Artifact :=
  (es.filterMap Entry.log?, es.filterMap Entry.metric?, es.filterMap Entry.artifact?)

variable {r : Uuid} {ws ws' : List Write}

@[simp] theorem entries_nil : entries r [] = [] := rfl

@[simp] theorem entries_append : entries r (ws ++ ws') = entries r ws ++ entries r ws' :=
  List.filterMap_append

@[simp] theorem entries_cons (x : Write) :
    entries r (x :: ws) = (x.entered? r).toList ++ entries r ws := by
  rw [entries, List.filterMap_cons]
  cases x.entered? r <;> rfl

theorem Write.entered?_stamp (i : Input) (x : Write) : (x.stamp i).entered? r = x.entered? r := by
  cases x <;> rfl

@[simp] theorem entries_stamp (i : Input) : entries r (ws.map (Write.stamp i)) = entries r ws := by
  rw [entries, List.filterMap_map]
  exact List.filterMap_congr fun x _ => x.entered?_stamp i

@[simp] theorem recordsIn_append (es es' : List Entry) :
    recordsIn (es ++ es') = ((recordsIn es).1 ++ (recordsIn es').1,
      (recordsIn es).2.1 ++ (recordsIn es').2.1, (recordsIn es).2.2 ++ (recordsIn es').2.2) := by
  simp [recordsIn]

@[simp] theorem recordsIn_transition (previous new : Option RunStatus) (es : List Entry) :
    recordsIn (.transition previous new :: es) = recordsIn es := rfl

@[simp] theorem recordsIn_log (log : RunLog) (es : List Entry) :
    recordsIn (.log log :: es) = (log :: (recordsIn es).1, (recordsIn es).2) := rfl

@[simp] theorem recordsIn_metric (metric : RunMetric) (es : List Entry) :
    recordsIn (.metric metric :: es) =
      ((recordsIn es).1, metric :: (recordsIn es).2.1, (recordsIn es).2.2) := rfl

@[simp] theorem recordsIn_artifact (artifact : Artifact) (es : List Entry) :
    recordsIn (.artifact artifact :: es) =
      ((recordsIn es).1, (recordsIn es).2.1, artifact :: (recordsIn es).2.2) := rfl

@[simp] theorem recordsIn_nil : recordsIn [] = ([], [], []) := rfl

/-- What is stored is what was there and what was entered. -/
theorem recordsOf_applyAll (p : Platform) (ws : List Write) (r : Uuid) :
    (storage.applyAll p ws).db.recordsOf r =
      ((p.db.recordsOf r).1 ++ (recordsIn (entries r ws)).1,
        (p.db.recordsOf r).2.1 ++ (recordsIn (entries r ws)).2.1,
        (p.db.recordsOf r).2.2 ++ (recordsIn (entries r ws)).2.2) := by
  induction ws generalizing p with
  | nil => simp [recordsIn]
  | cons x ws ih =>
      rw [Storage.applyAll_cons, ih, entries_cons, recordsIn_append]
      cases x with
      | insertLog x | insertMetric x | insertArtifact x =>
          by_cases hx : x.runId = r <;>
            simp [storage, Write.apply, Write.applyDb, Db.recordsOf, Write.entered?, recordsIn, hx,
              Entry.log?, Entry.metric?, Entry.artifact?]
      | insertEvent e =>
          by_cases he : e.runId = r ∧ e.newStatus.isSome <;>
            simp [storage, Write.apply, Write.applyDb, Db.recordsOf, Write.entered?, recordsIn, he,
              Entry.log?, Entry.metric?, Entry.artifact?]
      | _ =>
          simp [storage, Write.apply, Write.applyDb, Db.recordsOf, Write.entered?, recordsIn]

theorem transitionsOf_applyAll (p : Platform) (ws : List Write) (r : Uuid) :
    (storage.applyAll p ws).db.transitionsOf r =
      p.db.transitionsOf r ++ (entries r ws).filterMap Entry.transition? := by
  induction ws generalizing p with
  | nil => simp
  | cons x ws ih =>
      rw [Storage.applyAll_cons, ih, entries_cons, List.filterMap_append, ← List.append_assoc]
      congr 1
      cases x with
      | insertEvent e =>
          by_cases he : e.runId = r ∧ e.newStatus.isSome <;>
            simp [storage, Write.apply, Write.applyDb, Db.transitionsOf, Write.entered?, he,
              Entry.transition?]
      | insertLog x | insertMetric x | insertArtifact x =>
          by_cases hx : x.runId = r <;>
            simp [storage, Write.apply, Write.applyDb, Db.transitionsOf, Write.entered?, hx,
              Entry.transition?]
      | _ => simp [storage, Write.apply, Write.applyDb, Db.transitionsOf, Write.entered?]

/-- A run is started by its entries that say so. -/
theorem startsOf_pos (h : ∃ previous, .transition previous (some running) ∈ entries r ws) :
    0 < startsOf r ws := by
  obtain ⟨previous, h⟩ := h
  obtain ⟨x, hx, hentry⟩ := List.mem_filterMap.mp h
  refine List.countP_pos_iff.mpr ⟨x, hx, ?_⟩
  cases x <;> simp only [Write.entered?, Option.ite_none_right_eq_some, reduceCtorEq] at hentry
  case insertEvent e =>
    obtain ⟨⟨hrun, -⟩, heq⟩ := hentry
    simp_all
  all_goals simp at hentry

/-! ### What the database has of a run -/

variable {rt : Runtime} {settings : Settings} {templates : Table TrainingTemplate.id}
  {w w' : Cluster} {a : Action Kind Input}

/-- The database has of the run what the session has entered that started it. -/
structure Recorded (r : Uuid) (w : Cluster) : Prop where
  started : ∀ (j : ℕ) (ws : List Write), w.committed[j]? = some ws → 0 < startsOf r ws →
    w.state.db.recordsOf r = recordsIn (entries r ws)
  idle : ∀ (j : ℕ) (ws : List Write), w.committed[j]? = some ws → startsOf r ws = 0 →
    recordsIn (entries r ws) = ([], [], [])
  none : (∀ (j : ℕ) (ws : List Write), w.committed[j]? = some ws → startsOf r ws = 0) →
    w.state.db.recordsOf r = ([], [], [])

/-- No run has been started by two sessions. -/
theorem Reachable.starter (h : Reachable rt settings templates w) {j k : ℕ} {ws ws' : List Write}
    (hj : w.committed[j]? = some ws) (hk : w.committed[k]? = some ws') (hne : j ≠ k)
    (hstarted : 0 < startsOf r ws) : startsOf r ws' = 0 := by
  simp only [World.committed, List.getElem?_map, Option.map_eq_some_iff] at hj hk
  obtain ⟨p, hp, rfl⟩ := hj
  obtain ⟨q, hq, rfl⟩ := hk
  exact h.sole hq hp hne hstarted

/-- The deliveries of a run's messages. -/
def Kind.delivers (r : Uuid) (κ : Kind) : Prop :=
  ∃ event workerId, κ = .processEvent event workerId ∧ event.runId = some r

/-- The step in which a session has started a run. -/
theorem Reachable.starting (h : Reachable rt settings templates w) {j : ℕ} {p : Process}
    (hp : w.procs[j]? = some p) (hstarted : 0 < startsOf r p.session.committed) :
    ∃ w₁ w₂ i, Reachable rt settings templates w₁ ∧
      w₁.step (system rt settings) (.run j i) = some w₂ ∧
      (w₁.state.db.runView r).entered running < (w₂.state.db.runView r).entered running ∧
      (∃ q, w₁.procs[j]? = some q ∧ Moves p.kind r (w₁.state.db.runView r) (w₂.state.db.runView r)) ∧
      Reach (system rt settings) (fun _ _ _ => True) w₂ w := by
  induction h generalizing j p with
  | refl => simp [World.initial] at hp
  | @step w w' a hbefore hstep _ ih =>
      have hbefore : Reachable rt settings templates w := hbefore
      have hkept {q : Process} (hq : w.procs[j]? = some q) (hkind : p.kind = q.kind)
          (hpos : 0 < startsOf r q.session.committed) : ∃ w₁ w₂ i, Reachable rt settings templates w₁ ∧
            w₁.step (system rt settings) (.run j i) = some w₂ ∧
            (w₁.state.db.runView r).entered running < (w₂.state.db.runView r).entered running ∧
            (∃ q, w₁.procs[j]? = some q ∧
              Moves p.kind r (w₁.state.db.runView r) (w₂.state.db.runView r)) ∧
            Reach (system rt settings) (fun _ _ _ => True) w₂ w' := by
        obtain ⟨w₁, w₂, i, hreach, hstep₁, hlt, hmoves, hafter⟩ := ih hq hpos
        exact ⟨w₁, w₂, i, hreach, hstep₁, hlt, hkind ▸ hmoves, .step hafter hstep trivial⟩
      rcases World.committed_cases hstep hp with
        ⟨q, hq, hkind, hcommitted | ⟨i, pt, next, rfl, -, hstate, hcommitted⟩⟩ | hnone
      · exact hkept hq hkind (hcommitted ▸ hstarted)
      · by_cases hwas : 0 < startsOf r q.session.committed
        · exact hkept hq hkind hwas
        · -- the writes that are committed now start the run
          rw [hcommitted, startsOf_append] at hstarted
          have hview : w'.state.db.runView r = onRun r q.session.writes (w.state.db.runView r) := by
            rw [hstate]
            exact runView_applyAll (hbefore.ok.accepted j q hq) r
          have hentered := entered_onRun r q.session.writes (w.state.db.runView r)
          rw [← hview] at hentered
          have hlt : (w.state.db.runView r).entered running <
              (w'.state.db.runView r).entered running := by omega
          obtain ⟨j', i', q', heq, hq', hmoves⟩ := hbefore.entering hstep hlt
          obtain ⟨rfl, rfl⟩ : j' = j ∧ i' = i := by simpa [eq_comm] using heq
          obtain rfl := Option.some.inj (hq'.symm.trans hq)
          exact ⟨w, w', _, hbefore, hstep, hlt, ⟨q', hq', hkind ▸ hmoves⟩, .refl⟩
      · rw [hnone] at hstarted
        exact absurd hstarted (lt_irrefl _)

/-- The session that has started a run is a delivery of a message about it,
and the run has had the lease its message is about. -/
theorem Reachable.claims (h : Reachable rt settings templates w) {j : ℕ} {p : Process}
    (hp : w.procs[j]? = some p) (hstarted : 0 < startsOf r p.session.committed) :
    ∃ event workerId lease, p.kind = .processEvent event workerId ∧ event.runId = some r ∧
      event.fences workerId lease ∧
      ∃ x ∈ (w.state.db.runView r).leases, x = { lease with releasedAt := x.releasedAt } := by
  obtain ⟨w₁, w₂, i, hbefore, hstep, hlt, ⟨q, hq, hmoves⟩, hafter⟩ := h.starting hp hstarted
  obtain ⟨event, workerId, lease, hkind, hrun, hfences, hactive, hleases⟩ := hmoves.started hlt
  refine ⟨event, workerId, lease, hkind, hrun, hfences, ?_⟩
  refine (((hbefore.step hstep).later hafter).2 r).lease ?_
  rw [hleases]
  exact mem_leases_of_active (by simp [hactive])

/-- The lease a started run still has is the one its message is about. -/
theorem Reachable.keeps (h : Reachable rt settings templates w) {j : ℕ} {p : Process}
    (hp : w.procs[j]? = some p) (hstarted : 0 < startsOf r p.session.committed) :
    ∃ event workerId, p.kind = .processEvent event workerId ∧ event.runId = some r ∧
      (w.state.db.runView r).Held (event.fences workerId) := by
  obtain ⟨w₁, w₂, i, hbefore, hstep, hlt, ⟨q, hq, hmoves⟩, hafter⟩ := h.starting hp hstarted
  obtain ⟨event, workerId, lease, hkind, hrun, hfences, hactive, hleases⟩ := hmoves.started hlt
  refine ⟨event, workerId, hkind, hrun, (((hbefore.step hstep).later hafter).2 r).held ?_⟩
  have hactive₂ : (w₂.state.db.runView r).active = [lease] := by
    rw [← hactive, RunView.active, hleases]
    rfl
  cases hget : (w₂.state.db.runView r).run with
  | none =>
      rw [((hbefore.step hstep).inv.runs r).absent hget] at hactive₂
      cases hactive₂
  | some run =>
      have hentered := (((hbefore.step hstep).inv.runs r).present run hget).started
      refine ⟨run, hget, ?_, by simpa [hactive₂] using hfences⟩
      by_contra hnot
      rw [if_neg hnot] at hentered
      omega

/-- The session that has started a run is a delivery of a message about it. -/
theorem Reachable.delivers (h : Reachable rt settings templates w) {j : ℕ} {p : Process}
    (hp : w.procs[j]? = some p) (hstarted : 0 < startsOf r p.session.committed) :
    p.kind.delivers r := by
  obtain ⟨event, workerId, lease, hkind, hrun, -⟩ := h.claims hp hstarted
  exact ⟨event, workerId, hkind, hrun⟩

/-- A session that has not started the run enters no records of it. -/
theorem Reachable.enters (h : Reachable rt settings templates w) {pid : ℕ} {i : Input} {p : Process}
    (hstep : w.step (system rt settings) (.run pid i) = some w') (hp : w.procs[pid]? = some p)
    (hstate : w'.state = p.session.view storage w.state) (hidle : startsOf r p.session.committed = 0) :
    recordsIn (entries r p.session.writes) = ([], [], []) := by
  have huntouched : w'.state.db.recordsOf r = w.state.db.recordsOf r := by
    rcases h.ok.guar hstep with heq | ⟨pid', i', p', pt, heq, hp', -, hguar⟩
    · rw [heq]
    · obtain ⟨rfl, rfl⟩ : pid' = pid ∧ i' = i := by simpa [eq_comm] using heq
      obtain rfl := Option.some.inj (hp'.symm.trans hp)
      exact ((hguar.own r).resolve_right (by omega)).records
  rw [hstate, Session.view, recordsOf_applyAll] at huntouched
  have hlogs := congrArg Prod.fst huntouched
  have hmetrics := congrArg (fun x => x.2.1) huntouched
  have hartifacts := congrArg (fun x => x.2.2) huntouched
  simp only [List.append_right_eq_self] at hlogs hmetrics hartifacts
  exact Prod.ext hlogs (Prod.ext hmetrics hartifacts)

theorem Reachable.recorded (h : Reachable rt settings templates w) (r : Uuid) : Recorded r w := by
  induction h with
  | refl =>
      refine ⟨fun j ws hj => ?_, fun j ws hj => ?_, fun _ => rfl⟩ <;>
        simp [World.committed, World.initial] at hj
  | @step w w' a hbefore hstep _ ih =>
      have hbefore : Reachable rt settings templates w := hbefore
      have hafter := hbefore.step hstep
      rcases World.commits_step hstep with ⟨pid, i, p, pt, next, rfl, hp, -, hstate, hcommitted⟩ |
        ⟨hstate, hcommitted⟩
      · have hget := World.committed_getElem? hp
        change w'.state = p.session.view storage w.state at hstate
        have hlt := (List.getElem?_eq_some_iff.mp hget).1
        have hrecords := recordsOf_applyAll w.state p.session.writes r
        rw [← Session.view, ← hstate] at hrecords
        have hnew : w'.committed[pid]? = some (p.session.committed ++ p.session.writes) := by
          simp [hcommitted, hlt]
        have hold {j : ℕ} (hj : j ≠ pid) : w'.committed[j]? = w.committed[j]? := by
          simp [hcommitted, Ne.symm hj]
        by_cases hstarted : startsOf r p.session.committed = 0
        · -- what is committed adds nothing to the records
          have hnone := hbefore.enters hstep hp hstate hstarted
          have hidle : recordsIn (entries r (p.session.committed ++ p.session.writes)) =
              ([], [], []) := by
            rw [entries_append, recordsIn_append, hnone, ih.idle pid _ hget hstarted]
            rfl
          simp only [hnone, List.append_nil] at hrecords
          have hempty (hothers : ∀ j ws, j ≠ pid → w.committed[j]? = some ws → startsOf r ws = 0) :
              w.state.db.recordsOf r = ([], [], []) := ih.none fun j ws hj => by
            by_cases hpid : j = pid
            · obtain rfl := Option.some.inj (hj.symm.trans (hpid ▸ hget))
              exact hstarted
            · exact hothers j ws hpid hj
          refine ⟨fun j ws hj hpos => ?_, fun j ws hj hzero => ?_, fun hzero => ?_⟩
          · by_cases hpid : j = pid
            · obtain rfl := Option.some.inj (hj.symm.trans (hpid ▸ hnew))
              refine hrecords.trans ((hempty fun k ws' hk hws' => ?_).trans hidle.symm)
              exact hafter.starter hj ((hold hk).trans hws') (hpid ▸ Ne.symm hk) hpos
            · exact hrecords.trans (ih.started j ws ((hold hpid).symm.trans hj) hpos)
          · by_cases hpid : j = pid
            · obtain rfl := Option.some.inj (hj.symm.trans (hpid ▸ hnew))
              exact hidle
            · exact ih.idle j ws ((hold hpid).symm.trans hj) hzero
          · exact hrecords.trans (hempty fun j ws hpid hj => hzero j ws ((hold hpid).trans hj))
        · -- the session goes on with its own run
          have hpos : 0 < startsOf r (p.session.committed ++ p.session.writes) := by
            rw [startsOf_append]
            omega
          refine ⟨fun j ws hj hpos' => ?_, fun j ws hj hzero => ?_, fun hzero => ?_⟩
          · by_cases hpid : j = pid
            · obtain rfl := Option.some.inj (hj.symm.trans (hpid ▸ hnew))
              rw [hrecords, ih.started pid _ hget (by omega), entries_append, recordsIn_append]
            · have hzero := hafter.starter hnew hj (Ne.symm hpid) hpos
              omega
          · by_cases hpid : j = pid
            · obtain rfl := Option.some.inj (hj.symm.trans (hpid ▸ hnew))
              omega
            · exact ih.idle j ws ((hold hpid).symm.trans hj) hzero
          · have hzero := hzero pid _ hnew
            omega
      · have hrecords : w'.state.db.recordsOf r = w.state.db.recordsOf r := by
          rcases hstate with hstate | ⟨c, i, hstate⟩
          · rw [hstate]
          · change w'.state = c.perform i w.state at hstate
            rw [hstate, c.perform_db]
        -- a session that begins has committed nothing
        have hcases {j : ℕ} {ws : List Write} (hj : w'.committed[j]? = some ws) :
            w.committed[j]? = some ws ∨ ws = [] := by
          rcases hcommitted with hcommitted | hcommitted
          · exact .inl (hcommitted ▸ hj)
          · rw [hcommitted, List.getElem?_append] at hj
            split at hj
            · exact .inl hj
            · exact .inr (List.mem_singleton.mp (List.mem_of_getElem? hj))
        have hkept {j : ℕ} {ws : List Write} (hj : w.committed[j]? = some ws) :
            w'.committed[j]? = some ws := by
          rcases hcommitted with hcommitted | hcommitted
          · exact hcommitted ▸ hj
          · rw [hcommitted, List.getElem?_append_left (List.getElem?_eq_some_iff.mp hj).1, hj]
        refine ⟨fun j ws hj hpos => ?_, fun j ws hj hzero => ?_, fun hzero => ?_⟩
        · rcases hcases hj with hj | rfl
          · exact hrecords.trans (ih.started j ws hj hpos)
          · exact absurd hpos (lt_irrefl 0)
        · rcases hcases hj with hj | rfl
          · exact ih.idle j ws hj hzero
          · rfl
        · exact hrecords.trans (ih.none fun j ws hj => hzero j ws (hkept hj))

/-- A step adds to the transitions of a run what its session commits. -/
theorem World.transitions_step (hstep : w.step (system rt settings) a = some w') (r : Uuid) :
    (∃ j i q p, a = .run j i ∧ w.procs[j]? = some q ∧ w'.procs[j]? = some p ∧
      p.session.committed = q.session.committed ++ q.session.writes ∧
      w'.state.db.transitionsOf r = w.state.db.transitionsOf r ++
        (entries r q.session.writes).filterMap Entry.transition?) ∨
    w'.state.db.transitionsOf r = w.state.db.transitionsOf r := by
  rcases World.commits_step hstep with ⟨j, i, q, pt, next, rfl, hq, -, hstate, hcommitted⟩ |
    ⟨hstate | ⟨c, i, hstate⟩, -⟩
  · obtain ⟨p, hp, -⟩ := World.kind_step hstep hq
    have hlt := (List.getElem?_eq_some_iff.mp (World.committed_getElem? hq)).1
    have hget := World.committed_getElem? hp
    rw [hcommitted, List.getElem?_set_self hlt, Option.some.injEq] at hget
    refine .inl ⟨j, i, q, p, rfl, hq, hp, hget.symm, ?_⟩
    rw [hstate]
    exact transitionsOf_applyAll w.state q.session.writes r
  · exact .inr (by rw [hstate])
  · change w'.state = c.perform i w.state at hstate
    exact .inr (by rw [hstate, c.perform_db])

/-- What a session has entered as a transition has happened. -/
theorem Reachable.transitions (h : Reachable rt settings templates w) {j : ℕ} {p : Process}
    (hp : w.procs[j]? = some p) {previous new : Option RunStatus}
    (hentry : .transition previous new ∈ entries r p.session.committed) :
    (previous, new) ∈ w.state.db.transitionsOf r := by
  induction h generalizing j p with
  | refl => simp [World.initial] at hp
  | @step w w' a hbefore hstep _ ih =>
      have hgrows : w.state.db.transitionsOf r ⊆ w'.state.db.transitionsOf r := by
        rcases World.transitions_step hstep r with ⟨_, _, _, _, _, _, _, _, heq⟩ | heq <;> simp [heq]
      rcases World.committed_cases hstep hp with
        ⟨q, hq, -, hcommitted | ⟨i, pt, next, -, -, hstate, hcommitted⟩⟩ | hnone
      · exact hgrows (ih hq (hcommitted ▸ hentry))
      · rw [hcommitted, entries_append, List.mem_append] at hentry
        rcases hentry with hentry | hentry
        · exact hgrows (ih hq hentry)
        · rw [hstate, Session.view]
          refine (transitionsOf_applyAll w.state q.session.writes r) ▸ List.mem_append_right _ ?_
          exact List.mem_filterMap.mpr ⟨_, hentry, rfl⟩
      · rw [hnone] at hentry
        cases hentry

/-- Only a delivery makes a run succeed. -/
theorem Moves.succeeded {κ : Kind} {v v' : RunView} (h : Moves κ r v v')
    (hlt : v.entered RunStatus.succeeded < v'.entered RunStatus.succeeded) :
    κ.delivers r := by
  cases h with
  | refl => exact absurd hlt (lt_irrefl _)
  | pass hκ h =>
      subst hκ
      have hsame : v'.entered RunStatus.succeeded = v.entered RunStatus.succeeded :=
        h.entered_eq fun l hl => by
          cases l <;> simp_all [Kind.allows, Label.enters]
          rcases hl with rfl | rfl <;> simp
      omega
  | single l hl h =>
      have hentered := h.entered RunStatus.succeeded
      split at hentered
      · next henters =>
        cases l with
        | finish target lease =>
            obtain rfl : target = RunStatus.succeeded := Option.some.inj henters
            cases κ <;> simp [Kind.allows] at hl
            exact ⟨_, _, rfl, hl.1⟩
        | _ => simp [Label.enters] at henters
      · omega

/-- The delivery that made a run succeed has entered that. -/
theorem Reachable.succeeds (h : Reachable rt settings templates w)
    (hentered : 0 < (w.state.db.runView r).entered RunStatus.succeeded) :
    ∃ (j : ℕ) (p : Process), w.procs[j]? = some p ∧ p.kind.delivers r ∧
      ∃ previous, .transition previous (some RunStatus.succeeded) ∈
        entries r p.session.committed := by
  induction h with
  | refl => simp [World.initial, Platform.empty, Db.runView, Db.transitionsOf, RunView.entered] at hentered
  | @step w w' a hbefore hstep _ ih =>
      have hbefore : Reachable rt settings templates w := hbefore
      by_cases hwas : 0 < (w.state.db.runView r).entered RunStatus.succeeded
      · obtain ⟨j, p, hp, hdelivers, previous, hentry⟩ := ih hwas
        obtain ⟨p', hp', hkind, hprefix⟩ := World.committed_step hstep hp
        obtain ⟨more, hmore⟩ := hprefix
        refine ⟨j, p', hp', hkind ▸ hdelivers, previous, ?_⟩
        rw [← hmore, entries_append]
        exact List.mem_append_left _ hentry
      · have hlt : (w.state.db.runView r).entered RunStatus.succeeded <
            (w'.state.db.runView r).entered RunStatus.succeeded := by omega
        obtain ⟨j, i, q, rfl, hq, hmoves⟩ := hbefore.entering hstep hlt
        obtain ⟨p, hp, hkind, -⟩ := World.committed_step hstep hq
        refine ⟨j, p, hp, hkind ▸ hmoves.succeeded hlt, ?_⟩
        rcases World.transitions_step hstep r with
          ⟨j', i', q', p', heq, hq', hp', hcommitted, htransitions⟩ | hsame
        · obtain ⟨rfl, rfl⟩ : j' = j ∧ i' = i := by simpa [eq_comm] using heq
          obtain rfl := Option.some.inj (hq'.symm.trans hq)
          obtain rfl := Option.some.inj (hp'.symm.trans hp)
          -- none of the transitions before led there, so one of these does
          have hmem : some RunStatus.succeeded ∈
              ((entries r q'.session.writes).filterMap Entry.transition?).map Prod.snd := by
            by_contra hnone
            simp only [RunView.entered, Db.runView, htransitions, List.map_append,
              List.count_append, List.count_eq_zero.mpr hnone] at hlt
            omega
          obtain ⟨⟨previous, new⟩, hpair, hnew⟩ := List.mem_map.mp hmem
          obtain ⟨e, he, hpair⟩ := List.mem_filterMap.mp hpair
          obtain rfl : e = .transition previous (some RunStatus.succeeded) := by
            cases e <;> simp_all [Entry.transition?]
          refine ⟨previous, ?_⟩
          rw [hcommitted, entries_append]
          exact List.mem_append_right _ he
        · simp only [RunView.entered, Db.runView, hsame] at hlt
          omega

end Runscope
