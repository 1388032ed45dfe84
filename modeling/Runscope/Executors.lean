import Runscope.Reachable
import Runscope.Transact.Records

/-!
No run has two executors.

A run is started once, its template is executed only by the session that
started it, and so everything an executor stores and records is its own: the
contract holds with nothing on that left to chance.
-/

namespace Runscope

open Transact RunStatus

variable {rt : Runtime} {settings : Settings} {templates : Table TrainingTemplate.id}
  {w w' : Cluster} {a : Action Kind Input}

/-- A run is started by the events that say so. -/
theorem entered_onRun (r : Uuid) (ws : List Write) (v : RunView) :
    (onRun r ws v).entered running = v.entered running + startsOf r ws := by
  induction ws generalizing v with
  | nil => rfl
  | cons x ws ih =>
      have hx : (x.onRun r v).entered running = v.entered running + startsOf r [x] := by
        cases x with
        | insertEvent e =>
            by_cases hr : e.runId = r
            · cases hnew : e.newStatus with
              | none => simp [Write.onRun, startsOf, hr, hnew]
              | some target =>
                  by_cases htarget : target = running <;>
                    simp [Write.onRun, startsOf, hr, hnew, RunView.entered, htarget]
            · simp [Write.onRun, startsOf, hr]
        | insertRun | updateRun | insertAllocation | releaseAllocation | insertOutbox =>
            simp only [Write.onRun]
            split <;> rfl
        | insertParameter | insertMetric | insertLog | insertArtifact | insertWorker | updateWorker
        | renewLease | updateOutbox | insertProcessed => rfl
      have hcons : startsOf r (x :: ws) = startsOf r [x] + startsOf r ws :=
        startsOf_append r [x] ws
      rw [onRun_cons, ih, hx, hcons, Nat.add_assoc]

theorem executions_applyAll {p : Platform} {ws : List Write} :
    (storage.applyAll p ws).executions = p.executions := by
  induction ws generalizing p with
  | nil => rfl
  | cons w ws ih => exact ih

theorem count_perform (c : Call) (i : Input) (p : Platform) (r : Uuid) :
    (c.perform i p).executions.count r = p.executions.count r + executesOf r [c] := by
  cases c with
  | execute r' => simp [Call.perform, executesOf, List.count_singleton, List.countP_singleton]
  | publish e | put key data =>
      simp only [Call.perform]
      split <;> simp [executesOf]
  | pause => simp [Call.perform, executesOf]

/-- The sessions together have started and executed what the platform says,
and each has executed no more than it has started. -/
structure Tallied (w : Cluster) : Prop where
  executed : ∀ r, (w.records.map fun x => executesOf r x.2).sum = w.state.executions.count r
  started : ∀ r, (w.records.map fun x => startsOf r x.1).sum = (w.state.db.runView r).entered running
  earned : ∀ x ∈ w.records, ∀ r, executesOf r x.2 ≤ startsOf r x.1

/-- One session adds to the record. -/
theorem Tallied.set (h : Tallied w) {pid : ℕ} {ws ws' : List Write} {calls calls' : List Call}
    (hget : w.records[pid]? = some (ws, calls)) (hrecords : w'.records = w.records.set pid (ws', calls'))
    (hexecuted : ∀ r, w'.state.executions.count r + executesOf r calls =
      w.state.executions.count r + executesOf r calls')
    (hstarted : ∀ r, (w'.state.db.runView r).entered running + startsOf r ws =
      (w.state.db.runView r).entered running + startsOf r ws')
    (hearned : ∀ r, executesOf r calls' ≤ startsOf r ws') : Tallied w' where
  executed r := by
    have hsum : ((w.records.set pid (ws', calls')).map fun x => executesOf r x.2).sum +
        executesOf r calls = (w.records.map fun x => executesOf r x.2).sum + executesOf r calls' :=
      sum_map_set hget _
    have hbefore := h.executed r
    have hafter := hexecuted r
    rw [hrecords]
    omega
  started r := by
    have hsum : ((w.records.set pid (ws', calls')).map fun x => startsOf r x.1).sum +
        startsOf r ws = (w.records.map fun x => startsOf r x.1).sum + startsOf r ws' :=
      sum_map_set hget _
    have hbefore := h.started r
    have hafter := hstarted r
    rw [hrecords]
    omega
  earned x hx := by
    rw [hrecords] at hx
    rcases List.mem_or_eq_of_mem_set hx with hx | rfl
    · exact h.earned x hx
    · exact hearned

theorem Reachable.tallied (h : Reachable rt settings templates w) : Tallied w := by
  induction h with
  | refl =>
      exact ⟨by simp [World.records, World.initial, Platform.empty],
        by simp [World.records, World.initial, Platform.empty, RunView.entered, Db.runView,
          Db.transitionsOf], by simp [World.records, World.initial]⟩
  | @step w w' a h hstep _ ih =>
      have hok := Reachable.ok h
      rcases World.records_step hstep with ⟨pid, i, p, pt, next, -, hp, hprog, hstate, hrecords⟩ |
        ⟨pid, i, p, pt, c, next, -, hp, hprog, hstate, hrecords⟩ | ⟨hstate, hrecords⟩
      · -- a commit: what it starts is on record
        have hget := World.records_getElem? hp
        have hearned := ih.earned _ (List.mem_of_getElem? hget)
        change w'.state = p.session.view storage w.state at hstate
        refine ih.set hget hrecords (fun r => ?_) (fun r => ?_) fun r => ?_
        · rw [hstate, Session.view, executions_applyAll]
        · have hafter : (p.session.view storage w.state).db.runView r =
              onRun r p.session.writes (w.state.db.runView r) :=
            runView_applyAll (hok.accepted pid p hp) r
          rw [hstate, hafter, entered_onRun, startsOf_append]
          omega
        · rw [startsOf_append]
          exact (hearned r).trans (Nat.le_add_right _ _)
      · -- a call: an execution has been earned by a start
        have hget := World.records_getElem? hp
        have hearned := ih.earned _ (List.mem_of_getElem? hget)
        have hneed : Needs (.call c) p.session w.state := hok.need hp hprog
        change w'.state = c.perform i w.state at hstate
        refine ih.set hget hrecords (fun r => ?_) (fun r => ?_) fun r => ?_
        · rw [hstate, count_perform, executesOf_append]
          omega
        · rw [hstate, c.perform_db i w.state]
        · rw [executesOf_append]
          by_cases hc : c = .execute r
          · have hlt := hneed.execute r (congrArg Stmt.call hc)
            have hone : executesOf r [c] = 1 := by simp [hc, executesOf]
            omega
          · have hzero : executesOf r [c] = 0 := by
              cases c <;> simp_all [executesOf]
            rw [hzero]
            exact hearned r
      · constructor
        · intro r
          rw [hstate, ← ih.executed r]
          rcases hrecords with hrecords | hrecords <;> simp [hrecords, executesOf]
        · intro r
          rw [hstate, ← ih.started r]
          rcases hrecords with hrecords | hrecords <;> simp [hrecords, startsOf]
        · intro x hx r
          rcases hrecords with hrecords | hrecords <;> rw [hrecords] at hx
          · exact ih.earned x hx r
          · rcases List.mem_append.mp hx with hx | hx
            · exact ih.earned x hx r
            · rw [List.mem_singleton.mp hx]
              simp [executesOf]

/-- A run is started at most once. -/
theorem Reachable.started_le (h : Reachable rt settings templates w) (r : Uuid) :
    (w.state.db.runView r).entered running ≤ 1 := by
  cases hget : w.state.db.runs.get? r with
  | none => simp [(h.inv.runs r).absent hget, RunView.absent, RunView.entered]
  | some run =>
      rw [((h.inv.runs r).present run hget).started]
      split <;> omega

/-- The template of a run is executed at most once. -/
theorem Reachable.executed_le (h : Reachable rt settings templates w) (r : Uuid) :
    w.state.executions.count r ≤ 1 := by
  have htallied := h.tallied
  have hsum : (w.records.map fun x => executesOf r x.2).sum ≤
      (w.records.map fun x => startsOf r x.1).sum :=
    List.sum_le_sum fun x hx => htallied.earned x hx r
  rw [htallied.executed, htallied.started] at hsum
  exact hsum.trans (h.started_le r)

/-- No run has been started by two sessions. -/
theorem Reachable.sole (h : Reachable rt settings templates w) {pid j : ℕ} {p q : Process}
    (hp : w.procs[pid]? = some p) (hq : w.procs[j]? = some q) (hj : j ≠ pid) {r : Uuid}
    (hr : 0 < startsOf r q.session.committed) : startsOf r p.session.committed = 0 := by
  have hle := add_le_sum_map (f := fun x : List Write × List Call => startsOf r x.1)
    (World.records_getElem? hq) (World.records_getElem? hp) hj
  have hsum := h.tallied.started r
  have hone := h.started_le r
  simp only at hle
  omega

/-- What executors store and record is their own. -/
def Mode.sole (rt : Runtime) : Mode := ⟨rt, False, False, True⟩

theorem Reachable.undisturbed (h : Reachable rt settings templates w) :
    Reach (system rt settings) (Undisturbed (.sole rt)) (.initial (.empty templates)) w := by
  induction h with
  | refl => exact .refl
  | step h hstep _ ih =>
      refine .step ih hstep fun pid i _ j q pt hq hj _ =>
        ⟨False.elim, False.elim, False.elim, fun _ p r hp hr => ?_⟩
      exact Reachable.sole h hp hq hj hr

theorem Reachable.okSole (h : Reachable rt settings templates w) :
    w.Ok (system rt settings) (Invariant (.sole rt)) (contract (.sole rt)) :=
  ok_of_undisturbed (m := .sole rt) h.undisturbed

end Runscope
