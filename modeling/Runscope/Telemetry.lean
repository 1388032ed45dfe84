import Runscope.Reachable

/-!
What is recorded for finished runs.

Most of what an executor records it commits together with the end of its run,
and that commit is refused if the run has changed. The telemetry of a slow run
is committed on its own, and the checkpoints look for a requested cancellation
only. So nothing is recorded for a finished run unless another session ends
the run while its executor is still between two checkpoints.
-/

namespace Runscope

open Transact RunStatus

variable {rt : Runtime} {settings : Settings} {templates : Table TrainingTemplate.id}
  {w w' : Cluster} {a : Action Kind Input}

/-- The silence about finished runs is in force. -/
def Mode.silent (rt : Runtime) : Mode := ⟨rt, False, True, False⟩

/-- The step finishes no run whose telemetry another session has yet to commit. -/
def Unhurried (w : Cluster) (a : Action Kind Input) (w' : Cluster) : Prop :=
  ∀ pid i, a = .run pid i → ∀ (j : ℕ) (q : Process) pt r, w.procs[j]? = some q → j ≠ pid →
    q.prog.point? = some pt → pt.records = some r → w'.state.db.finished r →
    w.state.db.finished r

theorem Unhurried.undisturbed (h : Unhurried w a w') : Undisturbed (.silent rt) w a w' :=
  fun pid i ha j q pt hq hj hpt =>
    ⟨False.elim, False.elim, fun _ r hr => h pid i ha j q pt r hq hj hpt hr, False.elim⟩

/-- A finished run stays finished, and its records stay as they are. -/
theorem records_step
    (h : Reach (system rt settings) Unhurried (.initial (.empty templates)) w)
    (hstep : w.step (system rt settings) a = some w') (r : Uuid) (hr : w.state.db.finished r) :
    w'.state.db.recordsOf r = w.state.db.recordsOf r ∧ w'.state.db.finished r := by
  have hok : w.Ok (system rt settings) (Invariant (.silent rt)) (contract (.silent rt)) :=
    ok_of_undisturbed (m := .silent rt) (h.mono fun _ _ _ h => h.undisturbed)
  rcases hok.guar hstep with heq | ⟨pid, i, p, pt, -, -, -, hguar⟩
  · rw [heq]
    exact ⟨rfl, hr⟩
  · obtain ⟨run, hget, hstatus⟩ := hr
    obtain ⟨run', hget', hcontinues⟩ := (hguar.runs r).lives.continues (hok.inv.runs r) hget
    obtain ⟨hsame, -⟩ := hcontinues.finished hstatus
    exact ⟨hguar.records trivial r ⟨run, hget, hstatus⟩, run', hget', hsame.symm ▸ hstatus⟩

/-- As long as no session finishes a run whose executor has telemetry still to
commit, nothing is recorded for a run once it is finished. -/
theorem finished_silent
    (h : Reach (system rt settings) Unhurried (.initial (.empty templates)) w)
    (hlater : Reach (system rt settings) Unhurried w w') (r : Uuid) (hr : w.state.db.finished r) :
    w'.state.db.recordsOf r = w.state.db.recordsOf r := by
  have hstays : Reach (system rt settings) Unhurried (.initial (.empty templates)) w' ∧
      w'.state.db.recordsOf r = w.state.db.recordsOf r ∧ w'.state.db.finished r := by
    induction hlater with
    | refl => exact ⟨h, rfl, hr⟩
    | step _ hstep hallowed ih =>
        obtain ⟨hreach, hrecords, hfinished⟩ := ih
        obtain ⟨hsame, hfinished'⟩ := records_step hreach hstep r hfinished
        exact ⟨.step hreach hstep hallowed, hsame.trans hrecords, hfinished'⟩
  exact hstays.2.1

namespace Demo

/-- A slow run has begun to report when the scheduler takes its worker to be
stale and recovers the run. -/
def recovered : List (Action Kind Input) :=
  delivered slow 12 ++ .spawn .schedule :: steps 5 100000000 19

/-- No session has telemetry to commit. -/
def quiet (w : Cluster) (_ : Action Kind Input) (_ : Cluster) : Bool :=
  w.procs.all fun q => (q.prog.point?.bind Point.records).isNone

theorem quiet_sound (h : quiet w a w') : Unhurried w a w' := by
  intro pid i _ j q pt r hq _ hpt hr
  have hnone := List.all_eq_true.mp h q (List.mem_of_getElem? hq)
  simp [hpt, hr] at hnone

end Demo

/-- The executor goes on to record its progress on the failed run. -/
theorem finished_recorded : ∃ w w' : Cluster,
    Reachable Demo.runtime Demo.settings Demo.templates w ∧
    Reach (system Demo.runtime Demo.settings) (fun _ _ _ => True) w w' ∧
    w.state.db.finished 201 ∧ (w.state.db.recordsOf 201).1.length = 1 ∧
    (w'.state.db.recordsOf 201).1.length = 2 := by
  have h : (Demo.exec Demo.recovered).any fun w =>
      (w.exec (system Demo.runtime Demo.settings) (Demo.steps 4 200000000 3)).any fun w' =>
        ((w.state.db.runs.get? 201).any fun run => run.status = failed) ∧
          (w.state.db.recordsOf 201).1.length = 1 ∧ (w'.state.db.recordsOf 201).1.length = 2 := by
    decide +kernel
  obtain ⟨w, hw, hlater⟩ := Demo.reachable h
  obtain ⟨w', hexec, hcheck⟩ := (Option.any_eq_true _ _).mp hlater
  obtain ⟨hrun, hbefore, hafter⟩ := of_decide_eq_true hcheck
  obtain ⟨run, hget, hstatus⟩ := (Option.any_eq_true _ _).mp hrun
  have hfinished : run.status.finished := by simp [of_decide_eq_true hstatus, RunStatus.finished]
  exact ⟨w, w', hw, Reach.refl.of_exec hexec, ⟨run, hget, hfinished⟩, hbefore, hafter⟩

/-- The records of an executed run, when its message is delivered again. -/
theorem finished_silent_executed : ∃ w w' : Cluster,
    w.state.db.finished 201 ∧ (w.state.db.recordsOf 201).1.length = 1 ∧
    w'.state.db.recordsOf 201 = w.state.db.recordsOf 201 := by
  have h : ((World.initial (.empty Demo.templates)).execIf (system Demo.runtime Demo.settings)
      Demo.quiet Demo.executed).any fun w =>
        (w.execIf (system Demo.runtime Demo.settings) Demo.quiet
          (.spawn (.processEvent Demo.assignment none) :: Demo.steps 5 600 1)).isSome ∧
        ((w.state.db.runs.get? 201).any fun run => run.status = succeeded) ∧
          (w.state.db.recordsOf 201).1.length = 1 := by decide +kernel
  obtain ⟨w, hexec, hcheck⟩ := (Option.any_eq_true _ _).mp h
  obtain ⟨hlater, hrun, hlogs⟩ := of_decide_eq_true hcheck
  obtain ⟨w', hexec'⟩ := Option.isSome_iff_exists.mp hlater
  obtain ⟨run, hget, hstatus⟩ := (Option.any_eq_true _ _).mp hrun
  have hfinished : run.status.finished := by simp [of_decide_eq_true hstatus, RunStatus.finished]
  have hreach := Reach.of_execIf (fun _ _ _ => Demo.quiet_sound) .refl hexec
  have hreach' := Reach.of_execIf (fun _ _ _ => Demo.quiet_sound) .refl hexec'
  exact ⟨w, w', ⟨run, hget, hfinished⟩, hlogs,
    finished_silent hreach hreach' 201 ⟨run, hget, hfinished⟩⟩

end Runscope
