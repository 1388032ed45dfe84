import Runscope.Reachable

/-!
The ledger of a run's transitions, and what later steps leave as it was.
-/

namespace Runscope

open Transact RunStatus

variable {rt : Runtime} {settings : Settings} {templates : Table TrainingTemplate.id}
  {w w' : Cluster} {v v' v'' : RunView} {l : Label} {L : Label → Prop}

/-! ### Every change of status is recorded -/

/-- The status a run is in; before it is stored, it is a draft. -/
def RunView.status (v : RunView) : RunStatus := v.run.elim draft Run.status

/-- From `v` to `v'` the transitions `added` were recorded, from the status
before to the status after. -/
structure RunView.Records (v v' : RunView)
    (added : List (Option RunStatus × Option RunStatus)) : Prop where
  transitions : v'.transitions = v.transitions ++ added
  path : IsPath ValidStep (some v.status) added (some v'.status)
  version : added ≠ [] → v.version < v'.version

theorem RunView.Records.trans {added added' : List (Option RunStatus × Option RunStatus)}
    (h : v.Records v' added) (h' : v'.Records v'' added') (hle : v.version ≤ v'.version)
    (hle' : v'.version ≤ v''.version) : v.Records v'' (added ++ added') where
  transitions := by rw [h'.transitions, h.transitions, List.append_assoc]
  path := h.path.append h'.path
  version hne := by
    by_cases hnil : added = []
    · exact lt_of_le_of_lt hle (h'.version (by simpa [hnil] using hne))
    · exact lt_of_lt_of_le (h.version hnil) hle'

theorem RunStep.records (h : RunStep l v v') : ∃ added, v.Records v' added := by
  have hversion := h.version_lt
  have hvalid (p t : RunStatus) (h : t ∈ validTransitions p) := ValidStep.of_mem p t h
  cases h with
  | create run submitted hstatus =>
      exact ⟨[(some draft, some queued)], rfl, ⟨rfl, hvalid _ _ (by simp [validTransitions]),
        congrArg some hstatus.symm⟩, fun _ => hversion⟩
  | edit v run notes tags version hrun =>
      refine ⟨[], by simp, ?_, fun hne => absurd rfl hne⟩
      simp [IsPath, RunView.status, hrun]
  | assign v run _ _ _ hrun hstatus =>
      refine ⟨_, rfl, ⟨?_, hvalid _ _ (by simp [validTransitions]), rfl⟩, fun _ => hversion⟩
      simp [RunView.status, hrun, hstatus]
  | requeue v run _ _ _ hrun hstatus | start v run _ _ _ hrun hstatus
  | requestCancel v run _ _ hrun hstatus =>
      refine ⟨_, rfl, ⟨?_, hvalid _ _ (by simp [validTransitions]), rfl⟩, fun _ => hversion⟩
      simp [RunView.status, hrun, hstatus]
  | finish v run target _ _ _ _ _ _ hrun hstatus =>
      refine ⟨_, rfl, ⟨?_, hvalid _ _ ?_, rfl⟩, fun _ => hversion⟩
      · simp [RunView.status, hrun]
      · simp only [List.mem_cons, Prod.mk.injEq, List.not_mem_nil, or_false] at hstatus
        rcases hstatus with ⟨h, rfl⟩ | ⟨h, rfl⟩ | ⟨h, rfl⟩ <;> simp [h, validTransitions]

theorem Lives.records (h : Lives L v v') : ∃ added, v.Records v' added := by
  induction h with
  | refl => exact ⟨[], by simp, rfl, fun hne => absurd rfl hne⟩
  | tail hchain hstep ih =>
      obtain ⟨l, -, hstep⟩ := hstep
      obtain ⟨added, hadded⟩ := ih
      obtain ⟨added', hadded'⟩ := hstep.records
      exact ⟨_, hadded.trans hadded' (Lives.version_le hchain) hstep.version_lt.le⟩

/-- The transitions of a run form a path from its draft to its status, each
step extends the path from the status before to the status after, and a run
that was to be cancelled neither succeeds nor fails. -/
theorem lifecycle_ledger (h : Reachable rt settings templates w) :
    (∀ r run, w.state.db.runs.get? r = some run →
      IsPath ValidStep (some draft) (w.state.db.transitionsOf r) (some run.status) ∧
      ((∃ x ∈ w.state.db.transitionsOf r, x.2 = some cancelling) →
        run.status ≠ succeeded ∧ run.status ≠ failed)) ∧
    ∀ a w', w.step (system rt settings) a = some w' → ∀ r, ∃ added,
      w'.state.db.transitionsOf r = w.state.db.transitionsOf r ++ added ∧
      IsPath ValidStep (some ((w.state.db.runs.get? r).elim draft Run.status)) added
        (some ((w'.state.db.runs.get? r).elim draft Run.status)) ∧
      ∀ run run', w.state.db.runs.get? r = some run → w'.state.db.runs.get? r = some run' →
        added ≠ [] → run.version < run'.version := by
  constructor
  · intro r run hget
    have hcoherent := (h.inv.runs r).present run hget
    refine ⟨hcoherent.ledger, fun ⟨x, hx, htarget⟩ => ?_⟩
    have hentered : 0 < (w.state.db.runView r).entered cancelling :=
      List.count_pos_iff.mpr (List.mem_map.mpr ⟨x, hx, htarget⟩)
    rw [hcoherent.cancelled] at hentered
    split at hentered
    · next hstatus =>
      simp only [List.mem_cons, List.not_mem_nil, or_false] at hstatus
      rcases hstatus with hstatus | hstatus <;> simp [hstatus]
    · omega
  · intro a w' hstep r
    have hlives := (h.later (.step .refl hstep trivial)).2 r
    obtain ⟨added, hadded⟩ := Lives.records hlives
    refine ⟨added, hadded.transitions, hadded.path, fun run run' hget hget' hne => ?_⟩
    have hlt := hadded.version hne
    simpa [RunView.version, Db.runView, hget, hget'] using hlt

theorem lifecycle_ledger_scheduled : ∃ w, Reachable Demo.runtime Demo.settings Demo.templates w ∧
    IsPath ValidStep (some draft) (w.state.db.transitionsOf 201) (some scheduling) := by
  obtain ⟨w, hw, run, hget, hstatus⟩ := Demo.scheduled
  exact ⟨w, hw, hstatus ▸ ((lifecycle_ledger hw).1 201 run hget).1⟩

/-! ### Outcomes -/

/-- The record of a run is coherent, and once its outcome is known it stays. -/
theorem outcomes_absorbing (h : Reachable rt settings templates w) :
    (∀ r run, w.state.db.runs.get? r = some run →
      run.queuedAt.isSome ∧
      (run.startedAt.isSome ↔ ∃ x ∈ w.state.db.transitionsOf r, x.2 = some running) ∧
      (run.completedAt.isSome ↔ run.status ∈ [succeeded, failed, cancelled]) ∧
      (run.failureCode.isSome ↔ run.status = failed) ∧
      (run.failureMessage.isSome ↔ run.status = failed)) ∧
    ∀ w', Reach (system rt settings) (fun _ _ _ => True) w w' → ∀ r run,
      w.state.db.runs.get? r = some run → ∃ run', w'.state.db.runs.get? r = some run' ∧
        (run.startedAt.isSome → run'.startedAt = run.startedAt) ∧
        (run.status ∈ [succeeded, failed, cancelled] →
          run'.status = run.status ∧ run'.startedAt = run.startedAt ∧
          run'.completedAt = run.completedAt ∧ run'.failureCode = run.failureCode ∧
          run'.failureMessage = run.failureMessage ∧ run'.attemptNumber = run.attemptNumber ∧
          run'.assignedWorkerId = run.assignedWorkerId) := by
  have hfinished (s : RunStatus) : s.finished = true ↔ s ∈ [succeeded, failed, cancelled] := by
    simp [RunStatus.finished]
  constructor
  · intro r run hget
    have hcoherent := (h.inv.runs r).present run hget
    have hentered : 0 < (w.state.db.runView r).entered running ↔
        ∃ x ∈ w.state.db.transitionsOf r, x.2 = some running := by
      rw [RunView.entered, List.count_pos_iff, List.mem_map]
      rfl
    refine ⟨hcoherent.queuedAt, ?_, hcoherent.completedAt.trans (hfinished _), hcoherent.failureCode,
      hcoherent.failureMessage⟩
    rw [← hentered, hcoherent.started, hcoherent.startedAt]
    split <;> simp_all
  · intro w' hreach r run hget
    have hlives := (h.later hreach).2 r
    obtain ⟨run', hget', hcontinues⟩ := Lives.continues hlives (h.inv.runs r) hget
    refine ⟨run', hget', hcontinues.started, fun hstatus => ?_⟩
    have hcoherent := (h.inv.runs r).present run hget
    have hdone := (hfinished _).mpr hstatus
    have hbegun : run.status.begun := by
      simp only [List.mem_cons, List.not_mem_nil, or_false] at hstatus
      rcases hstatus with h | h | h <;> simp [h, RunStatus.begun]
    obtain ⟨h₁, h₂, h₃, h₄, h₅⟩ := hcontinues.finished hdone
    exact ⟨h₁, hcontinues.started (hcoherent.startedAt.mpr hbegun), h₂, h₃, h₄,
      hcontinues.origin.2.1, h₅⟩

namespace Demo

/-- A pass of the scheduler with nothing to do. -/
def idlePass : List (Action Kind Input) := .spawn .schedule :: steps 5 600 9

end Demo

/-- A pass of the scheduler leaves a run that has succeeded as it is. -/
theorem outcomes_absorbing_executed : ∃ w w' run run',
    Reachable Demo.runtime Demo.settings Demo.templates w ∧
    Reach (system Demo.runtime Demo.settings) (fun _ _ _ => True) w w' ∧
    w.state.db.runs.get? 201 = some run ∧ run.status = succeeded ∧ run.completedAt.isSome ∧
    w'.state.db.runs.get? 201 = some run' ∧ run'.status = succeeded ∧
    run'.completedAt = run.completedAt := by
  have h : (Demo.exec Demo.executed).any fun w =>
      (w.state.db.runs.get? 201).any (fun run => run.status = succeeded) ∧
        (w.exec (system Demo.runtime Demo.settings) Demo.idlePass).isSome := by decide +kernel
  obtain ⟨w, hw, hlast⟩ := Demo.reachable h
  obtain ⟨hrun, hlater⟩ := of_decide_eq_true hlast
  obtain ⟨run, hget, hsucceeded⟩ := (Option.any_eq_true _ _).mp hrun
  have hstatus : run.status = succeeded := of_decide_eq_true hsucceeded
  obtain ⟨w', hexec⟩ := Option.isSome_iff_exists.mp hlater
  have hreach := Reach.refl.of_exec hexec
  obtain ⟨-, -, hcompleted, -⟩ := (outcomes_absorbing hw).1 201 run hget
  obtain ⟨run', hget', -, hsame⟩ := (outcomes_absorbing hw).2 w' hreach 201 run hget
  obtain ⟨hstatus', -, hcompleted', -⟩ := hsame (by simp [hstatus])
  exact ⟨w, w', run, run', hw, hreach, hget, hstatus, hcompleted.mpr (by simp [hstatus]), hget',
    hstatus'.trans hstatus, hcompleted'⟩

end Runscope
