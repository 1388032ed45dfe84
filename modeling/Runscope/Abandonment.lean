import Runscope.Assignments
import Runscope.Authorship
import Runscope.Completion

/-!
Runs whose executor is gone.

The session that has started a run may end by an exception, or be lost, with
the run still RUNNING or CANCELLING. Nobody takes such a run over: it can
still be asked to cancel, and the scheduler ends it.
-/

namespace Runscope

open Transact RunStatus

variable {rt : Runtime} {settings : Settings} {templates : Table TrainingTemplate.id}
  {w w' : Cluster} {r : Uuid}

/-- Who enters a transition of a run whose executor is gone. -/
inductive Salvages (r : Uuid) (q : Process) : Option RunStatus × Option RunStatus → Prop where
  | cancelRequested (user : User) (correlationId : RequestId)
      (hkind : q.kind = .cancelRun r user correlationId) :
      Salvages r q (some running, some cancelling)
  | recovered (previous target : RunStatus) (hkind : q.kind = .schedule)
      (h : (previous, target) ∈ [(running, failed), (cancelling, cancelled)]) :
      Salvages r q (some previous, some target)

/-- A run that a session has started is running, or was. -/
theorem Reachable.begun_of_started (h : Reachable rt settings templates w) {pid : ℕ} {q : Process}
    (hq : w.procs[pid]? = some q) (hstarted : 0 < startsOf r q.session.committed) :
    ∃ run, w.state.db.runs.get? r = some run ∧ run.status.begun := by
  have hle := le_sum_map (f := fun x : List Write × List Call => startsOf r x.1)
    (World.records_getElem? hq)
  have hsum := h.tallied.started r
  simp only at hle
  cases hget : w.state.db.runs.get? r with
  | none =>
      have hnone : (w.state.db.runView r).entered running = 0 := by
        simp [(h.inv.runs r).absent hget, RunView.absent, RunView.entered]
      omega
  | some run =>
      refine ⟨run, rfl, ?_⟩
      have hentered := ((h.inv.runs r).present run hget).started
      by_contra hnot
      rw [if_neg hnot] at hentered
      omega

/-- An ending that a session has entered as an executor is the end of a run
that this session has started. -/
theorem Reachable.started_of_entered (h : Reachable rt settings templates w) {pid : ℕ} {q : Process}
    (hq : w.procs[pid]? = some q) (hdelivers : q.kind.delivers r) {entry : Entry}
    (hentry : entry ∈ entries r q.session.committed) : 0 < startsOf r q.session.committed := by
  rcases h.begun (List.mem_of_getElem? hq) hdelivers with hnone | ⟨rest, hrest⟩
  · rw [hnone] at hentry
    cases hentry
  · exact startsOf_pos ⟨_, hrest ▸ List.mem_append_left _ (List.mem_singleton.mpr rfl)⟩

/-- A run whose executor has ended without ending it, by an exception or because
the session was lost, is never SUCCEEDED: from then on it is RUNNING or
CANCELLING until the scheduler ends it, and nobody else enters a transition
but by a request to cancel. -/
theorem abandoned_salvaged (h : Reachable rt settings templates w) {pid : ℕ} {q : Process}
    (hq : w.procs[pid]? = some q) (hover : q.prog.point? = none)
    (hstarted : 0 < startsOf r q.session.committed) (hopen : ¬ w.state.db.finished r)
    (h' : Reach (system rt settings) (fun _ _ _ => True) w w') :
    ∃ run later, w'.state.db.runs.get? r = some run ∧
      run.status ∈ [running, cancelling, failed, cancelled] ∧
      w'.state.db.transitionsOf r = w.state.db.transitionsOf r ++ later ∧
      ∀ x ∈ later, ∃ (j : ℕ) (p : Process), w'.procs[j]? = some p ∧
        .transition x.1 x.2 ∈ entries r p.session.committed ∧ Salvages r p x := by
  obtain ⟨hreach', hlater⟩ := h.later h'
  have hbegun : ∃ run, (w.state.db.runView r).run = some run ∧ run.status.begun :=
    h.begun_of_started hq hstarted
  obtain ⟨⟨run, hget, hstatus⟩, later, htransitions, hadded⟩ := (hlater r).begun hbegun
  obtain ⟨q', hq', -, hsame⟩ := h'.over hq hover
  have hstarted' : 0 < startsOf r q'.session.committed := hsame ▸ hstarted
  -- what the session had not entered when it ended, it never enters
  have hunended {previous : Option RunStatus} {target : RunStatus}
      (hmem : (previous, some target) ∈ w.state.db.transitionsOf r) : ¬ target.finished :=
    fun hfinished => hopen (h.closed r previous target hmem hfinished)
  have hsalvaged : ∀ x ∈ later, ∃ (j : ℕ) (p : Process), w'.procs[j]? = some p ∧
      .transition x.1 x.2 ∈ entries r p.session.committed ∧ Salvages r p x := by
    intro x hx
    have hmem : x ∈ w'.state.db.transitionsOf r := by
      rw [show w'.state.db.transitionsOf r = _ ++ later from htransitions]
      exact List.mem_append_right _ hx
    obtain ⟨previous, target, rfl, j, p, l, hp, hentry, hallows, hmakes, -⟩ :=
      hreach'.authored x hmem
    refine ⟨j, p, hp, hentry, ?_⟩
    have hpair := hadded _ hx
    cases hmakes with
    | create | assign | requeue | start => simp at hpair
    | requestCancel =>
        obtain ⟨user, correlationId, hkind⟩ := cancelRun_of_allows hallows
        exact .cancelRequested user correlationId hkind
    | finish _ _ _ hends =>
        rcases ends_of_allows hallows with hdelivers | ⟨hkind, htarget⟩
        · exfalso
          have hpid : j = pid := by
            by_contra hne
            have hnone := hreach'.sole hp hq' (Ne.symm hne) hstarted'
            have hsome := hreach'.started_of_entered hp hdelivers hentry
            omega
          subst hpid
          obtain rfl := Option.some.inj (hp.symm.trans hq')
          rw [hsame] at hentry
          refine hunended (h.transitions hq hentry) ?_
          simp only [List.mem_cons, Prod.mk.injEq, List.not_mem_nil, or_false] at hends
          rcases hends with ⟨-, rfl⟩ | ⟨-, rfl⟩ | ⟨-, rfl⟩ <;> rfl
        · refine .recovered previous target hkind ?_
          revert hends htarget
          cases previous <;> cases target <;> simp
  have hunsuccessful : run.status ≠ succeeded := by
    intro hsucceeded
    have hledger := ((hreach'.inv.runs r).present run hget).ledger
    rw [hsucceeded] at hledger
    obtain ⟨previous, hmem⟩ := hledger.arrives (by simp)
    rw [htransitions, List.mem_append] at hmem
    rcases hmem with hmem | hmem
    · exact hunended hmem rfl
    · obtain ⟨_, _, -, -, hsalvages⟩ := hsalvaged _ hmem
      cases hsalvages with
      | recovered _ _ _ hends => simp at hends
  refine ⟨run, later, hget, ?_, htransitions, hsalvaged⟩
  revert hstatus hunsuccessful
  cases run.status <;> simp [RunStatus.begun]

/-- The scheduler ends the run as FAILED. -/
theorem abandoned_salvaged_expired : ∃ w w',
    Reachable Demo.runtime Demo.settings Demo.templates w ∧ ¬ w.state.db.finished 201 ∧
    Reach (system Demo.runtime Demo.settings) (fun _ _ _ => True) w w' ∧
    w'.state.db.finished 201 ∧ ∃ (j : ℕ) (p : Process), w'.procs[j]? = some p ∧
      p.kind = .schedule ∧
      .transition (some running) (some failed) ∈ entries 201 p.session.committed := by
  have h : (Demo.exec Demo.lost).any fun w =>
      (w.procs[4]?.any fun q => q.prog.point? = none ∧ 0 < startsOf 201 q.session.committed) ∧
      (w.state.db.runs.get? 201).any (fun run => run.status = running) ∧
      (some running, some failed) ∉ w.state.db.transitionsOf 201 ∧
      (w.exec (system Demo.runtime Demo.settings) Demo.salvage).any fun w' =>
        (w'.state.db.runs.get? 201).any (fun run => run.status = failed) ∧
        (some running, some failed) ∈ w'.state.db.transitionsOf 201 := by decide +kernel
  obtain ⟨w, hw, hlast⟩ := Demo.reachable h
  obtain ⟨hproc, hrun, hnot, hlater⟩ := of_decide_eq_true hlast
  obtain ⟨q, hq, hlost⟩ := (Option.any_eq_true _ _).mp hproc
  obtain ⟨hover, hstarted⟩ := of_decide_eq_true hlost
  obtain ⟨run, hget, hrunning⟩ := (Option.any_eq_true _ _).mp hrun
  obtain ⟨w', hexec, hended⟩ := (Option.any_eq_true _ _).mp hlater
  obtain ⟨hrun', hmem⟩ := of_decide_eq_true hended
  obtain ⟨run', hget', hfailed⟩ := (Option.any_eq_true _ _).mp hrun'
  have hopen : ¬ w.state.db.finished 201 := by
    rintro ⟨run₁, hget₁, hfinished⟩
    obtain rfl := Option.some.inj (hget.symm.trans hget₁)
    rw [of_decide_eq_true hrunning] at hfinished
    cases hfinished
  have hreach := Reach.refl.of_exec hexec
  obtain ⟨_, later, -, -, htransitions, hsalvaged⟩ :=
    abandoned_salvaged hw hq hover hstarted hopen hreach
  rw [htransitions] at hmem
  obtain ⟨j, p, hp, hentry, hsalvages⟩ :=
    hsalvaged _ ((List.mem_append.mp hmem).resolve_left hnot)
  refine ⟨w, w', hw, hopen, hreach, ⟨run', hget', ?_⟩, j, p, hp, ?_, hentry⟩
  · rw [of_decide_eq_true hfailed]
    rfl
  · cases hsalvages with
    | recovered _ _ hkind => exact hkind

end Runscope
