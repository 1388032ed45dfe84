import Runscope.Finishing

/-!
Every started execution is finished, if nothing gets in its way.

A run is left RUNNING or CANCELLING by its executor where the executor is not
prepared for what it meets: a store whose exception a demonstration does not
catch, or that fails a classification once there are rows to roll back; an
update that is refused because a cancellation or an edit came between; a
cancellation before the failure handler reads the run. In every run of the
system without these, the call that started a run leaves it SUCCEEDED, FAILED or
CANCELLED, and its lease released.
-/

namespace Runscope

open Transact RunStatus

variable {rt : Runtime} {settings : Settings} {templates : Table TrainingTemplate.id} {r : Uuid}
  {w w' : Cluster} {a : Action Kind Input}

/-- As long as run `r` is not finished, its executor keeps its connection and
is prepared for what its next statement meets. -/
def Unimpeded (r : Uuid) (w : Cluster) (a : Action Kind Input) (_ : Cluster) : Prop :=
  ∀ (pid : ℕ) (q : Process), w.procs[pid]? = some q → 0 < startsOf r q.session.committed →
    ¬ w.state.db.finished r → a ≠ .fault pid ∧ a ≠ .kill pid ∧
      ∀ i pt st next, a = .run pid i → q.prog = .step pt st next → Clear r pt w.state i st

/-- Workers are never deleted. -/
theorem worker_applyAll {p : Platform} {ws : List Write} {id : Uuid}
    (h : (p.db.workers.get? id).isSome) : ((storage.applyAll p ws).db.workers.get? id).isSome := by
  induction ws generalizing p with
  | nil => exact h
  | cons x ws ih =>
      refine ih ?_
      cases x with
      | insertWorker x =>
          obtain ⟨worker, hworker⟩ := Option.isSome_iff_exists.mp h
          simp [storage, Write.apply, Write.applyDb, Table.get?_insert, hworker]
      | updateWorker loaded changed =>
          simp only [storage, Write.apply, Write.applyDb, Table.get?_update]
          split
          · simpa using h
          · exact h
      | _ => exact h

theorem World.worker_step (hstep : w.step (system rt settings) a = some w') {id : Uuid}
    (h : (w.state.db.workers.get? id).isSome) : (w'.state.db.workers.get? id).isSome := by
  rcases World.commits_step hstep with ⟨pid, i, q, pt, next, -, -, -, hstate, -⟩ |
    ⟨hstate | ⟨c, i, hstate⟩, -⟩
  · rw [hstate]
    exact worker_applyAll h
  · rwa [hstate]
  · change w'.state = c.perform i w.state at hstate
    rwa [hstate, c.perform_db]

/-- A run that has not been started has no records. -/
theorem Reachable.bare (h : Reachable rt settings templates w)
    (hnew : (w.state.db.runView r).entered running = 0) : w.state.db.recordsOf r = ([], [], []) := by
  refine (h.recorded r).none fun j ws hj => ?_
  simp only [World.committed, List.getElem?_map, Option.map_eq_some_iff] at hj
  obtain ⟨q, hq, rfl⟩ := hj
  have hsum := h.tallied.started r
  rw [hnew, List.sum_eq_zero_iff] at hsum
  exact hsum _ (List.mem_map_of_mem (List.mem_of_getElem? (World.records_getElem? hq)))

/-- A session can take it that nothing has happened, as long as the run is not
finished. -/
theorem Reachable.beside_refl (h : Reachable rt settings templates w) (hopen : ¬ w.state.db.finished r)
    {j : ℕ} {q : Process} (hq : w.procs[j]? = some q) (pt : Point) :
    Beside rt q.kind r pt q.session w.state w.state :=
  ⟨h.okSole.interferes_refl hq pt, fun _ hid => hid, hopen, h.bare⟩

/-- What another session does, as long as the run is not finished. -/
theorem Reachable.beside (h : Reachable rt settings templates w)
    (hstep : w.step (system rt settings) a = some w') (hopen : ¬ w'.state.db.finished r) {j : ℕ}
    {q : Process} (hq : w.procs[j]? = some q) {pt : Point} (hpt : q.prog.point? = some pt)
    (hother : ∀ i, a ≠ .run j i) : Beside rt q.kind r pt q.session w.state w'.state where
  meanwhile := by
    have hcompat := @compatible (.sole rt) settings
    refine h.okSole.interferes hcompat hstep ?_ hq hpt hother
    exact fun pid i _ j q pt hq hj _ =>
      ⟨False.elim, False.elim, False.elim, fun _ p r hp hr => h.sole hp hq hj hr⟩
  workers _ hid := World.worker_step hstep hid
  unfinished := hopen
  bare := (h.step hstep).bare

/-- Every delivery of a message about the run is on its way to settle it. -/
theorem finishing (h : Reach (system rt settings) (Unimpeded r) (.initial (.empty templates)) w)
    (hopen : ¬ w.state.db.finished r) {j : ℕ} {q : Process} (hq : w.procs[j]? = some q)
    (hdelivers : q.kind.delivers r) :
    Finishes rt q.kind r (Settled r) q.prog q.session w.state := by
  induction h generalizing j q with
  | refl => simp [World.initial] at hq
  | @step w w' a h hstep hallowed ih =>
      have hreach : Reachable rt settings templates w := h.mono fun _ _ _ _ => trivial
      have hopen₀ : ¬ w.state.db.finished r := fun hfinished =>
        hopen (((hreach.later (.step .refl hstep trivial)).2 r).finished hfinished)
      have hbeside := @Reachable.beside rt settings templates r w w' a hreach hstep hopen
      -- what a session that does not take the step makes of it
      have hothers {j : ℕ} {q : Process} (hq : w.procs[j]? = some q) (hdelivers : q.kind.delivers r)
          (hother : ∀ i, a ≠ .run j i) : Finishes rt q.kind r (Settled r) q.prog q.session w'.state := by
        have hmeets := ih hopen₀ hq hdelivers
        cases hpt : q.prog.point? with
        | some pt => exact hmeets.stable hpt (hbeside hq hpt hother)
        | none =>
            cases hprog : q.prog with
            | step pt st next => simp [hprog] at hpt
            | ret x | raise e =>
                rw [hprog] at hmeets
                exact .inl (hmeets.resolve_right hopen₀)
      -- what an executor that loses its session has left behind
      have hgone {pid : ℕ} {p : Process} (hp : w.procs[pid]? = some p)
          (hlost : a = .fault pid ∨ a = .kill pid) : startsOf r p.session.committed = 0 := by
        by_contra hpos
        obtain ⟨hfault, hkill, -⟩ := hallowed pid p hp (by omega) hopen₀
        exact hlost.elim hfault hkill
      have hset {pid : ℕ} {p' : Process} (hset : w'.procs = w.procs.set pid p')
          (hne : ∀ j i, j ≠ pid → a ≠ .run j i)
          (hmine : p'.kind.delivers r → Finishes rt p'.kind r (Settled r) p'.prog p'.session w'.state) :
          Finishes rt q.kind r (Settled r) q.prog q.session w'.state := by
        rw [hset, List.getElem?_set] at hq
        split at hq
        · obtain rfl := Option.some.inj (Option.ite_none_right_eq_some.mp hq).2
          exact hmine hdelivers
        · next hj => exact hothers hq hdelivers fun i => hne j i (Ne.symm hj)
      rcases World.step_cases hstep with ⟨k, rfl, -, rfl⟩ |
        ⟨pid, i, p, prog, t, s, rfl, hp, hexec, rfl⟩ | ⟨pid, p, prog, rfl, hp, hfault, rfl⟩ |
        ⟨pid, p, rfl, hp, rfl⟩
      · rw [List.getElem?_append] at hq
        split at hq
        · exact hothers hq hdelivers (by simp)
        · rw [List.getElem?_singleton, Option.ite_none_right_eq_some] at hq
          obtain rfl := Option.some.inj hq.2
          obtain ⟨event, workerId, rfl, hrun⟩ := hdelivers
          exact processEvent_finishes settings hrun
      · refine hset rfl (by simp [eq_comm]) fun hdelivers => ?_
        exact (ih hopen₀ hp hdelivers).exec (fun pt _ => hreach.beside_refl hopen₀ hp pt)
          (fun pt st next hprog hpos => (hallowed pid p hp hpos hopen₀).2.2 i pt st next rfl hprog) hexec
      · refine hset rfl (by simp) fun hdelivers => ?_
        exact (ih hopen₀ hp hdelivers).fault (fun pt _ => hreach.beside_refl hopen₀ hp pt)
          (hgone hp (.inl rfl)) hfault
      · have hgone := hgone hp (.inr rfl)
        exact hset rfl (by simp) fun _ => .inl hgone

/-- The call of `execute_existing_run` is over: it has raised, or the message is
about to be entered as processed. -/
def Over (q : Process) : Prop :=
  q.prog.point? = none ∨ ∃ pt ws message next,
    q.prog = .step pt (.flush ws) next ∧ .insertProcessed message ∈ ws

/-- Where the executor meets nothing it is not prepared for, the call that has
started a run leaves it SUCCEEDED, FAILED or CANCELLED, with no lease, and the
lease its message has the token of is released. -/
theorem execution_finished
    (h : Reach (system rt settings) (Unimpeded r) (.initial (.empty templates)) w) {j : ℕ} {q : Process}
    (hq : w.procs[j]? = some q) (hstarted : 0 < startsOf r q.session.committed) (hover : Over q) :
    (∃ run, w.state.db.runs.get? r = some run ∧ run.status ∈ [succeeded, failed, cancelled]) ∧
      w.state.db.unreleased r = [] ∧
      ∃ event workerId x, q.kind = .processEvent event workerId ∧
        event.leaseToken = .ok (some x.leaseToken) ∧ x ∈ w.state.db.allocations.rows ∧
        x.runId = r ∧ x.releasedAt.isSome := by
  have hreach : Reachable rt settings templates w := h.mono fun _ _ _ _ => trivial
  have hfinished : w.state.db.finished r := by
    by_contra hopen
    have hmeets := finishing h hopen hq (hreach.delivers hq hstarted)
    rcases hover with hended | ⟨pt, ws, message, next, hprog, hmem⟩
    · cases hprog : q.prog with
      | step pt st next => simp [hprog] at hended
      | ret x | raise e =>
          rw [hprog] at hmeets
          have := hmeets.resolve_right hopen
          omega
    · rw [hprog] at hmeets
      have hneed := (hmeets w.state (hreach.beside_refl hopen hq pt)).1 ws message rfl hmem
      omega
  obtain ⟨run, hget, hstatus⟩ := hfinished
  have hinv := hreach.inv.runs r
  have hnone : w.state.db.unreleased r = [] := by
    have hactive : (w.state.db.runView r).active = [] := by
      refine (hinv.present run hget).unleased ?_
      cases hcase : run.status <;> simp_all [RunStatus.finished, RunStatus.leased]
    rwa [← unreleased_lease, List.map_eq_nil_iff] at hactive
  refine ⟨⟨run, hget, by simpa [RunStatus.finished] using hstatus⟩, hnone, ?_⟩
  obtain ⟨event, workerId, lease, hkind, -, ⟨htoken, -⟩, x, hx, heq⟩ := hreach.claims hq hstarted
  obtain ⟨y, hy, rfl⟩ := List.mem_map.mp hx
  obtain ⟨hrow, hrun⟩ := List.mem_filter.mp hy
  have hrun : y.runId = r := by simpa using hrun
  refine ⟨event, workerId, y, hkind, ?_, hrow, hrun, ?_⟩
  · rw [htoken, ← show y.lease.leaseToken = lease.leaseToken by rw [heq]]
    rfl
  · by_contra hopen
    have hmem : y ∈ w.state.db.unreleased r :=
      List.mem_filter.mpr ⟨hrow, by simpa [hrun] using hopen⟩
    rw [hnone] at hmem
    cases hmem

/-! ### A demonstration, with and without a failing store -/

namespace Demo

/-- No connection is lost and no session is killed. -/
def connected (_ : Cluster) (a : Action Kind Input) (_ : Cluster) : Bool :=
  match a with
  | .spawn _ | .run _ _ => true
  | .fault _ | .kill _ => false

/-- A demonstration is prepared for its next statement: the update it flushes
is current, and no call fails. -/
def prepared (p : Platform) (i : Input) : Program Unit → Bool
  | .step _ (.flush ws) _ => ws.all fun x =>
      match x with
      | .updateRun run => (p.db.runs.get? 201).map Run.version = some run.version ∧
          ((recordsIn (entries 201 ws)).2.2.map Artifact.name).Nodup
      | _ => true
  | .step _ (.call _) _ => i.failure = none
  | .step _ .select _ => p.db.demonstrates 201
  | _ => true

def unimpeded (w : Cluster) (a : Action Kind Input) (_ : Cluster) : Bool :=
  match a with
  | .spawn _ => true
  | .run pid i => w.procs[pid]?.all fun q =>
      startsOf 201 q.session.committed = 0 ∨ prepared w.state i q.prog
  | .fault _ | .kill _ => false

theorem clear_of_prepared {p : Platform} {i : Input} {pt : Point}
    {st : Stmt Platform RowKey Write Call}
    {next : Except Exc (Reply Platform RowKey Input) → Program Unit}
    (h : prepared p i (.step pt st next)) : Clear 201 pt p i st := by
  cases st with
  | flush ws =>
      intro run hmem _
      have hall := List.all_eq_true.mp h _ hmem
      exact of_decide_eq_true hall
  | call c =>
      have hnone : i.failure = none := of_decide_eq_true h
      cases c with
      | put key data => exact .inl hnone
      | publish | execute | pause => trivial
  | select =>
      intro hnot
      rw [show p.db.demonstrates 201 = true from h] at hnot
      cases hnot
  | lock | commit | rollback => trivial

theorem unimpeded_sound (h : unimpeded w a w') : Unimpeded 201 w a w' := by
  intro pid q hq hpos _
  cases a with
  | spawn k => exact ⟨by simp, by simp, by simp⟩
  | run pid' i =>
      refine ⟨by simp, by simp, fun i' pt st next ha hprog => ?_⟩
      obtain ⟨rfl, rfl⟩ : pid' = pid ∧ i = i' := by simpa using ha
      simp only [unimpeded, hq, Option.all_some, decide_eq_true_eq] at h
      have hprepared := h.resolve_left (by omega)
      rw [hprog] at hprepared
      exact clear_of_prepared hprepared
  | fault | kill => cases h

end Demo

/-- The store raises what a demonstration does not catch: the call is over and
its run is still RUNNING, with its lease. -/
theorem execution_abandoned : ∃ (w : Cluster) (q : Process),
    Reach (system Demo.runtime Demo.settings) (fun _ a _ => ∀ pid, a ≠ .fault pid ∧ a ≠ .kill pid)
      (.initial (.empty Demo.templates)) w ∧
    w.procs[4]? = some q ∧ 0 < startsOf 201 q.session.committed ∧ Over q ∧
    (∃ run, w.state.db.runs.get? 201 = some run ∧ run.status = running) ∧
    w.state.db.unreleased 201 ≠ [] := by
  have h : ((World.initial (.empty Demo.templates)).execIf (system Demo.runtime Demo.settings)
      Demo.connected (Demo.delivered Demo.slow 35 ++
        [.run 4 { Demo.input 535 with failure := some (.other "OSError") }])).any fun w =>
      (w.procs[4]?.any fun q => 0 < startsOf 201 q.session.committed ∧ q.prog.point? = none) ∧
      (w.state.db.runs.get? 201).any (fun run => run.status = running) ∧
      w.state.db.unreleased 201 ≠ [] := by decide +kernel
  obtain ⟨w, hw, hcheck⟩ := (Option.any_eq_true _ _).mp h
  obtain ⟨hproc, hrun, hleased⟩ := of_decide_eq_true hcheck
  obtain ⟨q, hq, hcall⟩ := (Option.any_eq_true _ _).mp hproc
  obtain ⟨hstarted, hended⟩ := of_decide_eq_true hcall
  obtain ⟨run, hget, hstatus⟩ := (Option.any_eq_true _ _).mp hrun
  refine ⟨w, q, .of_execIf (fun w a w' ha => ?_) .refl hw, hq, hstarted, .inl hended,
    ⟨run, hget, of_decide_eq_true hstatus⟩, hleased⟩
  cases a with
  | spawn | run => simp
  | fault | kill => cases ha

theorem execution_finished_demonstrated : ∃ w : Cluster,
    (∃ run, w.state.db.runs.get? 201 = some run ∧ run.status ∈ [succeeded, failed, cancelled]) ∧
    w.state.db.unreleased 201 = [] := by
  have h : ((World.initial (.empty Demo.templates)).execIf (system Demo.runtime Demo.settings)
      Demo.unimpeded (Demo.delivered Demo.slow 48)).any fun w =>
      w.procs[4]?.any fun q => 0 < startsOf 201 q.session.committed ∧ q.prog.point? = none := by
    decide +kernel
  obtain ⟨w, hw, hproc⟩ := (Option.any_eq_true _ _).mp h
  obtain ⟨q, hq, hcall⟩ := (Option.any_eq_true _ _).mp hproc
  obtain ⟨hstarted, hended⟩ := of_decide_eq_true hcall
  obtain ⟨hrun, hnone, -⟩ := execution_finished
    (.of_execIf (fun _ _ _ => Demo.unimpeded_sound) .refl hw) hq hstarted (.inl hended)
  exact ⟨w, hrun, hnone⟩

end Runscope
