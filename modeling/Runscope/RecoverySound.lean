import Runscope.EndingSound
import Runscope.Pass

/-!
The recovery of expired leases, round by round. The leases to be recovered
are locked, so each of them is still the lease of its run when its turn comes;
the workers marked stale are locked, so the scheduler's copies of them stay
true.
-/

namespace Runscope

open Transact RunStatus

variable {m : Mode} {κ : Kind} {t : Session} {p : Platform}

/-! ### What becomes of the run -/

/-- The run goes back to the queue. -/
theorem requeue_step {v : RunView} {loaded : Run} {lease : Lease} {event : RunEvent} {now time : Time}
    {a : ResourceAllocation} (hrow : v.run = some loaded) (hqueued : loaded.queuedAt.isSome)
    (hstatus : loaded.status = scheduling) (hlease : v.active = [lease])
    (hevent : event.runId = loaded.id ∧ event.previousStatus = some scheduling ∧
      event.newStatus = some queued) (ha : a.lease = lease) (haRun : a.runId = loaded.id) :
    RunStep (.requeue lease) v (onRun loaded.id
      ([.updateRun { loaded.transitioned queued now with assignedWorkerId := none },
        .insertEvent event] ++ [.releaseAllocation a time]) v) := by
  obtain ⟨hevent, hprevious, hnew⟩ := hevent
  have haId : a.id = lease.id := by rw [← ha]; rfl
  have hstep := RunStep.requeue v loaded lease time (loaded.version + 1) hrow hstatus (by omega) hlease
  have hkeep : loaded.queuedAt ≠ none := by
    intro hnone
    simp [hnone] at hqueued
  simpa [Write.onRun, hrow, hevent, hprevious, hnew, haRun, haId, Run.stored, Run.transitioned,
    hkeep] using hstep

/-- The outcome of `recoverRun`: an update that, with the release of the lease
to follow, is a step of the scheduler. -/
structure Recovered (v : RunView) (run : Run) (lease : Lease) (changed : Run) (event : RunEvent) :
    Prop where
  id : changed.id = run.id
  version : changed.version = run.version
  eventRun : event.runId = run.id
  step : ∀ (a : ResourceAllocation) (time : Time) (i : Input), a.lease = lease → a.runId = run.id →
    Lives (Kind.schedule.allows run.id) v (onRun run.id ([.updateRun changed, .insertEvent
      { event with createdAt := i.clock }] ++ [.releaseAllocation a time]) v)

theorem recoverRun_holds {Q : Outcome (List Write)} {v : RunView} {run : Run} {lease : Lease}
    {allocation : ResourceAllocation} (hf : Fails m Q p) (hI : Invariant m p)
    (hloaded : Loaded v run p) (hlease : v.active = [lease])
    (hQ : ∀ p' t' changed event, Idle t t' → Meanwhile m κ {} t p p' →
      Recovered v run lease changed event →
      Q (.ok [.updateRun changed, .insertEvent event]) t' p') :
    Holds m κ Q (recoverRun allocation run) t p := by
  have hcoherent := hloaded.inv.present run hloaded.row
  have hleased : run.status.leased := by
    by_contra hnot
    have := hcoherent.unleased (by simpa using hnot)
    simp [hlease] at this
  -- a lease lost during the execution ends the run
  have hend (changed : Run) (target : RunStatus) (metadata : Record) (hchanged : changed = { run with
        failureCode := changed.failureCode, failureMessage := changed.failureMessage })
      (htarget : target ∈ [failed, cancelled])
      (hfailure : (changed.failureCode.isSome ↔ target = failed) ∧
        (changed.failureMessage.isSome ↔ target = failed)) (eventType : String) :
      Holds m κ Q (transitionRun {} changed target eventType metadata >>= fun x =>
        .ret [.updateRun x.1, .insertEvent x.2]) t p := by
    have hfinished : target.finished := by
      simp only [List.mem_cons, List.not_mem_nil, or_false] at htarget
      rcases htarget with rfl | rfl <;> rfl
    have hid : changed.id = run.id := by rw [hchanged]
    have hstatus : changed.status = run.status := by rw [hchanged]
    refine .transitionRun hf hI fun p' t' now ht' hp' hvalid => ?_
    generalize hended : changed.transitioned target now = ended
    rw [transitioned_of_finished hfinished] at hended
    have hendedEq : ended = { run with
        status := target, completedAt := some now, failureCode := ended.failureCode
        failureMessage := ended.failureMessage } := by
      rw [← hended, hchanged]
    have hendedId : ended.id = run.id := by rw [hendedEq]
    refine hQ p' t' _ _ ht' hp' ⟨hendedId, by rw [hendedEq], hid, fun a time i ha haRun => ?_⟩
    have hending : RunEnding .schedule v run ended target lease []
        { changed.transitionEvent target eventType metadata with createdAt := i.clock } a := by
      refine ⟨hloaded.row, hlease, ending_status hfinished (hstatus ▸ hvalid), ⟨now, hendedEq⟩, ?_, ?_,
        by simp, hid, congrArg some hstatus, rfl, ha, haRun, htarget⟩
      · rw [← hended]
        exact hfailure.1
      · rw [← hended]
        exact hfailure.2
    exact .single (.finish target lease) htarget (hending.step time)
  have hfailure (target : RunStatus) (h : run.status ≠ failed) (htarget : target ≠ failed) :
      (run.failureCode.isSome ↔ target = failed) ∧ (run.failureMessage.isSome ↔ target = failed) := by
    rw [hcoherent.failureCode, hcoherent.failureMessage]
    simp [h, htarget]
  rw [recoverRun]
  cases hstatus : run.status with
  | scheduling =>
      refine .transitionRun hf hI fun p' t' now ht' hp' _ => hQ p' t' _ _ ht' hp'
        ⟨rfl, rfl, rfl, fun a time i ha haRun => ?_⟩
      exact .single (.requeue lease) trivial (requeue_step hloaded.row hcoherent.queuedAt hstatus
        hlease ⟨rfl, congrArg some hstatus, rfl⟩ ha haRun)
  | running => exact hend (run.withFailure _ _) failed _ rfl (by simp) (by simp [Run.withFailure]) _
  | cancelling =>
      exact hend run cancelled _ rfl (by simp) (hfailure cancelled (by simp [hstatus]) (by simp)) _
  | draft | queued | succeeded | failed | cancelled | retrying =>
      simp [hstatus, RunStatus.leased] at hleased

/-! ### What a round builds on -/

/-- A lease that this session has locked and has not touched yet. -/
structure Expired (t : Session) (p : Platform) (a : ResourceAllocation) : Prop where
  locked : RowKey.allocation a.id ∈ t.locks
  stored : p.db.allocations.get? a.id = some a
  active : a.active
  untouched : ∀ w ∈ t.writes, w.run? ≠ some a.runId

namespace Expired

variable {pt : Point} {t' : Session} {p' : Platform} {a : ResourceAllocation}

theorem stable (h : Expired t p a) (hp' : Meanwhile m κ pt t p p') : Expired t p' a :=
  { h with stored := (hp'.locked (.allocation a.id) h.locked).symm.trans h.stored }

theorem read (h : Expired t p a) (hlocks : ∀ r ∈ t.locks, r ∈ t'.locks)
    (hwrites : ∀ w ∈ t'.writes, w ∈ t.writes ∨ w.run? ≠ some a.runId) : Expired t' p a :=
  { h with
    locked := hlocks _ h.locked
    untouched := fun w hw => (hwrites w hw).elim (h.untouched w) id }

theorem mem_active (h : Expired t p a) : a.lease ∈ (p.db.runView a.runId).active := by
  rw [active_runView]
  refine List.mem_map.mpr ⟨a, ?_, rfl⟩
  simp [Db.activeAllocations, Table.mem_of_get? h.stored, h.active]

/-- So its run exists, and this is its one lease. -/
theorem run (h : Expired t p a) (hI : Invariant m p) :
    ∃ run, p.db.runs.get? a.runId = some run ∧ (p.db.runView a.runId).active = [a.lease] := by
  have hmem := h.mem_active
  cases hget : p.db.runs.get? a.runId with
  | none =>
      rw [(hI.runs a.runId).absent hget] at hmem
      simp [RunView.absent, RunView.active] at hmem
  | some run =>
      have hcoherent := (hI.runs a.runId).present run hget
      have hleased : run.status.leased := by
        by_contra hnot
        rw [hcoherent.unleased hnot] at hmem
        simp at hmem
      obtain ⟨lease, hlease, -⟩ := hcoherent.leased hleased
      rw [hlease, List.mem_singleton] at hmem
      exact ⟨run, rfl, hmem ▸ hlease⟩

end Expired

/-- The scheduler's copies of workers are true and stay so. -/
def Keeps (m : Mode) (t : Session) (p : Platform) (pending : List Write) (loaded : List Worker) :
    Prop :=
  ∀ w ∈ loaded, RowKey.worker w.id ∈ t.locks ∧
    (m.accounting → (onWorker w.id (t.writes ++ pending) (p.db.workerView w.id)).row = some w)

namespace Keeps

variable {pt : Point} {t' : Session} {p' : Platform} {pending : List Write} {loaded : List Worker}

theorem stable (h : Keeps m t p pending loaded) (hp' : Meanwhile m κ pt t p p') :
    Keeps m t p' pending loaded := by
  intro w hw
  obtain ⟨hlock, hrow⟩ := h w hw
  refine ⟨hlock, fun hm => ?_⟩
  rw [hp'.rely.locked hm w.id hlock]
  exact hrow hm

theorem read (h : Keeps m t p pending loaded) (hlocks : ∀ r ∈ t.locks, r ∈ t'.locks)
    (hwrites : t'.writes = t.writes) : Keeps m t' p pending loaded := by
  intro w hw
  obtain ⟨hlock, hrow⟩ := h w hw
  exact ⟨hlocks _ hlock, by rwa [hwrites]⟩

theorem flush (h : Keeps m t p pending loaded) (i : Input) :
    Keeps m ((t.begin i).write storage (t.stamped storage i pending)) p [] loaded := by
  intro w hw
  obtain ⟨hlock, hrow⟩ := h w hw
  refine ⟨by simp [hlock], fun hm => ?_⟩
  have hstamp (v : WorkerView) : onWorker w.id (t.stamped storage i pending) v =
      onWorker w.id pending v := onWorker_stamp _ w.id pending v
  rw [List.append_nil, Session.write_writes, Session.begin_writes, onWorker_append, hstamp,
    ← onWorker_append]
  exact hrow hm

end Keeps

/-! ### One round -/

/-- One round, from session `t` to `t'`: the run of the lease `a` was changed,
the lease released, and the update of its worker is pending. -/
structure Round (m : Mode) (t t' : Session) (p p' : Platform) (run changed : Run) (event : RunEvent)
    (a : ResourceAllocation) (now : Time) (loaded loaded' : List Worker) (pending : List Write) :
    Prop where
  pass : Pass m WorkerView.Shrinks {} t p []
  untouched : ∀ w ∈ t.writes, w.run? ≠ some run.id
  allocation : a.runId = run.id
  active : (p'.db.runView run.id).active = [a.lease]
  changedId : changed.id = run.id
  eventRun : event.runId = run.id
  lives : Lives (Kind.schedule.allows run.id) (p'.db.runView run.id) (onRun run.id
    ([.updateRun changed, .insertEvent event] ++ [.releaseAllocation a now]) (p'.db.runView run.id))
  flushed : Flushed m .schedule {} t t' p p'
    ([.updateRun changed, .insertEvent event] ++ [.releaseAllocation a now])
  recounted : Recounted m (onWorker a.workerId t'.writes (p'.db.workerView a.workerId)) a.workerId
    loaded loaded' pending

namespace Round

variable {t' : Session} {p' : Platform} {run changed : Run} {event : RunEvent}
  {a : ResourceAllocation} {now : Time} {loaded loaded' : List Worker} {pending : List Write}

/-- The writes of the round. -/
theorem writes (h : Round m t t' p p' run changed event a now loaded loaded' pending) :
    t'.writes ++ pending = t.writes ++
      ([.updateRun changed, .insertEvent event, .releaseAllocation a now] ++ pending) := by
  rw [h.flushed.writes]
  simp

/-- They concern one run and one worker. -/
theorem mem_cases (h : Round m t t' p p' run changed event a now loaded loaded' pending) {w : Write}
    (hw : w ∈ [.updateRun changed, .insertEvent event, .releaseAllocation a now] ++ pending) :
    (w.run? = none ∨ w.run? = some run.id) ∧ (w.worker? = none ∨ w.worker? = some a.workerId) ∧
      w.records? = none ∧ w.founds = false ∧ ∀ x, w ≠ .insertOutbox x := by
  have hupkeep := h.recounted.upkeep
  simp only [List.mem_append, List.mem_cons, List.not_mem_nil, or_false] at hw
  rcases hw with (rfl | rfl | rfl) | hw
  · exact ⟨.inr (congrArg some h.changedId), .inl rfl, rfl, rfl, by simp⟩
  · refine ⟨?_, .inl rfl, rfl, rfl, by simp⟩
    simp only [Write.run?, h.eventRun]
    split <;> simp
  · exact ⟨.inr (congrArg some h.allocation), .inr rfl, rfl, rfl, by simp⟩
  · have hinert := Write.upkeep_inert (hupkeep w hw).1
    exact ⟨.inl hinert.1, .inr (hupkeep w hw).2, hinert.2.1, Write.upkeep_founds (hupkeep w hw).1,
      hinert.2.2.2.1⟩

theorem run?_ne (h : Round m t t' p p' run changed event a now loaded loaded' pending) {r : Uuid}
    (hr : r ≠ run.id) : ∀ w ∈ [.updateRun changed, .insertEvent event, .releaseAllocation a now] ++
      pending, w.run? ≠ some r := by
  intro w hw
  rcases (h.mem_cases hw).1 with h | h <;> simp [h, Ne.symm hr]

theorem worker?_ne (h : Round m t t' p p' run changed event a now loaded loaded' pending) {id : Uuid}
    (hid : id ≠ a.workerId) : ∀ w ∈ [.updateRun changed, .insertEvent event,
      .releaseAllocation a now] ++ pending, w.worker? ≠ some id := by
  intro w hw
  rcases (h.mem_cases hw).2.1 with h | h <;> simp [h, Ne.symm hid]

/-- The worker before the round, as the session saw it. -/
theorem seen (h : Round m t t' p p' run changed event a now loaded loaded' pending)
    (hm : m.accounting) :
    (onWorker a.workerId t.writes (p'.db.workerView a.workerId)).Balanced ∧
      a.lease ∈ (onWorker a.workerId t.writes (p'.db.workerView a.workerId)).leases ∧
      (p'.db.workerView a.workerId).Shrinks
        (onWorker a.workerId t.writes (p'.db.workerView a.workerId)) := by
  have hbefore := h.pass.stable h.flushed.meanwhile
  have hbalanced := hbefore.balanced h.flushed.inv hm a.workerId
  have hworkers := hbefore.workers hm a.workerId
  rw [List.append_nil] at hbalanced hworkers
  refine ⟨hbalanced, ?_, ?_⟩
  · have hacc := h.flushed.meanwhile.accepted
    rw [← workerView_applyAll hacc]
    refine @mem_workerView_of_active _ run.id _ ?_
    rw [runView_applyAll hacc, onRun_of_forall_ne h.untouched, h.active]
    exact List.mem_singleton_self _
  · rcases hworkers with hne | ⟨-, -, hshrinks⟩
    · rw [onWorker_of_forall_ne hne]
      exact .refl _
    · exact hshrinks

/-- The worker after the round. -/
theorem recount (h : Round m t t' p p' run changed event a now loaded loaded' pending)
    (hm : m.accounting) : ∃ (worker : Worker) (leases : List Lease), worker.id = a.workerId ∧
      updatedWorker pending = some a.workerId ∧
      loaded' = loaded.map (fun w => if w.id = a.workerId then worker.withLeases leases else w) ∧
      onWorker a.workerId (t'.writes ++ pending) (p'.db.workerView a.workerId) =
        ⟨some (worker.withLeases leases), leases⟩ ∧
      (p'.db.workerView a.workerId).Shrinks ⟨some (worker.withLeases leases), leases⟩ := by
  obtain ⟨hbalanced, hmem, hshrinks⟩ := h.seen hm
  have hsplit (after : List Write) : onWorker a.workerId (t'.writes ++ after)
      (p'.db.workerView a.workerId) = onWorker a.workerId ([.releaseAllocation a now] ++ after)
      (onWorker a.workerId t.writes (p'.db.workerView a.workerId)) := by
    rw [h.flushed.writes]
    simp [Write.onWorker]
  have hreleased := hsplit []
  rw [List.append_nil, List.append_nil] at hreleased
  have hrec := h.recounted
  rw [hreleased] at hrec
  obtain ⟨worker, hrow, hworker, hloaded, hpending⟩ := hrec.pending_eq hm hbalanced hmem
  have hafter := onWorker_recounted hrow hworker now
  refine ⟨worker, _, hworker, ?_, hloaded, ?_, hshrinks.trans (shrinks_recounted hrow)⟩
  · rw [hpending]
    exact congrArg some hworker
  · rw [hsplit, hpending, List.singleton_append, hafter]

/-- The pass goes on. -/
theorem pass_after (h : Round m t t' p p' run changed event a now loaded loaded' pending) :
    Pass m WorkerView.Shrinks { worker := updatedWorker pending } t' p' pending := by
  have hbefore := h.pass.stable h.flushed.meanwhile
  have hold {w : Write} (hw : w ∈ t.writes) : w ∈ t.writes ++ [] := by simpa using hw
  have hmem (w : Write) (hw : w ∈ t'.writes ++ pending) : w ∈ t.writes ∨
      w ∈ [.updateRun changed, .insertEvent event, .releaseAllocation a now] ++ pending := by
    rw [h.writes] at hw
    exact List.mem_append.mp hw
  constructor
  · intro w hw
    rcases hmem w hw with hw | hw
    · exact h.pass.plain w (hold hw)
    · exact ⟨(h.mem_cases hw).2.2.1, (h.mem_cases hw).2.2.2.1⟩
  · intro x hx
    rcases hmem _ hx with hx | hx
    · exact h.pass.addressed x (hold hx)
    · exact absurd rfl ((h.mem_cases hx).2.2.2.2 x)
  · intro r
    by_cases hr : r = run.id
    · subst hr
      refine .inr ⟨?_, ?_⟩
      · refine h.flushed.owned (.updateRun changed) (by simp) _ ?_
        simp [Write.rowsOf, h.changedId]
      · have hskip (v : RunView) : onRun run.id pending v = v := onRun_of_forall_ne (fun w hw => by
          simp [(Write.upkeep_inert (h.recounted.upkeep w hw).1).1]) v
        rw [onRun_append, hskip, h.flushed.writes, onRun_append, onRun_of_forall_ne h.untouched]
        exact h.lives
    · refine (hbefore.runs r).imp (fun hne w hw => ?_)
        (And.imp (h.flushed.locks _) fun hlives => ?_)
      · exact (hmem w hw).elim (fun hw => hne w (hold hw)) (h.run?_ne hr w)
      · rw [h.writes, onRun_append, onRun_of_forall_ne (h.run?_ne hr)]
        simpa using hlives
  · intro hm id
    by_cases hid : id = a.workerId
    · subst hid
      obtain ⟨worker, leases, -, hupdated, -, hview, hshrinks⟩ := h.recount hm
      rw [hview]
      exact .inr ⟨.inr ⟨hupdated, hupdated, h.flushed.began (by simp)⟩, balanced_withLeases _ _,
        hshrinks⟩
    · refine (hbefore.workers hm id).imp (fun hne w hw => ?_)
        (And.imp (fun hkept => .inl ?_) fun hok => ?_)
      · exact (hmem w hw).elim (fun hw => hne w (hold hw)) (h.worker?_ne hid w)
      · rcases hkept with hlock | ⟨-, hupdated, -⟩
        · exact h.flushed.locks _ hlock
        · cases hupdated
      · rw [h.writes, onWorker_append, onWorker_of_forall_ne (h.worker?_ne hid)]
        simpa using hok

/-- The scheduler's copies stay true. -/
theorem keeps (h : Round m t t' p p' run changed event a now loaded loaded' pending)
    (hkeeps : Keeps m t p [] loaded) : Keeps m t' p' pending loaded' := by
  have hbefore := hkeeps.stable h.flushed.meanwhile
  have hlock : ∀ w ∈ loaded', RowKey.worker w.id ∈ t'.locks := by
    have hlock (w : Worker) (hw : w ∈ loaded) := h.flushed.locks _ (hkeeps w hw).1
    cases h.recounted with
    | missing => exact hlock
    | found worker hid =>
        intro w' hw'
        obtain ⟨w, hw, rfl⟩ := List.mem_map.mp hw'
        split
        · next heq =>
          have := hlock w hw
          rwa [heq, ← hid] at this
        · exact hlock w hw
  refine fun w' hw' => ⟨hlock w' hw', fun hm => ?_⟩
  obtain ⟨worker, leases, hid, -, rfl, hview, -⟩ := h.recount hm
  obtain ⟨w, hw, rfl⟩ := List.mem_map.mp hw'
  split
  · rw [show (worker.withLeases leases).id = a.workerId from hid, hview]
  · next hne =>
    rw [h.writes, onWorker_append, onWorker_of_forall_ne (h.worker?_ne hne), ← List.append_nil t.writes]
    exact (hbefore w hw).2 hm

/-- The other leases wait. -/
theorem expired (h : Round m t t' p p' run changed event a now loaded loaded' pending)
    {b : ResourceAllocation} (hb : Expired t p b) (hne : b.runId ≠ a.runId) : Expired t' p' b := by
  refine (hb.stable h.flushed.meanwhile).read h.flushed.locks fun w hw => ?_
  rw [h.flushed.writes, List.mem_append] at hw
  refine hw.imp_right fun hw => h.run?_ne (h.allocation ▸ hne) w ?_
  simp only [List.mem_append, List.mem_cons, List.not_mem_nil, or_false] at hw ⊢
  tauto

end Round

/-- The release that ends a round. -/
theorem releaseRound_holds {Q : Outcome (Option ResourceAllocation × List Worker × List Write)}
    {v : RunView} {run changed : Run} {event : RunEvent} {lease : Lease} {loaded : List Worker}
    (hf : Fails m Q p) (hpass : Pass m WorkerView.Shrinks {} t p [])
    (huntouched : ∀ w ∈ t.writes, w.run? ≠ some run.id) (hkeeps : Keeps m t p [] loaded)
    (hloaded : Loaded v run p) (hlease : v.active = [lease])
    (hchanged : Recovered v run lease changed event)
    (hQ : ∀ p' t' event a now loaded' pending',
      Round m t t' p p' run changed event a now loaded loaded' pending' →
      Q (.ok (some { a with releasedAt := some now }, loaded', pending')) t' p') :
    Holds m .schedule Q (releaseAllocation run.id [.updateRun changed, .insertEvent event] loaded)
      t p := by
  have hcurrent (p' : Platform) (hp' : Later p p') (ws : List Write)
      (hacc : storage.firstError p' (t.writes ++ .updateRun changed :: ws) = none) :
      p'.db.runView run.id = v :=
    (hloaded.later hp').of_accepted t.writes ws hacc huntouched hchanged.id hchanged.version
  have hone (p' : Platform) (i : Input) (ws : List Write) (hws : ws = t.writes ++
      [.updateRun changed, .insertEvent event].map (Write.stamp i)) (hp' : Meanwhile m .schedule {} t p p')
      (hacc : storage.firstError p' ws = none) :
      (onRun run.id ws (p'.db.runView run.id)).active = [lease] := by
    subst hws
    rw [onRun_append, onRun_of_forall_ne huntouched, hcurrent p' (.of_meanwhile hp') _ hacc, ← hlease]
    simp only [List.map_cons, List.map_nil, onRun_cons, onRun_nil, Write.stamp, Write.onRun]
    split_ifs <;> rfl
  refine releaseAllocation_holds hf (by simp) hone ?_ fun p' i t' a now loaded' pending' h ha haRun hrec =>
    hQ p' t' { event with createdAt := i.clock } a now loaded' pending' ⟨hpass, huntouched, haRun, ?_,
      hchanged.id, hchanged.eventRun, ?_, h, hrec⟩
  · rintro p' i ws rfl hp' - hm w hw
    have hrow := ((hkeeps.stable hp') w hw).2 hm
    rw [List.append_nil] at hrow
    rw [onWorker_append]
    exact hrow
  · rw [hcurrent p' h.later _ h.accepted, hlease, ha]
  · rw [hcurrent p' h.later _ h.accepted]
    exact hchanged.step a now i ha haRun

/-! ### The loop -/

theorem Expired.flush {a : ResourceAllocation} {pending : List Write} (h : Expired t p a)
    (hupkeep : ∀ w ∈ pending, w.upkeep) (i : Input) :
    Expired ((t.begin i).write storage (t.stamped storage i pending)) p a := by
  refine h.read (fun _ hr => List.mem_append_right _ hr) fun w hw => ?_
  refine (List.mem_append.mp hw).imp_right fun hw => ?_
  obtain ⟨w', hw', rfl⟩ := List.mem_map.mp hw
  simp [storage, (Write.upkeep_inert (hupkeep w' hw')).1]

theorem recoverAllocations_holds {Q : Outcome (List Worker × List Write)} {loaded : List Worker}
    {pending : List Write} {allocations : List ResourceAllocation} (hf : Fails m Q p)
    (hI : Invariant m p)
    (hpass : Pass m WorkerView.Shrinks { worker := updatedWorker pending } t p pending)
    (hupkeep : ∀ w ∈ pending, w.upkeep) (hkeeps : Keeps m t p pending loaded)
    (hexpired : ∀ a ∈ allocations, Expired t p a)
    (hapart : allocations.Pairwise fun a b => a.runId ≠ b.runId)
    (hQ : ∀ p' t' loaded' pending', Invariant m p' → Later p p' →
      Pass m WorkerView.Shrinks { worker := updatedWorker pending' } t' p' pending' →
      (∀ w ∈ pending', w.upkeep) → Keeps m t' p' pending' loaded' →
      Q (.ok (loaded', pending')) t' p') :
    Holds m .schedule Q (recoverAllocations loaded pending allocations) t p := by
  induction allocations generalizing Q t p loaded pending with
  | nil => exact hQ p t loaded pending hI (.refl p) hpass hupkeep hkeeps
  | cons a rest ih =>
      refine .flush' hf (upkeep_not_insertAllocation hupkeep) fun p₁ i₁ hp₁ _ => ?_
      have hlater₁ : Later p p₁ := .of_meanwhile hp₁
      have hpass₁ := (hpass.stable hp₁).flush i₁
      have hkeeps₁ := (hkeeps.stable hp₁).flush i₁
      have hexpired₁ (b : ResourceAllocation) (hb : b ∈ a :: rest) :=
        ((hexpired b hb).stable hp₁).flush hupkeep i₁
      generalize (t.begin i₁).write storage (t.stamped storage i₁ pending) = t₁ at *
      refine .getRun (hf.later hlater₁) fun p₂ i₂ hp₂ => ?_
      have hlater₂ := hlater₁.trans (.of_meanwhile hp₂)
      have ha := (hexpired₁ a (by simp)).stable hp₂
      obtain ⟨run, hget, hactive⟩ := ha.run hp₂.inv
      have hsame : (t₁.view storage p₂).db.runs.get? a.runId = p₂.db.runs.get? a.runId := by
        have hview : (t₁.view storage p₂).db.runView a.runId =
            onRun a.runId t₁.writes (p₂.db.runView a.runId) := runView_applyAll hp₂.accepted a.runId
        rw [onRun_of_forall_ne ha.untouched] at hview
        exact congrArg RunView.run hview
      rw [hsame, hget]
      have hrun : run.id = a.runId := Table.key_of_get? hget
      rw [← hrun] at hactive
      have hpass₂ := (hpass₁.stable hp₂).begin i₂
      have hkeeps₂ : Keeps m (t₁.begin i₂) p₂ [] loaded :=
        (hkeeps₁.stable hp₂).read (fun _ hr => hr) (Session.begin_writes t₁ i₂)
      have hexpired₂ (b : ResourceAllocation) (hb : b ∈ a :: rest) : Expired (t₁.begin i₂) p₂ b :=
        ((hexpired₁ b hb).stable hp₂).read (fun _ hr => hr) fun w hw => .inl hw
      generalize t₁.begin i₂ = t₂ at *
      refine .bind (recoverRun_holds (hf.later hlater₂).then hp₂.inv (.of_get hp₂.inv hget) hactive
        fun p₃ t₃ changed event ht₃ hp₃ hchanged => ?_)
      have hlater₃ := hlater₂.trans (.of_meanwhile hp₃)
      have hkeep (r : RowKey) (hr : r ∈ t₂.locks) : r ∈ t₃.locks := ht₃.locks.symm ▸ hr
      have hexpired₃ (b : ResourceAllocation) (hb : b ∈ a :: rest) : Expired t₃ p₃ b :=
        ((hexpired₂ b hb).stable hp₃).read hkeep fun w hw => .inl (ht₃.writes ▸ hw)
      rw [← hrun]
      refine .bind (releaseRound_holds (hf.later hlater₃).then ((hpass₂.stable hp₃).idle ht₃)
        (hrun ▸ (hexpired₃ a (by simp)).untouched) ((hkeeps₂.stable hp₃).read hkeep ht₃.writes)
        ((Loaded.of_get hp₂.inv hget).later (.of_meanwhile hp₃)) hactive hchanged
        fun p₄ t₄ event b now loaded' pending' hround => ?_)
      have hlater₄ := hlater₃.trans hround.flushed.later
      have hne (c : ResourceAllocation) (hc : c ∈ rest) : c.runId ≠ b.runId := by
        rw [hround.allocation, hrun]
        exact ((List.pairwise_cons.mp hapart).1 c hc).symm
      exact ih (hf.later hlater₄) hround.flushed.inv hround.pass_after
        (fun w hw => (hround.recounted.upkeep w hw).1) (hround.keeps ((hkeeps₂.stable hp₃).read hkeep
          ht₃.writes))
        (fun c hc => hround.expired (hexpired₃ c (by simp [hc])) (hne c hc))
        (List.pairwise_cons.mp hapart).2 fun p' t' loaded' pending' hI' hp' =>
          hQ p' t' loaded' pending' hI' (hlater₄.trans hp')

/-! ### The refreshed workers -/

/-- Counting the leases of a stale worker again changes nothing, where
capacity is accounted for. -/
theorem refreshWorkers_holds {Q : Outcome (List Write)} {pending : List Write} {loaded : List Worker}
    (hf : Fails m Q p) (hI : Invariant m p)
    (hpass : Pass m WorkerView.Shrinks { worker := updatedWorker pending } t p pending)
    (hupkeep : ∀ w ∈ pending, w.upkeep) (hkeeps : Keeps m t p pending loaded)
    (hQ : ∀ p' t' pending', Invariant m p' → Later p p' →
      Pass m WorkerView.Shrinks { worker := updatedWorker pending' } t' p' pending' →
      (∀ w ∈ pending', w.upkeep) → Q (.ok pending') t' p') :
    Holds m .schedule Q (refreshWorkers pending loaded) t p := by
  induction loaded generalizing Q t p pending with
  | nil => exact hQ p t pending hI (.refl p) hpass hupkeep
  | cons worker rest ih =>
      refine .flush' hf (upkeep_not_insertAllocation hupkeep) fun p₁ i₁ hp₁ _ => ?_
      have hlater₁ : Later p p₁ := .of_meanwhile hp₁
      have hpass₁ := (hpass.stable hp₁).flush i₁
      have hkeeps₁ := (hkeeps.stable hp₁).flush i₁
      generalize (t.begin i₁).write storage (t.stamped storage i₁ pending) = t₁ at *
      refine .refreshWorkerCapacity (hf.later hlater₁) fun p₂ i₂ hp₂ => ?_
      have hlater₂ := hlater₁.trans (.of_meanwhile hp₂)
      have hpass₂ := (hpass₁.stable hp₂).begin i₂
      have hkeeps₂ : Keeps m (t₁.begin i₂) p₂ [] (worker :: rest) :=
        (hkeeps₁.stable hp₂).read (fun _ hr => hr) (Session.begin_writes t₁ i₂)
      have hnone (hm : m.accounting) : workerUpdate worker (worker.withLeases
          (onWorker worker.id t₁.writes (p₂.db.workerView worker.id)).leases) = [] := by
        have hbalanced := hpass₂.balanced hp₂.inv hm worker.id
        have hrow := (hkeeps₂ worker (by simp)).2 hm
        rw [List.append_nil, Session.begin_writes] at hbalanced hrow
        rw [workerUpdate, if_pos (hbalanced.counted worker hrow)]
      have hupdate := upkeep_workerUpdate worker (worker.withLeases
        (onWorker worker.id t₁.writes (p₂.db.workerView worker.id)).leases)
      generalize workerUpdate worker (worker.withLeases _) = update at *
      refine ih (hf.later hlater₂) hp₂.inv (hpass₂.addUpkeep (fun w hw => (hupdate w hw).1) fun hm => ?_)
        (fun w hw => (hupdate w hw).1) (fun w hw => ?_) fun p' t' pending' hI' hp' =>
          hQ p' t' pending' hI' (hlater₂.trans hp')
      · rw [hnone hm]
        exact hpass₂.workers hm
      obtain ⟨hlock, hrow⟩ := hkeeps₂ w (by simp [hw])
      exact ⟨hlock, fun hm => by rw [hnone hm]; exact hrow hm⟩

/-! ### The recovery -/

/-- Updates of workers, at most one of each. -/
theorem onWorker_updates {ws : List Worker} (hnodup : (ws.map Worker.id).Nodup) {f : Worker → Worker}
    (hid : ∀ w, (f w).id = w.id) (hname : ∀ w, (f w).name = w.name) {w : Worker} (hw : w ∈ ws)
    {v : WorkerView} (hrow : v.row = some w) :
    onWorker w.id (ws.flatMap fun w => workerUpdate w (f w)) v = { v with row := some (f w) } := by
  induction ws with
  | nil => cases hw
  | cons x ws ih =>
      rw [List.map_cons, List.nodup_cons] at hnodup
      rw [List.flatMap_cons, onWorker_append]
      rcases List.mem_cons.mp hw with rfl | hw
      · rw [onWorker_workerUpdate hrow (hid w) (hname w)]
        refine onWorker_of_forall_ne (fun u hu => ?_) _
        obtain ⟨y, hy, hu⟩ := List.mem_flatMap.mp hu
        rw [(upkeep_workerUpdate _ _ u hu).2]
        intro heq
        exact hnodup.1 (List.mem_map.mpr ⟨y, hy, Option.some.inj heq⟩)
      · have hskip : onWorker w.id (workerUpdate x (f x)) v = v := by
          refine onWorker_of_forall_ne (fun u hu => ?_) v
          rw [(upkeep_workerUpdate _ _ u hu).2]
          intro heq
          exact hnodup.1 (List.mem_map.mpr ⟨w, hw, (Option.some.inj heq).symm⟩)
        rw [hskip]
        exact ih hnodup.2 hw

/-- Updates of workers leave the leases alone. -/
theorem allocations_applyAll {ws : List Write}
    (h : ∀ w ∈ ws, ∃ loaded changed, w = .updateWorker loaded changed)
    (p : Platform) : (storage.applyAll p ws).db.allocations = p.db.allocations := by
  induction ws generalizing p with
  | nil => rfl
  | cons w ws ih =>
      obtain ⟨loaded, changed, rfl⟩ := h w (by simp)
      exact ih (fun w' hw' => h w' (by simp [hw'])) _

/-- A run has at most one lease that is not released. -/
theorem pairwise_activeAllocations (hI : Invariant m p) :
    p.db.activeAllocations.Pairwise fun a b => a.runId ≠ b.runId := by
  have hnodup : p.db.activeAllocations.Nodup := (p.db.allocations.nodup.of_map).filter _
  refine hnodup.pairwise_of_forall_ne fun a ha b hb hne hrun => hne ?_
  have hmem (c : ResourceAllocation) (hc : c ∈ p.db.activeAllocations) (hcRun : c.runId = a.runId) :
      c ∈ p.db.activeAllocations.filter fun c => c.runId = a.runId := by simp [hc, hcRun]
  have hactive := active_runView p.db a.runId
  have hone : (p.db.runView a.runId).active.length ≤ 1 := by
    cases hget : p.db.runs.get? a.runId with
    | none => simp [(hI.runs a.runId).absent hget, RunView.absent, RunView.active]
    | some run =>
        have hcoherent := (hI.runs a.runId).present run hget
        by_cases hleased : run.status.leased
        · obtain ⟨lease, hlease, -⟩ := hcoherent.leased hleased
          simp [hlease]
        · simp [hcoherent.unleased hleased]
  rw [hactive, List.length_map] at hone
  have ha := hmem a ha rfl
  have hb := hmem b hb hrun.symm
  generalize (p.db.activeAllocations.filter fun c => c.runId = a.runId) = leases at *
  cases leases with
  | nil => cases ha
  | cons c leases =>
      obtain rfl : leases = [] := by simpa using hone
      rw [List.mem_singleton.mp ha, List.mem_singleton.mp hb]

/-- The workers found stale, and their updates. -/
structure Stale (t : Session) (p : Platform) (stale : List Worker) : Prop where
  locked : ∀ w ∈ stale, RowKey.worker w.id ∈ t.locks
  stored : ∀ w ∈ stale, p.db.workers.get? w.id = some w
  nodup : (stale.map Worker.id).Nodup

namespace Stale

variable {stale : List Worker}

theorem update {u : Write} (hu : u ∈ stale.flatMap fun w => workerUpdate w w.markStale) :
    u.upkeep ∧ (∃ w ∈ stale, u.worker? = some w.id) ∧
      ∃ loaded changed, u = .updateWorker loaded changed := by
  obtain ⟨w, hw, hu⟩ := List.mem_flatMap.mp hu
  have hupkeep := upkeep_workerUpdate w w.markStale u hu
  refine ⟨hupkeep.1, ⟨w, hw, hupkeep.2⟩, ?_⟩
  rw [workerUpdate] at hu
  split at hu
  · simp at hu
  · exact ⟨w, w.markStale, List.mem_singleton.mp hu⟩

theorem view (h : Stale t p stale) {w : Worker} (hw : w ∈ stale) :
    onWorker w.id (stale.flatMap fun w => workerUpdate w w.markStale) (p.db.workerView w.id) =
      { p.db.workerView w.id with row := some w.markStale } := by
  have hid (w : Worker) : w.markStale.id = w.id := rfl
  have hname (w : Worker) : w.markStale.name = w.name := rfl
  exact onWorker_updates h.nodup hid hname hw (h.stored w hw)

theorem pass (h : Stale t p stale) (hI : Invariant m p) (ht : t.writes = []) :
    Pass m WorkerView.Shrinks {} t p (stale.flatMap fun w => workerUpdate w w.markStale) := by
  refine (Pass.start ht).addUpkeep (fun u hu => (update hu).1) fun hm id => ?_
  rw [ht, List.nil_append]
  by_cases hid : ∃ w ∈ stale, w.id = id
  · obtain ⟨w, hw, rfl⟩ := hid
    have hrow : (p.db.workerView w.id).row = some w := h.stored w hw
    have hcounted := (hI.capacity hm w.id).counted w hrow
    rw [h.view hw]
    have htotals (leases : List Lease) : WorkerView.totals ⟨some w.markStale, leases⟩ =
        (p.db.workerView w.id).totals := by
      simp [WorkerView.totals, hrow, Worker.markStale]
    exact .inr ⟨.inl (h.locked w hw), balanced_of_counted (congrArg Worker.markStale hcounted),
      htotals _, .refl _⟩
  · refine .inl fun u hu heq => ?_
    obtain ⟨w, hw, hworker⟩ := (update hu).2.1
    exact hid ⟨w, hw, Option.some.inj (hworker.symm.trans heq)⟩

theorem keeps (h : Stale t p stale) (ht : t.writes = []) :
    Keeps m t p (stale.flatMap fun w => workerUpdate w w.markStale) (stale.map Worker.markStale) := by
  intro w' hw'
  obtain ⟨w, hw, rfl⟩ := List.mem_map.mp hw'
  refine ⟨h.locked w hw, fun _ => ?_⟩
  rw [ht, List.nil_append]
  exact congrArg WorkerView.row (h.view hw)

end Stale

theorem recoverExpiredAllocations_holds {settings : Settings} {Q : Outcome (ℕ × List Write)}
    (hf : Fails m Q p) (ht : t.writes = [])
    (hQ : ∀ p' t' n pending, Invariant m p' → Later p p' →
      Pass m WorkerView.Shrinks { worker := updatedWorker pending } t' p' pending →
      (∀ w ∈ pending, w.upkeep) → Q (.ok (n, pending)) t' p') :
    Holds m .schedule Q (recoverExpiredAllocations settings) t p := by
  refine .datetimeNow fun p₁ t₁ now ht₁ hp₁ => ?_
  have hlater₁ : Later p p₁ := .of_meanwhile hp₁
  have hwrites : t₁.writes = [] := ht₁.writes.trans ht
  refine .selectForUpdate (hf.later hlater₁) fun p₂ i₂ free hp₂ => ?_
  have hlater₂ := hlater₁.trans (.of_meanwhile hp₂)
  rw [Session.view, hwrites, Storage.applyAll_nil]
  generalize hfound : (p₂.db.workers.rows.filter fun w => w.status = .online ∧
    w.lastHeartbeatAt < now - seconds settings.workerStaleSeconds ∧ free w) = stale
  have hstale : Stale ((t₁.begin i₂).lock (stale.map fun w => .worker w.id)) p₂ stale :=
    { locked := fun w hw => List.mem_append_left _ (List.mem_map_of_mem hw)
      stored := fun w hw => Table.get?_of_mem (List.mem_of_mem_filter (hfound ▸ hw))
      nodup := hfound ▸ p₂.db.workers.nodup.sublist (List.filter_sublist.map _) }
  have hwrites₂ : ((t₁.begin i₂).lock (stale.map fun w => .worker w.id)).writes = [] := hwrites
  have hpass₂ := hstale.pass hp₂.inv hwrites₂
  have hkeeps₂ := hstale.keeps (m := m) hwrites₂
  extract_lets staleIds marked
  generalize (t₁.begin i₂).lock (stale.map fun w => .worker w.id) = t₂ at *
  refine .flush' (hf.later hlater₂) (upkeep_not_insertAllocation fun u hu => (Stale.update hu).1)
    fun p₃ i₃ hp₃ _ => ?_
  have hlater₃ := hlater₂.trans (.of_meanwhile hp₃)
  have hpass₃ := (hpass₂.stable hp₃).flush i₃
  have hkeeps₃ := (hkeeps₂.stable hp₃).flush i₃
  have hupdates : ((t₂.begin i₃).write storage (t₂.stamped storage i₃ (stale.flatMap fun w =>
      workerUpdate w w.markStale))).writes = stale.flatMap fun w => workerUpdate w w.markStale := by
    rw [writes_of_nil hwrites₂]
    exact upkeep_stamp (fun u hu => (Stale.update hu).1) _
  generalize (t₂.begin i₃).write storage (t₂.stamped storage i₃ (stale.flatMap fun w =>
    workerUpdate w w.markStale)) = t₃ at *
  refine .selectForUpdate (hf.later hlater₃) fun p₄ i₄ free' hp₄ => ?_
  have hlater₄ := hlater₃.trans (.of_meanwhile hp₄)
  have hsame : (t₃.view storage p₄).db.activeAllocations = p₄.db.activeAllocations := by
    have := allocations_applyAll (fun u hu => (@Stale.update stale u (hupdates ▸ hu)).2.2) p₄
    rw [Db.activeAllocations, Session.view, this, Db.activeAllocations]
  rw [hsame]
  generalize hexpired : (p₄.db.activeAllocations.filter fun a =>
    (a.leaseExpiresAt < now ∨ a.workerId ∈ staleIds) ∧ free' a) = expired
  have hsub : expired.Sublist p₄.db.activeAllocations := hexpired ▸ List.filter_sublist
  have hkept (r : RowKey) (hr : r ∈ t₃.locks) :
      r ∈ ((t₃.begin i₄).lock (expired.map fun a => .allocation a.id)).locks :=
    List.mem_append_right _ hr
  refine .bind (recoverAllocations_holds (hf.later hlater₄).then hp₄.inv
    (((hpass₃.stable hp₄).begin i₄).lock _) (by simp) ((hkeeps₃.stable hp₄).read hkept rfl)
    (fun a ha => ?_) ((pairwise_activeAllocations hp₄.inv).sublist hsub)
    fun p₅ t₅ loaded pending hI₅ hp₅ hpass₅ hupkeep₅ hkeeps₅ => ?_)
  · have hactive := hsub.subset ha
    exact
      { locked := List.mem_append_left _ (List.mem_map_of_mem ha)
        stored := Table.get?_of_mem (List.mem_of_mem_filter hactive)
        active := (List.mem_filter.mp hactive).2
        untouched := fun u hu => by
          simp [(Write.upkeep_inert (Stale.update (hupdates ▸ hu)).1).1] }
  · have hlater₅ := hlater₄.trans hp₅
    refine .bind (refreshWorkers_holds (hf.later hlater₅).then hI₅ hpass₅ hupkeep₅ hkeeps₅
      fun p₆ t₆ pending hI₆ hp₆ hpass₆ hupkeep₆ => ?_)
    exact hQ p₆ t₆ _ pending hI₆ (hlater₅.trans hp₆) hpass₆ hupkeep₆

end Runscope
