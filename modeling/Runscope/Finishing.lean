import Runscope.Entries
import Runscope.Unimpeded

/-!
An executor that nothing gets in the way of finishes its run.
-/

namespace Runscope

open Transact RunStatus

variable {α β : Type} {rt : Runtime} {κ : Kind} {r : Uuid} {shows : Bool} {pt : Point}
  {t t' : Session} {p p' : Platform}

/-- The session has started the run. -/
structure Started (r : Uuid) (shows : Bool) (t : Session) (p : Platform) : Prop where
  inv : (p.db.runView r).Inv
  started : 0 < startsOf r t.committed
  held : (p.db.runView r).Held fun _ => True
  demonstrates : p.db.demonstrates r = shows

/-- Where the row is still that of the same template. -/
theorem Db.demonstrates_eq {db db' : Db} {run run' : Run} (hrun : db.runs.get? r = some run)
    (hrun' : db'.runs.get? r = some run') (htemplate : run'.templateId = run.templateId)
    (htemplates : db'.templates = db.templates) : db'.demonstrates r = db.demonstrates r := by
  simp [Db.demonstrates, hrun, hrun', htemplate, htemplates]

theorem Started.later (h : Started r shows t p) (hp : Beside rt κ r pt t p p') :
    Started r shows t p' where
  inv := hp.meanwhile.inv.runs r
  started := h.started
  held := (hp.meanwhile.rely.runs r).held h.held
  demonstrates := by
    obtain ⟨run, hrun, -, -⟩ := h.held
    obtain ⟨run', hrun', hcontinues⟩ := (hp.meanwhile.rely.runs r).continues h.inv hrun
    rw [← h.demonstrates]
    exact Db.demonstrates_eq hrun hrun' hcontinues.origin.2.2.2.1 hp.meanwhile.rely.templates

theorem Started.read (h : Started r shows t p) (hcommitted : t'.committed = t.committed) :
    Started r shows t' p :=
  ⟨h.inv, hcommitted ▸ h.started, h.held, h.demonstrates⟩

theorem Started.spares {Q : Outcome α} (h : Started r shows t p) : Spares r t Q := .of_started h.started

theorem Started.perform (h : Started r shows t p) (c : Call) (i : Input) :
    Started r shows (t.record c) (c.perform i p) := by
  refine ⟨?_, h.started, ?_, ?_⟩ <;> rw [c.perform_db i p]
  · exact h.inv
  · exact h.held
  · exact h.demonstrates

/-- The row of a run that is being executed. -/
theorem Started.current (h : Started r shows t p) (hp : Beside rt κ r pt t p p') :
    ∃ run, p'.db.runs.get? r = some run ∧ run.id = r ∧ (run.status = running ∨ run.status = cancelling) ∧
      Loaded (p'.db.runView r) run p' := by
  obtain ⟨run, hrun, hbegun, -⟩ := (h.later hp).held
  have hget : p'.db.runs.get? r = some run := hrun
  have hid : run.id = r := Table.key_of_get? hget
  refine ⟨run, hget, hid, ?_, ?_⟩
  · by_contra hnot
    refine hp.unfinished ⟨run, hget, ?_⟩
    cases hstatus : run.status <;> simp_all [RunStatus.begun, RunStatus.finished]
  · have hloaded := Loaded.of_get hp.meanwhile.inv hget
    rwa [hid] at hloaded

/-- The session has started the run and has nothing pending; its logs are
numbered below `n`, and it has no artifacts yet. -/
structure Underway (r : Uuid) (shows : Bool) (n : ℕ) (t : Session) (p : Platform) : Prop
    extends Started r shows t p where
  writes : t.writes = []
  logs : ∀ x ∈ (p.db.recordsOf r).1, x.sequenceNumber < n
  artifacts : (p.db.recordsOf r).2.2 = []

namespace Underway

variable {n : ℕ}

theorem later (h : Underway r shows n t p) (hp : Beside rt κ r pt t p p') :
    Underway r shows n t p' := by
  have hrecords := (hp.meanwhile.rely.own trivial r h.started).records
  refine ⟨h.toStarted.later hp, h.writes, ?_, ?_⟩ <;> rw [hrecords]
  · exact h.logs
  · exact h.artifacts

theorem read (h : Underway r shows n t p) (hwrites : t'.writes = t.writes)
    (hcommitted : t'.committed = t.committed) : Underway r shows n t' p :=
  ⟨h.toStarted.read hcommitted, hwrites.trans h.writes, h.logs, h.artifacts⟩

theorem perform (h : Underway r shows n t p) (c : Call) (i : Input) :
    Underway r shows n (t.record c) (c.perform i p) := by
  refine ⟨h.toStarted.perform c i, h.writes, ?_, ?_⟩ <;> rw [c.perform_db i p]
  · exact h.logs
  · exact h.artifacts

/-- The next log of the run is accepted. -/
theorem check_log (h : Underway r shows n t p) {log : RunLog} (hrun : log.runId = r)
    (hnumber : n ≤ log.sequenceNumber) : (Write.insertLog log).check p = none := by
  have hfree : ¬ (p.db.logs.any fun y => y.runId = log.runId ∧ y.sequenceNumber = log.sequenceNumber) := by
    rw [List.any_eq_true]
    rintro ⟨y, hy, htaken⟩
    obtain ⟨hyrun, hsame⟩ := of_decide_eq_true htaken
    have hlt := h.logs y (List.mem_filter.mpr ⟨hy, by simpa using hyrun.trans hrun⟩)
    omega
  rw [Write.check, if_neg hfree]

/-- The artifacts there are belong to other runs, and so do their keys. -/
theorem others (h : Underway r shows n t p) (hI : Invariant (.sole rt) p) {x : Artifact}
    (hx : x ∈ p.db.artifacts) : x.storageKey = (x.runId, x.name) ∧ x.runId ≠ r := by
  refine ⟨(hI.artifacts trivial x hx).2.storageKey, fun hrun => ?_⟩
  have hmem : x ∈ (p.db.recordsOf r).2.2 := List.mem_filter.mpr ⟨hx, by simpa using hrun⟩
  rw [h.artifacts] at hmem
  cases hmem

end Underway

/-! ### The ending of a run -/

/-- The release of a lease that the session sees for the run is accepted. -/
theorem check_release {lease : Lease} {a : ResourceAllocation} (hactive : (p.db.runView r).active = [lease])
    (ha : a.lease = lease) (hrun : a.runId = r) (time : Time) :
    (Write.releaseAllocation a time).check p = none := by
  rw [active_runView] at hactive
  obtain ⟨b, hb, hlease⟩ := List.map_eq_singleton_iff.mp hactive
  have hmem : b ∈ p.db.activeAllocations.filter fun a => a.runId = r := by simp [hb]
  obtain ⟨hrow, hbrun⟩ := List.mem_filter.mp hmem
  have hsame : b.lease = a.lease := hlease.trans ha.symm
  have hget : p.db.allocations.get? a.id = some b := by
    have hid : b.id = a.id := congrArg Lease.id hsame
    rw [← hid]
    exact Table.get?_of_mem (List.mem_filter.mp hrow).1
  have hworker : b.workerId = a.workerId := congrArg Lease.workerId hsame
  simp only [decide_eq_true_eq] at hbrun
  simp [Write.check, hget, ResourceAllocation.sameLease, hworker, hbrun, hrun]

/-- What the database has of a worker besides its leases, to a session that
has written no worker and released a lease. -/
theorem worker_row {ws : List Write} {a : ResourceAllocation} {time : Time}
    (hws : ∀ w ∈ ws, w.worker? = none)
    (hacc : storage.firstError p (ws ++ [.releaseAllocation a time]) = none) (id : Uuid) :
    (storage.applyAll p (ws ++ [.releaseAllocation a time])).db.workers.get? id =
      p.db.workers.get? id := by
  have hview := congrArg WorkerView.row (workerView_applyAll hacc id)
  have hunwritten : onWorker id ws (p.db.workerView id) = p.db.workerView id :=
    onWorker_of_forall_ne (fun w hw => by simp [hws w hw]) _
  rw [onWorker_append, onWorker_release_row, hunwritten] at hview
  exact hview

/-- What a release leaves pending: the new status of a worker that there is, or
nothing. -/
def Refreshes (p : Platform) (pending : List Write) : Prop :=
  pending = [] ∨ ∃ worker changed,
    pending = [.updateWorker worker changed] ∧ (p.db.workers.get? worker.id).isSome

namespace Refreshes

variable {pending : List Write}

theorem stamp (h : Refreshes p pending) (i : Input) : pending.map (Write.stamp i) = pending := by
  rcases h with rfl | ⟨worker, changed, rfl, -⟩ <;> rfl

theorem onRun (h : Refreshes p pending) (v : RunView) : Runscope.onRun r pending v = v := by
  rcases h with rfl | ⟨worker, changed, rfl, -⟩ <;> rfl

theorem not_processed (h : Refreshes p pending) (message : ProcessedMessage) :
    .insertProcessed message ∉ pending := by
  rcases h with rfl | ⟨worker, changed, rfl, -⟩ <;> simp

/-- It is accepted as long as there are no fewer workers. -/
theorem accepted (h : Refreshes p pending)
    (hworkers : ∀ id, (p.db.workers.get? id).isSome → (p'.db.workers.get? id).isSome) :
    storage.firstError p' pending = none := by
  rcases h with rfl | ⟨worker, changed, rfl, hworker⟩
  · rfl
  · have hcheck : (Write.updateWorker worker changed).check p' = none := by
      rw [Write.check, if_pos (hworkers worker.id hworker)]
    exact storage.firstError_cons_eq_none.mpr ⟨hcheck, rfl⟩

end Refreshes

theorem releaseAllocation_finishes (lease : Lease)
    {Q : Outcome (Option ResourceAllocation × List Worker × List Write)} {pending : List Write}
    (hstarted : 0 < startsOf r t.committed) (ht : t.writes = [])
    (hpending : ∀ w ∈ pending, w.worker? = none ∧ ∀ message, w ≠ .insertProcessed message)
    (herror : ∀ p' i e, Beside rt κ r {} t p p' →
      (0 < startsOf r t.committed → Clear r {} p' i (.flush pending)) →
      storage.firstError p' (t.stamped storage i pending) = some e → Q (.error e) t.close p')
    (hlease : ∀ p' i, Later p p' → storage.firstError p' (pending.map (Write.stamp i)) = none →
      (onRun r (pending.map (Write.stamp i)) (p'.db.runView r)).active = [lease])
    (hQ : ∀ p' i t' a now pending', t'.committed = t.committed →
      t'.writes = pending.map (Write.stamp i) ++ [.releaseAllocation a now] → Later p p' →
      a.runId = r → a.lease = lease →
      Refreshes p' pending' →
      Q (.ok (some { a with releasedAt := some now }, [], pending')) t' p') :
    Finishes rt κ r Q (releaseAllocation r pending []) t p := by
  have hview (p' : Platform) : t.view storage p' = p' := by rw [Session.view, ht, Storage.applyAll_nil]
  have hf {γ : Type} {Q : Outcome γ} {t' : Session} (h : t'.committed = t.committed) : Spares r t' Q :=
    .of_started (h ▸ hstarted)
  refine .flush (hf rfl) (fun message hmem => absurd rfl ((hpending _ hmem).2 message))
    (fun p' i e hp' hclear he => herror p' i e hp' hclear (hview p' ▸ he)) fun p₁ i₁ hp₁ hacc₁ => ?_
  have hlater₁ : Later p p₁ := .of_meanwhile hp₁.meanwhile
  obtain ⟨i, hws⟩ : ∃ i, t.stamped storage i₁ pending = pending.map (Write.stamp i) := ⟨_, rfl⟩
  have hlease₁ (p' : Platform) := hlease p' i
  have hworker : ∀ w ∈ pending.map (Write.stamp i), w.worker? = none := by
    intro w hw
    obtain ⟨w', hw', rfl⟩ := List.mem_map.mp hw
    have hnone := (hpending w' hw').1
    cases w' <;> exact hnone
  have hQ₁ (p' : Platform) := hQ p' i
  rw [hws]
  generalize pending.map (Write.stamp i) = ws at hlease₁ hworker hQ₁ ⊢
  generalize ht₁ : (t.begin i₁).write storage ws = t₁
  have hwrites₁ : t₁.writes = ws := by
    rw [← ht₁, Session.write_writes, Session.begin_writes, ht, List.nil_append]
  have hcommitted₁ : t₁.committed = t.committed := by rw [← ht₁]; rfl
  refine .selectForUpdate (hf hcommitted₁) fun p₂ i₂ free hp₂ => ?_
  have hlater₂ := hlater₁.trans (.of_meanwhile hp₂.meanwhile)
  have hactive (p' : Platform) (hlater : Later p p') (hacc : storage.firstError p' ws = none) :
      ((storage.applyAll p' ws).db.runView r).active = [lease] := by
    rw [runView_applyAll hacc r]
    exact hlease₁ p' hlater hacc
  have hfound := hactive p₂ hlater₂ (hwrites₁ ▸ hp₂.meanwhile.accepted)
  rw [active_runView] at hfound
  obtain ⟨a, hfound, ha⟩ := List.map_eq_singleton_iff.mp hfound
  have hrun : a.runId = r := by
    have hmem : a ∈ (storage.applyAll p₂ ws).db.activeAllocations.filter fun a => a.runId = r := by
      simp [hfound]
    simpa using (List.mem_filter.mp hmem).2
  rw [Session.view, hwrites₁, hfound]
  refine .datetimeNow (hf hcommitted₁) fun p₃ t₃ now ht₃ hp₃ => ?_
  have hlater₃ := hlater₂.trans (.of_meanwhile hp₃.meanwhile)
  have hwrites₃ : t₃.writes = ws := ht₃.writes.trans hwrites₁
  have hcommitted₃ : t₃.committed = t.committed := ht₃.committed.trans hcommitted₁
  refine .flush (hf hcommitted₃) (by simp) (fun p' i e hp' _ he => ?_) fun p₄ i₄ hp₄ hacc₄ => ?_
  · -- the lease is still there, so its release is not refused
    have hacc : storage.firstError p' ws = none := hwrites₃ ▸ hp'.meanwhile.accepted
    have hcheck := check_release (hactive p' (hlater₃.trans (.of_meanwhile hp'.meanwhile)) hacc) ha hrun now
    have hnone : storage.firstError (t₃.view storage p')
        (t₃.stamped storage i [.releaseAllocation a now]) = none := by
      rw [Session.view, hwrites₃]
      exact storage.firstError_cons_eq_none.mpr ⟨hcheck, rfl⟩
    rw [hnone] at he
    cases he
  have hlater₄ := hlater₃.trans (.of_meanwhile hp₄.meanwhile)
  extract_lets released
  generalize ht₄ : (t₃.begin i₄).write storage (t₃.stamped storage i₄ [.releaseAllocation a now]) = t₄
  have hwrites₄ : t₄.writes = ws ++ [.releaseAllocation a now] := by
    rw [← ht₄, Session.write_writes, Session.begin_writes, hwrites₃]
    rfl
  have hcommitted₄ : t₄.committed = t.committed := by rw [← ht₄]; exact hcommitted₃
  have hrow (p' : Platform) (hacc : storage.firstError p' t₄.writes = none) (id : Uuid) :
      (t₄.view storage p').db.workers.get? id = p'.db.workers.get? id := by
    rw [hwrites₄] at hacc
    rw [Session.view, hwrites₄]
    exact worker_row hworker hacc id
  refine .select (hf hcommitted₄) fun p₅ i₅ hp₅ _ => ?_
  have hlater₅ := hlater₄.trans (.of_meanwhile hp₅.meanwhile)
  rw [hrow p₅ hp₅.meanwhile.accepted]
  cases hget : p₅.db.workers.get? a.workerId with
  | none => exact hQ₁ p₅ _ a now [] hcommitted₄ hwrites₄ hlater₅ hrun ha (.inl rfl)
  | some worker =>
      obtain hid := Table.key_of_get? hget
      refine .bind (.select (hf hcommitted₄) fun p₆ i₆ hp₆ _ => ?_)
      have hsome := hp₆.workers worker.id (by simp [hid, hget])
      refine hQ₁ p₆ _ a now _ hcommitted₄ hwrites₄ (hlater₅.trans (.of_meanwhile hp₆.meanwhile)) hrun ha ?_
      rw [workerUpdate]
      split
      · exact .inl rfl
      · exact .inr ⟨worker, _, rfl, hsome⟩

/-- What an ending writes first is accepted if the copy of the run is current
and the rest is. -/
theorem accepted_endingWrites {added : List Write} {run : Run} {event : RunEvent}
    (hadded : ∀ w ∈ added, w.records? = some run.id) (hacc : storage.firstError p added = none)
    (hversion : (p.db.runs.get? run.id).map Run.version = some run.version) :
    storage.firstError p (endingWrites added run event) = none := by
  have hview : (storage.applyAll p added).db.runView run.id = p.db.runView run.id := by
    rw [runView_applyAll hacc, onRun_of_forall_ne fun w hw => by
      simp [(Write.records_inert (hadded w hw)).1]]
  have hget : (storage.applyAll p added).db.runs.get? run.id = p.db.runs.get? run.id :=
    congrArg RunView.run hview
  have hcheck : (Write.updateRun run).check (storage.applyAll p added) = none := by
    rw [Write.check, hget, if_pos hversion]
  exact storage.firstError_append_eq_none.mpr ⟨hacc, storage.firstError_cons_eq_none.mpr
    ⟨hcheck, storage.firstError_cons_eq_none.mpr ⟨rfl, rfl⟩⟩⟩

/-- The names of the artifacts an ending adds differ. -/
theorem names_endingWrites {added : List Write} {run : Run} {event : RunEvent}
    (h : ((recordsIn (entries r (endingWrites added run event))).2.2.map Artifact.name).Nodup) :
    ((recordsIn (entries r added)).2.2.map Artifact.name).Nodup := by
  rw [endingWrites, entries_append, recordsIn_append, List.map_append] at h
  exact h.of_append_left

/-- An ending finishes the run, if what it adds is accepted. -/
theorem finishRun_finishes {Q : Outcome Run} {n : ℕ} {v : RunView} {loaded run : Run}
    {target : RunStatus} {eventType : String} {metadata : Record} {added : List Write}
    (ht : Underway r shows n t p) (hloaded : Loaded v loaded p)
    (hid : loaded.id = r)
    (hrun : run = { loaded with
      failureCode := run.failureCode, failureMessage := run.failureMessage })
    (htarget : target.finished) (hvalid : target ∈ validTransitions loaded.status)
    (hadded : ∀ w ∈ added, w.records? = some r)
    (haccepted : ∀ p' t', Underway r shows n t' p' → Invariant (.sole rt) p' →
      ((recordsIn (entries r added)).2.2.map Artifact.name).Nodup →
      storage.firstError p' added = none)
    (hQ : ∀ x t' p', p'.db.finished r → Q x t' p') :
    Finishes rt κ r Q (finishRun run target eventType metadata added) t p := by
  have hrunId : run.id = r := by rw [hrun, hid]
  have hstatus : run.status = loaded.status := by rw [hrun]
  refine .transitionRun ht.spares (hstatus ▸ hvalid) fun p₁ t₁ now ht₁ hp₁ => ?_
  generalize hended : run.transitioned target now = ended
  have hendedId : ended.id = r := by rw [← hended, Run.transitioned_id, hrunId]
  have hversion : ended.version = loaded.version := by
    rw [← hended, Run.transitioned_version, hrun]
  have hendedStatus : ended.status = target := by rw [← hended]; rfl
  dsimp only
  rw [hendedId]
  generalize hevent : run.transitionEvent target eventType metadata = event
  have hadded' : ∀ w ∈ added, w.records? = some loaded.id := hid ▸ hadded
  have hstamp (i : Input) : (endingWrites added ended event).map (Write.stamp i) =
      endingWrites added ended { event with createdAt := i.clock } := endingWrites_stamp hadded' i
  -- whenever the update is accepted, the run is as it was loaded
  have hview (p' : Platform) (hp' : Later p₁ p') (i : Input) (after : List Write)
      (hacc : storage.firstError p' ((endingWrites added ended event).map (Write.stamp i) ++ after) =
        none) : p'.db.runView r = v := by
    rw [hstamp, endingWrites, List.append_assoc] at hacc
    rw [← hid]
    refine (hloaded.later ((Later.of_meanwhile hp₁.meanwhile).trans hp')).of_accepted added _ hacc
      (fun w hw => ?_) (hendedId.trans hid.symm) hversion
    simp [(Write.records_inert (hadded w hw)).1]
  obtain ⟨lease, hlease, -⟩ := (hloaded.inv.present loaded hloaded.row).leased (by
    have hending := ending_status htarget hvalid
    simp only [List.mem_cons, Prod.mk.injEq, List.not_mem_nil, or_false] at hending
    rcases hending with ⟨h, -⟩ | ⟨h, -⟩ | ⟨h, -⟩ <;> simp [h, RunStatus.leased])
  have hwrites₁ : t₁.writes = [] := ht₁.writes.trans ht.writes
  have hstarted₁ : 0 < startsOf r t₁.committed := ht₁.committed ▸ ht.started
  refine .bind (releaseAllocation_finishes lease hstarted₁ hwrites₁ (fun w hw => ?_)
    (fun p' i e hp' hclear he => ?_) (fun p' i hp' hacc => ?_)
    fun p₂ i t₂ a released pending hcommitted₂ hwrites₂ hp₂ haRun ha hpending => ?_)
  · refine ⟨endingWrites_worker hadded' hw, fun message hmessage => ?_⟩
    subst hmessage
    rcases endingWrites_cases hw with hw | hw | hw
    · cases hadded _ hw
    · cases hw
    · cases hw
  · have hp : Beside rt κ r {} t p p' := hp₁.trans (ht₁.beside hp')
    have ht' : Underway r shows n t₁.close p' := (ht.later hp).read ht.writes.symm ht₁.committed
    obtain ⟨hcurrent, hnames⟩ := hclear (ht₁.committed ▸ ht.started) ended (by simp) hendedId
    have hacc := haccepted p' t₁.close ht' hp.meanwhile.inv (names_endingWrites hnames)
    have hnone : storage.firstError p' (t₁.stamped storage i (endingWrites added ended event)) =
        none := by
      refine (congrArg _ (hstamp _)).trans (accepted_endingWrites ?_ hacc ?_)
      · exact hendedId ▸ hadded
      · exact hendedId ▸ hcurrent
    rw [endingWrites] at hnone
    rw [hnone] at he
    cases he
  · have hview' := hview p' hp' i [] (by rwa [List.append_nil])
    change (onRun r ((endingWrites added ended event).map (Write.stamp i)) (p'.db.runView r)).active = _
    rw [hstamp, hview', ← hid, endingWrites_active hadded', hlease]
  · have hlater₂ : Later p₁ p₂ := hp₂
    dsimp only [Rest]
    have hstamped (t' : Session) (i : Input) : t'.stamped storage i pending = pending :=
      hpending.stamp _
    have hwrites₂ : t₂.writes = (endingWrites added ended event).map (Write.stamp i) ++
        [.releaseAllocation a released] := hwrites₂
    refine .commit (.of_started (hcommitted₂ ▸ hstarted₁))
      (fun message hmem => absurd hmem (hpending.not_processed message))
      (fun p₃ j e hp₃ _ he => ?_) fun p₃ j t₃ hp₃ _ _ hacc => ?_
    · -- the worker is still there, so its update is not refused
      have hrow (id : Uuid) : (t₂.view storage p₃).db.workers.get? id = p₃.db.workers.get? id := by
        have hacc := hp₃.meanwhile.accepted
        rw [hwrites₂] at hacc
        rw [Session.view, hwrites₂]
        exact worker_row (hstamp i ▸ fun w => endingWrites_worker hadded') hacc id
      have hnone : storage.firstError (t₂.view storage p₃) pending = none :=
        hpending.accepted fun id hid => hrow id ▸ hp₃.workers id hid
      rw [hstamped, hnone] at he
      cases he
    · rw [hstamped] at hacc ⊢
      have hview₃ : p₃.db.runView r = v := by
        refine hview p₃ (hlater₂.trans (.of_meanwhile hp₃.meanwhile)) i
          ([.releaseAllocation a released] ++ pending) ?_
        rw [← List.append_assoc, ← hwrites₂]
        exact hacc
      have hafter : (storage.applyAll p₃ (t₂.writes ++ pending)).db.runView r =
          onRun r (t₂.writes ++ pending) v := hview₃ ▸ runView_applyAll hacc r
      refine hQ _ _ _ ⟨ended.stored loaded, ?_, ?_⟩
      · refine (congrArg RunView.run hafter).trans ?_
        rw [hwrites₂, hstamp, endingWrites, ← hid, onRun_append, onRun_append, onRun_append,
          onRun_added hadded', hid, hpending.onRun]
        simp only [onRun_cons, onRun_nil, Write.onRun, hendedId, haRun, hloaded.row, if_true,
          Option.map_some]
        split_ifs <;> rfl
      · exact hendedStatus ▸ htarget

/-! ### Executors -/

section Executors

variable {Q : Outcome Run} {n : ℕ} {v : RunView} {run : Run}

/-- Logs are accepted if they are numbered on from those there are. -/
theorem accepted_logs {logs : List (String × String)} {k : ℕ}
    (h : ∀ x ∈ p.db.logs, x.runId = r → x.sequenceNumber < k + 1) :
    storage.firstError p ((logs.zipIdx k).map fun x => .insertLog ⟨r, x.2 + 1, x.1.1, x.1.2⟩) =
      none := by
  induction logs generalizing p k with
  | nil => rfl
  | cons log logs ih =>
      rw [List.zipIdx_cons, List.map_cons, storage.firstError_cons_eq_none]
      refine ⟨?_, ih fun x hx hrun => ?_⟩
      · have hfree : ¬ (p.db.logs.any fun y => y.runId = r ∧ y.sequenceNumber = k + 1) := by
          rw [List.any_eq_true]
          rintro ⟨y, hy, htaken⟩
          obtain ⟨hyrun, hsame⟩ := of_decide_eq_true htaken
          exact absurd hsame (Nat.ne_of_lt (h y hy hyrun))
        exact if_neg hfree
      · rcases List.mem_append.mp hx with hx | hx
        · exact Nat.lt_succ_of_lt (h x hx hrun)
        · rw [List.mem_singleton.mp hx]
          exact Nat.lt_succ_self _

theorem accepted_metrics (metrics : List RunMetric) :
    storage.firstError p (metrics.map .insertMetric) = none := by
  induction metrics generalizing p with
  | nil => rfl
  | cons x metrics ih => exact storage.firstError_cons_eq_none.mpr ⟨rfl, ih⟩

/-- Artifacts of a run are accepted if their names differ from each other and
from those of the run: the key of an artifact tells its run. -/
theorem accepted_artifacts (artifacts : List Artifact)
    (hkeys : ∀ x ∈ artifacts, x.runId = r ∧ x.storageKey = (r, x.name))
    (hnames : (artifacts.map Artifact.name).Nodup)
    (hp : ∀ y ∈ p.db.artifacts, y.storageKey = (y.runId, y.name) ∧
      (y.runId = r → y.name ∉ artifacts.map Artifact.name)) :
    storage.firstError p (artifacts.map .insertArtifact) = none := by
  induction artifacts generalizing p with
  | nil => rfl
  | cons x artifacts ih =>
      obtain ⟨⟨hrun, hkey⟩, hkeys⟩ := List.forall_mem_cons.mp hkeys
      rw [List.map_cons, List.nodup_cons] at hnames
      rw [List.map_cons, storage.firstError_cons_eq_none]
      refine ⟨?_, ih hkeys hnames.2 fun y hy => ?_⟩
      · have hfree (y : Artifact) (hy : y ∈ p.db.artifacts) :
            ¬ (y.runId = r ∧ y.name = x.name) := by
          rintro ⟨hyrun, hname⟩
          exact (hp y hy).2 hyrun (by simp [hname])
        have hname : ¬ (p.db.artifacts.any fun y => y.runId = x.runId ∧ y.name = x.name) := by
          rw [List.any_eq_true]
          rintro ⟨y, hy, htaken⟩
          exact hfree y hy (hrun ▸ of_decide_eq_true htaken)
        have hstored : ¬ (p.db.artifacts.any fun y => y.storageKey = x.storageKey) := by
          rw [List.any_eq_true]
          rintro ⟨y, hy, htaken⟩
          have hsame : y.storageKey = x.storageKey := of_decide_eq_true htaken
          rw [(hp y hy).1, hkey, Prod.mk.injEq] at hsame
          exact hfree y hy hsame
        change (Write.insertArtifact x).check p = none
        rw [Write.check, if_neg hname, if_neg hstored]
      · rcases List.mem_append.mp hy with hy | hy
        · obtain ⟨hykey, hyname⟩ := hp y hy
          exact ⟨hykey, fun hyrun hmem => hyname hyrun (by simp [hmem])⟩
        · rw [List.mem_singleton.mp hy]
          exact ⟨hrun ▸ hkey, fun _ => hnames.1⟩

/-- Telemetry leaves the run as it is. -/
theorem runView_telemetry {ws : List Write} (hws : ∀ w ∈ ws, ∃ r, w.records? = some r)
    (hacc : storage.firstError p ws = none) (r : Uuid) :
    (storage.applyAll p ws).db.runView r = p.db.runView r := by
  rw [runView_applyAll hacc, onRun_of_forall_ne fun w hw => ?_]
  obtain ⟨r', hr'⟩ := hws w hw
  simp [(Write.records_inert hr').1]

theorem recordsIn_metrics {metrics : List RunMetric} (hmetrics : ∀ x ∈ metrics, x.runId = r) :
    recordsIn (entries r (metrics.map .insertMetric)) = ([], metrics, []) := by
  induction metrics with
  | nil => rfl
  | cons x metrics ih =>
      have hx : x.runId = r := hmetrics x (by simp)
      rw [List.map_cons, entries_cons, Write.entered?, if_pos hx, Option.toList_some,
        List.singleton_append, recordsIn_metric, ih fun y hy => hmetrics y (by simp [hy])]

/-- The commit of the next log, and of metrics. -/
theorem commitRecords_finishes {Q : Outcome β} {k : Unit → Program β} (log : RunLog)
    (metrics : List RunMetric) (ht : Underway r shows n t p) (hlog : log.runId = r)
    (hnumber : log.sequenceNumber = n) (hmetrics : ∀ x ∈ metrics, x.runId = r)
    (h : ∀ p' t', Underway r shows (n + 1) t' p' → Later p p' → Finishes rt κ r Q (k ()) t' p') :
    Finishes rt κ r Q
      (session.commit pt (.insertLog log :: metrics.map .insertMetric) >>= k) t p := by
  generalize hws : Write.insertLog log :: metrics.map .insertMetric = ws
  have hcases (w : Write) (hw : w ∈ ws) : w = .insertLog log ∨ ∃ x ∈ metrics, .insertMetric x = w := by
    rw [← hws, List.mem_cons, List.mem_map] at hw
    exact hw
  have hrecords (w : Write) (hw : w ∈ ws) : ∃ r, w.records? = some r := by
    rcases hcases w hw with rfl | ⟨x, -, rfl⟩ <;> exact ⟨_, rfl⟩
  have hstamped (t : Session) (i : Input) : t.stamped storage i ws = ws := by
    refine (List.map_congr_left fun w hw => ?_).trans (List.map_id ws)
    obtain ⟨r', hr'⟩ := hrecords w hw
    exact (Write.records_inert hr').2.2.1 _
  have hview (p' : Platform) : t.view storage p' = p' := by
    rw [Session.view, ht.writes, Storage.applyAll_nil]
  have haccepted (p' : Platform) (ht' : Underway r shows n t p') : storage.firstError p' ws = none := by
    rw [← hws]
    exact storage.firstError_cons_eq_none.mpr
      ⟨ht'.check_log hlog hnumber.ge, accepted_metrics metrics⟩
  refine .commit ht.spares (fun message hmem => ?_) (fun p' i e hp' _ he => ?_)
    fun p' i t' hp' hwrites hcommitted hacc => ?_
  · rcases hcases _ hmem with h | ⟨x, -, h⟩ <;> cases h
  · rw [hstamped, hview, haccepted p' (ht.later hp')] at he
    cases he
  · rw [hstamped, ht.writes, List.nil_append] at hcommitted hacc ⊢
    have ht' := ht.later hp'
    have hsame := runView_telemetry hrecords hacc
    have hafter : (storage.applyAll p' ws).db.recordsOf r = ((p'.db.recordsOf r).1 ++ [log],
        (p'.db.recordsOf r).2.1 ++ metrics, (p'.db.recordsOf r).2.2) := by
      rw [recordsOf_applyAll, ← hws, entries_cons, Write.entered?, if_pos hlog, Option.toList_some,
        List.singleton_append, recordsIn_log, recordsIn_metrics hmetrics, List.append_nil]
    refine h _ t' ⟨⟨?_, ?_, ?_, ?_⟩, hwrites, ?_, ?_⟩ ((Later.of_meanwhile hp'.meanwhile).trans fun r => ?_)
    · exact (hsame r).symm ▸ ht'.inv
    · rw [hcommitted, startsOf_append]
      exact Nat.lt_of_lt_of_le ht.started (Nat.le_add_right _ _)
    · exact (hsame r).symm ▸ ht'.held
    · obtain ⟨run, hrun, -⟩ := ht'.held
      rw [← ht'.demonstrates]
      exact Db.demonstrates_eq hrun ((congrArg RunView.run (hsame r)).trans hrun) rfl templates_applyAll
    · intro x hx
      rw [hafter, List.mem_append] at hx
      rcases hx with hx | hx
      · exact Nat.lt_succ_of_lt (ht'.logs x hx)
      · rw [List.mem_singleton.mp hx, hnumber]
        exact Nat.lt_succ_self n
    · rw [hafter]
      exact ht'.artifacts
    · exact (hsame r).symm ▸ .refl

/-- The checkpoints from `k` on end with the run cancelled, or RUNNING as it
was last read. -/
theorem slowCheckpoints_finishes {Q : Outcome (Bool × Run)} {totalSteps k m : ℕ} 
    (ht : Underway r true (k + 1) t p) (hloaded : Loaded v run p) (hid : run.id = r)
    (hstatus : run.status = running) (hfinished : ∀ x t' p', p'.db.finished r → Q x t' p')
    (hQ : ∀ p' t' v' run', Underway r true (k + m + 1) t' p' → Loaded v' run' p' → run'.id = r →
      run'.status = running → Q (.ok (false, run')) t' p') :
    Finishes rt κ r Q (slowCheckpoints run totalSteps (List.range' k m)) t p := by
  induction m generalizing k t p v run with
  | zero => exact hQ p t v run ht hloaded hid hstatus
  | succ m ih =>
      rw [List.range'_succ]
      refine .bind (.refreshRun ht.spares fun p₁ i₁ hp₁ => ?_)
      have ht₁ : Underway r true (k + 1) (t.begin i₁) p₁ := (ht.later hp₁).read rfl rfl
      obtain ⟨current, hget, hcurrentId, hcurrent, hloaded₁⟩ := ht.toStarted.current hp₁
      rw [hid, Session.view, ht.writes, Storage.applyAll_nil]
      refine ⟨current, hget, ?_⟩
      change Finishes rt κ r Q (if current.status = .cancelling then _ else _) _ _
      split
      · next hcancelling =>
        refine .bind (finishRun_finishes ht₁ hloaded₁ hcurrentId rfl rfl
          (by simp [hcancelling, validTransitions]) (by simp [Write.records?, hcurrentId])
          (fun p₂ t₂ ht₂ _ _ => ?_) fun x p₂ t₂ h => ?_)
        · exact storage.firstError_cons_eq_none.mpr ⟨ht₂.check_log hcurrentId le_rfl, rfl⟩
        · cases x with
          | error e => exact hfinished _ _ _ h
          | ok run₂ => exact .of_finished hfinished h
      · next hnot =>
        refine commitRecords_finishes ⟨current.id, k + 1, "INFO", _⟩ [⟨current.id, "progress", _, k⟩]
          ht₁ hcurrentId rfl (by simp [hcurrentId]) fun p₂ t₂ ht₂ hp₂ => ?_
        refine ih ht₂ (hloaded₁.later hp₂) hcurrentId (hcurrent.resolve_right hnot) ?_
        rwa [Nat.add_right_comm k 1 m]

theorem finishSlowRun_finishes {parameters : SlowDemoParameters} {totalSteps : ℕ} 
    (ht : Underway r true n t p) (hloaded : Loaded v run p) (hid : run.id = r)
    (hstatus : run.status = running) (hQ : ∀ x t' p', p'.db.finished r → Q x t' p') :
    Finishes rt κ r Q (finishSlowRun rt run parameters totalSteps) t p := by
  -- every branch finishes the run and reads it back
  have hfinish {p' : Platform} {t' : Session} (ht' : Underway r true n t' p') (hp' : Later p p')
      (changed : Run) (hchanged : changed = { run with
        failureCode := changed.failureCode, failureMessage := changed.failureMessage })
      (target : RunStatus) (htarget : target.finished) (hvalid : target ∈ validTransitions running)
      (eventType : String) (metadata : Record) (added : List Write)
      (hadded : ∀ w ∈ added, w.records? = some r)
      (haccepted : ∀ p'' t'', Underway r true n t'' p'' → Invariant (.sole rt) p'' →
        storage.firstError p'' added = none) :
      Finishes rt κ r Q (finishRun changed target eventType metadata added >>= session.refreshRun {})
        t' p' := by
    refine .bind (finishRun_finishes ht' (hloaded.later hp') hid hchanged htarget
      (hstatus ▸ hvalid) hadded (fun p'' t'' ht'' hI _ => haccepted p'' t'' ht'' hI)
      fun x p'' t'' h => ?_)
    cases x with
    | error e => exact hQ _ _ _ h
    | ok run' => exact .of_finished hQ h
  rw [finishSlowRun]
  split
  · exact hfinish ht (.refl p) (run.withFailure _ _) rfl failed rfl (by simp [validTransitions]) _ _ []
      (by simp) fun _ _ _ _ => rfl
  · refine .call ht.spares fun p₁ i hp₁ hclear => ?_
    have ht₁ := (ht.later hp₁).perform (.put (run.id, "progress.json") (progressJson totalSteps)) i
    have hlater : Later p (Call.perform (.put (run.id, "progress.json") (progressJson totalSteps)) i p₁) :=
      (Later.of_meanwhile hp₁.meanwhile).trans (.perform _ i p₁)
    have hclear := hclear ht.started
    rw [Clear, if_pos (ht.later hp₁).demonstrates] at hclear
    dsimp only
    split
    · exact hfinish ht₁ hlater (run.withFailure _ _) rfl failed rfl (by simp [validTransitions]) _ _ []
        (by simp) fun _ _ _ _ => rfl
    · next exc hexc hfailure =>
      rcases hclear with hnone | ⟨message, hmessage⟩
      · rw [hfailure] at hnone
        cases hnone
      · rw [hfailure, Option.some.injEq] at hmessage
        exact absurd hmessage (hexc message)
    · refine hfinish ht₁ hlater run rfl succeeded rfl (by simp [validTransitions]) _ _
        [.insertArtifact _] (by simp [Write.records?, hid]) fun p₂ t₂ ht₂ hI₂ => ?_
      refine accepted_artifacts (r := r) [_] ?_ (by simp) fun y hy => ?_
      · simp [hid]
      · obtain ⟨hkey, hne⟩ := ht₂.others hI₂ hy
        exact ⟨hkey, fun hrun => absurd hrun hne⟩

theorem executeSlowRun_finishes {parameters : SlowDemoParameters} 
    (ht : Underway r true 1 t p) (hloaded : Loaded v run p) (hid : run.id = r)
    (hstatus : run.status = running) (hQ : ∀ x t' p', p'.db.finished r → Q x t' p') :
    Finishes rt κ r Q (executeSlowRun rt run parameters) t p := by
  refine .call ht.spares fun p₁ i hp₁ _ => ?_
  have ht₁ := (ht.later hp₁).perform (.execute run.id) i
  have hlater₁ : Later p (Call.perform (.execute run.id) i p₁) :=
    (Later.of_meanwhile hp₁.meanwhile).trans (.perform _ i p₁)
  refine commitRecords_finishes ⟨run.id, 1, "INFO", _⟩ [] ht₁ hid rfl (by simp) fun p₂ t₂ ht₂ hp₂ => ?_
  refine .bind (slowCheckpoints_finishes ht₂ (hloaded.later (hlater₁.trans hp₂)) hid hstatus
    (fun x p₃ t₃ h => ?_) fun p₃ t₃ v₃ run₃ ht₃ hloaded₃ hid₃ hstatus₃ => ?_)
  · cases x with
    | error e => exact hQ _ _ _ h
    | ok out => exact .of_finished hQ h
  · exact finishSlowRun_finishes ht₃ hloaded₃ hid₃ hstatus₃ hQ

/-- Storing artifacts leaves the database alone. Where a put fails, nothing has
been added to the session yet. -/
theorem putArtifacts_finishes {Q : Outcome (Except (Bool × Exc) (List Write))} {begun : Bool}
    {artifacts : List GeneratedArtifact} (ht : Underway r false n t p)
    (hfailed : ∀ exc p' t', Underway r false n t' p' → Q (.ok (.error (false, exc))) t' p')
    (h : ∀ p' t', Underway r false n t' p' → Later p p' →
      Q (.ok (.ok (artifactRows rt r artifacts))) t' p') :
    Finishes rt κ r Q (putArtifacts rt r begun artifacts) t p := by
  induction artifacts generalizing begun Q t p with
  | nil => exact h p t ht (.refl p)
  | cons generated rest ih =>
      refine .call ht.spares fun p₁ i hp₁ hclear => ?_
      have hclear := hclear ht.started
      rw [Clear, (ht.later hp₁).demonstrates, if_neg Bool.false_ne_true] at hclear
      have ht₁ := (ht.later hp₁).perform (.put (r, generated.name) generated.data) i
      have hlater₁ : Later p (Call.perform (.put (r, generated.name) generated.data) i p₁) :=
        (Later.of_meanwhile hp₁.meanwhile).trans (.perform _ i p₁)
      dsimp only
      cases hfailure : i.failure with
      | some exc =>
          obtain rfl : begun = false := hclear.resolve_left (by simp [hfailure])
          exact hfailed exc _ _ ht₁
      | none =>
          refine .bind (ih ht₁ (fun exc p₂ t₂ ht₂ => hfailed exc p₂ t₂ ht₂) fun p₂ t₂ ht₂ hp₂ => ?_)
          exact h p₂ t₂ ht₂ (hlater₁.trans hp₂)

/-- The handler finds the run RUNNING and fails it. -/
theorem executeFailed_finishes {exc : Exc} (ht : Underway r false n t p)
    (hid : run.id = r) (hQ : ∀ x t' p', p'.db.finished r → Q x t' p') :
    Finishes rt κ r Q (executeFailed run false exc) t p := by
  refine .rollback ht.spares fun p₁ hp₁ => ?_
  have ht₁ : Underway r false n t.close p₁ := (ht.later hp₁).read ht.writes.symm rfl
  rw [hid, if_neg Bool.false_ne_true]
  refine .getRun ht₁.spares fun p₂ i₂ hp₂ hclear => ?_
  have ht₂ : Underway r false n (t.close.begin i₂) p₂ := (ht₁.later hp₂).read rfl rfl
  obtain ⟨failedRun, hget, hfailedId, hstatus, hloaded⟩ := ht₁.toStarted.current hp₂
  rw [Session.view_close, hget]
  have hrunning : failedRun.status = running :=
    hstatus.resolve_right (hclear ht₁.started ht₂.demonstrates failedRun hget)
  have hfinish (changed : Run) (hchanged : changed = { failedRun with
        failureCode := changed.failureCode, failureMessage := changed.failureMessage }) :
      Finishes rt κ r Q (finishRun changed .failed "run.failed" [] []) (t.close.begin i₂) p₂ :=
    finishRun_finishes ht₂ hloaded hfailedId hchanged rfl (by simp [hrunning, validTransitions])
      (by simp) (fun _ _ _ _ _ => rfl) hQ
  dsimp only
  split
  · exact hfinish _ rfl
  · exact hfinish _ rfl

theorem names_result {result : TemplateResult} :
    (recordsIn (entries r (logRows r result.logs ++ metricRows r result.metrics ++
      artifactRows rt r result.artifacts))).2.2.map Artifact.name =
      result.artifacts.map GeneratedArtifact.name := by
  simp [recordsIn, entries, logRows, metricRows, artifactRows, List.filterMap_map,
    Function.comp_def, Write.entered?, Entry.artifact?]

/-- A result is accepted if its artifacts differ in name. -/
theorem Underway.accepted (ht : Underway r shows 1 t p) (hI : Invariant (.sole rt) p)
    {result : TemplateResult} (hnames : (result.artifacts.map GeneratedArtifact.name).Nodup) :
    storage.firstError p (logRows r result.logs ++ metricRows r result.metrics ++
      artifactRows rt r result.artifacts) = none := by
  have hlogs : storage.firstError p (logRows r result.logs) = none :=
    accepted_logs fun x hx hrun => ht.logs x (List.mem_filter.mpr ⟨hx, by simpa using hrun⟩)
  have hmetrics (p' : Platform) : storage.firstError p' (metricRows r result.metrics) = none := by
    have hrows := accepted_metrics (p := p') (result.metrics.map fun x => ⟨r, x.1, x.2, 1⟩)
    rwa [List.map_map] at hrows
  refine storage.firstError_append_eq_none.mpr
    ⟨storage.firstError_append_eq_none.mpr ⟨hlogs, hmetrics _⟩, ?_⟩
  have hrows : artifactRows rt r result.artifacts = (result.artifacts.map fun generated => {
      runId := r
      name := generated.name
      storageKey := (r, generated.name)
      mimeType := generated.mimeType
      sizeBytes := generated.data.size
      checksum := rt.sha256 generated.data }).map .insertArtifact := by
    rw [List.map_map]
    rfl
  rw [hrows]
  refine accepted_artifacts (r := r) _ (fun x hx => ?_) (by simpa [Function.comp_def])
    fun y hy => ?_
  · obtain ⟨generated, -, rfl⟩ := List.mem_map.mp hx
    exact ⟨rfl, rfl⟩
  · have hmem : y ∈ p.db.artifacts := by
      rw [artifacts_applyAll] at hy
      refine (List.mem_append.mp hy).resolve_right fun hy => ?_
      rcases List.mem_append.mp (mem_artifact hy) with hy | hy
      · exact not_insertArtifact_logRows y hy
      · exact not_insertArtifact_metricRows y hy
    obtain ⟨hkey, hne⟩ := ht.others hI hmem
    exact ⟨hkey, fun hrun => absurd hrun hne⟩

/-- The `try` is left with the run finished: where it fails, its handler may
start. -/
theorem executeTemplate_finishes {definition : TemplateDefinition}
    (ht : Underway r false 1 t p) (hloaded : Loaded v run p) (hid : run.id = r)
    (hstatus : run.status = running) (hQ : ∀ x t' p', p'.db.finished r → Q x t' p') :
    Finishes rt κ r Q (executeTemplate rt definition run) t p := by
  subst hid
  rw [executeTemplate]
  split
  · refine .call ht.spares fun p₁ i hp₁ _ => ?_
    have ht₁ := (ht.later hp₁).perform (.execute run.id) i
    have hlater₁ : Later p (Call.perform (.execute run.id) i p₁) :=
      (Later.of_meanwhile hp₁.meanwhile).trans (.perform _ i p₁)
    dsimp only
    split
    · exact executeFailed_finishes ht₁ rfl hQ
    · refine .bind (putArtifacts_finishes ht₁
        (fun exc p₂ t₂ ht₂ => executeFailed_finishes ht₂ rfl hQ) fun p₂ t₂ ht₂ hp₂ => ?_)
      refine Prog.Meets.tryCatch (finishRun_finishes ht₂ (hloaded.later (hlater₁.trans hp₂)) rfl rfl
        rfl (by simp [hstatus, validTransitions]) (fun w hw => ?_)
        (fun p₃ t₃ ht₃ hI₃ hnames => ht₃.accepted hI₃ (names_result ▸ hnames)) fun x t' p' h => ?_)
      · simp only [List.mem_append] at hw
        rcases hw with (hw | hw) | hw
        · exact records_logRows w hw
        · exact records_metricRows w hw
        · obtain ⟨generated, -, rfl⟩ := List.mem_map.mp hw
          rfl
      · cases x with
        | ok run' => exact hQ _ _ _ h
        | error e => exact hQ _ _ _ h
  · exact executeFailed_finishes ht rfl hQ

theorem registryGet_slow {version : String} {definition : TemplateDefinition}
    (h : registryGet "slow-demonstration" version = .ok definition) :
    definition.parameterModel = .slowDemo := by
  unfold registryGet at h
  split at h
  · next hfind =>
    obtain rfl := Except.ok.inj h
    have hkey := List.find?_some hfind
    have hmem := List.mem_of_find?_eq_some hfind
    simp only [registry, List.mem_cons, List.not_mem_nil, or_false] at hmem
    rcases hmem with rfl | rfl
    · simp at hkey
    · rfl
  · cases h

theorem executeStarted_finishes {template : TrainingTemplate} {values dump : Record}
    {validated : Parameters} 
    (hvalid : validateParameters rt template values = .ok (validated, dump))
    (ht : Underway r (template.key = "slow-demonstration") 1 t p) (hloaded : Loaded v run p)
    (hid : run.id = r) (hstatus : run.status = running)
    (hQ : ∀ x t' p', p'.db.finished r → Q x t' p') :
    Finishes rt κ r Q (executeStarted rt run template validated) t p := by
  obtain ⟨definition, hdefinition, hmodel, -⟩ := validateParameters_ok hvalid
  refine .ofExcept (fun e he => ?_) fun definition' _ => ?_
  · rw [hdefinition] at he
    cases he
  split
  · next hslow =>
    rw [decide_eq_true hslow] at ht
    cases validated with
    | slowDemo parameters => exact executeSlowRun_finishes ht hloaded hid hstatus hQ
    | classification parameters =>
        rw [hslow] at hdefinition
        rw [registryGet_slow hdefinition] at hmodel
        cases hmodel
  · next hslow =>
    rw [decide_eq_false hslow] at ht
    have hdone (x : Except Exc Run) (t' : Session) (p' : Platform) (h : p'.db.finished r) :
        Rest rt κ r Q (session.refreshRun {}) x t' p' := by
      cases x with
      | error e => exact hQ _ _ _ h
      | ok run' => exact .of_finished hQ h
    exact .bind (executeTemplate_finishes ht hloaded hid hstatus hdone)

end Executors

/-! ### Deliveries -/

/-- A run that is loaded as SCHEDULING and started is under way. -/
theorem underway_of_start {v : RunView} {run : Run} {template : TrainingTemplate} {event : RunEvent}
    {now : Time} {ws : List Write}
    (hws : ws = [.updateRun (run.transitioned running now), .insertEvent event])
    (hv : v.Inv) (hrow : v.run = some run) (hstatus : run.status = scheduling)
    (hevent : event.runId = run.id ∧ event.previousStatus = some scheduling ∧
      event.newStatus = some running) (htemplate : p.db.templates.get? run.templateId = some template)
    (hrecords : p.db.recordsOf run.id = ([], [], [])) (hview : p.db.runView run.id = v)
    (hacc : storage.firstError p ws = none) (hwrites : t.writes = [])
    (hstarted : 0 < startsOf run.id t.committed) :
    Underway run.id (template.key = "slow-demonstration") 1 t (storage.applyAll p ws) ∧
      Loaded ((storage.applyAll p ws).db.runView run.id) (run.transitioned running now).flushed
        (storage.applyAll p ws) := by
  have hafter : (storage.applyAll p ws).db.runView run.id = onRun run.id ws v :=
    hview ▸ runView_applyAll hacc run.id
  obtain ⟨lease, hlease, -⟩ := (hv.present run hrow).leased (by simp [hstatus, RunStatus.leased])
  have hstep : RunStep (.start lease) v ((storage.applyAll p ws).db.runView run.id) := by
    rw [hafter, hws]
    exact start_step hrow hstatus hlease hevent
  have hinv := hstep.inv hv
  have hget : (storage.applyAll p ws).db.runs.get? run.id =
      some (run.transitioned running now).flushed := by
    refine (congrArg RunView.run hafter).trans ?_
    rw [hws]
    simp [Write.onRun, hevent, hrow, Run.stored, Run.flushed, Run.transitioned]
  have hrecords' : (storage.applyAll p ws).db.recordsOf run.id = ([], [], []) := by
    rw [recordsOf_applyAll, hrecords, hws]
    simp [Write.entered?, hevent]
  refine ⟨⟨⟨hinv, hstarted, ⟨_, hget, rfl, fun _ _ => trivial⟩, ?_⟩, hwrites, ?_, ?_⟩, hinv, hget, .refl⟩
  · have htemplate' : (storage.applyAll p ws).db.templates.get? run.templateId = some template := by
      rw [templates_applyAll, htemplate]
    simp [Db.demonstrates, hget, Run.flushed, Run.transitioned, htemplate']
  · simp [hrecords']
  · simp [hrecords']

theorem executeExistingRun_finishes {Q : Outcome (Option Run)} {expectedWorkerId leaseToken : Option Uuid}
    (hidle : startsOf r t.committed = 0) (ht : t.writes = [])
    (hQ : ∀ x t' p', startsOf r t'.committed = 0 → t'.writes = [] → Q x t' p')
    (hfinished : ∀ x t' p', p'.db.finished r → Q x t' p') :
    Finishes rt κ r Q (executeExistingRun rt r expectedWorkerId leaseToken) t p := by
  have hf {γ : Type} {k : γ → Program (Option Run)} {t' : Session} : Spares r t' (Rest rt κ r Q k) :=
    fun h e p => hQ _ _ _ h rfl
  have hf' {t' : Session} : Spares r t' Q := fun h e p => hQ _ _ _ h rfl
  refine .getRun hf' fun p₁ i₁ hp₁ _ => ?_
  rw [Session.view, ht, Storage.applyAll_nil]
  cases hget : p₁.db.runs.get? r with
  | none => exact hQ _ _ _ hidle ht
  | some run =>
      obtain rfl := Table.key_of_get? hget
      have hloaded : Loaded (p₁.db.runView run.id) run p₁ := .of_get hp₁.meanwhile.inv hget
      have hcoherent := hloaded.inv.present run hloaded.row
      dsimp only
      split
      · next hstatus =>
        refine .select hf' fun p₂ i₂ hp₂ _ => ?_
        split
        · exact hQ _ _ _ hidle ht
        · split
          · refine .select hf' fun p₃ i₃ hp₃ _ => ?_
            rw [Session.view, Session.begin_writes, Session.begin_writes, ht, Storage.applyAll_nil]
            cases htemplate : p₃.db.templates.get? run.templateId with
            | none => exact hQ _ _ _ hidle ht
            | some template =>
                refine .select hf' fun p₄ i₄ hp₄ _ => ?_
                refine .ofExcept (fun e _ => hQ _ _ _ hidle ht) fun validated hvalid => ?_
                obtain ⟨values, dump⟩ := validated
                refine .transitionRun hf' (by simp [hstatus, validTransitions]) fun p₅ t₅ now ht₅ hp₅ => ?_
                have hwrites₅ : t₅.writes = [] := ht₅.writes.trans ht
                have hidle₅ : startsOf run.id t₅.committed = 0 := ht₅.committed ▸ hidle
                refine .commit hf' (fun message hmem => hidle₅)
                  (fun p' i e _ _ _ => hQ _ _ _ hidle₅ rfl) fun p₆ i₆ t₆ hp₆ hwrites₆ hcommitted₆ hacc => ?_
                rw [hwrites₅, List.nil_append] at hcommitted₆ hacc ⊢
                -- the update is accepted only if the run is still as it was loaded
                have hlater : Later p₁ p₆ := (Later.of_meanwhile hp₂.meanwhile).trans
                  ((Later.of_meanwhile hp₃.meanwhile).trans ((Later.of_meanwhile hp₄.meanwhile).trans
                    ((Later.of_meanwhile hp₅.meanwhile).trans (.of_meanwhile hp₆.meanwhile))))
                have hview := (hloaded.later hlater).of_accepted_head hacc rfl rfl
                have hnew : (p₆.db.runView run.id).entered running = 0 := by
                  rw [hview, hcoherent.started, hstatus]
                  rfl
                have htemplates : p₆.db.templates = p₃.db.templates :=
                  hp₆.meanwhile.rely.templates.trans
                    (hp₅.meanwhile.rely.templates.trans hp₄.meanwhile.rely.templates)
                have hstarts : 0 < startsOf run.id t₆.committed := by
                  rw [hcommitted₆]
                  simp [startsOf, storage, Write.stamp, Session.stamped, Run.transitionEvent]
                obtain ⟨ht₆, hloaded₆⟩ := underway_of_start rfl hloaded.inv hloaded.row hstatus
                  ⟨rfl, congrArg some hstatus, rfl⟩ (htemplates ▸ htemplate) (hp₆.bare hnew) hview hacc
                  hwrites₆ hstarts
                refine .bind (executeStarted_finishes hvalid ht₆ hloaded₆ rfl rfl fun x p' t' h => ?_)
                cases x with
                | error e => exact hfinished _ _ _ h
                | ok run' => exact hfinished _ _ _ h
          · exact hQ _ _ _ hidle ht
      · exact hQ _ _ _ hidle ht

/-- The run has not been started by this session, or it is finished. -/
def Settled (r : Uuid) : Outcome α := fun _ t p => startsOf r t.committed = 0 ∨ p.db.finished r

/-- A delivery leaves its run settled, and enters that it has processed the
message only then. -/
theorem processEvent_finishes (settings : Settings) {event : EventEnvelope} {workerId : Option Uuid}
    (hrun : event.runId = some r) :
    Finishes rt κ r (Settled r) ((Kind.processEvent event workerId).code rt settings) .fresh p := by
  have hf {γ : Type} {k : γ → Program Unit} {t : Session} : Spares r t (Rest rt κ r (Settled r) k) :=
    fun h _ _ => .inl h
  have hret {b : Bool} {t : Session} {p : Platform} (h : startsOf r t.committed = 0) :
      Rest rt κ r (Settled r) (fun _ : Bool => Prog.ret ()) (.ok b) t p := .inl h
  refine .bind ?_
  rw [processEvent]
  split
  · exact hret rfl
  · rw [processAssignment, hrun]
    cases event.workerId with
    | none => exact hret rfl
    | some eventWorkerId =>
        refine .select hf fun p₁ i₁ hp₁ _ => ?_
        split
        · exact hret rfl
        · refine .ofExcept (fun _ _ => .inl rfl) fun token _ => ?_
          refine .bind (executeExistingRun_finishes rfl rfl (fun x t p h ht => ?_) fun x t p h => ?_)
          · cases x with
            | error e => exact .inl h
            | ok run =>
                refine .commit hf (fun _ _ => h) (fun _ _ _ _ _ _ => .inl h)
                  fun p' i t' _ _ hcommitted _ => hret ?_
                rw [hcommitted, ht, startsOf_append, h]
                simp [startsOf, storage, Write.stamp, Session.stamped]
          · have hdone (x : Except Exc Bool) (t : Session) (p : Platform) (h : p.db.finished r) :
                Rest rt κ r (Settled r) (fun _ : Bool => Prog.ret ()) x t p := by
              cases x with
              | error e => exact .inr h
              | ok b => exact .inr h
            cases x with
            | error e => exact .inr h
            | ok run => exact .of_finished hdone h

end Runscope
