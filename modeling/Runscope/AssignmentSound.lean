import Runscope.CommandsSound
import Runscope.Pass
import Runscope.ReleaseSound

/-!
The assignment of queued runs, one round of the loop after the other. The
queued runs are locked, and so is the worker a run fits on; since nothing has
been taken from the worker that its counters do not show, what they call
available is available.
-/

namespace Runscope

open Transact RunStatus

variable {m : Mode} {κ : Kind} {t : Session} {p : Platform}

/-- What a scheduler pass may do to the leases of a worker. -/
def WorkerView.Room (v v' : WorkerView) : Prop := v'.Fits ∨ v.Shrinks v'

/-! ### The run and the worker -/

section Step

variable {run : Run} {worker : Worker} {a : ResourceAllocation} {event : RunEvent}
  {message : OutboxMessage} {now : Time}

/-- The writes of one assignment. -/
def assignWrites (run : Run) (worker : Worker) (event : RunEvent) (message : OutboxMessage)
    (now : Time) : List Write :=
  [.updateRun ({ run with assignedWorkerId := some worker.id }.transitioned .scheduling now),
    .insertEvent event] ++ workerUpdate worker (worker.reserve run) ++ [.insertOutbox message]

/-- The lease is for this run, and the message and the event are about it. -/
structure Assignment (run : Run) (worker : Worker) (a : ResourceAllocation) (event : RunEvent)
    (message : OutboxMessage) : Prop where
  runId : a.runId = run.id
  workerId : a.workerId = worker.id
  cpu : a.cpu = run.requestedCpu
  memoryMb : a.memoryMb = run.requestedMemoryMb
  active : a.releasedAt = none
  event : event.runId = run.id ∧ event.previousStatus = some run.status ∧
    event.newStatus = some scheduling
  messageRun : message.envelope.runId = some run.id
  carries : Carries message.envelope a.lease

theorem assign_step {v : RunView} (h : Assignment run worker a event message) (hrow : v.run = some run)
    (hstatus : run.status = queued) :
    RunStep (.assign a.lease) v
      (onRun run.id (.insertAllocation a :: assignWrites run worker event message now) v) := by
  have hstep := RunStep.assign v run a.lease message.envelope (run.version + 1) hrow hstatus
    (by omega) h.active h.cpu h.memoryMb h.carries
  have hskip (v : RunView) : onRun run.id (workerUpdate worker (worker.reserve run)) v = v :=
    onRun_of_forall_ne (fun w hw => by
      simp [(Write.upkeep_inert (upkeep_workerUpdate _ _ w hw).1).1]) v
  obtain ⟨hevent, hprevious, hnew⟩ := h.event
  rw [assignWrites, onRun_cons, onRun_append, onRun_append, hskip]
  simpa [Write.onRun, hrow, h.runId, hevent, hprevious, hnew, h.messageRun, Run.stored,
    Run.transitioned, hstatus, h.workerId, ResourceAllocation.lease] using hstep

/-- What is available is not taken. -/
theorem withLeases_assigned {leases : List Lease} (h : Assignment run worker a event message)
    (hcounted : worker.withLeases leases = worker) (hcpu : 0 < run.requestedCpu)
    (hmemory : 0 < run.requestedMemoryMb) (hfitsCpu : run.requestedCpu ≤ worker.availableCpu)
    (hfitsMemory : run.requestedMemoryMb ≤ worker.availableMemoryMb) :
    (worker.reserve run).withLeases (leases ++ [a.lease]) = worker.reserve run ∧
      ((leases ++ [a.lease]).map Lease.cpu).sum ≤ worker.totalCpu ∧
      ((leases ++ [a.lease]).map Lease.memoryMb).sum ≤ worker.totalMemoryMb := by
  have hfreeCpu : max 0 (worker.totalCpu - (leases.map Lease.cpu).sum) = worker.availableCpu :=
    congrArg Worker.availableCpu hcounted
  have hfreeMemory : max 0 (worker.totalMemoryMb - (leases.map Lease.memoryMb).sum) =
      worker.availableMemoryMb := congrArg Worker.availableMemoryMb hcounted
  have hcount : leases.length = worker.currentRunCount := congrArg Worker.currentRunCount hcounted
  have hleaseCpu : a.lease.cpu = run.requestedCpu := h.cpu
  have hleaseMemory : a.lease.memoryMb = run.requestedMemoryMb := h.memoryMb
  have hcpuLeft : worker.totalCpu - (leases.map Lease.cpu).sum = worker.availableCpu := by
    rcases max_choice 0 (worker.totalCpu - (leases.map Lease.cpu).sum) with h | h
    · rw [h] at hfreeCpu
      linarith
    · rw [← hfreeCpu, h]
  have hmemoryLeft : worker.totalMemoryMb - (leases.map Lease.memoryMb).sum =
      worker.availableMemoryMb := by omega
  refine ⟨?_, ?_, ?_⟩
  · have hcpuAfter : max 0 (worker.totalCpu - ((leases.map Lease.cpu).sum + run.requestedCpu)) =
        worker.availableCpu - run.requestedCpu := by
      rw [max_eq_right (by linarith)]
      linarith
    have hmemoryAfter : max 0 (worker.totalMemoryMb - ((leases.map Lease.memoryMb).sum +
        run.requestedMemoryMb)) = worker.availableMemoryMb - run.requestedMemoryMb := by omega
    simp [Worker.withLeases, Worker.reserve, hleaseCpu, hleaseMemory, hcpuAfter, hmemoryAfter, hcount]
  · simp only [List.map_append, List.map_cons, List.map_nil, List.sum_append, List.sum_cons,
      List.sum_nil, hleaseCpu]
    linarith
  · simp only [List.map_append, List.map_cons, List.map_nil, List.sum_append, List.sum_cons,
      List.sum_nil, hleaseMemory]
    omega

/-- So the worker stays balanced and has room. -/
theorem assign_worker {v : WorkerView} (h : Assignment run worker a event message)
    (hrow : v.row = some worker) (hbalanced : v.Balanced) (hcpu : 0 < run.requestedCpu)
    (hmemory : 0 < run.requestedMemoryMb) (hfitsCpu : run.requestedCpu ≤ worker.availableCpu)
    (hfitsMemory : run.requestedMemoryMb ≤ worker.availableMemoryMb) :
    let v' := onWorker worker.id
      (.insertAllocation a :: assignWrites run worker event message now) v
    v'.Balanced ∧ v'.Fits := by
  obtain ⟨hcounted, hfits⟩ := withLeases_assigned h (hbalanced.counted worker hrow) hcpu hmemory
    hfitsCpu hfitsMemory
  have hinsert : (Write.insertAllocation a).onWorker worker.id v =
      { v with leases := v.leases ++ [a.lease] } := by
    simp [Write.onWorker, h.workerId, ResourceAllocation.active, h.active]
  have hupdate := @onWorker_workerUpdate worker (worker.reserve run)
    { v with leases := v.leases ++ [a.lease] } hrow rfl rfl
  intro v'
  have hv' : v' = ⟨some (worker.reserve run), v.leases ++ [a.lease]⟩ := by
    simp only [v', assignWrites, onWorker_cons, onWorker_append, hinsert]
    simp only [Write.onWorker, onWorker_nil]
    exact hupdate
  rw [hv']
  refine ⟨⟨by rintro ⟨⟩, ?_⟩, ?_⟩
  · rintro _ ⟨⟩
    exact hcounted
  · rintro _ ⟨⟩
    exact hfits

/-- The assignment concerns one run and one worker. -/
theorem assignWrites_cases (h : Assignment run worker a event message) {w : Write}
    (hw : w ∈ .insertAllocation a :: assignWrites run worker event message now) :
    (w.run? = none ∨ w.run? = some run.id) ∧ (w.worker? = none ∨ w.worker? = some worker.id) ∧
      w.records? = none ∧ w.founds = false ∧
      ∀ x, w = .insertOutbox x → x.envelope.runId = some run.id := by
  simp only [assignWrites, List.mem_append, List.mem_cons, List.not_mem_nil, or_false] at hw
  rcases hw with rfl | ((rfl | rfl) | hw) | rfl
  · exact ⟨.inr (congrArg some h.runId), .inr (congrArg some h.workerId), rfl, rfl, by simp⟩
  · exact ⟨.inr rfl, .inl rfl, rfl, rfl, by simp⟩
  · refine ⟨.inr ?_, .inl rfl, rfl, rfl, by simp⟩
    simp [Write.run?, h.event.1, h.event.2.2]
  · obtain ⟨hupkeep, hworker⟩ := upkeep_workerUpdate _ _ w hw
    have hinert := Write.upkeep_inert hupkeep
    exact ⟨.inl hinert.1, .inr hworker, hinert.2.1, Write.upkeep_founds hupkeep,
      fun x hx => absurd hx (hinert.2.2.2.1 x)⟩
  · refine ⟨.inr h.messageRun, .inl rfl, rfl, rfl, ?_⟩
    rintro x ⟨⟩
    exact h.messageRun

end Step

/-! ### The pass -/

section Loop

variable {run : Run} {worker : Worker} {a : ResourceAllocation} {event : RunEvent}
  {message : OutboxMessage} {now : Time} {pt : Point} {t' : Session} {p' : Platform}
  {pending : List Write}

/-- Every run the pass sees is coherent. -/
theorem Pass.inv {room : WorkerView → WorkerView → Prop} (h : Pass m room pt t p pending)
    (hI : Invariant m p) (r : Uuid) : (onRun r (t.writes ++ pending) (p.db.runView r)).Inv := by
  rcases h.runs r with hne | ⟨-, hlives⟩
  · rw [onRun_of_forall_ne hne]
    exact hI.runs r
  · exact hlives.inv (hI.runs r)

/-- A run of the queue, locked, as the pass sees it. -/
structure Queued (t : Session) (p : Platform) (pending : List Write) (run : Run) : Prop where
  locked : RowKey.run run.id ∈ t.locks
  row : (onRun run.id (t.writes ++ pending) (p.db.runView run.id)).run = some run
  status : run.status = queued

theorem Queued.stable (h : Queued t p pending run) (hp' : Meanwhile m κ pt t p p') :
    Queued t p' pending run :=
  { h with row := by rw [Pass.runView_locked h.locked hp']; exact h.row }

theorem Queued.flush (h : Queued t p pending run) (hplain : ∀ run, .insertRun run ∉ pending)
    (i : Input) : Queued ((t.begin i).write storage (t.stamped storage i pending)) p [] run where
  locked := List.mem_append_right _ h.locked
  row := by
    have hstamp (v : RunView) : onRun run.id (t.stamped storage i pending) v =
        onRun run.id pending v := onRun_stamp hplain _ _ v
    rw [List.append_nil, Session.write_writes, Session.begin_writes, onRun_append, hstamp,
      ← onRun_append]
    exact h.row
  status := h.status

theorem Queued.read (h : Queued t p pending run) (hlocks : ∀ r ∈ t.locks, r ∈ t'.locks)
    (hwrites : t'.writes = t.writes) : Queued t' p pending run :=
  { h with
    locked := hlocks _ h.locked
    row := by rw [hwrites]; exact h.row }

/-- The state in which a run is assigned: the insert of the lease has been
flushed, the other writes are pending. -/
structure Assigns (m : Mode) (t t' : Session) (p p' : Platform) (run : Run) (worker : Worker)
    (a : ResourceAllocation) (event : RunEvent) (message : OutboxMessage) : Prop where
  pass : Pass m WorkerView.Room {} t p []
  inv : Invariant m p
  queued : Queued t p [] run
  locked : RowKey.worker worker.id ∈ t.locks
  row : (onWorker worker.id t.writes (p.db.workerView worker.id)).row = some worker
  fitsCpu : run.requestedCpu ≤ worker.availableCpu
  fitsMemoryMb : run.requestedMemoryMb ≤ worker.availableMemoryMb
  assignment : Assignment run worker a event message
  flushed : Flushed m .schedule {} t t' p p' [.insertAllocation a]

namespace Assigns

theorem writes (h : Assigns m t t' p p' run worker a event message) :
    t'.writes ++ assignWrites run worker event message now =
      t.writes ++ .insertAllocation a :: assignWrites run worker event message now := by
  rw [h.flushed.writes, List.append_assoc]
  rfl

theorem run?_ne (h : Assigns m t t' p p' run worker a event message) {r : Uuid} (hr : r ≠ run.id) :
    ∀ w ∈ .insertAllocation a :: assignWrites run worker event message now, w.run? ≠ some r := by
  intro w hw
  rcases (assignWrites_cases h.assignment hw).1 with h | h <;> simp [h, Ne.symm hr]

theorem pass_after (h : Assigns m t t' p p' run worker a event message) :
    Pass m WorkerView.Room {} t' p' (assignWrites run worker event message now) := by
  have hbefore := h.pass.stable h.flushed.meanwhile
  have hold {w : Write} (hw : w ∈ t.writes) : w ∈ t.writes ++ [] := by simpa using hw
  constructor
  · intro w hw
    rw [h.writes] at hw
    rcases List.mem_append.mp hw with hw | hw
    · exact h.pass.plain w (hold hw)
    · have hcases := assignWrites_cases h.assignment hw
      exact ⟨hcases.2.2.1, hcases.2.2.2.1⟩
  · intro x hx
    rw [h.writes] at hx
    rcases List.mem_append.mp hx with hx | hx
    · exact h.pass.addressed x (hold hx)
    · exact ⟨run.id, (assignWrites_cases h.assignment hx).2.2.2.2 x rfl⟩
  · intro r
    rw [h.writes]
    by_cases hr : r = run.id
    · subst hr
      have hqueued := h.queued.stable h.flushed.meanwhile
      have hrow := hqueued.row
      rw [List.append_nil] at hrow
      refine .inr ⟨h.flushed.locks _ h.queued.locked, ?_⟩
      rw [onRun_append]
      refine Chain.trans ?_ (.single (.assign a.lease) trivial
        (assign_step h.assignment hrow hqueued.status))
      rcases hbefore.runs run.id with hne | ⟨-, hlives⟩
      · rw [onRun_of_forall_ne fun w hw => hne w (hold hw)]
        exact .refl
      · simpa using hlives
    · refine (hbefore.runs r).imp (fun hne w hw => ?_) fun ⟨hlock, hlives⟩ =>
        ⟨h.flushed.locks _ hlock, ?_⟩
      · exact (List.mem_append.mp hw).elim (fun hw => hne w (hold hw)) (h.run?_ne hr w)
      · rw [onRun_append, onRun_of_forall_ne (h.run?_ne hr)]
        simpa using hlives
  · intro hm id
    rw [h.writes]
    by_cases hid : id = worker.id
    · subst hid
      have hbalanced := hbefore.balanced h.flushed.inv hm worker.id
      have hrow := h.row
      rw [List.append_nil] at hbalanced
      rw [← h.flushed.meanwhile.rely.locked hm worker.id h.locked] at hrow
      have hpositive := (h.pass.inv h.inv run.id).present run h.queued.row
      obtain ⟨hbalanced', hfits⟩ :=
        @assign_worker run worker a event message now _ h.assignment hrow hbalanced
        hpositive.requestedCpu hpositive.requestedMemoryMb h.fitsCpu h.fitsMemoryMb
      rw [onWorker_append]
      exact .inr ⟨.inl (h.flushed.locks _ h.locked), hbalanced', .inl hfits⟩
    · have hne : ∀ w ∈ .insertAllocation a :: assignWrites run worker event message now,
          w.worker? ≠ some id := by
        intro w hw
        rcases (assignWrites_cases h.assignment hw).2.1 with h | h <;> simp [h, Ne.symm hid]
      refine (hbefore.workers hm id).imp (fun hnew w hw => ?_) fun ⟨hkept, hok⟩ => ⟨.inl ?_, ?_⟩
      · exact (List.mem_append.mp hw).elim (fun hw => hnew w (hold hw)) (hne w)
      · rcases hkept with hlock | ⟨-, hupdated, -⟩
        · exact h.flushed.locks _ hlock
        · cases hupdated
      · rw [onWorker_append, onWorker_of_forall_ne hne]
        simpa using hok

/-- The rest of the queue waits. -/
theorem queued_after (h : Assigns m t t' p p' run worker a event message) {other : Run}
    (hother : Queued t p [] other) (hne : other.id ≠ run.id) :
    Queued t' p' (assignWrites run worker event message now) other := by
  have hstable := hother.stable h.flushed.meanwhile
  refine ⟨h.flushed.locks _ hother.locked, ?_, hother.status⟩
  rw [h.writes, onRun_append, onRun_of_forall_ne (h.run?_ne hne), ← List.append_nil t.writes]
  exact hstable.row

end Assigns

/-- A run without an unreleased lease can be given one. -/
theorem firstError_insertAllocation (h : (p.db.runView a.runId).active = []) :
    storage.firstError p [.insertAllocation a] ≠
      some (.integrity "uq_resource_allocations_active_run") := by
  rw [active_runView, List.map_eq_nil_iff] at h
  have hnone : (p.db.activeAllocations.any fun y => y.runId = a.runId) = false := by
    rw [List.any_eq_false]
    intro b hb hrun
    have : b ∈ p.db.activeAllocations.filter fun b => b.runId = a.runId := by
      simpa [hb] using hrun
    simp [h] at this
  simp only [Storage.firstError, storage, Write.check, hnone]
  split_ifs <;> simp_all

/-- What the scheduler knows of a worker a run fits on. -/
theorem mem_fitting {db : Db} {healthyAfter : Time} {free : Worker → Bool}
    (h : worker ∈ db.fitting healthyAfter run free) :
    db.workers.get? worker.id = some worker ∧ run.requestedCpu ≤ worker.availableCpu ∧
      run.requestedMemoryMb ≤ worker.availableMemoryMb := by
  have hmem := List.mem_of_mem_take h
  rw [List.mem_insertionSort] at hmem
  obtain ⟨hrow, hfits⟩ := List.mem_filter.mp hmem
  simp only [decide_eq_true_eq] at hfits
  exact ⟨Table.get?_of_mem hrow, hfits.2.2.1, hfits.2.2.2.1⟩

theorem assignRuns_holds {Q : Outcome (ℕ × List Write)} {settings : Settings}
    {now healthyAfter : Time} {runs : List Run} (hf : Fails m Q p) (hI : Invariant m p)
    (hpass : Pass m WorkerView.Room {} t p pending) (hactive : ∀ a, .insertAllocation a ∉ pending)
    (hqueued : ∀ run ∈ runs, Queued t p pending run) (hnodup : (runs.map Run.id).Nodup)
    (hQ : ∀ p' t' n pending', Invariant m p' → Later p p' →
      Pass m WorkerView.Room {} t' p' pending' → (∀ a, .insertAllocation a ∉ pending') →
      Q (.ok (n, pending')) t' p') :
    Holds m .schedule Q (assignRuns settings now healthyAfter pending runs) t p := by
  induction runs generalizing Q t p pending with
  | nil => exact hQ p t 0 pending hI (.refl p) hpass hactive
  | cons run rest ih =>
      have hplain (x : Run) : .insertRun x ∉ pending := fun hx => by
        simpa [Write.founds] using (hpass.plain _ (List.mem_append_right _ hx)).2
      rw [List.map_cons, List.nodup_cons] at hnodup
      refine .flush' hf hactive fun p₁ i₁ hp₁ _ => ?_
      have hlater₁ : Later p p₁ := .of_meanwhile hp₁
      have hpass₁ := (hpass.stable hp₁).flush i₁
      have hqueued₁ (r : Run) (hr : r ∈ run :: rest) := ((hqueued r hr).stable hp₁).flush hplain i₁
      generalize (t.begin i₁).write storage (t.stamped storage i₁ pending) = t₁ at *
      refine .selectForUpdate (hf.later hlater₁) fun p₂ i₂ free hp₂ => ?_
      have hlater₂ := hlater₁.trans (.of_meanwhile hp₂)
      generalize hfound : (t₁.view storage p₂).db.fitting healthyAfter run free = found
      have hkeep (r : RowKey) (hr : r ∈ t₁.locks) :
          r ∈ ((t₁.begin i₂).lock (found.map fun w => .worker w.id)).locks :=
        List.mem_append_right _ hr
      have hpass₂ := ((hpass₁.stable hp₂).begin i₂).lock (found.map fun w => .worker w.id)
      have hqueued₂ (r : Run) (hr : r ∈ run :: rest) :=
        ((hqueued₁ r hr).stable hp₂).read hkeep rfl
      cases found with
      | nil =>
          exact ih (hf.later hlater₂) hp₂.inv hpass₂ (by simp)
            (fun r hr => hqueued₂ r (List.mem_cons_of_mem _ hr)) hnodup.2
            fun p' t' n pending' hI' hp' => hQ p' t' n pending' hI' (hlater₂.trans hp')
      | cons worker others =>
          obtain ⟨hget, hfitsCpu, hfitsMemory⟩ := mem_fitting (hfound ▸ List.mem_cons_self)
          have hrow : (onWorker worker.id t₁.writes (p₂.db.workerView worker.id)).row = some worker :=
            (congrArg WorkerView.row (workerView_applyAll hp₂.accepted worker.id)).symm.trans hget
          have hlock : RowKey.worker worker.id ∈
              ((t₁.begin i₂).lock ((worker :: others).map fun w => .worker w.id)).locks :=
            List.mem_append_left _ (by simp)
          have hwrites : ((t₁.begin i₂).lock ((worker :: others).map fun w => .worker w.id)).writes =
              t₁.writes := rfl
          rw [← hwrites] at hrow
          generalize (t₁.begin i₂).lock ((worker :: others).map fun w => .worker w.id) = t₂ at *
          have hI₂ := hp₂.inv
          refine .uuid4 fun p₃ t₃ id ht₃ hp₃ => .uuid4 fun p₄ t₄ token ht₄ hp₄ => ?_
          have h₄ := (((Flushed.start hp₃).idle ht₃).next hp₄).idle ht₄
          extract_lets a
          have hwrites₄ : t₄.writes = t₂.writes := ht₄.writes.trans ht₃.writes
          refine .flush (hf.later (hlater₂.trans h₄.later)) (fun p₅ i₅ hp₅ => ?_)
            fun p₅ i₅ hp₅ hacc₅ => ?_
          · -- the run is queued, so it holds no lease
            have h₅ := h₄.next hp₅
            have hqueued₅ := (hqueued₂ run (by simp)).stable h₅.meanwhile
            have hrun := ((hpass₂.stable h₅.meanwhile).inv hp₅.inv run.id).present run hqueued₅.row
            have hnone := hrun.unleased (by simp [hqueued₅.status, RunStatus.leased])
            refine firstError_insertAllocation ?_
            have hview : (t₄.view storage p₅).db.runView run.id =
                onRun run.id t₄.writes (p₅.db.runView run.id) := runView_applyAll hp₅.accepted run.id
            rw [List.append_nil, ← hwrites₄, ← hview] at hnone
            exact hnone
          · have h₅ := (h₄.next hp₅).flush hacc₅
            rw [List.nil_append] at h₅
            generalize (t₄.begin i₅).write storage (t₄.stamped storage i₅ [.insertAllocation a]) = t₅
              at h₅ ⊢
            refine .transitionRun (hf.later (hlater₂.trans h₅.later)) h₅.inv
              fun p₆ t₆ time ht₆ hp₆ _ => ?_
            have h₆ := (h₅.next hp₆).idle ht₆
            refine .bind (.uuid4 fun p₇ t₇ correlationId ht₇ hp₇ => newMessage_holds
              fun p₈ t₈ message ht₈ hp₈ htype hrunId hworkerId hpayload => ?_)
            have h₈ : Flushed m .schedule {} t₂ t₈ p₂ p₈ [.insertAllocation a] :=
              (((h₆.next hp₇).idle ht₇).next hp₈).idle ht₈
            have hlater₈ := hlater₂.trans h₈.later
            have hassigns : Assigns m t₂ t₈ p₂ p₈ run worker a
                (Run.transitionEvent { run with assignedWorkerId := some worker.id } .scheduling
                  "run.scheduling" [("worker_id", .uuid worker.id), ("lease_id", .uuid a.id)]) message :=
              { pass := hpass₂
                inv := hI₂
                queued := hqueued₂ run (by simp)
                locked := hlock
                row := hrow
                fitsCpu := hfitsCpu
                fitsMemoryMb := hfitsMemory
                assignment := ⟨rfl, rfl, rfl, rfl, rfl, ⟨rfl, rfl, rfl⟩, hrunId, htype, hworkerId, hpayload⟩
                flushed := h₈ }
            refine .bind (ih (hf.later hlater₈).then h₈.inv hassigns.pass_after ?_ (fun r hr => ?_)
              hnodup.2 fun p' t' n pending' hI' hp' hpass' hactive' =>
                hQ p' t' (n + 1) pending' hI' (hlater₈.trans hp') hpass' hactive')
            · intro b hb
              simp only [List.mem_append, List.mem_cons, List.not_mem_nil, or_false] at hb
              rcases hb with ((hb | hb) | hb) | hb
              · cases hb
              · cases hb
              · exact absurd rfl ((Write.upkeep_inert (upkeep_workerUpdate _ _ _ hb).1).2.2.2.2 b)
              · cases hb
            · refine hassigns.queued_after (hqueued₂ r (List.mem_cons_of_mem _ hr)) fun heq => ?_
              exact hnodup.1 (List.mem_map.mpr ⟨r, hr, heq⟩)

end Loop

end Runscope
