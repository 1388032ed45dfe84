import Mathlib.Data.List.Sort
import Runscope.Annotations
import Runscope.Reconciliation

/-!
In which order a pass of the scheduler assigns the runs of its queue, and when
it assigns none.

Along the loop the workers only lose room, so a run that was passed over fits
no worker for the rest of the pass. The queue is a prefix of the queued runs in
order: whatever precedes an assigned run was looked at before.
-/

namespace Runscope

open Transact RunStatus

variable {healthyAfter : Time} {run : Run} {workers workers' : Table Worker.id}

/-- The worker is online, was heard of since `healthyAfter` and has room for
the run. -/
structure Worker.Suits (healthyAfter : Time) (run : Run) (w : Worker) : Prop where
  online : w.status = .online
  heartbeat : healthyAfter ≤ w.lastHeartbeatAt
  cpu : run.requestedCpu ≤ w.availableCpu
  memoryMb : run.requestedMemoryMb ≤ w.availableMemoryMb

/-- Some worker suits the run. -/
def Suited (healthyAfter : Time) (run : Run) (workers : Table Worker.id) : Prop :=
  ∃ w ∈ workers.rows, w.Suits healthyAfter run

theorem mem_fitting_iff {db : Db} {w : Worker} : w ∈ (db.workers.rows.filter fun w =>
      w.status = .online ∧ healthyAfter ≤ w.lastHeartbeatAt ∧ run.requestedCpu ≤ w.availableCpu ∧
      run.requestedMemoryMb ≤ w.availableMemoryMb ∧ (fun _ => true) w) ↔
    w ∈ db.workers.rows ∧ w.Suits healthyAfter run := by
  rw [List.mem_filter, decide_eq_true_eq]
  refine and_congr_right fun _ => ⟨fun ⟨h₁, h₂, h₃, h₄, _⟩ => ⟨h₁, h₂, h₃, h₄⟩, fun h => ?_⟩
  exact ⟨h.online, h.heartbeat, h.cpu, h.memoryMb, rfl⟩

/-- No worker is found only where none suits. -/
theorem not_suited_of_fitting {db : Db}
    (h : db.fitting healthyAfter run (fun _ => true) = []) :
    ¬ Suited healthyAfter run db.workers := by
  rintro ⟨w, hw, hsuits⟩
  have hmem := (List.mem_insertionSort Worker.precedes).mpr (mem_fitting_iff.mpr ⟨hw, hsuits⟩)
  rw [Db.fitting, List.take_eq_nil_iff] at h
  exact List.ne_nil_of_mem hmem (h.resolve_left one_ne_zero)

theorem suits_of_fitting {db : Db} {w : Worker} {rest : List Worker}
    (h : db.fitting healthyAfter run (fun _ => true) = w :: rest) :
    w ∈ db.workers.rows ∧ w.Suits healthyAfter run := by
  have hmem : w ∈ db.fitting healthyAfter run fun _ => true := h ▸ List.mem_cons_self
  exact mem_fitting_iff.mp ((List.mem_insertionSort _).mp (List.mem_of_mem_take hmem))

/-- The workers of `workers'` are those of `workers`, with no more room. -/
def Narrows (workers workers' : Table Worker.id) : Prop :=
  ∀ w' ∈ workers'.rows, ∃ w ∈ workers.rows, w'.status = w.status ∧
    w'.lastHeartbeatAt = w.lastHeartbeatAt ∧ w'.availableCpu ≤ w.availableCpu ∧
    w'.availableMemoryMb ≤ w.availableMemoryMb

theorem Narrows.refl (workers : Table Worker.id) : Narrows workers workers :=
  fun w hw => ⟨w, hw, rfl, rfl, le_rfl, le_rfl⟩

theorem Narrows.trans {workers'' : Table Worker.id} (h : Narrows workers workers')
    (h' : Narrows workers' workers'') : Narrows workers workers'' := by
  intro w'' hw''
  obtain ⟨w', hw', hstatus', hheartbeat', hcpu', hmemory'⟩ := h' w'' hw''
  obtain ⟨w, hw, hstatus, hheartbeat, hcpu, hmemory⟩ := h w' hw'
  exact ⟨w, hw, hstatus'.trans hstatus, hheartbeat'.trans hheartbeat, hcpu'.trans hcpu,
    hmemory'.trans hmemory⟩

theorem Narrows.suited (h : Narrows workers workers') (hsuited : Suited healthyAfter run workers') :
    Suited healthyAfter run workers := by
  obtain ⟨w', hw', hsuits⟩ := hsuited
  obtain ⟨w, hw, hstatus, hheartbeat, hcpu, hmemory⟩ := h w' hw'
  exact ⟨w, hw, hstatus ▸ hsuits.online, hheartbeat ▸ hsuits.heartbeat, hsuits.cpu.trans hcpu,
    hsuits.memoryMb.trans hmemory⟩

/-- The reservation of room for a run. -/
theorem narrows_reserve {worker : Worker} (hworker : worker ∈ workers.rows)
    (hcpu : 0 ≤ run.requestedCpu) (hmemory : 0 ≤ run.requestedMemoryMb)
    (hworkers : ∀ id, workers'.get? id =
      if id = worker.id then some (worker.reserve run) else workers.get? id) :
    Narrows workers workers' := by
  intro w' hw'
  have hget := Table.get?_of_mem hw'
  rw [hworkers] at hget
  split at hget
  · obtain rfl := Option.some.inj hget
    exact ⟨worker, hworker, rfl, rfl, sub_le_self _ hcpu, sub_le_self _ hmemory⟩
  · exact ⟨w', Table.mem_of_get? hget, rfl, rfl, le_rfl, le_rfl⟩

/-! ### The writes of an assignment -/

/-- What an assignment leaves to be flushed. -/
abbrev assignmentWrites (run scheduled : Run) (event : RunEvent) (worker : Worker)
    (message : OutboxMessage) : List Write :=
  [.updateRun scheduled, .insertEvent event] ++ workerUpdate worker (worker.reserve run) ++
    [.insertOutbox message]

/-- What they make of the tables. -/
theorem flushed_assignment {p : Platform} (run scheduled : Run) (event : RunEvent) {worker : Worker}
    (message : OutboxMessage) (hworker : p.db.workers.get? worker.id = some worker) :
    ∃ workers' : Table Worker.id, (∀ id, workers'.get? id =
        if id = worker.id then some (worker.reserve run) else p.db.workers.get? id) ∧
      ∀ i, (p.flushed i (assignmentWrites run scheduled event worker message)).db =
        { p.db with
          runs := p.db.runs.update scheduled.id scheduled.stored scheduled.stored_id
          events := p.db.events ++ [{ event with createdAt := i.clock }]
          workers := workers'
          outbox := p.db.outbox.insert { message with createdAt := i.clock } } := by
  have hne : worker.reserve run ≠ worker := fun heq => by
    simpa [Worker.reserve] using congrArg Worker.currentRunCount heq
  refine ⟨p.db.workers.update worker.id (Worker.merge worker (worker.reserve run))
    (Worker.merge_id worker _), fun id => ?_, fun i => ?_⟩
  · rw [Table.get?_update]
    split
    · next heq =>
      rw [heq, hworker, Option.map_some]
      exact congrArg some (Worker.merge_loaded rfl rfl)
    · rfl
  · rw [assignmentWrites, workerUpdate, if_neg hne]
    rfl

/-- The database admits them if the message is new. -/
theorem admits_assignment {p : Platform} {scheduled : Run} {event : RunEvent} {worker : Worker}
    {message : OutboxMessage} (hworker : p.db.workers.get? worker.id = some worker)
    (hrun : (p.db.runs.get? scheduled.id).map Run.version = some scheduled.version)
    (hmessage : p.db.outbox.get? message.id = none) :
    p.Admits (assignmentWrites run scheduled event worker message) := by
  have hupdated : p.Admits [.updateRun scheduled, .insertEvent event] := fun i =>
    storage.firstError_cons_eq_none.mpr ⟨if_pos hrun, rfl⟩
  refine admits_append (admits_append hupdated fun i => ?_) fun i j => ?_
  · obtain ⟨_, hpends, -⟩ := pends_workerUpdate (p := p.flushed i [.updateRun scheduled,
      .insertEvent event]) (worker.reserve run) hworker rfl rfl
    exact hpends.admits
  · refine storage.firstError_cons_eq_none.mpr ⟨if_neg ?_, rfl⟩
    have hsame : (p.flushed i ([.updateRun scheduled, .insertEvent event] ++
        workerUpdate worker (worker.reserve run))).db.outbox = p.db.outbox := by
      rw [flushed_append, workerUpdate]
      split <;> rfl
    show ¬ ((Platform.db _).outbox.get? message.id).isSome
    rw [hsame, hmessage]
    exact Bool.false_ne_true

/-! ### The loop -/

/-- The run has been scheduled. -/
def Placed (runs : Table Run.id) (run : Run) : Prop :=
  ∃ row, runs.get? run.id = some row ∧ row.status = scheduling ∧ row.priority = run.priority ∧
    row.createdAt = run.createdAt

/-- What the loop makes of runs and workers, having assigned `n` runs. -/
structure Assigned (healthyAfter : Time) (queue : List Run) (runs : Table Run.id)
    (workers : Table Worker.id) (runs' : Table Run.id) (workers' : Table Worker.id) (n : ℕ) :
    Prop where
  narrows : Narrows workers workers'
  others : ∀ id, (∀ run ∈ queue, run.id ≠ id) → runs'.get? id = runs.get? id
  queued : ∀ run ∈ queue, runs'.get? run.id = some run ∨ Placed runs' run
  idle : n = 0 → ∀ run ∈ queue, ¬ Suited healthyAfter run workers

/-- If a run of the queue is assigned at this moment, each one before it has
been assigned or suits no worker, neither now nor at the end. -/
def Orderly (settings : Settings) (now healthyAfter : Time) (queue : List Run)
    (workers : Table Worker.id) (runs' : Table Run.id) (workers' : Table Worker.id)
    (m : Moment Platform RowKey Write Call Input) : Prop :=
  ∀ x, m.stmt = .flush [.insertAllocation x] →
    x.leaseExpiresAt = now + seconds settings.allocationLeaseSeconds ∧
    Narrows workers (m.view storage).db.workers ∧
    ∃ before run after, queue = before ++ run :: after ∧ x.runId = run.id ∧ Placed runs' run ∧
      ∀ earlier ∈ before, Placed runs' earlier ∨
        ¬ Suited healthyAfter earlier (m.view storage).db.workers ∧
          ¬ Suited healthyAfter earlier workers'

variable {settings : Settings} {now : Time} {queue rest : List Run} {runs runs' : Table Run.id}
  {workers₁ : Table Worker.id} {n : ℕ} {m : Moment Platform RowKey Write Call Input}

/-- The first run is passed over. -/
theorem Assigned.skip (h : Assigned healthyAfter rest runs workers runs' workers' n)
    (hstored : runs.get? run.id = some run) (hnotin : run.id ∉ rest.map Run.id)
    (hnot : ¬ Suited healthyAfter run workers) :
    Assigned healthyAfter (run :: rest) runs workers runs' workers' n where
  narrows := h.narrows
  others id hid := h.others id fun x hx => hid x (by simp [hx])
  queued x hx := by
    rcases List.mem_cons.mp hx with rfl | hx
    · refine .inl ((h.others x.id fun y hy heq => hnotin ?_).trans hstored)
      exact heq ▸ List.mem_map_of_mem hy
    · exact h.queued x hx
  idle hn x hx := by
    rcases List.mem_cons.mp hx with rfl | hx
    · exact hnot
    · exact h.idle hn x hx

theorem Orderly.skip (h : Orderly settings now healthyAfter rest workers runs' workers' m)
    (hnot : ¬ Suited healthyAfter run workers) (hnarrows : Narrows workers workers') :
    Orderly settings now healthyAfter (run :: rest) workers runs' workers' m := by
  intro x hx
  obtain ⟨hexpires, hthen, before, assigned, after, rfl, hid, hplaced, hbefore⟩ := h x hx
  refine ⟨hexpires, hthen, run :: before, assigned, after, rfl, hid, hplaced, fun y hy => ?_⟩
  rcases List.mem_cons.mp hy with rfl | hy
  · exact .inr ⟨fun hs => hnot (hthen.suited hs), fun hs => hnot (hnarrows.suited hs)⟩
  · exact hbefore y hy

/-- The first run is assigned. -/
theorem Assigned.assign {scheduled : Run} {runs₁ : Table Run.id}
    (h : Assigned healthyAfter rest runs₁ workers₁ runs' workers' n)
    (hnarrows : Narrows workers workers₁)
    (hruns : ∀ id, runs₁.get? id = if id = run.id then some scheduled else runs.get? id)
    (hscheduled : scheduled.status = scheduling ∧ scheduled.priority = run.priority ∧
      scheduled.createdAt = run.createdAt) (hnotin : run.id ∉ rest.map Run.id) :
    Assigned healthyAfter (run :: rest) runs workers runs' workers' (n + 1) ∧ Placed runs' run := by
  have hplaced : Placed runs' run := by
    refine ⟨scheduled, (h.others run.id fun y hy heq => hnotin ?_).trans ?_, hscheduled⟩
    · exact heq ▸ List.mem_map_of_mem hy
    · rw [hruns, if_pos rfl]
  refine ⟨⟨hnarrows.trans h.narrows, fun id hid => ?_, fun x hx => ?_, by simp⟩, hplaced⟩
  · rw [h.others id fun x hx => hid x (by simp [hx]), hruns,
      if_neg fun heq => hid run (by simp) heq.symm]
  · rcases List.mem_cons.mp hx with rfl | hx
    · exact .inr hplaced
    · exact h.queued x hx

theorem Orderly.assign (h : Orderly settings now healthyAfter rest workers₁ runs' workers' m)
    (hnarrows : Narrows workers workers₁) (hplaced : Placed runs' run) :
    Orderly settings now healthyAfter (run :: rest) workers runs' workers' m := by
  intro x hx
  obtain ⟨hexpires, hthen, before, assigned, after, rfl, hid, hassigned, hbefore⟩ := h x hx
  refine ⟨hexpires, hnarrows.trans hthen, run :: before, assigned, after, rfl, hid, hassigned,
    fun y hy => ?_⟩
  rcases List.mem_cons.mp hy with rfl | hy
  · exact .inl hplaced
  · exact hbefore y hy

/-! ### What the database admits -/

/-- The UUID names nothing yet that an assignment inserts. -/
structure Unused (db : Db) (u : Uuid) : Prop where
  allocation : db.allocations.get? u = none
  leaseToken : ∀ a ∈ db.allocations.rows, a.leaseToken ≠ u
  message : db.outbox.get? u = none

/-- The database will admit what is pending and what the rest of the pass
inserts: the UUIDs still to be drawn are new, the runs in the queue not leased. -/
structure Ready (env : Conditions) (r : Sitting) (pending : List Write) (queue : List Run) :
    Prop where
  admits : (r.view storage).Admits pending
  unleased : ∀ i, ∀ run ∈ queue, ∀ a ∈ ((r.view storage).flushed i pending).db.activeAllocations,
    a.runId ≠ run.id
  fresh : ∀ i n, r.count ≤ n →
    Unused ((r.view storage).flushed i pending).db (env.draw n (.call .pause)).uuid

/-- No two draws give one UUID. -/
def Apart (env : Conditions) : Prop :=
  ∀ n n', (env.draw n (.call .pause)).uuid = (env.draw n' (.call .pause)).uuid → n = n'

namespace Ready

variable {env : Conditions} {r r' : Sitting} {pending : List Write}

theorem flush {i : Input} (h : Ready env r pending queue)
    (hr' : r.Next storage (.flush pending) r' ((r.view storage).flushed i pending)) :
    Ready env r' [] queue where
  admits _ := rfl
  unleased _ run hrun a ha := h.unleased i run hrun a (hr'.view ▸ ha)
  fresh _ n hn := by
    have hunused := h.fresh i n (hr'.count_lt.le.trans hn)
    rw [← hr'.view] at hunused
    exact hunused

theorem read (h : Ready env r [] queue) (hr' : r.Reads storage r') : Ready env r' [] queue where
  admits _ := rfl
  unleased i run hrun a ha := h.unleased i run hrun a (hr'.view ▸ ha)
  fresh i n hn := by
    have hunused := h.fresh i n (hr'.count_le.trans hn)
    rw [← hr'.view] at hunused
    exact hunused

theorem tail (h : Ready env r pending (run :: queue)) : Ready env r pending queue :=
  { h with unleased := fun i x hx => h.unleased i x (by simp [hx]) }

/-- The lease of the run at hand is admitted. -/
theorem admits_lease {a : ResourceAllocation} {n n' : ℕ} (h : Ready env r [] (run :: queue))
    (hn : r.count ≤ n) (hn' : r.count ≤ n') (hid : a.id = (env.draw n (.call .pause)).uuid)
    (htoken : a.leaseToken = (env.draw n' (.call .pause)).uuid) (hrun : a.runId = run.id) :
    (r.view storage).Admits [.insertAllocation a] := by
  intro i
  have hfresh : (r.view storage).db.allocations.get? a.id = none := hid ▸ (h.fresh i n hn).allocation
  have hunused : ((r.view storage).db.allocations.rows.any fun y => y.leaseToken = a.leaseToken) =
      false := by
    refine List.any_eq_false.mpr fun y hy heq => (h.fresh i n' hn').leaseToken y hy ?_
    exact (of_decide_eq_true heq).trans htoken
  have hunleased : ((r.view storage).db.activeAllocations.any fun y => y.runId = a.runId) = false := by
    refine List.any_eq_false.mpr fun y hy heq => h.unleased i run (by simp) y hy ?_
    exact (of_decide_eq_true heq).trans hrun
  refine storage.firstError_cons_eq_none.mpr ⟨?_, rfl⟩
  show Write.check (.insertAllocation a) (r.view storage) = none
  simp [Write.check, hfresh, hunused, hunleased]

/-- The rest of the queue is ready once the run at hand is assigned. -/
theorem assign {a : ResourceAllocation} {scheduled : Run} {event : RunEvent} {worker : Worker}
    {message : OutboxMessage} {n₁ n₂ n₃ : ℕ} {j : Input} (h : Ready env r [] (run :: queue))
    (hapart : Apart env) (hn₁ : r.count ≤ n₁ ∧ n₁ < r'.count) (hn₂ : r.count ≤ n₂ ∧ n₂ < r'.count)
    (hn₃ : r.count ≤ n₃ ∧ n₃ < r'.count) (hid : a.id = (env.draw n₁ (.call .pause)).uuid)
    (htoken : a.leaseToken = (env.draw n₂ (.call .pause)).uuid)
    (hmessage : message.id = (env.draw n₃ (.call .pause)).uuid) (hrun : a.runId = run.id)
    (hnotin : run.id ∉ queue.map Run.id) (hscheduled : scheduled.id = run.id)
    (hversion : ((r.view storage).db.runs.get? run.id).map Run.version = some scheduled.version)
    (hworker : (r.view storage).db.workers.get? worker.id = some worker)
    (hr' : r'.view storage = (r.view storage).flushed j [.insertAllocation a]) :
    Ready env r' (assignmentWrites run scheduled event worker message) queue := by
  have hrows : (r'.view storage).db.allocations.rows = (r.view storage).db.allocations.rows ++ [a] := by
    rw [hr']
    exact Table.rows_insert (hid ▸ (h.fresh j n₁ hn₁.1).allocation)
  have hget (u : Uuid) (hu : u ≠ a.id) : (r'.view storage).db.allocations.get? u =
      (r.view storage).db.allocations.get? u := by
    rw [hr']
    exact (Table.get?_insert u).trans (if_neg (Ne.symm hu))
  have houtbox : (r'.view storage).db.outbox = (r.view storage).db.outbox := by rw [hr']; rfl
  have hworker' : (r'.view storage).db.workers.get? worker.id = some worker := by
    rw [hr']
    exact hworker
  obtain ⟨_, -, hflushed⟩ := flushed_assignment run scheduled event message hworker'
  refine ⟨admits_assignment hworker' ?_ ?_, fun i x hx b hb => ?_, fun i n hn => ?_⟩
  · rw [hscheduled, hr']
    exact hversion
  · rw [houtbox, hmessage]
    exact (h.fresh j n₃ hn₃.1).message
  · rw [hflushed i, Db.activeAllocations] at hb
    obtain ⟨hb, hactive⟩ := List.mem_filter.mp hb
    rcases List.mem_append.mp (hrows ▸ hb) with hb | hb
    · exact h.unleased j x (by simp [hx]) b (List.mem_filter.mpr ⟨hb, hactive⟩)
    · obtain rfl := List.mem_singleton.mp hb
      exact fun heq => hnotin (hrun ▸ heq ▸ List.mem_map_of_mem hx)
  · have hne (n' : ℕ) (hn' : n' < r'.count) :
        (env.draw n (.call .pause)).uuid ≠ (env.draw n' (.call .pause)).uuid :=
      fun heq => absurd (hapart n n' heq) (by omega)
    have hunused := h.fresh j n (by omega)
    rw [hflushed i]
    refine ⟨?_, fun b hb => ?_, ?_⟩
    · exact (hget _ (hid ▸ hne n₁ hn₁.2)).trans hunused.allocation
    · rcases List.mem_append.mp (hrows ▸ hb) with hb | hb
      · exact hunused.leaseToken b hb
      · obtain rfl := List.mem_singleton.mp hb
        exact htoken ▸ (hne n₂ hn₂.2).symm
    · show ((r'.view storage).db.outbox.insert _).get? _ = none
      rw [Table.get?_insert, if_neg, houtbox]
      · exact hunused.message
      · exact hmessage ▸ (hne n₃ hn₃.2).symm

end Ready

variable {env : Conditions} {fails : Prop} {r : Sitting} {pending : List Write}

theorem assignmentEvent_yields {worker : Worker} {a : ResourceAllocation}
    {Q : OutboxMessage → Sitting → Prop}
    (h : ∀ r' message n, r.Reads storage r' → r.count ≤ n → n < r'.count →
      message.id = (env.draw n (.call .pause)).uuid → Q message r') :
    (assignmentEvent settings run worker a).Yields storage env fails r Q :=
  .bind (uuid4_yields fun _ hr₁ _ => newMessage_yields fun r' message n hr' hn =>
    h r' message n (hr₁.trans hr') (hr₁.count_le.trans hn))

/-- No lease is inserted while `pending` is flushed and the queue is read. -/
theorem orderly_flush {r' : Sitting} {v : Platform} (hpending : ∀ x, pending ≠ [.insertAllocation x])
    (hr' : r.Next storage (.flush pending) r' v) :
    r.Since (Orderly settings now healthyAfter queue workers runs' workers') r' :=
  .of_next hr' fun x hx => absurd (Stmt.flush.inj hx) (hpending x)

theorem orderly_read {r' : Sitting} (hr' : r.Reads storage r') :
    r.Since (Orderly settings now healthyAfter queue workers runs' workers') r' :=
  hr'.past.mono fun _ hm _ hx => absurd hx (hm _)

theorem assignRuns_yields (hfails : fails ∨ Ready env r pending queue ∧ Apart env)
    (hpending : ∀ x, pending ≠ [.insertAllocation x])
    (hsees : ∀ i, ((r.view storage).flushed i pending).db.runs = runs ∧
      ((r.view storage).flushed i pending).db.workers = workers)
    (hstored : ∀ run ∈ queue, runs.get? run.id = some run ∧ run.status = queued)
    (hrequests : ∀ run ∈ queue, 0 ≤ run.requestedCpu ∧ 0 ≤ run.requestedMemoryMb)
    (hnodup : (queue.map Run.id).Nodup) {Q : ℕ × List Write → Sitting → Prop}
    (hQ : ∀ r' n pending' runs' workers', fails ∨ (r'.view storage).Admits pending' →
      (∀ i, ((r'.view storage).flushed i pending').db.runs = runs' ∧
        ((r'.view storage).flushed i pending').db.workers = workers') →
      (∀ x, pending' ≠ [.insertAllocation x]) →
      Assigned healthyAfter queue runs workers runs' workers' n →
      r.Since (Orderly settings now healthyAfter queue workers runs' workers') r' →
      Q (n, pending') r') :
    (assignRuns settings now healthyAfter pending queue).Yields storage env fails r Q := by
  induction queue generalizing r pending runs workers Q with
  | nil =>
      refine hQ r 0 pending runs workers (hfails.imp_right fun h => h.1.admits) hsees hpending
        ⟨.refl workers, fun _ _ => rfl, by simp, by simp⟩ (.refl r)
  | cons run rest ih =>
      obtain ⟨hnotin, hnodup⟩ := List.nodup_cons.mp hnodup
      obtain ⟨hrow, hqueued⟩ := hstored run (by simp)
      obtain ⟨hcpu, hmemory⟩ := hrequests run (by simp)
      refine .bind (flush_yields (hfails.symm.imp_left fun h => h.1.admits) fun i r₁ _ hr₁ => ?_)
      have hready₁ := hfails.imp_right fun h => (⟨h.1.flush hr₁, h.2⟩ : Ready env r₁ [] _ ∧ _)
      obtain ⟨hruns₁, hworkers₁⟩ := hsees i
      rw [← hr₁.view] at hruns₁ hworkers₁
      refine .bind (selectForUpdate_yields fun r₂ hr₂ => ?_)
      have hready₂ := hready₁.imp_right fun h => (⟨h.1.read hr₂, h.2⟩ : Ready env r₂ [] _ ∧ _)
      rw [← hr₂.view] at hruns₁ hworkers₁ ⊢
      cases hfound : (r₂.view storage).db.fitting healthyAfter run fun _ => true with
      | nil =>
          have hnot : ¬ Suited healthyAfter run workers := hworkers₁ ▸ not_suited_of_fitting hfound
          have hready : fails ∨ Ready env r₂ [] rest ∧ Apart env :=
            hready₂.imp_right fun h => ⟨h.1.tail, h.2⟩
          refine ih hready (by simp) (fun _ => ⟨hruns₁, hworkers₁⟩) (fun x hx => hstored x (by simp [hx]))
            (fun x hx => hrequests x (by simp [hx])) hnodup
            fun r' n pending' runs' workers' hadmits hsees' hpending' hassigned hsince => ?_
          refine hQ r' n pending' runs' workers' hadmits hsees' hpending'
            (hassigned.skip hrow hnotin hnot) ?_
          exact (orderly_flush hpending hr₁).trans ((orderly_read hr₂).trans
            (hsince.mono fun m hm => hm.skip hnot hassigned.narrows))
      | cons worker _ =>
          obtain ⟨hworker, hsuits⟩ := suits_of_fitting hfound
          have hget := Table.get?_of_mem hworker
          refine .bind (uuid4_yields fun r₃ hr₃ hlt₃ => .bind (uuid4_yields fun r₄ hr₄ hlt₄ => ?_))
          have hr₂₄ := hr₃.trans hr₄
          generalize hid : (env.draw r₂.count (.call .pause)).uuid = id
          generalize htoken : (env.draw r₃.count (.call .pause)).uuid = leaseToken
          extract_lets a
          have hready₄ := hready₂.imp_right fun h => (⟨h.1.read hr₂₄, h.2⟩ : Ready env r₄ [] _ ∧ _)
          refine .bind (flush_yields (hready₂.symm.imp_left fun h => ?_) fun j r₅ _ hr₅ => ?_)
          · rw [hr₂₄.view]
            exact h.1.admits_lease le_rfl hr₃.count_le hid.symm htoken.symm rfl
          refine .bind (transitionRun_yields (by simp [hqueued, validTransitions]) fun time r₆ hr₆ => ?_)
          refine .bind (assignmentEvent_yields fun r₇ message n₃ hr₇ hn₃ hlt₇ hmessage => ?_)
          have hview₇ : r₇.view storage = (r₂.view storage).flushed j [.insertAllocation a] := by
            rw [hr₇.view, hr₆.view, hr₅.view, hr₂₄.view]
          have hget₇ : (r₇.view storage).db.workers.get? worker.id = some worker := by
            rw [hview₇]
            exact hget
          let scheduled := { run with assignedWorkerId := some worker.id }.transitioned scheduling time
          generalize Run.transitionEvent _ _ _ _ = event
          obtain ⟨workers₁, hworkers, hflushed⟩ :=
            flushed_assignment run scheduled event message hget₇
          have hcounts : r₂.count < r₃.count ∧ r₃.count < r₇.count ∧ r₃.count ≤ n₃ := by
            have hle₅ := hr₅.count_lt
            have hle₆ := hr₆.count_le
            have hle₇ := hr₇.count_le
            exact ⟨hlt₃, by omega, by omega⟩
          have hready : fails ∨ Ready env r₇ (assignmentWrites run scheduled event worker message) rest ∧
              Apart env := by
            refine hready₂.imp_right fun h => ⟨h.1.assign h.2 ⟨le_rfl, by omega⟩ ⟨by omega, by omega⟩
              ⟨by omega, hlt₇⟩ hid.symm htoken.symm hmessage rfl hnotin rfl ?_ hget hview₇, h.2⟩
            rw [hruns₁, hrow]
            rfl
          have hruns₇ : (r₇.view storage).db.runs = runs := by
            rw [hview₇]
            exact hruns₁
          have hworkers₇ : (r₇.view storage).db.workers = workers := by
            rw [hview₇]
            exact hworkers₁
          have hnarrows : Narrows workers workers₁ := by
            refine narrows_reserve (hworkers₁ ▸ hworker) hcpu hmemory fun id => ?_
            rw [hworkers, hworkers₇]
          have hruns (id : Uuid) : ((r₇.view storage).db.runs.update scheduled.id scheduled.stored
              scheduled.stored_id).get? id =
              if id = run.id then some (scheduled.stored run) else runs.get? id := by
            have hsame : scheduled.id = run.id := rfl
            rw [Table.get?_update, hruns₇, hsame]
            by_cases heq : id = run.id
            · rw [if_pos heq, if_pos heq, heq, hrow, Option.map_some]
            · rw [if_neg heq, if_neg heq]
          refine .bind (ih hready (by simp [assignmentWrites])
            (fun i => ⟨by rw [hflushed i], by rw [hflushed i]⟩) (fun x hx => ?_)
            (fun x hx => hrequests x (by simp [hx])) hnodup
            fun r' n pending' runs' workers' hadmits hsees' hpending' hassigned hsince => ?_)
          · have hne : x.id ≠ run.id := fun heq => hnotin (heq ▸ List.mem_map_of_mem hx)
            obtain ⟨hget, hqueued⟩ := hstored x (by simp [hx])
            exact ⟨(hruns x.id).trans ((if_neg hne).trans hget), hqueued⟩
          obtain ⟨hassigned', hplaced⟩ :=
            hassigned.assign hnarrows hruns ⟨rfl, rfl, rfl⟩ hnotin
          refine .ret (hQ r' (n + 1) pending' runs' workers' hadmits hsees' hpending' hassigned' ?_)
          -- the moment of the assignment itself
          have hnow : r₄.Since (Orderly settings now healthyAfter (run :: rest) workers runs'
              workers') r₅ := by
            refine .of_next hr₅ fun x hx => ?_
            obtain rfl : a = x := by simpa using hx
            have hview : r₄.session.view storage r₄.state = r₂.view storage := hr₂₄.view
            refine ⟨rfl, ?_, [], run, rest, rfl, rfl, hplaced, by simp⟩
            rw [Moment.view, hview, hworkers₁]
            exact .refl workers
          exact (orderly_flush hpending hr₁).trans ((orderly_read hr₂).trans
            ((orderly_read hr₂₄).trans (hnow.trans ((orderly_read (hr₆.trans hr₇)).trans
              (hsince.mono fun m hm => hm.assign hnarrows hplaced)))))

/-! ### The queue -/

/-- The queued runs in order. -/
def Db.queuedRuns (db : Db) : List Run :=
  (db.runs.rows.filter fun r => r.status = .queued ∧ (fun _ => true) r).insertionSort Run.precedes

theorem queue_eq (db : Db) : db.queue (fun _ => true) = db.queuedRuns.take 100 := rfl

theorem mem_queuedRuns {db : Db} {x : Run} :
    x ∈ db.queuedRuns ↔ db.runs.get? x.id = some x ∧ x.status = queued := by
  rw [Db.queuedRuns, List.mem_insertionSort, List.mem_filter, decide_eq_true_eq]
  constructor
  · rintro ⟨hmem, hqueued, -⟩
    exact ⟨Table.get?_of_mem hmem, hqueued⟩
  · rintro ⟨hget, hqueued⟩
    exact ⟨Table.mem_of_get? hget, hqueued, rfl⟩

theorem nodup_queuedRuns (db : Db) : (db.queuedRuns.map Run.id).Nodup := by
  have hperm := List.perm_insertionSort Run.precedes
    (db.runs.rows.filter fun r => r.status = .queued ∧ (fun _ => true) r)
  exact (hperm.map Run.id).nodup_iff.mpr (db.runs.nodup.sublist (List.filter_sublist.map _))

instance : Std.Total Run.precedes := ⟨fun a b => by unfold Run.precedes; grind⟩

instance : IsTrans Run Run.precedes := ⟨fun a b c => by unfold Run.precedes; grind⟩

theorem pairwise_queuedRuns (db : Db) : db.queuedRuns.Pairwise Run.precedes :=
  List.pairwise_insertionSort Run.precedes _

/-- Two runs that precede each other are one. -/
theorem id_eq_of_precedes {a b : Run} (h : a.precedes b) (h' : b.precedes a) : a.id = b.id := by
  unfold Run.precedes at h h'
  grind

/-! ### The pass -/

/-- What a pass does once its recovery has left `pending`. -/
theorem assignment_yields (hadmits : fails ∨ (r.view storage).Admits pending)
    (hready : fails ∨ (∀ i, (∀ n, r.count ≤ n →
        Unused ((r.view storage).flushed i pending).db (env.draw n (.call .pause)).uuid) ∧
      ∀ run ∈ ((r.view storage).flushed i pending).db.queuedRuns,
        ∀ a ∈ ((r.view storage).flushed i pending).db.activeAllocations, a.runId ≠ run.id) ∧
      Apart env)
    (hpending : ∀ x, pending ≠ [.insertAllocation x])
    (hrequests : ∀ i, ∀ run ∈ ((r.view storage).flushed i pending).db.runs.rows,
      0 ≤ run.requestedCpu ∧ 0 ≤ run.requestedMemoryMb)
    (hnow : now = (env.draw r.count (.call .pause)).clock)
    (hhealthy : healthyAfter = now - seconds settings.workerStaleSeconds) {Q : ℕ → Sitting → Prop}
    (hQ : ∀ i n r' p, p = (r.view storage).flushed i pending →
      Assigned healthyAfter (p.db.queue fun _ => true) p.db.runs p.db.workers r'.state.db.runs
        r'.state.db.workers n →
      r.Since (Orderly settings now healthyAfter (p.db.queue fun _ => true) p.db.workers
        r'.state.db.runs r'.state.db.workers) r' → Q n r') :
    Prog.Yields storage env fails (do
      let now ← datetimeNow { worker := updatedWorker pending }
      let healthyAfter := now - seconds settings.workerStaleSeconds
      session.flush { worker := updatedWorker pending } pending
      let queuedRuns ← session.selectForUpdate {} true (fun r => .run r.id) fun db free =>
        db.queue free
      let (assigned, pending) ← assignRuns settings now healthyAfter [] queuedRuns
      session.commit {} pending
      .ret assigned : Program ℕ) r Q := by
  refine .bind (datetimeNow_yields fun r₁ hr₁ => ?_)
  rw [← hnow, ← hhealthy]
  dsimp only
  refine .bind (flush_yields (hr₁.view.symm ▸ hadmits.symm) fun i r₂ _ hr₂ => ?_)
  rw [hr₁.view] at hr₂
  specialize hQ i
  specialize hrequests i
  generalize hp : (r.view storage).flushed i pending = p at *
  refine .bind (selectForUpdate_yields fun r₃ hr₃ => ?_)
  have hview₃ : r₃.view storage = p := hr₃.view.trans hr₂.view
  rw [hr₂.view]
  have hqueue (x : Run) (hx : x ∈ p.db.queue fun _ => true) := mem_queuedRuns.mp (List.mem_of_mem_take hx)
  have hready₃ : fails ∨ Ready env r₃ [] (p.db.queue fun _ => true) ∧ Apart env := by
    refine hready.imp_right fun ⟨h, hapart⟩ => ⟨⟨fun _ => rfl, fun j x hx a ha => ?_, fun j n hn => ?_⟩,
      hapart⟩
    · refine (hp ▸ h i).2 x (List.mem_of_mem_take hx) a ?_
      rw [← hview₃]
      exact ha
    · have hcount := (hr₁.count_le.trans hr₂.count_lt.le).trans hr₃.count_le
      have hunused := (hp ▸ h i).1 n (hcount.trans hn)
      rw [← hview₃] at hunused
      exact hunused
  have hsees₃ : ∀ i, ((r₃.view storage).flushed i []).db.runs = p.db.runs ∧
      ((r₃.view storage).flushed i []).db.workers = p.db.workers := fun _ => by
    rw [hview₃]
    exact ⟨rfl, rfl⟩
  have hnodup : ((p.db.queue fun _ => true).map Run.id).Nodup :=
    (nodup_queuedRuns p.db).sublist ((List.take_sublist 100 _).map _)
  refine .bind (assignRuns_yields hready₃ (by simp) hsees₃ hqueue
    (fun x hx => hrequests x (Table.mem_of_get? (hqueue x hx).1)) hnodup
    fun r₄ n pending' runs' workers' hadmits' hsees hpending' hassigned hsince => ?_)
  refine .bind (commit_yields hadmits'.symm fun j r₆ _ ⟨r₅, hr₅, hr₆⟩ hstate => .ret ?_)
  obtain ⟨hruns, hworkers⟩ := hsees j
  rw [← hstate] at hruns hworkers
  subst hruns hworkers
  refine hQ n r₆ p rfl hassigned ?_
  exact (orderly_read hr₁).trans ((orderly_flush hpending hr₂).trans ((orderly_read hr₃).trans
    (hsince.trans ((orderly_flush hpending' hr₅).trans (orderly_read hr₆)))))

/-! ### Priorities -/

/-- No run asks for less than nothing; a recovery inserts no lease. -/
def requests : Standard :=
  ⟨fun terms => 0 ≤ terms.requestedCpu ∧ 0 ≤ terms.requestedMemoryMb, fun _ => False⟩

/-- What precedes the run assigned at a moment, and is still queued at the end,
was looked at before. -/
theorem Orderly.not_suited {p : Platform} {x : ResourceAllocation} {run run' : Run}
    (h : Orderly settings now healthyAfter (p.db.queue fun _ => true) workers runs' workers' m)
    (hassigned : Assigned healthyAfter (p.db.queue fun _ => true) p.db.runs workers runs' workers' n)
    (hx : m.stmt = .flush [.insertAllocation x]) (hrun : run ∈ runs'.rows)
    (hrun' : run' ∈ runs'.rows) (hqueued : run.status = queued) (hid : run'.id = x.runId)
    (hne : run ≠ run') (hprecedes : run.precedes run') :
    ¬ Suited healthyAfter run (m.view storage).db.workers ∧ ¬ Suited healthyAfter run workers' := by
  obtain ⟨-, -, before, assigned, after, hqueue, hassignedId, hplaced, hbefore⟩ := h x hx
  have hget := Table.get?_of_mem hrun
  have hnotPlaced (y : Run) (hy : y.id = run.id) : ¬ Placed runs' y := by
    rintro ⟨row, hrow, hstatus, -⟩
    rw [hy, hget] at hrow
    rw [← Option.some.inj hrow, hqueued] at hstatus
    cases hstatus
  have hmem : run ∈ p.db.queuedRuns := by
    rw [mem_queuedRuns]
    refine ⟨?_, hqueued⟩
    by_cases hlisted : ∃ y ∈ p.db.queue fun _ => true, y.id = run.id
    · obtain ⟨y, hy, hyId⟩ := hlisted
      rcases hassigned.queued y hy with hkept | hyPlaced
      · rw [hyId, hget] at hkept
        obtain rfl := Option.some.inj hkept
        exact (mem_queuedRuns.mp (List.mem_of_mem_take hy)).1
      · exact absurd hyPlaced (hnotPlaced y hyId)
    · rw [← hassigned.others run.id fun y hy heq => hlisted ⟨y, hy, heq⟩]
      exact hget
  have hsplit : p.db.queuedRuns = before ++ assigned :: (after ++ p.db.queuedRuns.drop 100) := by
    rw [queue_eq] at hqueue
    conv_lhs => rw [← List.take_append_drop 100 p.db.queuedRuns, hqueue]
    simp
  have hother : assigned.id ≠ run.id := fun heq =>
    hne (Table.eq_of_key hrun hrun' (by rw [← heq, hid, hassignedId]))
  rw [hsplit, List.mem_append, List.mem_cons] at hmem
  rcases hmem with hearlier | rfl | hlater
  · exact (hbefore run hearlier).resolve_left (hnotPlaced run rfl)
  · exact absurd rfl hother
  · -- what comes later in the queue does not precede it
    obtain ⟨row, hrow, -, hpriority, hcreated⟩ := hplaced
    rw [← hassignedId, ← hid, Table.get?_of_mem hrun'] at hrow
    obtain rfl := Option.some.inj hrow
    have hsorted := hsplit ▸ pairwise_queuedRuns p.db
    have hafter : assigned.precedes run :=
      (List.pairwise_cons.mp (List.pairwise_append.mp hsorted).2.1).1 run hlater
    have hbefore' : run.precedes assigned := by
      unfold Run.precedes at hprecedes ⊢
      rwa [← hpriority, ← hcreated, ← hassignedId, ← hid]
    exact absurd (id_eq_of_precedes hafter hbefore') hother

/-- A recovery inserts no lease and leaves requests as they are. -/
theorem recovery_leads (p : Platform)
    (hrequests : ∀ run ∈ p.db.runs.rows, 0 ≤ run.requestedCpu ∧ 0 ≤ run.requestedMemoryMb) :
    (recoverExpiredAllocations settings).Leads storage env (.start p) fun outcome r =>
      ∀ released pending, outcome = .ok (released, pending) →
        (∀ x, pending ≠ [.insertAllocation x]) ∧
        (∀ i, ∀ run ∈ ((r.view storage).flushed i pending).db.runs.rows,
          0 ≤ run.requestedCpu ∧ 0 ≤ run.requestedMemoryMb) ∧
        ∀ m ∈ r.past, ∀ x, m.stmt ≠ .flush [.insertAllocation x] := by
  have hnoted : Noted requests p := fun _ run hget => hrequests run (Table.mem_of_get? hget)
  have hwritten (ws : List Write) (hws : ∀ y ∈ ws, y.Noted requests) (q : Platform)
      (hq : Noted requests q) : Noted requests (storage.applyAll q ws) :=
    good_applyAll noted_apply hws hq
  refine Prog.Leads.mono (Prog.Writes.leads (σ := storage) noted_stamp noted_apply
    noted_perform (stores_recoverExpiredAllocations (R := requests) fun _ hnoted _ => hnoted) hnoted
    (by simp)) ?_
  rintro outcome r ⟨hpending, hstate, hwrites, old, hpast, hflushed⟩ released pending rfl
  have hpending : ∀ y ∈ pending, y.Noted requests := hpending _ rfl
  refine ⟨?_, fun i run hrun => ?_, fun m hm x hx => ?_⟩
  · rintro x rfl
    exact hpending (.insertAllocation x) (by simp)
  · have hstamped : ∀ y ∈ pending.map (Write.stamp i), y.Noted requests := by
      intro y hy
      obtain ⟨z, hz, rfl⟩ := List.mem_map.mp hy
      exact noted_stamp i z (hpending z hz)
    have hview : Noted requests ((r.view storage).flushed i pending) :=
      hwritten _ hstamped _ (hwritten _ hwrites _ hstate)
    exact hview run.id run (Table.get?_of_mem hrun)
  · rw [hpast, Turn.start_past, List.nil_append] at hm
    exact hflushed m hm _ hx (.insertAllocation x) (List.mem_singleton_self _)

/-- If a pass assigns a run `run'` and leaves a run `run` queued that precedes
it, no worker that is online and fresh has room for `run`, neither when `run'`
is assigned nor once the pass is committed. Requests are positive, as
`RunCreate` has them. -/
theorem no_priority_inversion (p : Platform)
    (hrequests : ∀ run ∈ p.db.runs.rows, 0 ≤ run.requestedCpu ∧ 0 ≤ run.requestedMemoryMb)
    (env : Conditions) :
    (scheduleOnce settings).Yields storage env True (.start p) fun _ r =>
      ∃ k now, now = (env.draw k (.call .pause)).clock ∧
        ∀ m ∈ r.past, ∀ x, m.stmt = .flush [.insertAllocation x] →
          x.leaseExpiresAt = now + seconds settings.allocationLeaseSeconds ∧
          ∀ run ∈ r.state.db.runs.rows, ∀ run' ∈ r.state.db.runs.rows, run.status = queued →
            run'.id = x.runId → run ≠ run' → run.precedes run' →
            ¬ Suited (now - seconds settings.workerStaleSeconds) run (m.view storage).db.workers ∧
              ¬ Suited (now - seconds settings.workerStaleSeconds) run r.state.db.workers := by
  refine .bind (.of_leads (Prog.Leads.mono (recovery_leads p hrequests) ?_))
  rintro outcome r hrecovery ⟨released, pending⟩ rfl
  obtain ⟨hpending, hnonneg, hpast⟩ := hrecovery released pending rfl
  refine assignment_yields (.inl trivial) (.inl trivial) hpending hnonneg rfl rfl
    fun i n r' q hq hassigned ⟨new, hnew, horderly⟩ => ?_
  refine ⟨r.count, _, rfl, fun m hm x hx => ?_⟩
  have hmem : m ∈ new := (List.mem_append.mp (hnew ▸ hm)).resolve_left fun hm => hpast m hm x hx
  refine ⟨(horderly m hmem x hx).1, fun run hrun run' hrun' hqueued hid hne hprecedes => ?_⟩
  exact (horderly m hmem).not_suited hassigned hx hrun hrun' hqueued hid hne hprecedes

namespace Demo

/-- A worker registers, and two runs wait of which only the second fits it. -/
def overtaking : List (Action Kind Input) :=
  .spawn (.registerWorker "worker" ⟨2, 8192, by norm_num, totals.memoryMb_pos⟩) :: steps 0 100 7 ++
    .spawn (.createRun { slow with
      requestedCpu := 4, priority := 5
      requestedCpu_bounds := by norm_num, priority_bounds := by decide } 5 requestId) ::
        steps 1 200 10 ++
    .spawn (.createRun slow 5 requestId) :: steps 2 300 10

def soon : Conditions := ⟨fun n _ => input (400 + n), fun _ _ => false⟩

/-- The statement assigned a run that `run` precedes. -/
def overtook (m : Moment Platform RowKey Write Call Input) (runs : List Run) (run : Run) : Bool :=
  match m.stmt with
  | .flush [.insertAllocation x] =>
    runs.any fun run' => run'.id = x.runId ∧ run ≠ run' ∧ run.precedes run'
  | _ => false

theorem overtook_iff {m : Moment Platform RowKey Write Call Input} {runs : List Run} {run : Run} :
    overtook m runs run ↔ ∃ x, m.stmt = .flush [.insertAllocation x] ∧
      ∃ run' ∈ runs, run'.id = x.runId ∧ run ≠ run' ∧ run.precedes run' := by
  unfold overtook
  constructor
  · intro h
    split at h
    case h_1 x heq =>
      obtain ⟨run', hrun', hovertaken⟩ := List.any_eq_true.mp h
      exact ⟨x, heq, run', hrun', by simpa using hovertaken⟩
    case h_2 => cases h
  · rintro ⟨x, heq, run', hrun', hovertaken⟩
    rw [heq]
    exact List.any_eq_true.mpr ⟨run', hrun', by simpa using hovertaken⟩

end Demo

/-- A large run of high priority is overtaken by one that fits. -/
theorem no_priority_inversion_overtaking : ∃ w,
    Reachable Demo.runtime Demo.settings Demo.templates w ∧
    ∃ r, r = ((scheduleOnce Demo.settings).alone storage Demo.soon (.start w.state)).2 ∧
      ∃ m ∈ r.past, ∃ run ∈ r.state.db.runs.rows, run.status = queued ∧
        Demo.overtook m r.state.db.runs.rows run ∧ ∃ now,
          ¬ Suited (now - seconds Demo.settings.workerStaleSeconds) run (m.view storage).db.workers ∧
            ¬ Suited (now - seconds Demo.settings.workerStaleSeconds) run r.state.db.workers := by
  have h : (Demo.exec Demo.overtaking).any fun w =>
      let (outcome, r) := (scheduleOnce Demo.settings).alone storage Demo.soon (.start w.state)
      outcome.toOption = some 1 ∧
      (r.past.any fun m => r.state.db.runs.rows.any fun run =>
        run.status = queued ∧ Demo.overtook m r.state.db.runs.rows run) ∧
      w.state.db.runs.rows.all fun run => 0 ≤ run.requestedCpu ∧ 0 ≤ run.requestedMemoryMb := by
    decide +kernel
  obtain ⟨w, hw, hlast⟩ := Demo.reachable h
  refine ⟨w, hw, _, rfl, ?_⟩
  simp only [decide_eq_true_eq, List.any_eq_true, List.all_eq_true] at hlast
  obtain ⟨hcount, ⟨m, hm, run, hrun, hqueued, hovertook⟩, hrequests⟩ := hlast
  refine ⟨m, hm, run, hrun, hqueued, hovertook, ?_⟩
  have hinversion : (scheduleOnce Demo.settings).Yields storage Demo.soon True (.start w.state) _ :=
    no_priority_inversion w.state hrequests Demo.soon
  rw [Prog.Yields, Prog.Leads] at hinversion
  cases houtcome : ((scheduleOnce Demo.settings).alone storage Demo.soon (.start w.state)).1 with
  | error e => rw [houtcome] at hcount; cases hcount
  | ok n =>
      rw [houtcome] at hinversion
      obtain ⟨-, now, -, hinversion⟩ := hinversion
      obtain ⟨x, hx, run', hrun', hid, hne, hprecedes⟩ := Demo.overtook_iff.mp hovertook
      exact ⟨now, (hinversion m hm x hx).2 run hrun run' hrun' hqueued hid hne hprecedes⟩

/-! ### Progress -/

variable {rt : Runtime} {staleIds : List Uuid} {released : List ResourceAllocation} {q p : Db}

/-- A UUID that names nothing is not taken by a recovery. -/
theorem Unused.of_reconciles {u : Uuid} (h : Unused q u) (hrec : Reconciles staleIds released q p) :
    Unused p u where
  allocation := by
    refine (hrec.otherLeases u fun a ha heq => ?_).trans h.allocation
    have hget := (hrec.leases a ha).1
    rw [heq, h.allocation] at hget
    cases hget
  leaseToken a ha := by
    have hget := Table.get?_of_mem ha
    by_cases hreleased : ∃ b ∈ released, b.id = a.id
    · obtain ⟨b, hb, hid⟩ := hreleased
      obtain ⟨hold, now, hnew⟩ := hrec.leases b hb
      rw [hid, hget] at hnew
      rw [Option.some.inj hnew]
      exact h.leaseToken b (Table.mem_of_get? hold)
    · rw [hrec.otherLeases a.id fun b hb hid => hreleased ⟨b, hb, hid⟩] at hget
      exact h.leaseToken a (Table.mem_of_get? hget)
  message := hrec.messages ▸ h.message

/-- After a recovery no queued run has a lease. -/
theorem unleased_of_reconciles {v p : Platform} (hI : Invariant (.plain rt) p)
    (hreleased : released.Sublist p.db.activeAllocations)
    (hrec : Reconciles staleIds released p.db v.db) {run : Run} (hrun : run ∈ v.db.queuedRuns)
    {a : ResourceAllocation} (ha : a ∈ v.db.activeAllocations) : a.runId ≠ run.id := by
  intro hid
  obtain ⟨hactive, hkept⟩ := hrec.of_active ha
  obtain ⟨row, hrow, hleased, -⟩ := leased_of_active hI hactive
  have hother : ∀ b ∈ released, b.runId ≠ a.runId := by
    intro b hb heq
    have hnodup : (p.db.activeAllocations.map ResourceAllocation.runId).Nodup :=
      List.pairwise_map.mpr (pairwise_activeAllocations hI)
    exact hkept b hb (congrArg _ (List.inj_on_of_nodup_map hnodup (hreleased.subset hb) hactive heq))
  obtain ⟨hget, hqueued⟩ := mem_queuedRuns.mp hrun
  rw [← hid, hrec.otherRuns a.runId hother, hrow] at hget
  obtain rfl := Option.some.inj hget
  rw [hqueued] at hleased
  simp [RunStatus.leased] at hleased

/-- What a pass finds once its recovery is through. -/
def recovered (settings : Settings) (env : Conditions) (p : Platform) : Platform :=
  ((reconcile settings).alone storage env (.start p)).2.state

/-- When the pass reads the clock again. -/
def recoveredAt (settings : Settings) (env : Conditions) (p : Platform) : Time :=
  let count := ((recoverExpiredAllocations settings).alone storage env (.start p)).2.count
  (env.draw count (.call .pause)).clock

/-- The run then fits some worker that is online and fresh. -/
def Fits (settings : Settings) (env : Conditions) (p : Platform) (run : Run) : Prop :=
  Suited (recoveredAt settings env p - seconds settings.workerStaleSeconds) run
    (recovered settings env p).db.workers

/-- If, once the recovery of a pass is through, one of the first hundred queued
runs suits a worker, the pass assigns a run. -/
theorem scheduler_progress {templates : Table TrainingTemplate.id} {w : Cluster}
    (h : Reachable rt settings templates w) (env : Conditions) (hsteady : env.Steady)
    (hunused : ∀ n, Unused w.state.db (env.draw n (.call .pause)).uuid) (hapart : Apart env) :
    (scheduleOnce settings).Yields storage env False (.start w.state) fun n _ =>
      (∃ run ∈ (recovered settings env w.state).db.queue fun _ => true,
        Fits settings env w.state run) → 1 ≤ n := by
  have hrequests : ∀ run ∈ w.state.db.runs.rows,
      0 ≤ run.requestedCpu ∧ 0 ≤ run.requestedMemoryMb := fun run hrun =>
    have hcoherent := (h.inv.runs run.id).present run (Table.get?_of_mem hrun)
    ⟨hcoherent.requestedCpu.le, hcoherent.requestedMemoryMb.le⟩
  obtain ⟨started, hnow⟩ : ∃ started, started = (env.draw 0 (.call .pause)).clock := ⟨_, rfl⟩
  generalize hstale : (w.state.db.silentWorkers
    (started - seconds settings.workerStaleSeconds)).map Worker.id = staleIds
  generalize hreleased : w.state.db.expiredAllocations started staleIds = released
  have hsub : released.Sublist w.state.db.activeAllocations := hreleased ▸ List.filter_sublist
  have hrecovery : (recoverExpiredAllocations settings).Yields storage env False (.start w.state)
      fun result r => ∃ v, Pends (r.view storage) result.2 v ∧
        Reconciles staleIds released w.state.db v.db :=
    recoverExpiredAllocations_yields h.inv hnow hstale.symm hreleased.symm
      fun r pending v hpends hreconciles => ⟨v, hpends, hreconciles⟩
  have halone : (recoverExpiredAllocations settings).Leads storage env (.start w.state) fun o r =>
      (recoverExpiredAllocations settings).alone storage env (.start w.state) = (o, r) := rfl
  refine .bind (.mono ((hrecovery.and_leads (recovery_leads w.state hrequests)).and_leads halone) ?_)
  rintro ⟨released', pending⟩ r ⟨⟨⟨v, hpends, hreconciles⟩, hleads⟩, halone⟩
  obtain ⟨hpending, hnonneg, -⟩ := hleads _ _ rfl
  have hseen : ∀ i, (r.view storage).flushed i pending = v := hpends.seen
  have hrecovered : recovered settings env w.state = v := by
    have hcommit : Prog.Yields storage env False (do
        session.commit {} pending
        .ret released' : Program ℕ) r fun _ r' => r'.state = v :=
      .bind (commit_yields (.inl hpends.admits) fun i r' _ _ hstate => .ret (hstate.trans (hseen i)))
    have hreconcile : (reconcile settings).Yields storage env False (.start w.state) fun _ r' =>
        r'.state = v := by
      refine .bind ?_
      rw [Prog.Yields, Prog.Leads, halone]
      exact hcommit
    obtain ⟨_, -, hstate⟩ := hreconcile.returns hsteady
    exact hstate
  have hready : ∀ i, (∀ n, r.count ≤ n →
        Unused ((r.view storage).flushed i pending).db (env.draw n (.call .pause)).uuid) ∧
      ∀ run ∈ ((r.view storage).flushed i pending).db.queuedRuns,
        ∀ a ∈ ((r.view storage).flushed i pending).db.activeAllocations, a.runId ≠ run.id := by
    intro i
    rw [hseen]
    refine ⟨fun n _ => (hunused n).of_reconciles hreconciles, fun run hrun a ha => ?_⟩
    exact unleased_of_reconciles h.inv hsub hreconciles hrun ha
  refine assignment_yields (.inr hpends.admits) (.inr ⟨hready, hapart⟩) hpending hnonneg rfl rfl
    fun i n r' p hp hassigned _ => ?_
  rw [hseen] at hp
  subst hp
  rw [hrecovered]
  rintro ⟨run, hrun, hfits⟩
  rw [Fits, hrecovered, recoveredAt, halone] at hfits
  by_contra hnone
  exact hassigned.idle (by omega) run hrun hfits

/-- The run that fits is assigned although the one before it does not fit. -/
theorem scheduler_progress_overtaking : ∃ w,
    Reachable Demo.runtime Demo.settings Demo.templates w ∧
    ∃ n, ((scheduleOnce Demo.settings).alone storage Demo.soon (.start w.state)).1 = .ok n ∧
      1 ≤ n := by
  have h : (Demo.exec Demo.overtaking).any fun w =>
      let found := recovered Demo.settings Demo.soon w.state
      let now := recoveredAt Demo.settings Demo.soon w.state
      ((found.db.queue fun _ => true).any fun run => found.db.workers.rows.any fun x =>
        x.status = .online ∧ now - seconds Demo.settings.workerStaleSeconds ≤ x.lastHeartbeatAt ∧
        run.requestedCpu ≤ x.availableCpu ∧ run.requestedMemoryMb ≤ x.availableMemoryMb) ∧
      w.state.db.allocations.rows = [] ∧ w.state.db.outbox.rows.all fun m => m.id < 400 := by
    decide +kernel
  obtain ⟨w, hw, hlast⟩ := Demo.reachable h
  simp only [decide_eq_true_eq, List.any_eq_true, List.all_eq_true] at hlast
  obtain ⟨⟨run, hrun, x, hx, honline, hheartbeat, hcpu, hmemory⟩, hleases, hmessages⟩ := hlast
  have hmessage (n : ℕ) : w.state.db.outbox.get? (400 + n) = none := Table.get?_eq_none.mpr
    fun m hm heq => absurd (heq ▸ hmessages m hm) (Nat.not_lt.mpr (Nat.le_add_right 400 n))
  have hunused (n : ℕ) : Unused w.state.db (Demo.soon.draw n (.call .pause)).uuid :=
    ⟨Table.get?_eq_none.mpr (by simp [hleases]), by simp [hleases], hmessage n⟩
  have hapart : Apart Demo.soon := fun n n' heq => Nat.add_left_cancel heq
  have hprogress := scheduler_progress hw Demo.soon (fun _ _ => rfl) hunused hapart
  obtain ⟨n, hn, hassigned⟩ := hprogress.returns fun _ _ => rfl
  exact ⟨w, hw, n, hn, hassigned ⟨run, hrun, x, hx, honline, hheartbeat, hcpu, hmemory⟩⟩

namespace Demo

/-- Run `n` waits: a hundred ask for more than the worker has, the last one fits. -/
def waitingRun (n : ℕ) : Run where
  id := 200 + n
  experimentId := 7
  templateId := 2
  status := queued
  priority := if n < 100 then 5 else 0
  requestedCpu := if n < 100 then 4 else 1
  requestedMemoryMb := 512
  assignedWorkerId := none
  attemptNumber := 1
  parentRunId := none
  createdBy := 5
  createdAt := 200 + n
  queuedAt := some (200 + n)
  startedAt := none
  completedAt := none
  failureCode := none
  failureMessage := none
  notes := ""
  tags := []
  version := 1

def smallWorker : Worker where
  id := 102
  name := "worker"
  status := .online
  totalCpu := 2
  availableCpu := 2
  totalMemoryMb := 8192
  availableMemoryMb := 8192
  currentRunCount := 0
  lastHeartbeatAt := 400

theorem nodup_waitingRun : (((List.range 101).map waitingRun).map Run.id).Nodup := by
  rw [List.map_map]
  exact List.nodup_range.map fun a b h => Nat.add_left_cancel h

/-- The hundred precede the one that fits. -/
def crowded : Platform :=
  let p := Platform.empty templates
  { p with db := { p.db with
      runs := ⟨(List.range 101).map waitingRun, nodup_waitingRun⟩
      workers := ⟨[smallWorker], List.nodup_singleton _⟩ } }

end Demo

/-- A hundred runs that fit no worker keep one waiting that does, and the pass
leaves everything as it was for the next one. -/
theorem scheduler_progress_crowded :
    (∃ run ∈ (recovered Demo.settings Demo.soon Demo.crowded).db.runs.rows,
      run.status = queued ∧ Fits Demo.settings Demo.soon Demo.crowded run) ∧
    ((scheduleOnce Demo.settings).alone storage Demo.soon (.start Demo.crowded)).1.toOption = some 0 ∧
    ((scheduleOnce Demo.settings).alone storage Demo.soon (.start Demo.crowded)).2.state.db.runs.rows =
      Demo.crowded.db.runs.rows := by
  have hrecovered : (recovered Demo.settings Demo.soon Demo.crowded).db.runs.rows =
        Demo.crowded.db.runs.rows ∧
      (recovered Demo.settings Demo.soon Demo.crowded).db.workers.rows = [Demo.smallWorker] := by
    decide +kernel
  refine ⟨⟨Demo.waitingRun 100, ?_, rfl, Demo.smallWorker, ?_, ?_⟩, ?_⟩
  · rw [hrecovered.1]
    exact List.mem_map_of_mem (by simp)
  · rw [hrecovered.2]
    simp
  · exact ⟨rfl, by decide +kernel, by decide +kernel, by decide +kernel⟩
  · decide +kernel

end Runscope
