import Runscope.Commits

/-!
Registration and heartbeats keep the contract. Where capacity is accounted
for, the worker's row and leases are what they were when the session read
them, so the counters it writes are right.
-/

namespace Runscope

open Transact

variable {m : Mode} {κ : Kind} {t : Session} {p : Platform}

/-- Counting again changes nothing. -/
theorem Worker.withLeases_withLeases (worker : Worker) (leases : List Lease) :
    (worker.withLeases leases).withLeases leases = worker.withLeases leases := rfl

/-- A row that is as it was loaded takes all the changes. -/
theorem Worker.merge_loaded {loaded changed : Worker} (hid : changed.id = loaded.id)
    (hname : changed.name = loaded.name) : Worker.merge loaded changed loaded = changed := by
  have hcolumn {α : Type} [DecidableEq α] (x y : α) : mergeColumn x y x = y := by
    simp only [mergeColumn]
    split
    · next h => exact h.symm
    · rfl
  simp [Worker.merge, hcolumn, ← hid, ← hname]

/-- The update of a row that is as it was loaded. -/
theorem onWorker_workerUpdate {loaded changed : Worker} {v : WorkerView} (hrow : v.row = some loaded)
    (hid : changed.id = loaded.id) (hname : changed.name = loaded.name) :
    onWorker loaded.id (workerUpdate loaded changed) v = { v with row := some changed } := by
  rw [workerUpdate]
  split
  · next h => rw [h, ← hrow, onWorker_nil]
  · simp [Write.onWorker, hrow, Worker.merge_loaded hid hname]

/-- Writes about workers and the expiry of leases. -/
def Write.upkeep : Write → Bool
  | insertWorker _ | updateWorker .. | renewLease .. => true
  | _ => false

theorem Write.upkeep_inert {w : Write} (h : w.upkeep) :
    w.run? = none ∧ w.records? = none ∧ (∀ i, w.stamp i = w) ∧ (∀ x, w ≠ .insertOutbox x) ∧
      ∀ a, w ≠ .insertAllocation a := by
  cases w with
  | insertWorker | updateWorker | renewLease => exact ⟨rfl, rfl, fun _ => rfl, nofun, nofun⟩
  | _ => cases h

theorem Write.upkeep_founds {w : Write} (h : w.upkeep) : w.founds = false := by
  cases w with
  | insertWorker | updateWorker | renewLease => rfl
  | _ => cases h

theorem upkeep_stamp {ws : List Write} (h : ∀ w ∈ ws, w.upkeep) (i : Input) :
    ws.map (Write.stamp i) = ws :=
  (List.map_congr_left fun w hw => (Write.upkeep_inert (h w hw)).2.2.1 i).trans (List.map_id ws)

theorem upkeep_workerUpdate (loaded changed : Worker) :
    ∀ w ∈ workerUpdate loaded changed, w.upkeep ∧ w.worker? = some loaded.id := by
  intro w hw
  rw [workerUpdate] at hw
  split at hw
  · simp at hw
  · obtain rfl := List.mem_singleton.mp hw
    exact ⟨rfl, rfl⟩

theorem upkeep_renewals (until_ : Time) (allocations : List ResourceAllocation) :
    ∀ w ∈ allocations.flatMap (renewal until_), w.upkeep ∧ w.worker? = none := by
  intro w hw
  obtain ⟨a, -, hw⟩ := List.mem_flatMap.mp hw
  rw [renewal] at hw
  split at hw
  · simp at hw
  · obtain rfl := List.mem_singleton.mp hw
    exact ⟨rfl, rfl⟩

theorem Write.upkeep_locks {w : Write} {id : Uuid} (h : w.upkeep) (hw : w.worker? = some id) :
    RowKey.worker id ∈ w.rowsOf := by
  cases w with
  | insertWorker x | updateWorker loaded _ => simp_all [Write.worker?, Write.rowsOf]
  | renewLease => simp [Write.worker?] at hw
  | _ => cases h

/-- What the upkeep of one worker owes the contract. -/
theorem Lawful.of_upkeep {ws : List Write} (id : Uuid) (hκ : κ.submits = false)
    (hws : ∀ w ∈ ws, w.upkeep ∧ (w.worker? = none ∨ w.worker? = some id))
    (howned : ∀ w ∈ ws, ∀ r ∈ w.rowsOf, r ∈ t.locks)
    (hview : m.accounting → (onWorker id ws (p.db.workerView id)).Balanced ∧
      (κ.Registers (p.db.workerView id) (onWorker id ws (p.db.workerView id)) ∨
        (onWorker id ws (p.db.workerView id)).Fits ∨
        (p.db.workerView id).Shrinks (onWorker id ws (p.db.workerView id)))) :
    Lawful m κ t p ws where
  runs r := by
    rw [onRun_of_forall_ne fun w hw => by simp [(Write.upkeep_inert (hws w hw).1).1]]
    exact .refl
  addressed x hx := absurd rfl ((Write.upkeep_inert (hws _ hx).1).2.2.2.1 x)
  workers hm id' := by
    by_cases hsome : ∃ w ∈ ws, w.worker? = some id'
    · obtain ⟨w, hw, hid⟩ := hsome
      obtain rfl : id' = id := by
        rcases (hws w hw).2 with h | h
        · simp [h] at hid
        · exact Option.some.inj (hid.symm.trans h)
      obtain ⟨hbalanced, hroom⟩ := hview hm
      exact .inr ⟨howned w hw _ (Write.upkeep_locks (hws w hw).1 hid), hbalanced, hroom⟩
    · exact .inl (onWorker_of_forall_ne (fun w hw hid => hsome ⟨w, hw, hid⟩) _)
  records _ r _ w hw := by simp [(Write.upkeep_inert (hws w hw).1).2.1]
  founding := .of_none hκ fun w hw => Write.upkeep_founds (hws w hw).1
  own r := .inl fun w hw => by simp [(Write.upkeep_inert (hws w hw).1).2.1]
  artifacts _ a ha := by cases (hws _ ha).1

theorem upkeep_not_insertAllocation {ws : List Write} (h : ∀ w ∈ ws, w.upkeep)
    (a : ResourceAllocation) : .insertAllocation a ∉ ws :=
  fun ha => (Write.upkeep_inert (h _ ha)).2.2.2.2 a rfl

theorem Holds.flushUpkeep {α : Type} {Q : Outcome α} {pt : Point} {pending : List Write}
    {k : Unit → Program α} (hf : Fails m Q p) (hws : ∀ w ∈ pending, w.upkeep)
    (h : ∀ p' i, Meanwhile m κ pt t p p' →
      Holds m κ Q (k ()) ((t.begin i).write storage pending) p') :
    Holds m κ Q (session.flush pt pending >>= k) t p := by
  refine .flush' hf (upkeep_not_insertAllocation hws) fun p' i hp' _ => ?_
  have hstamp : t.stamped storage i pending = pending := upkeep_stamp hws _
  rw [hstamp]
  exact h p' i hp'

theorem Holds.commitUpkeep {α : Type} {Q : Outcome α} {pt : Point} {before pending : List Write}
    {k : Unit → Program α} (hf : Fails m Q p) (ht : t.writes = before)
    (hws : ∀ w ∈ pending, w.upkeep)
    (h : ∀ p' t', Flushed m κ pt t t' p p' pending →
      storage.firstError p' (before ++ pending) = none →
      (∀ w ∈ before ++ pending, ∀ r ∈ w.rowsOf, r ∈ t'.locks) → Lawful m κ t' p' (before ++ pending))
    (hk : ∀ p' t', Invariant m p' → Later p p' → Holds m κ Q (k ()) t' p') :
    Holds m κ Q (session.commit pt pending >>= k) t p := by
  refine .commitAll hf (upkeep_not_insertAllocation hws) (fun p' i t' hc => ?_)
    fun _ _ _ _ hI hp => hk _ _ hI hp
  rw [upkeep_stamp hws] at hc ⊢
  rw [ht]
  exact h p' t' hc (ht ▸ hc.accepted) (ht ▸ hc.owned)

/-- The load of a worker, as the session sees it. -/
theorem Holds.refreshWorkerCapacity {α : Type} {Q : Outcome α} {pt : Point} {worker : Worker}
    {k : Worker → Program α} (hf : Fails m Q p)
    (h : ∀ p' i, Meanwhile m κ pt t p p' →
      Holds m κ Q (k (worker.withLeases
        (onWorker worker.id t.writes (p'.db.workerView worker.id)).leases)) (t.begin i) p') :
    Holds m κ Q (Runscope.refreshWorkerCapacity pt worker >>= k) t p := by
  refine .bind (.select hf.then fun p' i hp' => ?_)
  have hload : ((t.view storage p').db.loadOf worker.id).map ResourceAllocation.lease =
      (onWorker worker.id t.writes (p'.db.workerView worker.id)).leases :=
    congrArg WorkerView.leases (workerView_applyAll hp'.accepted worker.id)
  rw [Worker.withLoad_eq, hload]
  exact h p' i hp'

theorem Holds.refreshWorker {Q : Outcome Worker} {pt : Point} {worker : Worker} (hf : Fails m Q p)
    (h : ∀ p' i worker', Meanwhile m κ pt t p p' → Q (.ok worker') (t.begin i) p') :
    Holds m κ Q (session.refreshWorker pt worker) t p := by
  refine .select hf fun p' i hp' => ?_
  split
  · exact h p' i _ hp'
  · exact hf _ _ _ hp'.inv (.of_meanwhile hp')

/-- A row that others do not touch is written with some columns changed, and
with the counters of its leases. -/
theorem recount {v : WorkerView} {loaded worker : Worker} {ws : List Write}
    (hrow : v.row = some loaded) (hid : worker.id = loaded.id) (hname : worker.name = loaded.name)
    (hws : ∀ w ∈ ws, w.worker? = none) :
    onWorker loaded.id (workerUpdate loaded worker ++ ws ++ workerUpdate worker
        (worker.withLeases (onWorker loaded.id (workerUpdate loaded worker ++ ws) v).leases)) v =
      ⟨some (worker.withLeases v.leases), v.leases⟩ := by
  have hfirst : onWorker loaded.id (workerUpdate loaded worker ++ ws) v =
      ⟨some worker, v.leases⟩ := by
    rw [onWorker_append, onWorker_workerUpdate hrow hid hname]
    exact onWorker_of_forall_ne (fun w hw => by simp [hws w hw]) _
  rw [onWorker_append, hfirst, ← hid]
  exact onWorker_workerUpdate rfl rfl rfl

/-- A worker is balanced if counting its leases again changes nothing. -/
theorem balanced_of_counted {worker : Worker} {leases : List Lease}
    (h : worker.withLeases leases = worker) : WorkerView.Balanced ⟨some worker, leases⟩ where
  placed := nofun
  counted w hw := by
    cases hw
    exact h

/-- Counted from its leases, a worker is balanced. -/
theorem balanced_withLeases (worker : Worker) (leases : List Lease) :
    WorkerView.Balanced ⟨some (worker.withLeases leases), leases⟩ :=
  balanced_of_counted (worker.withLeases_withLeases leases)

/-- A heartbeat changes the same columns of any copy of the row. -/
theorem Worker.merge_heartbeat (loaded current : Worker) (now : Time) : ∃ status lastHeartbeatAt,
    Worker.merge loaded { loaded with status := .online, lastHeartbeatAt := now } current =
      { current with status, lastHeartbeatAt } := by
  refine ⟨mergeColumn loaded.status .online current.status,
    mergeColumn loaded.lastHeartbeatAt now current.lastHeartbeatAt, ?_⟩
  simp [Worker.merge, mergeColumn]

/-- Counters that were right already stay, even when they are computed from a
copy that was not. -/
theorem Worker.merge_withLeases {worker current : Worker} {leases : List Lease}
    (hcpu : worker.totalCpu = current.totalCpu)
    (hmemory : worker.totalMemoryMb = current.totalMemoryMb)
    (hcounted : current.withLeases leases = current) :
    Worker.merge worker (worker.withLeases leases) current = current := by
  have hcolumn {α : Type} [DecidableEq α] (x y : α) : mergeColumn x y y = y := by
    simp [mergeColumn]
  have hsame {α : Type} [DecidableEq α] (x y : α) : mergeColumn x x y = y := by
    simp [mergeColumn]
  have havailableCpu : (worker.withLeases leases).availableCpu = current.availableCpu := by
    rw [← hcounted, Worker.withLeases, Worker.withLeases, hcpu]
  have havailableMemoryMb :
      (worker.withLeases leases).availableMemoryMb = current.availableMemoryMb := by
    rw [← hcounted, Worker.withLeases, Worker.withLeases, hmemory]
  have hcount : (worker.withLeases leases).currentRunCount = current.currentRunCount := by
    rw [← hcounted]
    rfl
  rw [Worker.merge, havailableCpu, havailableMemoryMb, hcount]
  simp [Worker.withLeases, hcolumn, hsame]

/-- A heartbeat leaves counters right that were. -/
theorem Worker.withLeases_heartbeat (worker : Worker) {leases : List Lease} {status : WorkerStatus}
    {lastHeartbeatAt : Time} (h : worker.withLeases leases = worker) :
    Worker.withLeases { worker with status, lastHeartbeatAt } leases =
      { worker with status, lastHeartbeatAt } :=
  congrArg (fun w : Worker => { w with status, lastHeartbeatAt }) h

/-- A heartbeat of a worker whose counters are right, counted against the
totals it has, though from a copy of the row that others may have overtaken. -/
theorem recount_heartbeat {v : WorkerView} {current : Worker} {ws : List Write} (loaded : Worker)
    (now : Time) (hrow : v.row = some current) (hcounted : current.withLeases v.leases = current)
    (hcpu : loaded.totalCpu = current.totalCpu)
    (hmemory : loaded.totalMemoryMb = current.totalMemoryMb) (hws : ∀ w ∈ ws, w.worker? = none) :
    let worker : Worker := { loaded with status := .online, lastHeartbeatAt := now }
    ∃ status lastHeartbeatAt,
      onWorker loaded.id (workerUpdate loaded worker ++ ws ++ workerUpdate worker
          (worker.withLeases (onWorker loaded.id (workerUpdate loaded worker ++ ws) v).leases)) v =
        ⟨some { current with status, lastHeartbeatAt }, v.leases⟩ := by
  intro worker
  obtain ⟨status, lastHeartbeatAt, hfirst⟩ : ∃ status lastHeartbeatAt,
      onWorker loaded.id (workerUpdate loaded worker) v =
        ⟨some { current with status, lastHeartbeatAt }, v.leases⟩ := by
    unfold workerUpdate
    split
    · exact ⟨current.status, current.lastHeartbeatAt, by rw [onWorker_nil, ← hrow]⟩
    · obtain ⟨status, lastHeartbeatAt, hmerge⟩ := Worker.merge_heartbeat loaded current now
      refine ⟨status, lastHeartbeatAt, ?_⟩
      simp only [onWorker_cons, onWorker_nil, Write.onWorker, hrow, if_true, Option.map_some]
      rw [hmerge]
  have hread : onWorker loaded.id (workerUpdate loaded worker ++ ws) v =
      ⟨some { current with status, lastHeartbeatAt }, v.leases⟩ := by
    rw [onWorker_append, hfirst]
    exact onWorker_of_forall_ne (fun w hw => by simp [hws w hw]) _
  refine ⟨status, lastHeartbeatAt, ?_⟩
  rw [onWorker_append, hread, workerUpdate]
  split
  · rw [onWorker_nil]
  · have hkeep : Worker.merge worker (worker.withLeases v.leases)
        { current with status, lastHeartbeatAt } = { current with status, lastHeartbeatAt } :=
      Worker.merge_withLeases hcpu hmemory (current.withLeases_heartbeat hcounted)
    simp only [onWorker_cons, onWorker_nil, Write.onWorker, worker, if_true, Option.map_some]
    rw [hkeep]

theorem heartbeatWorker_holds {Q : Outcome (Option Worker)} (hQ : ∀ x t p, Q x t p)
    {workerId : Uuid} {leaseSeconds : ℤ} (ht : t.writes = []) :
    Holds m (.heartbeat workerId) Q (heartbeatWorker workerId leaseSeconds) t p := by
  have hf (p : Platform) : Fails m Q p := .of_forall hQ p
  refine .select (hf p) fun p₁ i₁ hp₁ => ?_
  rw [Session.view, ht, Storage.applyAll_nil]
  cases hget : p₁.db.workers.get? workerId with
  | none => exact hQ _ _ _
  | some loaded =>
      obtain rfl := Table.key_of_get? hget
      refine .datetimeNow fun p₂ t₂ now ht₂ hp₂ => ?_
      extract_lets worker pt
      have hwrites : t₂.writes = [] := ht₂.writes.trans ht
      have hbegan : t₂.began.isSome := by simp [ht₂.began]
      have hupdate := upkeep_workerUpdate loaded worker
      refine .flushUpkeep (hf p₂) (fun w hw => (hupdate w hw).1) fun p₃ i₃ hp₃ => ?_
      refine .select (hf p₃) fun p₄ i₄ hp₄ => ?_
      generalize hrenew : List.flatMap _ _ = renewals
      have hrenewals : ∀ w ∈ renewals, w.upkeep ∧ w.worker? = none :=
        hrenew ▸ upkeep_renewals _ _
      refine .flushUpkeep (hf p₄) (fun w hw => (hrenewals w hw).1) fun p₅ i₅ hp₅ => ?_
      refine .refreshWorkerCapacity (hf p₅) fun p₆ i₆ hp₆ => ?_
      refine .commitUpkeep (hf p₆) rfl (fun w hw => (upkeep_workerUpdate _ _ w hw).1)
        (fun p₇ t' hc hacc howned => ?_) fun _ _ _ _ =>
          .bind (.refreshWorker (hf _).then fun _ _ _ _ => hQ _ _ _)
      simp only [Session.begin_writes, Session.write_writes, hwrites, List.nil_append] at howned ⊢
      refine .of_upkeep loaded.id rfl (fun w hw => ?_) howned fun hm => ?_
      · simp only [List.mem_append] at hw
        rcases hw with (hw | hw) | hw
        · exact ⟨(hupdate w hw).1, .inr (hupdate w hw).2⟩
        · exact ⟨(hrenewals w hw).1, .inl (hrenewals w hw).2⟩
        · have hlast := upkeep_workerUpdate _ _ w hw
          exact ⟨hlast.1, .inr hlast.2⟩
      · -- others may have changed the counters since, but not the totals
        have htotals : (p₆.db.workerView loaded.id).totals = (p₁.db.workerView loaded.id).totals :=
          (hp₆.rely.totals hm rfl loaded.id rfl).trans <|
            (hp₅.rely.totals hm rfl loaded.id rfl).trans <|
            (hp₄.rely.totals hm rfl loaded.id rfl).trans <|
            (hp₃.rely.totals hm hbegan loaded.id rfl).trans (hp₂.rely.totals hm rfl loaded.id rfl)
        -- and nothing since they were counted
        have h₇ : p₇.db.workerView loaded.id = p₆.db.workerView loaded.id := by
          by_cases hsame : worker = loaded
          · exact hc.meanwhile.rely.loaded hm rfl loaded.id (by simp [pt, hsame])
          · have hlock :
                RowKey.worker loaded.id ∈ storage.rowsOf (.updateWorker loaded worker) := by
              simp [storage, Write.rowsOf]
            exact hc.meanwhile.rely.locked hm loaded.id (by simp [workerUpdate, hsame, hlock])
        have hleft : (p₁.db.workerView loaded.id).totals =
            some (loaded.totalCpu, loaded.totalMemoryMb) := by
          simp [WorkerView.totals, Db.workerView, hget]
        obtain ⟨current, hrow, hcurrent⟩ := Option.map_eq_some_iff.mp (htotals.trans hleft)
        obtain ⟨hcpu, hmemory⟩ := Prod.mk.inj hcurrent
        have hcounted := (hp₆.inv.capacity hm loaded.id).counted current hrow
        have hrecount := recount_heartbeat loaded now hrow hcounted hcpu.symm hmemory.symm
          fun w hw => (hrenewals w hw).2
        obtain ⟨status, lastHeartbeatAt, hview⟩ := hrecount
        rw [h₇, hview]
        refine ⟨balanced_of_counted (current.withLeases_heartbeat hcounted),
          .inr (.inr ⟨?_, .refl _⟩)⟩
        simp [WorkerView.totals, hrow]

/-- A worker without leases has all it registered with. -/
theorem Worker.withLeases_nil {worker : Worker} (hcpu : 0 < worker.totalCpu)
    (hmemory : 0 < worker.totalMemoryMb) (havailable : worker.availableCpu = worker.totalCpu)
    (hmemoryMb : worker.availableMemoryMb = worker.totalMemoryMb)
    (hcount : worker.currentRunCount = 0) : worker.withLeases [] = worker := by
  have hfreeCpu : max 0 (worker.totalCpu - 0) = worker.availableCpu := by
    rw [sub_zero, max_eq_right hcpu.le, havailable]
  have hfreeMemory : max 0 (worker.totalMemoryMb - 0) = worker.availableMemoryMb := by
    rw [sub_zero, max_eq_right hmemory.le, hmemoryMb]
  simp only [Worker.withLeases, List.map_nil, List.sum_nil, List.length_nil, hfreeCpu,
    hfreeMemory, ← hcount]

theorem registerWorker_holds {Q : Outcome Worker} (hQ : ∀ x t p, Q x t p) {name : String}
    {totals : WorkerTotals} (ht : t.writes = []) :
    Holds m (.registerWorker name totals) Q (registerWorker name totals) t p := by
  have hf (p : Platform) : Fails m Q p := .of_forall hQ p
  refine .selectForUpdate (hf p) fun p₁ i₁ free hp₁ => ?_
  rw [Session.view, ht, Storage.applyAll_nil]
  cases hfound : (p₁.db.workers.rows.filter fun w => w.name = name).take 1 with
  | nil =>
      refine .datetimeNow fun p₂ t₂ now ht₂ hp₂ => .uuid4 fun p₃ t₃ id ht₃ hp₃ => ?_
      extract_lets worker
      have hwrites : t₃.writes = [] := ht₃.writes.trans (ht₂.writes.trans ht)
      refine .flushUpkeep (hf p₃) (by simp [Write.upkeep]) fun p₄ i₄ hp₄ => ?_
      refine .commitUpkeep (hf p₄) rfl (by simp) (fun p₅ t' hc hacc howned => ?_) fun _ _ _ _ =>
        .refreshWorker (hf _) fun _ _ _ _ => hQ _ _ _
      simp only [Session.begin_writes, Session.write_writes, hwrites, List.nil_append,
        List.append_nil] at hacc howned ⊢
      refine .of_upkeep id rfl (by simp [Write.upkeep, Write.worker?, worker]) howned fun hm => ?_
      have hnone : p₅.db.workers.get? id = none := by
        have hcheck := (storage.firstError_cons_eq_none.mp hacc).1
        simp only [storage, Write.check] at hcheck
        split_ifs at hcheck with h
        simpa using h
      have hview : p₅.db.workerView id = ⟨none, []⟩ := by
        have hleases := (hc.inv.capacity hm id).placed hnone
        rw [← hnone, ← hleases]
        rfl
      have hcount : worker.withLeases [] = worker :=
        Worker.withLeases_nil totals.cpu_pos totals.memoryMb_pos rfl rfl rfl
      have hafter : onWorker id [.insertWorker worker] (p₅.db.workerView id) = ⟨some worker, []⟩ := by
        simp [hview, Write.onWorker, worker]
      rw [hafter, ← hcount]
      refine ⟨balanced_withLeases worker [], .inr (.inl ?_)⟩
      rintro _ ⟨⟩
      exact ⟨totals.cpu_pos.le, totals.memoryMb_pos.le⟩
  | cons loaded rest =>
      have hmem : loaded ∈ p₁.db.workers.rows := by
        have : loaded ∈ (p₁.db.workers.rows.filter fun w => w.name = name).take 1 := by
          simp [hfound]
        exact (List.mem_filter.mp (List.mem_of_mem_take this)).1
      have hget := Table.get?_of_mem hmem
      refine .datetimeNow fun p₂ t₂ now ht₂ hp₂ => ?_
      extract_lets worker
      have hwrites : t₂.writes = [] := ht₂.writes.trans ht
      have hlock : RowKey.worker loaded.id ∈ t₂.locks := by simp [ht₂.locks]
      have hupdate := upkeep_workerUpdate loaded worker
      refine .flushUpkeep (hf p₂) (fun w hw => (hupdate w hw).1) fun p₃ i₃ hp₃ => ?_
      refine .refreshWorkerCapacity (hf p₃) fun p₄ i₄ hp₄ => ?_
      refine .commitUpkeep (hf p₄) rfl (fun w hw => (upkeep_workerUpdate _ _ w hw).1)
        (fun p₅ t' hc hacc howned => ?_) fun _ _ _ _ => .refreshWorker (hf _) fun _ _ _ _ => hQ _ _ _
      simp only [Session.begin_writes, Session.write_writes, hwrites, List.nil_append] at howned ⊢
      refine .of_upkeep loaded.id rfl (fun w hw => ?_) howned fun hm => ?_
      · rcases List.mem_append.mp hw with hw | hw
        · exact ⟨(hupdate w hw).1, .inr (hupdate w hw).2⟩
        · have hlast := upkeep_workerUpdate _ _ w hw
          exact ⟨hlast.1, .inr hlast.2⟩
      · -- the row is locked
        have h₂ := hp₂.rely.locked hm loaded.id (by simp)
        have h₃ := hp₃.rely.locked hm loaded.id hlock
        have h₄ := hp₄.rely.locked hm loaded.id (by simp [hlock])
        have h₅ := hc.meanwhile.rely.locked hm loaded.id (by simp [hlock])
        have hview := @recount (p₁.db.workerView loaded.id) loaded worker [] hget rfl rfl (by simp)
        rw [List.append_nil] at hview
        rw [h₅, h₄, h₃, h₂, hview]
        refine ⟨balanced_withLeases _ _, .inl ⟨⟨name, totals, rfl⟩, ?_, rfl⟩⟩
        simp [Db.workerView, hget]

end Runscope
