import Runscope.WorkersSound

/-!
A pass of the scheduler: one transaction that writes to many runs and workers.

`Pass` says of such a transaction that it could be committed once what is
pending is flushed: every run it has written to is locked and has only taken
steps a scheduler may take, and every worker it has written to is out of the
others' reach and has its counters right. Others cannot break this, and each
round of the loops keeps it.
-/

namespace Runscope

open Transact RunStatus

variable {m : Mode} {t : Session} {p : Platform}

/-! ### Server defaults do not matter to views -/

@[simp] theorem Write.run?_stamp (i : Input) (w : Write) : (w.stamp i).run? = w.run? := by
  cases w <;> rfl

@[simp] theorem Write.worker?_stamp (i : Input) (w : Write) : (w.stamp i).worker? = w.worker? := by
  cases w <;> rfl

@[simp] theorem Write.records?_stamp (i : Input) (w : Write) :
    (w.stamp i).records? = w.records? := by
  cases w <;> rfl

@[simp] theorem Write.founds_stamp (i : Input) (w : Write) : (w.stamp i).founds = w.founds := by
  cases w <;> rfl

@[simp] theorem onWorker_stamp (i : Input) (id : Uuid) (ws : List Write) (v : WorkerView) :
    onWorker id (ws.map (Write.stamp i)) v = onWorker id ws v := by
  induction ws generalizing v with
  | nil => rfl
  | cons w ws ih =>
      rw [List.map_cons, onWorker_cons, onWorker_cons, ih]
      cases w <;> rfl

/-- The creation time of a run is part of its view. -/
theorem onRun_stamp {ws : List Write} (hws : ∀ run, .insertRun run ∉ ws) (i : Input) (r : Uuid)
    (v : RunView) : onRun r (ws.map (Write.stamp i)) v = onRun r ws v := by
  induction ws generalizing v with
  | nil => rfl
  | cons w ws ih =>
      rw [List.map_cons, onRun_cons, onRun_cons, ih fun run hrun => hws run (by simp [hrun])]
      cases w with
      | insertRun run => exact absurd (by simp) (hws run)
      | _ => rfl

theorem Write.stamp_eq_insertOutbox {w : Write} {i : Input} {x : OutboxMessage}
    (h : w.stamp i = .insertOutbox x) : ∃ y, w = .insertOutbox y ∧ y.envelope = x.envelope := by
  cases w with
  | insertOutbox y =>
      obtain rfl := Write.insertOutbox.inj h
      exact ⟨y, rfl, rfl⟩
  | insertRun | insertEvent => simp [Write.stamp] at h
  | _ => exact ⟨x, h, rfl⟩

/-! ### Passes -/

/-- `room` is what the pass does to the leases of a worker. -/
structure Pass (m : Mode) (room : WorkerView → WorkerView → Prop) (pt : Point) (t : Session)
    (p : Platform) (pending : List Write) : Prop where
  plain : ∀ w ∈ t.writes ++ pending, w.records? = none ∧ w.founds = false
  addressed : ∀ x, .insertOutbox x ∈ t.writes ++ pending → ∃ r, x.envelope.runId = some r
  runs : ∀ r, (∀ w ∈ t.writes ++ pending, w.run? ≠ some r) ∨ RowKey.run r ∈ t.locks ∧
    Lives (Kind.schedule.allows r) (p.db.runView r)
      (onRun r (t.writes ++ pending) (p.db.runView r))
  workers : m.accounting → ∀ id, (∀ w ∈ t.writes ++ pending, w.worker? ≠ some id) ∨
    (RowKey.worker id ∈ t.locks ∨
      pt.worker = some id ∧ updatedWorker pending = some id ∧ t.began.isSome) ∧
    (onWorker id (t.writes ++ pending) (p.db.workerView id)).Balanced ∧
      room (p.db.workerView id) (onWorker id (t.writes ++ pending) (p.db.workerView id))

/-- The worker of a pending update. -/
theorem updatedWorker_eq {pending : List Write} {id : Uuid} (h : updatedWorker pending = some id) :
    ∃ loaded changed, .updateWorker loaded changed ∈ pending ∧ loaded.id = id := by
  obtain ⟨w, hw, hid⟩ := List.exists_of_findSome?_eq_some h
  cases w with
  | updateWorker loaded changed => exact ⟨loaded, changed, hw, by simpa using hid⟩
  | _ => simp at hid

namespace Pass

variable {κ : Kind} {room : WorkerView → WorkerView → Prop} {pt : Point} {t' : Session}
  {p' : Platform} {pending : List Write}

/-- What is locked stays. -/
theorem runView_locked {r : Uuid} (hr : RowKey.run r ∈ t.locks) (hp' : Meanwhile m κ pt t p p') :
    p'.db.runView r = p.db.runView r :=
  (hp'.rely.runs r).eq_of_run (hp'.locked (.run r) hr).symm

/-- Others cannot break a pass. -/
theorem stable (h : Pass m room pt t p pending) (hp' : Meanwhile m κ pt t p p') :
    Pass m room pt t p' pending where
  plain := h.plain
  addressed := h.addressed
  runs r := by
    refine (h.runs r).imp_right fun ⟨hlock, hlives⟩ => ⟨hlock, ?_⟩
    rw [runView_locked hlock hp']
    exact hlives
  workers hm id := by
    refine (h.workers hm id).imp_right fun ⟨hkept, hok⟩ => ⟨hkept, ?_⟩
    have hsame : p'.db.workerView id = p.db.workerView id := by
      rcases hkept with hlock | ⟨hpt, -, hbegan⟩
      · exact hp'.rely.locked hm id hlock
      · exact hp'.rely.loaded hm hbegan id hpt
    rw [hsame]
    exact hok

/-- Reading and locking more does no harm. -/
theorem read (h : Pass m room pt t p pending) (hlocks : ∀ r ∈ t.locks, r ∈ t'.locks)
    (hwrites : t'.writes = t.writes) (hbegan : t.began.isSome → t'.began.isSome) :
    Pass m room pt t' p pending where
  plain := hwrites ▸ h.plain
  addressed := hwrites ▸ h.addressed
  runs r := by
    rw [hwrites]
    exact (h.runs r).imp_right fun ⟨hlock, hlives⟩ => ⟨hlocks _ hlock, hlives⟩
  workers hm id := by
    rw [hwrites]
    exact (h.workers hm id).imp_right fun ⟨hkept, hok⟩ =>
      ⟨hkept.imp (hlocks _) fun ⟨hpt, hupdated, hb⟩ => ⟨hpt, hupdated, hbegan hb⟩, hok⟩

theorem idle (h : Pass m room pt t p pending) (hidle : Idle t t') : Pass m room pt t' p pending :=
  h.read (fun _ hr => hidle.locks.symm ▸ hr) hidle.writes fun hb => hidle.began ▸ hb

theorem begin (h : Pass m room pt t p pending) (i : Input) : Pass m room pt (t.begin i) p pending :=
  h.read (fun _ hr => hr) rfl fun _ => rfl

theorem lock (h : Pass m room pt t p pending) (rows : List RowKey) :
    Pass m room pt (t.lock rows) p pending :=
  h.read (fun _ hr => List.mem_append_right _ hr) rfl id

/-- What was pending has been flushed. -/
theorem flushed {i : Input} (h : Pass m room pt t p pending) (hlocks : ∀ r ∈ t.locks, r ∈ t'.locks)
    (hwrites : t'.writes = t.writes ++ pending.map (Write.stamp i))
    (howned : ∀ w ∈ pending.map (Write.stamp i), ∀ r ∈ w.rowsOf, r ∈ t'.locks) :
    Pass m room {} t' p [] := by
  have hmem (w : Write) (hw : w ∈ t.writes ++ pending.map (Write.stamp i)) :
      ∃ w' ∈ t.writes ++ pending, w = w' ∨ w = w'.stamp i := by
    rcases List.mem_append.mp hw with hw | hw
    · exact ⟨w, List.mem_append_left _ hw, .inl rfl⟩
    · obtain ⟨w', hw', rfl⟩ := List.mem_map.mp hw
      exact ⟨w', List.mem_append_right _ hw', .inr rfl⟩
  have hrun (r : Uuid) (v : RunView) : onRun r (t.writes ++ pending.map (Write.stamp i)) v =
      onRun r (t.writes ++ pending) v := by
    rw [onRun_append, onRun_append]
    refine onRun_stamp (fun run hrun => ?_) _ r _
    simpa [Write.founds] using (h.plain _ (List.mem_append_right _ hrun)).2
  have hworker (id : Uuid) (v : WorkerView) :
      onWorker id (t.writes ++ pending.map (Write.stamp i)) v =
        onWorker id (t.writes ++ pending) v := by
    rw [onWorker_append, onWorker_append]
    exact onWorker_stamp _ id pending _
  constructor
  all_goals simp only [hwrites, List.append_nil]
  · intro w hw
    obtain ⟨w', hw', rfl | rfl⟩ := hmem w hw
    · exact h.plain w hw'
    · have hplain := h.plain w' hw'
      exact ⟨by simpa using hplain.1, by simpa using hplain.2⟩
  · intro x hx
    obtain ⟨w', hw', rfl | heq⟩ := hmem _ hx
    · exact h.addressed x hw'
    · obtain ⟨y, rfl, henvelope⟩ := Write.stamp_eq_insertOutbox heq.symm
      exact henvelope ▸ h.addressed y hw'
  · intro r
    rw [hrun]
    refine (h.runs r).imp (fun hne w hw => ?_) (And.imp_left (hlocks _))
    obtain ⟨w', hw', rfl | rfl⟩ := hmem w hw
    · exact hne w hw'
    · simpa using hne w' hw'
  · intro hm id
    rw [hworker]
    refine (h.workers hm id).imp (fun hne w hw => ?_) (And.imp_left fun hkept => .inl ?_)
    · obtain ⟨w', hw', rfl | rfl⟩ := hmem w hw
      · exact hne w hw'
      · simpa using hne w' hw'
    · rcases hkept with hlock | ⟨-, hupdated, -⟩
      · exact hlocks _ hlock
      · obtain ⟨loaded, changed, hw, rfl⟩ := updatedWorker_eq hupdated
        refine howned _ (List.mem_map_of_mem hw) _ ?_
        simp [Write.stamp, Write.rowsOf]

theorem flush (h : Pass m room pt t p pending) (i : Input) :
    Pass m room {} ((t.begin i).write storage (t.stamped storage i pending)) p [] :=
  h.flushed (fun _ hr => List.mem_append_right _ hr) rfl
    fun w hw _ hr => List.mem_append_left _ (List.mem_flatMap.mpr ⟨w, hw, hr⟩)

/-- Nothing has been written yet. -/
theorem start (ht : t.writes = []) : Pass m room {} t p [] where
  plain := by simp [ht]
  addressed := by simp [ht]
  runs := by simp [ht]
  workers := by simp [ht]

/-- Upkeep comes to be pending. -/
theorem addUpkeep (h : Pass m room {} t p []) (hupkeep : ∀ w ∈ pending, w.upkeep)
    (hworkers : m.accounting → ∀ id, (∀ w ∈ t.writes ++ pending, w.worker? ≠ some id) ∨
      (RowKey.worker id ∈ t.locks ∨
        pt.worker = some id ∧ updatedWorker pending = some id ∧ t.began.isSome) ∧
      (onWorker id (t.writes ++ pending) (p.db.workerView id)).Balanced ∧
        room (p.db.workerView id) (onWorker id (t.writes ++ pending) (p.db.workerView id))) :
    Pass m room pt t p pending := by
  have hold {w : Write} (hw : w ∈ t.writes) : w ∈ t.writes ++ [] := by simpa using hw
  have hskip (r : Uuid) (v : RunView) : onRun r pending v = v :=
    onRun_of_forall_ne (fun w hw => by simp [(Write.upkeep_inert (hupkeep w hw)).1]) v
  refine ⟨fun w hw => ?_, fun x hx => ?_, fun r => ?_, hworkers⟩
  · rcases List.mem_append.mp hw with hw | hw
    · exact h.plain w (hold hw)
    · exact ⟨(Write.upkeep_inert (hupkeep w hw)).2.1, Write.upkeep_founds (hupkeep w hw)⟩
  · rcases List.mem_append.mp hx with hx | hx
    · exact h.addressed x (hold hx)
    · exact absurd rfl ((Write.upkeep_inert (hupkeep _ hx)).2.2.2.1 x)
  · rw [onRun_append, hskip]
    have hr := h.runs r
    rw [List.append_nil] at hr
    refine hr.imp_left fun hne w hw => ?_
    rcases List.mem_append.mp hw with hw | hw
    · exact hne w hw
    · simp [(Write.upkeep_inert (hupkeep w hw)).1]

theorem mono {room' : WorkerView → WorkerView → Prop} (h : Pass m room pt t p pending)
    (hroom : ∀ v v', room v v' → room' v v') : Pass m room' pt t p pending :=
  { h with
    workers := fun hm id => (h.workers hm id).imp_right fun ⟨hkept, hbalanced, hok⟩ =>
      ⟨hkept, hbalanced, hroom _ _ hok⟩ }

/-- The worker as the pass sees it is balanced. -/
theorem balanced (h : Pass m room pt t p pending) (hI : Invariant m p) (hm : m.accounting)
    (id : Uuid) : (onWorker id (t.writes ++ pending) (p.db.workerView id)).Balanced := by
  rcases h.workers hm id with hne | ⟨-, hbalanced, -⟩
  · rw [onWorker_of_forall_ne hne]
    exact hI.capacity hm id
  · exact hbalanced

/-- A pass may be committed. -/
theorem lawful (h : Pass m room pt t p [])
    (hroom : ∀ v v', room v v' → v'.Fits ∨ v.Shrinks v') : Lawful m .schedule t p t.writes where
  runs r := by
    have hr := h.runs r
    rw [List.append_nil] at hr
    rcases hr with hne | ⟨-, hlives⟩
    · rw [onRun_of_forall_ne hne]
      exact .refl
    · exact .pass rfl hlives
  addressed x hx := h.addressed x (List.mem_append_left _ hx)
  workers hm id := by
    have hid := h.workers hm id
    rw [List.append_nil] at hid
    refine hid.imp (fun hne => onWorker_of_forall_ne hne _) fun ⟨hkept, hbalanced, hok⟩ => ?_
    rcases hkept with hlock | ⟨-, hupdated, -⟩
    · exact ⟨hlock, hbalanced, .inr (hroom _ _ hok)⟩
    · cases hupdated
  records _ r _ w hw := by simp [(h.plain w (List.mem_append_left _ hw)).1]
  founding := .of_none rfl fun w hw => (h.plain w (List.mem_append_left _ hw)).2
  own r := .inl fun w hw => by simp [(h.plain w (List.mem_append_left _ hw)).1]
  artifacts _ a ha := by simpa [Write.records?] using (h.plain _ (List.mem_append_left _ ha)).1

end Pass

end Runscope
