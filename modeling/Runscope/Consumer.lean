import Mathlib.Logic.Function.Basic
import Runscope.Reachable

/-!
The consumer of a worker: the loop of `run_worker` around the generator
`KafkaEventConsumer.events` (`broker.py`).

The generator commits the offset of a message when the loop asks for the next
one, and the loop asks whether the message was handled or its exception
logged. The rest of the system may do to the database what it likes, as long
as it respects locks and deletes no `processed_messages`.
-/

namespace Runscope

open Transact

/-- Where the loop stands. A position is, for each partition, the offset of
the next message. -/
inductive ConsumerLoop where
  /-- Not running, or about to reconnect. -/
  | stopped
  | polling (position : ℕ → ℕ)
  /-- Between `yield` and the next request. -/
  | processing (position : ℕ → ℕ) (event : EventEnvelope) (prog : Program Bool)
      (session : Session)
  /-- The generator is resumed after its `yield`. -/
  | resumed (position : ℕ → ℕ)

/-- The platform, the topic by partition with `none` for a message that is no
`EventEnvelope`, the offsets the consumer group has committed, and the loop. -/
structure Consumer where
  platform : Platform
  log : ℕ → List (Option EventEnvelope)
  committed : ℕ → ℕ
  loop : ConsumerLoop

def ConsumerLoop.locks : ConsumerLoop → List RowKey
  | processing _ _ _ session => session.locks
  | _ => []

namespace Consumer

/-- One step of the consumer of a worker, or of its surroundings. -/
inductive Step (rt : Runtime) (workerId : Uuid) : Consumer → Consumer → Prop where
  | append (c : Consumer) (k : ℕ) (message : Option EventEnvelope) :
      Step rt workerId c { c with log := Function.update c.log k (c.log k ++ [message]) }
  | others (c : Consumer) (p : Platform) (kept : c.platform.db.processed ⊆ p.db.processed)
      (locked : ∀ r ∈ c.loop.locks, storage.same r c.platform p) :
      Step rt workerId c { c with platform := p }
  /-- `await self._consumer.start()` -/
  | start {p : Platform} {log : ℕ → List (Option EventEnvelope)} {committed : ℕ → ℕ} :
      Step rt workerId ⟨p, log, committed, .stopped⟩ ⟨p, log, committed, .polling committed⟩
  | fetch {p : Platform} {log : ℕ → List (Option EventEnvelope)} {committed position : ℕ → ℕ}
      {k : ℕ} {event : EventEnvelope} (h : (log k)[position k]? = some (some event)) :
      Step rt workerId ⟨p, log, committed, .polling position⟩
        ⟨p, log, committed, .processing (Function.update position k (position k + 1)) event
          (processEvent rt event (some workerId)) .fresh⟩
  /-- `model_validate` raises in the generator. -/
  | invalid {p : Platform} {log : ℕ → List (Option EventEnvelope)} {committed position : ℕ → ℕ}
      {k : ℕ} (h : (log k)[position k]? = some none) :
      Step rt workerId ⟨p, log, committed, .polling position⟩ ⟨p, log, committed, .stopped⟩
  | run {p p' : Platform} {log : ℕ → List (Option EventEnvelope)} {committed position : ℕ → ℕ}
      {event : EventEnvelope} {prog prog' : Program Bool}
      {t t' : Session} (free : RowKey → Bool) (i : Input)
      (h : prog.exec storage free i t p = some (prog', t', p')) :
      Step rt workerId ⟨p, log, committed, .processing position event prog t⟩
        ⟨p', log, committed, .processing position event prog' t'⟩
  | fault {p : Platform} {log : ℕ → List (Option EventEnvelope)} {committed position : ℕ → ℕ}
      {event : EventEnvelope} {prog prog' : Program Bool} {t : Session}
      (h : prog.fault storage = some prog') :
      Step rt workerId ⟨p, log, committed, .processing position event prog t⟩
        ⟨p, log, committed, .processing position event prog' t.close⟩
  | handled {p : Platform} {log : ℕ → List (Option EventEnvelope)} {committed position : ℕ → ℕ}
      {event : EventEnvelope} {result : Bool} {t : Session} :
      Step rt workerId ⟨p, log, committed, .processing position event (.ret result) t⟩
        ⟨p, log, committed, .resumed position⟩
  /-- `logger.exception("Worker event processing failed")` -/
  | failed {p : Platform} {log : ℕ → List (Option EventEnvelope)} {committed position : ℕ → ℕ}
      {event : EventEnvelope} {exc : Exc} {t : Session} :
      Step rt workerId ⟨p, log, committed, .processing position event (.raise exc) t⟩
        ⟨p, log, committed, .resumed position⟩
  /-- `await self._consumer.commit()` -/
  | commit {p : Platform} {log : ℕ → List (Option EventEnvelope)} {committed position : ℕ → ℕ} :
      Step rt workerId ⟨p, log, committed, .resumed position⟩ ⟨p, log, position, .polling position⟩
  /-- The generator ends with an exception, or the process dies. -/
  | stop (c : Consumer) : Step rt workerId c { c with loop := .stopped }

/-- A `run.assigned` message for the worker. -/
def Addressed (workerId : Uuid) (event : EventEnvelope) : Prop :=
  event.eventType = "run.assigned" ∧ event.runId.isSome ∧ event.workerId = some workerId

/-- The row that makes a redelivery of the message a no-op. -/
def record (workerId : Uuid) (event : EventEnvelope) : ProcessedMessage :=
  ⟨event.eventId, (consumerNamePrefix, workerId)⟩

/-- The loop does not go on after an exception with an assignment of the
worker that is not recorded. -/
def Unswallowed (workerId : Uuid) (c c' : Consumer) : Prop :=
  ∀ position event exc t, c.loop = .processing position event (.raise exc) t →
    c'.loop = .resumed position → Addressed workerId event →
      record workerId event ∈ c.platform.db.processed

/-- Reached from a consumer group that has committed nothing. -/
def Reachable (rt : Runtime) (workerId : Uuid)
    (allowed : Consumer → Consumer → Prop) (c : Consumer) : Prop :=
  ∃ p log, Relation.ReflTransGen (fun c c' => Step rt workerId c c' ∧ allowed c c')
    ⟨p, log, fun _ => 0, .stopped⟩ c

/-- What the group has committed past is recorded, as far as it concerns the
worker. -/
def Acknowledged (workerId : Uuid) (c : Consumer) : Prop :=
  ∀ k n event, n < c.committed k → (c.log k)[n]? = some (some event) → Addressed workerId event →
    record workerId event ∈ c.platform.db.processed

/-! ### What a handled message leaves behind -/

/-- Rows of `processed_messages` stay. -/
def keptContract : Contract Platform RowKey Write Call Input Point where
  rely _ _ p p' := p.db.processed ⊆ p'.db.processed
  guar _ _ p p' := p.db.processed ⊆ p'.db.processed
  need _ _ _ := True
  rely_refl h := h
  rely_trans h h' _ hm := h' (h hm)

theorem processed_apply (w : Write) (p : Platform) :
    p.db.processed ⊆ (w.apply p).db.processed := by
  cases w with
  | insertProcessed x => exact List.subset_append_left _ _
  | _ => exact List.Subset.refl _

theorem processed_applyAll (ws : List Write) (p : Platform) :
    p.db.processed ⊆ (storage.applyAll p ws).db.processed := by
  induction ws generalizing p with
  | nil => exact List.Subset.refl _
  | cons w ws ih => exact List.Subset.trans (processed_apply w p) (ih (w.apply p))

theorem processed_perform (call : Call) (i : Input) (p : Platform) :
    p.db.processed ⊆ (call.perform i p).db.processed := by
  rw [call.perform_db]
  exact List.Subset.refl _

abbrev Records {α : Type} (Q : Except Exc α → Session → Platform → Prop)
    (prog : Program α) (t : Session) (p : Platform) : Prop :=
  Sound storage (fun _ => True) keptContract Q prog t p

/-- No program of the worker deletes such rows. -/
theorem records_of_program {α : Type} (prog : Program α) (t : Session)
    (p : Platform) : Records (fun _ _ _ => True) prog t p :=
  Sound.of_forall (fun _ _ _ => trivial) (fun _ t p _ => ⟨processed_applyAll t.writes p, trivial⟩)
    (fun _ _ p call i _ => ⟨processed_perform call i p, trivial⟩) prog t p

/-- A handled assignment is recorded. -/
def Handled (workerId : Uuid) (event : EventEnvelope) (outcome : Except Exc Bool)
    (_ : Session) (p : Platform) : Prop :=
  ∀ result, outcome = .ok result → Addressed workerId event →
    record workerId event ∈ p.db.processed

theorem commit_records {message : ProcessedMessage} {α : Type}
    {Q : Except Exc α → Session → Platform → Prop} {k : Unit → Program α}
    (hQ : ∀ e t p, Q (.error e) t p)
    (hk : ∀ t p, message ∈ p.db.processed → Records Q (k ()) t p)
    (t : Session) (p : Platform) :
    Records Q (session.commit {} [.insertProcessed message] >>= k) t p := by
  refine Sound.bind (Sound.bind (Sound.stmt fun p₁ _ => ⟨trivial, hQ _ _ _, fun i =>
    ⟨fun e _ => hQ _ _ _, fun _ => ?_⟩⟩))
  refine Sound.stmt fun p₂ h₂ => ⟨trivial, hQ _ _ _, ?_, trivial, fun j => hk _ _ ?_⟩
  · exact processed_applyAll _ p₂
  · change message ∈ (storage.applyAll p₂ (t.writes ++ [.insertProcessed message])).db.processed
    rw [Storage.applyAll_append]
    exact List.mem_append_right _ (List.mem_singleton_self _)

theorem processEvent_records (rt : Runtime) (workerId : Uuid) (event : EventEnvelope)
    (p : Platform) :
    Records (Handled workerId event) (processEvent rt event (some workerId)) .fresh p := by
  have hraise (e : Exc) (t : Session) (p : Platform) :
      Handled workerId event (.error e) t p := fun _ h => nomatch h
  unfold processEvent
  split
  case isTrue hother =>
    rintro result - ⟨htype, hrun, hworker⟩
    rcases hother with h | h | h | h
    · exact absurd htype h
    · simp [h] at hrun
    · simp [h] at hworker
    · exact absurd hworker h.2
  case isFalse =>
  unfold processAssignment
  split
  case h_2 hnone =>
    rintro result - ⟨-, hrun, hworker⟩
    obtain ⟨r, hr⟩ := Option.isSome_iff_exists.mp hrun
    exact absurd hworker (hnone r workerId hr)
  case h_1 runId eventWorkerId _ _ =>
    refine Sound.bind (Sound.stmt fun p₁ h₁ => ⟨trivial, hraise _ _ _, fun i => ?_⟩)
    change Records _ (if decide (record workerId event ∈ p₁.db.processed) then _ else _) _ _
    split
    case isTrue hprocessed =>
      exact fun _ _ _ => of_decide_eq_true hprocessed
    case isFalse =>
      refine Sound.bind ?_
      cases event.leaseToken with
      | error e => exact hraise e (Session.begin .fresh i) p₁
      | ok leaseToken =>
          refine Sound.bind ((records_of_program _ _ _).mono fun x t p _ => ?_)
          cases x with
          | error e => exact hraise e t p
          | ok run =>
              refine commit_records hraise (fun t p hrecorded => ?_) t p
              exact fun _ _ _ => hrecorded

/-! ### Along a run -/

/-- Everything below a position that concerns the worker is recorded, or is
another copy of the message `pending`. -/
structure Below (workerId : Uuid) (log : ℕ → List (Option EventEnvelope)) (p : Platform)
    (position : ℕ → ℕ) (pending : Option EventEnvelope) : Prop where
  within : ∀ k, position k ≤ (log k).length
  recorded : ∀ k n event, n < position k → (log k)[n]? = some (some event) →
    Addressed workerId event → record workerId event ∈ p.db.processed ∨ pending = some event

/-- The session that processes a message is going to record it. -/
structure Processing (workerId : Uuid) (p : Platform) (event : EventEnvelope)
    (prog : Program Bool) (t : Session) : Prop where
  records : Records (Handled workerId event) prog t p
  owned : ∀ w ∈ t.writes, ∀ r ∈ storage.rowsOf w, r ∈ t.locks
  accepted : storage.firstError p t.writes = none

/-- What every reachable consumer satisfies. -/
structure Sane (workerId : Uuid) (c : Consumer) : Prop where
  committed : Below workerId c.log c.platform c.committed none
  loop : match c.loop with
    | .stopped => True
    | .polling position | .resumed position => Below workerId c.log c.platform position none
    | .processing position event prog t =>
        Below workerId c.log c.platform position (some event) ∧
          Processing workerId c.platform event prog t

section Steps

variable {workerId : Uuid} {log : ℕ → List (Option EventEnvelope)} {p p' : Platform}
  {position : ℕ → ℕ} {pending : Option EventEnvelope} {event : EventEnvelope}
  {prog prog' : Program Bool} {t t' : Session}

/-- A partition that grows keeps what it has. -/
theorem exists_update_append (log : ℕ → List (Option EventEnvelope)) (k : ℕ)
    (message : Option EventEnvelope) (j : ℕ) :
    ∃ rest, Function.update log k (log k ++ [message]) j = log j ++ rest := by
  by_cases hj : j = k
  · exact ⟨[message], by rw [hj, Function.update_self]⟩
  · exact ⟨[], by rw [Function.update_of_ne hj, List.append_nil]⟩

theorem Below.append (h : Below workerId log p position pending) (k : ℕ)
    (message : Option EventEnvelope) :
    Below workerId (Function.update log k (log k ++ [message])) p position pending := by
  constructor
  · intro j
    obtain ⟨rest, hrest⟩ := exists_update_append log k message j
    rw [hrest, List.length_append]
    exact Nat.le_add_right_of_le (h.within j)
  · intro j n event hn hget
    obtain ⟨rest, hrest⟩ := exists_update_append log k message j
    rw [hrest, List.getElem?_append_left (lt_of_lt_of_le hn (h.within j))] at hget
    exact h.recorded j n event hn hget

theorem Below.kept (h : Below workerId log p position pending)
    (hkept : p.db.processed ⊆ p'.db.processed) : Below workerId log p' position pending :=
  ⟨h.within, fun k n event hn hget haddressed =>
    (h.recorded k n event hn hget haddressed).imp_left fun hm => hkept hm⟩

/-- The next message of a partition. -/
theorem Below.fetch (h : Below workerId log p position none) {k : ℕ}
    (hget : (log k)[position k]? = some (some event)) :
    Below workerId log p (Function.update position k (position k + 1)) (some event) := by
  have hk : position k < (log k).length := (List.getElem?_eq_some_iff.mp hget).1
  constructor
  · intro j
    by_cases hj : j = k
    · rw [hj, Function.update_self]
      exact hk
    · rw [Function.update_of_ne hj]
      exact h.within j
  · intro j n event' hn hget' haddressed
    by_cases hj : j = k
    · subst hj
      rw [Function.update_self] at hn
      rcases Nat.lt_succ_iff_lt_or_eq.mp hn with hlt | rfl
      · exact (h.recorded j n event' hlt hget' haddressed).imp_right nofun
      · exact .inr (Option.some.inj (hget.symm.trans hget'))
    · rw [Function.update_of_ne hj] at hn
      exact (h.recorded j n event' hn hget' haddressed).imp_right nofun

/-- The message that was pending is recorded, if it concerns the worker. -/
theorem Below.settle (h : Below workerId log p position (some event))
    (hrecorded : Addressed workerId event → record workerId event ∈ p.db.processed) :
    Below workerId log p position none := by
  refine ⟨h.within, fun k n event' hn hget haddressed => .inl ?_⟩
  rcases h.recorded k n event' hn hget haddressed with hm | heq
  · exact hm
  · obtain rfl := Option.some.inj heq
    exact hrecorded haddressed

theorem Processing.start (rt : Runtime) (workerId : Uuid) (event : EventEnvelope) (p : Platform) :
    Processing workerId p event (processEvent rt event (some workerId)) .fresh :=
  ⟨processEvent_records rt workerId event p, by simp, rfl⟩

theorem Processing.others (h : Processing workerId p event prog t)
    (hkept : p.db.processed ⊆ p'.db.processed) (hlocked : ∀ r ∈ t.locks, storage.same r p p') :
    Processing workerId p' event prog t := by
  have haccepted : storage.firstError p' t.writes = none := by
    rw [← storage.firstError_congr h.owned hlocked]
    exact h.accepted
  refine ⟨?_, h.owned, haccepted⟩
  have hrecords := h.records
  cases prog with
  | ret result => exact fun r hr haddressed => hkept (hrecords r hr haddressed)
  | raise e => exact fun r hr => nomatch hr
  | step pt st next =>
      exact hrecords.stable rfl ⟨trivial, fun _ hm => hkept hm, hlocked, h.owned, haccepted⟩

theorem Processing.run (h : Processing workerId p event prog t) {free : RowKey → Bool} {i : Input}
    (hexec : prog.exec storage free i t p = some (prog', t', p')) :
    Processing workerId p' event prog' t' ∧ p.db.processed ⊆ p'.db.processed := by
  obtain ⟨pt, hpt⟩ := Prog.point?_of_exec hexec
  obtain ⟨-, -, howned, haccepted, hrecords, hguar, -⟩ :=
    h.records.exec hpt trivial h.owned h.accepted hexec
  refine ⟨⟨hrecords, howned, haccepted⟩, ?_⟩
  rcases hguar with rfl | hguar
  · exact List.Subset.refl _
  · exact hguar

theorem Processing.fault (h : Processing workerId p event prog t)
    (hfault : prog.fault storage = some prog') : Processing workerId p event prog' t.close :=
  ⟨h.records.fault trivial h.owned h.accepted hfault, by simp, rfl⟩

/-- One step keeps the consumer sane, unless it swallows an assignment. -/
theorem Step.sane {rt : Runtime} {c c' : Consumer} (h : Sane workerId c)
    (hstep : Step rt workerId c c') (hallowed : Unswallowed workerId c c') : Sane workerId c' := by
  obtain ⟨hcommitted, hloop⟩ := h
  cases hstep with
  | append _ k message =>
      obtain ⟨p, log, committed, loop⟩ := c
      refine ⟨hcommitted.append k message, ?_⟩
      cases loop with
      | stopped => exact trivial
      | polling position | resumed position => exact Below.append hloop k message
      | processing position event prog t => exact ⟨hloop.1.append k message, hloop.2⟩
  | others _ p' hkept hlocked =>
      obtain ⟨p, log, committed, loop⟩ := c
      refine ⟨hcommitted.kept hkept, ?_⟩
      cases loop with
      | stopped => exact trivial
      | polling position | resumed position => exact Below.kept hloop hkept
      | processing position event prog t =>
          exact ⟨hloop.1.kept hkept, hloop.2.others hkept hlocked⟩
  | start => exact ⟨hcommitted, hcommitted⟩
  | fetch hget => exact ⟨hcommitted, hloop.fetch hget, .start rt workerId _ _⟩
  | invalid => exact ⟨hcommitted, trivial⟩
  | run _ _ hexec =>
      obtain ⟨hprocessing, hkept⟩ := hloop.2.run hexec
      exact ⟨hcommitted.kept hkept, hloop.1.kept hkept, hprocessing⟩
  | fault hfault => exact ⟨hcommitted, hloop.1, hloop.2.fault hfault⟩
  | handled => exact ⟨hcommitted, hloop.1.settle (hloop.2.records _ rfl)⟩
  | failed => exact ⟨hcommitted, hloop.1.settle (hallowed _ _ _ _ rfl rfl)⟩
  | commit => exact ⟨hloop, hloop⟩
  | stop => exact ⟨hcommitted, trivial⟩

end Steps

/-- The consumer commits an offset past an assignment of the worker only if it
is recorded, so one that is not recorded is delivered again after the next
start. -/
theorem acknowledged_recorded {rt : Runtime} {workerId : Uuid} {c : Consumer}
    (h : Reachable rt workerId (Unswallowed workerId) c) :
    Acknowledged workerId c ∧
      ∀ k n event, (c.log k)[n]? = some (some event) → Addressed workerId event →
        record workerId event ∉ c.platform.db.processed → c.committed k ≤ n := by
  have hsane : Sane workerId c := by
    obtain ⟨p, log, hsteps⟩ := h
    induction hsteps with
    | refl => exact ⟨⟨fun _ => Nat.zero_le _, fun k n event hn => absurd hn n.not_lt_zero⟩, trivial⟩
    | tail _ hstep ih => exact hstep.1.sane ih hstep.2
  have hacknowledged : Acknowledged workerId c := fun k n event hn hget haddressed =>
    (hsane.committed.recorded k n event hn hget haddressed).resolve_right nofun
  refine ⟨hacknowledged, fun k n event hget haddressed hunrecorded => ?_⟩
  by_contra hn
  exact hunrecorded (hacknowledged k n event (not_le.mp hn) hget haddressed)

namespace Demo

/-- An assignment of a run that does not exist. -/
def assignment : EventEnvelope :=
  ⟨2, 1, "run.assigned", 0, .scheduler 1, some 201, some 101, [("lease_token", .uuid 303)]⟩

theorem assignment_addressed : Addressed 101 assignment := ⟨rfl, rfl, rfl⟩

theorem processEvent_assignment : processEvent Runscope.Demo.runtime assignment (some 101) =
    processAssignment Runscope.Demo.runtime assignment (some 101) :=
  if_neg (by simp [assignment])

/-- The message is all there is on the topic. -/
def log (k : ℕ) : List (Option EventEnvelope) := if k = 0 then [some assignment] else []

/-- The position after the message. -/
abbrev past : ℕ → ℕ := Function.update (fun _ => 0) 0 1

abbrev platform : Platform := .empty Runscope.Demo.templates

end Demo

/-- The connection is lost while an assignment is processed; its offset is
committed all the same. -/
theorem acknowledged_unrecorded : ∃ c,
    Reachable Runscope.Demo.runtime 101 (fun _ _ => True) c ∧ ¬ Acknowledged 101 c := by
  have hfault : (processEvent Runscope.Demo.runtime Demo.assignment (some 101)).fault storage =
      some (.raise .connectionLost) := by
    rw [Demo.processEvent_assignment]
    rfl
  refine ⟨⟨Demo.platform, Demo.log, Demo.past, .polling Demo.past⟩,
    ⟨Demo.platform, Demo.log, ?_⟩, fun h => ?_⟩
  · refine .tail (.tail (.tail (.tail (.tail .refl ⟨.start, trivial⟩)
      ⟨.fetch (k := 0) ?_, trivial⟩) ⟨.fault hfault, trivial⟩) ⟨.failed, trivial⟩) ⟨.commit, trivial⟩
    rfl
  · have hrecorded := h 0 0 Demo.assignment Nat.one_pos rfl Demo.assignment_addressed
    exact absurd hrecorded (by simp [Platform.empty])

/-- An assignment whose run is gone is handled by recording it. -/
theorem acknowledged_recorded_handled : ∃ c : Consumer, c.committed 0 = 1 ∧
    Reachable Runscope.Demo.runtime 101 (Unswallowed 101) c ∧ Acknowledged 101 c := by
  have hquiet {c c' : Consumer} (h : ∀ position, c'.loop ≠ .resumed position) :
      Unswallowed 101 c c' := fun position _ _ _ _ hloop _ => absurd hloop (h position)
  let i : Input := Runscope.Demo.input 0
  have hstart : Reachable Runscope.Demo.runtime 101 (Unswallowed 101) ⟨Demo.platform, Demo.log,
      fun _ => 0, .processing Demo.past Demo.assignment
        (processAssignment Runscope.Demo.runtime Demo.assignment (some 101)) .fresh⟩ := by
    rw [← Demo.processEvent_assignment]
    exact ⟨_, _, .tail (.tail .refl ⟨.start, hquiet nofun⟩) ⟨.fetch (k := 0) rfl, hquiet nofun⟩⟩
  obtain ⟨p, log, hsteps⟩ := hstart
  have hfinish : Reachable Runscope.Demo.runtime 101 (Unswallowed 101) _ := ⟨p, log,
    .tail (.tail (.tail (.tail (.tail (.tail hsteps
      ⟨.run (fun _ => true) i rfl, hquiet nofun⟩)
      ⟨.run (fun _ => true) i rfl, hquiet nofun⟩)
      ⟨.run (fun _ => true) i rfl, hquiet nofun⟩)
      ⟨.run (fun _ => true) i rfl, hquiet nofun⟩)
      ⟨.handled, fun _ _ _ _ h => nomatch h⟩) ⟨.commit, hquiet nofun⟩⟩
  exact ⟨_, rfl, hfinish, (acknowledged_recorded hfinish).1⟩

end Consumer

end Runscope
