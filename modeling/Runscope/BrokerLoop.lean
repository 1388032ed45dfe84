import Runscope.Consumer
import Runscope.Transact.Turn

/-!
The reconnect loop of `run_worker`.

The generator decodes a message before it yields it and commits the offset
when it is asked for the next one. A message that cannot be decoded ends the
generator, the loop reconnects after a delay and the consumer resumes at the
committed offset, which is that of the same message. So the loop gets through
a log exactly if it can decode all of it.
-/

namespace Runscope

open Transact

/-- What the generator `events` yields from a log, and whether it ends with an
exception; otherwise it waits for the next message. -/
def events : List (Option EventEnvelope) → List EventEnvelope × Bool
  | [] => ([], false)
  | none :: _ => ([], true)
  | some event :: rest => (event :: (events rest).1, (events rest).2)

/-- The committed offset, the delay before the next reconnection in seconds
and the envelopes handed to `process_event` so far. -/
structure BrokerLoop where
  committed : ℕ
  delay : ℚ
  processed : List EventEnvelope

namespace BrokerLoop

/-- The loop begins with nothing processed. -/
def start (committed : ℕ) : BrokerLoop := ⟨committed, 1, []⟩

/-- One iteration of the loop. What `process_event` raises is logged, and the
offset of its message is committed all the same. -/
def iterate (log : List (Option EventEnvelope)) (s : BrokerLoop) : BrokerLoop :=
  let (yielded, failed) := events (log.drop s.committed)
  { committed := s.committed + yielded.length
    delay := if failed then min (s.delay * 2) 10 else s.delay
    processed := s.processed ++ yielded }

/-- The iteration ends because the message at the offset cannot be decoded. -/
def FailsAt (log : List (Option EventEnvelope)) (s : BrokerLoop) (offset : ℕ) : Prop :=
  (events (log.drop s.committed)).2 ∧
    offset = s.committed + (events (log.drop s.committed)).1.length

variable {log : List (Option EventEnvelope)} {s : BrokerLoop} {offset : ℕ}

theorem events_failed : (events log).2 ↔ none ∈ log := by
  induction log with
  | nil => simp [events]
  | cons message rest ih =>
      cases message with
      | none => simp [events]
      | some event => simp [events, ih]

/-- What is yielded stands first in the log, and next to it what cannot be
decoded, if anything. -/
theorem events_prefix (log : List (Option EventEnvelope)) : ∃ rest,
    log = (events log).1.map some ++ rest ∧ rest.head? = if (events log).2 then some none else none := by
  induction log with
  | nil => exact ⟨[], by simp [events]⟩
  | cons message rest ih =>
      cases message with
      | none => exact ⟨none :: rest, by simp [events]⟩
      | some event =>
          obtain ⟨tail, hlog, hhead⟩ := ih
          exact ⟨tail, congrArg (some event :: ·) hlog, hhead⟩

/-- A log that can be decoded is yielded as it is. -/
theorem events_decodable (h : none ∉ log) : log = (events log).1.map some := by
  obtain ⟨rest, hlog, hhead⟩ := events_prefix log
  rw [if_neg (mt events_failed.mp h), List.head?_eq_none_iff] at hhead
  rwa [hhead, List.append_nil] at hlog

theorem failsAt_getElem? (h : FailsAt log s offset) : log[offset]? = some none := by
  obtain ⟨hfailed, rfl⟩ := h
  obtain ⟨rest, hlog, hhead⟩ := events_prefix (log.drop s.committed)
  rw [if_pos hfailed] at hhead
  have hget := congrArg (fun l => l[(events (log.drop s.committed)).1.length]?) hlog
  rw [List.getElem?_drop, List.getElem?_append_right (by simp), List.length_map, Nat.sub_self,
    ← List.head?_eq_getElem?, hhead] at hget
  exact hget

/-- After a message that cannot be decoded, the next iteration begins with it. -/
theorem iterate_failed (h : FailsAt log s offset) : (iterate log s).committed = offset ∧
    events (log.drop (iterate log s).committed) = ([], true) := by
  have hcommitted : (iterate log s).committed = offset := h.2.symm
  obtain ⟨hlt, hget⟩ := List.getElem?_eq_some_iff.mp (failsAt_getElem? h)
  rw [hcommitted, List.drop_eq_getElem_cons hlt, hget, events]
  exact ⟨rfl, rfl⟩

/-- An iteration that begins with such a message has no other effect than a
longer delay. -/
theorem iterate_stuck (h : events (log.drop s.committed) = ([], true)) (n : ℕ) :
    ((iterate log)^[n] s).committed = s.committed ∧
      ((iterate log)^[n] s).processed = s.processed := by
  induction n with
  | zero => exact ⟨rfl, rfl⟩
  | succ n ih =>
      obtain ⟨hcommitted, hprocessed⟩ := ih
      rw [Function.iterate_succ_apply', iterate, hcommitted, hprocessed, h]
      exact ⟨rfl, List.append_nil _⟩

/-- A log that can be decoded is handed over in one iteration, and the loop
waits at its end. -/
theorem iterate_decodable (h : none ∉ log.drop s.committed) :
    (iterate log s).processed = s.processed ++ (log.drop s.committed).filterMap id ∧
      log.drop (iterate log s).committed = [] := by
  have hyielded := events_decodable h
  constructor
  · rw [hyielded, List.filterMap_map]
    exact congrArg (s.processed ++ ·) (List.filterMap_some).symm
  · have hlength := congrArg List.length hyielded
    rw [List.length_drop, List.length_map] at hlength
    rw [List.drop_eq_nil_iff]
    show log.length ≤ s.committed + (events (log.drop s.committed)).1.length
    omega

/-- Once the loop waits at the end of the log, it does so for good. -/
theorem iterate_waiting (h : log.drop s.committed = []) (n : ℕ) : (iterate log)^[n] s = s := by
  refine Function.iterate_fixed ?_ n
  rw [iterate, h]
  simp [events]

/-- The loop steps past every message that it cannot decode, and hands over
every other in order, exactly if there is no message that it cannot decode. -/
theorem topic_unblocked_iff (log : List (Option EventEnvelope)) (s : BrokerLoop) :
    ((∀ n offset, FailsAt log ((iterate log)^[n] s) offset →
        offset < ((iterate log)^[n + 1] s).committed) ∧
      ∃ n, ((iterate log)^[n] s).processed =
        s.processed ++ (log.drop s.committed).filterMap id) ↔
    none ∉ log.drop s.committed := by
  constructor
  · rintro ⟨hpast, -⟩ hmem
    have hfails : FailsAt log s _ := ⟨events_failed.mpr hmem, rfl⟩
    have hlt := hpast 0 _ hfails
    rw [show ((iterate log)^[0 + 1] s).committed = _ from (iterate_failed hfails).1] at hlt
    exact lt_irrefl _ hlt
  · intro h
    obtain ⟨hprocessed, hend⟩ := iterate_decodable h
    refine ⟨fun n offset hfails => ?_, 1, hprocessed⟩
    -- no iteration fails: the first reads all there is
    exfalso
    cases n with
    | zero => exact h (events_failed.mp hfails.1)
    | succ n =>
        rw [Function.iterate_succ_apply, iterate_waiting hend] at hfails
        have hfailed := hfails.1
        rw [hend] at hfailed
        cases hfailed

/-- With a message that cannot be decoded before an assignment, the assignment
is never handed over. -/
theorem topic_blocked :
    let log := [none, some Runscope.Demo.assignment]
    FailsAt log (start 0) 0 ∧ ∀ n, ((iterate log)^[n] (start 0)).committed = 0 ∧
      ((iterate log)^[n] (start 0)).processed = [] :=
  ⟨⟨rfl, rfl⟩, fun n => iterate_stuck rfl n⟩

end BrokerLoop

/-! ### Among everything else

The loop is what the consumer does on one partition while it is not stopped;
and whatever else happens, no offset is committed past a message that cannot
be decoded.
-/

namespace Consumer

open Relation

variable (rt : Runtime) (workerId : Uuid) {log : ℕ → List (Option EventEnvelope)}
  {committed position : ℕ → ℕ}

/-- A message in hand can be processed to its end, after which its offset is
committed. -/
theorem processing_steps (p : Platform) (log : ℕ → List (Option EventEnvelope))
    (committed position : ℕ → ℕ) (event : EventEnvelope) (prog : Program Bool) (t : Session) :
    ∃ p', ReflTransGen (Step rt workerId) ⟨p, log, committed, .processing position event prog t⟩
      ⟨p', log, position, .polling position⟩ := by
  let env : Surroundings Platform RowKey Write Call Input :=
    ⟨fun _ _ => Runscope.Demo.input 0, fun _ _ => false⟩
  obtain ⟨outcome, t', p', hsteps⟩ : ∃ outcome t' p',
      ReflTransGen (Solo.Step storage) ⟨prog, t, p⟩ ⟨Prog.ofExcept outcome, t', p'⟩ :=
    ⟨(prog.alone storage env ⟨[], t, p⟩).1, _, _, prog.alone_steps ⟨[], t, p⟩⟩
  have hprocessing : ReflTransGen (Step rt workerId)
      ⟨p, log, committed, .processing position event prog t⟩
      ⟨p', log, committed, .processing position event (Prog.ofExcept outcome) t'⟩ := by
    let stage (c : Solo Platform RowKey Write Call Input Exc Point Bool) : Consumer :=
      ⟨c.state, log, committed, .processing position event c.prog c.session⟩
    have hstage (c c' : Solo Platform RowKey Write Call Input Exc Point Bool)
        (hstep : c.Step storage c') : Step rt workerId (stage c) (stage c') := by
      cases hstep with
      | run i hexec => exact .run _ i hexec
      | fault hfault => exact .fault hfault
    exact hsteps.lift stage hstage
  have hresumed : Step rt workerId
      ⟨p', log, committed, .processing position event (Prog.ofExcept outcome) t'⟩
      ⟨p', log, committed, .resumed position⟩ := by
    cases outcome with
    | ok result => exact .handled
    | error exc => exact .failed
  exact ⟨p', (hprocessing.tail hresumed).tail .commit⟩

/-- What the generator yields from one partition is processed and committed. -/
theorem polling_steps (p : Platform) (position : ℕ → ℕ) {k : ℕ}
    {messages : List (Option EventEnvelope)} (h : (log k).drop (position k) = messages) : ∃ p',
    ReflTransGen (Step rt workerId) ⟨p, log, position, .polling position⟩
      ⟨p', log, Function.update position k (position k + (events messages).1.length),
        .polling (Function.update position k (position k + (events messages).1.length))⟩ := by
  induction messages generalizing p position with
  | nil => exact ⟨p, by simpa [events] using .refl⟩
  | cons message rest ih =>
      cases message with
      | none => exact ⟨p, by simpa [events] using .refl⟩
      | some event =>
          have hget : (log k)[position k]? = some (some event) := by
            rw [← List.head?_drop, h, List.head?_cons]
          have hrest : (log k).drop (Function.update position k (position k + 1) k) = rest := by
            rw [Function.update_self, ← List.drop_drop, h, List.drop_succ_cons, List.drop_zero]
          obtain ⟨p₁, hprocessed⟩ := processing_steps rt workerId p log position
            (Function.update position k (position k + 1)) event
            (processEvent rt event (some workerId)) .fresh
          obtain ⟨p₂, hsteps⟩ := ih p₁ _ hrest
          refine ⟨p₂, .trans (.head (.fetch hget) hprocessed) ?_⟩
          have hlength : position k + (events (some event :: rest)).1.length =
              Function.update position k (position k + 1) k + (events rest).1.length := by
            rw [Function.update_self, events, List.length_cons]
            omega
          rw [Function.update_idem, ← hlength] at hsteps
          exact hsteps

/-- An iteration of the loop over the messages of one partition. -/
theorem iterate_steps (p : Platform) (k : ℕ) (s : BrokerLoop) (hs : s.committed = committed k) :
    ∃ p', ReflTransGen (Step rt workerId) ⟨p, log, committed, .stopped⟩
      ⟨p', log, Function.update committed k (s.iterate (log k)).committed,
        if (events ((log k).drop (committed k))).2 then .stopped
        else .polling (Function.update committed k (s.iterate (log k)).committed)⟩ := by
  obtain ⟨p', hsteps⟩ := polling_steps rt workerId p committed
    (rfl : (log k).drop (committed k) = _)
  have hcommitted : (s.iterate (log k)).committed =
      committed k + (events ((log k).drop (committed k))).1.length := by
    rw [← hs]
    rfl
  rw [hcommitted]
  refine ⟨p', .head .start ?_⟩
  split
  · next hfailed =>
    have hget : (log k)[committed k + (events ((log k).drop (committed k))).1.length]? = some none :=
      BrokerLoop.failsAt_getElem? (s := s) ⟨hs ▸ hfailed, by rw [hs]⟩
    exact hsteps.tail (.invalid (k := k) (by rwa [Function.update_self]))
  · exact hsteps

/-- Everything below a position could be decoded. -/
structure Decoded (log : ℕ → List (Option EventEnvelope)) (position : ℕ → ℕ) : Prop where
  within : ∀ k, position k ≤ (log k).length
  decoded : ∀ k n, n < position k → (log k)[n]? ≠ some none

variable {rt workerId}

theorem Decoded.append (h : Decoded log position) (k : ℕ) (message : Option EventEnvelope) :
    Decoded (Function.update log k (log k ++ [message])) position := by
  refine ⟨fun j => ?_, fun j n hn => ?_⟩
  · obtain ⟨rest, hrest⟩ := exists_update_append log k message j
    rw [hrest, List.length_append]
    exact Nat.le_add_right_of_le (h.within j)
  · obtain ⟨rest, hrest⟩ := exists_update_append log k message j
    rw [hrest, List.getElem?_append_left (hn.trans_le (h.within j))]
    exact h.decoded j n hn

theorem Decoded.fetch (h : Decoded log position) {k : ℕ} {event : EventEnvelope}
    (hget : (log k)[position k]? = some (some event)) :
    Decoded log (Function.update position k (position k + 1)) := by
  refine ⟨fun j => ?_, fun j n hn => ?_⟩
  · by_cases hj : j = k
    · rw [hj, Function.update_self]
      exact (List.getElem?_eq_some_iff.mp hget).1
    · rw [Function.update_of_ne hj]
      exact h.within j
  · by_cases hj : j = k
    · subst hj
      rw [Function.update_self] at hn
      rcases Nat.lt_succ_iff_lt_or_eq.mp hn with hlt | rfl
      · exact h.decoded j n hlt
      · simp [hget]
    · rw [Function.update_of_ne hj] at hn
      exact h.decoded j n hn

/-- The positions of the loop. -/
def ConsumerLoop.Decoded (log : ℕ → List (Option EventEnvelope)) : ConsumerLoop → Prop
  | .stopped => True
  | .polling position | .processing position _ _ _ | .resumed position =>
      Consumer.Decoded log position

theorem Step.decoded {c c' : Consumer} (h : Decoded c.log c.committed)
    (hloop : ConsumerLoop.Decoded c.log c.loop) (hstep : Step rt workerId c c') :
    Decoded c'.log c'.committed ∧ ConsumerLoop.Decoded c'.log c'.loop := by
  cases hstep with
  | append _ k message =>
      obtain ⟨p, log, committed, loop⟩ := c
      refine ⟨h.append k message, ?_⟩
      cases loop with
      | stopped => exact trivial
      | polling position | resumed position | processing position =>
          exact Decoded.append hloop k message
  | others => exact ⟨h, hloop⟩
  | start => exact ⟨h, h⟩
  | fetch hget => exact ⟨h, Decoded.fetch hloop hget⟩
  | invalid | stop => exact ⟨h, trivial⟩
  | run | fault | handled | failed => exact ⟨h, hloop⟩
  | commit => exact ⟨hloop, hloop⟩

/-- Whatever happens, the group commits no offset past a message that cannot
be decoded, and no later message of the partition is ever processed. -/
theorem undecodable_uncommitted {c : Consumer} (h : Reachable rt workerId (fun _ _ => True) c)
    {k n : ℕ} (hget : (c.log k)[n]? = some none) : c.committed k ≤ n ∧
      ∀ position event prog t, c.loop = .processing position event prog t → position k ≤ n := by
  obtain ⟨p, log, hsteps⟩ := h
  have hdecoded : Decoded c.log c.committed ∧ ConsumerLoop.Decoded c.log c.loop := by
    clear hget
    induction hsteps with
    | refl => exact ⟨⟨fun _ => Nat.zero_le _, fun k n hn => absurd hn n.not_lt_zero⟩, trivial⟩
    | tail _ hstep ih => exact hstep.1.decoded ih.1 ih.2
  refine ⟨not_lt.mp fun hn => hdecoded.1.decoded k n hn hget, ?_⟩
  rintro position event prog t hloop
  have hposition := hdecoded.2
  rw [hloop] at hposition
  exact not_lt.mp fun hn => hposition.decoded k n hn hget

end Consumer

end Runscope
