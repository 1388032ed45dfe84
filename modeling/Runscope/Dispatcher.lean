import Mathlib.Tactic.SplitIfs
import Runscope.Reachable
import Runscope.Transact.Alone

/-!
One dispatcher over the whole history of an outbox (`run_outbox_dispatcher`).

Calls of `dispatch_batch` follow each other, messages arrive in between. A
call may lose its connection at any statement and may end at any point, with
what it had not committed lost; the broker takes or refuses each message as
it likes.
-/

namespace Runscope

open Transact

/-- What is stored, and the call in progress. -/
structure Dispatcher where
  platform : Platform
  call : Option (Program ℕ × Session)

namespace Dispatcher

def rows (d : Dispatcher) : List OutboxMessage := d.platform.db.outbox.rows

/-- A message appears in the outbox, younger than all others. -/
structure Arrival (p p' : Platform) (message : OutboxMessage) : Prop where
  outbox : p'.db.outbox = p.db.outbox.insert message
  topic : p'.topic = p.topic
  fresh : p.db.outbox.get? message.id = none
  unpublished : message.publishedAt = none
  untried : message.publishAttempts = 0
  last : ∀ x ∈ p.db.outbox.rows, x.createdAt ≤ message.createdAt

inductive Step (limit maxAttempts : ℕ) : Dispatcher → Dispatcher → Prop where
  | arrive {p p' : Platform} (message : OutboxMessage) (h : Arrival p p' message) :
      Step limit maxAttempts ⟨p, none⟩ ⟨p', none⟩
  | start (p : Platform) :
      Step limit maxAttempts ⟨p, none⟩ ⟨p, some (dispatchBatch limit maxAttempts, .fresh)⟩
  | run {c c' : Solo Platform RowKey Write Call Input Exc Point ℕ} (h : c.Step storage c') :
      Step limit maxAttempts ⟨c.state, some (c.prog, c.session)⟩
        ⟨c'.state, some (c'.prog, c'.session)⟩
  | stop (p : Platform) (call : Program ℕ × Session) :
      Step limit maxAttempts ⟨p, some call⟩ ⟨p, none⟩

abbrev Steps (limit maxAttempts : ℕ) : Dispatcher → Dispatcher → Prop :=
  Relation.ReflTransGen (Step limit maxAttempts)

/-- Reached from an empty outbox. -/
def Reachable (limit maxAttempts : ℕ) (d : Dispatcher) : Prop :=
  ∃ p : Platform, p.db.outbox = .empty ∧ Steps limit maxAttempts ⟨p, none⟩ d

/-- The dispatcher is about to hand the envelope to the broker. -/
def Sends (d : Dispatcher) (e : EventEnvelope) : Prop :=
  ∃ pt next t, d.call = some (.step pt (.call (.publish e)) next, t)

end Dispatcher

/-! ### What a call does to the outbox -/

/-- A row of the outbox, some time later. -/
structure OutboxMessage.Advances (a b : OutboxMessage) : Prop where
  id : b.id = a.id
  envelope : b.envelope = a.envelope
  createdAt : b.createdAt = a.createdAt
  attempts : a.publishAttempts ≤ b.publishAttempts
  published : a.publishedAt.isSome → b.publishedAt = a.publishedAt

theorem OutboxMessage.Advances.refl (a : OutboxMessage) : a.Advances a :=
  ⟨rfl, rfl, rfl, le_rfl, fun _ => rfl⟩

theorem OutboxMessage.Advances.trans {a b c : OutboxMessage} (h : a.Advances b)
    (h' : b.Advances c) : a.Advances c where
  id := h'.id.trans h.id
  envelope := h'.envelope.trans h.envelope
  createdAt := h'.createdAt.trans h.createdAt
  attempts := h.attempts.trans h'.attempts
  published ha := by
    have hb := h.published ha
    exact (h'.published (hb ▸ ha)).trans hb

namespace Dispatcher

/-- The rows are the same and go on; the topic grows. -/
structure Goes (p p' : Platform) : Prop where
  rows : List.Forall₂ OutboxMessage.Advances p.db.outbox.rows p'.db.outbox.rows
  topic : p.topic <+: p'.topic

theorem Goes.of_outbox {p p' : Platform} (h : p'.db.outbox = p.db.outbox)
    (htopic : p.topic <+: p'.topic) : Goes p p' where
  rows := by
    rw [h, List.forall₂_same]
    exact fun a _ => .refl a
  topic := htopic

/-- What holds of every message: attempts are bounded, and only what the
broker accepted counts as published. -/
def Inv (maxAttempts : ℕ) (p : Platform) : Prop :=
  ∀ m ∈ p.db.outbox.rows, m.publishAttempts ≤ maxAttempts ∧
    (m.publishedAt.isSome → m.envelope ∈ p.topic)

/-- A call keeps the invariant and goes on with the rows. -/
def Works (maxAttempts : ℕ) (p p' : Platform) : Prop :=
  Inv maxAttempts p → Inv maxAttempts p' ∧ Goes p p'

/-- The message may be sent: it has attempts left, and what was created before
it was accepted or is exhausted. -/
structure Due (maxAttempts : ℕ) (p : Platform) (m : OutboxMessage) : Prop where
  stored : m ∈ p.db.outbox.rows
  unpublished : m.publishedAt = none
  attempts : m.publishAttempts < maxAttempts
  earlier : ∀ x ∈ p.db.outbox.rows, x.createdAt < m.createdAt →
    x.envelope ∈ p.topic ∨ maxAttempts ≤ x.publishAttempts

/-- Only messages that are due are sent. -/
def Orderly (maxAttempts : ℕ) (st : Stmt Platform RowKey Write Call)
    (_ : Session) (p : Platform) : Prop :=
  ∀ e, st = .call (.publish e) → ∃ m, m.envelope = e ∧ Due maxAttempts p m

/-- The update that settles a message of the batch, given the topic. -/
inductive Settles (topic : List EventEnvelope) (m : OutboxMessage) : Write → Prop where
  | accepted (now : Time) (h : m.envelope ∈ topic) :
      Settles topic m (.updateOutbox m { m with publishedAt := some now, lastError := none })
  | refused (error : String) :
      Settles topic m (.updateOutbox m { m with
        publishAttempts := m.publishAttempts + 1, lastError := some error })

/-- The messages of a batch still to be sent. -/
structure Batch (maxAttempts : ℕ) (p : Platform) (messages : List OutboxMessage) : Prop where
  nodup : (messages.map OutboxMessage.id).Nodup
  stored : ∀ m ∈ messages, m ∈ p.db.outbox.rows
  eligible : ∀ m ∈ messages, m.publishedAt = none ∧ m.publishAttempts < maxAttempts
  sorted : messages.Pairwise fun a b => a.createdAt ≤ b.createdAt
  earlier : ∀ m ∈ messages, ∀ x ∈ p.db.outbox.rows, x.createdAt < m.createdAt →
    x.envelope ∈ p.topic ∨ maxAttempts ≤ x.publishAttempts ∨ x ∈ messages

variable {maxAttempts : ℕ} {p p' : Platform} {m : OutboxMessage} {messages : List OutboxMessage}

theorem Batch.due (h : Batch maxAttempts p (m :: messages)) : Due maxAttempts p m where
  stored := h.stored m (by simp)
  unpublished := (h.eligible m (by simp)).1
  attempts := (h.eligible m (by simp)).2
  earlier x hx hlt := by
    rcases h.earlier m (by simp) x hx hlt with haccepted | hexhausted | hmem
    · exact .inl haccepted
    · exact .inr hexhausted
    · rcases List.mem_cons.mp hmem with rfl | hmem
      · exact absurd hlt (lt_irrefl _)
      · exact absurd hlt (not_lt.mpr (List.rel_of_pairwise_cons h.sorted hmem))

/-- Once the broker has the first message, the next one is due. -/
theorem Batch.tail (h : Batch maxAttempts p (m :: messages)) (hdb : p'.db = p.db)
    (htopic : p.topic <+: p'.topic) (hm : m.envelope ∈ p'.topic) :
    Batch maxAttempts p' messages where
  nodup := (List.nodup_cons.mp h.nodup).2
  stored x hx := hdb ▸ h.stored x (by simp [hx])
  eligible x hx := h.eligible x (by simp [hx])
  sorted := h.sorted.of_cons
  earlier a ha x hx hlt := by
    rcases h.earlier a (by simp [ha]) x (hdb ▸ hx) hlt with haccepted | hexhausted | hmem
    · exact .inl (htopic.mem haccepted)
    · exact .inr (.inl hexhausted)
    · rcases List.mem_cons.mp hmem with rfl | hmem
      · exact .inl hm
      · exact .inr (.inr hmem)

theorem mem_unpublished {limit : ℕ} {free : OutboxMessage → Bool}
    (h : m ∈ p.db.unpublished limit maxAttempts free) :
    m ∈ p.db.outbox.rows ∧ m.publishedAt = none ∧ m.publishAttempts < maxAttempts := by
  have hmem := List.mem_of_mem_take h
  rw [List.mem_insertionSort, List.mem_filter] at hmem
  obtain ⟨hrow, heligible⟩ := hmem
  obtain ⟨hunpublished, hattempts, -⟩ := of_decide_eq_true heligible
  exact ⟨hrow, hunpublished, hattempts⟩

theorem nodup_unpublished (p : Platform) (limit maxAttempts : ℕ) (free : OutboxMessage → Bool) :
    ((p.db.unpublished limit maxAttempts free).map OutboxMessage.id).Nodup := by
  refine ((List.take_sublist limit _).map _).nodup ?_
  rw [((List.perm_insertionSort _ _).map _).nodup_iff]
  exact (List.filter_sublist.map _).nodup p.db.outbox.nodup

/-- The first `limit` of the messages with attempts left are a batch. -/
theorem batch_unpublished (hI : Inv maxAttempts p) (limit : ℕ) :
    Batch maxAttempts p (p.db.unpublished limit maxAttempts fun _ => true) := by
  let eligible := p.db.outbox.rows.filter fun m =>
    m.publishedAt = none ∧ m.publishAttempts < maxAttempts ∧ (fun _ => true) m = true
  let sorted := eligible.insertionSort fun a b => a.createdAt ≤ b.createdAt
  have hsorted : sorted.Pairwise fun a b => a.createdAt ≤ b.createdAt :=
    List.pairwise_insertionSort _ _
  refine ⟨nodup_unpublished p limit maxAttempts _, fun m hm => (mem_unpublished hm).1,
    fun m hm => (mem_unpublished hm).2, ?_, ?_⟩
  · exact hsorted.sublist (List.take_sublist limit sorted)
  · intro m hm x hx hlt
    by_cases hpublished : x.publishedAt.isSome
    · exact .inl ((hI x hx).2 hpublished)
    by_cases hattempts : maxAttempts ≤ x.publishAttempts
    · exact .inr (.inl hattempts)
    have hxs : x ∈ sorted := by
      rw [List.mem_insertionSort, List.mem_filter]
      exact ⟨hx, by simpa using ⟨by simpa using hpublished, by omega⟩⟩
    -- the list is cut behind `m`, and `x` stands before it
    rw [← List.take_append_drop limit sorted, List.mem_append] at hxs
    rcases hxs with hxs | hxs
    · exact .inr (.inr hxs)
    · rw [← List.take_append_drop limit sorted, List.pairwise_append] at hsorted
      exact absurd hlt (not_lt.mpr (hsorted.2.2 m hm x hxs))

/-! ### The loop over a batch -/

/-- Nothing but the topic has changed in the call so far. -/
structure Sending (p p' : Platform) (t' : Session) : Prop where
  writes : t'.writes = []
  db : p'.db = p.db
  topic : p.topic <+: p'.topic

theorem Inv.of_topic (h : Inv maxAttempts p) (hdb : p'.db = p.db) (htopic : p.topic <+: p'.topic) :
    Inv maxAttempts p' := by
  intro m hm
  obtain ⟨hattempts, hpublished⟩ := h m (hdb ▸ hm)
  exact ⟨hattempts, fun hm => htopic.mem (hpublished hm)⟩

theorem Works.of_topic (hdb : p'.db = p.db) (htopic : p.topic <+: p'.topic) :
    Works maxAttempts p p' :=
  fun h => ⟨h.of_topic hdb htopic, .of_outbox (by rw [hdb]) htopic⟩

theorem Works.refl (p : Platform) : Works maxAttempts p p :=
  .of_topic rfl List.prefix_rfl

theorem Orderly.of_ne {st : Stmt Platform RowKey Write Call} {t : Session}
    (h : ∀ e, st ≠ .call (.publish e)) : Orderly maxAttempts st t p :=
  fun e he => absurd he (h e)

theorem topic_publish (e : EventEnvelope) (i : Input) (p : Platform) :
    p.topic <+: (Call.perform (.publish e) i p).topic := by
  simp only [Call.perform]
  split
  · exact List.prefix_rfl
  · exact List.prefix_append _ _

/-- A part of a call that runs alone. -/
abbrev Runs {α : Type} (maxAttempts : ℕ)
    (Q : Except Exc α → Session → Platform → Prop) :
    Program α → Session → Platform → Prop :=
  Alone storage (Orderly maxAttempts) (Works maxAttempts) Q

theorem publishMessages_runs {p : Platform} {t : Session}
    {Q : Except Exc (ℕ × List Write) → Session → Platform → Prop}
    (ht : t.writes = []) (hbatch : Batch maxAttempts p messages)
    (h : ∀ p' t' n pending done, Sending p p' t' → done <+: messages →
      List.Forall₂ (Settles p'.topic) done pending → Q (.ok (n, pending)) t' p') :
    Runs maxAttempts Q (publishMessages messages) t p := by
  induction messages generalizing Q t p with
  | nil => exact h p t 0 [] [] ⟨ht, rfl, List.prefix_rfl⟩ List.prefix_rfl .nil
  | cons m rest ih =>
      refine Alone.stmt_bind (fun e he => ?_) (by rintro ⟨⟩) fun i => ?_
      · cases he
        exact ⟨m, rfl, hbatch.due⟩
      have hdb := Call.perform_db (.publish m.envelope) i p
      have htopic := topic_publish m.envelope i p
      refine ⟨.of_topic hdb htopic, ?_⟩
      simp only [Stmt.answer]
      split
      · exact h _ _ _ _ [m] ⟨ht, hdb, htopic⟩ (by simp) (.cons (.refused _) .nil)
      · next hok =>
        have hm : m.envelope ∈ (Call.perform (.publish m.envelope) i p).topic := by
          simp [Call.perform, hok]
        refine Alone.stmt_bind (.of_ne (by simp)) (by rintro ⟨⟩) fun j => ⟨.refl _, ?_⟩
        refine Alone.bind (ih ht (hbatch.tail hdb htopic hm) ?_)
        intro p' t' n pending done hsending hdone hsettled
        refine h p' t' _ _ (m :: done) ⟨hsending.writes, hsending.db.trans hdb, ?_⟩
          ((List.prefix_cons_inj m).mpr hdone) (.cons (.accepted _ ?_) hsettled)
        · exact htopic.trans hsending.topic
        · exact hsending.topic.mem hm

/-! ### The commit of a batch -/

theorem settles_stamp {topic : List EventEnvelope} {w : Write} (h : Settles topic m w) (i : Input) :
    w.stamp i = w := by
  cases h <;> rfl

/-- The update of one message. -/
theorem Settles.works {w : Write} (h : Settles p.topic m w) (hm : m ∈ p.db.outbox.rows)
    (hunpublished : m.publishedAt = none) (hattempts : m.publishAttempts < maxAttempts) :
    Works maxAttempts p (w.apply p) ∧ ∀ x ∈ p.db.outbox.rows, x.id ≠ m.id →
      x ∈ (w.apply p).db.outbox.rows := by
  obtain ⟨f, hf, hrow, hrows⟩ : ∃ f : OutboxMessage → OutboxMessage,
      (m.Advances (f m) ∧ (f m).publishAttempts ≤ maxAttempts ∧
        ((f m).publishedAt.isSome → m.envelope ∈ p.topic)) ∧
      (w.apply p).topic = p.topic ∧
      (w.apply p).db.outbox.rows = p.db.outbox.rows.map fun x => if x.id = m.id then f x else x := by
    cases h with
    | accepted now h =>
        refine ⟨_, ⟨⟨rfl, rfl, rfl, ?_, ?_⟩, ?_, fun _ => h⟩, rfl, rfl⟩
        · simp [OutboxMessage.merge, mergeColumn]
        · simp [hunpublished]
        · simpa [OutboxMessage.merge, mergeColumn] using hattempts.le
    | refused error =>
        refine ⟨_, ⟨⟨rfl, rfl, rfl, ?_, ?_⟩, ?_, ?_⟩, rfl, rfl⟩
        · simp [OutboxMessage.merge, mergeColumn]
        · simp [hunpublished]
        · simpa [OutboxMessage.merge, mergeColumn] using Nat.succ_le_of_lt hattempts
        · simp [OutboxMessage.merge, mergeColumn, hunpublished]
  obtain ⟨hadvances, hbound, hpublished⟩ := hf
  have hsame (x : OutboxMessage) (hx : x ∈ p.db.outbox.rows) (hid : x.id = m.id) : x = m :=
    Table.eq_of_key hx hm hid
  refine ⟨fun hI => ⟨fun x hx => ?_, ⟨?_, hrow.symm ▸ List.prefix_rfl⟩⟩, fun x hx hid => ?_⟩
  · rw [hrows, List.mem_map] at hx
    obtain ⟨y, hy, rfl⟩ := hx
    rw [hrow]
    split
    · next hid =>
      obtain rfl := hsame y hy hid
      exact ⟨hbound, fun h => hadvances.envelope ▸ hpublished h⟩
    · exact hI y hy
  · rw [hrows, List.forall₂_map_right_iff, List.forall₂_same]
    intro x hx
    split
    · next hid =>
      obtain rfl := hsame x hx hid
      exact hadvances
    · exact .refl x
  · rw [hrows, List.mem_map]
    exact ⟨x, hx, by simp [hid]⟩

theorem Works.trans {p₁ p₂ p₃ : Platform} (h : Works maxAttempts p₁ p₂)
    (h' : Works maxAttempts p₂ p₃) : Works maxAttempts p₁ p₃ := by
  intro hI
  obtain ⟨hI', hgoes⟩ := h hI
  obtain ⟨hI'', hgoes'⟩ := h' hI'
  refine ⟨hI'', ⟨?_, hgoes.topic.trans hgoes'.topic⟩⟩
  exact forall₂_trans (fun _ _ _ h h' => h.trans h') hgoes.rows hgoes'.rows

/-- The updates of a batch, one after the other: they concern different rows,
so each finds its row as it was loaded. -/
theorem settled_works {pending : List Write} {topic : List EventEnvelope}
    (h : List.Forall₂ (Settles topic) messages pending) (htopic : p.topic = topic)
    (hnodup : (messages.map OutboxMessage.id).Nodup)
    (hstored : ∀ m ∈ messages, m ∈ p.db.outbox.rows)
    (heligible : ∀ m ∈ messages, m.publishedAt = none ∧ m.publishAttempts < maxAttempts) :
    Works maxAttempts p (storage.applyAll p pending) := by
  induction h generalizing p with
  | nil => exact .refl p
  | @cons m w messages pending hm _ ih =>
      subst htopic
      obtain ⟨hnotin, hnodup⟩ := List.nodup_cons.mp hnodup
      obtain ⟨hunpublished, hattempts⟩ := heligible m (by simp)
      obtain ⟨hworks, hother⟩ := hm.works (hstored m (by simp)) hunpublished hattempts
      have hrest := ih (p := w.apply p) rfl hnodup (fun x hx => ?_) fun x hx => heligible x (by simp [hx])
      · exact hworks.trans hrest
      · exact hother x (hstored x (by simp [hx])) fun hid => hnotin (hid ▸ List.mem_map_of_mem hx)

theorem dispatchBatch_runs (hI : Inv maxAttempts p) (limit : ℕ) :
    Runs maxAttempts (fun _ _ _ => True) (dispatchBatch limit maxAttempts) .fresh p := by
  refine Alone.stmt_bind (.of_ne (by simp)) (fun _ => trivial) fun i => ⟨.refl _, ?_⟩
  have hbatch := batch_unpublished hI limit
  refine Alone.bind (publishMessages_runs rfl hbatch ?_)
  intro p' t' n pending done hsending hdone hsettled
  have hpending (i : Input) : pending.map (Write.stamp i) = pending := by
    refine (List.map_congr_left fun w hw => ?_).trans (List.map_id _)
    obtain ⟨m, -, hm⟩ := exists_of_mem_right hsettled hw
    exact settles_stamp hm i
  have hworks : Works maxAttempts p' (storage.applyAll p' pending) := by
    refine settled_works hsettled rfl ?_ (fun m hm => ?_) fun m hm => ?_
    · exact (hdone.sublist.map _).nodup hbatch.nodup
    · exact hsending.db ▸ hbatch.stored m (hdone.mem hm)
    · exact hbatch.eligible m (hdone.mem hm)
  refine Alone.bind (Alone.stmt_bind (.of_ne (by simp)) (fun _ => trivial) fun j => ?_)
  simp only [Stmt.answer]
  split
  · exact ⟨.refl _, trivial⟩
  · refine ⟨.refl _, Alone.stmt (.of_ne (by simp)) (fun _ => trivial) fun k => ⟨?_, trivial⟩⟩
    simpa [Stmt.answer, Session.view, hsending.writes, Session.stamped, hpending, storage] using hworks

/-! ### Whole histories -/

/-- What the dispatcher has come to, seen from before: every row is still
there, and rows it did not have then are not older than those it had. -/
structure Follows (d d' : Dispatcher) : Prop where
  kept : ∀ x ∈ d.rows, ∃ y ∈ d'.rows, x.Advances y
  origin : ∀ y ∈ d'.rows, (∃ x ∈ d.rows, x.Advances y) ∨ ∀ x ∈ d.rows, x.createdAt ≤ y.createdAt

theorem Follows.refl (d : Dispatcher) : Follows d d :=
  ⟨fun x hx => ⟨x, hx, .refl x⟩, fun y hy => .inl ⟨y, hy, .refl y⟩⟩

theorem Follows.trans {d₁ d₂ d₃ : Dispatcher} (h : Follows d₁ d₂) (h' : Follows d₂ d₃) :
    Follows d₁ d₃ where
  kept x hx := by
    obtain ⟨y, hy, hxy⟩ := h.kept x hx
    obtain ⟨z, hz, hyz⟩ := h'.kept y hy
    exact ⟨z, hz, hxy.trans hyz⟩
  origin z hz := by
    rcases h'.origin z hz with ⟨y, hy, hyz⟩ | hyoung
    · rcases h.origin y hy with ⟨x, hx, hxy⟩ | hyoung
      · exact .inl ⟨x, hx, hxy.trans hyz⟩
      · exact .inr fun x hx => hyz.createdAt ▸ hyoung x hx
    · refine .inr fun x hx => ?_
      obtain ⟨y, hy, hxy⟩ := h.kept x hx
      exact hxy.createdAt ▸ hyoung y hy

theorem Follows.of_goes {d d' : Dispatcher} (h : Goes d.platform d'.platform) : Follows d d' where
  kept _ hx := exists_of_mem_left h.rows hx
  origin _ hy := .inl (exists_of_mem_right h.rows hy)

theorem Follows.of_arrival {d d' : Dispatcher} (h : Arrival d.platform d'.platform m) :
    Follows d d' := by
  have hrows : d'.rows = d.rows ++ [m] := by
    rw [rows, h.outbox]
    exact Table.rows_insert h.fresh
  constructor
  · exact fun x hx => ⟨x, by simp [hrows, hx], .refl x⟩
  · intro y hy
    rw [hrows, List.mem_append, List.mem_singleton] at hy
    rcases hy with hy | rfl
    · exact .inl ⟨y, hy, .refl y⟩
    · exact .inr h.last

/-- The invariant holds, and a call in progress will keep it. -/
structure Sane (maxAttempts : ℕ) (d : Dispatcher) : Prop where
  inv : Inv maxAttempts d.platform
  call : ∀ c t, d.call = some (c, t) → Runs maxAttempts (fun _ _ _ => True) c t d.platform

theorem Step.sane {limit : ℕ} {d d' : Dispatcher} (hstep : Step limit maxAttempts d d')
    (h : Sane maxAttempts d) : Sane maxAttempts d' ∧ Follows d d' := by
  cases hstep with
  | @arrive p p' message harrival =>
      refine ⟨⟨fun x hx => ?_, nofun⟩, .of_arrival harrival⟩
      have hx : x ∈ p.db.outbox.rows ++ [message] := by
        rw [← Table.rows_insert harrival.fresh, ← harrival.outbox]
        exact hx
      rw [List.mem_append, List.mem_singleton] at hx
      rcases hx with hx | rfl
      · exact harrival.topic ▸ h.inv x hx
      · simp [harrival.unpublished, harrival.untried]
  | start p =>
      refine ⟨⟨h.inv, ?_⟩, .of_goes (.of_outbox rfl List.prefix_rfl)⟩
      rintro _ _ ⟨⟩
      exact dispatchBatch_runs h.inv limit
  | @run c c' hrun =>
      obtain ⟨hmoved, hrest⟩ := Alone.step (h.call _ _ rfl) hrun
      have hworks : Works maxAttempts c.state c'.state := by
        rcases hmoved with heq | hworks
        · rw [heq]
          exact .refl _
        · exact hworks
      obtain ⟨hI, hgoes⟩ := hworks h.inv
      refine ⟨⟨hI, ?_⟩, .of_goes hgoes⟩
      rintro _ _ ⟨⟩
      exact hrest
  | stop p call => exact ⟨⟨h.inv, nofun⟩, .of_goes (.of_outbox rfl List.prefix_rfl)⟩

theorem Steps.sane {limit : ℕ} {d d' : Dispatcher} (hsteps : Steps limit maxAttempts d d')
    (h : Sane maxAttempts d) : Sane maxAttempts d' ∧ Follows d d' := by
  induction hsteps with
  | refl => exact ⟨h, .refl d⟩
  | tail _ hstep ih =>
      obtain ⟨hsane, hfollows⟩ := ih
      obtain ⟨hsane', hfollows'⟩ := hstep.sane hsane
      exact ⟨hsane', hfollows.trans hfollows'⟩

theorem Reachable.sane {limit : ℕ} {d : Dispatcher} (h : Reachable limit maxAttempts d) :
    Sane maxAttempts d := by
  obtain ⟨p, hempty, hsteps⟩ := h
  refine (hsteps.sane ⟨fun m hm => ?_, nofun⟩).1
  rw [hempty] at hm
  cases hm

/-- The broker gets what the dispatcher hands it, and nothing else. -/
theorem Step.topic {limit : ℕ} {d d' : Dispatcher} (h : Step limit maxAttempts d d') :
    d'.platform.topic = d.platform.topic ∨
      ∃ e, d.Sends e ∧ d'.platform.topic = d.platform.topic ++ [e] := by
  cases h with
  | arrive message h => exact .inl h.topic
  | start | stop => exact .inl rfl
  | run h =>
      cases h with
      | fault => exact .inl rfl
      | @run p p' t t' s s' i hexec =>
          cases p with
          | ret | raise => simp [Prog.exec] at hexec
          | step pt st next =>
              rw [Prog.exec_step] at hexec
              obtain ⟨-, heq⟩ := Prod.mk.inj (Option.some.inj hexec)
              obtain rfl : (st.answer storage i t s).2.2 = s' := congrArg Prod.snd heq
              cases st with
              | select | lock | rollback => exact .inl rfl
              | flush writes =>
                  simp only [Stmt.answer]
                  split <;> exact .inl rfl
              | commit => exact .inl topic_applyAll
              | call c =>
                  cases c with
                  | put key data =>
                      simp only [Stmt.answer, storage, Call.perform]
                      split <;> exact .inl rfl
                  | execute | pause => exact .inl rfl
                  | publish e =>
                      simp only [Stmt.answer, storage, Call.perform]
                      split
                      · exact .inl rfl
                      · exact .inr ⟨e, ⟨pt, next, t, rfl⟩, rfl⟩

/-- Published is what the broker accepted, and it stays so; attempts are
bounded; rows are never lost; and a message is sent, with attempts left, only
when everything created before it, whenever it shows up, was there already
and has been accepted or is exhausted. -/
theorem dispatch_ordered {limit maxAttempts : ℕ} {d : Dispatcher}
    (h : Reachable limit maxAttempts d) :
    (∀ m ∈ d.rows, (m.publishedAt.isSome → m.envelope ∈ d.platform.topic) ∧
      m.publishAttempts ≤ maxAttempts) ∧
    (∀ d', Steps limit maxAttempts d d' → ∀ m ∈ d.rows, ∃ m' ∈ d'.rows, m.Advances m') ∧
    (∀ d', Step limit maxAttempts d d' → d'.platform.topic = d.platform.topic ∨
      ∃ e, d.Sends e ∧ d'.platform.topic = d.platform.topic ++ [e]) ∧
    ∀ e, d.Sends e → ∃ m ∈ d.rows, m.envelope = e ∧ m.publishedAt = none ∧
      m.publishAttempts < maxAttempts ∧
      ∀ d', Steps limit maxAttempts d d' → ∀ x ∈ d'.rows, x.createdAt < m.createdAt →
        ∃ x₀ ∈ d.rows, x₀.Advances x ∧
          (x₀.envelope ∈ d.platform.topic ∨ maxAttempts ≤ x₀.publishAttempts) := by
  have hsane := h.sane
  refine ⟨fun m hm => (hsane.inv m hm).symm, fun d' hsteps m hm => ?_, fun d' => Step.topic,
    fun e he => ?_⟩
  · exact (hsteps.sane hsane).2.kept m hm
  · obtain ⟨pt, next, t, hcall⟩ := he
    obtain ⟨m, hm, hdue⟩ := (hsane.call _ _ hcall).need e rfl
    refine ⟨m, hdue.stored, hm, hdue.unpublished, hdue.attempts, fun d' hsteps x hx hlt => ?_⟩
    rcases (hsteps.sane hsane).2.origin x hx with ⟨x₀, hx₀, hadvances⟩ | hyoung
    · exact ⟨x₀, hx₀, hadvances, hdue.earlier x₀ hx₀ (hadvances.createdAt ▸ hlt)⟩
    · exact absurd hlt (not_lt.mpr (hyoung m hdue.stored))

end Dispatcher

namespace Demo

/-- A message that has just been written. -/
def message : OutboxMessage where
  id := 1
  topic := settings.brokerTopic
  partitionKey := 201
  envelope := ⟨2, 1, "run.submitted", 0, .request requestId, some 201, none, []⟩
  createdAt := 0
  publishedAt := none
  publishAttempts := 0
  lastError := none

/-- One that has been written after it. -/
def laterMessage : OutboxMessage where
  id := 2
  topic := settings.brokerTopic
  partitionKey := 202
  envelope := ⟨3, 1, "run.submitted", 1, .request requestId, some 202, none, []⟩
  createdAt := 1
  publishedAt := none
  publishAttempts := 0
  lastError := none

/-- An outbox. -/
def posted (outbox : Table OutboxMessage.id) : Platform :=
  { Platform.empty templates with db := { (Platform.empty templates).db with outbox := outbox } }

/-- The outbox with both. -/
def waiting : Platform := posted ((Table.empty.insert message).insert laterMessage)

/-- A call has sent the first message and is about to send the second. -/
theorem sending_reachable : ∃ d, Dispatcher.Reachable 50 10 d ∧ d.Sends laterMessage.envelope ∧
    d.platform.topic = [message.envelope] := by
  have hfirst : Dispatcher.Arrival (posted .empty) (posted (Table.empty.insert message)) message :=
    ⟨rfl, rfl, rfl, rfl, rfl, nofun⟩
  have hsecond : Dispatcher.Arrival (posted (Table.empty.insert message)) waiting laterMessage :=
    ⟨rfl, rfl, rfl, rfl, rfl, by decide⟩
  have hcalled : Dispatcher.Steps 50 10 ⟨posted .empty, none⟩
      ⟨waiting, some (dispatchBatch 50 10, .fresh)⟩ :=
    ((Relation.ReflTransGen.single (.arrive message hfirst)).tail
      (.arrive laterMessage hsecond)).tail (.start waiting)
  -- the rows are locked, the message is sent and the clock is read
  refine ⟨_, ⟨posted .empty, rfl, ((hcalled.tail (.run (.run (input 2) rfl))).tail
    (.run (.run (input 3) rfl))).tail (.run (.run (input 4) rfl))⟩, ?_, rfl⟩
  exact ⟨_, _, _, rfl⟩

end Demo

/-- The first message has been accepted, and stays so. -/
theorem Dispatcher.dispatch_ordered_sending : ∃ d, Reachable 50 10 d ∧
    d.Sends Demo.laterMessage.envelope ∧ d.platform.topic = [Demo.message.envelope] ∧
    ∃ m ∈ d.rows, m.envelope = Demo.laterMessage.envelope ∧ m.publishedAt = none ∧
      ∀ d', Steps 50 10 d d' → ∀ x ∈ d'.rows, x.createdAt < m.createdAt →
        ∃ x₀ ∈ d.rows, x₀.Advances x ∧
          (x₀.envelope ∈ d.platform.topic ∨ 10 ≤ x₀.publishAttempts) := by
  obtain ⟨d, hreachable, hsends, htopic⟩ := Demo.sending_reachable
  obtain ⟨m, hm, henvelope, hunpublished, -, hearlier⟩ :=
    (dispatch_ordered hreachable).2.2.2 _ hsends
  exact ⟨d, hreachable, hsends, htopic, m, hm, henvelope, hunpublished, hearlier⟩

end Runscope
