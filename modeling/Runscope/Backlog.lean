import Mathlib.Algebra.Order.BigOperators.Group.List
import Runscope.Dispatcher
import Runscope.Transact.Turn

/-!
How long a dispatcher takes for a backlog.

Every batch that finds a message to send either publishes it or counts one
attempt up, whatever the broker does, so the attempts left run out. A failure
breaks off the batch but never the count.
-/

namespace Runscope

open Transact

namespace Dispatcher

/-- What a call of `dispatch_batch` meets: the broker's answers among others. -/
abbrev Broker := Surroundings Platform RowKey Write Call Input

/-- The broker accepts the envelope whenever it is offered. -/
def Takes (env : Broker) (e : EventEnvelope) : Prop :=
  ∀ n, (env.draw n (.call (.publish e))).failure = none

/-- A message with attempts left is waiting. -/
def eligible (maxAttempts : ℕ) (p : Platform) : Bool :=
  p.db.outbox.rows.any fun m => m.publishedAt = none ∧ m.publishAttempts < maxAttempts

/-- The attempts left to unpublished messages, all together. -/
def backlog (maxAttempts : ℕ) (p : Platform) : ℕ :=
  (p.db.outbox.rows.map fun m =>
    if m.publishedAt = none then maxAttempts - m.publishAttempts else 0).sum

/-- One call: how it ends, and what is committed then. -/
def batch (limit maxAttempts : ℕ) (env : Broker) (p : Platform) : Except Exc ℕ × Platform :=
  (((dispatchBatch limit maxAttempts).alone storage env (.start p)).1,
    ((dispatchBatch limit maxAttempts).alone storage env (.start p)).2.state)

/-- What is committed after calls that follow each other. -/
def batches (limit maxAttempts : ℕ) : List Broker → Platform → Platform
  | [], p => p
  | env :: envs, p => batches limit maxAttempts envs (batch limit maxAttempts env p).2

/-- How many of the calls commit. -/
def commits (limit maxAttempts : ℕ) : List Broker → Platform → ℕ
  | [], _ => 0
  | env :: envs, p =>
    (if (batch limit maxAttempts env p).1.isOk then 1 else 0) +
      commits limit maxAttempts envs (batch limit maxAttempts env p).2

/-- How many of the calls find something to send, and commit. -/
def nonemptyCommits (limit maxAttempts : ℕ) : List Broker → Platform → ℕ
  | [], _ => 0
  | env :: envs, p =>
    (if (batch limit maxAttempts env p).1.isOk ∧ eligible maxAttempts p then 1 else 0) +
      nonemptyCommits limit maxAttempts envs (batch limit maxAttempts env p).2

variable {limit maxAttempts : ℕ} {env : Broker} {p p' : Platform} {m : OutboxMessage}
  {messages : List OutboxMessage} {taken : EventEnvelope → Prop}

theorem eligible_iff : eligible maxAttempts p ↔
    ∃ m ∈ p.db.outbox.rows, m.publishedAt = none ∧ m.publishAttempts < maxAttempts := by
  simp [eligible]

theorem backlog_le (maxAttempts : ℕ) (p : Platform) :
    backlog maxAttempts p ≤ p.db.outbox.rows.length * maxAttempts := by
  rw [backlog]
  refine (List.sum_le_card_nsmul _ maxAttempts fun n hn => ?_).trans (by simp)
  obtain ⟨m, -, rfl⟩ := List.mem_map.mp hn
  split
  · exact Nat.sub_le _ _
  · exact Nat.zero_le _

/-- A row, some calls later: a message the broker takes is published or has
not been tried again. -/
structure Fares (taken : EventEnvelope → Prop) (a b : OutboxMessage) : Prop where
  id : b.id = a.id
  envelope : b.envelope = a.envelope
  published : a.publishedAt.isSome → b.publishedAt.isSome
  taken : taken a.envelope → b.publishedAt.isSome ∨ b.publishAttempts = a.publishAttempts

theorem Fares.refl (a : OutboxMessage) : Fares taken a a := ⟨rfl, rfl, fun h => h, fun _ => .inr rfl⟩

theorem Fares.trans {a b c : OutboxMessage} (h : Fares taken a b) (h' : Fares taken b c) :
    Fares taken a c where
  id := h'.id.trans h.id
  envelope := h'.envelope.trans h.envelope
  published ha := h'.published (h.published ha)
  taken ht := by
    rcases h.taken ht with hb | hb
    · exact .inl (h'.published hb)
    · exact (h'.taken (h.envelope ▸ ht)).imp_right fun hc => hc.trans hb

/-- The rows are the same, and fare on. -/
def Fare (taken : EventEnvelope → Prop) (p p' : Platform) : Prop :=
  List.Forall₂ (Fares taken) p.db.outbox.rows p'.db.outbox.rows

theorem Fare.refl (p : Platform) : Fare taken p p :=
  List.forall₂_same.mpr fun a _ => .refl a

theorem Fare.trans {p₁ p₂ p₃ : Platform} (h : Fare taken p₁ p₂) (h' : Fare taken p₂ p₃) :
    Fare taken p₁ p₃ := forall₂_trans (fun _ _ _ h h' => h.trans h') h h'

/-! ### The updates of a batch -/

/-- The update that settles a message, as the broker answered. -/
inductive Answers (env : Broker) (m : OutboxMessage) : Write → Prop where
  | accepted (now : Time) :
      Answers env m (.updateOutbox m { m with publishedAt := some now, lastError := none })
  | refused (error : String) (h : ¬ Takes env m.envelope) :
      Answers env m (.updateOutbox m { m with
        publishAttempts := m.publishAttempts + 1, lastError := some error })

theorem answers_stamp {w : Write} (h : Answers env m w) (i : Input) : w.stamp i = w := by
  cases h <;> rfl

/-- One update: the message is settled or has one attempt less, and no other
row changes. -/
theorem Answers.apply {w : Write} (h : Answers env m w) (htaken : ∀ e, taken e → Takes env e)
    (hm : m ∈ p.db.outbox.rows) (hunpublished : m.publishedAt = none)
    (hattempts : m.publishAttempts < maxAttempts) :
    backlog maxAttempts (w.apply p) < backlog maxAttempts p ∧ Fare taken p (w.apply p) ∧
      w.check p = none ∧
      ∀ x ∈ p.db.outbox.rows, x.id ≠ m.id → x ∈ (w.apply p).db.outbox.rows := by
  obtain ⟨f, hfares, hless, hcheck, hrows⟩ : ∃ f : OutboxMessage → OutboxMessage,
      Fares taken m (f m) ∧
      (if (f m).publishedAt = none then maxAttempts - (f m).publishAttempts else 0) <
        maxAttempts - m.publishAttempts ∧ w.check p = none ∧
      (w.apply p).db.outbox.rows = p.db.outbox.rows.map fun x => if x.id = m.id then f x else x := by
    have hget : p.db.outbox.get? m.id = some m := Table.get?_of_mem hm
    cases h with
    | accepted now =>
        refine ⟨_, ⟨rfl, rfl, ?_, fun _ => .inl ?_⟩, ?_, by simp [Write.check, hget], rfl⟩
        · simp [hunpublished]
        · simp [OutboxMessage.merge, mergeColumn, hunpublished]
        · simp only [OutboxMessage.merge, mergeColumn, hunpublished, reduceCtorEq, if_false]
          omega
    | refused error hrefused =>
        refine ⟨_, ⟨rfl, rfl, ?_, fun ht => absurd (htaken _ ht) hrefused⟩, ?_,
          by simp [Write.check, hget], rfl⟩
        · simp [hunpublished]
        · simp only [OutboxMessage.merge, mergeColumn, hunpublished, if_true,
            Nat.succ_ne_self, if_false]
          omega
  have hsame (x : OutboxMessage) (hx : x ∈ p.db.outbox.rows) (hid : x.id = m.id) : x = m :=
    Table.eq_of_key hx hm hid
  refine ⟨?_, ?_, hcheck, fun x hx hid => ?_⟩
  · rw [backlog, backlog, hrows, List.map_map]
    refine List.sum_lt_sum _ _ (fun x hx => ?_) ⟨m, hm, ?_⟩
    · simp only [Function.comp]
      by_cases hid : x.id = m.id
      · obtain rfl := hsame x hx hid
        rw [if_pos rfl, if_pos hunpublished]
        exact hless.le
      · rw [if_neg hid]
    · simp only [Function.comp, if_true, hunpublished]
      exact hless
  · rw [Fare, hrows, List.forall₂_map_right_iff, List.forall₂_same]
    intro x hx
    split
    · next hid =>
      obtain rfl := hsame x hx hid
      exact hfares
    · exact .refl x
  · rw [hrows, List.mem_map]
    exact ⟨x, hx, by simp [hid]⟩

/-- All updates of a batch, which concern different rows. -/
theorem answers_apply {pending : List Write} (h : List.Forall₂ (Answers env) messages pending)
    (htaken : ∀ e, taken e → Takes env e) (hnodup : (messages.map OutboxMessage.id).Nodup)
    (hstored : ∀ m ∈ messages, m ∈ p.db.outbox.rows)
    (heligible : ∀ m ∈ messages, m.publishedAt = none ∧ m.publishAttempts < maxAttempts) :
    backlog maxAttempts (storage.applyAll p pending) + messages.length ≤ backlog maxAttempts p ∧
      Fare taken p (storage.applyAll p pending) ∧ storage.firstError p pending = none := by
  induction h generalizing p with
  | nil => exact ⟨le_rfl, .refl p, rfl⟩
  | @cons m w messages pending hm _ ih =>
      obtain ⟨hnotin, hnodup⟩ := List.nodup_cons.mp hnodup
      obtain ⟨hunpublished, hattempts⟩ := heligible m (by simp)
      obtain ⟨hless, hfare, hcheck, hother⟩ :=
        hm.apply htaken (hstored m (by simp)) hunpublished hattempts
      have hstored' (x : OutboxMessage) (hx : x ∈ messages) :
          x ∈ (w.apply p).db.outbox.rows :=
        hother x (hstored x (by simp [hx])) fun hid => hnotin (hid ▸ List.mem_map_of_mem hx)
      obtain ⟨hrest, hfares, herror⟩ := ih hnodup hstored' fun x hx => heligible x (by simp [hx])
      refine ⟨?_, hfare.trans hfares, storage.firstError_cons_eq_none.mpr ⟨hcheck, herror⟩⟩
      have hrest : backlog maxAttempts (storage.applyAll (w.apply p) pending) + messages.length ≤
          backlog maxAttempts (w.apply p) := hrest
      show backlog maxAttempts (storage.applyAll (w.apply p) pending) + (messages.length + 1) ≤ _
      omega

/-! ### One batch -/

theorem publishMessages_leads {r : Turn Platform RowKey Write Call Input}
    {Q : Except Exc (ℕ × List Write) → Turn Platform RowKey Write Call Input → Prop}
    (hwrites : r.session.writes = [])
    (h : ∀ r' n pending done, r'.session.writes = [] → r'.state.db = r.state.db →
      done <+: messages → (messages ≠ [] → done ≠ []) →
      List.Forall₂ (Answers env) done pending → Q (.ok (n, pending)) r') :
    (publishMessages messages).Leads storage env r Q := by
  induction messages generalizing r Q with
  | nil => exact h r 0 [] [] hwrites rfl List.prefix_rfl (fun hne => absurd rfl hne) .nil
  | cons m rest ih =>
      refine Prog.Leads.bind (Prog.Leads.call fun i hi => ?_)
      have hdb := Call.perform_db (.publish m.envelope) i r.state
      cases hfailure : i.failure with
      | some exc =>
          simp only [hfailure]
          refine h _ _ _ [m] hwrites hdb (by simp) (fun _ => by simp) (.cons (.refused _ ?_) .nil)
          intro htakes
          have hnone := htakes r.count
          rw [← hi, hfailure] at hnone
          cases hnone
      | none =>
          simp only [hfailure]
          refine Prog.Leads.bind (Prog.Leads.call fun j _ => ?_)
          refine Prog.Leads.bind (ih hwrites fun r' n pending done hwrites' hdb' hdone _ hanswers => ?_)
          exact h r' _ _ (m :: done) hwrites' (hdb'.trans hdb) ((List.prefix_cons_inj m).mpr hdone)
            (fun _ => by simp) (.cons (.accepted _) hanswers)

/-- A call that commits brings the backlog down if there is anything to send;
one that does not leaves the database as it was. -/
theorem dispatchBatch_leads (maxAttempts : ℕ) (p : Platform) (hlimit : 1 ≤ limit)
    (htaken : ∀ e, taken e → Takes env e) :
    (dispatchBatch limit maxAttempts).Leads storage env (.start p) fun outcome r =>
      match outcome with
      | .ok _ => Fare taken p r.state ∧ backlog maxAttempts r.state ≤ backlog maxAttempts p ∧
          (eligible maxAttempts p → backlog maxAttempts r.state < backlog maxAttempts p)
      | .error _ => r.state.db = p.db := by
  refine Prog.Leads.bind (Prog.Leads.lock (fun _ => rfl) fun i => ?_)
  refine Prog.Leads.bind (publishMessages_leads rfl
    fun r' n pending done hwrites hdb hdone hnonempty hanswers => ?_)
  have hdb : r'.state.db = p.db := hdb
  have hmem (m : OutboxMessage) (hm : m ∈ done) := mem_unpublished (hdone.mem hm)
  have hpending (i : Input) : pending.map (Write.stamp i) = pending := by
    refine (List.map_congr_left fun w hw => ?_).trans (List.map_id _)
    obtain ⟨m, -, hm⟩ := exists_of_mem_right hanswers hw
    exact answers_stamp hm i
  have hstamped (i : Input) : r'.session.stamped storage i pending = pending := hpending _
  have hview : r'.view storage = r'.state := by rw [Turn.view, Session.view, hwrites]; rfl
  obtain ⟨hbacklog, hfare, hchecked⟩ := answers_apply (p := r'.state) hanswers htaken
    ((hdone.sublist.map _).nodup (nodup_unpublished p limit maxAttempts _))
    (fun m hm => hdb ▸ (hmem m hm).1) fun m hm => (hmem m hm).2
  refine Prog.Leads.bind (Prog.Leads.bind (Prog.Leads.flush (fun _ => hdb) (fun i e herror => ?_)
    fun i _ => ?_))
  · rw [hview, hstamped, hchecked] at herror
    cases herror
  refine Prog.Leads.commit (fun _ => hdb) fun j => ?_
  have hfinal : ((r'.session.begin i).write storage (r'.session.stamped storage i pending)).view
      storage r'.state = storage.applyAll r'.state pending := by
    rw [Session.view_write, hstamped, Session.view_begin]
    exact congrArg (storage.applyAll · pending) hview
  have hsame : backlog maxAttempts r'.state = backlog maxAttempts p := by rw [backlog, backlog, hdb]
  refine Prog.Leads.ret ?_
  show Fare taken p _ ∧ _
  simp only [Turn.view, Turn.advance_session, Turn.advance_state, hfinal]
  refine ⟨?_, by omega, fun heligible => ?_⟩
  · rw [Fare, ← hdb]
    exact hfare
  · obtain ⟨m, hm, hunpublished, hattempts⟩ := eligible_iff.mp heligible
    have hfound : p.db.unpublished limit maxAttempts (fun _ => true) ≠ [] := by
      rw [Db.unpublished, Ne, List.take_eq_nil_iff, not_or]
      refine ⟨by omega, List.ne_nil_of_mem (a := m) ?_⟩
      rw [List.mem_insertionSort, List.mem_filter]
      exact ⟨hm, by simp [hunpublished, hattempts]⟩
    have hlength := List.length_pos_iff.mpr (hnonempty hfound)
    omega

/-! ### Calls that follow each other -/

theorem eligible_iff_backlog : eligible maxAttempts p ↔ 0 < backlog maxAttempts p := by
  rw [eligible_iff, backlog, Nat.pos_iff_ne_zero, Ne, List.sum_eq_zero_iff]
  simp only [List.mem_map, forall_exists_index, and_imp, forall_apply_eq_imp_iff₂, not_forall]
  refine exists_congr fun m => ?_
  by_cases hunpublished : m.publishedAt = none
  · simp only [hunpublished, if_true, true_and, exists_prop]
    exact and_congr_right fun _ => by omega
  · simp [hunpublished]

/-- One call, whatever becomes of it. -/
theorem batch_fares (maxAttempts : ℕ) (p : Platform) (hlimit : 1 ≤ limit)
    (htaken : ∀ e, taken e → Takes env e) :
    Fare taken p (batch limit maxAttempts env p).2 ∧
      backlog maxAttempts (batch limit maxAttempts env p).2 +
        (if (batch limit maxAttempts env p).1.isOk ∧ eligible maxAttempts p then 1 else 0) ≤
          backlog maxAttempts p := by
  have hleads := dispatchBatch_leads maxAttempts p hlimit htaken
  rw [Prog.Leads] at hleads
  cases houtcome : ((dispatchBatch limit maxAttempts).alone storage env (.start p)).1 with
  | ok n =>
      rw [houtcome] at hleads
      obtain ⟨hfare, hle, hless⟩ := hleads
      refine ⟨hfare, ?_⟩
      split
      · next h => exact hless h.2
      · exact hle
  | error e =>
      rw [houtcome] at hleads
      have hdb : (batch limit maxAttempts env p).2.db = p.db := hleads
      have hfailed : (batch limit maxAttempts env p).1.isOk = false := by
        rw [batch, houtcome]
        rfl
      rw [if_neg (by simp [hfailed]), Fare, backlog, hdb]
      exact ⟨Fare.refl p, le_rfl⟩

theorem batches_fare (maxAttempts : ℕ) (p : Platform) (hlimit : 1 ≤ limit) {envs : List Broker}
    (htaken : ∀ env ∈ envs, ∀ e, taken e → Takes env e) :
    Fare taken p (batches limit maxAttempts envs p) ∧
      backlog maxAttempts (batches limit maxAttempts envs p) +
        nonemptyCommits limit maxAttempts envs p ≤ backlog maxAttempts p := by
  induction envs generalizing p with
  | nil => exact ⟨.refl p, le_rfl⟩
  | cons env envs ih =>
      obtain ⟨hfare, hstep⟩ := batch_fares maxAttempts p hlimit (htaken env (by simp))
      obtain ⟨hfares, hsteps⟩ := ih (batch limit maxAttempts env p).2 fun env' henv' =>
        htaken env' (by simp [henv'])
      refine ⟨hfare.trans hfares, ?_⟩
      rw [batches, nonemptyCommits]
      omega

/-- Each call that found something took something off. -/
theorem batches_backlog (maxAttempts : ℕ) (p : Platform) (hlimit : 1 ≤ limit) (envs : List Broker) :
    backlog maxAttempts (batches limit maxAttempts envs p) +
      nonemptyCommits limit maxAttempts envs p ≤ backlog maxAttempts p := by
  have hnone (env : Broker) (_ : env ∈ envs) (e : EventEnvelope) (he : False) : Takes env e :=
    he.elim
  exact (batches_fare maxAttempts p hlimit hnone).2

/-- As long as something is left at the end, every call that commits found
something. -/
theorem commits_eq (hlimit : 1 ≤ limit) {envs : List Broker}
    (h : eligible maxAttempts (batches limit maxAttempts envs p)) :
    commits limit maxAttempts envs p = nonemptyCommits limit maxAttempts envs p := by
  induction envs generalizing p with
  | nil => rfl
  | cons env envs ih =>
      rw [batches] at h
      have heligible : eligible maxAttempts p := by
        rw [eligible_iff_backlog] at h ⊢
        have hall := batches_backlog maxAttempts p hlimit (env :: envs)
        rw [batches] at hall
        omega
      rw [commits, nonemptyCommits, ih h]
      simp [heligible]

/-- Every batch that finds a message to send and commits brings the attempts
left down. So after as many commits as `maxAttempts` for each message, whatever
the broker does, every message is published or exhausted, and those the broker
takes are published. -/
theorem backlog_drains (hlimit : 1 ≤ limit) (p : Platform) :
    (∀ env n p', batch limit maxAttempts env p = (.ok n, p') → eligible maxAttempts p →
      backlog maxAttempts p' < backlog maxAttempts p) ∧
    ∀ envs, nonemptyCommits limit maxAttempts envs p ≤ p.db.outbox.rows.length * maxAttempts ∧
      (p.db.outbox.rows.length * maxAttempts ≤ commits limit maxAttempts envs p →
        eligible maxAttempts (batches limit maxAttempts envs p) = false ∧
        (∀ m ∈ (batches limit maxAttempts envs p).db.outbox.rows,
          m.publishedAt.isSome ∨ maxAttempts ≤ m.publishAttempts) ∧
        ∀ m ∈ p.db.outbox.rows, m.publishedAt = none → m.publishAttempts < maxAttempts →
          (∀ env ∈ envs, Takes env m.envelope) →
          ∃ m' ∈ (batches limit maxAttempts envs p).db.outbox.rows,
            m'.id = m.id ∧ m'.publishedAt.isSome) := by
  refine ⟨fun env n p' hbatch heligible => ?_, fun envs => ⟨?_, fun hcommits => ?_⟩⟩
  · have hstep := batches_backlog maxAttempts p hlimit [env]
    rw [batches, batches, nonemptyCommits, nonemptyCommits, hbatch,
      if_pos ⟨rfl, heligible⟩] at hstep
    exact hstep
  · have hbacklog := batches_backlog maxAttempts p hlimit envs
    have hbound := backlog_le maxAttempts p
    omega
  · have hdone : eligible maxAttempts (batches limit maxAttempts envs p) = false := by
      by_contra hnot
      have heligible := Bool.not_eq_false _ ▸ hnot
      have hbacklog := batches_backlog maxAttempts p hlimit envs
      have hbound := backlog_le maxAttempts p
      have hleft := eligible_iff_backlog.mp heligible
      rw [commits_eq hlimit heligible] at hcommits
      omega
    have hsettled (m : OutboxMessage)
        (hm : m ∈ (batches limit maxAttempts envs p).db.outbox.rows) :
        m.publishedAt.isSome ∨ maxAttempts ≤ m.publishAttempts := by
      by_contra hnot
      rw [not_or, Option.not_isSome_iff_eq_none, not_le] at hnot
      rw [eligible_iff.mpr ⟨m, hm, hnot⟩] at hdone
      cases hdone
    refine ⟨hdone, hsettled, fun m hm hunpublished hattempts htakes => ?_⟩
    have htaken (env : Broker) (henv : env ∈ envs) (e : EventEnvelope) (he : e = m.envelope) :
        Takes env e := he ▸ htakes env henv
    have hfare := (batches_fare maxAttempts p hlimit htaken).1
    obtain ⟨m', hm', hfares⟩ := exists_of_mem_left hfare hm
    refine ⟨m', hm', hfares.id, ?_⟩
    rcases hfares.taken rfl with hpublished | hsame
    · exact hpublished
    · exact (hsettled m' hm').resolve_right (by omega)

end Dispatcher

namespace Demo

/-- The broker refuses this envelope, and the clock shows the number of the
statement. -/
def refusing (e : EventEnvelope) : Dispatcher.Broker where
  draw n st :=
    match st with
    | .call (.publish e') =>
        { input n with failure := if e' = e then some (.other "KafkaError") else none }
    | _ => input n
  lost _ _ := false

/-- Nothing fails. -/
def calm : Dispatcher.Broker := ⟨fun n _ => input n, fun _ _ => false⟩

/-- The first message of the outbox is refused five times. -/
def brokers : List Dispatcher.Broker :=
  List.replicate 5 (refusing message.envelope) ++ List.replicate 15 calm

end Demo

/-- Nothing is left to send, and the message behind the refused one is delivered. -/
theorem Dispatcher.backlog_drains_waiting :
    eligible 10 (batches 50 10 Demo.brokers Demo.waiting) = false ∧
    ∃ m ∈ (batches 50 10 Demo.brokers Demo.waiting).db.outbox.rows,
      m.id = Demo.laterMessage.id ∧ m.publishedAt.isSome := by
  have hmessage : Demo.laterMessage ∈ Demo.waiting.db.outbox.rows := by decide
  have hcommits : Demo.waiting.db.outbox.rows.length * 10 ≤
      commits 50 10 Demo.brokers Demo.waiting := by decide +kernel
  obtain ⟨hdone, -, hdelivered⟩ := ((backlog_drains (by decide) Demo.waiting).2 _).2 hcommits
  refine ⟨hdone, hdelivered Demo.laterMessage hmessage rfl (by decide) fun env henv n => ?_⟩
  have hother : ¬ Demo.laterMessage.envelope = Demo.message.envelope := by decide
  rcases List.mem_append.mp henv with hrefusing | hcalm
  · rw [List.eq_of_mem_replicate hrefusing]
    simp [Demo.refusing, hother]
  · rw [List.eq_of_mem_replicate hcalm]
    rfl

end Runscope
