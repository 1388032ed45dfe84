import Runscope.Annotations
import Runscope.Dispatcher
import Runscope.Transact.Writing

/-!
Any number of dispatchers beside all other sessions.

Every process of the API runs the loop of `run_outbox_dispatcher`, and all of
them read `outbox_max_attempts` from the same settings. A dispatcher holds the
rows of its batch from the query to the commit, and skips those another one
holds. So whatever the others do in between, it finds its rows as it loaded
them.
-/

namespace Runscope

open Transact Dispatcher

/-- A dispatcher is started with the attempts of the settings. -/
def Kind.configured (maxAttempts : ℕ) : Kind → Bool
  | dispatchBatch _ n => n = maxAttempts
  | _ => true

/-- The system with one setting of `outbox_max_attempts`. -/
def deployed (rt : Runtime) (settings : Settings) (maxAttempts : ℕ) :
    System Kind Platform RowKey Write Call Input Exc Point :=
  (system rt settings).restrict fun κ => κ.configured maxAttempts

/-- Worlds the deployed system can reach from an empty database. -/
abbrev Deployed (rt : Runtime) (settings : Settings) (maxAttempts : ℕ)
    (templates : Table TrainingTemplate.id) : Cluster → Prop :=
  Reach (deployed rt settings maxAttempts) (fun _ _ _ => True) (.initial (.empty templates))

section Deployment

variable {rt : Runtime} {settings : Settings} {maxAttempts : ℕ}
  {templates : Table TrainingTemplate.id}

theorem Deployed.reachable {w : Cluster} (h : Deployed rt settings maxAttempts templates w) :
    Reachable rt settings templates w := h.of_restrict

/-! ### What the sessions do to the outbox -/

/-- No row is lost, every row goes on, and the topic grows. -/
structure Evolves (p p' : Platform) : Prop where
  rows : ∀ id a, p.db.outbox.get? id = some a → ∃ b, p'.db.outbox.get? id = some b ∧ a.Advances b
  topic : p.topic <+: p'.topic

theorem Evolves.of_outbox {p p' : Platform} (h : p'.db.outbox = p.db.outbox)
    (htopic : p.topic <+: p'.topic) : Evolves p p' :=
  ⟨fun _ a ha => ⟨a, h ▸ ha, .refl a⟩, htopic⟩

theorem Evolves.refl (p : Platform) : Evolves p p := .of_outbox rfl List.prefix_rfl

theorem Evolves.trans {p₁ p₂ p₃ : Platform} (h : Evolves p₁ p₂) (h' : Evolves p₂ p₃) :
    Evolves p₁ p₃ where
  rows id a ha := by
    obtain ⟨b, hb, hab⟩ := h.rows id a ha
    obtain ⟨c, hc, hbc⟩ := h'.rows id b hb
    exact ⟨c, hc, hab.trans hbc⟩
  topic := h.topic.trans h'.topic

theorem Evolves.of_goes {p p' : Platform} (h : Goes p p') : Evolves p p' where
  rows id a ha := by
    obtain ⟨b, hb, hab⟩ := exists_of_mem_left h.rows (Table.mem_of_get? ha)
    refine ⟨b, ?_, hab⟩
    rw [← Table.key_of_get? ha, ← hab.id]
    exact Table.get?_of_mem hb
  topic := h.topic

/-- A write that leaves what has become of messages alone. -/
def Write.LeavesMessages (x : Write) : Prop := x.Ordinary ∨ ∃ message, x = .insertProcessed message

theorem leavesMessages_stamp (i : Input) (x : Write) (h : x.LeavesMessages) :
    (x.stamp i).LeavesMessages := by
  rcases h with h | ⟨message, rfl⟩
  · exact .inl (ordinary_stamp i x h)
  · exact .inr ⟨message, rfl⟩

theorem Write.LeavesMessages.apply {x : Write} (hx : x.LeavesMessages) {p : Platform}
    (hI : Inv maxAttempts p) : Inv maxAttempts (x.apply p) ∧ Evolves p (x.apply p) := by
  rcases hx with hx | ⟨message, rfl⟩
  · cases x with
    | insertOutbox message =>
        obtain ⟨hunpublished, huntried⟩ := hx
        have hrows : (Write.apply (.insertOutbox message) p).db.outbox = p.db.outbox.insert message :=
          rfl
        refine ⟨fun m hm => ?_, ⟨fun id a ha => ⟨a, ?_, .refl a⟩, List.prefix_rfl⟩⟩
        · rw [hrows, Table.mem_insert] at hm
          rcases hm with hm | ⟨-, rfl⟩
          · exact hI m hm
          · simp [hunpublished, huntried]
        · rw [hrows, Table.get?_insert]
          split
          · next hid =>
            rw [ha]
            rfl
          · exact ha
    | updateOutbox => exact hx.elim
    | insertProcessed => exact hx.elim
    | _ => exact ⟨hI, .of_outbox rfl List.prefix_rfl⟩
  · exact ⟨hI, .of_outbox rfl List.prefix_rfl⟩

theorem leavesMessages_applyAll {ws : List Write} (h : ∀ x ∈ ws, x.LeavesMessages) {p : Platform}
    (hI : Inv maxAttempts p) :
    Inv maxAttempts (storage.applyAll p ws) ∧ Evolves p (storage.applyAll p ws) := by
  induction ws generalizing p with
  | nil => exact ⟨hI, .refl p⟩
  | cons x ws ih =>
      obtain ⟨hI', hx⟩ := (h x (by simp)).apply hI
      obtain ⟨hI'', hws⟩ := ih (fun y hy => h y (by simp [hy])) hI'
      exact ⟨hI'', hx.trans hws⟩

theorem evolves_perform (c : Call) (i : Input) {p : Platform} (hI : Inv maxAttempts p) :
    Evolves p (c.perform i p) ∧ Inv maxAttempts (c.perform i p) := by
  have hdb := Call.perform_db c i p
  have htopic : p.topic <+: (c.perform i p).topic := by
    cases c with
    | publish e => exact topic_publish e i p
    | execute | pause => exact List.prefix_rfl
    | put key data =>
        simp only [Call.perform]
        split <;> exact List.prefix_rfl
  exact ⟨.of_outbox (by rw [hdb]) htopic, hI.of_topic hdb htopic⟩

/-! ### The contract -/

/-- What a dispatcher is about to hand to the broker stands in a row that it
has locked, and that is not published and has attempts left. -/
def Claims (maxAttempts : ℕ) (st : Stmt Platform RowKey Write Call) (t : Session) (p : Platform) :
    Prop :=
  ∀ e, st = .call (.publish e) → ∃ m, m.envelope = e ∧ RowKey.outbox m.id ∈ t.locks ∧
    p.db.outbox.get? m.id = some m ∧ m.publishedAt = none ∧ m.publishAttempts < maxAttempts

theorem Claims.of_ne {st : Stmt Platform RowKey Write Call} {t : Session} {p : Platform}
    (h : ∀ e, st ≠ .call (.publish e)) : Claims maxAttempts st t p := fun e he => absurd he (h e)

/-- Whether the session is a dispatcher. -/
def Kind.dispatches : Kind → Bool
  | dispatchBatch .. => true
  | _ => false

/-- All sessions let the outbox go on; dispatchers send what they may. -/
def dispatching (maxAttempts : ℕ) (κ : Kind) :
    Contract Platform RowKey Write Call Input Point where
  rely _ _ := Evolves
  guar _ _ := Evolves
  need st t p := κ.dispatches → Claims maxAttempts st t p
  rely_refl := .refl _
  rely_trans := .trans

/-- A part of a dispatcher's program that keeps the contract. -/
abbrev Dispatches {α : Type} (maxAttempts limit : ℕ) (Q : Except Exc α → Session → Platform → Prop) :
    Program α → Session → Platform → Prop :=
  Sound storage (Inv maxAttempts) (dispatching maxAttempts (.dispatchBatch limit maxAttempts)) Q

section Batches

variable {t : Session} {p : Platform} {held messages : List OutboxMessage} {limit : ℕ}

/-- The rows of a batch, all of them locked and as they were loaded. -/
structure Holding (maxAttempts : ℕ) (t : Session) (p : Platform) (held : List OutboxMessage) :
    Prop where
  writes : t.writes = []
  locked : ∀ m ∈ held, RowKey.outbox m.id ∈ t.locks
  stored : ∀ m ∈ held, p.db.outbox.get? m.id = some m
  eligible : ∀ m ∈ held, m.publishedAt = none ∧ m.publishAttempts < maxAttempts

theorem Holding.meanwhile (h : Holding maxAttempts t p held) {p' : Platform}
    {C : Contract Platform RowKey Write Call Input Point} {pt : Point}
    (hp' : Interferes storage (Inv maxAttempts) C pt t p p') : Holding maxAttempts t p' held where
  writes := h.writes
  locked := h.locked
  stored m hm := (hp'.locked _ (h.locked m hm)).symm.trans (h.stored m hm)
  eligible := h.eligible

/-- A call changes nothing the dispatcher holds. -/
theorem Holding.call (h : Holding maxAttempts t p held) (c : Call) (i : Input) :
    Holding maxAttempts (t.record c) (c.perform i p) held where
  writes := h.writes
  locked := h.locked
  stored m hm := by
    rw [Call.perform_db]
    exact h.stored m hm
  eligible := h.eligible

theorem Dispatcher.Settles.mono {topic topic' : List EventEnvelope} {m : OutboxMessage} {w : Write}
    (h : Settles topic m w) (htopic : topic <+: topic') : Settles topic' m w := by
  cases h with
  | accepted now h => exact .accepted now (htopic.mem h)
  | refused error => exact .refused error

theorem publishMessages_sound {Q : Except Exc (ℕ × List Write) → Session → Platform → Prop}
    (hheld : Holding maxAttempts t p held) (hsub : messages ⊆ held)
    (h : ∀ p' t' n pending done, Holding maxAttempts t' p' held → p.topic <+: p'.topic →
      done <+: messages → List.Forall₂ (Settles p'.topic) done pending → Q (.ok (n, pending)) t' p') :
    Dispatches maxAttempts limit Q (publishMessages messages) t p := by
  induction messages generalizing Q t p with
  | nil => exact h p t 0 [] [] hheld List.prefix_rfl List.prefix_rfl .nil
  | cons m rest ih =>
      obtain ⟨hm, hrest⟩ := List.cons_subset.mp hsub
      refine Sound.bind (Sound.stmt fun p₁ hp₁ => ⟨fun _ e he => ?_, fun i => ?_⟩)
      · cases he
        have hheld₁ := hheld.meanwhile hp₁
        exact ⟨m, rfl, hheld₁.locked m hm, hheld₁.stored m hm, hheld₁.eligible m hm⟩
      obtain ⟨hevolves, hinv⟩ := evolves_perform (.publish m.envelope) i hp₁.inv
      refine ⟨hevolves, hinv, ?_⟩
      have hheld₁ := (hheld.meanwhile hp₁).call (.publish m.envelope) i
      have htopic := hp₁.rely.topic.trans hevolves.topic
      dsimp only [Except.map]
      split
      · exact h _ _ _ _ [m] hheld₁ htopic (by simp) (.cons (.refused _) .nil)
      · next hok =>
        have haccepted : m.envelope ∈ (Call.perform (.publish m.envelope) i p₁).topic := by
          simp [Call.perform, hok]
        refine Sound.bind (Sound.stmt fun p₂ hp₂ => ⟨fun _ => .of_ne (by simp), fun j => ?_⟩)
        obtain ⟨hevolves', hinv'⟩ := evolves_perform .pause j hp₂.inv
        refine ⟨hevolves', hinv', ?_⟩
        refine Sound.bind (ih ((hheld₁.meanwhile hp₂).call .pause j) hrest ?_)
        intro p' t' n pending done hheld' htopic' hdone hsettled
        have hgrown := (hp₂.rely.topic.trans hevolves'.topic).trans htopic'
        exact h p' t' _ _ (m :: done) hheld' (htopic.trans hgrown)
          ((List.prefix_cons_inj m).mpr hdone) (.cons (.accepted _ (hgrown.mem haccepted)) hsettled)

theorem dispatchBatch_sound (limit : ℕ) (p : Platform) :
    Dispatches maxAttempts limit (fun _ _ _ => True) (dispatchBatch limit maxAttempts) .fresh p := by
  refine Sound.bind (Sound.stmt fun p₁ hp₁ => ⟨fun _ => .of_ne (by simp), trivial, fun i free => ?_⟩)
  simp only [Except.map, if_true, Session.view_fresh]
  generalize hmessages : p₁.db.unpublished limit maxAttempts (fun m => free (.outbox m.id)) = messages
  have hmem {m : OutboxMessage} (hm : m ∈ messages) := mem_unpublished (hmessages ▸ hm)
  have hnodup : (messages.map OutboxMessage.id).Nodup := hmessages ▸ nodup_unpublished p₁ _ _ _
  have hheld : Holding maxAttempts ((Session.begin .fresh i).lock
      (messages.map fun m => RowKey.outbox m.id)) p₁ messages := by
    refine ⟨rfl, fun m hm => ?_, fun m hm => Table.get?_of_mem (hmem hm).1, fun m hm => (hmem hm).2⟩
    exact List.mem_append_left _ (List.mem_map_of_mem hm)
  refine Sound.bind (publishMessages_sound hheld (List.Subset.refl _) ?_)
  intro p₂ t n pending done hheld₂ _ hdone hsettled
  have hpending (i : Input) : t.stamped storage i pending = pending := by
    refine (List.map_congr_left fun w hw => ?_).trans (List.map_id _)
    obtain ⟨m, -, hm⟩ := exists_of_mem_right hsettled hw
    exact settles_stamp hm _
  refine Sound.bind (Sound.bind (Sound.stmt fun p₃ hp₃ =>
    ⟨fun _ => .of_ne (by simp), trivial, fun j => ⟨fun _ _ => trivial, fun _ => ?_⟩⟩))
  refine Sound.stmt fun p₄ hp₄ => ⟨fun _ => .of_ne (by simp), trivial, ?_⟩
  have hlocked : ∀ m ∈ messages, p₄.db.outbox.get? m.id = some m := by
    intro m hm
    have hlock : RowKey.outbox m.id ∈ ((t.begin j).write storage (t.stamped storage j pending)).locks :=
      List.mem_append_right _ (hheld₂.locked m hm)
    exact (hp₄.locked _ hlock).symm.trans ((hheld₂.meanwhile hp₃).stored m hm)
  have hworks : Works maxAttempts p₄ (storage.applyAll p₄ pending) := by
    have hsettled₄ : List.Forall₂ (Settles p₄.topic) done pending :=
      hsettled.imp fun _ _ h => h.mono (hp₃.rely.topic.trans hp₄.rely.topic)
    refine settled_works hsettled₄ rfl ?_ (fun m hm => ?_) fun m hm => ?_
    · exact (hdone.sublist.map _).nodup hnodup
    · exact Table.mem_of_get? (hlocked m (hdone.mem hm))
    · exact (hmem (hdone.mem hm)).2
  have hview : ((t.begin j).write storage (t.stamped storage j pending)).view storage p₄ =
      storage.applyAll p₄ pending := by
    simp [Session.view, hheld₂.writes, hpending]
  obtain ⟨hinv, hgoes⟩ := hworks hp₄.inv
  rw [hview]
  exact ⟨.of_goes hgoes, hinv, fun _ => trivial⟩

end Batches

/-! ### All sessions together -/

theorem leavesMessages_covers : Covers .any Write.LeavesMessages := fun _ _ h => .inl h

theorem code_dispatching (κ : Kind) (p : Platform) (hκ : κ.configured maxAttempts) :
    Sound storage (Inv maxAttempts) (dispatching maxAttempts κ) (fun _ _ _ => True)
      (κ.code rt settings) .fresh p := by
  by_cases hdispatches : κ.dispatches
  · cases κ with
    | dispatchBatch limit n =>
        obtain rfl : n = maxAttempts := of_decide_eq_true hκ
        refine Sound.bind ((dispatchBatch_sound limit p).mono fun outcome t p _ => ?_)
        cases outcome <;> exact trivial
    | _ => cases hdispatches
  · have hstores : Stores .any Write.LeavesMessages (fun _ => True) (κ.code rt settings) :=
      stores_code leavesMessages_covers (fun _ _ _ _ => trivial) (fun _ _ _ _ _ _ _ => trivial)
        (fun _ _ => trivial) (fun _ _ _ _ => .inr ⟨_, rfl⟩)
        fun _ _ heq => absurd (heq ▸ rfl) hdispatches
    refine (hstores.sound leavesMessages_stamp (fun _ _ _ _ => noted_any _) (fun _ _ => noted_any _)
      (fun _ _ _ h => absurd h hdispatches) (fun _ t p hI ht => ?_) (fun _ _ p c i hI => ?_)
      (by simp) p).mono fun _ _ _ _ => trivial
    · exact (leavesMessages_applyAll ht hI).symm
    · exact evolves_perform c i hI

theorem Deployed.okDispatching {w : Cluster} (h : Deployed rt settings maxAttempts templates w) :
    w.Ok (deployed rt settings maxAttempts) (Inv maxAttempts) (dispatching maxAttempts) :=
  Reach.ok (fun κ p _ hadmits => code_dispatching κ p hadmits.2)
    (fun _ _ _ _ _ _ _ _ _ _ _ hguar _ _ _ _ _ _ => hguar) (by rintro m ⟨⟩) h

/-- One step of the deployed system lets the outbox go on. -/
theorem Deployed.evolves {w w' : Cluster} (h : Deployed rt settings maxAttempts templates w)
    (h' : Reach (deployed rt settings maxAttempts) (fun _ _ _ => True) w w') :
    Evolves w.state w'.state := by
  suffices Deployed rt settings maxAttempts templates w' ∧ Evolves w.state w'.state from this.2
  induction h' with
  | refl => exact ⟨h, .refl _⟩
  | step _ hstep _ ih =>
      obtain ⟨hbefore, hevolves⟩ := ih
      refine ⟨.step hbefore hstep trivial, ?_⟩
      rcases hbefore.okDispatching.guar hstep with heq | ⟨_, _, _, _, -, -, -, hguar⟩
      · rwa [heq]
      · exact hevolves.trans hguar

/-- What the session is about to hand to the broker. -/
def sends (q : Process) : Option EventEnvelope :=
  match q.prog with
  | .step _ (.call (.publish e)) _ => some e
  | _ => none

theorem prog_of_sends {q : Process} {e : EventEnvelope} (h : sends q = some e) :
    ∃ pt next, q.prog = .step pt (.call (.publish e)) next := by
  unfold sends at h
  split at h
  case h_1 pt e' next hprog => exact ⟨pt, next, Option.some.inj h ▸ hprog⟩
  case h_2 => cases h

/-- With any number of dispatchers and all other sessions interleaved: attempts
are bounded, published is what the broker has accepted, the broker has nothing
that no row announces, and no row is lost or goes back. What a dispatcher
sends stands in an unpublished row with attempts left, which it has locked and
no other session has. -/
theorem dispatchers_apart {w : Cluster} (h : Deployed rt settings maxAttempts templates w) :
    (∀ m ∈ w.state.db.outbox.rows, m.publishAttempts ≤ maxAttempts ∧
      (m.publishedAt.isSome → m.envelope ∈ w.state.topic)) ∧
    (∀ e ∈ w.state.topic, ∃ m ∈ w.state.db.outbox.rows, m.envelope = e) ∧
    (∀ w', Reach (deployed rt settings maxAttempts) (fun _ _ _ => True) w w' →
      ∀ m ∈ w.state.db.outbox.rows, ∃ m' ∈ w'.state.db.outbox.rows, m.Advances m') ∧
    ∀ (pid : ℕ) (q : Process) (e : EventEnvelope), w.procs[pid]? = some q → q.kind.dispatches →
      sends q = some e → ∃ m ∈ w.state.db.outbox.rows, m.envelope = e ∧ m.publishedAt = none ∧
        m.publishAttempts < maxAttempts ∧ RowKey.outbox m.id ∈ q.session.locks ∧
        ∀ (j : ℕ) (q' : Process), w.procs[j]? = some q' → j ≠ pid →
          RowKey.outbox m.id ∉ q'.session.locks := by
  have hok := h.okDispatching
  refine ⟨hok.inv, fun e he => ?_, fun w' h' m hm => ?_, fun pid q e hq hdispatches hsends => ?_⟩
  · obtain ⟨r, hr⟩ := h.reachable.inv.topic e he
    exact List.mem_map.mp (List.mem_filter.mp hr).1
  · obtain ⟨m', hm', hadvances⟩ := (h.evolves h').rows m.id m (Table.get?_of_mem hm)
    exact ⟨m', Table.mem_of_get? hm', hadvances⟩
  · obtain ⟨pt, next, hprog⟩ := prog_of_sends hsends
    obtain ⟨m, hm, hlocked, hstored, hunpublished, hattempts⟩ :=
      hok.need hq hprog hdispatches e rfl
    refine ⟨m, Table.mem_of_get? hstored, hm, hunpublished, hattempts, hlocked, fun j q' hq' hj => ?_⟩
    exact hok.disjoint pid j q q' hq hq' (Ne.symm hj) _ hlocked

end Deployment

namespace Demo

def execDeployed (as : List (Action Kind Input)) : Option Cluster :=
  (World.initial (.empty templates)).exec (deployed runtime settings 5) as

theorem reachableDeployed {as : List (Action Kind Input)} {P : Cluster → Bool}
    (h : (execDeployed as).any P) : ∃ w, Deployed runtime settings 5 templates w ∧ P w := by
  obtain ⟨w, hw, hP⟩ := (Option.any_eq_true _ _).mp h
  exact ⟨w, Reach.refl.of_exec hw, hP⟩

/-- Two runs are submitted, and two dispatchers have each loaded one message. -/
def twoDispatchers : List (Action Kind Input) :=
  .spawn (.createRun slow 5 requestId) :: steps 0 100 10 ++
    .spawn (.createRun slow 5 requestId) :: steps 1 200 10 ++
    .spawn (.dispatchBatch 1 5) :: steps 2 300 1 ++ .spawn (.dispatchBatch 1 5) :: steps 3 400 1

end Demo

theorem dispatchers_apart_two : ∃ w, Deployed Demo.runtime Demo.settings 5 Demo.templates w ∧
    ∃ q q' e e', w.procs[2]? = some q ∧ w.procs[3]? = some q' ∧ sends q = some e ∧
      sends q' = some e' ∧ e ≠ e' ∧ ∃ m ∈ w.state.db.outbox.rows, m.envelope = e ∧
        RowKey.outbox m.id ∉ q'.session.locks := by
  have h : (Demo.execDeployed Demo.twoDispatchers).any fun w =>
      (w.procs[2]?).any fun q => (w.procs[3]?).any fun q' => q.kind.dispatches ∧
        (sends q).any fun e => (sends q').any fun e' => e ≠ e' := by decide +kernel
  obtain ⟨w, hw, hlast⟩ := Demo.reachableDeployed h
  obtain ⟨q, hq, hlast⟩ := (Option.any_eq_true _ _).mp hlast
  obtain ⟨q', hq', hlast⟩ := (Option.any_eq_true _ _).mp hlast
  obtain ⟨hdispatches, hlast⟩ := of_decide_eq_true hlast
  obtain ⟨e, he, hlast⟩ := (Option.any_eq_true _ _).mp hlast
  obtain ⟨e', he', hne⟩ := (Option.any_eq_true _ _).mp hlast
  obtain ⟨m, hm, henvelope, -, -, -, hother⟩ := (dispatchers_apart hw).2.2.2 2 q e hq hdispatches he
  exact ⟨w, hw, q, q', e, e', hq, hq', he, he', of_decide_eq_true hne, m, hm, henvelope,
    hother 3 q' hq' (by decide)⟩

end Runscope
