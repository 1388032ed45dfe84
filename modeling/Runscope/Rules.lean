import Runscope.Contract

/-!
The rules of `Transact.Logic` for the statements of `Program.lean`, under the
contract of the system.

Where a statement raises, `Fails` takes over: it says that the postcondition
allows any exception from here on.
-/

namespace Runscope

open Transact

variable {α β : Type} {m : Mode} {κ : Kind}

abbrev Outcome (α : Type) := Except Exc α → Session → Platform → Prop

abbrev Holds (m : Mode) (κ : Kind) (Q : Outcome α) (c : Program α) : Session → Platform → Prop :=
  Sound storage (Invariant m) (contract m κ) Q c

abbrev Meanwhile (m : Mode) (κ : Kind) : Point → Session → Platform → Platform → Prop :=
  Interferes storage (Invariant m) (contract m κ)

/-- Every run has lived on. -/
def Later (p p' : Platform) : Prop :=
  ∀ r, Lives (fun _ => True) (p.db.runView r) (p'.db.runView r)

theorem Later.refl (p : Platform) : Later p p := fun _ => .refl

theorem Later.trans {p₁ p₂ p₃ : Platform} (h₁ : Later p₁ p₂) (h₂ : Later p₂ p₃) : Later p₁ p₃ :=
  fun r => (h₁ r).trans (h₂ r)

theorem Later.of_meanwhile {pt : Point} {t : Session} {p p' : Platform}
    (h : Meanwhile m κ pt t p p') : Later p p' := h.rely.runs

theorem Later.of_guarantees {t : Session} {p p' : Platform} (h : Guarantees m κ t p p') :
    Later p p' := fun r => (h.runs r).lives.mono fun _ _ => trivial

/-- Any exception is fine from here on. -/
def Fails (m : Mode) (Q : Outcome α) (p : Platform) : Prop :=
  ∀ e t p', Invariant m p' → Later p p' → Q (.error e) t p'

theorem Fails.later {Q : Outcome α} {p p' : Platform} (h : Fails m Q p) (hp : Later p p') :
    Fails m Q p' := fun e t p'' hI hp' => h e t p'' hI (hp.trans hp')

theorem Fails.of_forall {Q : Outcome α} (h : ∀ x t p, Q x t p) (p : Platform) : Fails m Q p :=
  fun _ _ _ _ _ => h _ _ _

theorem WorkerView.Shrinks.refl (v : WorkerView) : v.Shrinks v := ⟨rfl, List.Sublist.refl _⟩

/-- What leaves the database alone owes nothing but the objects it stores. -/
theorem Guarantees.of_db_eq {t : Session} {p p' : Platform} (h : p'.db = p.db)
    (hown : ∀ r, Untouched r p p' ∨ 0 < startsOf r t.committed)
    (hkept : m.exclusive → ∀ a ∈ p.db.artifacts, p'.content a.storageKey = p.content a.storageKey) :
    Guarantees m κ t p p' where
  runs r := h ▸ .refl
  workers _ _ := .inl (by rw [h])
  room _ id := .inr (.inr (h ▸ .refl _))
  records _ _ _ := by rw [h]
  templates := by rw [h]
  parameters _ _ := by rw [h]
  founded r run hnone hsome := by simp [h, hnone] at hsome
  frame _ _ _ := by rw [h]
  own := hown
  kept := hkept

/-- A call touches the run it stores an object of, and no other. -/
theorem Untouched.perform {c : Call} {r : Uuid} (hc : ∀ key data, c = .put key data → key.1 ≠ r)
    (i : Input) (p : Platform) : Untouched r p (c.perform i p) where
  records := by rw [c.perform_db i p]
  content name := by
    cases c with
    | put key data =>
        have hkey : ¬ (r, name) = key := fun h => hc key data rfl (h ▸ rfl)
        simp only [Call.perform, Platform.content]
        split
        · rfl
        · rw [lastWritten_append, if_neg hkey]
    | publish event =>
        simp only [Call.perform, Platform.content]
        split <;> rfl
    | execute | pause => rfl

/-- As long as nothing is stored for a run with artifacts, what their rows
describe stays. -/
theorem Invariant.kept {c : Call} {p : Platform} (hI : Invariant m p)
    (hput : ∀ key data, c = .put key data → m.exclusive → ∀ a ∈ p.db.artifacts, a.runId ≠ key.1)
    (i : Input) (hm : m.exclusive) (a : Artifact) (ha : a ∈ p.db.artifacts) :
    (c.perform i p).content a.storageKey = p.content a.storageKey := by
  have huntouched : Untouched a.runId p (c.perform i p) :=
    .perform (fun key data hkey => (hput key data hkey hm a ha).symm) i p
  have hsame := huntouched.content a.name
  rwa [← (hI.artifacts hm a ha).2.storageKey] at hsame

/-- The invariant speaks of the database, and of what was sent and stored. -/
theorem Invariant.of_db_eq {p p' : Platform} (hI : Invariant m p) (hdb : p'.db = p.db)
    (htopic : ∀ e ∈ p'.topic, ∃ r, e ∈ p.db.messagesOf r)
    (hcontent : m.exclusive → ∀ a ∈ p.db.artifacts,
      p'.content a.storageKey = p.content a.storageKey) : Invariant m p' where
  runs := hdb ▸ hI.runs
  tokens := hdb ▸ hI.tokens
  addressed := hdb ▸ hI.addressed
  topic := hdb ▸ htopic
  capacity := hdb ▸ hI.capacity
  parented := hdb ▸ hI.parented
  parameterized := hdb ▸ hI.parameterized
  parameters := hdb ▸ hI.parameters
  artifacts hm a ha := by
    rw [hdb] at ha ⊢
    obtain ⟨hfinished, hdescribed⟩ := hI.artifacts hm a ha
    exact ⟨hfinished, hdescribed.storageKey, (hcontent hm a ha).symm ▸ hdescribed.content⟩

theorem Needs.of_ne {st : Stmt Platform RowKey Write Call} {t : Session} {p : Platform}
    (hflush : ∀ ws, st ≠ .flush ws) (hcall : ∀ r, st ≠ .call (.execute r)) : Needs st t p where
  activeRun ws h := absurd h (hflush ws)
  execute r h := absurd h (hcall r)

/-- The unique index speaks of inserted leases only. -/
theorem firstError_ne_activeRun {ws : List Write} (hws : ∀ a, .insertAllocation a ∉ ws)
    (p : Platform) :
    storage.firstError p ws ≠ some (.integrity "uq_resource_allocations_active_run") := by
  induction ws generalizing p with
  | nil => simp
  | cons w ws ih =>
      have hrest := ih (fun a ha => hws a (by simp [ha])) (storage.apply w p)
      have hw : w.check p ≠ some (.integrity "uq_resource_allocations_active_run") := by
        cases w with
        | insertAllocation a => exact absurd (by simp) (hws a)
        | insertMetric | insertEvent => simp [Write.check]
        | _ => simp only [Write.check]; split_ifs <;> simp
      rw [Storage.firstError]
      split
      · next e he => exact fun h => hw (he.trans h)
      · exact hrest

/-- Nothing has happened in the session but reads of the clock and the like. -/
structure Idle (t t' : Session) : Prop where
  locks : t'.locks = t.locks
  writes : t'.writes = t.writes
  began : t'.began = t.began
  committed : t'.committed = t.committed
  executes : ∀ r, executesOf r t'.called = executesOf r t.called

theorem Idle.trans {t₁ t₂ t₃ : Session} (h₁ : Idle t₁ t₂) (h₂ : Idle t₂ t₃) : Idle t₁ t₃ :=
  ⟨h₂.locks.trans h₁.locks, h₂.writes.trans h₁.writes, h₂.began.trans h₁.began,
    h₂.committed.trans h₁.committed, fun r => (h₂.executes r).trans (h₁.executes r)⟩

theorem Idle.record (t : Session) : Idle t (t.record .pause) :=
  ⟨rfl, rfl, rfl, rfl, fun r => by simp [executesOf]⟩

/-- What is relied on does not depend on idling. -/
theorem Idle.meanwhile {t t' : Session} (h : Idle t t') {pt : Point} {p p' : Platform}
    (hp : Meanwhile m κ pt t' p p') : Meanwhile m κ pt t p p' where
  inv := hp.inv
  rely := ⟨hp.rely.runs, fun hm ht => hp.rely.loaded hm (h.began ▸ ht),
    fun hm ht => hp.rely.totals hm (h.began ▸ ht),
    fun hm id hid => hp.rely.locked hm id (h.locks ▸ hid), hp.rely.records, hp.rely.templates,
    hp.rely.parameters, fun hm r hr => hp.rely.own hm r (h.committed ▸ hr)⟩
  locked r hr := hp.locked r (h.locks ▸ hr)
  owned := h.writes ▸ h.locks ▸ hp.owned
  accepted := h.writes ▸ hp.accepted

/-! ### Statements, each followed by the rest of the program -/

section Statements

variable {pt : Point} {Q : Outcome β} {t : Session} {p : Platform}

theorem Holds.select {query : Db → α} {k : α → Program β} (hf : Fails m Q p)
    (h : ∀ p' i, Meanwhile m κ pt t p p' →
      Holds m κ Q (k (query (t.view storage p').db)) (t.begin i) p') :
    Holds m κ Q (session.select pt query >>= k) t p := by
  refine Sound.bind (Sound.stmt fun p' hp' => ⟨Needs.of_ne (by simp) (by simp), ?_, fun i => ?_⟩)
  · exact hf _ _ _ hp'.inv (.of_meanwhile hp')
  · exact h p' i hp'

theorem Holds.selectForUpdate {skip : Bool} {key : α → RowKey}
    {query : Db → (α → Bool) → List α} {k : List α → Program β} (hf : Fails m Q p)
    (h : ∀ p' i (free : α → Bool), Meanwhile m κ pt t p p' →
      Holds m κ Q (k (query (t.view storage p').db free))
        ((t.begin i).lock ((query (t.view storage p').db free).map key)) p') :
    Holds m κ Q (session.selectForUpdate pt skip key query >>= k) t p := by
  refine Sound.bind (Sound.stmt fun p' hp' =>
    ⟨Needs.of_ne (by simp) (by simp), ?_, fun i free => ?_⟩)
  · exact hf _ _ _ hp'.inv (.of_meanwhile hp')
  · exact h p' i _ hp'

theorem Holds.flush {pending : List Write} {k : Unit → Program β} (hf : Fails m Q p)
    (hactive : ∀ p' i, Meanwhile m κ pt t p p' →
      storage.firstError (t.view storage p') (t.stamped storage i pending) ≠
        some (.integrity "uq_resource_allocations_active_run"))
    (h : ∀ p' i, Meanwhile m κ pt t p p' →
      storage.firstError (t.view storage p') (t.stamped storage i pending) = none →
      Holds m κ Q (k ()) ((t.begin i).write storage (t.stamped storage i pending)) p') :
    Holds m κ Q (session.flush pt pending >>= k) t p := by
  refine Sound.bind (Sound.stmt fun p' hp' => ⟨⟨?_, by simp⟩, ?_, fun i => ⟨fun e he => ?_, ?_⟩⟩)
  · rintro _ ⟨⟩ i
    exact hactive p' i hp'
  · exact hf _ _ _ hp'.inv (.of_meanwhile hp')
  · exact hf _ _ _ hp'.inv (.of_meanwhile hp')
  · exact h p' i hp'

theorem stamped_not_insertAllocation {pending : List Write}
    (hp : ∀ a, .insertAllocation a ∉ pending) (t : Session) (i : Input) (a : ResourceAllocation) :
    .insertAllocation a ∉ t.stamped storage i pending := by
  simp only [Session.stamped, List.mem_map, not_exists, not_and]
  intro w hw heq
  have : w = .insertAllocation a := by
    cases w <;> simp_all [storage, Write.stamp]
  exact hp a (this ▸ hw)

/-- A flush that inserts no lease. -/
theorem Holds.flush' {pending : List Write} {k : Unit → Program β} (hf : Fails m Q p)
    (hactive : ∀ a, .insertAllocation a ∉ pending)
    (h : ∀ p' i, Meanwhile m κ pt t p p' →
      storage.firstError (t.view storage p') (t.stamped storage i pending) = none →
      Holds m κ Q (k ()) ((t.begin i).write storage (t.stamped storage i pending)) p') :
    Holds m κ Q (session.flush pt pending >>= k) t p :=
  .flush hf (fun _ i _ => firstError_ne_activeRun (stamped_not_insertAllocation hactive t i) _) h

theorem Holds.rollback {k : Unit → Program β} (hf : Fails m Q p)
    (h : ∀ p', Meanwhile m κ pt t p p' → Holds m κ Q (k ()) t.close p') :
    Holds m κ Q (session.rollback pt >>= k) t p := by
  refine Sound.bind (Sound.stmt fun p' hp' => ⟨Needs.of_ne (by simp) (by simp), ?_, fun i => ?_⟩)
  · exact hf _ _ _ hp'.inv (.of_meanwhile hp')
  · exact h p' hp'

/-- A flush of what is pending, then the commit of everything. -/
theorem Holds.commit {pending : List Write} {k : Unit → Program β} (hf : Fails m Q p)
    (hactive : ∀ a, .insertAllocation a ∉ pending)
    (h : ∀ p₁ p₂ i, Meanwhile m κ pt t p p₁ →
      storage.firstError (t.view storage p₁) (t.stamped storage i pending) = none →
      Meanwhile m κ pt ((t.begin i).write storage (t.stamped storage i pending)) p₁ p₂ →
      let t' := (t.begin i).write storage (t.stamped storage i pending)
      Guarantees m κ t' p₂ (t'.view storage p₂) ∧ Invariant m (t'.view storage p₂) ∧
        Holds m κ Q (k ()) t'.finish (t'.view storage p₂)) :
    Holds m κ Q (session.commit pt pending >>= k) t p := by
  refine Sound.bind (Holds.flush' (fun e t' p' hI hp' => hf e t' p' hI hp') hactive ?_)
  intro p₁ i hp₁ hacc
  refine Sound.stmt fun p₂ hp₂ => ⟨Needs.of_ne (by simp) (by simp), ?_, ?_⟩
  · exact hf _ _ _ hp₂.inv ((Later.of_meanwhile hp₁).trans (.of_meanwhile hp₂))
  · obtain ⟨hguar, hinv, hk⟩ := h p₁ p₂ i hp₁ hacc hp₂
    exact ⟨hguar, hinv, fun _ => hk⟩

/-- A call with nothing to lose: it leaves the database alone, and objects
are stored by the executor of their run. -/
theorem Holds.call {c : Call} {f : Reply Platform RowKey Input → α} {k : α → Program β}
    (hput : ∀ key data, c = .put key data → 0 < startsOf key.1 t.committed ∧
      ∀ p', Meanwhile m κ pt t p p' → m.exclusive → ∀ a ∈ p'.db.artifacts, a.runId ≠ key.1)
    (hneed : ∀ p', Meanwhile m κ pt t p p' → Needs (.call c) t p')
    (hinv : ∀ p' i, Meanwhile m κ pt t p p' → Invariant m (c.perform i p'))
    (h : ∀ p' i, Meanwhile m κ pt t p p' →
      Holds m κ Q (k (f ⟨t.view storage (c.perform i p'), fun _ => true, i⟩)) (t.record c)
        (c.perform i p')) :
    Holds m κ Q (Prog.stmt pt (.call c) f >>= k) t p := by
  refine Sound.bind (Sound.stmt fun p' hp' => ⟨hneed p' hp', fun i => ⟨?_, hinv p' i hp', ?_⟩⟩)
  · refine .of_db_eq (c.perform_db i p') (fun r => ?_)
      (hp'.inv.kept (fun key data hc => (hput key data hc).2 p' hp') i)
    by_cases hr : ∃ key data, c = .put key data ∧ key.1 = r
    · obtain ⟨key, data, hc, rfl⟩ := hr
      exact .inr (hput key data hc).1
    · exact .inl (.perform (fun key data hc hkey => hr ⟨key, data, hc, hkey⟩) i p')
  · exact h p' i hp'

theorem Holds.pause {f : Reply Platform RowKey Input → α} {k : α → Program β}
    (h : ∀ p' t' x, Idle t t' → Meanwhile m κ pt t p p' → Holds m κ Q (k (f x)) t' p') :
    Holds m κ Q (Prog.stmt pt (.call .pause) f >>= k) t p :=
  .call (by simp) (fun _ _ => .of_ne (by simp) (by simp)) (fun _ _ hp' => hp'.inv)
    fun p' _ hp' => h p' _ _ (.record t) hp'

theorem Holds.datetimeNow {k : Time → Program β}
    (h : ∀ p' t' now, Idle t t' → Meanwhile m κ pt t p p' → Holds m κ Q (k now) t' p') :
    Holds m κ Q (Runscope.datetimeNow pt >>= k) t p :=
  .pause fun p' t' _ ht' hp' => h p' t' _ ht' hp'

theorem Holds.uuid4 {k : Uuid → Program β}
    (h : ∀ p' t' id, Idle t t' → Meanwhile m κ pt t p p' → Holds m κ Q (k id) t' p') :
    Holds m κ Q (Runscope.uuid4 pt >>= k) t p :=
  .pause fun p' t' _ ht' hp' => h p' t' _ ht' hp'

/-- A computation that may raise. -/
theorem Holds.ofExcept {x : Except Exc α} {k : α → Program β} (hf : Fails m Q p)
    (hI : Invariant m p) (h : ∀ a, x = .ok a → Holds m κ Q (k a) t p) :
    Holds m κ Q (Prog.ofExcept x >>= k) t p := by
  cases x with
  | ok a => exact h a rfl
  | error e => exact hf e t p hI (.refl p)

end Statements

/-- The outcome of a part of a program from which the rest `k` holds. -/
def Then (m : Mode) (κ : Kind) (Q : Outcome β) (k : α → Program β) : Outcome α
  | .ok a, t, p => Holds m κ Q (k a) t p
  | .error e, t, p => Q (.error e) t p

/-- A part of a program, then the rest. -/
theorem Holds.bind {Q : Outcome β} {c : Program α} {k : α → Program β} {t : Session} {p : Platform}
    (h : Holds m κ (Then m κ Q k) c t p) : Holds m κ Q (c >>= k) t p :=
  Sound.bind (Sound.mono (fun x _ _ hx => by cases x <;> exact hx) h)

theorem Fails.then {Q : Outcome β} {k : α → Program β} {p : Platform} (h : Fails m Q p) :
    Fails m (Then m κ Q k) p := fun e t p' hI hp' => h e t p' hI hp'

end Runscope
