import Runscope.Transact.Turn
import Runscope.Transact.Writes

/-!
What a session that runs alone comes to see.

`Yields` asks for a value and for a turn satisfying the postcondition. An
exception is excused by a lost connection, or by `fails`: with `False` for
`fails` the program returns, with `True` nothing is said where it raises. The
rules give the next turn by what the session sees there and by the moment it
adds to the past.
-/

namespace Transact

variable {S Row Write Call Input Exc Point α β : Type}
variable (σ : Storage S Row Write Call Input Exc) (env : Surroundings S Row Write Call Input)

/-- After the statement `st` at `r` the session stands at `r'` and sees `v`. -/
structure Turn.Next (r : Turn S Row Write Call Input) (st : Stmt S Row Write Call)
    (r' : Turn S Row Write Call Input) (v : S) : Prop where
  past : r'.past = r.past ++ [⟨st, r.session, r.state⟩]
  view : r'.view σ = v

/-- The moments from `r` to `r'` satisfy `P`. -/
def Turn.Since (P : Moment S Row Write Call Input → Prop) (r r' : Turn S Row Write Call Input) :
    Prop :=
  ∃ new, r'.past = r.past ++ new ∧ ∀ m ∈ new, P m

namespace Turn.Since

variable {P : Moment S Row Write Call Input → Prop} {r₁ r₂ r₃ : Turn S Row Write Call Input}

theorem refl (r : Turn S Row Write Call Input) : r.Since P r := ⟨[], by simp⟩

theorem trans (h : r₁.Since P r₂) (h' : r₂.Since P r₃) : r₁.Since P r₃ := by
  obtain ⟨new, hnew, hP⟩ := h
  obtain ⟨new', hnew', hP'⟩ := h'
  refine ⟨new ++ new', by rw [hnew', hnew, List.append_assoc], fun m hm => ?_⟩
  exact (List.mem_append.mp hm).elim (hP m) (hP' m)

theorem mono {P' : Moment S Row Write Call Input → Prop} (h : r₁.Since P r₂)
    (hP : ∀ m, P m → P' m) : r₁.Since P' r₂ := by
  obtain ⟨new, hnew, hnewP⟩ := h
  exact ⟨new, hnew, fun m hm => hP m (hnewP m hm)⟩

theorem of_next {σ : Storage S Row Write Call Input Exc} {st : Stmt S Row Write Call} {v : S}
    (h : r₁.Next σ st r₂ v) (hP : P ⟨st, r₁.session, r₁.state⟩) : r₁.Since P r₂ :=
  ⟨_, h.past, by simpa using hP⟩

theorem count_le (h : r₁.Since P r₂) : r₁.count ≤ r₂.count := by
  obtain ⟨new, hnew, -⟩ := h
  rw [Turn.count, Turn.count, hnew, List.length_append]
  omega

end Turn.Since

/-- From `r` to `r'` the session has written nothing. -/
structure Turn.Reads (r r' : Turn S Row Write Call Input) : Prop where
  past : r.Since (fun m => ∀ ws, m.stmt ≠ .flush ws) r'
  view : r'.view σ = r.view σ

namespace Turn.Reads

variable {σ}

theorem refl (r : Turn S Row Write Call Input) : r.Reads σ r := ⟨.refl r, rfl⟩

theorem trans {r₁ r₂ r₃ : Turn S Row Write Call Input} (h : r₁.Reads σ r₂) (h' : r₂.Reads σ r₃) :
    r₁.Reads σ r₃ := ⟨h.past.trans h'.past, h'.view.trans h.view⟩

theorem of_next {st : Stmt S Row Write Call} {r r' : Turn S Row Write Call Input}
    (h : r.Next σ st r' (r.view σ)) (hst : ∀ ws, st ≠ .flush ws) : r.Reads σ r' :=
  ⟨.of_next h hst, h.view⟩

theorem count_le {r r' : Turn S Row Write Call Input} (h : r.Reads σ r') : r.count ≤ r'.count :=
  h.past.count_le

end Turn.Reads

theorem Turn.Next.count_lt {σ : Storage S Row Write Call Input Exc} {st : Stmt S Row Write Call}
    {r r' : Turn S Row Write Call Input} {v : S} (h : r.Next σ st r' v) : r.count < r'.count := by
  rw [Turn.count, Turn.count, h.past, List.length_append, List.length_singleton]
  omega

/-- Unless the connection is lost, or else `fails`, the program returns a
value, at a turn satisfying `Q`. -/
def Prog.Yields (fails : Prop) (p : Prog S Row Write Call Input Exc Point α)
    (r : Turn S Row Write Call Input) (Q : α → Turn S Row Write Call Input → Prop) : Prop :=
  p.Leads σ env r fun outcome r =>
    match outcome with
    | .ok a => Q a r
    | .error _ => env.Steady → fails

namespace Prog.Yields

variable {σ env} {fails : Prop} {r : Turn S Row Write Call Input}
  {Q : α → Turn S Row Write Call Input → Prop}

theorem ret {a : α} (h : Q a r) :
    (Prog.ret a : Prog S Row Write Call Input Exc Point α).Yields σ env fails r Q := h

theorem mono {p : Prog S Row Write Call Input Exc Point α}
    {Q' : α → Turn S Row Write Call Input → Prop} (h : p.Yields σ env fails r Q)
    (hQ : ∀ a r, Q a r → Q' a r) : p.Yields σ env fails r Q' := by
  refine Leads.mono h fun outcome r h => ?_
  cases outcome with
  | ok a => exact hQ a r h
  | error e => exact h

theorem bind {p : Prog S Row Write Call Input Exc Point β}
    {k : β → Prog S Row Write Call Input Exc Point α}
    (h : p.Yields σ env fails r fun b r => (k b).Yields σ env fails r Q) :
    (p.bind k).Yields σ env fails r Q := by
  refine Leads.bind (Leads.mono h fun outcome r h => ?_)
  cases outcome with
  | ok b => exact h
  | error e => exact h

/-- A pure computation. -/
theorem ofExcept {x : Except Exc α} {a : α} (hx : x = .ok a) (h : Q a r) :
    (Prog.ofExcept x : Prog S Row Write Call Input Exc Point α).Yields σ env fails r Q := by
  rw [hx]
  exact h

variable {pt : Point} {f : Reply S Row Input → α}

private theorem excused {n : ℕ} {st : Stmt S Row Write Call} {P : Prop} (h : env.lost n st = true)
    (hsteady : env.Steady) : P := by
  rw [hsteady n st] at h
  cases h

theorem select
    (h : ∀ i r', r.Reads σ r' → Q (f ⟨r.view σ, fun _ => true, i⟩) r') :
    (Prog.stmt pt .select f : Prog S Row Write Call Input Exc Point α).Yields σ env fails r Q :=
  Leads.select excused fun i => h i _ (.of_next ⟨rfl, rfl⟩ (by simp))

/-- A lock gets every row it asks for. -/
theorem lock {skip : Bool} {rows : S → (Row → Bool) → List Row}
    (h : ∀ i r', r.Reads σ r' → Q (f ⟨r.view σ, fun _ => true, i⟩) r') :
    (Prog.stmt pt (.lock skip rows) f : Prog S Row Write Call Input Exc Point α).Yields
      σ env fails r Q :=
  Leads.lock excused fun i => h i _ (.of_next ⟨rfl, rfl⟩ (by simp))

/-- A call with an effect outside the database. -/
theorem call {c : Call}
    (h : ∀ r', r.Next σ (.call c) r'
        (r.session.view σ (σ.perform c (env.draw r.count (.call c)) r.state)) →
      Q (f ⟨r'.view σ, fun _ => true, env.draw r.count (.call c)⟩) r') :
    (Prog.stmt pt (.call c) f : Prog S Row Write Call Input Exc Point α).Yields σ env fails r Q :=
  Leads.call fun i hi => by
    subst hi
    exact h (r.advance (.call c) (r.session.record c) _) ⟨rfl, rfl⟩

/-- A flush whose writes the constraints admit. -/
theorem flush {writes : List Write}
    (haccepted : ∀ i, σ.firstError (r.view σ) (writes.map (σ.stamp i)) ≠ none → fails)
    (h : ∀ i j r', σ.firstError (r.view σ) (writes.map (σ.stamp i)) = none →
      r.Next σ (.flush writes) r' (σ.applyAll (r.view σ) (writes.map (σ.stamp i))) →
      Q (f ⟨r'.view σ, fun _ => true, j⟩) r') :
    (Prog.stmt pt (.flush writes) f : Prog S Row Write Call Input Exc Point α).Yields
      σ env fails r Q := by
  refine Leads.flush excused (fun i e herror => ?_) fun i herror => ?_
  · exact fun _ => haccepted (r.session.began.getD i) fun hnone => by
      rw [Session.stamped, hnone] at herror
      cases herror
  · let r' := r.advance (.flush writes)
      ((r.session.begin i).write σ (r.session.stamped σ i writes)) r.state
    have hview : r'.view σ = σ.applyAll (r.view σ) (r.session.stamped σ i writes) :=
      Session.view_write ..
    rw [← hview]
    exact h (r.session.began.getD i) i r' herror ⟨rfl, hview⟩

/-- What the session sees becomes the committed state. -/
theorem commit
    (h : ∀ i r', r.Next σ .commit r' (r.view σ) → r'.state = r.view σ →
      Q (f ⟨r.view σ, fun _ => true, i⟩) r') :
    (Prog.stmt pt .commit f : Prog S Row Write Call Input Exc Point α).Yields σ env fails r Q :=
  Leads.commit excused fun i => h i _ ⟨rfl, rfl⟩ rfl

end Prog.Yields

/-- Where nothing is said about exceptions. -/
theorem Prog.Yields.of_leads {σ : Storage S Row Write Call Input Exc}
    {env : Surroundings S Row Write Call Input} {r : Turn S Row Write Call Input}
    {p : Prog S Row Write Call Input Exc Point α} {Q : α → Turn S Row Write Call Input → Prop}
    (h : p.Leads σ env r fun outcome r => ∀ a, outcome = .ok a → Q a r) :
    p.Yields σ env True r Q := by
  refine Leads.mono h fun outcome r h => ?_
  cases outcome with
  | ok a => exact h a rfl
  | error e => exact fun _ => trivial

/-- Where no connection is lost, a program that does not fail returns. -/
theorem Prog.Yields.returns {σ : Storage S Row Write Call Input Exc}
    {env : Surroundings S Row Write Call Input} {r : Turn S Row Write Call Input}
    {p : Prog S Row Write Call Input Exc Point α} {Q : α → Turn S Row Write Call Input → Prop}
    (h : p.Yields σ env False r Q) (hsteady : env.Steady) :
    ∃ a, (p.alone σ env r).1 = .ok a ∧ Q a (p.alone σ env r).2 := by
  rw [Yields, Leads] at h
  cases houtcome : (p.alone σ env r).1 with
  | ok a => rw [houtcome] at h; exact ⟨a, rfl, h⟩
  | error e => rw [houtcome] at h; exact (h hsteady).elim

/-- Two facts about where one program ends. -/
theorem Prog.Yields.and_leads {σ : Storage S Row Write Call Input Exc}
    {env : Surroundings S Row Write Call Input} {fails : Prop} {r : Turn S Row Write Call Input}
    {p : Prog S Row Write Call Input Exc Point α} {Q : α → Turn S Row Write Call Input → Prop}
    {P : Except Exc α → Turn S Row Write Call Input → Prop} (h : p.Yields σ env fails r Q)
    (h' : p.Leads σ env r P) : p.Yields σ env fails r fun a r => Q a r ∧ P (.ok a) r := by
  refine (Leads.and h h').mono fun outcome r ⟨h, h'⟩ => ?_
  cases outcome with
  | ok a => exact ⟨h, h'⟩
  | error e => exact h

/-- What a program writes when it runs alone. -/
theorem Prog.Writes.leads {σ : Storage S Row Write Call Input Exc}
    {env : Surroundings S Row Write Call Input} {good : S → Prop} {P : Write → Prop}
    (hstamp : ∀ i x, P x → P (σ.stamp i x))
    (happly : ∀ x s, P x → good s → good (σ.apply x s))
    (hperform : ∀ c i s, good s → good (σ.perform c i s)) {Q : α → Prop}
    {p : Prog S Row Write Call Input Exc Point α} (h : p.Writes good P Q)
    {r : Turn S Row Write Call Input} (hs : good r.state) (hwrites : ∀ x ∈ r.session.writes, P x) :
    p.Leads σ env r fun outcome r' =>
      (∀ a, outcome = .ok a → Q a) ∧ good r'.state ∧ (∀ x ∈ r'.session.writes, P x) ∧
        r.Since (fun m => ∀ ws, m.stmt = .flush ws → ∀ x ∈ ws, P x) r' := by
  induction p generalizing r with
  | ret a =>
      refine ⟨?_, hs, hwrites, .refl r⟩
      rintro b ⟨⟩
      exact h
  | raise e => exact ⟨nofun, hs, hwrites, .refl r⟩
  | step pt st next ih =>
      have hpast (t : Session Row Write Call Input) (s : S) :
          r.Since (fun m => ∀ ws, m.stmt = .flush ws → ∀ x ∈ ws, P x) (r.advance st t s) :=
        ⟨_, rfl, List.forall_mem_singleton.mpr h.1⟩
      rw [Leads, alone]
      split
      · obtain ⟨hQ, hgood, hlater, hnew⟩ :=
          ih _ (h.2.1 _) (r := r.advance st r.session.close r.state) hs (by simp)
        exact ⟨hQ, hgood, hlater, (hpast _ _).trans hnew⟩
      · obtain ⟨hgood, hlater, hnext⟩ :=
          h.exec hstamp happly hperform hs hwrites (Prog.exec_step (i := env.draw r.count st) ..)
        obtain ⟨hQ, hgood, hlater, hnew⟩ := ih _ hnext (r := r.advance st _ _) hgood hlater
        exact ⟨hQ, hgood, hlater, (hpast _ _).trans hnew⟩

end Transact
