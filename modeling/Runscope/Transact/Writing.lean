import Runscope.Transact.Logic
import Runscope.Transact.Writes

/-!
Rely and guarantee from the writes of a program alone.

A program is sound for every contract that asks nothing of its statements, if
each of its writes satisfies `P` and a commit of such writes is what the
contract guarantees. What the program returns is then what it returns given
that it reads states that are `good`, as the invariant says they are.
-/

namespace Transact

variable {S Row Write Call Input Exc Point α : Type}

/-- Everything still to be committed satisfies `P`, and what was returned
satisfies `Q`. -/
def Left (P : Write → Prop) (Q : α → Prop) (outcome : Except Exc α)
    (t : Session Row Write Call Input) : Prop :=
  (∀ x ∈ t.writes, P x) ∧ ∀ a, outcome = .ok a → Q a

variable {σ : Storage S Row Write Call Input Exc} {I : S → Prop}
  {C : Contract S Row Write Call Input Point} {good : S → Prop} {P : Write → Prop} {Q : α → Prop}

theorem Prog.Writes.sound (hstamp : ∀ i x, P x → P (σ.stamp i x))
    (happly : ∀ x s, P x → good s → good (σ.apply x s)) (hgood : ∀ s, I s → good s)
    (hneed : ∀ st t s, C.need st t s)
    (hcommit : ∀ pt t s, I s → (∀ x ∈ t.writes, P x) →
      C.guar pt t s (t.view σ s) ∧ I (t.view σ s))
    (hcall : ∀ pt t s c i, I s → C.guar pt t s (σ.perform c i s) ∧ I (σ.perform c i s))
    {p : Prog S Row Write Call Input Exc Point α} (h : p.Writes good P Q)
    {t : Session Row Write Call Input} (ht : ∀ x ∈ t.writes, P x) (s : S) :
    Sound σ I C (fun outcome t _ => Left P Q outcome t) p t s := by
  induction p generalizing t s with
  | ret a => exact ⟨ht, fun b hb => Except.ok.inj hb ▸ h⟩
  | raise e => exact ⟨ht, fun a ha => by cases ha⟩
  | step pt st next ih =>
      intro s' hs'
      obtain ⟨hflush, herror, hok⟩ := h
      have hview (s : S) (hs : I s) : good (t.view σ s) := good_applyAll happly ht (hgood s hs)
      have hclosed (e : Exc) (s : S) :
          Sound σ I C (fun outcome t _ => Left P Q outcome t) (next (.error e)) t.close s :=
        ih _ (herror e) (by simp) s
      refine ⟨hneed _ _ _, ?_⟩
      cases st with
      | select => exact ⟨hclosed _ _, fun i =>
          ih _ (hok _ (hview s' hs'.inv)) (t := t.begin i) ht s'⟩
      | lock skip rows => exact ⟨hclosed _ _, fun i free =>
          ih _ (hok _ (hview s' hs'.inv)) (t := (t.begin i).lock _) ht s'⟩
      | flush writes =>
          refine ⟨hclosed _ _, fun i => ⟨fun e _ => hclosed e _, fun _ => ?_⟩⟩
          have hstamped : ∀ x ∈ t.stamped σ i writes, P x := by
            intro x hx
            obtain ⟨y, hy, rfl⟩ := List.mem_map.mp hx
            exact hstamp _ y (hflush writes rfl y hy)
          refine ih _ (hok _ (good_applyAll happly hstamped (hview s' hs'.inv))) (fun x hx => ?_) s'
          rcases List.mem_append.mp hx with hx | hx
          · exact ht x hx
          · exact hstamped x hx
      | commit =>
          obtain ⟨hguar, hI⟩ := hcommit pt t s' hs'.inv ht
          exact ⟨hclosed _ _, hguar, hI, fun i => ih _ (hok _ (hview s' hs'.inv)) (by simp) _⟩
      | rollback =>
          exact ⟨hclosed _ _, fun i => ih _ (hok _ (hgood s' hs'.inv)) (by simp) s'⟩
      | call c =>
          intro i
          obtain ⟨hguar, hI⟩ := hcall pt t s' c i hs'.inv
          exact ⟨hguar, hI, ih _ (hok _ (hview _ hI)) (t := t.record c) ht _⟩

/-! ### Parts of a transaction -/

/-- The program neither commits nor rolls back, and what a statement raises, it
raises at once. -/
def Prog.Within : Prog S Row Write Call Input Exc Point α → Prop
  | .ret _ => True
  | .raise _ => True
  | .step _ st next => (st ≠ .commit ∧ st ≠ .rollback) ∧ (∀ e, ∃ e', next (.error e) = .raise e') ∧
      ∀ reply, Within (next (.ok reply))

namespace Prog.Within

variable {β : Type}

theorem bind {p : Prog S Row Write Call Input Exc Point α}
    {k : α → Prog S Row Write Call Input Exc Point β} (h : p.Within) (hk : ∀ a, (k a).Within) :
    (p.bind k).Within := by
  induction p with
  | ret a => exact hk a
  | raise e => exact trivial
  | step pt st next ih =>
      obtain ⟨hst, herror, hok⟩ := h
      refine ⟨hst, fun e => ?_, fun reply => ih _ (hok reply)⟩
      obtain ⟨e', he'⟩ := herror e
      refine ⟨e', ?_⟩
      dsimp only
      rw [he']
      rfl

theorem stmt {pt : Point} {st : Stmt S Row Write Call} {f : Reply S Row Input → α}
    (hcommit : st ≠ .commit) (hrollback : st ≠ .rollback) :
    (Prog.stmt pt st f : Prog S Row Write Call Input Exc Point α).Within :=
  ⟨⟨hcommit, hrollback⟩, fun e => ⟨e, rfl⟩, fun _ => trivial⟩

theorem ofExcept (x : Except Exc α) :
    (Prog.ofExcept x : Prog S Row Write Call Input Exc Point α).Within := by
  cases x <;> exact trivial

end Prog.Within

/-- What has been flushed is still to be committed after a part of a
transaction that returns. -/
theorem Sound.within {Q : Except Exc α → Session Row Write Call Input → S → Prop}
    {p : Prog S Row Write Call Input Exc Point α} {t₀ t : Session Row Write Call Input} {s : S}
    (hp : p.Within) (hcommitted : t.committed = t₀.committed) (hwrites : t₀.writes <+: t.writes)
    (h : Sound σ I C Q p t s) :
    Sound σ I C (fun x t s => Q x t s ∧ ∀ a, x = .ok a →
      t.committed = t₀.committed ∧ t₀.writes <+: t.writes) p t s := by
  induction p generalizing t s with
  | ret a => exact ⟨h, fun _ _ => ⟨hcommitted, hwrites⟩⟩
  | raise e => exact ⟨h, fun a ha => by cases ha⟩
  | step pt st next ih =>
      intro s' hs'
      obtain ⟨⟨hcommit, hrollback⟩, herror, hok⟩ := hp
      obtain ⟨hneed, hst⟩ := h s' hs'
      have hraise (e : Exc) {t : Session Row Write Call Input} {s : S}
          (h : Sound σ I C Q (next (.error e)) t s) : Sound σ I C (fun x t s => Q x t s ∧
            ∀ a, x = .ok a → t.committed = t₀.committed ∧ t₀.writes <+: t.writes)
            (next (.error e)) t s := by
        obtain ⟨e', he'⟩ := herror e
        rw [he'] at h ⊢
        exact ⟨h, fun a ha => by cases ha⟩
      refine ⟨hneed, ?_⟩
      cases st with
      | select =>
          exact ⟨hraise _ hst.1, fun i => ih _ (t := t.begin i) (hok _) hcommitted hwrites (hst.2 i)⟩
      | lock skip rows =>
          exact ⟨hraise _ hst.1, fun i free =>
            ih _ (t := (t.begin i).lock _) (hok _) hcommitted hwrites (hst.2 i free)⟩
      | flush writes =>
          refine ⟨hraise _ hst.1, fun i => ⟨fun e he => hraise e ((hst.2 i).1 e he), fun hnone => ?_⟩⟩
          exact ih _ (t := (t.begin i).write σ _) (hok _) hcommitted
            (hwrites.trans (List.prefix_append _ _)) ((hst.2 i).2 hnone)
      | commit => exact absurd rfl hcommit
      | rollback => exact absurd rfl hrollback
      | call c =>
          exact fun i => ⟨(hst i).1, (hst i).2.1,
            ih _ (t := t.record c) (hok _) hcommitted hwrites (hst i).2.2⟩

/-- What a part of a transaction flushes first is among it. -/
theorem Sound.flushed {Q : Except Exc α → Session Row Write Call Input → S → Prop} {pt : Point}
    {ws : List Write}
    {next : Except Exc (Reply S Row Input) → Prog S Row Write Call Input Exc Point α}
    {t : Session Row Write Call Input} {s : S}
    (hp : (Prog.step pt (.flush ws) next).Within)
    (h : Sound σ I C Q (.step pt (.flush ws) next) t s) :
    Sound σ I C (fun x t' s => Q x t' s ∧ ∀ a, x = .ok a → t'.committed = t.committed ∧
      ∃ i, t.writes ++ t.stamped σ i ws <+: t'.writes) (.step pt (.flush ws) next) t s := by
  obtain ⟨-, herror, hok⟩ := hp
  have hraise (e : Exc) {t' : Session Row Write Call Input} {s : S}
      (h : Sound σ I C Q (next (.error e)) t' s) : Sound σ I C (fun x t' s => Q x t' s ∧
        ∀ a, x = .ok a → t'.committed = t.committed ∧
          ∃ i, t.writes ++ t.stamped σ i ws <+: t'.writes) (next (.error e)) t' s := by
    obtain ⟨e', he'⟩ := herror e
    rw [he'] at h ⊢
    exact ⟨h, fun a ha => by cases ha⟩
  intro s' hs'
  obtain ⟨hneed, hst⟩ := h s' hs'
  refine ⟨hneed, hraise _ hst.1, fun i => ⟨fun e he => hraise e ((hst.2 i).1 e he), fun hnone => ?_⟩⟩
  refine (Sound.within (hok _) rfl List.prefix_rfl ((hst.2 i).2 hnone)).mono fun x t' s h => ?_
  exact ⟨h.1, fun a ha => ⟨(h.2 a ha).1, i, (h.2 a ha).2⟩⟩

/-- A part of a transaction that flushes only writes that satisfy `P`,
whatever it reads. -/
structure Prog.Part (P : Write → Prop) (Q : α → Prop)
    (p : Prog S Row Write Call Input Exc Point α) : Prop where
  writes : p.Writes (fun _ => True) P Q
  within : p.Within

namespace Prog.Part

variable {β : Type} {pt : Point}

theorem ret {a : α} (h : Q a) : (.ret a : Prog S Row Write Call Input Exc Point α).Part P Q :=
  ⟨h, trivial⟩

theorem bind {p : Prog S Row Write Call Input Exc Point β}
    {k : β → Prog S Row Write Call Input Exc Point α} {R : β → Prop} (h : p.Part P R)
    (hk : ∀ b, R b → (k b).Part P Q) : (p.bind k).Part P Q := by
  refine ⟨h.writes.bind fun b hb => (hk b hb).writes, ?_⟩
  obtain ⟨hwrites, hwithin⟩ := h
  induction p with
  | ret b => exact (hk b hwrites).within
  | raise e => exact trivial
  | step pt st next ih =>
      obtain ⟨-, -, hok⟩ := hwrites
      obtain ⟨hst, hraise, hrest⟩ := hwithin
      refine ⟨hst, fun e => ?_, fun reply => ih _ (hok reply trivial) (hrest reply)⟩
      obtain ⟨e', he'⟩ := hraise e
      refine ⟨e', ?_⟩
      dsimp only
      rw [he']
      rfl

/-- A statement that neither flushes nor ends the transaction. -/
theorem stmt {st : Stmt S Row Write Call} {f : Reply S Row Input → α}
    (hflush : ∀ ws, st ≠ .flush ws) (hcommit : st ≠ .commit) (hrollback : st ≠ .rollback)
    (hQ : ∀ reply, Q (f reply)) :
    (Prog.stmt pt st f : Prog S Row Write Call Input Exc Point α).Part P Q :=
  ⟨.stmt (fun ws h => absurd h (hflush ws)) fun reply _ => hQ reply, .stmt hcommit hrollback⟩

theorem flush {ws : List Write} {f : Reply S Row Input → α} (hws : ∀ x ∈ ws, P x)
    (hQ : ∀ reply, Q (f reply)) :
    (Prog.stmt pt (.flush ws) f : Prog S Row Write Call Input Exc Point α).Part P Q :=
  ⟨.flush hws hQ, .stmt (by simp) (by simp)⟩

theorem ofExcept {x : Except Exc α} (h : ∀ a, x = .ok a → Q a) :
    (Prog.ofExcept x : Prog S Row Write Call Input Exc Point α).Part P Q :=
  ⟨.ofExcept h, .ofExcept x⟩

end Prog.Part

/-- Nothing is promised to the others and nothing relied on; only the
statements have needs. -/
def Contract.asking (need : Stmt S Row Write Call → Session Row Write Call Input → S → Prop) :
    Contract S Row Write Call Input Point where
  rely _ _ _ _ := True
  guar _ _ _ _ := True
  need := need
  rely_refl := trivial
  rely_trans _ _ := trivial

/-- The session still holds the locks, and its rows are as they were in `s₀`. -/
def Retains (σ : Storage S Row Write Call Input Exc) (rows : List Row) (s₀ : S)
    (t : Session Row Write Call Input) (s : S) : Prop :=
  ∀ r ∈ rows, r ∈ t.locks ∧ σ.same r s₀ s

section Retains

variable {need : Stmt S Row Write Call → Session Row Write Call Input → S → Prop} {rows : List Row}
  {s₀ s s' : S} {t t' : Session Row Write Call Input} {pt : Point}

theorem Retains.interfered (h : Retains σ rows s₀ t s) (hs : Interferes σ I C pt t s s') :
    Retains σ rows s₀ t s' := fun r hr =>
  ⟨(h r hr).1, (σ.same_equiv r).trans (h r hr).2 (hs.locked r (h r hr).1)⟩

theorem Retains.more (h : Retains σ rows s₀ t s) (hlocks : ∀ r ∈ t.locks, r ∈ t'.locks) :
    Retains σ rows s₀ t' s := fun r hr => ⟨hlocks r (h r hr).1, (h r hr).2⟩

/-- A part of a transaction keeps the locks, and what it flushes is `P`. -/
theorem Prog.Part.sound (hstamp : ∀ i x, P x → P (σ.stamp i x))
    (hneed : ∀ st t s, st ≠ .commit → need st t s)
    {p : Prog S Row Write Call Input Exc Point α} (h : p.Part P Q) (ht : ∀ x ∈ t.writes, P x)
    (hrows : Retains σ rows s₀ t s) :
    Sound σ (fun _ => True) (.asking need : Contract S Row Write Call Input Point)
      (fun x t s => ∀ a, x = .ok a → Q a ∧ (∀ y ∈ t.writes, P y) ∧ Retains σ rows s₀ t s) p t s := by
  obtain ⟨hwrites, hwithin⟩ := h
  induction p generalizing t s with
  | ret a =>
      rintro b ⟨⟩
      exact ⟨hwrites, ht, hrows⟩
  | raise e => exact fun a ha => by cases ha
  | step pt st next ih =>
      intro s' hs'
      obtain ⟨hflush, -, hok⟩ := hwrites
      obtain ⟨⟨hcommit, hrollback⟩, hraise, hrest⟩ := hwithin
      have hheld := hrows.interfered hs'
      have herror (e : Exc) (t : Session Row Write Call Input) (s : S) :
          Sound σ (fun _ => True) (.asking need : Contract S Row Write Call Input Point)
            (fun x t s => ∀ a, x = .ok a → Q a ∧ (∀ y ∈ t.writes, P y) ∧ Retains σ rows s₀ t s)
            (next (.error e)) t s := by
        obtain ⟨e', he'⟩ := hraise e
        rw [he']
        exact fun a ha => by cases ha
      refine ⟨hneed _ _ _ hcommit, ?_⟩
      cases st with
      | select =>
          exact ⟨herror _ _ _, fun i =>
            ih _ (t := t.begin i) ht hheld (hok _ trivial) (hrest _)⟩
      | lock skip found =>
          exact ⟨herror _ _ _, fun i free => ih _ (t := (t.begin i).lock _) ht
            (hheld.more fun r hr => List.mem_append_right _ hr) (hok _ trivial) (hrest _)⟩
      | flush writes =>
          refine ⟨herror _ _ _, fun i => ⟨fun e _ => herror _ _ _, fun _ => ?_⟩⟩
          refine ih _ (t := (t.begin i).write σ _) (fun x hx => ?_)
            (hheld.more fun r hr => List.mem_append_right _ hr) (hok _ trivial) (hrest _)
          rcases List.mem_append.mp hx with hx | hx
          · exact ht x hx
          · obtain ⟨y, hy, rfl⟩ := List.mem_map.mp hx
            exact hstamp _ y (hflush writes rfl y hy)
      | commit => exact absurd rfl hcommit
      | rollback => exact absurd rfl hrollback
      | call c =>
          refine fun i => ⟨trivial, trivial, ih _ (t := t.record c) ht (fun r hr => ?_)
            (hok _ trivial) (hrest _)⟩
          exact ⟨(hheld r hr).1, (σ.same_equiv r).trans (hheld r hr).2 (σ.same_perform r c i s')⟩

end Retains

end Transact
