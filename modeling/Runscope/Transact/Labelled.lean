import Mathlib.Logic.Relation
import Mathlib.Data.Nat.Notation

/-!
Labelled steps: chains of them, what has happened along a chain, and paths
written down step by step.
-/

namespace Transact

variable {S Label α : Type}

/-- Steps with labels from `L`, one after the other. -/
def Chain (step : Label → S → S → Prop) (L : Label → Prop) : S → S → Prop :=
  Relation.ReflTransGen fun s s' => ∃ l, L l ∧ step l s s'

namespace Chain

variable {step : Label → S → S → Prop} {L L' : Label → Prop} {s s' s'' : S}

theorem refl : Chain step L s s := Relation.ReflTransGen.refl

theorem single (l : Label) (hl : L l) (h : step l s s') : Chain step L s s' :=
  Relation.ReflTransGen.single ⟨l, hl, h⟩

theorem trans (h : Chain step L s s') (h' : Chain step L s' s'') : Chain step L s s'' :=
  Relation.ReflTransGen.trans h h'

theorem mono (hL : ∀ l, L l → L' l) (h : Chain step L s s') : Chain step L' s s' :=
  Relation.ReflTransGen.mono (fun _ _ ⟨l, hl, hs⟩ => ⟨l, hL l hl, hs⟩) _ _ h

/-- What every step preserves, a chain preserves. -/
theorem preserves {P : S → Prop} (hP : ∀ l s s', L l → step l s s' → P s → P s')
    (h : Chain step L s s') (hs : P s) : P s' := by
  induction h with
  | refl => exact hs
  | tail _ hstep ih =>
      obtain ⟨l, hl, hstep⟩ := hstep
      exact hP l _ _ hl hstep ih

/-- If every step raises the rank, a chain that leaves it alone has no step. -/
theorem rank (h : Chain step L s s') (rank : S → ℕ)
    (hrank : ∀ l s s', step l s s' → rank s < rank s') : s' = s ∨ rank s < rank s' := by
  induction h with
  | refl => exact .inl rfl
  | tail _ hstep ih =>
      obtain ⟨l, -, hstep⟩ := hstep
      have hlt := hrank l _ _ hstep
      rcases ih with rfl | ih
      · exact .inr hlt
      · exact .inr (Nat.lt_trans ih hlt)

end Chain

/-- Some step of a chain that leads from `s₀` to `s` is such a step. -/
def Once (step : Label → S → S → Prop) (s₀ : S) (E : Label → S → S → Prop) (s : S) : Prop :=
  ∃ l s₁ s₂, Chain step (fun _ => True) s₀ s₁ ∧ step l s₁ s₂ ∧ E l s₁ s₂ ∧
    Chain step (fun _ => True) s₂ s

namespace Once

variable {step : Label → S → S → Prop} {E E' : Label → S → S → Prop} {s₀ s s' : S}

theorem later (h : Once step s₀ E s) (hchain : Chain step (fun _ => True) s s') :
    Once step s₀ E s' := by
  obtain ⟨l, s₁, s₂, hbefore, hstep, hE, hafter⟩ := h
  exact ⟨l, s₁, s₂, hbefore, hstep, hE, hafter.trans hchain⟩

/-- The step is judged knowing the chain that led to it. -/
theorem imp (h : Once step s₀ E s) (hE : ∀ l s₁ s₂, Chain step (fun _ => True) s₀ s₁ →
    step l s₁ s₂ → E l s₁ s₂ → E' l s₁ s₂) : Once step s₀ E' s := by
  obtain ⟨l, s₁, s₂, hbefore, hstep, hl, hafter⟩ := h
  exact ⟨l, s₁, s₂, hbefore, hstep, hE l s₁ s₂ hbefore hstep hl, hafter⟩

end Once

/-- What was not so at first, and is so now, has come about by a step. -/
theorem Chain.once {step : Label → S → S → Prop} {P : S → Prop} {s₀ s : S}
    (h : Chain step (fun _ => True) s₀ s) (hfirst : ¬ P s₀) (hs : P s) :
    Once step s₀ (fun _ s₁ s₂ => ¬ P s₁ ∧ P s₂) s := by
  induction h with
  | refl => exact absurd hs hfirst
  | @tail s₁ s₂ hbefore hstep ih =>
      obtain ⟨l, -, hstep⟩ := hstep
      by_cases hs₁ : P s₁
      · exact (ih hs₁).later (.single l trivial hstep)
      · exact ⟨l, s₁, s₂, hbefore, hstep, ⟨hs₁, hs⟩, .refl⟩

/-- The pairs are the steps of a path of `R` from `a` to `b`: the first starts
in `a`, each next one where the one before it ended, the last ends in `b`. -/
def IsPath (R : α → α → Prop) (a : α) : List (α × α) → α → Prop
  | [], b => a = b
  | (x, y) :: steps, b => x = a ∧ R x y ∧ IsPath R y steps b

theorem IsPath.mono {R R' : α → α → Prop} (hR : ∀ a b, R a b → R' a b) {a b : α}
    {steps : List (α × α)} (h : IsPath R a steps b) : IsPath R' a steps b := by
  induction steps generalizing a with
  | nil => exact h
  | cons step steps ih => exact ⟨h.1, hR _ _ h.2.1, ih h.2.2⟩

/-- A path ends where none of its steps leads on. -/
theorem IsPath.stops {R : α → α → Prop} {a b c x : α} {steps : List (α × α)}
    (h : IsPath R a steps c) (hstop : ∀ y, ¬ R b y) (hmem : (x, b) ∈ steps) : c = b := by
  induction steps generalizing a with
  | nil => cases hmem
  | cons step steps ih =>
      obtain ⟨rfl, -, hrest⟩ := h
      rcases List.mem_cons.mp hmem with rfl | hmem
      · cases steps with
        | nil => exact hrest.symm
        | cons next steps =>
            obtain ⟨heq, hnext, -⟩ := hrest
            exact absurd (heq ▸ hnext) (hstop _)
      · exact ih hrest hmem

/-- A path that ends elsewhere than it starts has a step to its end. -/
theorem IsPath.arrives {R : α → α → Prop} {a b : α} {steps : List (α × α)}
    (h : IsPath R a steps b) (hne : a ≠ b) : ∃ x, (x, b) ∈ steps := by
  induction steps generalizing a with
  | nil => exact absurd h hne
  | cons step steps ih =>
      obtain ⟨x, y⟩ := step
      obtain ⟨-, -, hrest⟩ := h
      by_cases hy : y = b
      · exact ⟨x, hy ▸ List.mem_cons_self⟩
      · obtain ⟨z, hz⟩ := ih hrest hy
        exact ⟨z, List.mem_cons_of_mem _ hz⟩

theorem IsPath.snoc {R : α → α → Prop} {a b c : α} {steps : List (α × α)}
    (h : IsPath R a steps b) (hbc : R b c) : IsPath R a (steps ++ [(b, c)]) c := by
  induction steps generalizing a with
  | nil =>
      obtain rfl : a = b := h
      exact ⟨rfl, hbc, rfl⟩
  | cons step steps ih =>
      obtain ⟨hx, hstep, hrest⟩ := h
      exact ⟨hx, hstep, ih hrest⟩

theorem IsPath.append {R : α → α → Prop} {a b c : α} {steps steps' : List (α × α)}
    (h : IsPath R a steps b) (h' : IsPath R b steps' c) : IsPath R a (steps ++ steps') c := by
  induction steps generalizing a with
  | nil =>
      obtain rfl : a = b := h
      exact h'
  | cons step steps ih =>
      obtain ⟨hx, hstep, hrest⟩ := h
      exact ⟨hx, hstep, ih hrest⟩

end Transact
