import Mathlib.Data.List.MinMax
import Mathlib.Data.List.Sort
import Mathlib.Order.Defs.LinearOrder
import Runscope.Python

/-!
Dictionaries in insertion order, list comprehensions, and `sorted` and `max`
with a key.
-/

namespace Python

variable {κ α β : Type}

/-! ### Dictionaries -/

section Dictionaries

variable [DecidableEq κ] {d l : List (κ × β)} {k : κ} {v : β}

/-- `d[key] = value` -/
def setItem : List (κ × β) → κ → β → List (κ × β)
  | [], key, value => [(key, value)]
  | (k, v) :: d, key, value => if k = key then (k, value) :: d else (k, v) :: setItem d key value

/-- The dictionary after the assignments. -/
def assigned (assignments : List (κ × β)) : List (κ × β) :=
  assignments.foldl (fun d x => setItem d x.1 x.2) []

theorem lookup_cons_eq (key : κ) (v : β) (d : List (κ × β)) (k : κ) :
    ((key, v) :: d).lookup k = if k = key then some v else d.lookup k := by
  rw [List.lookup_cons]
  by_cases h : k = key
  · rw [if_pos h, h, BEq.rfl]
  · rw [if_neg h, beq_false_of_ne h]

theorem mem_of_lookup (h : d.lookup k = some v) : (k, v) ∈ d := by
  obtain ⟨before, after, rfl, -⟩ := List.lookup_eq_some_iff.mp h
  exact List.mem_append_right _ List.mem_cons_self

theorem exists_lookup : (∃ v, d.lookup k = some v) ↔ ∃ v, (k, v) ∈ d := by
  constructor
  · rintro ⟨v, h⟩
    exact ⟨v, mem_of_lookup h⟩
  · rintro ⟨v, h⟩
    rw [← Option.isSome_iff_exists, List.lookup_isSome_iff]
    exact ⟨(k, v), h, by simp⟩

theorem lookup_setItem (d : List (κ × β)) (key : κ) (v : β) (k : κ) :
    (setItem d key v).lookup k = if k = key then some v else d.lookup k := by
  induction d with
  | nil => exact lookup_cons_eq key v [] k
  | cons x d ih =>
      obtain ⟨k', v'⟩ := x
      rw [setItem]
      by_cases hkey : k' = key
      · subst hkey
        rw [if_pos rfl, lookup_cons_eq, lookup_cons_eq]
        by_cases h : k = k' <;> simp [h]
      · rw [if_neg hkey, lookup_cons_eq, lookup_cons_eq, ih]
        by_cases h : k = k'
        · subst h
          simp [hkey]
        · simp [h]

/-- Where a list with one more element at its end is split. -/
theorem concat_eq_split {l before after : List α} {x a : α} (h : l ++ [x] = before ++ a :: after) :
    (after = [] ∧ x = a) ∨ ∃ rest, after = rest ++ [x] ∧ l = before ++ a :: rest := by
  rcases after.eq_nil_or_concat with rfl | ⟨rest, y, rfl⟩
  · obtain ⟨-, hx⟩ := List.append_inj' h rfl
    exact .inl ⟨rfl, (List.cons.inj hx).1⟩
  · rw [List.concat_eq_append] at h ⊢
    rw [← List.cons_append, ← List.append_assoc] at h
    obtain ⟨hl, hx⟩ := List.append_inj' h rfl
    exact .inr ⟨rest, by rw [(List.cons.inj hx).1], hl⟩

theorem lookup_assigned_concat (l : List (κ × β)) (x : κ × β) (k : κ) :
    (assigned (l ++ [x])).lookup k = if k = x.1 then some x.2 else (assigned l).lookup k := by
  rw [assigned, List.foldl_append]
  exact lookup_setItem (assigned l) x.1 x.2 k

/-- The last assignment to a key counts. -/
theorem lookup_assigned_eq_some : (assigned l).lookup k = some v ↔
    ∃ before after, l = before ++ (k, v) :: after ∧ ∀ x ∈ after, x.1 ≠ k := by
  induction l using List.reverseRecOn generalizing v with
  | nil => simp [assigned]
  | append_singleton l x ih =>
      rw [lookup_assigned_concat]
      by_cases hk : k = x.1
      · rw [if_pos hk]
        constructor
        · rintro ⟨⟩
          exact ⟨l, [], by rw [hk], nofun⟩
        · rintro ⟨before, after, heq, hafter⟩
          rcases concat_eq_split heq with ⟨-, rfl⟩ | ⟨rest, rfl, -⟩
          · rfl
          · exact absurd hk.symm (hafter x (by simp))
      · rw [if_neg hk, ih]
        constructor
        · rintro ⟨before, after, rfl, hafter⟩
          refine ⟨before, after ++ [x], by simp, fun y hy => ?_⟩
          rcases List.mem_append.mp hy with hy | hy
          · exact hafter y hy
          · rw [List.mem_singleton.mp hy]
            exact Ne.symm hk
        · rintro ⟨before, after, heq, hafter⟩
          rcases concat_eq_split heq with ⟨-, rfl⟩ | ⟨rest, rfl, hl⟩
          · exact absurd rfl hk
          · exact ⟨before, rest, hl, fun y hy => hafter y (List.mem_append_left _ hy)⟩

/-- The keys are those assigned to. -/
theorem exists_lookup_assigned : (∃ v, (assigned l).lookup k = some v) ↔ ∃ v, (k, v) ∈ l := by
  constructor
  · rintro ⟨v, h⟩
    obtain ⟨before, after, rfl, -⟩ := lookup_assigned_eq_some.mp h
    exact ⟨v, by simp⟩
  · rintro ⟨v, h⟩
    induction l using List.reverseRecOn with
    | nil => cases h
    | append_singleton l x ih =>
        rw [lookup_assigned_concat]
        split
        · exact ⟨_, rfl⟩
        · next hk =>
          rcases List.mem_append.mp h with h | h
          · exact ih h
          · exact absurd (by rw [← List.mem_singleton.mp h]) hk

end Dictionaries

/-! ### `[f(item) for item in items]`, where `f` may raise -/

section Comprehensions

variable {ε : Type} {f : α → Except ε β} {items : List α} {results : List β}

theorem mapM_eq_ok : items.mapM f = .ok results ↔ items.map f = results.map .ok := by
  induction items generalizing results with
  | nil =>
      rw [List.mapM_nil, List.map_nil]
      constructor
      · rintro ⟨⟩
        rfl
      · intro h
        rw [List.map_eq_nil_iff.mp h.symm]
        rfl
  | cons a items ih =>
      rw [List.mapM_cons, List.map_cons]
      cases ha : f a with
      | error e =>
          constructor
          · rintro ⟨⟩
          · intro h
            cases results with
            | nil => cases h
            | cons b results => cases (List.cons.inj h).1
      | ok b =>
          cases hitems : items.mapM f with
          | error e =>
              constructor
              · rintro ⟨⟩
              · intro h
                cases results with
                | nil => cases h
                | cons b' results =>
                    rw [ih.mpr (List.cons.inj h).2] at hitems
                    cases hitems
          | ok bs =>
              have hbs := ih.mp hitems
              constructor
              · rintro ⟨⟩
                rw [hbs]
                rfl
              · intro h
                rw [hbs] at h
                have hinj : Function.Injective (Except.ok : β → Except ε β) :=
                  fun _ _ heq => Except.ok.inj heq
                have hsame : b :: bs = results := List.map_injective_iff.mpr hinj h
                rw [← hsame]
                rfl

/-- Nothing raises. -/
theorem exists_results (h : ∀ a ∈ items, ∃ b, f a = .ok b) :
    ∃ results : List β, items.map f = results.map .ok := by
  induction items with
  | nil => exact ⟨[], rfl⟩
  | cons a items ih =>
      obtain ⟨b, hb⟩ := h a (by simp)
      obtain ⟨results, hresults⟩ := ih fun x hx => h x (by simp [hx])
      exact ⟨b :: results, by rw [List.map_cons, hb, hresults, List.map_cons]⟩

theorem result_of_mem {a : α} (h : items.map f = results.map .ok) (ha : a ∈ items) :
    ∃ b ∈ results, f a = .ok b := by
  have hmem : f a ∈ results.map .ok := h ▸ List.mem_map_of_mem ha
  obtain ⟨b, hb, heq⟩ := List.mem_map.mp hmem
  exact ⟨b, hb, heq.symm⟩

theorem mem_of_result {b : β} (h : items.map f = results.map .ok) (hb : b ∈ results) :
    ∃ a ∈ items, f a = .ok b := by
  have hmem : .ok b ∈ items.map f := h ▸ List.mem_map_of_mem hb
  exact List.mem_map.mp hmem

end Comprehensions

/-! ### `sorted` and `max` -/

/-- `sorted(items, key=key)` -/
def sorted [LinearOrder κ] (key : α → κ) (items : List α) : List α :=
  items.insertionSort fun a b => key a ≤ key b

/-- Items sorted by the places of their keys in a list of all the keys. -/
theorem sorted_idxOf [DecidableEq κ] {key : α → κ} {items : List α} {keys : List κ}
    (hperm : (items.map key).Perm keys) (hkeys : keys.Nodup) :
    (sorted (fun a => keys.idxOf (key a)) items).map key = keys := by
  have hsorted : ((sorted (fun a => keys.idxOf (key a)) items).map key).Pairwise fun k k' =>
      keys.idxOf k ≤ keys.idxOf k' :=
    List.pairwise_map.mpr (List.pairwise_insertionSort _ items)
  have hplaces : keys.Pairwise fun k k' => keys.idxOf k ≤ keys.idxOf k' := by
    have hlt := pairwise_idxOf_eraseDups keys
    rw [eraseDups_of_nodup hkeys] at hlt
    exact hlt.imp le_of_lt
  have hsame : ((sorted (fun a => keys.idxOf (key a)) items).map key).Perm keys :=
    ((List.perm_insertionSort _ items).map key).trans hperm
  refine hsame.eq_of_pairwise (fun k k' hk hk' hle hle' => ?_) hsorted hplaces
  exact (List.idxOf_inj (hsame.subset hk)).mp (le_antisymm hle hle')

/-- `max`, as `List.argmax`, returns the first of the maximal elements. -/
theorem split_of_argmax [DecidableEq α] [LinearOrder κ] {f : α → κ} {l : List α} {a : α}
    (h : a ∈ l.argmax f) : ∃ before after, l = before ++ a :: after ∧
      (∀ b ∈ before, f b < f a) ∧ ∀ b ∈ after, f b ≤ f a := by
  obtain ⟨hmem, hmax, hfirst⟩ := List.mem_argmax_iff.mp h
  obtain ⟨before, after, rfl, hbefore⟩ := List.eq_append_cons_of_mem hmem
  refine ⟨before, after, rfl, fun b hb => lt_of_le_of_ne (hmax b (by simp [hb])) fun heq => ?_,
    fun b hb => hmax b (by simp [hb])⟩
  have hidx := hfirst b (by simp [hb]) heq.ge
  rw [List.idxOf_append_of_notMem hbefore, List.idxOf_append_of_mem hb] at hidx
  exact absurd (List.idxOf_lt_length_of_mem hb) (by omega)

end Python
