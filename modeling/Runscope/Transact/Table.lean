import Mathlib.Data.List.Forall2
import Mathlib.Data.List.Nodup

/-!
Tables with a primary key: rows in insertion order, no two of them with one
key.
-/

namespace Transact

variable {κ α β : Type}

/-- Rows whose keys are pairwise different. -/
structure Table (key : α → κ) where
  rows : List α
  nodup : (rows.map key).Nodup

namespace Table

variable {key : α → κ}

def empty : Table key := ⟨[], List.nodup_nil⟩

@[simp] theorem rows_empty : (empty : Table key).rows = [] := rfl

/-- Changes the rows by an `f` that keeps their keys. -/
def map (t : Table key) (f : α → α) (hf : ∀ a, key (f a) = key a) : Table key :=
  ⟨t.rows.map f, by
    have : key ∘ f = key := funext hf
    simpa [List.map_map, this] using t.nodup⟩

@[simp] theorem rows_map (t : Table key) (f : α → α) (hf : ∀ a, key (f a) = key a) :
    (t.map f hf).rows = t.rows.map f := rfl

/-- Two rows with one key are one row. -/
theorem eq_of_key {t : Table key} {a b : α} (ha : a ∈ t.rows) (hb : b ∈ t.rows)
    (h : key a = key b) : a = b :=
  List.inj_on_of_nodup_map t.nodup ha hb h

variable [DecidableEq κ]

/-- The row with key `k`. -/
def get? (t : Table key) (k : κ) : Option α := t.rows.find? fun a => key a = k

/-- Appends a row; a row whose key is taken is dropped. -/
def insert (t : Table key) (a : α) : Table key :=
  if h : key a ∈ t.rows.map key then t
  else ⟨t.rows ++ [a], by
    rw [List.map_append, List.nodup_append]
    refine ⟨t.nodup, by simp, ?_⟩
    rintro k hk k' hk' rfl
    simp only [List.map_cons, List.map_nil, List.mem_singleton] at hk'
    exact h (hk' ▸ hk)⟩

/-- Changes the row with key `k`. -/
def update (t : Table key) (k : κ) (f : α → α) (hf : ∀ a, key (f a) = key a) : Table key :=
  t.map (fun a => if key a = k then f a else a) fun a => by split <;> simp [hf]

/-- Deletes the row with key `k`. -/
def erase (t : Table key) (k : κ) : Table key :=
  ⟨t.rows.filter fun a => key a ≠ k, (List.filter_sublist.map key).nodup t.nodup⟩

@[simp] theorem rows_erase (t : Table key) (k : κ) :
    (t.erase k).rows = t.rows.filter fun a => key a ≠ k := rfl

theorem key_of_get? {t : Table key} {k : κ} {a : α} (h : t.get? k = some a) : key a = k := by
  simpa using List.find?_some h

theorem mem_of_get? {t : Table key} {k : κ} {a : α} (h : t.get? k = some a) : a ∈ t.rows :=
  List.mem_of_find?_eq_some h

theorem get?_eq_none {t : Table key} {k : κ} : t.get? k = none ↔ ∀ a ∈ t.rows, key a ≠ k := by
  simp [get?]

theorem get?_of_mem {t : Table key} {a : α} (h : a ∈ t.rows) : t.get? (key a) = some a := by
  cases hb : t.get? (key a) with
  | none => exact absurd rfl (get?_eq_none.mp hb a h)
  | some b => rw [eq_of_key h (mem_of_get? hb) (key_of_get? hb).symm]

theorem get?_eq_some {t : Table key} {k : κ} {a : α} :
    t.get? k = some a ↔ a ∈ t.rows ∧ key a = k := by
  constructor
  · exact fun h => ⟨mem_of_get? h, key_of_get? h⟩
  · rintro ⟨h, rfl⟩
    exact get?_of_mem h

/-- A row whose key is taken is not inserted. -/
theorem insert_of_get? {t : Table key} {a b : α} (h : t.get? (key a) = some b) : t.insert a = t := by
  have hmem : key a ∈ t.rows.map key := List.mem_map.mpr ⟨b, mem_of_get? h, key_of_get? h⟩
  rw [insert, dif_pos hmem]

theorem rows_insert {t : Table key} {a : α} (h : t.get? (key a) = none) :
    (t.insert a).rows = t.rows ++ [a] := by
  have : key a ∉ t.rows.map key := by simpa using get?_eq_none.mp h
  rw [insert, dif_neg this]

@[simp] theorem get?_empty (k : κ) : (empty : Table key).get? k = none := rfl

theorem get?_insert {t : Table key} {a : α} (k : κ) :
    (t.insert a).get? k = if key a = k then some ((t.get? k).getD a) else t.get? k := by
  cases h : t.get? (key a) with
  | none =>
      rw [get?, rows_insert h, List.find?_append]
      by_cases hk : key a = k
      · subst hk
        have : t.rows.find? (fun b => key b = key a) = none := h
        simp [this, h]
      · simp [hk, get?]
  | some b =>
      rw [insert_of_get? h]
      by_cases hk : key a = k
      · subst hk
        simp [h]
      · simp [hk]

@[simp] theorem rows_update (t : Table key) (k : κ) (f : α → α) (hf : ∀ a, key (f a) = key a) :
    (t.update k f hf).rows = t.rows.map fun a => if key a = k then f a else a := rfl

@[simp] theorem get?_map (t : Table key) (f : α → α) (hf : ∀ a, key (f a) = key a) (k : κ) :
    (t.map f hf).get? k = (t.get? k).map f := by
  have hsame : (fun a => decide (key a = k)) ∘ f = fun a => decide (key a = k) := by
    funext a
    simp [hf]
  rw [get?, get?, rows_map, List.find?_map, hsame]

theorem get?_update (t : Table key) (k : κ) (f : α → α) (hf : ∀ a, key (f a) = key a) (k' : κ) :
    (t.update k f hf).get? k' = if k' = k then (t.get? k').map f else t.get? k' := by
  rw [update, get?_map]
  cases h : t.get? k' with
  | none => simp
  | some a =>
      obtain rfl := key_of_get? h
      by_cases hk : key a = k <;> simp [hk]

theorem get?_erase_self (t : Table key) (k : κ) : (t.erase k).get? k = none := by
  simp [get?_eq_none]

/-- An inserted row is there afterwards unless its key was taken. -/
theorem mem_insert {t : Table key} {a b : α} :
    b ∈ (t.insert a).rows ↔ b ∈ t.rows ∨ t.get? (key a) = none ∧ b = a := by
  cases h : t.get? (key a) with
  | none => simp [rows_insert h]
  | some c => simp [insert_of_get? h]

/-- An update that respects `p` does not change whether some row has `p`. -/
theorem any_update (t : Table key) (k : κ) (f : α → α) (hf : ∀ a, key (f a) = key a) (p : α → Bool)
    (hp : ∀ a, p (f a) = p a) : (t.update k f hf).rows.any p = t.rows.any p := by
  have : (p ∘ fun a => if key a = k then f a else a) = p := by
    funext a
    simp only [Function.comp]
    split <;> simp [hp]
  rw [rows_update, List.any_map, this]

end Table

/-! ### Rows side by side -/

section Rows

variable {R : α → β → Prop} {l : List α} {l' : List β}

theorem forall₂_trans {P : α → α → Prop} (hP : ∀ a b c, P a b → P b c → P a c)
    {l₁ l₂ l₃ : List α} (h : List.Forall₂ P l₁ l₂) (h' : List.Forall₂ P l₂ l₃) :
    List.Forall₂ P l₁ l₃ := by
  induction h generalizing l₃ with
  | nil =>
      cases h'
      exact .nil
  | cons hab _ ih =>
      cases h' with
      | cons hbc htail => exact .cons (hP _ _ _ hab hbc) (ih htail)

theorem exists_of_mem_left {a : α} (h : List.Forall₂ R l l') (ha : a ∈ l) : ∃ b ∈ l', R a b := by
  induction h with
  | nil => cases ha
  | cons hab _ ih =>
      rcases List.mem_cons.mp ha with rfl | ha
      · exact ⟨_, List.mem_cons_self, hab⟩
      · obtain ⟨b, hb, hR⟩ := ih ha
        exact ⟨b, List.mem_cons_of_mem _ hb, hR⟩

theorem exists_of_mem_right {b : β} (h : List.Forall₂ R l l') (hb : b ∈ l') : ∃ a ∈ l, R a b :=
  exists_of_mem_left (R := fun b a => R a b) h.flip hb

end Rows

end Transact
