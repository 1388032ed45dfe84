import Mathlib.Data.List.Nodup

/-!
Documents: scalars, arrays and objects, nested to any depth.

An object has its keys in an order, each once, and a document under each.
Two documents are compared apart from what stands under some keys, and as
strictly about the order of keys as one likes.
-/

inductive Doc (κ σ : Type) where
  | scalar (s : σ)
  | array (length : ℕ) (item : Fin length → Doc κ σ)
  | object (keys : List κ) (nodup : keys.Nodup) (value : (k : κ) → k ∈ keys → Doc κ σ)

namespace Doc

variable {κ σ : Type}

/-- A step of a path into a document. -/
inductive Step (κ : Type) where
  | index (i : ℕ)
  | key (k : κ)
  deriving DecidableEq

/-- What stands at the path. -/
def get? [DecidableEq κ] : Doc κ σ → List (Step κ) → Option (Doc κ σ)
  | doc, [] => some doc
  | array length item, .index i :: path =>
    if h : i < length then (item ⟨i, h⟩).get? path else none
  | object keys _ value, .key k :: path => if h : k ∈ keys then (value k h).get? path else none
  | _, _ :: _ => none

/-- No key on the path is hidden. -/
def Visible (hide : κ → Bool) (path : List (Step κ)) : Prop := ∀ k, .key k ∈ path → hide k = false

/-- The documents have the same shape and the same scalars, what stands under
hidden keys apart. The keys of objects are arranged alike. -/
inductive Alike (hide : κ → Bool) (arranged : List κ → List κ → Prop) :
    Doc κ σ → Doc κ σ → Prop where
  | scalar (s : σ) : Alike hide arranged (.scalar s) (.scalar s)
  | array {length : ℕ} {item item' : Fin length → Doc κ σ}
      (h : ∀ i, Alike hide arranged (item i) (item' i)) :
      Alike hide arranged (.array length item) (.array length item')
  | object {keys keys' : List κ} {nodup : keys.Nodup} {nodup' : keys'.Nodup}
      {value : (k : κ) → k ∈ keys → Doc κ σ} {value' : (k : κ) → k ∈ keys' → Doc κ σ}
      (hkeys : arranged keys keys')
      (h : ∀ k (hk : k ∈ keys) (hk' : k ∈ keys'), hide k = false →
        Alike hide arranged (value k hk) (value' k hk')) :
      Alike hide arranged (.object keys nodup value) (.object keys' nodup' value')

/-- Equality as of dictionaries: the order of keys makes no difference. -/
def Same (doc doc' : Doc κ σ) : Prop := Alike (fun _ => false) List.Perm doc doc'

/-- With all keys visible and in the same order the documents are equal. -/
theorem Alike.eq {doc doc' : Doc κ σ} (h : Alike (fun _ => false) Eq doc doc') : doc = doc' := by
  induction h with
  | scalar s => rfl
  | array h ih => rw [funext ih]
  | @object keys keys' _ _ value value' hkeys h ih =>
      subst hkeys
      have hvalue : value = value' := funext fun k => funext fun hk => ih k hk hk rfl
      rw [hvalue]

section Paths

variable {hide : κ → Bool} {doc : Doc κ σ} {step : Step κ} {path path' : List (Step κ)} {k : κ}

theorem Visible.tail (h : Visible hide (step :: path)) : Visible hide path :=
  fun k hk => h k (List.mem_cons_of_mem _ hk)

theorem Visible.head (h : Visible hide (.key k :: path)) : hide k = false := h k List.mem_cons_self

variable [DecidableEq κ]

@[simp] theorem get?_nil : doc.get? [] = some doc := by
  cases doc <;> rfl

theorem get?_append : doc.get? (path ++ path') = (doc.get? path).bind fun d => d.get? path' := by
  induction path generalizing doc with
  | nil => rw [List.nil_append, get?_nil, Option.bind_some]
  | cons step path ih =>
      cases doc with
      | scalar s => cases step <;> rfl
      | array length item =>
          cases step with
          | key k => rfl
          | index i =>
              rw [List.cons_append, get?, get?]
              split
              · exact ih
              · rfl
      | object keys nodup value =>
          cases step with
          | index i => rfl
          | key k =>
              rw [List.cons_append, get?, get?]
              split
              · exact ih
              · rfl

end Paths

end Doc
