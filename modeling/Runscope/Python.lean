import Mathlib.Data.List.DropRight
import Mathlib.Data.List.Infix

/-!
Functions of Python: `str.strip`, `str.replace`, `in` of texts, and
`list(dict.fromkeys(…))`, which is `List.eraseDups`.
-/

namespace Python

/-- `str.isspace` of one character. -/
def isSpace (c : Char) : Bool :=
  let n := c.toNat
  (0x09 ≤ n ∧ n ≤ 0x0d) ∨ (0x1c ≤ n ∧ n ≤ 0x20) ∨ n = 0x85 ∨ n = 0xa0 ∨ n = 0x1680 ∨
    (0x2000 ≤ n ∧ n ≤ 0x200a) ∨ n = 0x2028 ∨ n = 0x2029 ∨ n = 0x202f ∨ n = 0x205f ∨ n = 0x3000

/-- What is left of a list between its first and its last element that `p`
rejects. -/
def trim {α : Type} (p : α → Bool) (l : List α) : List α := (l.dropWhile p).rdropWhile p

section Trim

variable {α : Type} {p : α → Bool} {l : List α}

theorem trim_sublist : (trim p l).Sublist l :=
  (List.rdropWhile_prefix p _).sublist.trans (List.dropWhile_suffix p).sublist

/-- Neither end is rejected again. -/
theorem trim_trim : trim p (trim p l) = trim p l := by
  have hhead : (trim p l).dropWhile p = trim p l := by
    cases hl : trim p l with
    | nil => rfl
    | cons a rest =>
        refine List.dropWhile_cons_of_neg ?_
        have hprefix : a :: rest <+: l.dropWhile p := hl ▸ List.rdropWhile_prefix p _
        have hne : l.dropWhile p ≠ [] := by
          rintro hnil
          simp [hnil] at hprefix
        obtain ⟨suffix, hsuffix⟩ := hprefix
        have hhead : (l.dropWhile p).head hne = a := by simp [← hsuffix]
        rw [← hhead, List.head_dropWhile_not p hne]
        exact Bool.false_ne_true
  rw [trim, hhead]
  exact List.rdropWhile_idempotent p _

theorem trim_map {f : α → α} (h : ∀ a, p (f a) = p a) : trim p (l.map f) = (trim p l).map f := by
  have hcomp : p ∘ f = p := funext h
  simp only [trim, List.rdropWhile, List.dropWhile_map, ← List.map_reverse, hcomp]

end Trim

/-- `str.strip()` -/
def strip (s : String) : String := String.ofList (trim isSpace s.toList)

/-- Trimming commutes with a change of characters that keeps what is space. -/
theorem strip_map {f : Char → Char} (h : ∀ c, isSpace (f c) = isSpace c) (s : String) :
    strip (String.ofList (s.toList.map f)) = String.ofList ((strip s).toList.map f) := by
  simp only [strip, String.toList_ofList, trim_map h]

theorem strip_strip (s : String) : strip (strip s) = strip s := by
  rw [strip, strip, String.toList_ofList, trim_trim]

theorem length_strip_le (s : String) : (strip s).length ≤ s.length := by
  rw [strip, String.length_ofList, ← String.length_toList]
  exact trim_sublist.length_le

/-- `s.replace(old, new)`, for single characters -/
def replaceChar (old new : Char) (s : String) : String :=
  String.ofList (s.toList.map fun c => if c = old then new else c)

/-- `fragment in s` -/
def isIn (fragment s : String) : Bool := fragment.toList <:+: s.toList

section EraseDups

variable {α : Type} [BEq α] [LawfulBEq α] {l : List α}

/-- An element is kept where it occurs first. -/
theorem eraseDups_concat (l : List α) (a : α) :
    (l ++ [a]).eraseDups = if a ∈ l then l.eraseDups else l.eraseDups ++ [a] := by
  rw [List.eraseDups_append, List.cons_removeAll]
  by_cases h : a ∈ l <;> simp [h, List.eraseDups_cons]

theorem nodup_eraseDups (l : List α) : l.eraseDups.Nodup := by
  induction l using List.reverseRecOn with
  | nil => exact List.nodup_nil
  | append_singleton l a ih =>
      rw [eraseDups_concat]
      split
      · exact ih
      · next h =>
        rw [List.nodup_append]
        refine ⟨ih, by simp, fun b hb c hc => ?_⟩
        rw [List.mem_singleton.mp hc]
        rintro rfl
        exact h (List.mem_eraseDups.mp hb)

theorem eraseDups_sublist (l : List α) : l.eraseDups.Sublist l := by
  induction l using List.reverseRecOn with
  | nil => exact .slnil
  | append_singleton l a ih =>
      rw [eraseDups_concat]
      split
      · exact ih.trans (List.sublist_append_left l [a])
      · exact ih.append (.refl [a])

/-- The elements stand in the order of their first occurrences. -/
theorem pairwise_idxOf_eraseDups (l : List α) :
    l.eraseDups.Pairwise fun a b => l.idxOf a < l.idxOf b := by
  induction l using List.reverseRecOn with
  | nil => exact .nil
  | append_singleton l a ih =>
      have hkept : l.eraseDups.Pairwise fun b c => (l ++ [a]).idxOf b < (l ++ [a]).idxOf c := by
        refine ih.imp_of_mem fun hb hc hlt => ?_
        rw [List.idxOf_append_of_mem (List.mem_eraseDups.mp hb),
          List.idxOf_append_of_mem (List.mem_eraseDups.mp hc)]
        exact hlt
      rw [eraseDups_concat]
      split
      · exact hkept
      · next h =>
        refine List.pairwise_append.mpr ⟨hkept, List.pairwise_singleton _ a, fun b hb c hc => ?_⟩
        have hb := List.mem_eraseDups.mp hb
        rw [List.mem_singleton.mp hc, List.idxOf_append_of_mem hb, List.idxOf_append_of_notMem h]
        exact (List.idxOf_lt_length_of_mem hb).trans_le (Nat.le_add_right _ _)

theorem eraseDups_of_nodup (h : l.Nodup) : l.eraseDups = l := by
  induction l using List.reverseRecOn with
  | nil => rfl
  | append_singleton l a ih =>
      obtain ⟨hl, -, hne⟩ := List.nodup_append.mp h
      have ha : a ∉ l := fun ha => hne a ha a (by simp) rfl
      rw [eraseDups_concat, if_neg ha, ih hl]

end EraseDups

end Python
