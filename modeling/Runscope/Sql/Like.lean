import Mathlib.Data.List.Infix
import Mathlib.Tactic.SplitIfs

/-!
`text LIKE pattern`, as PostgreSQL matches it: `%` stands for any text, `_` for
any character, and a backslash takes the character behind it literally.

A pattern is read into items first. One that ends in an open escape is an
error there; it matches nothing here.
-/

namespace Sql

inductive Item where
  | char (c : Char)
  | one
  | any
  deriving DecidableEq

/-- A character of a pattern that no backslash precedes. -/
def item (c : Char) : Item := if c = '%' then .any else if c = '_' then .one else .char c

/-- The items of a pattern, unless it ends in an open escape. -/
def items : List Char → Option (List Item)
  | [] => some []
  | [c] => if c = '\\' then none else some [item c]
  | c :: d :: rest =>
    if c = '\\' then (items rest).map (.char d :: ·) else (items (d :: rest)).map (item c :: ·)

/-- The items match the whole text. -/
def covers : List Item → List Char → Bool
  | [], text => text.isEmpty
  | .char c :: is, text =>
    match text with
    | [] => false
    | d :: rest => c = d && covers is rest
  | .one :: is, text =>
    match text with
    | [] => false
    | _ :: rest => covers is rest
  | .any :: is, text => text.tails.any (covers is)

def like (pattern text : List Char) : Bool :=
  match items pattern with
  | some is => covers is text
  | none => false

/-- The character stands for itself in a pattern. -/
def Literal (c : Char) : Prop := c ≠ '%' ∧ c ≠ '_' ∧ c ≠ '\\'

instance (c : Char) : Decidable (Literal c) := by
  unfold Literal
  infer_instance

/-! ### What items match -/

section Covers

variable {is js : List Item} {text : List Char} {c : Char}

@[simp] theorem covers_nil : covers [] text ↔ text = [] := by
  rw [covers, List.isEmpty_iff]

@[simp] theorem covers_char : covers (.char c :: is) text ↔ ∃ rest, text = c :: rest ∧ covers is rest := by
  cases text with
  | nil => simp [covers]
  | cons d rest =>
      rw [covers, Bool.and_eq_true, decide_eq_true_eq]
      constructor
      · rintro ⟨rfl, hrest⟩
        exact ⟨rest, rfl, hrest⟩
      · rintro ⟨_, heq, hrest⟩
        obtain ⟨rfl, rfl⟩ := List.cons.inj heq
        exact ⟨rfl, hrest⟩

@[simp] theorem covers_one : covers (.one :: is) text ↔ ∃ d rest, text = d :: rest ∧ covers is rest := by
  cases text with
  | nil => simp [covers]
  | cons d rest => simp [covers]

@[simp] theorem covers_any : covers (.any :: is) text ↔ ∃ u v, text = u ++ v ∧ covers is v := by
  rw [covers, List.any_eq_true]
  constructor
  · rintro ⟨v, hv, hcovers⟩
    obtain ⟨u, hu⟩ := (List.mem_tails v text).mp hv
    exact ⟨u, v, hu.symm, hcovers⟩
  · rintro ⟨u, v, rfl, hcovers⟩
    exact ⟨v, (List.mem_tails v _).mpr (List.suffix_append u v), hcovers⟩

/-- Items one after the other match texts one after the other. -/
theorem covers_append :
    covers (is ++ js) text ↔ ∃ u v, text = u ++ v ∧ covers is u ∧ covers js v := by
  induction is generalizing text with
  | nil => simp
  | cons i is ih =>
      rw [List.cons_append]
      cases i with
      | char c =>
          simp only [covers_char, ih]
          constructor
          · rintro ⟨_, rfl, u, v, rfl, hu, hv⟩
            exact ⟨c :: u, v, rfl, ⟨u, rfl, hu⟩, hv⟩
          · rintro ⟨_, v, rfl, ⟨u, rfl, hu⟩, hv⟩
            exact ⟨u ++ v, rfl, u, v, rfl, hu, hv⟩
      | one =>
          simp only [covers_one, ih]
          constructor
          · rintro ⟨d, _, rfl, u, v, rfl, hu, hv⟩
            exact ⟨d :: u, v, rfl, ⟨d, u, rfl, hu⟩, hv⟩
          · rintro ⟨_, v, rfl, ⟨d, u, rfl, hu⟩, hv⟩
            exact ⟨d, u ++ v, rfl, u, v, rfl, hu, hv⟩
      | any =>
          simp only [covers_any, ih]
          constructor
          · rintro ⟨t, _, rfl, u, v, rfl, hu, hv⟩
            exact ⟨t ++ u, v, by simp, ⟨t, u, rfl, hu⟩, hv⟩
          · rintro ⟨_, v, rfl, ⟨t, u, rfl, hu⟩, hv⟩
            exact ⟨t, u ++ v, by simp, u, v, rfl, hu, hv⟩

/-- Characters match themselves. -/
theorem covers_map_char {s : List Char} : covers (s.map .char) text ↔ text = s := by
  induction s generalizing text with
  | nil => simp
  | cons c s ih => simp [ih]

/-- Between two `%` the items match within the text. -/
theorem covers_within :
    covers (.any :: is ++ [.any]) text ↔ ∃ u, u <:+: text ∧ covers is u := by
  simp only [List.cons_append, covers_any, covers_append]
  constructor
  · rintro ⟨s, _, rfl, u, _, rfl, hu, -⟩
    exact ⟨u, ⟨s, _, by rw [List.append_assoc]⟩, hu⟩
  · rintro ⟨u, ⟨s, t, rfl⟩, hu⟩
    exact ⟨s, u ++ t, by rw [List.append_assoc], u, t, rfl, hu, t, [], by simp, by simp⟩

end Covers

/-! ### How patterns are read -/

section Items

variable {is : List Item} {p q s text : List Char} {c : Char}

theorem item_of_literal (h : Literal c) : item c = .char c := by
  rw [item, if_neg h.1, if_neg h.2.1]

/-- A pattern that ends in no open escape is read on its own. -/
theorem items_append (h : items p = some is) : items (p ++ q) = (items q).map (is ++ ·) := by
  induction p using items.induct generalizing is with
  | case1 =>
      obtain rfl := Option.some.inj h
      simp
  | case2 => simp [items] at h
  | case3 c hc =>
      rw [items, if_neg hc] at h
      obtain rfl := Option.some.inj h
      cases q with
      | nil => simp [items, hc]
      | cons d rest => simp [items, hc]
  | case4 d rest ih =>
      rw [items, if_pos rfl] at h
      obtain ⟨js, hjs, rfl⟩ := Option.map_eq_some_iff.mp h
      rw [List.cons_append, List.cons_append, items, if_pos rfl, ih hjs, Option.map_map]
      rfl
  | case5 c d rest hc ih =>
      rw [items, if_neg hc] at h
      obtain ⟨js, hjs, rfl⟩ := Option.map_eq_some_iff.mp h
      rw [List.cons_append, List.cons_append, items, if_neg hc, ← List.cons_append, ih hjs,
        Option.map_map]
      rfl

/-- Without a backslash every character is read on its own. -/
theorem items_of_unescaped (h : ∀ c ∈ s, c ≠ '\\') : items s = some (s.map item) := by
  induction s with
  | nil => rfl
  | cons c s ih =>
      have hsingle : items [c] = some [item c] := by rw [items, if_neg (h c (by simp))]
      have hrest := ih fun d hd => h d (by simp [hd])
      rw [← List.singleton_append, items_append hsingle, hrest]
      rfl

theorem items_of_literal (h : ∀ c ∈ s, Literal c) : items s = some (s.map .char) := by
  rw [items_of_unescaped fun c hc => (h c hc).2.2]
  exact congrArg some (List.map_congr_left fun c hc => item_of_literal (h c hc))

/-- A pattern with a last character that is no escape is never left open. -/
theorem exists_items_concat (s : List Char) (hc : c ≠ '\\') : ∃ is, items (s ++ [c]) = some is := by
  induction s using items.induct with
  | case1 => exact ⟨[item c], by rw [List.nil_append, items, if_neg hc]⟩
  | case2 => exact ⟨[.char c], by simp [items]⟩
  | case3 d hd => exact ⟨[item d, item c], by simp [items, hd, hc]⟩
  | case4 e rest ih =>
      obtain ⟨is, his⟩ := ih
      exact ⟨.char e :: is, by simp [items, his]⟩
  | case5 d e rest hd ih =>
      obtain ⟨is, his⟩ := ih
      rw [List.cons_append] at his
      exact ⟨item d :: is, by simp [items, hd, his]⟩

end Items

/-! ### Searching within a text -/

section Within

variable {p s text : List Char} {c : Char}

theorem items_percent : items ['%'] = some [.any] := by decide

/-- `%p%`, for a pattern `p` that is not left open. -/
theorem like_within {is : List Item} (h : items p = some is) :
    like ('%' :: p ++ ['%']) text ↔ ∃ u, u <:+: text ∧ like p u := by
  have hread : items ('%' :: p ++ ['%']) = some (.any :: is ++ [.any]) := by
    rw [← List.singleton_append, List.append_assoc, items_append items_percent, items_append h,
      items_percent]
    rfl
  simp only [like, hread, h, covers_within]

theorem like_literal (h : ∀ c ∈ s, Literal c) : like s text ↔ text = s := by
  rw [like, items_of_literal h]
  exact covers_map_char

/-- Without special characters `%s%` searches for `s`. -/
theorem like_within_literal (h : ∀ c ∈ s, Literal c) :
    like ('%' :: s ++ ['%']) text ↔ s <:+: text := by
  rw [like_within (items_of_literal h)]
  simp only [like_literal h]
  constructor
  · rintro ⟨_, hu, rfl⟩
    exact hu
  · exact fun hs => ⟨s, hs, rfl⟩

end Within

/-! ### The texts a pattern stands for -/

section Denotes

variable {p q text : List Char} {c d : Char}

end Denotes

/-! ### Texts a pattern matches by accident -/

/-- A text the items match: dashes for single characters, nothing for `%`. -/
def sample : List Item → List Char
  | [] => []
  | .char c :: is => c :: sample is
  | .one :: is => '-' :: sample is
  | .any :: is => sample is

theorem covers_sample (is : List Item) : covers is (sample is) := by
  induction is with
  | nil => rfl
  | cons i is ih =>
      cases i with
      | char c => exact covers_char.mpr ⟨_, rfl, ih⟩
      | one => exact covers_one.mpr ⟨_, _, rfl, ih⟩
      | any => exact covers_any.mpr ⟨[], _, rfl, ih⟩

section Sample

variable {is : List Item} {s : List Char}

theorem mem_sample_item {c d : Char} (h : c ∈ sample (item d :: is)) :
    c = d ∨ c = '-' ∨ c ∈ sample is := by
  unfold item at h
  split_ifs at h
  · exact .inr (.inr h)
  · rcases List.mem_cons.mp h with hc | hc
    · exact .inr (.inl hc)
    · exact .inr (.inr hc)
  · rcases List.mem_cons.mp h with hc | hc
    · exact .inl hc
    · exact .inr (.inr hc)

theorem length_sample_item_le (c : Char) : (sample (item c :: is)).length ≤ (sample is).length + 1 := by
  unfold item
  split_ifs <;> simp [sample]

/-- The sample of `s%` is not longer than `s`, and differs from it unless the
characters of `s` stand for themselves. -/
theorem sample_items (h : items (s ++ ['%']) = some is) :
    (sample is).length ≤ s.length ∧ (sample is = s → ∀ c ∈ s, Literal c) := by
  induction s using items.induct generalizing is with
  | case1 =>
      obtain rfl := Option.some.inj (items_percent.symm.trans h)
      simp [sample]
  | case2 =>
      -- the backslash takes the closing `%`
      obtain rfl : [.char '%'] = is := Option.some.inj h
      exact ⟨le_rfl, fun heq => absurd heq (by decide)⟩
  | case3 c hc =>
      have hread : items ([c] ++ ['%']) = some [item c, .any] := by
        rw [List.singleton_append, items, if_neg hc, items_percent]
        rfl
      obtain rfl := Option.some.inj (hread.symm.trans h)
      refine ⟨length_sample_item_le c, fun heq d hd => ?_⟩
      obtain rfl := List.mem_singleton.mp hd
      unfold item at heq
      split_ifs at heq with hany hone
      · cases heq
      · exact absurd (hone ▸ heq) (by decide)
      · exact ⟨hany, hone, hc⟩
  | case4 d rest ih =>
      rw [List.cons_append, List.cons_append, items, if_pos rfl] at h
      obtain ⟨js, hjs, rfl⟩ := Option.map_eq_some_iff.mp h
      obtain ⟨hlength, -⟩ := ih hjs
      have hshort : (sample (.char d :: js)).length < ('\\' :: d :: rest).length := by
        simp only [sample, List.length_cons]
        omega
      exact ⟨hshort.le, fun heq => absurd (congrArg List.length heq) hshort.ne⟩
  | case5 c d rest hc ih =>
      rw [List.cons_append, List.cons_append, items, if_neg hc, ← List.cons_append] at h
      obtain ⟨js, hjs, rfl⟩ := Option.map_eq_some_iff.mp h
      obtain ⟨hlength, hsame⟩ := ih hjs
      refine ⟨(length_sample_item_le c).trans (Nat.succ_le_succ hlength), fun heq => ?_⟩
      unfold item at heq
      split_ifs at heq with hany hone
      · -- nothing stands for this `%`, so the sample is too short
        have hlonger : (sample js).length = (c :: d :: rest).length := congrArg List.length heq
        rw [List.length_cons] at hlonger
        omega
      · have hhead := (List.cons.inj heq).1
        exact absurd (hhead.trans hone) (by decide)
      · rintro x (_ | ⟨_, hx⟩)
        · exact ⟨hany, hone, hc⟩
        · exact hsame (List.cons.inj heq).2 x hx

theorem mem_sample {c : Char} (h : items (s ++ ['%']) = some is) (hc : c ∈ sample is) :
    c ∈ s ∨ c = '-' ∨ c = '%' := by
  induction s using items.induct generalizing is with
  | case1 =>
      obtain rfl := Option.some.inj (items_percent.symm.trans h)
      cases hc
  | case2 =>
      obtain rfl : [.char '%'] = is := Option.some.inj h
      exact .inr (.inr (List.mem_singleton.mp hc))
  | case3 d hd =>
      have hread : items ([d] ++ ['%']) = some [item d, .any] := by
        rw [List.singleton_append, items, if_neg hd, items_percent]
        rfl
      obtain rfl := Option.some.inj (hread.symm.trans h)
      rcases mem_sample_item hc with rfl | hdash | hnone
      · exact .inl (List.mem_singleton_self c)
      · exact .inr (.inl hdash)
      · cases hnone
  | case4 d rest ih =>
      rw [List.cons_append, List.cons_append, items, if_pos rfl] at h
      obtain ⟨js, hjs, rfl⟩ := Option.map_eq_some_iff.mp h
      rcases List.mem_cons.mp hc with rfl | hc
      · exact .inl (by simp)
      · exact (ih hjs hc).imp_left fun hrest => by simp [hrest]
  | case5 d e rest hd ih =>
      rw [List.cons_append, List.cons_append, items, if_neg hd, ← List.cons_append] at h
      obtain ⟨js, hjs, rfl⟩ := Option.map_eq_some_iff.mp h
      rcases mem_sample_item hc with rfl | hdash | hc
      · exact .inl (by simp)
      · exact .inr (.inl hdash)
      · exact (ih hjs hc).imp_left fun hrest => List.mem_cons_of_mem _ hrest

/-- With a special character `%s%` matches a text that `s` does not occur in. -/
theorem exists_like_within (hs : ¬ ∀ c ∈ s, Literal c) :
    ∃ text, like ('%' :: s ++ ['%']) text ∧ ¬ s <:+: text ∧
      ∀ c ∈ text, c ∈ s ∨ c = '-' ∨ c = '%' := by
  obtain ⟨is, his⟩ := exists_items_concat s (c := '%') (by decide)
  obtain ⟨hlength, hsame⟩ := sample_items his
  have hread : items ('%' :: s ++ ['%']) = some (.any :: is) := by
    rw [List.cons_append, ← List.singleton_append, items_append items_percent, his]
    rfl
  refine ⟨sample is, ?_, fun hwithin => ?_, fun c hc => mem_sample his hc⟩
  · rw [like, hread]
    exact covers_any.mpr ⟨[], _, rfl, covers_sample is⟩
  · exact hs (hsame (hwithin.eq_of_length (le_antisymm hwithin.length_le hlength)).symm)

end Sample

end Sql
