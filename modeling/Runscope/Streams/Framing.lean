import Mathlib.Data.List.Basic
import Mathlib.Data.Nat.Notation

/-!
Frames cut out of a stream that arrives in pieces.

A reader keeps what it has not understood yet in a buffer, appends each piece
as it comes and hands on every block that a separator ends. What it hands on
depends on the stream alone, not on how the stream was cut.
-/

namespace Streams

variable {α σ : Type} [DecidableEq α]

/-- Where `sep` first occurs. -/
def indexOf? (sep : List α) : List α → Option ℕ
  | [] => if sep = [] then some 0 else none
  | a :: s => if sep <+: a :: s then some 0 else (indexOf? sep s).map (· + 1)

theorem indexOf?_le {sep s : List α} {b : ℕ} (h : indexOf? sep s = some b) :
    b + sep.length ≤ s.length := by
  induction s generalizing b with
  | nil =>
      simp only [indexOf?, Option.ite_none_right_eq_some, Option.some.injEq] at h
      simp [h.1, ← h.2]
  | cons a s ih =>
      rw [indexOf?] at h
      split at h
      · next hprefix =>
        obtain rfl := Option.some.inj h
        simpa using hprefix.length_le
      · obtain ⟨c, hc, rfl⟩ := Option.map_eq_some_iff.mp h
        have := ih hc
        simp only [List.length_cons]
        omega

/-- What comes later does not move the first occurrence. -/
theorem indexOf?_append {sep s : List α} {b : ℕ} (h : indexOf? sep s = some b) (s' : List α) :
    indexOf? sep (s ++ s') = some b := by
  induction s generalizing b with
  | nil =>
      simp only [indexOf?, Option.ite_none_right_eq_some, Option.some.injEq] at h
      obtain ⟨rfl, rfl⟩ := h
      cases s' <;> simp [indexOf?]
  | cons a s ih =>
      have hle := indexOf?_le h
      rw [indexOf?] at h
      rw [List.cons_append, indexOf?]
      split at h
      · next hprefix =>
        have hlong : sep <+: a :: (s ++ s') := hprefix.trans (List.prefix_append (a :: s) s')
        rw [if_pos hlong, h]
      · next hprefix =>
        obtain ⟨c, hc, rfl⟩ := Option.map_eq_some_iff.mp h
        rw [if_neg fun hlong => hprefix ?_, ih hc]
        · rfl
        · refine List.prefix_of_prefix_length_le hlong (List.prefix_append (a :: s) s') ?_
          simp only [List.length_cons] at hle ⊢
          omega

/-- Hands every block that is complete to `f`; what is left has no separator. -/
def drain (sep : List α) (hsep : sep ≠ []) (f : σ → List α → σ) (s : σ) (buffer : List α) :
    σ × List α :=
  match _h : indexOf? sep buffer with
  | none => (s, buffer)
  | some b => drain sep hsep f (f s (buffer.take b)) (buffer.drop (b + sep.length))
termination_by buffer.length
decreasing_by
  have := indexOf?_le _h
  have := List.length_pos_iff.mpr hsep
  rw [List.length_drop]
  omega

section Drain

variable {sep : List α} {hsep : sep ≠ []} {f : σ → List α → σ}

theorem drain_none {s : σ} {buffer : List α} (h : indexOf? sep buffer = none) :
    drain sep hsep f s buffer = (s, buffer) := by
  rw [drain]
  split
  · rfl
  · next hb => simp [h] at hb

theorem drain_some {s : σ} {buffer : List α} {b : ℕ} (h : indexOf? sep buffer = some b) :
    drain sep hsep f s buffer =
      drain sep hsep f (f s (buffer.take b)) (buffer.drop (b + sep.length)) := by
  rw [drain]
  split
  · next hb => simp [h] at hb
  · next c hc =>
    obtain rfl := Option.some.inj (hc.symm.trans h)
    rfl

theorem drain_rest (s : σ) (buffer : List α) :
    indexOf? sep (drain sep hsep f s buffer).2 = none := by
  fun_induction drain sep hsep f s buffer with
  | case1 s buffer h => exact h
  | case2 s buffer b h ih => exact ih

/-- Draining early makes no difference. -/
theorem drain_append (s : σ) (buffer rest : List α) :
    drain sep hsep f s (buffer ++ rest) =
      drain sep hsep f (drain sep hsep f s buffer).1
        ((drain sep hsep f s buffer).2 ++ rest) := by
  fun_induction drain sep hsep f s buffer with
  | case1 s buffer h => rfl
  | case2 s buffer b h ih =>
      have hle := indexOf?_le h
      rw [drain_some (indexOf?_append h rest), ← ih, List.take_append_of_le_length (by omega),
        List.drop_append_of_le_length hle]

/-- What every block preserves, draining preserves. -/
theorem drain_preserves {P : σ → Prop} (hP : ∀ s block, P s → P (f s block)) (s : σ)
    (buffer : List α) (hs : P s) : P (drain sep hsep f s buffer).1 := by
  fun_induction drain sep hsep f s buffer with
  | case1 s buffer h => exact hs
  | case2 s buffer b h ih => exact ih (hP _ _ hs)

variable (sep hsep f) in
/-- Reads the pieces of a stream. -/
def read (r : σ × List α) (pieces : List (List α)) : σ × List α :=
  pieces.foldl (fun r piece => drain sep hsep f r.1 (r.2 ++ piece)) r

/-- Only the whole of the stream matters. -/
theorem read_eq (s : σ) (buffer : List α) (h : indexOf? sep buffer = none)
    (pieces : List (List α)) :
    read sep hsep f (s, buffer) pieces = drain sep hsep f s (buffer ++ pieces.flatten) := by
  induction pieces generalizing s buffer with
  | nil => simp [read, drain_none h]
  | cons piece pieces ih =>
      have hrest := ih (drain sep hsep f s (buffer ++ piece)).1
        (drain sep hsep f s (buffer ++ piece)).2 (drain_rest _ _)
      simp only [read, List.foldl_cons] at hrest ⊢
      rw [hrest, List.flatten_cons, ← List.append_assoc, ← drain_append]

theorem read_preserves {P : σ → Prop} (hP : ∀ s block, P s → P (f s block)) (r : σ × List α)
    (pieces : List (List α)) (hr : P r.1) : P (read sep hsep f r pieces).1 := by
  induction pieces generalizing r with
  | nil => exact hr
  | cons piece pieces ih => exact ih _ (drain_preserves hP _ _ hr)

variable (sep) in
/-- The separator ends this block and does not occur before. -/
def Sealed (block : List α) : Prop := indexOf? sep (block ++ sep) = some block.length

/-- Sealed blocks come out as they went in. -/
theorem drain_sealed {blocks : List (List α)} (h : ∀ block ∈ blocks, Sealed sep block) (s : σ) :
    drain sep hsep f s (blocks.flatMap (· ++ sep)) = (blocks.foldl f s, []) := by
  induction blocks generalizing s with
  | nil =>
      rw [List.flatMap_nil, drain_none (by simp [indexOf?, hsep])]
      rfl
  | cons block blocks ih =>
      have hblock : indexOf? sep (block ++ sep) = some block.length := h block (by simp)
      rw [List.flatMap_cons, drain_some (indexOf?_append hblock _)]
      have htake : (block ++ sep ++ blocks.flatMap (· ++ sep)).take block.length = block := by
        simp
      have hdrop : (block ++ sep ++ blocks.flatMap (· ++ sep)).drop (block.length + sep.length) =
          blocks.flatMap (· ++ sep) := by
        rw [← List.length_append, List.drop_left]
      rw [htake, hdrop, ih (fun block hb => h block (by simp [hb])), List.foldl_cons]

end Drain

/-! ### A doubled letter as separator -/

section Doubled

variable {c : α} {line : List α}

theorem indexOf?_line (hline : c ∉ line) : indexOf? [c, c] (line ++ [c, c]) = some line.length := by
  induction line with
  | nil => simp [indexOf?]
  | cons a line ih =>
      obtain ⟨hne, hline⟩ := not_or.mp (mt List.mem_cons.mpr hline)
      simp [indexOf?, hne, ih hline]

/-- A line ended once. -/
theorem indexOf?_line_append (hline : c ∉ line) {a : α} (ha : c ≠ a) (rest : List α) :
    indexOf? [c, c] (line ++ c :: a :: rest) =
      (indexOf? [c, c] (a :: rest)).map (· + (line.length + 1)) := by
  induction line with
  | nil =>
      rw [List.nil_append, indexOf?]
      simp [ha]
  | cons b line ih =>
      obtain ⟨hne, hline⟩ := not_or.mp (mt List.mem_cons.mpr hline)
      rw [List.cons_append, indexOf?, if_neg (by simp [hne]), ih hline, Option.map_map]
      congr 1

/-- Lines without the letter, none empty after the first, joined by it. -/
theorem sealed_line (hline : c ∉ line) : Sealed [c, c] line := indexOf?_line hline

theorem Sealed.cons {a : α} {rest : List α} (h : Sealed [c, c] (a :: rest)) (hline : c ∉ line)
    (ha : c ≠ a) : Sealed [c, c] (line ++ c :: a :: rest) := by
  rw [Sealed] at h ⊢
  rw [List.append_assoc, List.cons_append, List.cons_append, indexOf?_line_append hline ha,
    ← List.cons_append, h]
  simp
  omega

end Doubled

end Streams
