import Mathlib.Data.List.Basic
import Mathlib.Data.Nat.Notation

/-!
A bounded memory of what was seen last.

Pushing an element drops the oldest one when there are too many. As long as
only elements it does not hold are pushed, the memory is what a history
without bound says was seen last, each element counted once.
-/

namespace Streams

variable {α : Type}

/-- Adds at the end; beyond `n` elements, the first is dropped. -/
def push (n : ℕ) (memory : List α) (a : α) : List α :=
  if n < (memory ++ [a]).length then (memory ++ [a]).tail else memory ++ [a]

theorem length_push_le {n : ℕ} {memory : List α} (h : memory.length ≤ n) (a : α) :
    (push n memory a).length ≤ n := by
  rw [push]
  split
  · simpa using h
  · omega

variable [DecidableEq α]

/-- The elements of a history that begins with the newest, each where it was
seen last. -/
def distinct : List α → List α
  | [] => []
  | a :: history => a :: (distinct history).filter (· ≠ a)

/-- The `n` elements seen last. -/
def recent (n : ℕ) (history : List α) : List α := (distinct history).take n

/-- Leaving out an element beyond the first `n` changes nothing among them. -/
theorem take_filter_ne {n : ℕ} {a : α} {l : List α} (h : a ∉ l.take n) :
    (l.filter (· ≠ a)).take n = l.take n := by
  induction l generalizing n with
  | nil => rfl
  | cons b l ih =>
      cases n with
      | zero => rfl
      | succ n =>
          rw [List.take_succ_cons, List.mem_cons, not_or] at h
          rw [List.filter_cons_of_pos (by simpa using Ne.symm h.1), List.take_succ_cons,
            List.take_succ_cons, ih h.2]

/-- The memory follows the history. -/
theorem push_recent {n : ℕ} (hn : 0 < n) {history : List α} {a : α} (h : a ∉ recent n history) :
    push n (recent n history).reverse a = (recent n (a :: history)).reverse := by
  obtain ⟨n, rfl⟩ := Nat.exists_eq_add_one.mpr hn
  have hlater : a ∉ (distinct history).take n := fun hmem =>
    h ((List.take_sublist_take_left (Nat.le_succ n)).mem hmem)
  have hnew : recent (n + 1) (a :: history) = a :: (distinct history).take n := by
    rw [recent, distinct, List.take_succ_cons, take_filter_ne hlater]
  rw [hnew, push, recent]
  rcases Nat.lt_or_ge n (distinct history).length with hlong | hshort
  · have hlast : (distinct history).take (n + 1) =
        (distinct history).take n ++ [(distinct history)[n]] := List.take_succ_eq_append_getElem hlong
    rw [if_pos (by simp; omega), hlast, List.reverse_append]
    exact List.reverse_cons.symm
  · rw [if_neg (by simp; omega), List.take_of_length_le hshort,
      List.take_of_length_le (Nat.le_succ_of_le hshort)]
    simp

end Streams
