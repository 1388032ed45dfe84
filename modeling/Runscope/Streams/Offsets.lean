import Mathlib.Data.List.Basic
import Mathlib.Data.Nat.Basic
import Mathlib.Logic.Function.Basic

/-!
Offsets of a consumer in a log with partitions.

A partition only grows. A consumer stands at an offset in each partition; what
lies before it has been done, except for the message it is busy with.
-/

namespace Streams

variable {α : Type}

/-- What lies before the position is done, or is the message at hand. -/
structure Before (log : ℕ → List α) (done : α → Prop) (position : ℕ → ℕ) (pending : Option α) :
    Prop where
  within : ∀ k, position k ≤ (log k).length
  settled : ∀ k n a, n < position k → (log k)[n]? = some a → done a ∨ pending = some a

namespace Before

variable {log log' : ℕ → List α} {done done' : α → Prop} {position : ℕ → ℕ} {pending : Option α}

theorem start (log : ℕ → List α) (done : α → Prop) : Before log done (fun _ => 0) none :=
  ⟨fun _ => Nat.zero_le _, fun _ n _ hn => absurd hn n.not_lt_zero⟩

/-- Partitions grow, and what is done stays done. -/
theorem grow (h : Before log done position pending) (hlog : ∀ k, log k <+: log' k)
    (hdone : ∀ a, done a → done' a) : Before log' done' position pending where
  within k := Nat.le_trans (h.within k) (hlog k).length_le
  settled k n a hn hget := by
    have hlt : n < (log k).length := lt_of_lt_of_le hn (h.within k)
    have hsame : (log k)[n]? = (log' k)[n]? := by
      obtain ⟨rest, hrest⟩ := hlog k
      rw [← hrest, List.getElem?_append_left hlt]
    exact (h.settled k n a hn (hsame.trans hget)).imp_left (hdone a)

/-- The consumer takes the next message of a partition. -/
theorem take (h : Before log done position none) {k : ℕ} {a : α}
    (hget : (log k)[position k]? = some a) :
    Before log done (Function.update position k (position k + 1)) (some a) := by
  constructor
  · intro j
    by_cases hj : j = k
    · rw [hj, Function.update_self]
      exact (List.getElem?_eq_some_iff.mp hget).1
    · rw [Function.update_of_ne hj]
      exact h.within j
  · intro j n b hn hb
    by_cases hj : j = k
    · subst hj
      rw [Function.update_self] at hn
      rcases Nat.lt_succ_iff_lt_or_eq.mp hn with hlt | rfl
      · exact (h.settled j n b hlt hb).imp_right nofun
      · exact .inr (hget.symm.trans hb)
    · rw [Function.update_of_ne hj] at hn
      exact (h.settled j n b hn hb).imp_right nofun

/-- The message at hand is done. -/
theorem settle {a : α} (h : Before log done position (some a)) (ha : done a) :
    Before log done position none where
  within := h.within
  settled k n b hn hb := by
    rcases h.settled k n b hn hb with hdone | heq
    · exact .inl hdone
    · exact .inl (Option.some.inj heq ▸ ha)

/-- A message that is not done lies ahead. -/
theorem ahead (h : Before log done position none) {k n : ℕ} {a : α} (hget : (log k)[n]? = some a)
    (ha : ¬ done a) : position k ≤ n := by
  by_contra hn
  exact ha ((h.settled k n a (not_le.mp hn) hget).resolve_right nofun)

end Before

end Streams
