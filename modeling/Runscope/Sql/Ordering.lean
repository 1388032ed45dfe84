import Mathlib.Algebra.Order.Floor.Semiring
import Mathlib.Data.List.Sort
import Mathlib.Data.Rat.Floor

/-!
`ORDER BY`, `OFFSET` and `LIMIT`.

Rows that a query leaves unordered come in any order, another one for each
query. Pages of a collection fit together nevertheless if no two of its rows
are equal in the order.
-/

namespace Sql

variable {ρ κ : Type}

/-- The order in which the database comes across the rows of a query. -/
structure Scan (ρ : Type) where
  order : List ρ → List ρ
  perm : ∀ rows, (order rows).Perm rows

/-- The order in which they are stored. -/
def Scan.stored : Scan ρ := ⟨id, fun _ => .refl _⟩

/-- An expression of `ORDER BY`: rows may be equal in it. -/
structure Order (ρ : Type) where
  le : ρ → ρ → Bool
  total : ∀ a b, le a b ∨ le b a
  trans : ∀ a b c, le a b → le b c → le a c

namespace Order

/-- By the value of a column. -/
def on [LinearOrder κ] (column : ρ → κ) : Order ρ where
  le a b := column a ≤ column b
  total a b := by simpa using le_total (column a) (column b)
  trans a b c := by simpa using le_trans

/-- By the value of a column, in an order of its own. -/
def comap (o : Order κ) (column : ρ → κ) : Order ρ where
  le a b := o.le (column a) (column b)
  total _ _ := o.total _ _
  trans _ _ _ := o.trans _ _ _

def desc (o : Order ρ) : Order ρ where
  le a b := o.le b a
  total a b := o.total b a
  trans _ _ _ h h' := o.trans _ _ _ h' h

/-- Rows that are equal in the first order come in the second. -/
def thenBy (o o' : Order ρ) : Order ρ where
  le a b := o.le a b && (!o.le b a || o'.le a b)
  total a b := by
    have htotal := o.total a b
    have htotal' := o'.total a b
    cases hab : o.le a b with
    | false => simpa [hab] using htotal
    | true =>
        cases hba : o.le b a with
        | false => simp
        | true => simpa using htotal'
  trans a b c := by
    have htrans := o.trans a b c
    have htrans' := o'.trans a b c
    have hback := o.trans c a b
    have hback' := o.trans b c a
    simp only [Bool.and_eq_true, Bool.or_eq_true, Bool.not_eq_true']
    rintro ⟨hab, hba⟩ ⟨hbc, hcb⟩
    refine ⟨htrans hab hbc, ?_⟩
    cases hca : o.le c a with
    | false => exact .inl rfl
    | true =>
        rw [hback hca hab] at hcb
        rw [hback' hbc hca] at hba
        exact .inr (htrans' (hba.resolve_left nofun) (hcb.resolve_left nofun))

end Order

/-- `ORDER BY`: rows that are equal in the order stay as they are scanned. -/
def orderBy (scan : Scan ρ) (o : Order ρ) (rows : List ρ) : List ρ :=
  (scan.order rows).insertionSort fun a b => o.le a b

section OrderBy

variable {scan : Scan ρ} {o : Order ρ} {rows : List ρ}

theorem perm_orderBy : (orderBy scan o rows).Perm rows :=
  (List.perm_insertionSort _ _).trans (scan.perm rows)

theorem pairwise_orderBy : (orderBy scan o rows).Pairwise fun a b => o.le a b := by
  have : Std.Total fun a b => o.le a b = true := ⟨o.total⟩
  have : IsTrans ρ fun a b => o.le a b = true := ⟨o.trans⟩
  exact List.pairwise_insertionSort _ _

/-- With a key as the last order there is only one way to order rows whose keys
differ. -/
theorem eq_of_pairwise_thenBy [LinearOrder κ] {key : ρ → κ} {l l' : List ρ} (hperm : l.Perm l')
    (hkeys : (l'.map key).Nodup) (h : l.Pairwise fun a b => (o.thenBy (.on key)).le a b)
    (h' : l'.Pairwise fun a b => (o.thenBy (.on key)).le a b) : l = l' := by
  refine hperm.eq_of_pairwise (fun a b ha hb hab hba => ?_) h h'
  simp only [Order.thenBy, Order.on, Bool.and_eq_true, Bool.or_eq_true, Bool.not_eq_true',
    decide_eq_true_eq] at hab hba
  obtain ⟨hle, hkey⟩ := hab
  obtain ⟨hle', hkey'⟩ := hba
  rw [hle'] at hkey
  rw [hle] at hkey'
  have hsame : key a = key b :=
    le_antisymm (hkey.resolve_left nofun) (hkey'.resolve_left nofun)
  exact List.inj_on_of_nodup_map hkeys (hperm.subset ha) hb hsame

/-- So the scan makes no difference. -/
theorem orderBy_thenBy_eq [LinearOrder κ] {key : ρ → κ} (hkeys : (rows.map key).Nodup)
    (scan scan' : Scan ρ) :
    orderBy scan (o.thenBy (.on key)) rows = orderBy scan' (o.thenBy (.on key)) rows :=
  eq_of_pairwise_thenBy (perm_orderBy.trans perm_orderBy.symm)
    ((perm_orderBy.map key).nodup_iff.mpr hkeys) pairwise_orderBy pairwise_orderBy

end OrderBy

/-! ### Pages -/

/-- `OFFSET (page - 1) * size LIMIT size` -/
def slice (page size : ℕ) (rows : List ρ) : List ρ := (rows.drop ((page - 1) * size)).take size

/-- The number of pages: the quotient, rounded up. -/
def pageCount (total size : ℕ) : ℕ := if total = 0 then 0 else ⌈(total : ℚ) / size⌉₊

section Pages

variable {rows : List ρ} {page size total k : ℕ}

theorem pageCount_eq (total size : ℕ) : pageCount total size = ⌈(total : ℚ) / size⌉₊ := by
  rw [pageCount]
  split
  · next h => simp [h]
  · rfl

theorem lt_pageCount (hsize : 0 < size) : k < pageCount total size ↔ k * size < total := by
  have hpos : (0 : ℚ) < size := by exact_mod_cast hsize
  rw [pageCount_eq, Nat.lt_ceil, lt_div_iff₀ hpos]
  exact_mod_cast Iff.rfl

/-- The first pages together. -/
theorem flatMap_slice (n : ℕ) :
    ((List.range n).flatMap fun k => slice (k + 1) size rows) = rows.take (n * size) := by
  induction n with
  | zero => rw [Nat.zero_mul, List.take_zero, List.range_zero, List.flatMap_nil]
  | succ n ih =>
      have hnext : slice (n + 1) size rows = (rows.drop (n * size)).take size := rfl
      rw [List.range_succ, List.flatMap_append, ih, List.flatMap_singleton, hnext, Nat.succ_mul,
        List.take_add]

/-- All pages together. -/
theorem flatMap_slice_pageCount (hsize : 0 < size) :
    ((List.range (pageCount rows.length size)).flatMap fun k => slice (k + 1) size rows) = rows := by
  have hall : rows.length ≤ pageCount rows.length size * size := by
    by_contra hless
    exact absurd ((lt_pageCount hsize).mpr (not_le.mp hless)) (lt_irrefl _)
  rw [flatMap_slice, List.take_of_length_le hall]

theorem length_slice : (slice page size rows).length = min size (rows.length - (page - 1) * size) := by
  rw [slice, List.length_take, List.length_drop]

/-- Every page but the last is full. -/
theorem length_slice_of_lt (hsize : 0 < size) (hpage : 1 ≤ page)
    (h : page < pageCount rows.length size) : (slice page size rows).length = size := by
  have hmore := (lt_pageCount hsize).mp h
  have hsplit : page * size = (page - 1) * size + size := by
    rw [← Nat.succ_mul, Nat.succ_eq_add_one, Nat.sub_add_cancel hpage]
  rw [length_slice]
  omega

/-- The pages up to the last are not empty. -/
theorem slice_ne_nil (hsize : 0 < size) (hpage : 1 ≤ page)
    (h : page ≤ pageCount rows.length size) : slice page size rows ≠ [] := by
  have hmore : (page - 1) * size < rows.length := (lt_pageCount hsize).mp (by omega)
  rw [← List.length_pos_iff, length_slice]
  omega

/-- The pages beyond the last are empty. -/
theorem slice_eq_nil (hsize : 0 < size) (h : pageCount rows.length size < page) :
    slice page size rows = [] := by
  have hnone : ¬ (page - 1) * size < rows.length := fun hmore => by
    have hlt := (lt_pageCount hsize).mpr hmore
    omega
  rw [← List.length_eq_zero_iff, length_slice]
  omega

end Pages

end Sql
