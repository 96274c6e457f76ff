import Mathlib.Data.List.Basic
import Mathlib.Data.Int.Notation

/-!
# List indices

Which position of a list of length `n` an index denotes: a negative index counts from the end, and
an index outside `range(-n, n)` is an `IndexError`.
-/

namespace MinCpuForth.Python

/-- An index from the front, as a position. -/
lemma toNat_lt {n : ℕ} {i : ℤ} (h : 0 ≤ i ∧ i < n) : i.toNat < n := by
  omega

/-- The position that index `i` denotes; `none` is the `IndexError`. -/
def index? (n : ℕ) (i : ℤ) : Option (Fin n) :=
  if h : 0 ≤ i ∧ i < n then some ⟨i.toNat, toNat_lt h⟩
  else if h : -n ≤ i ∧ i < 0 then some ⟨(i + n).toNat, by omega⟩
  else none

/-- A nonnegative index below the length denotes itself. -/
lemma index?_of_lt {n : ℕ} {i : ℤ} (h0 : 0 ≤ i) (h1 : i < n) :
    index? n i = some ⟨i.toNat, by omega⟩ := by
  simp [index?, h0, h1]

/-- What position an index denotes. -/
lemma index?_eq_some {n : ℕ} {i : ℤ} {k : Fin n} :
    index? n i = some k ↔ (k : ℤ) = i ∨ (k : ℤ) = i + n := by
  have hk := k.isLt
  unfold index?
  split
  · rename_i h
    simp only [Option.some.injEq, Fin.ext_iff]
    omega
  · split
    · rename_i h
      simp only [Option.some.injEq, Fin.ext_iff]
      omega
    · simp only [reduceCtorEq, false_iff]
      omega

/-- The indices that denote nothing. -/
lemma index?_eq_none {n : ℕ} {i : ℤ} : index? n i = none ↔ i < -n ∨ n ≤ i := by
  unfold index?
  split
  · simp only [reduceCtorEq, false_iff]
    omega
  · split <;> simp only [reduceCtorEq, false_iff, true_iff] <;> omega

/-- The indices that denote a position. -/
lemma exists_index {n : ℕ} {i : ℤ} (low : -n ≤ i) (high : i < n) : ∃ k, index? n i = some k := by
  cases e : index? n i with
  | none =>
    have outside := index?_eq_none.mp e
    omega
  | some k => exact ⟨k, rfl⟩

end MinCpuForth.Python
