import Mathlib.Tactic.Common

/-!
# Row-major layout

Element `i` of row `a` lies at index `a * width + i`. Rows do not overlap, and `height` rows
fill the first `height * width` indices.
-/

namespace CassiOS.Support.RowMajor

set_option autoImplicit false

variable {width height a b i j : Nat}

theorem index_unique (insideI : i < width) (insideJ : j < width)
    (same : a * width + i = b * width + j) : a = b ∧ i = j := by
  have quotA : (a * width + i) / width = a := by
    rw [Nat.mul_comm, Nat.mul_add_div (by omega), Nat.div_eq_of_lt insideI, Nat.add_zero]
  have quotB : (b * width + j) / width = b := by
    rw [Nat.mul_comm, Nat.mul_add_div (by omega), Nat.div_eq_of_lt insideJ, Nat.add_zero]
  have rows : a = b := by rw [← quotA, same, quotB]
  subst rows
  exact ⟨rfl, by omega⟩

theorem index_lt (row : a < height) (inside : i < width) : a * width + i < height * width := by
  have next : (a + 1) * width ≤ height * width := Nat.mul_le_mul_right width row
  rw [Nat.succ_mul] at next
  omega

/-- A row starts behind `n` rows exactly when its number is at least `n`. -/
theorem le_index_iff (inside : i < width) {n : Nat} : n * width ≤ a * width + i ↔ n ≤ a := by
  constructor
  · intro le
    by_contra less
    have next := index_lt (Nat.not_le.1 less) inside
    omega
  · intro le
    have next : n * width ≤ a * width := Nat.mul_le_mul_right width le
    omega

end CassiOS.Support.RowMajor
