import Mathlib.Algebra.GroupWithZero.Nat
import Mathlib.Data.List.Basic
import Mathlib.Algebra.BigOperators.Group.List.Basic
import Mathlib.Logic.Function.Basic

/-!
# Copying memory block by block

Memory maps places to values. A copy proceeds in blocks, each of which is read before it is
stored; when no place is both read and stored, the blocks do not show in the result.
-/

namespace CassiOS.Support.BlockCopy

set_option autoImplicit false

variable {Place Value : Type*} [DecidableEq Place]

/-- `values 0` to `values (n - 1)`, stored one after the other. -/
def store (dst : Nat → Place) (values : Nat → Value) (n : Nat) (m : Place → Value) :
    Place → Value :=
  (List.range n).foldl (fun m i => Function.update m (dst i) (values i)) m

/-- Blocks of the given sizes from `offset` on. -/
def copyBlocks (dst src : Nat → Place) : List Nat → Nat → (Place → Value) → Place → Value
  | [], _, m => m
  | n :: rest, offset, m =>
      copyBlocks dst src rest (offset + n)
        (store (fun i => dst (offset + i)) (fun i => m (src (offset + i))) n m)

section Stores

variable {dst : Nat → Place} {values values' : Nat → Value} {n : Nat} {m : Place → Value}
  {place : Place}

@[simp] theorem store_zero : store dst values 0 m = m := rfl

theorem store_succ :
    store dst values (n + 1) m = Function.update (store dst values n m) (dst n) (values n) := by
  unfold store
  rw [List.range_succ, List.foldl_append]
  rfl

theorem store_add (a b : Nat) :
    store dst values (a + b) m =
      store (fun i => dst (a + i)) (fun i => values (a + i)) b (store dst values a m) := by
  unfold store
  rw [List.range_add, List.foldl_append, List.foldl_map]

theorem store_congr (same : ∀ i, i < n → values i = values' i) :
    store dst values n m = store dst values' n m := by
  induction n with
  | zero => rfl
  | succ n ih =>
      rw [store_succ, store_succ, ih fun i below => same i (by omega), same n (Nat.lt_succ_self n)]

theorem store_apart (apart : ∀ i, i < n → dst i ≠ place) :
    store dst values n m place = m place := by
  induction n with
  | zero => rfl
  | succ n ih =>
      rw [store_succ, Function.update_of_ne (apart n (Nat.lt_succ_self n)).symm]
      exact ih fun i below => apart i (by omega)

theorem store_at (once : ∀ i j, i < n → j < n → dst i = dst j → i = j) {i : Nat}
    (inside : i < n) : store dst values n m (dst i) = values i := by
  induction n with
  | zero => exact absurd inside (Nat.not_lt_zero i)
  | succ n ih =>
      rw [store_succ]
      by_cases last : i = n
      · rw [last, Function.update_self]
      · have other : dst i ≠ dst n := fun same =>
          last (once i n inside (Nat.lt_succ_self n) same)
        rw [Function.update_of_ne other]
        exact ih (fun a b low low' => once a b (by omega) (by omega)) (by omega)

end Stores

section Blocks

variable {dst src : Nat → Place} {m : Place → Value}

theorem copy_blocks_eq (sizes : List Nat) (offset : Nat)
    (apart : ∀ i j, i < offset + sizes.sum → j < offset + sizes.sum → dst i ≠ src j) :
    copyBlocks dst src sizes offset m =
      store (fun i => dst (offset + i)) (fun i => m (src (offset + i))) sizes.sum m := by
  induction sizes generalizing offset m with
  | nil => rfl
  | cons n rest ih =>
      rw [List.sum_cons] at apart ⊢
      unfold copyBlocks
      rw [ih (offset + n) fun i j low low' => apart i j (by omega) (by omega), store_add]
      simp only [Nat.add_assoc]
      apply store_congr
      intro i below
      apply store_apart
      intro j low
      exact apart (offset + j) (offset + (n + i)) (by omega) (by omega)

end Blocks

end CassiOS.Support.BlockCopy
