import Mathlib.Tactic.Common

/-!
# Moving ranges of cells

`moved` reads a range and then stores it elsewhere, `filled` stores one value. A range may be
moved in parts: from its start on when it moves down, from its end on when it moves up, and
either way when it moves to where it was not.
-/

namespace CassiOS.Support.RangeMoves

set_option autoImplicit false

variable {α : Type*}

def moved (dst src n : Nat) (m : Nat → α) : Nat → α :=
  fun a => if dst ≤ a ∧ a < dst + n then m (src + (a - dst)) else m a

def filled (dst : Nat) (value : α) (n : Nat) (m : Nat → α) : Nat → α :=
  fun a => if dst ≤ a ∧ a < dst + n then value else m a

section Parts

variable {dst src n k b : Nat} {m : Nat → α}

@[simp] theorem moved_zero (dst src : Nat) (m : Nat → α) : moved dst src 0 m = m := by
  funext a
  exact if_neg (by omega)

theorem moved_self (dst n : Nat) (m : Nat → α) : moved dst dst n m = m := by
  funext a
  unfold moved
  split
  · next inside =>
    have same : dst + (a - dst) = a := by omega
    rw [same]
  · rfl

@[simp] theorem filled_zero (dst : Nat) (value : α) (m : Nat → α) : filled dst value 0 m = m := by
  funext a
  exact if_neg (by omega)

/-- The part behind the first `k` cells has not been overwritten when they have been moved. -/
theorem moved_up (safe : dst ≤ src ∨ src + (k + b) ≤ dst) :
    moved (dst + k) (src + k) b (moved dst src k m) = moved dst src (k + b) m := by
  funext a
  unfold moved
  by_cases later : dst + k ≤ a ∧ a < dst + k + b
  · have kept : ¬ (dst ≤ src + k + (a - (dst + k)) ∧ src + k + (a - (dst + k)) < dst + k) := by
      omega
    have place : src + k + (a - (dst + k)) = src + (a - dst) := by omega
    rw [if_pos later, if_neg kept, if_pos (by omega), place]
  · rw [if_neg later]
    by_cases earlier : dst ≤ a ∧ a < dst + k
    · rw [if_pos earlier, if_pos (by omega)]
    · rw [if_neg earlier, if_neg (by omega)]

/-- The first `b` cells have not been overwritten when those behind them have been moved. -/
theorem moved_down (safe : src ≤ dst ∨ dst + (b + k) ≤ src) :
    moved dst src b (moved (dst + b) (src + b) k m) = moved dst src (b + k) m := by
  funext a
  unfold moved
  by_cases first : dst ≤ a ∧ a < dst + b
  · have kept : ¬ (dst + b ≤ src + (a - dst) ∧ src + (a - dst) < dst + b + k) := by omega
    rw [if_pos first, if_neg kept, if_pos (by omega)]
  · rw [if_neg first]
    by_cases later : dst + b ≤ a ∧ a < dst + b + k
    · have place : src + b + (a - (dst + b)) = src + (a - dst) := by omega
      rw [if_pos later, if_pos (by omega), place]
    · rw [if_neg later, if_neg (by omega)]

theorem filled_add (value : α) :
    filled (dst + k) value b (filled dst value k m) = filled dst value (k + b) m := by
  funext a
  unfold filled
  by_cases later : dst + k ≤ a ∧ a < dst + k + b
  · rw [if_pos later, if_pos (by omega)]
  · rw [if_neg later]
    by_cases earlier : dst ≤ a ∧ a < dst + k
    · rw [if_pos earlier, if_pos (by omega)]
    · rw [if_neg earlier, if_neg (by omega)]

theorem moved_blocks_up (size : Nat) (count : Nat)
    (safe : dst ≤ src ∨ src + size * count ≤ dst) :
    (List.range count).foldl (fun m i => moved (dst + size * i) (src + size * i) size m) m =
      moved dst src (size * count) m := by
  induction count with
  | zero => simp
  | succ count ih =>
      rw [Nat.mul_succ] at safe ⊢
      rw [List.range_succ, List.foldl_append, ih (by omega)]
      exact moved_up safe

theorem moved_blocks_down (size : Nat) (count : Nat)
    (safe : src ≤ dst ∨ dst + size * count ≤ src) :
    (List.range count).foldr (fun i m => moved (dst + size * i) (src + size * i) size m) m =
      moved dst src (size * count) m := by
  induction count generalizing m with
  | zero => simp
  | succ count ih =>
      rw [Nat.mul_succ] at safe ⊢
      rw [List.range_succ, List.foldr_append, List.foldr_cons, List.foldr_nil, ih (by omega)]
      exact moved_down safe

theorem filled_blocks (value : α) (size : Nat) (count : Nat) :
    (List.range count).foldl (fun m i => filled (dst + size * i) value size m) m =
      filled dst value (size * count) m := by
  induction count with
  | zero => simp
  | succ count ih =>
      rw [Nat.mul_succ, List.range_succ, List.foldl_append, ih]
      exact filled_add value

end Parts

end CassiOS.Support.RangeMoves
