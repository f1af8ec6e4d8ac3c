import Mathlib.Data.List.Basic
import Mathlib.Tactic.Common

/-!
# Streams cut into frames

A stream is cut into frames of `n` elements; what has arrived of the frame that is not complete
yet is `pending`. Both grow element by element, so a receiver that stores what is pending and
acts on a complete frame acts on the frames of the whole stream.
-/

namespace CassiOS.Support.Frames

set_option autoImplicit false

variable {α : Type*} {n : Nat} {xs : List α} {x : α}

def frame (n : Nat) (xs : List α) (i : Nat) : List α := (xs.drop (i * n)).take n

def frames (n : Nat) (xs : List α) : List (List α) := (List.range (xs.length / n)).map (frame n xs)

def pending (n : Nat) (xs : List α) : List α := xs.drop (xs.length / n * n)

theorem pending_length (n : Nat) (xs : List α) : (pending n xs).length = xs.length % n := by
  have whole := Nat.div_add_mod xs.length n
  rw [Nat.mul_comm] at whole
  unfold pending
  rw [List.length_drop]
  omega

theorem frame_concat {i : Nat} (inside : (i + 1) * n ≤ xs.length) :
    frame n (xs ++ [x]) i = frame n xs i := by
  rw [Nat.succ_mul] at inside
  unfold frame
  rw [List.drop_append_of_le_length (by omega), List.take_append_of_le_length]
  rw [List.length_drop]
  omega

theorem frames_before (xs : List α) (x : α) :
    (List.range (xs.length / n)).map (frame n (xs ++ [x])) = frames n xs := by
  apply List.map_congr_left
  intro i member
  have low := Nat.succ_le_of_lt (List.mem_range.1 member)
  exact frame_concat (Nat.le_trans (Nat.mul_le_mul_right n low) (Nat.div_mul_le_self _ _))

theorem stream_grows (more : xs.length % n + 1 < n) : frames n (xs ++ [x]) = frames n xs ∧
    pending n (xs ++ [x]) = pending n xs ++ [x] := by
  have same : (xs.length + 1) / n = xs.length / n := by
    have whole := Nat.div_add_mod xs.length n
    apply Nat.div_eq_of_lt_le
    · exact Nat.le_trans (Nat.div_mul_le_self _ _) (Nat.le_succ _)
    · rw [Nat.succ_mul, Nat.mul_comm]
      omega
  constructor
  · unfold frames
    rw [List.length_append, List.length_singleton, same]
    exact frames_before xs x
  · unfold pending
    rw [List.length_append, List.length_singleton, same,
      List.drop_append_of_le_length (Nat.div_mul_le_self _ _)]

theorem frame_completes (last : xs.length % n + 1 = n) :
    frames n (xs ++ [x]) = frames n xs ++ [pending n xs ++ [x]] ∧ pending n (xs ++ [x]) = [] := by
  have whole := Nat.div_add_mod xs.length n
  have length : xs.length + 1 = (xs.length / n + 1) * n := by
    rw [Nat.succ_mul, Nat.mul_comm]
    omega
  have next : (xs.length + 1) / n = xs.length / n + 1 := by
    rw [length]
    exact Nat.mul_div_cancel _ (by omega)
  have complete : frame n (xs ++ [x]) (xs.length / n) = pending n xs ++ [x] := by
    unfold frame pending
    rw [List.drop_append_of_le_length (Nat.div_mul_le_self _ _), List.take_of_length_le]
    rw [Nat.mul_comm] at whole
    rw [List.length_append, List.length_drop, List.length_singleton]
    omega
  constructor
  · unfold frames
    rw [List.length_append, List.length_singleton, next, List.range_succ, List.map_append,
      frames_before, List.map_singleton, complete]
    rfl
  · unfold pending
    rw [List.length_append, List.length_singleton, next, ← length]
    exact List.drop_of_length_le (Nat.le_of_eq List.length_append)

end CassiOS.Support.Frames
