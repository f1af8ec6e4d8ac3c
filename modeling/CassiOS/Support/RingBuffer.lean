import Mathlib.Tactic.Common

/-!
# Ring buffers

A queue in `size` cells that are used as a ring: the oldest element is at `tail`, the next one
goes to `head`. One cell stays free, so that a full ring differs from an empty one.
-/

namespace CassiOS.Support.RingBuffer

set_option autoImplicit false

variable {α : Type}

/-- The ring holds the elements of the queue, from the oldest to the newest. -/
structure Holds (size : Nat) (cells : Nat → α) (head tail : Nat) (queue : List α) : Prop where
  inside : tail < size
  newest : head = (tail + queue.length) % size
  room : queue.length < size
  stored : ∀ i (inside : i < queue.length), cells ((tail + i) % size) = queue[i]

variable {size head tail : Nat} {cells : Nat → α} {queue : List α}

theorem holds_empty (cells : Nat → α) (inside : tail < size) : Holds size cells tail tail [] where
  inside := inside
  newest := by simp [Nat.mod_eq_of_lt inside]
  room := by
    rw [List.length_nil]
    omega
  stored := by simp

theorem place_eq {i : Nat} (inside : tail < size) (near : i < size) :
    (tail + i) % size = if tail + i < size then tail + i else tail + i - size := by
  split
  · next less => exact Nat.mod_eq_of_lt less
  · next more =>
    rw [Nat.mod_eq_sub_mod (Nat.le_of_not_lt more)]
    exact Nat.mod_eq_of_lt (by omega)

theorem place_unique {i j : Nat} (inside : tail < size) (near : i < size) (near' : j < size)
    (same : (tail + i) % size = (tail + j) % size) : i = j := by
  rw [place_eq inside near, place_eq inside near'] at same
  split at same <;> split at same <;> omega

theorem next_place (i : Nat) : ((tail + i) % size + 1) % size = (tail + (i + 1)) % size := by
  rw [Nat.mod_add_mod, Nat.add_assoc]

namespace Holds

theorem head_eq (holds : Holds size cells head tail queue) :
    head = if tail + queue.length < size then tail + queue.length
      else tail + queue.length - size := by
  rw [holds.newest, place_eq holds.inside holds.room]

theorem count (holds : Holds size cells head tail queue) :
    (head + size - tail) % size = queue.length := by
  have at_ := holds.head_eq
  have room := holds.room
  have inside := holds.inside
  split at at_
  · have whole : head + size - tail = queue.length + size := by omega
    rw [whole, Nat.add_mod_right, Nat.mod_eq_of_lt room]
  · have part : head + size - tail = queue.length := by omega
    rw [part, Nat.mod_eq_of_lt room]

theorem empty_iff (holds : Holds size cells head tail queue) : head = tail ↔ queue = [] := by
  have at_ := holds.head_eq
  have room := holds.room
  have inside := holds.inside
  rw [← List.length_eq_zero_iff]
  split at at_ <;> omega

theorem full_iff (holds : Holds size cells head tail queue) :
    (head + 1) % size = tail ↔ queue.length + 1 = size := by
  have inside := holds.inside
  have room := holds.room
  rw [holds.newest, next_place]
  constructor
  · intro full
    by_contra more
    have near : queue.length + 1 < size := by omega
    rw [place_eq inside near] at full
    split at full <;> omega
  · intro full
    rw [full, Nat.add_mod_right, Nat.mod_eq_of_lt inside]

theorem push (holds : Holds size cells head tail queue) (room : queue.length + 1 < size) (x : α) :
    Holds size (fun i => if i = head then x else cells i) ((head + 1) % size) tail
      (queue ++ [x]) where
  inside := holds.inside
  newest := by rw [holds.newest, next_place, List.length_append, List.length_singleton]
  room := by
    rw [List.length_append, List.length_singleton]
    exact room
  stored := by
    intro i inside
    rw [List.length_append, List.length_singleton] at inside
    by_cases last : i = queue.length
    · subst last
      simp [holds.newest]
    · have before : i < queue.length := by omega
      have apart : (tail + i) % size ≠ head := by
        intro same
        rw [holds.newest] at same
        exact last (place_unique holds.inside (by omega) holds.room same)
      rw [if_neg apart, List.getElem_append_left before]
      exact holds.stored i before

theorem pop {x : α} (holds : Holds size cells head tail (x :: queue)) :
    cells tail = x ∧ Holds size cells head ((tail + 1) % size) queue := by
  have inside := holds.inside
  have room := holds.room
  rw [List.length_cons] at room
  have oldest := holds.stored 0 (Nat.zero_lt_succ _)
  rw [Nat.add_zero, Nat.mod_eq_of_lt inside] at oldest
  refine ⟨oldest, Nat.mod_lt _ (by omega), ?_, by omega, ?_⟩
  · rw [holds.newest, List.length_cons, Nat.mod_add_mod]
    congr 1
    omega
  · intro i inside'
    have next := holds.stored (i + 1) (Nat.succ_lt_succ inside')
    rw [Nat.mod_add_mod, Nat.add_assoc, Nat.add_comm 1 i]
    exact next

end Holds

end CassiOS.Support.RingBuffer
