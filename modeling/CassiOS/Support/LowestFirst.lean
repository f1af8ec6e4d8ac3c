import Mathlib.Data.Finset.Card
import Mathlib.Data.Nat.Count

/-!
# Handing out the lowest first

Slots below `size` are handed out one at a time, each time the lowest one that is left.
Then the slots handed out so far are those with the fewest clear slots below them at the
start, which makes it a matter of counting whether a slot has been handed out.
-/

namespace CassiOS.Support.LowestFirst

set_option autoImplicit false

section Ranks

variable (start : Nat → Prop) [DecidablePred start]

/-- The slots below `i` that are clear. -/
def clearBelow (i : Nat) : Nat := Nat.count (fun j => ¬ start j) i

variable {start} {i j : Nat}

theorem clear_below_injective (clear : ¬ start i) (clear' : ¬ start j)
    (same : clearBelow start i = clearBelow start j) : i = j :=
  Nat.count_injective clear clear' same

/-- Where only slots from `low` on are clear. -/
theorem clear_below_interval {low high : Nat} (clear : ∀ i, i < high → (¬ start i ↔ low ≤ i))
    (inside : i ≤ high) : clearBelow start i = i - low := by
  induction i with
  | zero => simp [clearBelow]
  | succ i ih =>
      have before := ih (Nat.le_of_succ_le inside)
      unfold clearBelow at before ⊢
      rw [Nat.count_succ, before]
      split
      · next free =>
        have from_ := (clear i inside).1 free
        omega
      · next used =>
        have under := mt (clear i inside).2 used
        omega

end Ranks

section Filling

variable {size n : Nat} {start now next : Nat → Prop} [DecidablePred start]

/-- The `n` lowest slots that were clear have been handed out, or all of them. -/
def Filled (size : Nat) (start : Nat → Prop) [DecidablePred start] (now : Nat → Prop) (n : Nat) :
    Prop :=
  ∀ i, i < size → (now i ↔ start i ∨ clearBelow start i < n)

theorem filled_start : Filled size start start 0 :=
  fun _ _ => (or_iff_left (Nat.not_lt_zero _)).symm

/-- The lowest slot that is left has `n` clear slots below it. -/
theorem Filled.lowest (filled : Filled size start now n) {slot : Nat} (inside : slot < size)
    (clear : ¬ now slot) (below : ∀ i, i < slot → now i) : clearBelow start slot = n := by
  have atLeast : n ≤ clearBelow start slot :=
    Nat.not_lt.1 fun less => clear ((filled slot inside).2 (Or.inr less))
  have atMost : ∀ i, i ≤ slot → clearBelow start i ≤ n := by
    intro i
    induction i with
    | zero => exact fun _ => Nat.zero_le n
    | succ i ih =>
        intro low
        have before := ih (Nat.le_of_succ_le low)
        unfold clearBelow at before ⊢
        rw [Nat.count_succ]
        split
        · rename_i free
          exact ((filled i (by omega)).1 (below i low)).resolve_left free
        · exact before
  exact Nat.le_antisymm (atMost slot (Nat.le_refl slot)) atLeast

theorem Filled.take (filled : Filled size start now n) {slot : Nat} (inside : slot < size)
    (clear : ¬ now slot) (below : ∀ i, i < slot → now i)
    (grown : ∀ i, i < size → (next i ↔ now i ∨ i = slot)) : Filled size start next (n + 1) := by
  have rank := filled.lowest inside clear below
  have wasClear : ¬ start slot := fun used => clear ((filled slot inside).2 (Or.inl used))
  intro i bound
  rw [grown i bound, filled i bound]
  constructor
  · rintro ((used | few) | same)
    · exact Or.inl used
    · exact Or.inr (Nat.lt_succ_of_lt few)
    · rw [same, rank]
      exact Or.inr (Nat.lt_succ_self n)
  · rintro (used | few)
    · exact Or.inl (Or.inl used)
    · by_cases used : start i
      · exact Or.inl (Or.inl used)
      · rcases Nat.lt_succ_iff_lt_or_eq.1 few with fewer | equal
        · exact Or.inl (Or.inr fewer)
        · exact Or.inr (clear_below_injective used wasClear (equal.trans rank.symm))

/-- With nothing left, asking for more changes nothing. -/
theorem Filled.full (filled : Filled size start now n) (all : ∀ i, i < size → now i) {k : Nat}
    (more : n ≤ k) : Filled size start now k := by
  intro i bound
  refine iff_of_true (all i bound) ?_
  exact ((filled i bound).1 (all i bound)).imp_right fun few => Nat.lt_of_lt_of_le few more

theorem Filled.congr (filled : Filled size start now n)
    (same : ∀ i, i < size → (next i ↔ now i)) : Filled size start next n :=
  fun i bound => (same i bound).trans (filled i bound)

/-- A clear slot is handed out exactly when fewer than `n` clear slots lie below it. -/
theorem Filled.handed_iff (filled : Filled size start now n) {slot : Nat} (inside : slot < size)
    (clear : ¬ start slot) : now slot ↔ clearBelow start slot < n :=
  (filled slot inside).trans (or_iff_right clear)

theorem Filled.interval (filled : Filled size start now n) {low high : Nat} (inside : high ≤ size)
    (clear : ∀ i, i < size → (¬ start i ↔ low ≤ i ∧ i < high)) {slot : Nat} (bound : slot < size) :
    ¬ now slot ↔ low + n ≤ slot ∧ slot < high := by
  have rank : slot < high → clearBelow start slot = slot - low := fun less =>
    clear_below_interval (fun i under => (clear i (Nat.lt_of_lt_of_le under inside)).trans
      (and_iff_left under)) (Nat.le_of_lt less)
  rw [filled slot bound, not_or, clear slot bound]
  constructor
  · rintro ⟨⟨from_, under⟩, many⟩
    rw [rank under] at many
    omega
  · rintro ⟨from_, under⟩
    rw [rank under]
    omega

/-- Slots taken from the `n` lowest clear ones are all of these when they are `n`. -/
theorem filled_of_taken {taken : Finset Nat}
    (grown : ∀ i, i < size → (now i ↔ start i ∨ i ∈ taken))
    (early : ∀ i ∈ taken, ¬ start i ∧ clearBelow start i < n) (count : taken.card = n) :
    Filled size start now n := by
  have apart : Set.InjOn (clearBelow start) (taken : Set Nat) := by
    intro i member j member' same
    exact clear_below_injective (early i member).1 (early j member').1 same
  have within : taken.image (clearBelow start) ⊆ Finset.range n := by
    intro rank member
    obtain ⟨i, taken, rfl⟩ := Finset.mem_image.1 member
    exact Finset.mem_range.2 (early i taken).2
  have all : taken.image (clearBelow start) = Finset.range n := by
    apply Finset.eq_of_subset_of_card_le within
    rw [Finset.card_image_of_injOn apart, Finset.card_range, count]
  intro i bound
  rw [grown i bound]
  constructor
  · exact fun either => either.imp_right fun member => (early i member).2
  · intro either
    by_cases used : start i
    · exact Or.inl used
    · have rank := Finset.mem_range.2 (either.resolve_left used)
      rw [← all] at rank
      obtain ⟨j, member, same⟩ := Finset.mem_image.1 rank
      have equal := clear_below_injective (early j member).1 used same
      exact Or.inr (equal ▸ member)

end Filling

end CassiOS.Support.LowestFirst
