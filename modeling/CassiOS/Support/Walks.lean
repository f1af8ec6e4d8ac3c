import Mathlib.Data.Finset.Card
import Mathlib.Data.Finset.Insert
import Mathlib.Data.Finset.Range
import Mathlib.Logic.Relation
import Mathlib.Tactic.Common

/-!
# Walks along a partial successor function

A walk visits one element after another and may come back to an element it has seen. `Trail`
is what a walk knows at any moment: all it has visited lies behind the start, and the only
way out of the visited elements leads to the place where it stands. Once that place is
visited, or there is none, the visited elements are exactly those behind the start, on a graph
with cycles too.
-/

namespace CassiOS.Support.Walks

set_option autoImplicit false

variable {α : Type*} {next : α → Option α} {start here : Option α} {a b : α}

/-- `b` lies on the way that begins at `start`; there is none behind `none`. -/
def Behind (next : α → Option α) (start : Option α) (b : α) : Prop :=
  ∃ a, start = some a ∧ Relation.ReflTransGen (fun x y => next x = some y) a b

theorem behind_start (a : α) : Behind next (some a) a := ⟨a, rfl, .refl⟩

theorem behind_next (reached : Behind next start a) (link : next a = some b) :
    Behind next start b := by
  obtain ⟨first, begins, way⟩ := reached
  exact ⟨first, begins, way.tail link⟩

theorem behind_invariant {P : α → Prop} (first : ∀ a, start = some a → P a)
    (link : ∀ a b, P a → next a = some b → P b) (reached : Behind next start b) : P b := by
  obtain ⟨a, begins, way⟩ := reached
  induction way with
  | refl => exact first a begins
  | tail _ step ih => exact link _ _ ih step

section Walk

variable {visited : Finset α}

structure Trail (next : α → Option α) (start : Option α) (visited : Finset α)
    (here : Option α) : Prop where
  sound : ∀ a ∈ visited, Behind next start a
  standing : ∀ a, here = some a → Behind next start a
  begun : ∀ a, start = some a → a ∈ visited ∨ here = some a
  onward : ∀ a ∈ visited, ∀ b, next a = some b → b ∈ visited ∨ here = some b

theorem trail_begin : Trail next start ∅ start where
  sound := by
    intro a member
    exact absurd member (Finset.notMem_empty a)
  standing := by
    intro a begins
    exact ⟨a, begins, .refl⟩
  begun := fun a begins => .inr begins
  onward := by
    intro a member
    exact absurd member (Finset.notMem_empty a)

theorem Trail.step [DecidableEq α] (trail : Trail next start visited (some a)) :
    Trail next start (insert a visited) (next a) := by
  have moved : ∀ b, b ∈ visited ∨ some a = some b → b ∈ insert a visited := by
    intro b place
    apply Finset.mem_insert.2
    rcases place with old | same
    · exact .inr old
    · exact .inl (Option.some.inj same).symm
  constructor
  · intro b member
    rcases Finset.mem_insert.1 member with rfl | old
    · exact trail.standing b rfl
    · exact trail.sound b old
  · intro b link
    exact behind_next (trail.standing a rfl) link
  · intro b begins
    exact .inl (moved b (trail.begun b begins))
  · intro c member b link
    rcases Finset.mem_insert.1 member with rfl | old
    · exact .inr link
    · exact .inl (moved b (trail.onward c old b link))

/-- The walk ends where it has been before or where nothing follows. -/
theorem Trail.closed (trail : Trail next start visited here)
    (seen : ∀ a, here = some a → a ∈ visited) (b : α) :
    b ∈ visited ↔ Behind next start b := by
  constructor
  · exact trail.sound b
  · apply behind_invariant
    · intro a begins
      exact (trail.begun a begins).elim id (seen a)
    · intro a c member link
      exact (trail.onward a member c link).elim id (seen c)

end Walk

section Orbits

variable {f : α → α} {P : α → Prop} {n : Nat}

/-- Before it first meets `P`, the orbit of a function visits nothing twice. -/
theorem first_visit_injective (reach : P (f^[n] a)) (first : ∀ m, m < n → ¬ P (f^[m] a)) :
    Set.InjOn (fun k => f^[k] a) (Set.Iio n) := by
  have apart : ∀ i j, i < j → j < n → f^[i] a ≠ f^[j] a := by
    intro i j less inside same
    apply first (n - j + i) (by omega)
    rw [Function.iterate_add_apply, same, ← Function.iterate_add_apply,
      Nat.sub_add_cancel inside.le]
    exact reach
  intro i insideI j insideJ same
  rcases Nat.lt_trichotomy i j with less | equal | less
  · exact absurd same (apart i j less insideJ)
  · exact equal
  · exact absurd same.symm (apart j i less insideI)

/-- So it meets `P` before it has left a finite set as often as that has elements. -/
theorem first_visit_bound (reach : P (f^[n] a)) (first : ∀ m, m < n → ¬ P (f^[m] a))
    {inside : Finset α} (within : ∀ m, m < n → f^[m] a ∈ inside) : n ≤ inside.card := by
  have injective := first_visit_injective reach first
  rw [← Finset.coe_range] at injective
  have count := Finset.card_le_card_of_injOn (s := Finset.range n) (fun k => f^[k] a)
    (fun m member => within m (Finset.mem_range.1 member)) injective
  rw [Finset.card_range] at count
  exact count

end Orbits

end CassiOS.Support.Walks
