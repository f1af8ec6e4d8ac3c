import Mathlib.Data.List.Nodup
import Mathlib.Data.List.Perm.Lattice

/-!
# Lists collected from an index

A table of tables is walked by collecting, for each index, the items found there. When the
items at one index change, the whole collection changes by the same items; when no item
repeats, an item is found at one index only.
-/

namespace CassiOS.Support.Collecting

open scoped List

set_option autoImplicit false

variable {Index Item : Type} [DecidableEq Index] {indices : List Index}

/-- Collecting from an index list with `i` in it starts, up to order, with `i`. -/
theorem flat_map_at {i : Index} (member : i ∈ indices) (found : Index → List Item) :
    indices.flatMap found ~ found i ++ (indices.erase i).flatMap found := by
  have front := (List.perm_cons_erase member).flatMap_right found
  rw [List.flatMap_cons] at front
  exact front

theorem flat_map_change (once : indices.Nodup) {i : Index} (member : i ∈ indices)
    {found found' : Index → List Item} (same : ∀ k ∈ indices, k ≠ i → found' k = found k)
    {gone new : List Item} (here : gone ++ found' i ~ new ++ found i) :
    gone ++ indices.flatMap found' ~ new ++ indices.flatMap found := by
  have others : (indices.erase i).flatMap found' = (indices.erase i).flatMap found := by
    apply List.flatMap_congr
    intro k inside
    have apart := (once.mem_erase_iff).1 inside
    exact same k apart.2 apart.1
  calc gone ++ indices.flatMap found'
    _ ~ gone ++ (found' i ++ (indices.erase i).flatMap found') :=
        (flat_map_at member found').append_left gone
    _ ~ (new ++ found i) ++ (indices.erase i).flatMap found := by
        rw [others, ← List.append_assoc]
        exact here.append_right _
    _ ~ new ++ indices.flatMap found := by
        rw [List.append_assoc]
        exact ((flat_map_at member found).append_left new).symm

theorem flat_map_unique {found : Index → List Item} (once : (indices.flatMap found).Nodup)
    {i k : Index} (first : i ∈ indices) (second : k ∈ indices) {item : Item}
    (here : item ∈ found i) (there : item ∈ found k) : i = k := by
  by_contra different
  have split := ((flat_map_at first found).nodup_iff).1 once
  have apart := (List.nodup_append'.1 split).2.2
  apply apart here
  apply List.mem_flatMap.2
  exact ⟨k, (List.mem_erase_of_ne (Ne.symm different)).2 second, there⟩

end CassiOS.Support.Collecting
