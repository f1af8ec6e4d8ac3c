import CassiOS.Support.Turns
import Mathlib.Data.List.Perm.Subperm
import Mathlib.Data.List.TakeWhile

/-!
# How many come first

The number of elements that have their turn before a waiting one: a turn makes it smaller by
at least one, whoever joins makes it larger by at most one, whoever leaves does not make it
larger.
-/

namespace CassiOS.Support.TurnOrder

open CassiOS.Support.Turns

set_option autoImplicit false

variable {α : Type*} [DecidableEq α] {order passed rest : List α} {a b c p : α}

theorem nodup_behind (nodup : order.Nodup) (member : a ∈ order) : (behind order a).Nodup := by
  obtain ⟨before, after, rfl, _, _, shape⟩ := split_at nodup member
  obtain ⟨first, last, apart⟩ := List.nodup_append.1 nodup
  rw [shape, List.nodup_append]
  refine ⟨(List.nodup_cons.1 last).2, first, ?_⟩
  intro x later y earlier same
  exact apart y earlier x (List.mem_cons_of_mem a later) same.symm

theorem nodup_ahead (nodup : order.Nodup) (member : a ∈ order) : (ahead order a p).Nodup :=
  (nodup_behind nodup member).sublist (List.takeWhile_sublist _)

theorem length_ahead_le (nodup : order.Nodup) (member : a ∈ order) (waits : p ∈ order)
    (other : p ≠ a) : (ahead order a p).length + 2 ≤ order.length := by
  have outside : ∀ x ∈ ahead order a p, x ≠ a ∧ x ≠ p := by
    intro x inside
    refine ⟨((mem_behind nodup member).1 (mem_ahead inside)).2, ?_⟩
    unfold ahead at inside
    have passed := List.mem_takeWhile_imp inside
    exact of_decide_eq_true passed
  have different : (a :: p :: ahead order a p).Nodup := by
    rw [List.nodup_cons, List.nodup_cons, List.mem_cons]
    refine ⟨?_, fun inside => (outside p inside).2 rfl, nodup_ahead nodup member⟩
    exact fun inside => inside.elim (fun same => other same.symm)
      fun later => (outside a later).1 rfl
  have listed : a :: p :: ahead order a p ⊆ order := by
    intro x inside
    rcases List.mem_cons.1 inside with rfl | later
    · exact member
    · rcases List.mem_cons.1 later with rfl | further
      · exact waits
      · exact ((mem_behind nodup member).1 (mem_ahead further)).1
  exact (List.subperm_of_subset different listed).length_le

theorem length_ahead_turn (nodup : order.Nodup) (member : a ∈ order) (waits : p ∈ order)
    (apart : p ≠ a) (split : behind order a = passed ++ b :: rest) (unpassed : p ∉ passed)
    (other : b ≠ p) : (ahead order b p).length + 1 ≤ (ahead order a p).length := by
  have inside : b ∈ behind order a := by
    rw [split]
    exact List.mem_append_right _ List.mem_cons_self
  have later : b ∈ order := ((mem_behind nodup member).1 inside).1
  have different : (b :: ahead order b p).Nodup := by
    refine List.nodup_cons.2 ⟨?_, nodup_ahead nodup later⟩
    exact fun again => ((mem_behind nodup later).1 (mem_ahead again)).2 rfl
  have listed : b :: ahead order b p ⊆ ahead order a p := by
    intro x found
    rcases List.mem_cons.1 found with rfl | further
    · exact turn_mem_ahead split unpassed other
    · exact mem_ahead_turn nodup member split unpassed other
        ((mem_behind nodup member).2 ⟨waits, apart⟩) further
  exact (List.subperm_of_subset different listed).length_le

theorem length_ahead_join (nodup : order.Nodup) (member : a ∈ order) (new : c ∉ order) :
    (ahead (order ++ [c]) a p).length ≤ (ahead order a p).length + 1 := by
  have longer : (order ++ [c]).Nodup := by
    refine List.nodup_append.2 ⟨nodup, List.nodup_singleton c, ?_⟩
    intro x old y last same
    exact new (List.mem_singleton.1 last ▸ same ▸ old)
  have different := nodup_ahead (p := p) longer (List.mem_append_left [c] member)
  have listed : ahead (order ++ [c]) a p ⊆ c :: ahead order a p :=
    fun x inside => List.mem_cons.2 (mem_ahead_join nodup member new inside)
  exact (List.subperm_of_subset different listed).length_le

theorem length_ahead_leave (nodup : order.Nodup) (member : a ∈ order) (other : c ≠ a)
    (waits : c ≠ p) : (ahead (order.erase c) a p).length ≤ (ahead order a p).length := by
  have different := nodup_ahead (p := p) (nodup.erase c)
    ((List.mem_erase_of_ne other.symm).2 member)
  have listed : ahead (order.erase c) a p ⊆ ahead order a p :=
    fun x inside => mem_ahead_leave nodup member other waits inside
  exact (List.subperm_of_subset different listed).length_le

end CassiOS.Support.TurnOrder
