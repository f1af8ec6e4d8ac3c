import Mathlib.Data.List.Nodup
import Mathlib.Tactic.Common

/-!
# Chains in a successor function

`Follows next stop a xs` says that from `a` the function `next` leads through exactly the
elements of `xs` and then to a value that ends the chain. The start determines the list, so
a chain that ends visits nothing twice.
-/

namespace CassiOS.Support.Chain

set_option autoImplicit false

variable {α : Type*}

def Follows (next : α → α) (stop : α → Prop) : α → List α → Prop
  | a, [] => stop a
  | a, x :: xs => a = x ∧ ¬ stop x ∧ Follows next stop (next x) xs

variable {next next' : α → α} {stop : α → Prop} {a : α} {xs ys : List α}

theorem follows_unique (left : Follows next stop a xs) (right : Follows next stop a ys) :
    xs = ys := by
  induction xs generalizing a ys with
  | nil =>
      cases ys with
      | nil => rfl
      | cons y ys =>
          obtain ⟨rfl, goes, _⟩ := right
          exact absurd left goes
  | cons x xs ih =>
      obtain ⟨rfl, goes, rest⟩ := left
      cases ys with
      | nil => exact absurd right goes
      | cons y ys =>
          obtain ⟨rfl, _, rest'⟩ := right
          rw [ih rest rest']

theorem follows_suffix {x : α} (chain : Follows next stop a (ys ++ x :: xs)) :
    Follows next stop x (x :: xs) := by
  induction ys generalizing a with
  | nil =>
      obtain ⟨rfl, rest⟩ := chain
      exact ⟨rfl, rest⟩
  | cons y ys ih =>
      obtain ⟨rfl, _, rest⟩ := chain
      exact ih rest

theorem follows_nodup (chain : Follows next stop a xs) : xs.Nodup := by
  induction xs generalizing a with
  | nil => exact List.nodup_nil
  | cons x xs ih =>
      apply List.nodup_cons.mpr
      refine ⟨?_, ih chain.2.2⟩
      intro again
      -- the second visit would start a shorter chain from the same place
      obtain ⟨before, behind, rfl⟩ := List.append_of_mem again
      have start := chain.1 ▸ chain
      have same := follows_unique start (follows_suffix chain.2.2)
      have lengths := congrArg List.length same
      simp only [List.length_cons, List.length_append] at lengths
      omega

/-- Only the successors of the elements of a chain matter. -/
theorem follows_congr (chain : Follows next stop a xs) (same : ∀ x ∈ xs, next' x = next x) :
    Follows next' stop a xs := by
  induction xs generalizing a with
  | nil => exact chain
  | cons x xs ih =>
      obtain ⟨rfl, goes, rest⟩ := chain
      refine ⟨rfl, goes, ?_⟩
      rw [same a List.mem_cons_self]
      exact ih rest fun y member => same y (List.mem_cons_of_mem a member)

theorem follows_next (chain : Follows next stop a xs) {x : α} (member : x ∈ xs) :
    next x ∈ xs ∨ stop (next x) := by
  obtain ⟨before, behind, rfl⟩ := List.append_of_mem member
  obtain ⟨_, _, rest⟩ := follows_suffix chain
  cases behind with
  | nil => exact .inr rest
  | cons y ys =>
      rw [rest.1]
      exact .inl (List.mem_append_right _ (List.mem_cons_of_mem _ List.mem_cons_self))

theorem follows_concat {last new : α} (chain : Follows next stop a (xs ++ [last]))
    (same : ∀ x ∈ xs, next' x = next x) (link : next' last = new) (goes : ¬ stop new)
    (ends : stop (next' new)) : Follows next' stop a (xs ++ [last] ++ [new]) := by
  induction xs generalizing a with
  | nil => exact ⟨chain.1, chain.2.1, link, goes, ends⟩
  | cons x xs ih =>
      obtain ⟨rfl, on, rest⟩ := chain
      refine ⟨rfl, on, ?_⟩
      rw [same a List.mem_cons_self]
      exact ih rest fun y member => same y (List.mem_cons_of_mem a member)

theorem follows_cut {x : α} (chain : Follows next stop a (xs ++ x :: ys))
    (same : ∀ y ∈ xs, next' y = next y) (ends : stop (next' x)) :
    Follows next' stop a (xs ++ [x]) := by
  induction xs generalizing a with
  | nil => exact ⟨chain.1, chain.2.1, ends⟩
  | cons y xs ih =>
      obtain ⟨rfl, on, rest⟩ := chain
      refine ⟨rfl, on, ?_⟩
      rw [same a List.mem_cons_self]
      exact ih rest fun z member => same z (List.mem_cons_of_mem a member)

end CassiOS.Support.Chain
