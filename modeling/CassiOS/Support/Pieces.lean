import Mathlib.Data.List.Basic
import Mathlib.Tactic.Common

/-!
# Lists put together from pieces

`pieces.flatMap f` cut at one of its elements: the element lies in one of the pieces, which is
cut there, and the other pieces stay whole.
-/

namespace CassiOS.Support.Pieces

set_option autoImplicit false

variable {Piece α β : Type} {f : Piece → List α} {pieces : List Piece} {before rest : List α}
  {x : α}

theorem pieces_split (split : pieces.flatMap f = before ++ x :: rest) :
    ∃ front piece back left right, pieces = front ++ piece :: back ∧
      f piece = left ++ x :: right ∧ before = front.flatMap f ++ left ∧
      rest = right ++ back.flatMap f := by
  induction pieces generalizing before with
  | nil =>
      rw [List.flatMap_nil] at split
      exact absurd split.symm (by simp)
  | cons piece pieces ih =>
      rw [List.flatMap_cons] at split
      have later : ∀ after, before = f piece ++ after → pieces.flatMap f = after ++ x :: rest →
          ∃ front piece' back left right, piece :: pieces = front ++ piece' :: back ∧
            f piece' = left ++ x :: right ∧ before = front.flatMap f ++ left ∧
            rest = right ++ back.flatMap f := by
        intro after first behind
        obtain ⟨front, piece', back, left, right, same, here, left', right'⟩ := ih behind
        refine ⟨piece :: front, piece', back, left, right, by rw [same]; rfl, here, ?_, right'⟩
        rw [first, left', List.flatMap_cons, List.append_assoc]
      rcases List.append_eq_append_iff.1 split with ⟨after, front, behind⟩ | ⟨after, whole, behind⟩
      · exact later after front behind
      · cases after with
        | nil =>
            rw [List.append_nil] at whole
            exact later [] (by rw [List.append_nil]; exact whole.symm) behind.symm
        | cons y after =>
            obtain ⟨rfl, tail⟩ := List.cons.inj behind
            exact ⟨[], piece, pieces, before, after, rfl, whole, rfl, tail⟩

theorem pieces_split_alone (alone : ∀ piece ∈ pieces, x ∈ f piece → f piece = [x])
    (split : pieces.flatMap f = before ++ x :: rest) :
    ∃ front piece back, pieces = front ++ piece :: back ∧ f piece = [x] ∧
      before = front.flatMap f ∧ rest = back.flatMap f := by
  obtain ⟨front, piece, back, left, right, rfl, here, rfl, rfl⟩ := pieces_split split
  have only := alone piece (List.mem_append_right _ List.mem_cons_self)
    (by rw [here]; exact List.mem_append_right _ List.mem_cons_self)
  rw [here] at only
  obtain ⟨rfl, same⟩ : left = [] ∧ x :: right = [x] := by
    cases left with
    | nil => exact ⟨rfl, only⟩
    | cons y left =>
        have lengths := congrArg List.length only
        simp at lengths
  obtain rfl : right = [] := (List.cons.inj same).2
  exact ⟨front, piece, back, rfl, here, (List.append_nil _), (List.nil_append _)⟩

theorem pieces_empty (full : ∀ piece ∈ pieces, f piece ≠ []) (none : pieces.flatMap f = []) :
    pieces = [] := by
  cases pieces with
  | nil => rfl
  | cons piece pieces =>
      rw [List.flatMap_cons] at none
      exact absurd (List.append_eq_nil_iff.1 none).1 (full piece List.mem_cons_self)

theorem pieces_split_run {run : List α} (full : ∀ piece ∈ pieces, f piece ≠ [])
    (alone : ∀ y ∈ run, ∀ piece ∈ pieces, y ∈ f piece → f piece = [y])
    (some_ : run ≠ []) (split : pieces.flatMap f = before ++ (run ++ rest)) :
    ∃ front middle back, pieces = front ++ (middle ++ back) ∧ middle.map f = run.map ([·]) ∧
      before = front.flatMap f ∧ rest = back.flatMap f := by
  induction run generalizing before pieces with
  | nil => exact absurd rfl some_
  | cons y run ih =>
      obtain ⟨front, piece, back, rfl, here, rfl, behind⟩ :=
        pieces_split_alone (alone y List.mem_cons_self) split
      have among : ∀ p ∈ back, p ∈ front ++ piece :: back := fun p member =>
        List.mem_append_right _ (List.mem_cons_of_mem _ member)
      cases run with
      | nil => exact ⟨front, [piece], back, rfl, by rw [List.map_singleton, here]; rfl, rfl, behind⟩
      | cons z run =>
          have split' : back.flatMap f = [] ++ (z :: run ++ rest) := behind.symm
          obtain ⟨gone, middle, back, rfl, same, empty, tail⟩ := ih
            (fun p member => full p (among p member))
            (fun x member p inside => alone x (List.mem_cons_of_mem _ member) p (among p inside))
            (List.cons_ne_nil z run) split'
          obtain rfl := pieces_empty (fun p member => full p
            (among p (List.mem_append_left _ member))) empty.symm
          exact ⟨front, piece :: middle, back, rfl, by rw [List.map_cons, here, same]; rfl, rfl,
            tail⟩

end CassiOS.Support.Pieces
