import Mathlib.Tactic.Common

/-!
# Programs that emit characters one by one

A program that only calls `put` gives some text to whatever `put` does with it. The text is
what the program leaves when `put` appends to a list.
-/

namespace CassiOS.Support.Emitting

set_option autoImplicit false

variable {α σ : Type}

def keep (text : List α) (c : α) : List α := text ++ [c]

/-- The program puts the characters of `text`, in their order. -/
def Emits (program : ∀ σ : Type, (σ → α → σ) → σ → σ) (text : List α) : Prop :=
  ∀ (σ : Type) (put : σ → α → σ) (s : σ), program σ put s = text.foldl put s

theorem foldl_keep (text t : List α) : text.foldl keep t = t ++ text := by
  induction text generalizing t with
  | nil => simp
  | cons c text ih => simp [ih, keep]

theorem Emits.kept {program : ∀ σ : Type, (σ → α → σ) → σ → σ} {text : List α}
    (emits : Emits program text) : program (List α) keep [] = text := by
  rw [emits, foldl_keep, List.nil_append]

theorem emits_one (c : α) : Emits (fun _ put s => put s c) [c] := fun _ _ _ => rfl

end CassiOS.Support.Emitting
