import Mathlib.Data.List.Basic

/-!
# The last element with a property

When each element of a list may overwrite what an earlier one has written, what is left of a
place is due to the last element that writes it.
-/

namespace CassiOS.Support.LastWins

set_option autoImplicit false

variable {α β : Type*} {p : α → Prop}

/-- `x` is the last element of `l` with property `p`. -/
def LastOf (p : α → Prop) (l : List α) (x : α) : Prop :=
  ∃ pre post, l = pre ++ x :: post ∧ p x ∧ ∀ y ∈ post, ¬ p y

theorem LastOf.holds {l : List α} {x : α} (last : LastOf p l x) : p x :=
  last.choose_spec.choose_spec.2.1

theorem LastOf.mem {l : List α} {x : α} (last : LastOf p l x) : x ∈ l := by
  obtain ⟨pre, post, rfl, _, _⟩ := last
  exact List.mem_append_right _ List.mem_cons_self

theorem not_last_of_nil {x : α} : ¬ LastOf p [] x :=
  fun last => List.not_mem_nil last.mem

theorem last_of_cons {y : α} {l : List α} {x : α} :
    LastOf p (y :: l) x ↔ LastOf p l x ∨ (y = x ∧ p x ∧ ∀ z ∈ l, ¬ p z) := by
  constructor
  · intro last
    obtain ⟨pre, post, same, here, after⟩ := last
    cases pre with
    | nil =>
        obtain ⟨rfl, rfl⟩ := List.cons.inj same
        exact .inr ⟨rfl, here, after⟩
    | cons _ pre => exact .inl ⟨pre, post, (List.cons.inj same).2, here, after⟩
  · intro found
    rcases found with ⟨pre, post, rfl, here, after⟩ | ⟨rfl, here, after⟩
    · exact ⟨y :: pre, post, rfl, here, after⟩
    · exact ⟨[], l, rfl, here, after⟩

theorem last_of_exists {l : List α} {x : α} (member : x ∈ l) (here : p x) :
    ∃ y, LastOf p l y := by
  induction l generalizing x with
  | nil => exact absurd member List.not_mem_nil
  | cons z rest ih =>
      by_cases later : ∃ y ∈ rest, p y
      · obtain ⟨y, inside, holds⟩ := later
        obtain ⟨last, found⟩ := ih inside holds
        exact ⟨last, last_of_cons.2 (.inl found)⟩
      · have none : ∀ y ∈ rest, ¬ p y := fun y inside holds => later ⟨y, inside, holds⟩
        rcases List.mem_cons.1 member with rfl | inside
        · exact ⟨x, last_of_cons.2 (.inr ⟨rfl, here, none⟩)⟩
        · exact absurd here (none x inside)

theorem last_of_append_right {l l' : List α} {x : α} (last : LastOf p l' x) :
    LastOf p (l ++ l') x := by
  obtain ⟨pre, post, rfl, here, after⟩ := last
  exact ⟨l ++ pre, post, (List.append_assoc l pre _).symm, here, after⟩

theorem last_of_append_left {l l' : List α} {x : α} (last : LastOf p l x)
    (none : ∀ y ∈ l', ¬ p y) : LastOf p (l ++ l') x := by
  obtain ⟨pre, post, rfl, here, after⟩ := last
  refine ⟨pre, post ++ l', by rw [List.append_assoc, List.cons_append], here, ?_⟩
  intro y member
  rcases List.mem_append.1 member with inside | later
  · exact after y inside
  · exact none y later

theorem last_of_flat_map {f : β → List α} {l : List β} {b : β} {x : α}
    (writer : LastOf (fun b => ∃ y ∈ f b, p y) l b) (last : LastOf p (f b) x) :
    LastOf p (l.flatMap f) x := by
  obtain ⟨pre, post, rfl, _, after⟩ := writer
  rw [List.flatMap_append, List.flatMap_cons]
  apply last_of_append_right
  apply last_of_append_left last
  intro y member holds
  obtain ⟨c, inside, here⟩ := List.mem_flatMap.1 member
  exact after c inside ⟨y, here, holds⟩

theorem last_of_congr {p' : α → Prop} {l : List α} {x : α} (same : ∀ y ∈ l, (p y ↔ p' y))
    (last : LastOf p l x) : LastOf p' l x := by
  have member := last.mem
  obtain ⟨pre, post, rfl, here, after⟩ := last
  refine ⟨pre, post, rfl, (same x member).1 here, ?_⟩
  intro y later holds
  exact after y later ((same y (List.mem_append_right _ (List.mem_cons_of_mem _ later))).2 holds)

end CassiOS.Support.LastWins
