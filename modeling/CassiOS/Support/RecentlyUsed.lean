import Mathlib.Data.Finset.Card
import Mathlib.Data.List.Nodup

/-!
# The values used last

`recent` lists the values of a history, each once, the one used last in front. A store with
`room` places that gives up the value unused for longest holds the first `room` of them. A value
stays there while fewer than `room` other values are used.
-/

namespace CassiOS.Support.RecentlyUsed

set_option autoImplicit false

variable {α : Type*} [DecidableEq α]

def recent (history : List α) : List α := history.foldl (fun l x => x :: l.erase x) []

/-- The store after the use of `x`. -/
def touch (room : Nat) (l : List α) (x : α) : List α := (x :: l.erase x).take room

variable {history before after l : List α} {x y : α} {room n : Nat}

theorem recent_concat (history : List α) (x : α) :
    recent (history ++ [x]) = x :: (recent history).erase x := by
  unfold recent
  rw [List.foldl_append]
  rfl

theorem recent_nodup (history : List α) : (recent history).Nodup := by
  induction history using List.reverseRecOn with
  | nil => exact List.nodup_nil
  | append_singleton history x ih =>
      rw [recent_concat]
      exact List.nodup_cons.2 ⟨ih.not_mem_erase, ih.erase x⟩

theorem take_erase_take (n : Nat) (l : List α) (x : α) :
    ((l.take (n + 1)).erase x).take n = (l.erase x).take n := by
  induction l generalizing n with
  | nil => rfl
  | cons y l ih =>
      rw [List.take_succ_cons]
      by_cases same : y = x
      · subst same
        rw [List.erase_cons_head, List.erase_cons_head, List.take_take, Nat.min_self]
      · rw [List.erase_cons_tail (by simpa using same), List.erase_cons_tail (by simpa using same)]
        cases n with
        | zero => rfl
        | succ n => rw [List.take_succ_cons, List.take_succ_cons, ih]

theorem touch_take (room : Nat) (l : List α) (x : α) :
    touch room (l.take room) x = (x :: l.erase x).take room := by
  unfold touch
  cases room with
  | zero => rfl
  | succ n => rw [List.take_succ_cons, List.take_succ_cons, take_erase_take]

/-- The store with `room` places holds the values used last. -/
theorem take_recent_concat (room : Nat) (history : List α) (x : α) :
    (recent (history ++ [x])).take room = touch room ((recent history).take room) x := by
  rw [touch_take, recent_concat]

theorem touch_present (member : x ∈ l) (fits : l.length ≤ room) :
    touch room l x = x :: l.erase x := by
  unfold touch
  apply List.take_of_length_le
  have positive := List.length_pos_of_mem member
  rw [List.length_cons, List.length_erase_of_mem member]
  omega

theorem touch_absent (absent : x ∉ l) (fits : l.length < room) : touch room l x = x :: l := by
  unfold touch
  rw [List.erase_of_not_mem absent]
  exact List.take_of_length_le fits

theorem touch_full (absent : x ∉ l ++ [y]) (full : (l ++ [y]).length = room) :
    touch room (l ++ [y]) x = x :: l := by
  unfold touch
  rw [List.erase_of_not_mem absent, ← full, List.length_append]
  change x :: (l ++ [y]).take l.length = _
  rw [List.take_left]

/-- In front of a value there are only values used after it. -/
theorem recent_split (before after : List α) (x : α) : ∃ front back,
    recent (before ++ x :: after) = front ++ x :: back ∧ ∀ y ∈ front, y ∈ after ∧ y ≠ x := by
  induction after using List.reverseRecOn with
  | nil =>
      exact ⟨[], (recent before).erase x, recent_concat before x,
        fun y none => absurd none List.not_mem_nil⟩
  | append_singleton after z ih =>
      obtain ⟨front, back, split, later⟩ := ih
      have grow : recent (before ++ x :: (after ++ [z])) = z :: (front ++ x :: back).erase z := by
        rw [← split, ← recent_concat, List.append_assoc, List.cons_append]
      by_cases same : z = x
      · subst same
        exact ⟨[], _, grow, fun y none => absurd none List.not_mem_nil⟩
      · have own : z ∈ after ++ [z] := List.mem_append_right _ List.mem_cons_self
        by_cases inside : z ∈ front
        · refine ⟨z :: front.erase z, back, ?_, ?_⟩
          · rw [grow, List.erase_append_left _ inside]
            rfl
          · intro y member
            rcases List.mem_cons.1 member with rfl | old
            · exact ⟨own, same⟩
            · obtain ⟨used, other⟩ := later y (List.mem_of_mem_erase old)
              exact ⟨List.mem_append_left _ used, other⟩
        · refine ⟨z :: front, back.erase z, ?_, ?_⟩
          · rw [grow, List.erase_append_right _ inside,
              List.erase_cons_tail (by simpa using Ne.symm same)]
            rfl
          · intro y member
            rcases List.mem_cons.1 member with rfl | old
            · exact ⟨own, same⟩
            · obtain ⟨used, other⟩ := later y old
              exact ⟨List.mem_append_left _ used, other⟩

/-- A value is still in the store when fewer than `room` other values were used after it. -/
theorem mem_take_recent (few : (after.toFinset.erase x).card < room) :
    x ∈ (recent (before ++ x :: after)).take room := by
  obtain ⟨front, back, split, later⟩ := recent_split before after x
  have distinct := recent_nodup (before ++ x :: after)
  rw [split] at distinct ⊢
  have short : front.length ≤ (after.toFinset.erase x).card := by
    rw [← List.toFinset_card_of_nodup (List.nodup_append.1 distinct).1]
    apply Finset.card_le_card
    intro y member
    obtain ⟨used, other⟩ := later y (List.mem_toFinset.1 member)
    exact Finset.mem_erase.2 ⟨other, List.mem_toFinset.2 used⟩
  obtain ⟨more, room_⟩ : ∃ more, room = front.length + (more + 1) :=
    ⟨room - front.length - 1, by omega⟩
  rw [room_, List.take_length_add_append, List.take_succ_cons]
  exact List.mem_append_right _ List.mem_cons_self

end CassiOS.Support.RecentlyUsed
