import Mathlib.Data.List.Induction
import Mathlib.Data.List.Nodup

/-!
# Registries in which the first value of a key stays

A registry holds one value for each key. A key that has a value keeps it, so what a registry
holds after a history of registrations is the first value the history has for each key.
-/

namespace CassiOS.Support.FirstWins

set_option autoImplicit false

variable {Key Value : Type*}

structure Registry (Key Value : Type*) where
  entries : List (Key × Value)
  distinct : (entries.map Prod.fst).Nodup

variable [DecidableEq Key]

def first (entries : List (Key × Value)) (key : Key) : Option Value :=
  (entries.find? fun e => e.1 = key).map Prod.snd

theorem first_nil (key : Key) : first ([] : List (Key × Value)) key = none := rfl

theorem first_cons (entry : Key × Value) (entries : List (Key × Value)) (key : Key) :
    first (entry :: entries) key = if entry.1 = key then some entry.2 else first entries key := by
  unfold first
  by_cases same : entry.1 = key
  · rw [List.find?_cons_of_pos (by exact decide_eq_true same), if_pos same]
    rfl
  · rw [List.find?_cons_of_neg (by simpa using same), if_neg same]

theorem first_append (entries later : List (Key × Value)) (key : Key) :
    first (entries ++ later) key = (first entries key).or (first later key) := by
  induction entries with
  | nil => rfl
  | cons entry entries ih =>
      rw [List.cons_append, first_cons, first_cons, ih]
      split <;> rfl

theorem first_concat (entries : List (Key × Value)) (entry : Key × Value) (key : Key) :
    first (entries ++ [entry]) key =
      (first entries key).or (if entry.1 = key then some entry.2 else none) := by
  rw [first_append, first_cons, first_nil]

theorem first_none {entries : List (Key × Value)} {key : Key} :
    first entries key = none ↔ key ∉ entries.map Prod.fst := by
  induction entries with
  | nil => exact ⟨fun _ => List.not_mem_nil, fun _ => rfl⟩
  | cons entry entries ih =>
      rw [first_cons, List.map_cons, List.mem_cons, not_or, ← ih]
      by_cases same : entry.1 = key
      · rw [if_pos same]
        exact ⟨nofun, fun apart => absurd same.symm apart.1⟩
      · rw [if_neg same]
        exact ⟨fun none => ⟨fun equal => same equal.symm, none⟩, And.right⟩

namespace Registry

def empty : Registry Key Value := ⟨[], List.nodup_nil⟩

def lookup (r : Registry Key Value) (key : Key) : Option Value := first r.entries key

/-- A new key gets the value, a key that has one keeps it. -/
def register (r : Registry Key Value) (key : Key) (value : Value) : Registry Key Value :=
  if fresh : key ∈ r.entries.map Prod.fst then r
  else ⟨(key, value) :: r.entries, List.nodup_cons.2 ⟨fresh, r.distinct⟩⟩

theorem register_entries {r : Registry Key Value} {key : Key} (fresh : r.lookup key = none)
    (value : Value) : (r.register key value).entries = (key, value) :: r.entries := by
  unfold register
  rw [dif_neg (first_none.1 fresh)]

theorem register_known {r : Registry Key Value} {key : Key} (known : r.lookup key ≠ none)
    (value : Value) : r.register key value = r := by
  unfold register
  apply dif_pos
  by_contra fresh
  exact known (first_none.2 fresh)

theorem lookup_register (r : Registry Key Value) (key other : Key) (value : Value) :
    (r.register key value).lookup other =
      (r.lookup other).or (if key = other then some value else none) := by
  by_cases fresh : r.lookup key = none
  · unfold lookup
    rw [register_entries fresh, first_cons]
    by_cases same : key = other
    · subst same
      rw [if_pos rfl]
      unfold lookup at fresh
      rw [fresh, if_pos rfl]
      rfl
    · rw [if_neg same, if_neg same, Option.or_none]
  · rw [register_known fresh]
    by_cases same : key = other
    · subst same
      obtain ⟨found, here⟩ := Option.ne_none_iff_exists'.1 fresh
      rw [here]
      rfl
    · rw [if_neg same, Option.or_none]

def ofHistory (history : List (Key × Value)) : Registry Key Value :=
  history.foldl (fun r entry => r.register entry.1 entry.2) empty

theorem of_history_concat (history : List (Key × Value)) (entry : Key × Value) :
    ofHistory (history ++ [entry]) = (ofHistory history).register entry.1 entry.2 := by
  unfold ofHistory
  rw [List.foldl_append]
  rfl

theorem mem_history {history : List (Key × Value)} {entry : Key × Value}
    (member : entry ∈ (ofHistory history).entries) : entry ∈ history := by
  induction history using List.reverseRec with
  | nil => cases member
  | append_singleton history last ih =>
      rw [of_history_concat] at member
      by_cases fresh : (ofHistory history).lookup last.1 = none
      · rw [register_entries fresh] at member
        rcases List.mem_cons.1 member with rfl | earlier
        · exact List.mem_append_right history List.mem_cons_self
        · exact List.mem_append_left _ (ih earlier)
      · rw [register_known fresh] at member
        exact List.mem_append_left _ (ih member)

theorem lookup_of_history (history : List (Key × Value)) (key : Key) :
    (ofHistory history).lookup key = first history key := by
  induction history using List.reverseRec with
  | nil => rfl
  | append_singleton history entry ih =>
      rw [of_history_concat, lookup_register, ih, first_concat]

end Registry

end CassiOS.Support.FirstWins
