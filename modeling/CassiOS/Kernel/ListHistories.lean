import CassiOS.Kernel.ProcessList
import Mathlib.Data.Fintype.Card

/-!
# Histories of a linked list

Whatever sequence of insertions and removals a list has seen, its nodes are those of a plain
sequence under the same operations, and it answers what the sequence answers. Its counter does
not overflow: the nodes are addresses of 32 bits, and none is null.
-/

namespace CassiOS.Kernel.ListHistories

open CassiOS.Kernel.ProcessList

set_option autoImplicit false

abbrev Pointer := { address : Fin (2 ^ 32) // address ≠ 0 }

inductive Operation (α : Type*) where
  | pushBack (node : α)
  | pushFront (node : α)
  | popFront
  | remove (node : α)

inductive Answer (α : Type*) where
  | nothing
  | popped (node : Option α)
  | removed (found : Bool)

variable {α : Type*} [DecidableEq α]

/-! ## The sequence -/

def Operation.onSequence : Operation α → List α → List α × Answer α
  | .pushBack node, xs => (xs ++ [node], .nothing)
  | .pushFront node, xs => (node :: xs, .nothing)
  | .popFront, xs => (xs.tail, .popped xs.head?)
  | .remove node, xs => (xs.erase node, .removed (decide (node ∈ xs)))

def sequenceAfter : List α → List (Operation α) → List α × List (Answer α)
  | xs, [] => (xs, [])
  | xs, operation :: rest =>
      let (xs, answer) := operation.onSequence xs
      let (xs, answers) := sequenceAfter xs rest
      (xs, answer :: answers)

/-- Only a node outside of the sequence may be inserted. -/
def Operation.Admitted : Operation α → List α → Prop
  | .pushBack node, xs => node ∉ xs
  | .pushFront node, xs => node ∉ xs
  | .popFront, _ => True
  | .remove _, _ => True

def Admitted : List α → List (Operation α) → Prop
  | _, [] => True
  | xs, operation :: rest =>
      operation.Admitted xs ∧ Admitted (operation.onSequence xs).1 rest

/-! ## The list -/

def empty (next : α → Option α) : LinkedList α :=
  { head := none, tail := none, count := 0, next := next }

/-- What an operation does to the list; `none` when a loop has not ended. -/
def Operation.onList : Operation α → LinkedList α → Option (LinkedList α × Answer α)
  | .pushBack node, list => some (list.pushBack node, .nothing)
  | .pushFront node, list => some (list.pushFront node, .nothing)
  | .popFront, list => some (list.popFront.1, .popped list.popFront.2)
  | .remove node, list => (list.remove node).map fun (list, found) => (list, .removed found)

def listAfter : LinkedList α → List (Operation α) → Option (LinkedList α × List (Answer α))
  | list, [] => some (list, [])
  | list, operation :: rest => do
      let (list, answer) ← operation.onList list
      let (list, answers) ← listAfter list rest
      some (list, answer :: answers)

section Lists

variable {list : LinkedList α} {xs before after : List α} {node : α}

omit [DecidableEq α] in
theorem represents_empty (next : α → Option α) : Represents (empty next) [] where
  links := rfl
  tail := rfl
  count := rfl
  nodup := List.nodup_nil

omit [DecidableEq α] in
theorem head_represented (represents : Represents list xs) : list.head = xs.head? := by
  have links := represents.links
  cases xs with
  | nil => exact links
  | cons x xs => exact links.1

theorem push_front_represents (represents : Represents list xs) (new : node ∉ xs) :
    Represents (list.pushFront node) (node :: xs) := by
  have first := head_represented represents
  have links : Segment (list.pushFront node).next list.head xs none := by
    apply segment_congr represents.links
    intro x old
    have older : x ≠ node := fun same => new (same ▸ old)
    cases head : list.head <;> simp [LinkedList.pushFront, LinkedList.setNext, head, older]
  have own : (list.pushFront node).next node = list.head := by
    cases head : list.head <;> simp [LinkedList.pushFront, LinkedList.setNext, head]
  constructor
  · exact ⟨rfl, own ▸ links⟩
  · cases xs with
    | nil =>
        have void : list.head = none := first
        simp [LinkedList.pushFront, LinkedList.setNext, void]
    | cons x xs =>
        simp [LinkedList.pushFront, LinkedList.setNext, first, represents.tail,
          List.getLast?_cons_cons]
  · cases xs <;> simp [LinkedList.pushFront, LinkedList.setNext, first, represents.count]
  · exact List.nodup_cons.2 ⟨new, represents.nodup⟩

omit [DecidableEq α] in
theorem pop_front_empty (represents : Represents list []) : list.popFront = (list, none) := by
  have first : list.head = none := head_represented represents
  simp [LinkedList.popFront, first]

omit [DecidableEq α] in
theorem pop_front_represents (represents : Represents list (node :: xs)) :
    list.popFront.2 = some node ∧ Represents list.popFront.1 xs := by
  have first : list.head = some node := head_represented represents
  have links : Segment list.next (list.next node) xs none := represents.links.2
  have count : list.count - 1 = xs.length := by
    rw [represents.count, List.length_cons, Nat.add_sub_cancel]
  have nodup : xs.Nodup := (List.nodup_cons.1 represents.nodup).2
  have popped : list.popFront.2 = some node := by simp [LinkedList.popFront, first]
  refine ⟨popped, ?_⟩
  cases xs with
  | nil =>
      have last : list.next node = none := links
      constructor <;> simp [LinkedList.popFront, first, last, count, Segment]
  | cons x xs =>
      have second : list.next node = some x := links.1
      have tail : list.tail = (x :: xs).getLast? := by
        rw [represents.tail, List.getLast?_cons_cons]
      have shape : list.popFront.1 = { list with head := some x, count := list.count - 1 } := by
        simp [LinkedList.popFront, first, second]
      rw [shape]
      exact ⟨second ▸ links, tail, count, nodup⟩

/-- The loop of `remove` passes all nodes when the one that should go is not among them. -/
theorem remove_from_absent {prev p : Option α} {fuel : Nat}
    (segment : Segment list.next p xs none) (absent : node ∉ xs) (enough : xs.length < fuel) :
    list.removeFrom node fuel prev p = some (list, false) := by
  induction xs generalizing prev p fuel with
  | nil =>
      cases fuel with
      | zero => exact absurd enough (Nat.not_lt_zero _)
      | succ fuel =>
          rw [show p = none from segment]
          simp [LinkedList.removeFrom]
  | cons x xs ih =>
      cases fuel with
      | zero => exact absurd enough (Nat.not_lt_zero _)
      | succ fuel =>
          have other : x ≠ node := fun same => absent (same ▸ List.mem_cons_self)
          have later : node ∉ xs := fun inside => absent (List.mem_cons_of_mem x inside)
          have onward : list.removeFrom node fuel (some x) (list.next x) = some (list, false) :=
            ih segment.2 later (Nat.lt_of_succ_lt_succ enough)
          rw [segment.1]
          simp [LinkedList.removeFrom, other, onward]

theorem remove_absent (represents : Represents list xs) (absent : node ∉ xs) :
    list.remove node = some (list, false) := by
  have enough : xs.length < list.count + 1 := by
    rw [represents.count]
    exact Nat.lt_succ_self _
  exact remove_from_absent represents.links absent enough

/-! ## Operations and histories -/

/-- One operation: the list goes on to represent the sequence, and answers the same. -/
theorem operation_represents {operation : Operation α} (represents : Represents list xs)
    (admitted : operation.Admitted xs) :
    ∃ list', operation.onList list = some (list', (operation.onSequence xs).2) ∧
      Represents list' (operation.onSequence xs).1 := by
  cases operation with
  | pushBack node => exact ⟨_, rfl, push_back_represents represents admitted⟩
  | pushFront node => exact ⟨_, rfl, push_front_represents represents admitted⟩
  | popFront =>
      cases xs with
      | nil =>
          refine ⟨list, ?_, represents⟩
          simp [Operation.onList, Operation.onSequence, pop_front_empty represents]
      | cons x xs =>
          have popped := pop_front_represents represents
          refine ⟨list.popFront.1, ?_, popped.2⟩
          simp [Operation.onList, Operation.onSequence, popped.1]
  | remove node =>
      by_cases member : node ∈ xs
      · have ⟨list', removed, represents'⟩ := remove_represents represents member
        refine ⟨list', ?_, represents'⟩
        simp [Operation.onList, Operation.onSequence, removed, member]
      · have same : xs.erase node = xs := List.erase_of_not_mem member
        refine ⟨list, ?_, ?_⟩
        · simp [Operation.onList, Operation.onSequence, remove_absent represents member, member]
        · simpa [Operation.onSequence, same] using represents

theorem history_represents {history : List (Operation α)} (represents : Represents list xs)
    (admitted : Admitted xs history) :
    ∃ list', listAfter list history = some (list', (sequenceAfter xs history).2) ∧
      Represents list' (sequenceAfter xs history).1 := by
  induction history generalizing list xs with
  | nil => exact ⟨list, rfl, represents⟩
  | cons operation rest ih =>
      have ⟨next, stepped, represents'⟩ := operation_represents represents admitted.1
      have ⟨final, finished, represents''⟩ := ih represents' admitted.2
      refine ⟨final, ?_, represents''⟩
      simp [listAfter, sequenceAfter, stepped, finished]

end Lists

theorem length_lt {xs : List Pointer} (nodup : xs.Nodup) : xs.length < 2 ^ 32 := by
  have fits : xs.length ≤ Fintype.card Pointer := nodup.length_le_card
  have fewer : Fintype.card Pointer < Fintype.card (Fin (2 ^ 32)) :=
    Fintype.card_subtype_lt (x := 0) fun nonzero => nonzero rfl
  rw [Fintype.card_fin] at fewer
  exact Nat.lt_of_le_of_lt fits fewer

/-- Whatever has been done to the list, it is the sequence that the same operations give. -/
theorem list_is_sequence (next : Pointer → Option Pointer) (history : List (Operation Pointer))
    (admitted : Admitted [] history) :
    ∃ list, listAfter (empty next) history = some (list, (sequenceAfter [] history).2) ∧
      Segment list.next list.head (sequenceAfter [] history).1 none ∧
      list.tail = (sequenceAfter [] history).1.getLast? ∧
      list.getCount = (sequenceAfter [] history).1.length ∧
      (list.isEmpty = true ↔ (sequenceAfter [] history).1 = []) ∧
      ∀ node ∉ (sequenceAfter [] history).1, list.remove node = some (list, false) := by
  have ⟨list, finished, represents⟩ := history_represents (represents_empty next) admitted
  have count : list.getCount = (sequenceAfter [] history).1.length := by
    rw [LinkedList.getCount, represents.count]
    exact Nat.mod_eq_of_lt (length_lt represents.nodup)
  have void : list.isEmpty = true ↔ (sequenceAfter [] history).1 = [] := by
    simp [LinkedList.isEmpty, head_represented represents]
  exact ⟨list, finished, represents.links, represents.tail, count, void,
    fun _ absent => remove_absent represents absent⟩

/-- Three nodes, of which the middle one and then the first one go. -/
theorem middle_removed : let a : Pointer := ⟨4, by decide⟩
    let b : Pointer := ⟨8, by decide⟩
    let c : Pointer := ⟨12, by decide⟩
    ∃ list, listAfter (empty fun _ => none)
        [.pushBack a, .pushBack b, .pushFront c, .remove a, .popFront, .remove a] =
          some (list, [.nothing, .nothing, .nothing, .removed true, .popped (some c),
            .removed false]) ∧
      Segment list.next list.head [b] none ∧ list.getCount = 1 := by
  intro a b c
  have ⟨list, answers, links, _, count, _⟩ := list_is_sequence (fun _ => none)
    [.pushBack a, .pushBack b, .pushFront c, .remove a, .popFront, .remove a]
    (by simp [Admitted, Operation.Admitted, Operation.onSequence, a, b, c])
  exact ⟨list, answers, links, count⟩

end CassiOS.Kernel.ListHistories
