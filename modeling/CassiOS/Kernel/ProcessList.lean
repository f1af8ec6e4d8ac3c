import Mathlib.Algebra.GroupWithZero.Nat
import CassiOS.Kernel.Scheduler
import CassiOS.Support.Turns

/-!
# The linked list of processes

`collections/list.hpp`: a singly linked list with its head and its tail. The search of the
scheduler walks along the links and from the end back to the head; on a list that holds the
process it starts at, the walk ends, and it finds what `Scheduler.findNextReady` finds on the
list of the nodes.
-/

namespace CassiOS.Kernel.ProcessList

open CassiOS.Support.Turns (split_at)
open CassiOS.Kernel.State

set_option autoImplicit false

structure LinkedList (α : Type*) where
  head : Option α
  tail : Option α
  count : Nat
  next : α → Option α

namespace LinkedList

variable {α : Type*} [DecidableEq α]

def setNext (list : LinkedList α) (node : α) (link : Option α) : LinkedList α :=
  { list with next := fun x => if x = node then link else list.next x }

def pushBack (list : LinkedList α) (node : α) : LinkedList α :=
  let list := list.setNext node none
  let list := match list.tail with
    | some tail => list.setNext tail (some node)
    | none => { list with head := some node }
  { list with tail := some node, count := list.count + 1 }

def pushFront (list : LinkedList α) (node : α) : LinkedList α :=
  let list := list.setNext node list.head
  let list := match list.head with
    | some _ => list
    | none => { list with tail := some node }
  { list with head := some node, count := list.count + 1 }

def popFront (list : LinkedList α) : LinkedList α × Option α :=
  match list.head with
  | none => (list, none)
  | some node =>
      let list := { list with head := list.next node }
      let list := match list.head with
        | some _ => list
        | none => { list with tail := none }
      ({ list with count := list.count - 1 }, some node)

def isEmpty (list : LinkedList α) : Bool := list.head.isNone

def getCount (list : LinkedList α) : Nat := list.count % 2 ^ 32

/-- The body of `remove` at the node `p` that is to go. -/
def unlink (list : LinkedList α) (prev : Option α) (p : α) : LinkedList α :=
  let link := list.next p
  let list := match prev with
    | some prev => list.setNext prev link
    | none => { list with head := link }
  let list := if list.tail = some p then { list with tail := prev } else list
  { list with count := list.count - 1 }

/-- The loop of `remove`; `none` when it has not ended after `fuel` rounds. -/
def removeFrom (list : LinkedList α) (target : α) :
    Nat → Option α → Option α → Option (LinkedList α × Bool)
  | 0, _, _ => none
  | _ + 1, _, none => some (list, false)
  | fuel + 1, prev, some p =>
      if p = target then some (list.unlink prev p, true)
      else removeFrom list target fuel (some p) (list.next p)

def remove (list : LinkedList α) (target : α) : Option (LinkedList α × Bool) :=
  list.removeFrom target (list.count + 1) none list.head

/-- `p`, or the head when `p` is null. -/
def orHead (list : LinkedList α) (p : Option α) : Option α := p.or list.head

section Fields

variable (list : LinkedList α) (prev : Option α) (node x : α)

theorem tail_push_back : (list.pushBack node).tail = some node := rfl

theorem count_push_back : (list.pushBack node).count = list.count + 1 := by
  unfold pushBack setNext
  cases list.tail <;> rfl

theorem head_push_back :
    (list.pushBack node).head = if list.tail = none then some node else list.head := by
  unfold pushBack setNext
  cases list.tail <;> rfl

theorem next_push_back :
    (list.pushBack node).next x =
      if list.tail = some x then some node else if x = node then none else list.next x := by
  unfold pushBack setNext
  cases list.tail with
  | none => rfl
  | some last =>
      by_cases same : x = last
      · simp [same]
      · simp [same, Ne.symm same]

theorem count_unlink : (list.unlink prev node).count = list.count - 1 := by
  unfold unlink setNext
  cases prev <;> by_cases last : list.tail = some node <;> simp [last]

theorem tail_unlink :
    (list.unlink prev node).tail = if list.tail = some node then prev else list.tail := by
  unfold unlink setNext
  cases prev <;> by_cases last : list.tail = some node <;> simp [last]

theorem head_unlink :
    (list.unlink prev node).head = if prev = none then list.next node else list.head := by
  unfold unlink setNext
  cases prev <;> by_cases last : list.tail = some node <;> simp [last]

theorem next_unlink :
    (list.unlink prev node).next x = if prev = some x then list.next node else list.next x := by
  unfold unlink setNext
  cases prev with
  | none => by_cases last : list.tail = some node <;> simp [last]
  | some prev =>
      by_cases last : list.tail = some node <;> simp [last, eq_comm]

end Fields

end LinkedList

/-- The loop of `Scheduler::findNextReady`; `none` when it has not ended after `fuel` rounds,
or at a null pointer. -/
def findFrom (list : LinkedList Ref) (table : Ref → Process) (current : Ref) :
    Nat → Option Ref → Option Ref
  | 0, _ => none
  | _ + 1, none => none
  | fuel + 1, some candidate =>
      if candidate = current then some current
      else if (table candidate).state = .ready then some candidate
      else findFrom list table current fuel (list.orHead (list.next candidate))

def findNextReady (list : LinkedList Ref) (table : Ref → Process) (current : Ref) (fuel : Nat) :
    Option Ref :=
  findFrom list table current fuel (list.orHead (list.next current))

section Segments

variable {α : Type*} {next next' : α → Option α} {p q r : Option α} {xs ys : List α}

/-- From `p` the links lead through `xs` to `q`. -/
def Segment (next : α → Option α) : Option α → List α → Option α → Prop
  | p, [], q => p = q
  | p, x :: xs, q => p = some x ∧ Segment next (next x) xs q

theorem segment_append :
    Segment next p (xs ++ ys) r ↔ ∃ q, Segment next p xs q ∧ Segment next q ys r := by
  induction xs generalizing p with
  | nil =>
      constructor
      · intro whole
        exact ⟨p, rfl, whole⟩
      · intro ⟨q, here, onward⟩
        exact here ▸ onward
  | cons x xs ih =>
      simp only [List.cons_append, Segment, ih]
      constructor
      · intro ⟨first, q, front, back⟩
        exact ⟨q, ⟨first, front⟩, back⟩
      · intro ⟨q, ⟨first, front⟩, back⟩
        exact ⟨first, q, front, back⟩

/-- Only the links of its own nodes matter to a segment. -/
theorem segment_congr (segment : Segment next p xs q) (same : ∀ x ∈ xs, next' x = next x) :
    Segment next' p xs q := by
  induction xs generalizing p with
  | nil => exact segment
  | cons x xs ih =>
      refine ⟨segment.1, ?_⟩
      rw [same x List.mem_cons_self]
      exact ih segment.2 fun y member => same y (List.mem_cons_of_mem x member)

end Segments

section Lists

variable {α : Type*} [DecidableEq α] {list : LinkedList α} {xs before after : List α} {node : α}

/-- `xs` are the nodes of the list, from its head to its tail. -/
structure Represents (list : LinkedList α) (xs : List α) : Prop where
  links : Segment list.next list.head xs none
  tail : list.tail = xs.getLast?
  count : list.count = xs.length
  nodup : xs.Nodup

omit [DecidableEq α] in
theorem nodup_concat (nodup : xs.Nodup) (new : node ∉ xs) : (xs ++ [node]).Nodup := by
  apply List.nodup_append.2
  refine ⟨nodup, List.nodup_singleton node, ?_⟩
  intro x old y last same
  rw [List.mem_singleton.1 last] at same
  exact new (same ▸ old)

theorem push_back_represents (represents : Represents list xs) (new : node ∉ xs) :
    Represents (list.pushBack node) (xs ++ [node]) := by
  obtain ⟨links, tail, count, nodup⟩ := represents
  have count' : (list.pushBack node).count = (xs ++ [node]).length := by
    rw [list.count_push_back, count, List.length_append, List.length_singleton]
  have tail' : (list.pushBack node).tail = (xs ++ [node]).getLast? := by
    rw [list.tail_push_back, List.getLast?_concat]
  refine ⟨?_, tail', count', nodup_concat nodup new⟩
  rw [list.head_push_back]
  have next := list.next_push_back node
  rcases List.eq_nil_or_concat xs with rfl | ⟨front, last, shape⟩
  · have empty : list.tail = none := tail
    rw [if_pos empty]
    refine ⟨rfl, ?_⟩
    rw [next, empty, if_neg (Option.some_ne_none node).symm, if_pos rfl]
    rfl
  · rw [List.concat_eq_append] at shape
    subst shape
    rw [List.getLast?_concat] at tail
    rw [tail, if_neg (Option.some_ne_none last)]
    simp only [tail, Option.some.injEq] at next
    obtain ⟨q, inner, rfl, _⟩ := segment_append.1 links
    have apart : node ≠ last := fun same => new (same ▸ List.mem_append_right _ List.mem_cons_self)
    have inner' : Segment (list.pushBack node).next list.head front (some last) := by
      apply segment_congr inner
      intro x old
      have known : x ∈ front ++ [last] := List.mem_append_left _ old
      have other : x ≠ last := (List.nodup_append.1 nodup).2.2 x old last List.mem_cons_self
      have older : x ≠ node := fun same => new (same ▸ known)
      rw [next, if_neg other.symm, if_neg older]
    apply segment_append.2
    refine ⟨some node, segment_append.2 ⟨some last, inner', rfl, ?_⟩, rfl, ?_⟩
    · exact (next last).trans (if_pos rfl)
    · exact (next node).trans ((if_neg apart.symm).trans (if_pos rfl))

/-- The loop of `remove` passes the nodes before the one that goes. -/
theorem remove_from_eq {prev p : Option α} {fuel : Nat}
    (segment : Segment list.next p before (some node)) (absent : node ∉ before)
    (enough : before.length < fuel) :
    list.removeFrom node fuel prev p = some (list.unlink (before.getLast?.or prev) node, true) := by
  induction before generalizing prev p fuel with
  | nil =>
      cases fuel with
      | zero => exact absurd enough (Nat.not_lt_zero _)
      | succ fuel =>
          rw [show p = some node from segment]
          exact if_pos rfl
  | cons x before ih =>
      cases fuel with
      | zero => exact absurd enough (Nat.not_lt_zero _)
      | succ fuel =>
          obtain ⟨rfl, onward⟩ := segment
          have other : x ≠ node := fun same => absent (same ▸ List.mem_cons_self)
          have later : node ∉ before := fun inside => absent (List.mem_cons_of_mem x inside)
          unfold LinkedList.removeFrom
          rw [if_neg other, ih onward later (Nat.lt_of_succ_lt_succ enough), List.getLast?_cons]
          cases before.getLast? <;> rfl

theorem unlink_represents (represents : Represents list (before ++ node :: after)) :
    Represents (list.unlink before.getLast? node) (before ++ after) := by
  obtain ⟨links, tail, count, nodup⟩ := represents
  obtain ⟨q, front, rfl, back⟩ := segment_append.1 links
  have nodup' : (before ++ after).Nodup :=
    nodup.sublist (List.Sublist.append_left (List.sublist_cons_self node after) before)
  have count' : (list.unlink before.getLast? node).count = (before ++ after).length := by
    rw [list.count_unlink, count, List.length_append, List.length_append, List.length_cons]
    rfl
  have tail' : (list.unlink before.getLast? node).tail = (before ++ after).getLast? := by
    rw [list.tail_unlink, tail]
    rcases List.eq_nil_or_concat after with rfl | ⟨middle, last, shape⟩
    · rw [List.getLast?_concat, if_pos rfl, List.append_nil]
    · rw [List.concat_eq_append] at shape
      subst shape
      have apart : last ≠ node := by
        intro same
        have whole := (List.nodup_cons.1 (List.nodup_append.1 nodup).2.1).1
        exact whole (same ▸ List.mem_append_right middle List.mem_cons_self)
      rw [← List.cons_append, ← List.append_assoc, ← List.append_assoc, List.getLast?_concat,
        List.getLast?_concat, if_neg fun same => apart (Option.some.inj same)]
  refine ⟨?_, tail', count', nodup'⟩
  rw [list.head_unlink]
  have next := list.next_unlink before.getLast? node
  have back' : Segment (list.unlink before.getLast? node).next (list.next node) after none := by
    apply segment_congr back
    intro x later
    have other : before.getLast? ≠ some x := fun same =>
      (List.nodup_append.1 nodup').2.2 x (List.mem_of_getLast? same) x later rfl
    rw [next, if_neg other]
  rcases List.eq_nil_or_concat before with rfl | ⟨front', prev, shape⟩
  · rw [if_pos List.getLast?_nil]
    exact back'
  · rw [List.concat_eq_append] at shape
    subst shape
    obtain ⟨q, inner, rfl, _⟩ := segment_append.1 front
    rw [List.getLast?_concat] at back' next ⊢
    rw [if_neg (Option.some_ne_none prev)]
    have inner' : Segment (list.unlink (some prev) node).next list.head front' (some prev) := by
      apply segment_congr inner
      intro x old
      have distinct := (List.nodup_append.1 (List.nodup_append.1 nodup').1).2.2
      have other : prev ≠ x := (distinct x old prev List.mem_cons_self).symm
      rw [next, if_neg fun same => other (Option.some.inj same)]
    apply segment_append.2
    refine ⟨list.next node, segment_append.2 ⟨some prev, inner', rfl, ?_⟩, back'⟩
    exact (next prev).trans (if_pos rfl)

/-- `remove` ends and takes the node out of the list. -/
theorem remove_represents (represents : Represents list xs) (member : node ∈ xs) :
    ∃ list', list.remove node = some (list', true) ∧ Represents list' (xs.erase node) := by
  obtain ⟨before, after, rfl⟩ := List.append_of_mem member
  obtain ⟨_, _, distinct⟩ := List.nodup_append.1 represents.nodup
  have absent : node ∉ before := fun inside => distinct node inside node List.mem_cons_self rfl
  obtain ⟨q, front, rfl, _⟩ := segment_append.1 represents.links
  have enough : before.length < list.count + 1 := by
    rw [represents.count, List.length_append]
    omega
  refine ⟨_, remove_from_eq front absent enough, ?_⟩
  rw [List.erase_append_right _ absent, List.erase_cons_head, Option.or_none]
  exact unlink_represents represents

end Lists

/-! ## The search -/

section Search

variable {list : LinkedList Ref} {table : Ref → Process} {current : Ref}

theorem or_head_some (x : Ref) : list.orHead (some x) = some x := rfl

/-- The part of the walk before the process it began with. -/
theorem find_before {xs : List Ref} {p : Option Ref} {fuel : Nat}
    (segment : Segment list.next p xs (some current)) (absent : current ∉ xs)
    (enough : xs.length < fuel) :
    findFrom list table current fuel p =
      some ((xs.find? fun r => (table r).state = .ready).getD current) := by
  induction xs generalizing p fuel with
  | nil =>
      cases fuel with
      | zero => exact absurd enough (Nat.not_lt_zero _)
      | succ fuel =>
          rw [show p = some current from segment]
          exact if_pos rfl
  | cons x xs ih =>
      cases fuel with
      | zero => exact absurd enough (Nat.not_lt_zero _)
      | succ fuel =>
          obtain ⟨rfl, onward⟩ := segment
          have other : x ≠ current := fun same => absent (same ▸ List.mem_cons_self)
          have inside : current ∉ xs := fun later => absent (List.mem_cons_of_mem x later)
          have shorter : xs.length < fuel := Nat.lt_of_succ_lt_succ enough
          unfold findFrom
          rw [if_neg other, List.find?_cons]
          by_cases ready : (table x).state = .ready
          · simp [ready]
          · have linked : list.orHead (list.next x) = list.next x := by
              cases xs with
              | nil => rw [show list.next x = some current from onward, or_head_some]
              | cons y ys => rw [onward.1, or_head_some]
            rw [if_neg ready, linked, ih onward inside shorter]
            simp [ready]

theorem find_after {xs ys : List Ref} {p : Option Ref} {fuel : Nat}
    (segment : Segment list.next p xs none) (absent : current ∉ xs)
    (front : Segment list.next list.head ys (some current)) (absent' : current ∉ ys)
    (enough : xs.length + ys.length < fuel) :
    findFrom list table current fuel (list.orHead p) =
      some (((xs ++ ys).find? fun r => (table r).state = .ready).getD current) := by
  induction xs generalizing p fuel with
  | nil =>
      rw [show p = none from segment]
      rw [List.length_nil, Nat.zero_add] at enough
      exact find_before front absent' enough
  | cons x xs ih =>
      cases fuel with
      | zero => exact absurd enough (Nat.not_lt_zero _)
      | succ fuel =>
          obtain ⟨rfl, onward⟩ := segment
          have other : x ≠ current := fun same => absent (same ▸ List.mem_cons_self)
          have inside : current ∉ xs := fun later => absent (List.mem_cons_of_mem x later)
          have shorter : xs.length + ys.length < fuel := by
            rw [List.length_cons] at enough
            omega
          rw [or_head_some]
          unfold findFrom
          rw [if_neg other, List.cons_append, List.find?_cons]
          by_cases ready : (table x).state = .ready
          · simp [ready]
          · rw [if_neg ready, ih onward inside shorter]
            simp [ready]

/-- The search ends after as many rounds as the list has nodes at most. -/
theorem find_next_ready_walk {k : KernelState} (represents : Represents list k.processes)
    (member : current ∈ k.processes) {fuel : Nat} (enough : k.processes.length ≤ fuel) :
    findNextReady list k.table current fuel = some (Scheduler.findNextReady k current) := by
  obtain ⟨before, after, shape, absent, absent', order⟩ := split_at represents.nodup member
  have links := represents.links
  rw [shape] at links
  obtain ⟨q, front, rfl, back⟩ := segment_append.1 links
  have fits : after.length + before.length < fuel := by
    rw [shape, List.length_append, List.length_cons] at enough
    omega
  unfold findNextReady Scheduler.findNextReady
  rw [show Scheduler.candidates k.processes current = after ++ before from order]
  exact find_after back absent' front absent fits

end Search

end CassiOS.Kernel.ProcessList
