import Mathlib.Data.List.Nodup
import Mathlib.Data.Set.Insert
import Mathlib.Logic.Relation
import Mathlib.Tactic.Common

/-!
# Taking turns

The elements of a list in cyclic order: behind an element come those that follow it, then
those from the head on. New elements join at the tail, others leave, and the turn goes from
the current element to a later one. While one element waits and is not passed over, no other
has its turn twice.
-/

namespace CassiOS.Support.Turns

set_option autoImplicit false

variable {α : Type*} [DecidableEq α]

/-- The other elements, in the order in which they are met behind `a`. -/
def behind (order : List α) (a : α) : List α :=
  (order.dropWhile (· ≠ a)).tail ++ order.takeWhile (· ≠ a)

/-- Those that are met before `p`. -/
def ahead (order : List α) (a p : α) : List α := (behind order a).takeWhile (· ≠ p)

section Order

variable {order before after passed rest : List α} {a b c p q : α}

theorem take_while_ne (absent : a ∉ before) :
    (before ++ a :: after).takeWhile (· ≠ a) = before := by
  rw [List.takeWhile_append_of_pos]
  · simp
  · intro x member
    exact decide_eq_true fun same => absent (same ▸ member)

theorem behind_of_split (absent : a ∉ before) :
    behind (before ++ a :: after) a = after ++ before := by
  unfold behind
  rw [take_while_ne absent, List.dropWhile_append_of_pos]
  · simp
  · intro x member
    exact decide_eq_true fun same => absent (same ▸ member)

theorem split_at (nodup : order.Nodup) (member : a ∈ order) :
    ∃ before after, order = before ++ a :: after ∧ a ∉ before ∧ a ∉ after ∧
      behind order a = after ++ before := by
  obtain ⟨before, after, rfl⟩ := List.append_of_mem member
  obtain ⟨_, tail, apart⟩ := List.nodup_append.1 nodup
  have absent : a ∉ before := fun inside => apart a inside a List.mem_cons_self rfl
  exact ⟨before, after, rfl, absent, (List.nodup_cons.1 tail).1, behind_of_split absent⟩

theorem mem_behind (nodup : order.Nodup) (member : a ∈ order) :
    b ∈ behind order a ↔ b ∈ order ∧ b ≠ a := by
  obtain ⟨before, after, rfl, absent, absent', shape⟩ := split_at nodup member
  rw [shape, List.mem_append, List.mem_append, List.mem_cons]
  constructor
  · intro inside
    refine ⟨by tauto, ?_⟩
    intro same
    subst same
    exact inside.elim absent' absent
  · tauto

theorem behind_turn (nodup : order.Nodup) (member : a ∈ order)
    (split : behind order a = passed ++ b :: rest) : behind order b = rest ++ a :: passed := by
  obtain ⟨before, after, rfl, absent, absent', shape⟩ := split_at nodup member
  rw [shape] at split
  have apart : ∀ x y, before ++ a :: after = x ++ b :: y → b ∉ x := by
    intro x y same inside
    rw [same] at nodup
    exact (List.nodup_append.1 nodup).2.2 b inside b List.mem_cons_self rfl
  rcases List.append_eq_append_iff.1 split with ⟨between, rfl, same⟩ | ⟨between, rfl, same⟩
  · -- `b` stands before `a`
    subst same
    have shape' : (between ++ b :: rest) ++ a :: after = between ++ b :: (rest ++ a :: after) := by
      simp
    rw [shape', behind_of_split (apart _ _ shape')]
    simp
  · cases between with
    | nil =>
        rw [List.nil_append] at same
        subst same
        have shape' : (b :: rest) ++ a :: (passed ++ []) = [] ++ b :: (rest ++ a :: passed) := by
          simp
        rw [shape', behind_of_split List.not_mem_nil, List.append_nil]
    | cons first between =>
        rw [List.cons_append, List.cons.injEq] at same
        obtain ⟨rfl, rfl⟩ := same
        have shape' : before ++ a :: (passed ++ b :: between) =
            (before ++ a :: passed) ++ b :: between := by simp
        rw [shape', behind_of_split (apart _ _ shape')]
        simp

theorem mem_ahead (inside : q ∈ ahead order a p) : q ∈ behind order a :=
  (List.takeWhile_sublist _).mem inside

theorem turn_mem_ahead (split : behind order a = passed ++ b :: rest) (unpassed : p ∉ passed)
    (other : b ≠ p) : b ∈ ahead order a p := by
  unfold ahead
  rw [split, List.takeWhile_append_of_pos, List.takeWhile_cons, if_pos (decide_eq_true other)]
  · exact List.mem_append_right passed List.mem_cons_self
  · intro x inside
    exact decide_eq_true fun same => unpassed (same ▸ inside)

theorem take_while_before {xs ys : List α} (member : p ∈ xs)
    (inside : q ∈ (xs ++ ys).takeWhile (· ≠ p)) : q ∈ xs.takeWhile (· ≠ p) := by
  induction xs with
  | nil => exact absurd member List.not_mem_nil
  | cons x xs ih =>
      rw [List.cons_append, List.takeWhile_cons] at inside
      rw [List.takeWhile_cons]
      by_cases here : x = p
      · simp [here] at inside
      · rw [if_pos (decide_eq_true here)] at inside ⊢
        have later := (List.mem_cons.1 member).resolve_left (Ne.symm here)
        rcases List.mem_cons.1 inside with same | further
        · exact List.mem_cons.2 (.inl same)
        · exact List.mem_cons_of_mem x (ih later further)

theorem take_while_insert {xs ys : List α} (inside : q ∈ (xs ++ c :: ys).takeWhile (· ≠ p)) :
    q = c ∨ q ∈ (xs ++ ys).takeWhile (· ≠ p) := by
  induction xs with
  | nil =>
      rw [List.nil_append, List.takeWhile_cons] at inside
      split at inside
      · exact List.mem_cons.1 inside
      · exact absurd inside List.not_mem_nil
  | cons x xs ih =>
      rw [List.cons_append, List.takeWhile_cons] at inside ⊢
      split at inside
      · next first =>
        rw [if_pos first]
        rcases List.mem_cons.1 inside with same | further
        · exact .inr (List.mem_cons.2 (.inl same))
        · exact (ih further).imp_right (List.mem_cons_of_mem x)
      · exact absurd inside List.not_mem_nil

theorem take_while_erase {xs : List α} (other : c ≠ p)
    (inside : q ∈ (xs.erase c).takeWhile (· ≠ p)) : q ∈ xs.takeWhile (· ≠ p) := by
  induction xs with
  | nil => exact inside
  | cons x xs ih =>
      rw [List.takeWhile_cons]
      by_cases gone : x = c
      · rw [gone, List.erase_cons_head] at inside
        rw [gone, if_pos (decide_eq_true other)]
        exact List.mem_cons_of_mem c inside
      · rw [List.erase_cons_tail (by simpa using gone), List.takeWhile_cons] at inside
        split at inside
        · next first =>
          rw [if_pos first]
          rcases List.mem_cons.1 inside with same | further
          · exact List.mem_cons.2 (.inl same)
          · exact List.mem_cons_of_mem x (ih further)
        · exact absurd inside List.not_mem_nil

theorem mem_ahead_turn (nodup : order.Nodup) (member : a ∈ order)
    (split : behind order a = passed ++ b :: rest) (unpassed : p ∉ passed) (other : b ≠ p)
    (waits : p ∈ behind order a) (inside : q ∈ ahead order b p) : q ∈ ahead order a p := by
  have later : p ∈ rest := by
    rw [split] at waits
    rcases List.mem_append.1 waits with before | later
    · exact absurd before unpassed
    · exact (List.mem_cons.1 later).resolve_left other.symm
  unfold ahead at inside ⊢
  rw [behind_turn nodup member split] at inside
  rw [split, List.takeWhile_append_of_pos, List.takeWhile_cons, if_pos (decide_eq_true other)]
  · have further := take_while_before later inside
    exact List.mem_append_right passed (List.mem_cons_of_mem b further)
  · intro x inside
    exact decide_eq_true fun same => unpassed (same ▸ inside)

theorem mem_ahead_join (nodup : order.Nodup) (member : a ∈ order) (new : c ∉ order)
    (inside : q ∈ ahead (order ++ [c]) a p) : q = c ∨ q ∈ ahead order a p := by
  obtain ⟨before, after, rfl, absent, _, shape⟩ := split_at nodup member
  have shape' : before ++ a :: after ++ [c] = before ++ a :: (after ++ [c]) := by simp
  unfold ahead at inside ⊢
  rw [shape', behind_of_split absent, List.append_assoc] at inside
  rw [shape]
  exact take_while_insert inside

theorem behind_erase (nodup : order.Nodup) (member : a ∈ order) (other : c ≠ a) :
    behind (order.erase c) a = (behind order a).erase c := by
  obtain ⟨before, after, rfl, absent, _, shape⟩ := split_at nodup member
  obtain ⟨_, _, apart⟩ := List.nodup_append.1 nodup
  rw [shape, List.erase_append, List.erase_append]
  by_cases first : c ∈ before
  · have missing : c ∉ after := fun again =>
      apart c first c (List.mem_cons_of_mem a again) rfl
    rw [if_pos first, if_neg missing]
    exact behind_of_split fun inside => absent (List.mem_of_mem_erase inside)
  · rw [if_neg first, List.erase_cons_tail (by simpa using other.symm), behind_of_split absent]
    split
    · rfl
    · next missing => rw [List.erase_of_not_mem missing, List.erase_of_not_mem first]

theorem mem_ahead_leave (nodup : order.Nodup) (member : a ∈ order) (other : c ≠ a)
    (waits : c ≠ p) (inside : q ∈ ahead (order.erase c) a p) : q ∈ ahead order a p := by
  unfold ahead at inside ⊢
  rw [behind_erase nodup member other] at inside
  exact take_while_erase waits inside

end Order

section Rosters

/-- `used` holds every element that has ever been in the order. -/
structure Roster (α : Type*) where
  order : List α
  current : α
  used : Set α

structure Roster.Closed (roster : Roster α) : Prop where
  nodup : roster.order.Nodup
  current : roster.current ∈ roster.order
  used : ∀ a ∈ roster.order, a ∈ roster.used

/-- `p` is in the order and does not have its turn. -/
structure Waiting (p : α) (roster : Roster α) : Prop where
  closed : roster.Closed
  member : p ∈ roster.order
  other : roster.current ≠ p

/-- What may happen while `p` waits: the turn does not pass over it. -/
inductive Step (p : α) : Roster α → Roster α → Prop
  | turn {order : List α} {a b : α} {used : Set α} {passed rest : List α}
      (split : behind order a = passed ++ b :: rest) (unpassed : p ∉ passed) (other : b ≠ p) :
      Step p ⟨order, a, used⟩ ⟨order, b, used⟩
  | join {order : List α} {a c : α} {used : Set α} (new : c ∉ used) :
      Step p ⟨order, a, used⟩ ⟨order ++ [c], a, insert c used⟩
  | leave {order : List α} {a c : α} {used : Set α} (other : c ≠ a) (waits : c ≠ p) :
      Step p ⟨order, a, used⟩ ⟨order.erase c, a, used⟩

/-- `q` is known and will not have its turn before `p`. -/
structure Past (p q : α) (roster : Roster α) : Prop where
  used : q ∈ roster.used
  notAhead : q ∉ ahead roster.order roster.current p

variable {p q : α} {roster roster' : Roster α}

theorem past_current (closed : roster.Closed) : Past p roster.current roster where
  used := closed.used _ closed.current
  notAhead inside := ((mem_behind closed.nodup closed.current).1 (mem_ahead inside)).2 rfl

theorem Step.waiting (step : Step p roster roster') (waits : Waiting p roster) :
    Waiting p roster' := by
  obtain ⟨⟨nodup, current, used⟩, member, other⟩ := waits
  cases step with
  | @turn order a b known passed rest split unpassed apart =>
      have inside : b ∈ behind order a := by
        rw [split]
        exact List.mem_append_right _ List.mem_cons_self
      exact ⟨⟨nodup, ((mem_behind nodup current).1 inside).1, used⟩, member, apart⟩
  | @join order a c known new =>
      refine ⟨⟨?_, List.mem_append_left _ current, ?_⟩, List.mem_append_left _ member, other⟩
      · apply List.nodup_append.2
        refine ⟨nodup, List.nodup_singleton c, ?_⟩
        intro x old y last same
        rw [List.mem_singleton.1 last] at same
        exact new (same ▸ used x old)
      · intro x inside
        rcases List.mem_append.1 inside with old | last
        · exact Set.mem_insert_of_mem c (used x old)
        · rw [List.mem_singleton.1 last]
          exact Set.mem_insert c known
  | @leave order a c known apart waits =>
      refine ⟨⟨nodup.erase c, ?_, ?_⟩, ?_, other⟩
      · exact (List.mem_erase_of_ne apart.symm).2 current
      · exact fun x inside => used x (List.mem_of_mem_erase inside)
      · exact (List.mem_erase_of_ne waits.symm).2 member

theorem Step.past (step : Step p roster roster') (waits : Waiting p roster)
    (past : Past p q roster) : Past p q roster' := by
  obtain ⟨⟨nodup, current, used⟩, member, other⟩ := waits
  cases step with
  | turn split unpassed apart =>
      refine ⟨past.used, ?_⟩
      intro inside
      apply past.notAhead
      exact mem_ahead_turn nodup current split unpassed apart
        ((mem_behind nodup current).2 ⟨member, other.symm⟩) inside
  | @join order a c known new =>
      refine ⟨Set.mem_insert_of_mem c past.used, ?_⟩
      intro inside
      rcases mem_ahead_join nodup current (fun old => new (used c old)) inside with same | old
      · exact new (same ▸ past.used)
      · exact past.notAhead old
  | leave apart waits =>
      refine ⟨past.used, ?_⟩
      intro inside
      exact past.notAhead (mem_ahead_leave nodup current apart waits inside)

theorem past_of_steps (steps : Relation.ReflTransGen (Step p) roster roster')
    (waits : Waiting p roster) (past : Past p q roster) : Past p q roster' ∧ Waiting p roster' := by
  induction steps with
  | refl => exact ⟨past, waits⟩
  | tail _ step ih => exact ⟨step.past ih.2 ih.1, step.waiting ih.2⟩

/-- While `p` waits, whoever has had the turn is not ahead of it again. -/
theorem past_since {rosters : Nat → Roster α} {l j : Nat} (waits : Waiting p (rosters l))
    (order : l ≤ j)
    (steps : ∀ i, l ≤ i → i < j → Relation.ReflTransGen (Step p) (rosters i) (rosters (i + 1))) :
    Past p (rosters l).current (rosters j) ∧ Waiting p (rosters j) := by
  induction j, order using Nat.le_induction with
  | base => exact ⟨past_current waits.closed, waits⟩
  | succ j order ih =>
      obtain ⟨past, still⟩ := ih fun i low high => steps i low (high.trans (Nat.lt_succ_self j))
      exact past_of_steps (steps j order (Nat.lt_succ_self j)) still past

end Rosters

end CassiOS.Support.Turns
