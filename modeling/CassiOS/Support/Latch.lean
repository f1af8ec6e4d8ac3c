import Mathlib.Tactic.Common
import Mathlib.Order.Nat

/-!
# A latched signal

A receiver that waits hears a signal when it is raised; for one that does not, a flag keeps
the signal until the receiver takes it. Over any sequence of steps no signal is lost, and no
two are heard for one that was raised.
-/

namespace CassiOS.Support.Latch

set_option autoImplicit false

structure Signal where
  flag : Bool
  waiting : Bool

inductive Label
  /-- Raised and heard in one step. -/
  | direct
  /-- Raised and kept. -/
  | flagged
  /-- Heard from the flag. -/
  | taken
  | other
  deriving DecidableEq

def Raised (label : Label) : Prop := label = .direct ∨ label = .flagged

def Heard (label : Label) : Prop := label = .direct ∨ label = .taken

/-- A receiver begins to wait only while the flag is clear. -/
inductive Step : Signal → Label → Signal → Prop
  | direct (flag : Bool) : Step ⟨flag, true⟩ .direct ⟨flag, false⟩
  | flagged (flag waiting : Bool) : Step ⟨flag, waiting⟩ .flagged ⟨true, false⟩
  | taken (waiting waiting' : Bool) : Step ⟨true, waiting⟩ .taken ⟨false, waiting'⟩
  | other (flag waiting waiting' : Bool)
      (begins : waiting' = true → waiting = true ∨ flag = false) :
      Step ⟨flag, waiting⟩ .other ⟨flag, waiting'⟩

/-- `n` steps that start with a clear flag. -/
structure Trace (n : Nat) (signals : Nat → Signal) (labels : Nat → Label) : Prop where
  step : ∀ i, i < n → Step (signals i) (labels i) (signals (i + 1))
  clear : (signals 0).flag = false

section Rules

variable {n : Nat} {signals : Nat → Signal} {labels : Nat → Label} {before after : Signal}
  {label : Label}

theorem step_waiting (step : Step before label after)
    (clear : before.waiting = true → before.flag = false) (waits : after.waiting = true) :
    after.flag = false := by
  cases step with
  | direct flag => cases waits
  | flagged flag waiting => cases waits
  | taken waiting waiting' => rfl
  | other flag waiting waiting' begins =>
      rcases begins waits with already | down
      · exact clear already
      · exact down

theorem waiting_clear (trace : Trace n signals labels) {i : Nat} (inside : i ≤ n) :
    (signals i).waiting = true → (signals i).flag = false := by
  induction i with
  | zero => exact fun _ => trace.clear
  | succ i ih => exact step_waiting (trace.step i inside) (ih (Nat.le_of_succ_le inside))

theorem step_keeps (step : Step before label after) (kept : before.flag = true)
    (left : label ≠ .taken) : after.flag = true := by
  cases step with
  | direct flag => exact kept
  | flagged flag waiting => rfl
  | taken waiting waiting' => exact absurd rfl left
  | other flag waiting waiting' begins => exact kept

theorem kept_until_taken (trace : Trace n signals labels) {i : Nat} (kept : (signals i).flag = true)
    {j : Nat} (order : i ≤ j) (inside : j ≤ n) (left : ∀ l, i ≤ l → l < j → labels l ≠ .taken) :
    (signals j).flag = true := by
  induction j, order using Nat.le_induction with
  | base => exact kept
  | succ j order ih =>
      have before := ih (Nat.le_of_succ_le inside) fun l low high => left l low (by omega)
      exact step_keeps (trace.step j inside) before (left j order (Nat.lt_succ_self j))

theorem flag_of_flagged (step : Step before .flagged after) : after.flag = true := by
  cases step
  rfl

theorem flag_of_taken (step : Step before .taken after) : before.flag = true := by
  cases step
  rfl

theorem step_heard (step : Step before label after)
    (clear : before.waiting = true → before.flag = false) (heard : Heard label) :
    after.flag = false := by
  cases step with
  | direct flag => exact clear rfl
  | flagged flag waiting => rcases heard with same | same <;> cases same
  | taken waiting waiting' => rfl
  | other flag waiting waiting' begins => rcases heard with same | same <;> cases same

/-- A flag that is set at the end of an interval, and not at its start, was set within. -/
theorem flagged_between (trace : Trace n signals labels) {i : Nat}
    (clear : (signals i).flag = false) {j : Nat} (order : i ≤ j) (inside : j ≤ n)
    (kept : (signals j).flag = true) : ∃ l, i ≤ l ∧ l < j ∧ labels l = .flagged := by
  induction j, order using Nat.le_induction with
  | base => exact absurd (clear.symm.trans kept) Bool.false_ne_true
  | succ j order ih =>
      have step := trace.step j inside
      by_cases now : labels j = .flagged
      · exact ⟨j, order, Nat.lt_succ_self j, now⟩
      · have earlier : (signals j).flag = true := by
          generalize signals j = before at step
          generalize signals (j + 1) = after at step kept
          generalize labels j = label at step now
          cases step with
          | direct flag => exact kept
          | flagged flag waiting => exact absurd rfl now
          | taken waiting waiting' => rfl
          | other flag waiting waiting' begins => exact kept
        obtain ⟨l, low, high, found⟩ := ih (Nat.le_of_succ_le inside) earlier
        exact ⟨l, low, by omega, found⟩

theorem raised_since (trace : Trace n signals labels) {i j : Nat}
    (clear : (signals i).flag = false) (order : i ≤ j) (inside : j < n) (heard : Heard (labels j)) :
    ∃ l, i ≤ l ∧ l ≤ j ∧ Raised (labels l) := by
  rcases heard with direct | taken
  · exact ⟨j, order, le_rfl, .inl direct⟩
  · have step := trace.step j inside
    rw [taken] at step
    obtain ⟨l, low, high, found⟩ :=
      flagged_between trace clear order inside.le (flag_of_taken step)
    exact ⟨l, low, high.le, .inr found⟩

theorem raised_between (trace : Trace n signals labels) {i j : Nat} (order : i < j) (inside : j < n)
    (first : Heard (labels i)) (second : Heard (labels j)) :
    ∃ l, i < l ∧ l ≤ j ∧ Raised (labels l) :=
  raised_since trace
    (step_heard (trace.step i (order.trans inside)) (waiting_clear trace (order.trans inside).le)
      first) order inside second

theorem raised_before (trace : Trace n signals labels) {j : Nat} (inside : j < n)
    (heard : Heard (labels j)) : ∃ l, l ≤ j ∧ Raised (labels l) := by
  obtain ⟨l, _, high, raised⟩ := raised_since trace trace.clear (Nat.zero_le j) inside heard
  exact ⟨l, high, raised⟩

/-- A raised signal is heard at once or kept until it is taken. -/
theorem heard_or_kept (trace : Trace n signals labels) {i : Nat} (inside : i < n)
    (raised : Raised (labels i)) :
    labels i = .direct ∨ ∀ j, i < j → j ≤ n → (∀ l, i < l → l < j → labels l ≠ .taken) →
      (signals j).flag = true := by
  rcases raised with direct | flagged
  · exact .inl direct
  · right
    intro j order below left
    have step := trace.step i inside
    rw [flagged] at step
    exact kept_until_taken trace (flag_of_flagged step) order below left

end Rules

end CassiOS.Support.Latch
