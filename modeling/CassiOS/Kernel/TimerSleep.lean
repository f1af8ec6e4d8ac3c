import Mathlib.Algebra.GroupWithZero.Nat
import CassiOS.Kernel.Invariant
import CassiOS.Kernel.Irq

/-!
# Sleeping for some milliseconds

`PitTimer::sleep` of `hardware/pit.cpp`: the tick at which to wake up is computed once, in 32
bits, and compared with a counter of 32 bits. Timer interrupts and rounds of the waiting loop
follow each other in any order.
-/

namespace CassiOS.Kernel.TimerSleep

open CassiOS.Support.Words
open CassiOS.Kernel.State
open CassiOS.Kernel.Irq

set_option autoImplicit false

/-- `TICK_FREQUENCY`. -/
def pitFrequency : UInt32 := 1000

/-- The counter, the variable of `sleep`, and the interrupts handled since it was called. -/
structure Sleep where
  ticks : UInt32
  target : UInt32
  interrupts : Nat
  returned : Bool

inductive Event where
  | interrupt
  | check

/-- The first statement. The call is the moment at which it reads the counter. -/
def sleep (ticks ms : UInt32) : Sleep where
  ticks := ticks
  target := ticks + ms * pitFrequency / 1000
  interrupts := 0
  returned := false

def Sleep.step (s : Sleep) (event : Event) : Sleep :=
  if s.returned then s
  else
    match event with
    | .interrupt => { s with ticks := s.ticks + 1, interrupts := s.interrupts + 1 }
    | .check => if s.ticks < s.target then s else { s with returned := true }

def Sleep.after (s : Sleep) (events : List Event) : Sleep := events.foldl Sleep.step s

/-- The ticks that have to pass, without a bound on the numbers. -/
def required (ms : UInt32) : Nat := ms.toNat * pitFrequency.toNat / 1000

/-- `sleep` does not return too early, whenever the interrupts come. -/
def Enough (ticks ms : UInt32) : Prop :=
  ∀ events, ((sleep ticks ms).after events).returned = true →
    required ms ≤ ((sleep ticks ms).after events).interrupts

theorem ticks_handle_interrupt (k : KernelState) (esp : Nat) :
    UInt32.ofNat (PitTimer.handleInterrupt k esp).1.ticks = UInt32.ofNat k.ticks + 1 := by
  have counted : (PitTimer.handleInterrupt k esp).1.ticks = u32 (k.ticks + 1) := by
    unfold PitTimer.handleInterrupt
    cases Invariant.schedule_cases { k with ticks := u32 (k.ticks + 1) } esp with
    | inl alone =>
        have ⟨tickCount, same⟩ := alone
        rw [same]
    | inr switched =>
        rw [switched]
        simp only [Scheduler.switchTo]
        split <;> rfl
  rw [counted]
  apply UInt32.toNat.inj
  simp [u32]

section Runs

variable {ticks ms : UInt32} {s : Sleep}

/-- Up to `target` the counter has not wrapped around. -/
structure Waiting (ticks ms : UInt32) (s : Sleep) : Prop where
  target : s.target.toNat = ticks.toNat + required ms
  counter : s.interrupts < required ms → s.ticks.toNat = ticks.toNat + s.interrupts
  returned : s.returned = true → required ms ≤ s.interrupts

theorem to_nat_tick (small : ticks.toNat + 1 < 2 ^ 32) : (ticks + 1).toNat = ticks.toNat + 1 := by
  simpa using small

theorem waiting_step (waiting : Waiting ticks ms s) (event : Event) :
    Waiting ticks ms (s.step event) := by
  have top : s.target.toNat < 2 ^ 32 := s.target.toNat_lt
  have target := waiting.target
  have counter := waiting.counter
  unfold Sleep.step
  by_cases returned : s.returned = true
  · rw [if_pos returned]
    exact waiting
  rw [if_neg returned]
  cases event with
  | interrupt =>
      refine ⟨target, ?_, fun done => absurd done returned⟩
      intro before
      dsimp only at before ⊢
      have here := counter (by omega)
      rw [to_nat_tick (by omega), here, Nat.add_assoc]
  | check =>
      dsimp only
      by_cases early : s.ticks < s.target
      · rw [if_pos early]
        exact waiting
      rw [if_neg early]
      refine ⟨target, counter, fun _ => ?_⟩
      dsimp only
      by_contra few
      have here := counter (by omega)
      rw [UInt32.lt_iff_toNat_lt] at early
      omega

theorem waiting_after (waiting : Waiting ticks ms s) (events : List Event) :
    Waiting ticks ms (s.after events) := by
  induction events generalizing s with
  | nil => exact waiting
  | cons event rest ih => exact ih (waiting_step waiting event)

/-- What `sleep` adds to the counter. -/
def computed (ms : UInt32) : Nat := (ms.toNat * pitFrequency.toNat % 2 ^ 32) / 1000

theorem target_sleep (ticks ms : UInt32) :
    (sleep ticks ms).target.toNat = (ticks.toNat + computed ms) % 2 ^ 32 := by
  simp [sleep, computed]

theorem computed_eq (small : ms.toNat * pitFrequency.toNat < 2 ^ 32) :
    computed ms = required ms := by
  rw [computed, required, Nat.mod_eq_of_lt small]

/-- A product that does not fit loses a part that is larger than a tick. -/
theorem computed_lt (large : 2 ^ 32 ≤ ms.toNat * pitFrequency.toNat) :
    computed ms < required ms := by
  unfold computed required
  omega

theorem waiting_start (small : ms.toNat * pitFrequency.toNat < 2 ^ 32)
    (late : ticks.toNat + required ms < 2 ^ 32) : Waiting ticks ms (sleep ticks ms) where
  target := by rw [target_sleep, computed_eq small, Nat.mod_eq_of_lt late]
  counter := fun _ => rfl
  returned := nofun

theorem after_interrupts {n : Nat} (waits : s.returned = false)
    (small : s.ticks.toNat + n < 2 ^ 32) :
    ∃ counter, counter.toNat = s.ticks.toNat + n ∧ s.after (List.replicate n .interrupt) =
      { s with ticks := counter, interrupts := s.interrupts + n } := by
  induction n generalizing s with
  | zero => exact ⟨s.ticks, rfl, rfl⟩
  | succ n ih =>
      have stepped : s.step .interrupt =
          { s with ticks := s.ticks + 1, interrupts := s.interrupts + 1 } := by
        simp [Sleep.step, waits]
      have tick : (s.step .interrupt).ticks.toNat = s.ticks.toNat + 1 := by
        rw [stepped]
        exact to_nat_tick (by omega)
      have waits' : (s.step .interrupt).returned = false := by
        rw [stepped]
        exact waits
      have ⟨counter, value, all⟩ := ih waits' (by omega)
      refine ⟨counter, by omega, ?_⟩
      rw [List.replicate_succ, show s.after (.interrupt :: List.replicate n .interrupt) =
        (s.step .interrupt).after (List.replicate n .interrupt) from rfl, all, stepped]
      simp [Nat.add_assoc, Nat.add_comm 1 n]

theorem after_concat (s : Sleep) (events : List Event) (event : Event) :
    s.after (events ++ [event]) = (s.after events).step event := by
  simp [Sleep.after]

/-- The counter is behind the target at once when the sum has wrapped around. -/
theorem not_enough_late (some_ : 0 < computed ms) (late : 2 ^ 32 ≤ ticks.toNat + computed ms)
    (whole : computed ms ≤ required ms) : ¬ Enough ticks ms := by
  intro enough
  have small : computed ms < 2 ^ 32 := by
    unfold computed
    omega
  have wakes : ¬ ticks < (sleep ticks ms).target := by
    rw [UInt32.lt_iff_toNat_lt, target_sleep]
    have top : ticks.toNat < 2 ^ 32 := ticks.toNat_lt
    omega
  have checked : (sleep ticks ms).after [.check] = { sleep ticks ms with returned := true } := by
    have waits : (sleep ticks ms).returned = false := rfl
    have here : (sleep ticks ms).ticks = ticks := rfl
    simp [Sleep.after, Sleep.step, waits, here, wakes]
  have none := enough [.check]
  rw [checked] at none
  have zero : required ms ≤ 0 := none rfl
  omega

theorem not_enough_short (early : ticks.toNat + computed ms < 2 ^ 32)
    (short : computed ms < required ms) : ¬ Enough ticks ms := by
  intro enough
  have waits : (sleep ticks ms).returned = false := rfl
  have ⟨counter, value, all⟩ := after_interrupts (n := computed ms) waits early
  have wakes : ¬ counter < (sleep ticks ms).target := by
    rw [UInt32.lt_iff_toNat_lt, target_sleep, Nat.mod_eq_of_lt early, value]
    exact Nat.lt_irrefl _
  have few := enough (List.replicate (computed ms) .interrupt ++ [.check])
  rw [after_concat, all] at few
  simp [Sleep.step, waits, wakes] at few
  have interrupts : (sleep ticks ms).interrupts = 0 := rfl
  omega

end Runs

/-- `sleep` is long enough exactly when neither the product nor the sum wraps around. -/
theorem sleep_enough_iff (ticks ms : UInt32) :
    Enough ticks ms ↔
      ms.toNat * pitFrequency.toNat < 2 ^ 32 ∧ ticks.toNat + required ms < 2 ^ 32 := by
  have top : ticks.toNat < 2 ^ 32 := ticks.toNat_lt
  constructor
  · intro enough
    have small : ms.toNat * pitFrequency.toNat < 2 ^ 32 := by
      by_contra large
      have short : computed ms < required ms := computed_lt (Nat.le_of_not_lt large)
      by_cases early : ticks.toNat + computed ms < 2 ^ 32
      · exact not_enough_short early short enough
      · exact not_enough_late (by omega) (by omega) (Nat.le_of_lt short) enough
    refine ⟨small, ?_⟩
    rw [← computed_eq small]
    by_contra late
    exact not_enough_late (by omega) (by omega) (Nat.le_of_eq (computed_eq small)) enough
  · intro ⟨small, late⟩ events
    exact (waiting_after (waiting_start small late) events).returned

/-- Six minutes before the counter wraps around, a sleep of seven minutes ends at once. -/
theorem long_uptime_too_early : ¬ Enough 4294607296 420000 := by
  intro enough
  have none := enough [.check] (by decide)
  exact absurd none (by decide)

end CassiOS.Kernel.TimerSleep
