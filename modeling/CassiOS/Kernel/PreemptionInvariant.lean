import CassiOS.Kernel.Preemption
import CassiOS.Kernel.History
import CassiOS.Kernel.ProcessStates

/-!
# What holds between the steps of the handlers

`NoLostWakeup` is the property of every state. `Settled` is the invariant of the states in
which no handler relies on an earlier step, `Core` its part that survives while the caller
is about to be switched away, and `Quiet` what an interrupt may change in the middle of a
chain of relying steps.
-/

namespace CassiOS.Kernel.PreemptionInvariant

open CassiOS.Support.Words
open CassiOS.Support.Preemption
open CassiOS.Support.TransitionSystem
open CassiOS.Kernel.State
open CassiOS.Kernel.ProcessManager
open CassiOS.Kernel.Scheduler
open CassiOS.Kernel.Irq
open CassiOS.Kernel.System
open CassiOS.Kernel.ProcessTable
open CassiOS.Kernel.Invariant
open CassiOS.Kernel.Outcomes
open CassiOS.Kernel.Exit
open CassiOS.Kernel.ProcessStates
open CassiOS.Kernel.History
open CassiOS.Kernel.Preemption

set_option autoImplicit false

variable {k k' : KernelState}

/-- The latest send of the process has been replied to. -/
def Answered (sender : Nat) (log : List Event) : Prop :=
  ∃ target, currentSend sender log = some (target, .answered)

/-- Nobody but the current process is in state `Running`, nobody waits for a message it
has, and nobody waits for a reply that has been made. -/
structure NoLostWakeup (k : KernelState) : Prop where
  running : ∀ r ∈ k.processes, (k.table r).state = .running → r = k.current
  receivers : ∀ r ∈ k.processes, (k.table r).state = .receiveBlocked →
    (k.table r).sendQueue = [] ∧ (k.table r).notifyQueue = []
  senders : ∀ r ∈ k.processes, (k.table r).state = .sendBlocked →
    ¬ Answered (k.table r).pid k.log

/-! ## The invariant between two steps -/

/-- What the record `p` of process `r` satisfies. -/
structure Fits (current : Ref) (log : List Event) (r : Ref) (p : Process) : Prop where
  running : p.state = .running → r = current
  receiver : p.state = .receiveBlocked → p.sendQueue = [] ∧ p.notifyQueue = []
  sender : p.state = .sendBlocked → ¬ Answered p.pid log
  queued : ∀ s ∈ p.sendQueue, s ≠ 0 ∧ s < 4294967296

structure Core (k : KernelState) : Prop where
  registered : Registered k
  fits : ∀ r ∈ k.processes, Fits k.current k.log r (k.table r)

structure Settled (k : KernelState) : Prop where
  core : Core k
  running : (k.table k.current).state = .running

theorem Core.holds (core : Core k) : NoLostWakeup k where
  running := fun r member => (core.fits r member).running
  receivers := fun r member => (core.fits r member).receiver
  senders := fun r member => (core.fits r member).sender

theorem Settled.holds (settled : Settled k) : NoLostWakeup k := settled.core.holds

/-- What an interrupt that ends no time slice does: it may wake a process that waits for
a message. -/
structure Quiet (k k' : KernelState) : Prop where
  processes : k'.processes = k.processes
  current : k'.current = k.current
  nextPid : k'.nextPid = k.nextPid
  nextRef : k'.nextRef = k.nextRef
  log : k'.log = k.log
  table : ∀ r, k'.table r = k.table r ∨
    (k.table r).state = .receiveBlocked ∧ k'.table r = Syscall.setResult 0 (k.table r)

namespace Quiet

theorem refl (k : KernelState) : Quiet k k :=
  ⟨rfl, rfl, rfl, rfl, rfl, fun _ => Or.inl rfl⟩

theorem trans {k₁ k₂ k₃ : KernelState} (first : Quiet k₁ k₂) (second : Quiet k₂ k₃) :
    Quiet k₁ k₃ := by
  refine ⟨second.processes.trans first.processes, second.current.trans first.current,
    second.nextPid.trans first.nextPid, second.nextRef.trans first.nextRef,
    second.log.trans first.log, fun r => ?_⟩
  rcases second.table r with same | ⟨waiting, woken⟩
  · rw [same]
    exact first.table r
  · rcases first.table r with same | ⟨_, ready⟩
    · rw [woken, same]
      exact Or.inr ⟨same ▸ waiting, rfl⟩
    · rw [ready] at waiting
      cases waiting

theorem table_eq (quiet : Quiet k k') {r : Ref} (busy : (k.table r).state ≠ .receiveBlocked) :
    k'.table r = k.table r := by
  rcases quiet.table r with same | ⟨waiting, _⟩
  · exact same
  · exact absurd waiting busy

theorem with_memory (k : KernelState) (memory : Nat → Nat → UInt8) :
    Quiet k (withMemory k memory) := ⟨rfl, rfl, rfl, rfl, rfl, fun _ => Or.inl rfl⟩

theorem same_pid (quiet : Quiet k k') (r : Ref) : (k'.table r).pid = (k.table r).pid := by
  rcases quiet.table r with same | ⟨_, woken⟩
  · rw [same]
  · rw [woken]
    rfl

theorem core (quiet : Quiet k k') (core : Core k) : Core k' := by
  have registered := core.registered
  refine ⟨⟨quiet.processes ▸ registered.head, quiet.processes ▸ registered.nodup, ?_, ?_,
    quiet.processes ▸ quiet.current ▸ registered.current, ?_,
    quiet.nextRef ▸ registered.bound, ?_⟩, ?_⟩
  · intro r member
    rw [quiet.same_pid r]
    exact registered.pid r (quiet.processes ▸ member)
  · intro r member
    rcases quiet.table r with same | ⟨_, woken⟩
    · rw [same]
      exact registered.live r (quiet.processes ▸ member)
    · rw [woken]
      exact ProcessState.noConfusion
  · intro r member
    rw [quiet.nextRef]
    exact registered.created r (quiet.processes ▸ member)
  · rw [quiet.nextPid, quiet.nextRef]
    exact registered.nextPid
  · intro r member
    have fits := core.fits r (quiet.processes ▸ member)
    rw [quiet.current, quiet.log]
    rcases quiet.table r with same | ⟨_, woken⟩
    · rw [same]
      exact fits
    · rw [woken]
      exact ⟨nofun, nofun, nofun, fits.queued⟩

theorem settled (quiet : Quiet k k') (settled : Settled k) : Settled k' := by
  refine ⟨quiet.core settled.core, ?_⟩
  rw [quiet.current, quiet.table_eq (by rw [settled.running]; exact nofun)]
  exact settled.running

theorem holds (quiet : Quiet k k') (safe : NoLostWakeup k) : NoLostWakeup k' := by
  refine ⟨fun r member => ?_, fun r member => ?_, fun r member => ?_⟩ <;>
    rw [quiet.processes] at member <;>
    rcases quiet.table r with same | ⟨_, woken⟩
  · rw [same, quiet.current]
    exact safe.running r member
  · rw [woken]
    exact nofun
  · rw [same]
    exact safe.receivers r member
  · rw [woken]
    exact nofun
  · rw [same, quiet.log]
    exact safe.senders r member
  · rw [woken]
    exact nofun

end Quiet

/-! ## Changes that keep the invariant -/

theorem Core.modify (core : Core k) {r : Ref} {f : Process → Process}
    (pid : (f (k.table r)).pid = (k.table r).pid)
    (live : (f (k.table r)).state ≠ .empty)
    (fits : r ∈ k.processes → Fits k.current k.log r (f (k.table r))) :
    Core (k.modify r f) where
  registered := core.registered.modify pid live
  fits := fun q member => by
    by_cases same : q = r
    · subst same
      rw [KernelState.table_modify_self]
      exact fits member
    · rw [KernelState.table_modify_of_ne _ _ _ _ same]
      exact core.fits q member

theorem Settled.modify (settled : Settled k) {r : Ref} {f : Process → Process}
    (pid : (f (k.table r)).pid = (k.table r).pid)
    (live : (f (k.table r)).state ≠ .empty)
    (running : (f (k.table k.current)).state = (k.table k.current).state ∨ r ≠ k.current)
    (fits : r ∈ k.processes → Fits k.current k.log r (f (k.table r))) :
    Settled (k.modify r f) where
  core := settled.core.modify pid live fits
  running := by
    change ((k.modify r f).table k.current).state = .running
    by_cases own : k.current = r
    · subst own
      rw [KernelState.table_modify_self, running.resolve_right fun other => other rfl]
      exact settled.running
    · rw [KernelState.table_modify_of_ne _ _ _ _ own]
      exact settled.running

theorem Settled.keep (settled : Settled k) (r : Ref) {f : Process → Process}
    (keeps : ∀ p, (f p).pid = p.pid ∧ (f p).state = p.state ∧
      (f p).sendQueue = p.sendQueue ∧ (f p).notifyQueue = p.notifyQueue)
    (live : (k.table r).state ≠ .empty) : Settled (k.modify r f) := by
  obtain ⟨pid, state, sendQueue, notifyQueue⟩ := keeps (k.table r)
  refine settled.modify pid (state ▸ live) (Or.inl (keeps _).2.1) fun member => ?_
  have fits := settled.core.fits r member
  refine ⟨?_, ?_, ?_, ?_⟩
  · rw [state]
    exact fits.running
  · rw [state, sendQueue, notifyQueue]
    exact fits.receiver
  · rw [state, pid]
    exact fits.sender
  · rw [sendQueue]
    exact fits.queued

theorem Settled.live_current (settled : Settled k) : (k.table k.current).state ≠ .empty := by
  rw [settled.running]
  exact nofun

theorem Settled.block (settled : Settled k) {state : ProcessState}
    (live : state ≠ .empty) (stopped : state ≠ .running)
    (receiver : state = .receiveBlocked → (k.table k.current).sendQueue = [] ∧
      (k.table k.current).notifyQueue = [])
    (sender : state = .sendBlocked → ¬ Answered (k.table k.current).pid k.log) :
    Core (k.modify k.current (Syscall.block state)) :=
  settled.core.modify rfl live fun member =>
    ⟨fun running => absurd running stopped, receiver, sender,
      (settled.core.fits _ member).queued⟩

theorem Settled.make_ready (settled : Settled k) {r : Ref} (other : r ≠ k.current) :
    Settled (k.modify r makeReady) :=
  settled.modify rfl nofun (Or.inr other) fun member =>
    ⟨nofun, nofun, nofun, (settled.core.fits r member).queued⟩

theorem Settled.modify_unlisted (settled : Settled k) {proc : Ref}
    (absent : proc ∉ k.processes) (f : Process → Process) : Settled (k.modify proc f) := by
  have registered := settled.core.registered
  have same : ∀ r ∈ k.processes, (k.modify proc f).table r = k.table r := fun r member =>
    KernelState.table_modify_of_ne _ _ _ _ fun own => absent (own ▸ member)
  refine ⟨⟨⟨registered.head, registered.nodup, ?_, ?_, registered.current, registered.created,
    registered.bound, registered.nextPid⟩, ?_⟩, ?_⟩
  · intro r member
    rw [same r member]
    exact registered.pid r member
  · intro r member
    rw [same r member]
    exact registered.live r member
  · intro r member
    rw [same r member]
    exact settled.core.fits r member
  · change ((k.modify proc f).table k.current).state = .running
    rw [same _ registered.current]
    exact settled.running

/-- Something is added to a queue of a process that does not wait for it. -/
theorem Settled.enqueue (settled : Settled k) {r : Ref} {f : Process → Process}
    (member : r ∈ k.processes) (busy : (k.table r).state ≠ .receiveBlocked)
    (pid : ∀ p, (f p).pid = p.pid) (state : ∀ p, (f p).state = p.state)
    (queued : ∀ s ∈ (f (k.table r)).sendQueue, s ≠ 0 ∧ s < 4294967296) :
    Settled (k.modify r f) := by
  have live := settled.core.registered.live r member
  refine settled.modify (pid _) (state (k.table r) ▸ live) (Or.inl (state _)) fun _ => ?_
  have fits := settled.core.fits r member
  refine ⟨?_, ?_, ?_, queued⟩
  · rw [state]
    exact fits.running
  · rw [state]
    exact fun waiting => absurd waiting busy
  · rw [state, pid]
    exact fits.sender

theorem Settled.record (settled : Settled k) {event : Event}
    (unanswered : ∀ r ∈ k.processes, (k.table r).state = .sendBlocked →
      Answered (k.table r).pid (event :: k.log) → Answered (k.table r).pid k.log) :
    Settled (k.record event) where
  core := ⟨⟨settled.core.registered.head, settled.core.registered.nodup,
      settled.core.registered.pid, settled.core.registered.live,
      settled.core.registered.current, settled.core.registered.created,
      settled.core.registered.bound, settled.core.registered.nextPid⟩,
    fun r member =>
      have fits := settled.core.fits r member
      ⟨fits.running, fits.receiver,
        fun sending answered => fits.sender sending (unanswered r member sending answered),
        fits.queued⟩⟩
  running := settled.running

theorem Core.give (core : Core k) {next : Ref} (member : next ∈ k.processes)
    (stopped : ∀ r ∈ k.processes, (k.table r).state ≠ .running) :
    Core { k with current := next } :=
  ⟨⟨core.registered.head, core.registered.nodup, core.registered.pid, core.registered.live,
      member, core.registered.created, core.registered.bound, core.registered.nextPid⟩,
    fun r known =>
      have fits := core.fits r known
      ⟨fun running => absurd running (stopped r known), fits.receiver, fits.sender,
        fits.queued⟩⟩

theorem Core.run_next (core : Core k) : Settled (k.modify k.current setRunning) where
  core := core.modify rfl nofun fun member =>
    ⟨fun _ => rfl, nofun, nofun, (core.fits _ member).queued⟩
  running := by
    change ((k.modify k.current setRunning).table k.current).state = .running
    rw [KernelState.table_modify_self]
    rfl

/-- The context switch away from a process that is not running any more. -/
theorem Core.switch (core : Core k) (stopped : (k.table k.current).state ≠ .running)
    {next : Ref} (member : next ∈ k.processes) (esp : Nat) :
    Settled (switchTo k next k.current esp).1 := by
  let parked := k.modify k.current fun p => { p with esp := esp }
  have core' : Core parked := by
    refine core.modify rfl ?_ fun known => ?_
    · exact core.registered.live _ core.registered.current
    · have fits := core.fits _ known
      exact ⟨fits.running, fits.receiver, fits.sender, fits.queued⟩
  have none_runs : ∀ r ∈ parked.processes, (parked.table r).state ≠ .running := by
    intro r known running
    have state : (parked.table r).state = (k.table r).state :=
      KernelState.modify_keeps _ _ _ _ Process.state rfl
    rw [state] at running
    exact stopped ((core.fits r known).running running ▸ running)
  have settled := (core'.give member none_runs).run_next
  refine Quiet.settled ?_ settled
  obtain ⟨cr3, same⟩ := switch_to_eq k next k.current esp
  rw [same]
  refine ⟨rfl, rfl, rfl, rfl, rfl, fun r => Or.inl ?_⟩
  change switched k next k.current esp r = (KernelState.modify { parked with current := next }
    next setRunning).table r
  unfold switched
  rw [KernelState.table_modify]
  rfl

/-! ## Interrupts -/

theorem quiet_forward (k : KernelState) (irq : Nat) : Quiet k (forward k irq) := by
  unfold forward
  split
  · cases get k (k.forwardPid irq) with
    | none => exact .refl k
    | some target =>
        dsimp only
        split
        · next waiting =>
          refine ⟨rfl, rfl, rfl, rfl, rfl, fun r => ?_⟩
          rw [KernelState.table_modify]
          by_cases same : r = target
          · subst same
            rw [if_pos rfl]
            exact Or.inr ⟨waiting, rfl⟩
          · rw [if_neg same]
            exact Or.inl rfl
        · exact ⟨rfl, rfl, rfl, rfl, rfl, fun _ => Or.inl rfl⟩
  · exact .refl k

/-- An interrupt that does not end the time slice only wakes a process that waits. -/
theorem quiet_handle_irq {number : Nat} (early : ¬ EndsSlice k number) (esp : Nat) :
    Quiet k (handleIrq k number esp).1 := by
  refine Quiet.trans ?_ (quiet_forward _ _)
  unfold runHandler
  split
  · next timer =>
    unfold PitTimer.handleInterrupt schedule
    dsimp only
    split
    · exact ⟨rfl, rfl, rfl, rfl, rfl, fun _ => Or.inl rfl⟩
    · next several =>
      have before : u32 (k.tickCount + 1) < k.timeSlice := by
        by_contra late
        exact early ⟨timer, Nat.lt_of_not_le several, Nat.le_of_not_lt late⟩
      rw [if_pos before]
      exact ⟨rfl, rfl, rfl, rfl, rfl, fun _ => Or.inl rfl⟩
  · exact .refl k

theorem settled_schedule (settled : Settled k) (esp : Nat) : Settled (schedule k esp).1 := by
  rcases schedule_cases k esp with ⟨tickCount, same⟩ | switches
  · rw [same]
    refine Quiet.settled ?_ settled
    exact ⟨rfl, rfl, rfl, rfl, rfl, fun _ => Or.inl rfl⟩
  · rw [switches]
    have ready : (demote (k.table k.current)).state = .ready := by
      simp [demote, settled.running]
    have demoted : Core (k.modify k.current demote) := by
      refine settled.core.modify ?_ ?_ fun member => ?_
      · unfold demote
        split <;> rfl
      · rw [ready]
        simp
      · refine ⟨?_, ?_, ?_, ?_⟩
        · rw [ready]
          simp
        · rw [ready]
          simp
        · rw [ready]
          simp
        · have queue : (demote (k.table k.current)).sendQueue =
              (k.table k.current).sendQueue := by
            unfold demote
            split <;> rfl
          rw [queue]
          exact (settled.core.fits _ member).queued
    have counted : Core ({ k with tickCount := 0 }.modify k.current demote) := by
      refine Quiet.core ?_ demoted
      exact ⟨rfl, rfl, rfl, rfl, rfl, fun _ => Or.inl rfl⟩
    refine counted.switch ?_ ?_ esp
    · change ((k.modify k.current demote).table k.current).state ≠ .running
      rw [KernelState.table_modify_self, ready]
      simp
    · rcases find_next_ready_cases (k := k.modify k.current demote) demoted.registered.nodup
        demoted.registered.current with same | ⟨member, _⟩
      · rw [KernelState.current_modify] at same
        rw [same]
        exact settled.core.registered.current
      · exact member

theorem settled_handle_irq (settled : Settled k) (number esp : Nat) :
    Settled (handleIrq k number esp).1 := by
  refine (quiet_forward _ _).settled ?_
  unfold runHandler
  split
  · have counted : Settled { k with ticks := u32 (k.ticks + 1) } := by
      refine Quiet.settled ?_ settled
      exact ⟨rfl, rfl, rfl, rfl, rfl, fun _ => Or.inl rfl⟩
    exact settled_schedule counted esp
  · exact settled

end CassiOS.Kernel.PreemptionInvariant
