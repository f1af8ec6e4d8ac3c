import CassiOS.Kernel.ProcessTable

/-!
# The process-state invariant and the operations that keep it

`Stable` holds also inside a handler, after the caller has stored its blocked state and
before the switch; `Sound` is what holds between steps. `Admissible` is the condition on
one process record, so an operation that rewrites one record is checked by one lemma.
-/

namespace CassiOS.Kernel.Invariant

open CassiOS.Support.Words
open CassiOS.Kernel.State
open CassiOS.Kernel.ProcessManager
open CassiOS.Kernel.Scheduler
open CassiOS.Kernel.Irq
open CassiOS.Kernel.ProcessTable

set_option autoImplicit false

/-- What the record `p` of process `r` satisfies. -/
structure Admissible (k : KernelState) (r : Ref) (p : Process) : Prop where
  stopped : r ≠ k.current → p.state ≠ .running
  idle : r = kernelTask → p.state = .ready ∨ p.state = .running
  receiver : p.state = .receiveBlocked → p.sendQueue = [] ∧ p.notifyQueue = [] ∧
    ∀ irq, irq < irqLines → k.forwardPid irq = r → k.pendingIrq irq = false
  waiter : p.state = .waitBlocked → p.waitPid ∈ k.processes
  senders : ∀ s ∈ p.sendQueue, s ≠ 0 ∧ s < 4294967296

structure Stable (k : KernelState) : Prop where
  registered : Registered k
  admissible : ∀ r ∈ k.processes, Admissible k r (k.table r)

structure Sound (k : KernelState) : Prop where
  stable : Stable k
  running : (k.table k.current).state = .running

/-- What `f` keeps of a record when it changes no scheduling state and no queue. -/
structure KeepsRole (f : Process → Process) : Prop where
  pid : ∀ p, (f p).pid = p.pid
  state : ∀ p, (f p).state = p.state
  waitPid : ∀ p, (f p).waitPid = p.waitPid
  sendQueue : ∀ p, (f p).sendQueue = p.sendQueue
  notifyQueue : ∀ p, (f p).notifyQueue = p.notifyQueue

section Operations

variable {k : KernelState}

theorem Stable.modify (stable : Stable k) {r : Ref} {f : Process → Process}
    (pid : (f (k.table r)).pid = (k.table r).pid)
    (live : (f (k.table r)).state ≠ .empty)
    (fits : Admissible k r (f (k.table r))) : Stable (k.modify r f) where
  registered := stable.registered.modify pid live
  admissible := fun q member => by
    by_cases same : q = r
    · subst same
      rw [k.table_modify_self]
      exact ⟨fits.stopped, fits.idle, fits.receiver, fits.waiter, fits.senders⟩
    · rw [k.table_modify_of_ne r q f same]
      have old := stable.admissible q member
      exact ⟨old.stopped, old.idle, old.receiver, old.waiter, old.senders⟩

theorem Admissible.keep {r : Ref} {p q : Process} (old : Admissible k r p)
    (state : q.state = p.state) (waitPid : q.waitPid = p.waitPid)
    (sendQueue : q.sendQueue = p.sendQueue) (notifyQueue : q.notifyQueue = p.notifyQueue) :
    Admissible k r q := by
  constructor
  · rw [state]
    exact old.stopped
  · rw [state]
    exact old.idle
  · rw [state, sendQueue, notifyQueue]
    exact old.receiver
  · rw [state, waitPid]
    exact old.waiter
  · rw [sendQueue]
    exact old.senders

theorem Stable.keep (stable : Stable k) {r : Ref} (member : r ∈ k.processes)
    {f : Process → Process} (keeps : KeepsRole f) : Stable (k.modify r f) :=
  stable.modify (keeps.pid _) (by
      rw [keeps.state]
      exact stable.registered.live r member)
    ((stable.admissible r member).keep (keeps.state _) (keeps.waitPid _) (keeps.sendQueue _)
      (keeps.notifyQueue _))

theorem Stable.with_memory (stable : Stable k) (memory : Nat → Nat → UInt8) :
    Stable (withMemory k memory) :=
  ⟨⟨stable.registered.head, stable.registered.nodup, stable.registered.pid,
      stable.registered.live, stable.registered.current, stable.registered.created,
      stable.registered.bound, stable.registered.nextPid⟩,
    fun r member =>
      have old := stable.admissible r member
      ⟨old.stopped, old.idle, old.receiver, old.waiter, old.senders⟩⟩

theorem Stable.record (stable : Stable k) (event : Event) : Stable (k.record event) :=
  ⟨⟨stable.registered.head, stable.registered.nodup, stable.registered.pid,
      stable.registered.live, stable.registered.current, stable.registered.created,
      stable.registered.bound, stable.registered.nextPid⟩,
    fun r member =>
      have old := stable.admissible r member
      ⟨old.stopped, old.idle, old.receiver, old.waiter, old.senders⟩⟩

theorem Stable.make_ready (stable : Stable k) {r : Ref} (member : r ∈ k.processes)
    {f : Process → Process} (pid : (f (k.table r)).pid = (k.table r).pid)
    (ready : (f (k.table r)).state = .ready)
    (sendQueue : (f (k.table r)).sendQueue = (k.table r).sendQueue) :
    Stable (k.modify r f) := by
  refine stable.modify pid (by rw [ready]; decide) ⟨?_, ?_, ?_, ?_, ?_⟩
  · intro _ running
    rw [ready] at running
    cases running
  · intro _
    exact Or.inl ready
  · intro blocked
    rw [ready] at blocked
    cases blocked
  · intro blocked
    rw [ready] at blocked
    cases blocked
  · rw [sendQueue]
    exact (stable.admissible r member).senders

theorem Stable.requeue (stable : Stable k) {r : Ref} (member : r ∈ k.processes)
    {f : Process → Process} (pid : (f (k.table r)).pid = (k.table r).pid)
    (state : (f (k.table r)).state = (k.table r).state)
    (waitPid : (f (k.table r)).waitPid = (k.table r).waitPid)
    (busy : (k.table r).state ≠ .receiveBlocked)
    (senders : ∀ s ∈ (f (k.table r)).sendQueue, s ≠ 0 ∧ s < 4294967296) :
    Stable (k.modify r f) := by
  have old := stable.admissible r member
  refine stable.modify pid (by
    rw [state]
    exact stable.registered.live r member) ⟨?_, ?_, ?_, ?_, senders⟩
  · rw [state]
    exact old.stopped
  · rw [state]
    exact old.idle
  · intro waiting
    exact absurd (state ▸ waiting) busy
  · rw [state, waitPid]
    exact old.waiter

theorem Stable.block_current (stable : Stable k) (user : k.current ≠ kernelTask)
    {f : Process → Process} (pid : (f (k.table k.current)).pid = (k.table k.current).pid)
    (live : (f (k.table k.current)).state ≠ .empty)
    (receiver : (f (k.table k.current)).state = .receiveBlocked →
      (f (k.table k.current)).sendQueue = [] ∧ (f (k.table k.current)).notifyQueue = [] ∧
        ∀ irq, irq < irqLines → k.forwardPid irq = k.current → k.pendingIrq irq = false)
    (waiter : (f (k.table k.current)).state = .waitBlocked →
      (f (k.table k.current)).waitPid ∈ k.processes)
    (sendQueue : (f (k.table k.current)).sendQueue = (k.table k.current).sendQueue) :
    Stable (k.modify k.current f) := by
  refine stable.modify pid live ⟨?_, ?_, receiver, waiter, ?_⟩
  · intro other
    exact absurd rfl other
  · intro kernel
    exact absurd kernel user
  · rw [sendQueue]
    exact (stable.admissible _ stable.registered.current).senders

/-- An interrupt is remembered only for a process that is not waiting for one. -/
theorem Stable.set_pending (stable : Stable k) (irq : Nat) (value : Bool)
    (busy : value = true → ∀ r ∈ k.processes, k.forwardPid irq = r →
      (k.table r).state ≠ .receiveBlocked) : Stable (setPending k irq value) where
  registered := ⟨stable.registered.head, stable.registered.nodup, stable.registered.pid,
    stable.registered.live, stable.registered.current, stable.registered.created,
    stable.registered.bound, stable.registered.nextPid⟩
  admissible := fun r member => by
    have old := stable.admissible r member
    refine ⟨old.stopped, old.idle, fun waiting => ?_, old.waiter, old.senders⟩
    obtain ⟨noSender, noNotification, none⟩ := old.receiver waiting
    refine ⟨noSender, noNotification, fun line bound owner => ?_⟩
    by_cases same : line = irq
    · cases value with
      | false => simp [setPending, same]
      | true => exact absurd waiting (busy rfl r member (same ▸ owner))
    · simpa [setPending, same] using none line bound owner

theorem Stable.kernel_task_ready (stable : Stable k) (user : k.current ≠ kernelTask) :
    (k.table kernelTask).state = .ready := by
  have fits := stable.admissible kernelTask stable.registered.kernel_task_mem
  rcases fits.idle rfl with ready | running
  · exact ready
  · exact absurd running (fits.stopped (Ne.symm user))

theorem Stable.finds_ready (stable : Stable k) (user : k.current ≠ kernelTask) :
    findNextReady k k.current ∈ k.processes ∧ findNextReady k k.current ≠ k.current ∧
      (k.table (findNextReady k k.current)).state = .ready :=
  find_next_ready_spec stable.registered.nodup stable.registered.current
    stable.registered.kernel_task_mem (Ne.symm user) (stable.kernel_task_ready user)

end Operations

section Switching

variable {k : KernelState}

/-- The record of `r` after a switch. -/
def switched (k : KernelState) (next current : Ref) (esp : Nat) (r : Ref) : Process :=
  if r = next then
    setRunning (if r = current then { k.table r with esp := esp } else k.table r)
  else if r = current then { k.table r with esp := esp } else k.table r

theorem switch_to_eq (k : KernelState) (next current : Ref) (esp : Nat) :
    ∃ cr3, (switchTo k next current esp).1 =
      { k with table := switched k next current esp, current := next, cr3 := cr3 } := by
  unfold switchTo
  dsimp only
  split <;> exact ⟨_, rfl⟩

theorem table_switch_to (next current : Ref) (esp : Nat) (r : Ref) :
    (switchTo k next current esp).1.table r = switched k next current esp r := by
  obtain ⟨cr3, same⟩ := switch_to_eq k next current esp
  rw [same]

theorem switch_to_fields (next current : Ref) (esp : Nat) :
    (switchTo k next current esp).1.processes = k.processes ∧
      (switchTo k next current esp).1.current = next ∧
      (switchTo k next current esp).1.nextPid = k.nextPid ∧
      (switchTo k next current esp).1.nextRef = k.nextRef ∧
      (switchTo k next current esp).1.forwardPid = k.forwardPid ∧
      (switchTo k next current esp).1.pendingIrq = k.pendingIrq ∧
      (switchTo k next current esp).1.log = k.log := by
  obtain ⟨cr3, same⟩ := switch_to_eq k next current esp
  rw [same]
  exact ⟨rfl, rfl, rfl, rfl, rfl, rfl, rfl⟩

theorem Stable.switch_to (stable : Stable k) {next : Ref} (esp : Nat)
    (member : next ∈ k.processes)
    (stopped : (k.table k.current).state ≠ .running) :
    Sound (switchTo k next k.current esp).1 := by
  obtain ⟨processes, current, nextPid, nextRef, forwardPid, pendingIrq, _⟩ :=
    switch_to_fields (k := k) next k.current esp
  have table := table_switch_to (k := k) next k.current esp
  have registered := stable.registered
  refine ⟨⟨⟨?_, ?_, ?_, ?_, ?_, ?_, ?_, ?_⟩, ?_⟩, ?_⟩
  · rw [processes]
    exact registered.head
  · rw [processes]
    exact registered.nodup
  · intro r inside
    rw [processes] at inside
    rw [table, switched, ← registered.pid r inside]
    split <;> split <;> simp [setRunning, registered.pid r inside]
  · intro r inside
    rw [processes] at inside
    have live := registered.live r inside
    rw [table, switched]
    split <;> split <;> simp [setRunning, live]
  · rw [processes, current]
    exact member
  · rw [processes, nextRef]
    exact registered.created
  · rw [nextRef]
    exact registered.bound
  · rw [nextPid, nextRef]
    exact registered.nextPid
  · intro r inside
    rw [processes] at inside
    have old := stable.admissible r inside
    rw [table, switched]
    by_cases chosen : r = next
    · -- the chosen process runs; it is the current one now
      rw [if_pos chosen]
      refine ⟨?_, ?_, ?_, ?_, ?_⟩
      · intro other
        rw [current] at other
        exact absurd chosen other
      · intro _
        exact Or.inr rfl
      · intro blocked
        cases blocked
      · intro blocked
        cases blocked
      · intro s queued
        exact old.senders s (by split at queued <;> exact queued)
    · rw [if_neg chosen]
      have unchanged : Admissible k r
          (if r = k.current then { k.table r with esp := esp } else k.table r) :=
        old.keep (by split <;> rfl) (by split <;> rfl) (by split <;> rfl) (by split <;> rfl)
      refine ⟨?_, unchanged.idle, ?_, ?_, unchanged.senders⟩
      · intro _
        by_cases caller : r = k.current
        · rw [if_pos caller, caller]
          exact stopped
        · rw [if_neg caller]
          exact old.stopped caller
      · rw [forwardPid, pendingIrq]
        exact unchanged.receiver
      · rw [processes]
        exact unchanged.waiter
  · rw [current, table, switched, if_pos rfl]
    rfl

/-- A blocked process is never the one that is switched to. -/
theorem state_switch_to {next r : Ref} (esp : Nat) (other : r ≠ next) :
    ((switchTo k next k.current esp).1.table r).state = (k.table r).state := by
  rw [table_switch_to, switched, if_neg other]
  split <;> rfl

/-- A switch of processes changes of a record only its stack pointer, and its state when it
is the one that runs next. -/
theorem record_switch_to (next current : Ref) (esp : Nat) (r : Ref) :
    ∃ sp state, (switchTo k next current esp).1.table r =
      { k.table r with esp := sp, state := state } ∧
        (state = .running ∨ state = (k.table r).state) := by
  rw [table_switch_to]
  unfold switched
  split <;> split
  · exact ⟨_, _, rfl, .inl rfl⟩
  · exact ⟨_, _, rfl, .inl rfl⟩
  · exact ⟨_, _, rfl, .inr rfl⟩
  · exact ⟨_, _, rfl, .inr rfl⟩

theorem record_reschedule (k : KernelState) (esp : Nat) (r : Ref) :
    ∃ sp state, (reschedule k esp).1.table r = { k.table r with esp := sp, state := state } ∧
      (state = .running ∨ state = (k.table r).state) := by
  unfold reschedule
  split
  · exact ⟨_, _, rfl, .inr rfl⟩
  · exact @record_switch_to { k with tickCount := 0 } _ _ _ r

theorem Stable.with_tick_count (stable : Stable k) (tickCount : Nat) :
    Stable { k with tickCount := tickCount } :=
  ⟨⟨stable.registered.head, stable.registered.nodup, stable.registered.pid,
      stable.registered.live, stable.registered.current, stable.registered.created,
      stable.registered.bound, stable.registered.nextPid⟩,
    fun r member =>
      have old := stable.admissible r member
      ⟨old.stopped, old.idle, old.receiver, old.waiter, old.senders⟩⟩

theorem Sound.with_ticks (sound : Sound k) (ticks : Nat) : Sound { k with ticks := ticks } :=
  have registered := sound.stable.registered
  ⟨⟨⟨registered.head, registered.nodup, registered.pid, registered.live, registered.current,
      registered.created, registered.bound, registered.nextPid⟩,
    fun r member =>
      have old := sound.stable.admissible r member
      ⟨old.stopped, old.idle, old.receiver, old.waiter, old.senders⟩⟩, sound.running⟩

theorem reschedule_eq (registered : Registered k) (user : k.current ≠ kernelTask)
    (esp : Nat) : reschedule k esp =
      switchTo { k with tickCount := 0 } (findNextReady k k.current) k.current esp :=
  if_neg (Nat.not_le.mpr (registered.more_than_one user))

theorem Stable.reschedule (stable : Stable k) (user : k.current ≠ kernelTask)
    (blocked : (k.table k.current).state ≠ .running) (esp : Nat) :
    Sound (reschedule k esp).1 := by
  rw [reschedule_eq stable.registered user]
  exact (stable.with_tick_count 0).switch_to esp (stable.finds_ready user).1 blocked

theorem state_reschedule (stable : Stable k) (user : k.current ≠ kernelTask) (esp : Nat)
    {r : Ref} (notReady : (k.table r).state ≠ .ready) :
    ((reschedule k esp).1.table r).state = (k.table r).state := by
  rw [reschedule_eq stable.registered user]
  refine state_switch_to (k := { k with tickCount := 0 }) esp fun chosen => ?_
  exact notReady (chosen ▸ (stable.finds_ready user).2.2)

theorem schedule_cases (k : KernelState) (esp : Nat) :
    (∃ tickCount, (schedule k esp).1 = { k with tickCount := tickCount }) ∨
      (schedule k esp).1 =
        (switchTo ({ k with tickCount := 0 }.modify k.current demote)
          (findNextReady (k.modify k.current demote) k.current) k.current esp).1 := by
  unfold schedule
  by_cases alone : getProcessCount k ≤ 1
  · exact Or.inl ⟨k.tickCount, by rw [if_pos alone]⟩
  rw [if_neg alone]
  dsimp only
  by_cases early : u32 (k.tickCount + 1) < k.timeSlice
  · exact Or.inl ⟨_, by rw [if_pos early]⟩
  · right
    rw [if_neg early]
    rfl

theorem record_schedule (k : KernelState) (esp : Nat) (r : Ref) :
    ∃ sp state, (Scheduler.schedule k esp).1.table r =
      { k.table r with esp := sp, state := state } ∧
        (state = .running ∨ state = .ready ∨ state = (k.table r).state) := by
  rcases schedule_cases k esp with ⟨tickCount, same⟩ | switched
  · rw [same]
    exact ⟨_, _, rfl, .inr (.inr rfl)⟩
  · rw [switched]
    obtain ⟨sp, state, record, changed⟩ := @record_switch_to
      ({ k with tickCount := 0 }.modify k.current demote)
      (findNextReady (k.modify k.current demote) k.current) k.current esp r
    have demoted : ∃ state', ({ k with tickCount := 0 }.modify k.current demote).table r =
        { k.table r with state := state' } ∧ (state' = .ready ∨ state' = (k.table r).state) := by
      rw [KernelState.table_modify]
      split
      · unfold demote
        split
        · exact ⟨_, rfl, .inl rfl⟩
        · exact ⟨_, rfl, .inr rfl⟩
      · exact ⟨_, rfl, .inr rfl⟩
    obtain ⟨state', record', changed'⟩ := demoted
    rw [record, record']
    refine ⟨_, _, rfl, ?_⟩
    rw [record'] at changed
    rcases changed with running | kept
    · exact .inl running
    · rw [kept]
      exact .inr changed'

theorem Sound.demoted (sound : Sound k) :
    Stable (k.modify k.current demote) ∧
      ((k.modify k.current demote).table k.current).state = .ready := by
  have ready : (demote (k.table k.current)).state = .ready := by
    simp [demote, sound.running]
  refine ⟨sound.stable.make_ready sound.stable.registered.current ?_ ready ?_, ?_⟩
  · unfold demote
    split <;> rfl
  · unfold demote
    split <;> rfl
  · rw [KernelState.table_modify_self]
    exact ready

/-- The process a time slice goes to is ready; it may be the one that just ran. -/
theorem Sound.slice_target (sound : Sound k) :
    findNextReady (k.modify k.current demote) k.current ∈ k.processes ∧
      ((k.modify k.current demote).table
        (findNextReady (k.modify k.current demote) k.current)).state = .ready := by
  obtain ⟨stable, ready⟩ := sound.demoted
  rcases find_next_ready_cases (k := k.modify k.current demote) stable.registered.nodup
    stable.registered.current with same | ⟨member, _, found⟩
  · rw [KernelState.current_modify] at same
    rw [same]
    exact ⟨sound.stable.registered.current, ready⟩
  · exact ⟨member, found⟩

theorem Sound.schedule (sound : Sound k) (esp : Nat) : Sound (schedule k esp).1 := by
  rcases schedule_cases k esp with ⟨tickCount, same⟩ | switched
  · rw [same]
    exact ⟨sound.stable.with_tick_count tickCount, sound.running⟩
  · rw [switched]
    obtain ⟨stable, ready⟩ := sound.demoted
    exact (stable.with_tick_count 0).switch_to esp sound.slice_target.1 (by
      change ((k.modify k.current demote).table k.current).state ≠ .running
      rw [ready]
      decide)

theorem state_schedule (sound : Sound k) (esp : Nat) {r : Ref} (other : r ≠ k.current)
    (notReady : (k.table r).state ≠ .ready) :
    ((Scheduler.schedule k esp).1.table r).state = (k.table r).state := by
  have kept : ((k.modify k.current demote).table r) = k.table r :=
    k.table_modify_of_ne _ _ _ other
  rcases schedule_cases k esp with ⟨tickCount, same⟩ | switched
  · rw [same]
  · rw [switched, ← kept]
    refine state_switch_to (k := { k.modify k.current demote with tickCount := 0 }) esp
      fun chosen => ?_
    have ready := sound.slice_target.2
    rw [← chosen, kept] at ready
    exact notReady ready

end Switching

end CassiOS.Kernel.Invariant
