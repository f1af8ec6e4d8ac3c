import CassiOS.Kernel.Outcomes

/-!
# What an exit does to the other processes

A process that is destroyed wakes the senders still in its send queue with -1 and the
processes waiting for it with 0; nobody else's record changes.
-/

namespace CassiOS.Kernel.Exit

open CassiOS.Support.Words
open CassiOS.Kernel.State
open CassiOS.Kernel.ProcessManager
open CassiOS.Kernel.Scheduler
open CassiOS.Kernel.ProcessTable
open CassiOS.Kernel.Invariant

set_option autoImplicit false

variable {k : KernelState}

/-- The record of `r` after the senders in `queue` have been woken. -/
def wokenSender (k : KernelState) (queue : List Nat) (r : Ref) : Process :=
  if r ∈ k.processes ∧ r ∈ queue ∧ (k.table r).state = .sendBlocked then
    wake (asU32 (-1)) (k.table r)
  else k.table r

theorem registered_wake_sender (registered : Registered k) (senderPid : Nat) :
    Registered (wakeSender k senderPid) := by
  unfold wakeSender
  cases get k senderPid with
  | none => exact registered
  | some sender =>
      by_cases waiting : (k.table sender).state = .sendBlocked
      · simp only [if_pos waiting]
        exact registered.modify rfl (by simp [wake])
      · simp only [if_neg waiting]
        exact registered

theorem wake_sender_eq (registered : Registered k) (senderPid : Nat) :
    wakeSender k senderPid = { k with table := wokenSender k [senderPid] } := by
  unfold wakeSender
  cases found : get k senderPid with
  | none =>
      have absent := registered.get_eq_none.mp found
      have same : wokenSender k [senderPid] = k.table := by
        funext r
        refine if_neg fun known => ?_
        rw [List.mem_singleton] at known
        exact absent (known.2.1 ▸ known.1)
      rw [same]
  | some sender =>
      obtain ⟨rfl, live⟩ := registered.get_eq_some.mp found
      by_cases waiting : (k.table sender).state = .sendBlocked
      · simp only [if_pos waiting, KernelState.modify, KernelState.mk.injEq, and_true]
        funext r
        unfold wokenSender
        by_cases same : r = sender
        · subst same
          simp [live, waiting]
        · simp [same]
      · simp only [if_neg waiting]
        have same : wokenSender k [sender] = k.table := by
          funext r
          refine if_neg fun known => ?_
          rw [List.mem_singleton] at known
          exact waiting (known.2.1 ▸ known.2.2)
        rw [same]

theorem wake_senders_eq (queue : List Nat) (registered : Registered k) :
    queue.foldl wakeSender k = { k with table := wokenSender k queue } := by
  induction queue generalizing k with
  | nil =>
      have same : wokenSender k [] = k.table := by
        funext r
        simp [wokenSender]
      rw [List.foldl_nil, same]
  | cons senderPid rest ih =>
      rw [List.foldl_cons, ih (registered_wake_sender registered senderPid),
        wake_sender_eq registered]
      simp only [KernelState.mk.injEq, and_true]
      funext r
      -- a sender that is woken is ready, so a second entry finds nothing to do
      simp only [wokenSender, List.mem_cons]
      by_cases live : r ∈ k.processes
      · by_cases first : r = senderPid
        · by_cases waiting : (k.table r).state = .sendBlocked
          · simp [← first, live, waiting, wake]
          · simp [waiting]
        · simp [first, live]
      · simp [live]

/-- The record of another process after `p` has been destroyed. -/
def survivor (k : KernelState) (p r : Ref) : Process :=
  if r ∈ (k.table p).sendQueue ∧ (k.table r).state = .sendBlocked then
    wake (asU32 (-1)) (k.table r)
  else if (k.table r).state = .waitBlocked ∧ (k.table r).waitPid = p then
    wake 0 (k.table r)
  else k.table r

theorem destroy_spec (registered : Registered k) {p : Ref} (live : p ∈ k.processes)
    (user : p ≠ kernelTask) :
    ∃ table, destroy k p =
        { k with table := table, processes := k.processes.erase p } ∧
      ∀ r ∈ k.processes, r ≠ p → table r = survivor k p r := by
  unfold destroy
  rw [if_neg (show p ≠ 0 from user), registered.get_of_mem live]
  dsimp only
  rw [wake_senders_eq _ registered]
  refine ⟨_, rfl, fun r member other => ?_⟩
  simp only [wakeWaiters, KernelState.modify, if_neg other, survivor, wokenSender, member,
    true_and]
  by_cases queued : r ∈ (k.table p).sendQueue ∧ (k.table r).state = .sendBlocked
  · simp [queued, wake]
  · simp only [if_neg queued]

/-- The process that runs next was ready, so the exit itself leaves its record alone. -/
theorem survivor_of_ready {p r : Ref} (ready : (k.table r).state = .ready) :
    survivor k p r = k.table r := by
  simp [survivor, ready]

structure ExitOutcome (k k' : KernelState) : Prop where
  next_mem : k'.current ∈ k.processes
  next_other : k'.current ≠ k.current
  next_ready : (k.table k'.current).state = .ready
  processes : k'.processes = k.processes.erase k.current
  table : ∀ r ∈ k.processes, r ≠ k.current → k'.table r =
    if r = k'.current then setRunning (k.table r) else survivor k k.current r
  nextPid : k'.nextPid = k.nextPid
  nextRef : k'.nextRef = k.nextRef
  forwardPid : k'.forwardPid = k.forwardPid
  pendingIrq : k'.pendingIrq = k.pendingIrq
  log : k'.log = k.log

theorem exit_outcome (stable : Stable k) (user : k.current ≠ kernelTask) :
    ExitOutcome k (exitCurrent k).1 := by
  obtain ⟨member, other, ready⟩ := stable.finds_ready user
  have next : successor k k.current = findNextReady k k.current := if_neg other
  have pid : (k.table k.current).pid = k.current :=
    stable.registered.pid _ stable.registered.current
  obtain ⟨table, destroyed, survivors⟩ :=
    destroy_spec stable.registered stable.registered.current user
  have outcome : ∃ cr3, (exitCurrent k).1 =
      { k with
        table := fun r => if r = findNextReady k k.current then setRunning (table r) else table r
        processes := k.processes.erase k.current
        current := findNextReady k k.current
        tickCount := 0
        cr3 := cr3 } := by
    unfold exitCurrent
    dsimp only
    rw [next, pid, destroyed]
    split <;> exact ⟨_, rfl⟩
  obtain ⟨cr3, shape⟩ := outcome
  rw [shape]
  refine ⟨member, other, ready, rfl, fun r known apart => ?_, rfl, rfl, rfl, rfl, rfl⟩
  dsimp only
  rw [survivors r known apart]
  by_cases chosen : r = findNextReady k k.current
  · rw [if_pos chosen, if_pos chosen, survivor_of_ready (chosen ▸ ready)]
  · rw [if_neg chosen, if_neg chosen]

theorem survivor_keeps (p r : Ref) :
    (survivor k p r).pid = (k.table r).pid ∧
      (survivor k p r).sendQueue = (k.table r).sendQueue ∧
      (survivor k p r).notifyQueue = (k.table r).notifyQueue ∧
      (survivor k p r).waitPid = (k.table r).waitPid ∧
      (survivor k p r).msg = (k.table r).msg ∧
      ((survivor k p r).state = (k.table r).state ∨ (survivor k p r).state = .ready) := by
  unfold survivor
  split
  · exact ⟨rfl, rfl, rfl, rfl, rfl, Or.inr rfl⟩
  · split
    · exact ⟨rfl, rfl, rfl, rfl, rfl, Or.inr rfl⟩
    · exact ⟨rfl, rfl, rfl, rfl, rfl, Or.inl rfl⟩

theorem sound_of_exit (sound : Sound k) (user : k.current ≠ kernelTask) {k' : KernelState}
    (exit : ExitOutcome k k') : Sound k' := by
  have registered := sound.stable.registered
  have mem_iff (r : Ref) : r ∈ k'.processes ↔ r ≠ k.current ∧ r ∈ k.processes := by
    rw [exit.processes]
    exact registered.nodup.mem_erase_iff
  obtain ⟨rest, shape⟩ := registered.head
  refine ⟨⟨⟨?_, ?_, ?_, ?_, ?_, ?_, ?_, ?_⟩, ?_⟩, ?_⟩
  · refine ⟨rest.erase k.current, ?_⟩
    rw [exit.processes, shape, List.erase_cons_tail]
    simpa using Ne.symm user
  · rw [exit.processes]
    exact registered.nodup.erase _
  · intro r member
    obtain ⟨apart, known⟩ := (mem_iff r).mp member
    rw [exit.table r known apart]
    split
    · exact registered.pid r known
    · rw [(survivor_keeps k.current r).1]
      exact registered.pid r known
  · intro r member
    obtain ⟨apart, known⟩ := (mem_iff r).mp member
    rw [exit.table r known apart]
    split
    · simp [setRunning]
    · rcases (survivor_keeps (k := k) k.current r).2.2.2.2.2 with same | ready
      · rw [same]
        exact registered.live r known
      · simp [ready]
  · exact (mem_iff _).mpr ⟨exit.next_other, exit.next_mem⟩
  · intro r member
    rw [exit.nextRef]
    exact registered.created r ((mem_iff r).mp member).2
  · rw [exit.nextRef]
    exact registered.bound
  · rw [exit.nextPid, exit.nextRef]
    exact registered.nextPid
  · intro r member
    obtain ⟨apart, known⟩ := (mem_iff r).mp member
    have old := sound.stable.admissible r known
    rw [exit.table r known apart]
    by_cases chosen : r = k'.current
    · rw [if_pos chosen]
      refine ⟨fun other => absurd chosen other, fun _ => Or.inr rfl, ?_, ?_, old.senders⟩
      · simp [setRunning]
      · simp [setRunning]
    · rw [if_neg chosen]
      obtain ⟨_, sendQueue, notifyQueue, waitPid, _, state⟩ := survivor_keeps (k := k)
        k.current r
      refine ⟨fun _ => ?_, fun kernel => ?_, fun blocked => ?_, fun blocked => ?_, ?_⟩
      · rcases state with same | ready
        · rw [same]
          exact old.stopped apart
        · simp [ready]
      · rcases state with same | ready
        · rw [same]
          exact old.idle kernel
        · exact Or.inl ready
      · rcases state with same | ready
        · rw [sendQueue, notifyQueue, exit.forwardPid, exit.pendingIrq]
          exact old.receiver (same ▸ blocked)
        · rw [ready] at blocked
          cases blocked
      · -- a process that waited for the dying one has been woken
        rcases state with same | ready
        · rw [waitPid]
          refine (mem_iff _).mpr ⟨fun dying => ?_, old.waiter (same ▸ blocked)⟩
          have waiting : (k.table r).state = .waitBlocked := same ▸ blocked
          rw [survivor, if_neg (by simp [waiting]), if_pos ⟨waiting, dying⟩] at blocked
          cases blocked
        · rw [ready] at blocked
          cases blocked
      · rw [sendQueue]
        exact old.senders
  · rw [exit.table _ exit.next_mem exit.next_other, if_pos rfl]
    rfl

end CassiOS.Kernel.Exit
