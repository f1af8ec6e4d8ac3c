import CassiOS.Kernel.ProcessStates

/-!
# Scheduling safety

The process-state invariant of the kernel in terms of PIDs, and its proof for every run
in which no process is created with the kernel task's PID.
-/

namespace CassiOS.Kernel.SchedulingSafety

open CassiOS.Support.TransitionSystem
open CassiOS.Kernel.State
open CassiOS.Kernel.ProcessManager
open CassiOS.Kernel.Scheduler
open CassiOS.Kernel.Irq
open CassiOS.Kernel.Syscall
open CassiOS.Kernel.System
open CassiOS.Kernel.ProcessTable
open CassiOS.Kernel.Invariant
open CassiOS.Kernel.Outcomes
open CassiOS.Kernel.ProcessStates

set_option autoImplicit false

variable {k : KernelState}

structure StateInvariant (k : KernelState) : Prop where
  running : k.current ∈ k.processes ∧
    ∀ r ∈ k.processes, (k.table r).state = .running ↔ r = k.current
  kernel : (k.table kernelTask).state = .ready ∨ (k.table kernelTask).state = .running
  receivers : ∀ r ∈ k.processes, (k.table r).state = .receiveBlocked →
    (k.table r).sendQueue = [] ∧ (k.table r).notifyQueue = [] ∧
      ∀ irq, irq < irqLines → k.forwardPid irq = (k.table r).pid → k.pendingIrq irq = false
  waiters : ∀ r ∈ k.processes, (k.table r).state = .waitBlocked →
    ∃ q ∈ k.processes, (k.table q).pid = (k.table r).waitPid

/-- The state in which a call that blocks hands over to `reschedule`. -/
def blockedIn (k : KernelState) : Call → Option KernelState
  | .send targetPid msg dataPtr dataLen node =>
      let answer := send k targetPid msg dataPtr dataLen node
      if answer.2 = 0 then some answer.1 else none
  | .receive msg dataPtr dataCapacity =>
      let answer := receive k msg dataPtr dataCapacity
      if answer.2 = 0 then some answer.1 else none
  | .waitpid pid =>
      let answer := waitpid k pid
      if answer.2 = 0 then some answer.1 else none
  | _ => none

theorem of_blocked {answer : KernelState × Int} {blocked : KernelState}
    (blocks : (if answer.2 = 0 then some answer.1 else none) = some blocked) :
    answer.2 = 0 ∧ answer.1 = blocked := by
  by_cases zero : answer.2 = 0
  · rw [if_pos zero] at blocks
    exact ⟨zero, Option.some.inj blocks⟩
  · rw [if_neg zero] at blocks
    cases blocks

/-- `reschedule` would find a ready process other than its caller. -/
def FindsAnother (k : KernelState) : Prop :=
  findNextReady k k.current ∈ k.processes ∧ findNextReady k k.current ≠ k.current ∧
    (k.table (findNextReady k k.current)).state = .ready

theorem state_invariant_of_sound (sound : Sound k) : StateInvariant k where
  running := by
    refine ⟨sound.stable.registered.current, fun r member => ⟨fun running => ?_, ?_⟩⟩
    · by_contra other
      exact (sound.stable.admissible r member).stopped other running
    · rintro rfl
      exact sound.running
  kernel := (sound.stable.admissible _ sound.stable.registered.kernel_task_mem).idle rfl
  receivers := fun r member waiting => by
    rw [sound.stable.registered.pid r member]
    exact (sound.stable.admissible r member).receiver waiting
  waiters := fun r member waiting => by
    have live := (sound.stable.admissible r member).waiter waiting
    exact ⟨_, live, sound.stable.registered.pid _ live⟩

theorem finds_another_of_handled {answer : KernelState × Int} (handled : Handled k answer)
    (user : k.current ≠ kernelTask) : FindsAnother answer.1 :=
  handled.stable.finds_ready (handled.current ▸ user)

theorem finds_another (sound : Sound k) (user : k.current ≠ kernelTask) {call : Call}
    {blocked : KernelState} (blocks : blockedIn k call = some blocked) :
    FindsAnother blocked := by
  have registered := sound.stable.registered
  cases call with
  | send targetPid msg dataPtr dataLen node =>
      have handled := handled_send sound user
        (send_outcome registered targetPid msg dataPtr dataLen node)
      obtain ⟨_, rfl⟩ := of_blocked blocks
      exact finds_another_of_handled handled user
  | receive msg dataPtr dataCapacity =>
      have handled := handled_receive sound user
        (receive_outcome registered msg dataPtr dataCapacity)
      obtain ⟨_, rfl⟩ := of_blocked blocks
      exact finds_another_of_handled handled user
  | waitpid pid =>
      have handled := handled_waitpid sound user (waitpid_outcome registered pid)
      obtain ⟨_, rfl⟩ := of_blocked blocks
      exact finds_another_of_handled handled user
  | _ => cases blocks

def timerTick : Action := .irq irqOffset kernelVbase

def anyProgram : Loading where
  buffer := true
  pdPhysical := 4096
  success := true
  entryPoint := 0
  heapStart := 0
  userStackFrame := 4096
  kernelStackFrame := 4096
  process := true

def twoPrograms : KernelState := boot 0 (fun _ _ => 0) [anyProgram, anyProgram]

/-- Process 1 waits for a message, process 2 sends it one, and process 1 runs again. -/
def serving : List Action :=
  List.replicate 10 timerTick ++
    [.syscall kernelVbase (.receive 4096 0 0), .syscall kernelVbase (.send 1 4096 0 0 true)] ++
    List.replicate 10 timerTick

theorem mem_serving {action : Action} (member : action ∈ serving) :
    action = timerTick ∨ action = .syscall kernelVbase (.receive 4096 0 0) ∨
      action = .syscall kernelVbase (.send 1 4096 0 0 true) := by
  simp only [serving, List.mem_append, List.mem_replicate, List.mem_cons,
    List.not_mem_nil] at member
  grind

theorem serving_result :
    (path step twoPrograms serving).map
        (fun k => ((k.current, k.processes), (k.table 1).pid, (k.table 2).state)) =
      some ((1, [0, 1, 2]), 1, .sendBlocked) := by
  decide +kernel

end CassiOS.Kernel.SchedulingSafety
