import CassiOS.Kernel.SchedulingSafety

/-!
# What happens when `nextPid` wraps around

One process starts programs one after the other and waits for each of them. After
`2 ^ 32 - 2` rounds `nextPid` is 0, and the next program gets the PID of the kernel task.
-/

namespace CassiOS.Kernel.PidWrap

open CassiOS.Support.Words
open CassiOS.Support.TransitionSystem
open CassiOS.Kernel.State
open CassiOS.Kernel.ProcessManager
open CassiOS.Kernel.Scheduler
open CassiOS.Kernel.Irq
open CassiOS.Kernel.Syscall
open CassiOS.Kernel.System
open CassiOS.Kernel.Invariant
open CassiOS.Kernel.Outcomes
open CassiOS.Kernel.ProcessStates
open CassiOS.Kernel.SchedulingSafety

set_option autoImplicit false

variable {k : KernelState}

def noReply (_ : KernelState) : Action → Prop
  | .syscall _ (.reply _ _ _ _) => False
  | _ => True

/-! ## A whole time slice -/

def ticked (k : KernelState) (tickCount ticks : Nat) : KernelState :=
  { k with tickCount := tickCount, ticks := ticks }

/-- The state after the tick that ends the time slice. -/
def sliceEnd (k : KernelState) (ticks : Nat) : KernelState :=
  (switchTo ((ticked k 0 ticks).modify k.current demote)
    (findNextReady (k.modify k.current demote) k.current) k.current kernelVbase).1

structure Slice (k : KernelState) : Prop where
  several : 1 < k.processes.length
  timeSlice : k.timeSlice = 10
  forwardPid : k.forwardPid = fun _ => 0

theorem forward_unregistered (forwardPid : k.forwardPid = fun _ => 0) (irq : Nat) :
    forward k irq = k := by
  unfold forward
  exact if_neg fun registered => registered.2 (by rw [forwardPid])

theorem early_tick (slice : Slice k) {tickCount ticks : Nat} (early : tickCount + 1 < 10) :
    step (ticked k tickCount ticks) timerTick =
      some (ticked k (tickCount + 1) (u32 (ticks + 1))) := by
  have bound : u32 (tickCount + 1) = tickCount + 1 := u32_of_lt (by omega)
  have handled : (runHandler (ticked k tickCount ticks) 0 kernelVbase).1 =
      ticked k (tickCount + 1) (u32 (ticks + 1)) := by
    have scheduled : schedule (ticked k tickCount (u32 (ticks + 1))) kernelVbase =
        (ticked k (tickCount + 1) (u32 (ticks + 1)), kernelVbase) := by
      unfold schedule
      rw [if_neg (show ¬ getProcessCount (ticked k tickCount (u32 (ticks + 1))) ≤ 1 from
        Nat.not_le.mpr slice.several)]
      have before : u32 (tickCount + 1) < k.timeSlice := by
        rw [bound, slice.timeSlice]
        exact early
      refine (if_pos before).trans ?_
      simp only [ticked, bound]
    exact congrArg Prod.fst scheduled
  change some (forward (runHandler (ticked k tickCount ticks) 0 kernelVbase).1 0) = _
  rw [handled, forward_unregistered (k := ticked k (tickCount + 1) (u32 (ticks + 1)))
    slice.forwardPid]

theorem last_tick (slice : Slice k) {ticks : Nat} :
    step (ticked k 9 ticks) timerTick = some (sliceEnd k (u32 (ticks + 1))) := by
  have handled : (runHandler (ticked k 9 ticks) 0 kernelVbase).1 =
      sliceEnd k (u32 (ticks + 1)) := by
    have scheduled : (schedule (ticked k 9 (u32 (ticks + 1))) kernelVbase).1 =
        sliceEnd k (u32 (ticks + 1)) := by
      unfold schedule
      rw [if_neg (show ¬ getProcessCount (ticked k 9 (u32 (ticks + 1))) ≤ 1 from
        Nat.not_le.mpr slice.several)]
      have expired : ¬ u32 (9 + 1) < k.timeSlice := by
        rw [slice.timeSlice]
        decide
      exact congrArg Prod.fst (if_neg expired)
    exact scheduled
  have unregistered : (sliceEnd k (u32 (ticks + 1))).forwardPid = fun _ => 0 := by
    rw [sliceEnd, (switch_to_fields _ _ _).2.2.2.2.1]
    exact slice.forwardPid
  change some (forward (runHandler (ticked k 9 ticks) 0 kernelVbase).1 0) = _
  rw [handled, forward_unregistered unregistered]

theorem early_ticks (slice : Slice k) (ticks : Nat) (count : Nat) (few : count < 10) :
    ∃ later, Run step noReply (ticked k 0 ticks) (ticked k count later) := by
  induction count with
  | zero => exact ⟨ticks, .start⟩
  | succ count ih =>
      obtain ⟨later, run⟩ := ih (by omega)
      exact ⟨_, .step run (show noReply _ timerTick from trivial) (early_tick slice few)⟩

theorem run_slice (slice : Slice k) (fresh : k.tickCount = 0) :
    ∃ ticks, Run step noReply k (sliceEnd k ticks) := by
  obtain ⟨later, run⟩ := early_ticks slice k.ticks 9 (by decide)
  have same : ticked k 0 k.ticks = k := by
    unfold ticked
    rw [← fresh]
  rw [same] at run
  exact ⟨_, .step run (show noReply _ timerTick from trivial) (last_tick slice)⟩

/-! ## One round -/

/-- Process 1 runs beside the kernel task, and the next process gets PID `pid`. -/
structure Parent (pid : Nat) (k : KernelState) : Prop where
  processes : k.processes = [0, 1]
  current : k.current = 1
  kernelPid : (k.table 0).pid = 0
  parentPid : (k.table 1).pid = 1
  kernelState : (k.table 0).state = .ready
  parentState : (k.table 1).state = .running
  kernelMsg : (k.table 0).msg = fun _ => 0
  sendQueue : (k.table 1).sendQueue = []
  notifyQueue : (k.table 1).notifyQueue = []
  nextPid : k.nextPid = pid
  nextRef : 1 < k.nextRef
  tickCount : k.tickCount = 0
  timeSlice : k.timeSlice = 10
  forwardPid : k.forwardPid = fun _ => 0
  log : k.log = []

/-- Process 1 runs and has just started the process `child`. -/
structure Family (pid : Nat) (child : Nat) (k : KernelState) : Prop where
  processes : k.processes = [0, 1, child]
  later : 1 < child
  current : k.current = 1
  kernelPid : (k.table 0).pid = 0
  parentPid : (k.table 1).pid = 1
  childPid : (k.table child).pid = pid
  kernelState : (k.table 0).state = .ready
  parentState : (k.table 1).state = .running
  childState : (k.table child).state = .ready
  kernelMsg : (k.table 0).msg = fun _ => 0
  sendQueue : (k.table 1).sendQueue = []
  notifyQueue : (k.table 1).notifyQueue = []
  childQueue : (k.table child).sendQueue = []
  nextPid : k.nextPid = u32 (pid + 1)
  nextRef : child < k.nextRef
  tickCount : k.tickCount = 0
  timeSlice : k.timeSlice = 10
  forwardPid : k.forwardPid = fun _ => 0
  log : k.log = []

def startProgram : Action := .syscall kernelVbase (.exec 4096 4096 anyProgram)

theorem parent_starts {pid : Nat} (parent : Parent pid k) :
    ∃ child k', step k startProgram = some k' ∧ Family pid child k' := by
  have possible : k.current ≠ kernelTask ∧ kernelVbase ≤ kernelVbase := by
    rw [parent.current]
    decide
  have outcome := exec_outcome k 4096 4096 anyProgram
  generalize made : exec k 4096 4096 anyProgram = answer at outcome
  cases outcome with
  | failed missing =>
      exact absurd (show Starts 4096 4096 anyProgram by
        simp [Starts, anyProgram]) missing
  | child proc _ new =>
      refine ⟨k.nextRef, returnValue (started k proc) k.nextPid, ?_, ?_⟩
      · rw [startProgram, step, if_pos possible, handleSyscall, made]
      · have later := parent.nextRef
        have zero : (0 : Nat) ≠ k.nextRef := by omega
        have one : (1 : Nat) ≠ k.nextRef := by omega
        constructor <;>
          simp [returnValue, KernelState.modify, started, zero, one, parent.processes,
            parent.current, parent.kernelPid, parent.parentPid, parent.kernelState,
            parent.parentState, parent.kernelMsg, parent.sendQueue, parent.notifyQueue,
            parent.nextPid, parent.nextRef, parent.tickCount, parent.timeSlice,
            parent.forwardPid, parent.log, new.pid, new.state, new.sendQueue, Ne.symm one]

/-- The child runs while its parent waits for PID `pid`. -/
structure ChildRuns (pid : Nat) (child : Nat) (k : KernelState) : Prop where
  processes : k.processes = [0, 1, child]
  later : 1 < child
  current : k.current = child
  kernelPid : (k.table 0).pid = 0
  parentPid : (k.table 1).pid = 1
  childPid : (k.table child).pid = pid
  kernelState : (k.table 0).state = .ready
  parentState : (k.table 1).state = .waitBlocked
  waitPid : (k.table 1).waitPid = pid
  childState : (k.table child).state = .running
  kernelMsg : (k.table 0).msg = fun _ => 0
  sendQueue : (k.table 1).sendQueue = []
  notifyQueue : (k.table 1).notifyQueue = []
  childQueue : (k.table child).sendQueue = []
  nextPid : k.nextPid = u32 (pid + 1)
  nextRef : child < k.nextRef
  tickCount : k.tickCount = 0
  timeSlice : k.timeSlice = 10
  forwardPid : k.forwardPid = fun _ => 0
  log : k.log = []

theorem reschedule_to {next : Ref} (several : 1 < k.processes.length)
    (found : findNextReady k k.current = next) (esp : Nat) :
    ∃ cr3, (reschedule k esp).1 =
      { k with
        table := switched k next k.current esp
        current := next
        tickCount := 0
        cr3 := cr3 } := by
  obtain ⟨cr3, same⟩ := switch_to_eq { k with tickCount := 0 } next k.current esp
  refine ⟨cr3, ?_⟩
  rw [reschedule, if_neg (show ¬ getProcessCount k ≤ 1 from Nat.not_le.mpr several)]
  dsimp only
  rw [found]
  exact same

theorem candidates_of_parent {child : Nat} : candidates [0, 1, child] 1 = [child, 0] := by
  simp [candidates]

theorem candidates_of_child {child : Nat} (later : 1 < child) :
    candidates [0, 1, child] child = [0, 1] := by
  have zero : (0 : Nat) ≠ child := by omega
  have one : (1 : Nat) ≠ child := by omega
  simp [candidates, zero, one]

theorem parent_waits {pid child : Nat} (family : Family pid child k) (other : pid ≠ 1) :
    ∃ k', step k (.syscall kernelVbase (.waitpid pid)) = some k' ∧ ChildRuns pid child k' := by
  have possible : k.current ≠ kernelTask ∧ kernelVbase ≤ kernelVbase := by
    rw [family.current]
    decide
  have later := family.later
  have zero : (0 : Nat) ≠ child := by omega
  have one : (1 : Nat) ≠ child := by omega
  have answered : waitpid k pid = (k.modify 1 (waitFor pid), 0) := by
    have found : get k pid = some (if pid = 0 then 0 else child) := by
      unfold ProcessManager.get
      by_cases kernel : pid = 0
      · simp [family.processes, family.kernelPid, family.kernelState, kernel]
      · simp [family.processes, family.kernelPid, family.parentPid, family.childPid,
          family.childState, Ne.symm kernel, Ne.symm other, kernel]
    unfold waitpid
    rw [found, family.current]
    by_cases kernel : pid = 0
    · simp [kernel]
    · simp [kernel, Ne.symm one]
  have found : findNextReady (k.modify 1 (waitFor pid)) (k.modify 1 (waitFor pid)).current =
      child := by
    rw [findNextReady, KernelState.processes_modify, KernelState.current_modify,
      family.processes, family.current, candidates_of_parent]
    simp [Ne.symm one, family.childState]
  obtain ⟨cr3, same⟩ := reschedule_to (k := k.modify 1 (waitFor pid))
    (by simp [family.processes]) found kernelVbase
  refine ⟨_, by rw [step, if_pos possible, handleSyscall], ?_⟩
  simp only [answered, blockOrReturn, if_pos, same]
  constructor <;>
    simp [switched, setRunning, waitFor, zero, one, Ne.symm one, family.processes,
      family.current, family.later, family.kernelPid, family.parentPid, family.childPid,
      family.kernelState, family.kernelMsg, family.sendQueue, family.notifyQueue,
      family.childQueue, family.nextPid, family.nextRef, family.timeSlice, family.forwardPid,
      family.log]

structure KernelRuns (pid : Nat) (k : KernelState) : Prop where
  processes : k.processes = [0, 1]
  current : k.current = 0
  kernelPid : (k.table 0).pid = 0
  parentPid : (k.table 1).pid = 1
  kernelState : (k.table 0).state = .running
  parentState : (k.table 1).state = .ready
  kernelMsg : (k.table 0).msg = fun _ => 0
  sendQueue : (k.table 1).sendQueue = []
  notifyQueue : (k.table 1).notifyQueue = []
  nextPid : k.nextPid = u32 (pid + 1)
  nextRef : 1 < k.nextRef
  tickCount : k.tickCount = 0
  timeSlice : k.timeSlice = 10
  forwardPid : k.forwardPid = fun _ => 0
  log : k.log = []

theorem child_exits {pid child : Nat} (runs : ChildRuns pid child k) (zero : pid ≠ 0)
    (one : pid ≠ 1) :
    ∃ k', step k (.syscall kernelVbase .exit) = some k' ∧ KernelRuns pid k' := by
  have later := runs.later
  have notZero : (0 : Nat) ≠ child := by omega
  have notOne : (1 : Nat) ≠ child := by omega
  have bound := runs.nextRef
  have possible : k.current ≠ kernelTask ∧ kernelVbase ≤ kernelVbase := by
    rw [runs.current]
    exact ⟨Ne.symm notZero, Nat.le_refl _⟩
  have next : successor k child = 0 := by
    have found : findNextReady k child = 0 := by
      rw [findNextReady, runs.processes, candidates_of_child later]
      simp [runs.kernelState]
    rw [successor, found, if_neg notZero]
  have found : get k pid = some child := by
    unfold ProcessManager.get
    simp [runs.processes, runs.kernelPid, runs.parentPid, runs.childPid, runs.childState,
      Ne.symm zero, Ne.symm one]
  refine ⟨_, by rw [step, if_pos possible, handleSyscall], ?_⟩
  unfold exitCurrent
  simp only [runs.current, next, runs.childPid, destroy, if_neg zero, found, runs.childQueue,
    List.foldl_nil]
  constructor <;> split <;>
    simp [KernelState.modify, wakeWaiters, wake, setRunning, notZero, notOne, runs.processes,
      runs.kernelPid, runs.parentPid, runs.kernelState, runs.parentState, runs.waitPid,
      runs.kernelMsg, runs.sendQueue, runs.notifyQueue, runs.nextPid, runs.timeSlice,
      runs.forwardPid, runs.log] <;> omega

theorem kernel_yields {pid : Nat} (runs : KernelRuns pid k) :
    ∃ k', Run step noReply k k' ∧ Parent (u32 (pid + 1)) k' := by
  obtain ⟨ticks, run⟩ := run_slice ⟨by simp [runs.processes], runs.timeSlice, runs.forwardPid⟩
    runs.tickCount
  refine ⟨_, run, ?_⟩
  have found : findNextReady (k.modify k.current demote) k.current = 1 := by
    rw [findNextReady, KernelState.processes_modify, runs.processes, runs.current]
    simp [candidates, runs.parentState]
  obtain ⟨cr3, same⟩ := switch_to_eq ((ticked k 0 ticks).modify k.current demote) 1 k.current
    kernelVbase
  rw [sliceEnd, found, same]
  constructor <;>
    simp [switched, setRunning, demote, ticked, runs.processes, runs.current, runs.kernelPid,
      runs.parentPid, runs.kernelState, runs.kernelMsg, runs.sendQueue, runs.notifyQueue,
      runs.nextPid, runs.nextRef, runs.timeSlice, runs.forwardPid, runs.log]

theorem parent_round {pid : Nat} (parent : Parent pid k) (user : 2 ≤ pid) :
    ∃ k', Run step noReply k k' ∧ Parent (u32 (pid + 1)) k' := by
  obtain ⟨child, started, start, family⟩ := parent_starts parent
  obtain ⟨waiting, wait, runs⟩ := parent_waits family (by omega)
  obtain ⟨exited, exit, idle⟩ := child_exits runs (by omega) (by omega)
  obtain ⟨resumed, slice, next⟩ := kernel_yields idle
  exact ⟨resumed, Run.trans
    (.step (.step (.step .start (show noReply _ startProgram from trivial) start)
      (show noReply _ (.syscall kernelVbase (.waitpid pid)) from trivial) wait)
      (show noReply _ (.syscall kernelVbase .exit) from trivial) exit) slice, next⟩

def oneProgram : KernelState := boot 0 (fun _ _ => 0) [anyProgram]

theorem kernel_runs_at_boot : KernelRuns 1 oneProgram := by
  constructor
  case nextRef => exact (by decide : 1 < 2)
  all_goals rfl

theorem parent_after (rounds : Nat) (few : rounds ≤ 4294967294) :
    ∃ k, Run step noReply oneProgram k ∧ Parent (u32 (2 + rounds)) k := by
  induction rounds with
  | zero => exact kernel_yields kernel_runs_at_boot
  | succ rounds ih =>
      obtain ⟨k, run, parent⟩ := ih (by omega)
      have pid : u32 (2 + rounds) = 2 + rounds := u32_of_lt (by omega)
      rw [pid] at parent
      obtain ⟨k', round, next⟩ := parent_round parent (by omega)
      exact ⟨k', run.trans round, next⟩

theorem reaches_one_program {k : KernelState} (run : Run step noReply oneProgram k) :
    Reaches noReply k :=
  ⟨0, fun _ _ => 0, [anyProgram], by decide, run⟩

theorem parent_of_wrap : ∃ k, Run step noReply oneProgram k ∧ Parent 0 k :=
  parent_after 4294967294 (Nat.le_refl _)

/-! ## The program with the kernel task's PID -/

/-- `destroy` refuses PID 0, so the program that exits stays in state `Running`. -/
theorem wrapped_child_exits {child : Nat} (runs : ChildRuns 0 child k) :
    ∃ k', step k (.syscall kernelVbase .exit) = some k' ∧ k'.current = 0 ∧
      child ∈ k'.processes ∧ child ≠ 0 ∧ (k'.table child).state = .running := by
  have later := runs.later
  have notZero : (0 : Nat) ≠ child := by omega
  have possible : k.current ≠ kernelTask ∧ kernelVbase ≤ kernelVbase := by
    rw [runs.current]
    exact ⟨Ne.symm notZero, Nat.le_refl _⟩
  have next : successor k child = 0 := by
    have found : findNextReady k child = 0 := by
      rw [findNextReady, runs.processes, candidates_of_child later]
      simp [runs.kernelState]
    rw [successor, found, if_neg notZero]
  refine ⟨_, by rw [step, if_pos possible, handleSyscall], ?_⟩
  unfold exitCurrent
  simp only [runs.current, next, runs.childPid, destroy, if_pos]
  split <;> simp [KernelState.modify, Ne.symm notZero, runs.processes, runs.childState]

end CassiOS.Kernel.PidWrap
