import CassiOS.Kernel.MessageLog
import CassiOS.Kernel.PidWrap
import CassiOS.Kernel.SavedFrames

/-!
# Message order and reply integrity

The results about the message protocol, in terms of PIDs, for the runs in which every
reply answers a message its caller has received, and runs that show why each condition is
needed.
-/

namespace CassiOS.Kernel.MessageOrder

open CassiOS.Support.Words
open CassiOS.Support.TransitionSystem
open CassiOS.Kernel.State
open CassiOS.Kernel.ProcessManager
open CassiOS.Kernel.Scheduler
open CassiOS.Kernel.Irq
open CassiOS.Kernel.Syscall
open CassiOS.Kernel.System
open CassiOS.Kernel.ProcessTable
open CassiOS.Kernel.Invariant
open CassiOS.Kernel.Outcomes
open CassiOS.Kernel.Exit
open CassiOS.Kernel.ProcessStates
open CassiOS.Kernel.SchedulingSafety
open CassiOS.Kernel.History
open CassiOS.Kernel.Delivery
open CassiOS.Kernel.MessageLog
open CassiOS.Kernel.SavedFrames
open CassiOS.Kernel.PidWrap

set_option autoImplicit false

variable {k : KernelState}

/-- The steps in which replies answer received messages and PIDs stay unique. -/
def Orderly (k : KernelState) (action : Action) : Prop :=
  FreshPid k action ∧ RepliesOwed k action

/-- The messages of PID `s` that process `r` has not received: its queued notifications,
then the message of the process itself when it is in the send queue. -/
def unreceived (k : KernelState) (r : Ref) (s : Nat) : List Message :=
  notesFrom s (k.table r).notifyQueue ++
    if s ∈ (k.table r).sendQueue then
      ((get k s).map fun q => (k.table q).msg).toList
    else []

/-- What is received from a PID is an initial part of what that PID sent. -/
def InOrder (k : KernelState) : Prop :=
  ∀ r s, receivedFrom r s k.log <+: sentTo s r k.log

/-- What is not received is in the queues of the receiver. -/
def NothingLost (k : KernelState) : Prop :=
  ∀ r ∈ k.processes, ∀ s, sentTo s (k.table r).pid k.log =
    receivedFrom (k.table r).pid s k.log ++ unreceived k r s

def QueuesPending (k : KernelState) : Prop :=
  ∀ r ∈ k.processes, ∀ s ∈ (k.table r).sendQueue, (k.table r).sendQueue.count s = 1 ∧
    ∃ q ∈ k.processes, (k.table q).pid = s ∧ (k.table q).state = .sendBlocked

def ExitFailsSenders (k : KernelState) : Prop :=
  ∀ esp k', step k (.syscall esp .exit) = some k' →
    ∀ q ∈ k.processes, (k.table q).pid ∈ (k.table k.current).sendQueue →
      q ∈ k'.processes ∧ (k'.table q).state = .ready ∧ (k'.table q).frameEax = asU32 (-1)

/-- What a step adds to the log is what the programs see of it. -/
def StepsObserved (k : KernelState) : Prop :=
  ∀ action k', step k action = some k' → ∃ events, Observed k k' action events

theorem orderly_invariants (reached : Reaches Orderly k) :
    Sound k ∧ Delivers k ∧ Saved k := by
  obtain ⟨sound, delivers⟩ := delivers_of_reaches reached
  obtain ⟨cr3, memory, modules, few, run⟩ := reached
  refine ⟨sound, delivers, (run.invariant (fun k => Sound k ∧ Saved k) ?_ ?_).2⟩
  · refine boot_induction Saved ?_ ?_ few
    · intro r member blocked
      rw [List.mem_singleton.mp member] at blocked
      exact absurd blocked (not_blocked_of_running rfl)
    · intro k proc sound _ new saved
      exact saved_started sound.stable.registered saved new
  · intro k action k' inv admitted next
    exact ⟨sound_step inv.1 admitted.1 next, saved_step inv.1 inv.2 admitted.1 next⟩

theorem in_order_of_delivers (delivers : Delivers k) : InOrder k := by
  intro r s
  by_cases member : r ∈ k.processes
  · rw [delivers.order r member s]
    exact List.prefix_append _ _
  · exact delivers.gone r member s

theorem nothing_lost_of_delivers (sound : Sound k) (delivers : Delivers k) :
    NothingLost k := by
  intro r member s
  rw [sound.stable.registered.pid r member, delivers.order r member s]
  have same : pending k r s = unreceived k r s := by
    unfold pending unreceived
    by_cases inQueue : s ∈ (k.table r).sendQueue
    · rw [if_pos inQueue, if_pos inQueue,
        sound.stable.registered.get_of_mem (delivers.queued r member s inQueue).1]
      rfl
    · rw [if_neg inQueue, if_neg inQueue]
  rw [same]

theorem queues_pending_of_delivers (sound : Sound k) (delivers : Delivers k) :
    QueuesPending k := by
  intro r member s inQueue
  obtain ⟨live, sending, _⟩ := delivers.queued r member s inQueue
  exact ⟨List.count_eq_one_of_mem (delivers.once r member) inQueue, s, live,
    sound.stable.registered.pid s live, sending⟩

theorem exit_fails_senders (sound : Sound k) (delivers : Delivers k) (saved : Saved k) :
    ExitFailsSenders k := by
  intro esp k' next q member inQueue
  have registered := sound.stable.registered
  cases stepped next with
  | syscall _ _ user _ =>
      have exit := exit_outcome sound.stable user
      rw [registered.pid q member] at inQueue
      obtain ⟨_, sending, _⟩ := delivers.queued _ registered.current q inQueue
      have other : q ≠ k.current :=
        fun same => not_sending_of_running sound.running (same ▸ sending)
      have chosen : q ≠ (exitCurrent k).1.current := by
        intro same
        have ready := exit.next_ready
        rw [← same, sending] at ready
        cases ready
      have woken : (exitCurrent k).1.table q = wake (asU32 (-1)) (k.table q) := by
        rw [exit.table q member other, if_neg chosen, survivor, if_pos ⟨inQueue, sending⟩]
      change q ∈ (exitCurrent k).1.processes ∧ ((exitCurrent k).1.table q).state = .ready ∧
        ((exitCurrent k).1.table q).frameEax = asU32 (-1)
      rw [exit.processes, woken]
      refine ⟨registered.nodup.mem_erase_iff.mpr ⟨other, member⟩, rfl, ?_⟩
      exact if_pos (saved q member (Or.inl sending))

theorem serving_orderly : ∀ k, ∀ action ∈ serving, Orderly k action := by
  intro k action member
  rcases mem_serving member with rfl | rfl | rfl <;> exact ⟨trivial, trivial⟩

theorem serving_replies_result :
    (path step twoPrograms serving).map
        (fun k => ((k.current, (k.table 1).pid), (reply k 2 4096 0 0).2, owed 1 k.log)) =
      some ((1, 1), 0, [2]) := by
  decide +kernel

/-- Process 2 queues a message at process 1, and process 3 runs. -/
def bystanderRuns : List Action :=
  List.replicate 20 timerTick ++ [.syscall kernelVbase (.send 1 4096 0 0 true)]

def threePrograms : KernelState :=
  boot 0 (fun _ _ => 0) [anyProgram, anyProgram, anyProgram]

theorem bystander_replies_result :
    (path step threePrograms bystanderRuns).map
        (fun k => ((k.current, (k.table 1).sendQueue, currentSend 2 k.log),
          (reply k 2 4096 0 0).2, ((reply k 2 4096 0 0).1.table 2).state)) =
      some ((3, [2], some (1, .queued)), 0, .ready) := by
  decide +kernel

def ones : Message := fun _ => 1

/-- The program with PID 0 runs; its parent and the kernel task are ready. -/
structure ChildFirst (child : Nat) (k : KernelState) : Prop where
  processes : k.processes = [0, 1, child]
  later : 1 < child
  current : k.current = child
  kernelPid : (k.table 0).pid = 0
  parentPid : (k.table 1).pid = 1
  childPid : (k.table child).pid = 0
  kernelState : (k.table 0).state = .ready
  parentState : (k.table 1).state = .ready
  childState : (k.table child).state = .running
  kernelMsg : (k.table 0).msg = fun _ => 0
  sendQueue : (k.table 1).sendQueue = []
  notifyQueue : (k.table 1).notifyQueue = []
  timeSlice : k.timeSlice = 10
  forwardPid : k.forwardPid = fun _ => 0
  log : k.log = []

theorem child_gets_slice {child : Nat} (family : Family 0 child k) :
    ∃ k', Run step noReply k k' ∧ ChildFirst child k' := by
  have later := family.later
  have zero : (0 : Nat) ≠ child := by omega
  have one : (1 : Nat) ≠ child := by omega
  obtain ⟨ticks, run⟩ := run_slice ⟨by simp [family.processes], family.timeSlice,
    family.forwardPid⟩ family.tickCount
  refine ⟨_, run, ?_⟩
  have found : findNextReady (k.modify k.current demote) k.current = child := by
    rw [findNextReady, KernelState.processes_modify, family.processes, family.current,
      candidates_of_parent]
    simp [Ne.symm one, family.childState]
  obtain ⟨cr3, same⟩ := switch_to_eq ((ticked k 0 ticks).modify k.current demote) child
    k.current kernelVbase
  rw [sliceEnd, found, same]
  constructor <;>
    simp [switched, setRunning, demote, ticked, zero, one, Ne.symm one, family.processes,
      family.current, family.later, family.kernelPid, family.parentPid, family.childPid,
      family.kernelState, family.parentState, family.kernelMsg, family.sendQueue,
      family.notifyQueue, family.timeSlice, family.forwardPid, family.log]

/-- The kernel task runs, and the program with PID 0 waits in its parent's send queue. -/
structure ChildQueued (child : Nat) (k : KernelState) : Prop where
  processes : k.processes = [0, 1, child]
  later : 1 < child
  current : k.current = 0
  kernelPid : (k.table 0).pid = 0
  parentPid : (k.table 1).pid = 1
  kernelState : (k.table 0).state = .running
  parentState : (k.table 1).state = .ready
  kernelMsg : (k.table 0).msg = fun _ => 0
  sendQueue : (k.table 1).sendQueue = [0]
  notifyQueue : (k.table 1).notifyQueue = []
  tickCount : k.tickCount = 0
  timeSlice : k.timeSlice = 10
  forwardPid : k.forwardPid = fun _ => 0
  log : k.log = [.sent 0 1 ones]

def fillMemory : Action := .user fun _ => 1

def sendToParent : Action := .syscall kernelVbase (.send 1 4096 0 0 true)

theorem child_sends {child : Nat} (first : ChildFirst child k) :
    ∃ k', Run step noReply k k' ∧ ChildQueued child k' := by
  have later := first.later
  have zero : (0 : Nat) ≠ child := by omega
  have one : (1 : Nat) ≠ child := by omega
  have user : k.current ≠ kernelTask := by
    rw [first.current]
    exact Ne.symm zero
  have filled : step k fillMemory = some (runUser k fun _ => 1) := if_pos user
  have found : get (runUser k fun _ => 1) 1 = some 1 := by
    unfold ProcessManager.get
    simp [runUser, first.processes, first.kernelPid, first.parentPid, first.parentState]
  have words : readMessage (runUser k fun _ => 1) 4096 = ones := by
    funext i
    simp [readMessage, readBytes, runUser, ones]
  have sent : send (runUser k fun _ => 1) 1 4096 0 0 true =
      (((((runUser k fun _ => 1).modify child (outgoing ones 4096 0 0)).modify 1
        (appendSender 0)).record (.sent 0 1 ones)).modify child (block .sendBlocked), 0) := by
    have current : (runUser k fun _ => 1).current = child := first.current
    have target : ((runUser k fun _ => 1).modify child (outgoing ones 4096 0 0)).table 1 =
        k.table 1 := KernelState.table_modify_of_ne _ _ _ _ one
    have pid : ((runUser k fun _ => 1).table child).pid = 0 := first.childPid
    unfold send
    rw [found, current]
    simp only [if_neg one, words, pid, target, first.parentState, sendQueuePush, if_pos,
      KernelState.table_modify_self, reduceCtorEq, if_false]
    rw [← target, KernelState.modify_const, target,
      show (appendSender 0 (k.table 1)).pid = 1 from first.parentPid]
  have moved : findNextReady (send (runUser k fun _ => 1) 1 4096 0 0 true).1
      (send (runUser k fun _ => 1) 1 4096 0 0 true).1.current = 0 := by
    rw [sent, findNextReady]
    simp [KernelState.record, runUser, first.processes, first.current,
      candidates_of_child later, zero, first.kernelState]
  obtain ⟨cr3, same⟩ := reschedule_to (k := (send (runUser k fun _ => 1) 1 4096 0 0 true).1)
    (by rw [sent]; simp [KernelState.record, runUser, first.processes]) moved kernelVbase
  have blocked : step (runUser k fun _ => 1) sendToParent =
      some (reschedule (send (runUser k fun _ => 1) 1 4096 0 0 true).1 kernelVbase).1 := by
    rw [sendToParent, step, if_pos ⟨user, Nat.le_refl _⟩, handleSyscall]
    simp only [blockOrReturn, sent, if_pos]
  refine ⟨_, .step (.step .start (show noReply k fillMemory from trivial) filled)
    (show noReply _ sendToParent from trivial) blocked, ?_⟩
  rw [same, sent]
  constructor <;>
    simp [switched, setRunning, KernelState.record, runUser, zero, one, appendSender,
      first.processes, first.current, first.later, first.kernelPid, first.parentPid,
      first.parentState, first.kernelMsg, first.sendQueue, first.notifyQueue,
      first.timeSlice, first.forwardPid, first.log]

/-- The parent has the CPU again, with the PID 0 in its send queue. -/
structure ParentServes (k : KernelState) : Prop where
  current : k.current = 1
  found : get k 0 = some 0
  parentPid : (k.table 1).pid = 1
  kernelMsg : (k.table 0).msg = fun _ => 0
  sendQueue : (k.table 1).sendQueue = [0]
  notifyQueue : (k.table 1).notifyQueue = []
  several : 1 < k.processes.length
  forwardPid : k.forwardPid = fun _ => 0
  log : k.log = [.sent 0 1 ones]

theorem parent_resumes {child : Nat} (queued : ChildQueued child k) :
    ∃ k', Run step noReply k k' ∧ ParentServes k' := by
  have later := queued.later
  obtain ⟨ticks, run⟩ := run_slice ⟨by simp [queued.processes], queued.timeSlice,
    queued.forwardPid⟩ queued.tickCount
  refine ⟨_, run, ?_⟩
  have found : findNextReady (k.modify k.current demote) k.current = 1 := by
    rw [findNextReady, KernelState.processes_modify, queued.processes, queued.current]
    simp [candidates, queued.parentState]
  obtain ⟨cr3, same⟩ := switch_to_eq ((ticked k 0 ticks).modify k.current demote) 1
    k.current kernelVbase
  rw [sliceEnd, found, same]
  constructor <;>
    simp [ProcessManager.get, switched, setRunning, demote, ticked, queued.processes,
      queued.current, queued.kernelPid, queued.parentPid, queued.kernelState,
      queued.kernelMsg, queued.sendQueue, queued.notifyQueue, queued.forwardPid, queued.log]

/-- Looking up the sender's PID finds the kernel task, and its empty message is received. -/
theorem parent_receives (serves : ParentServes k) :
    ∃ k', step k (.syscall kernelVbase (.receive 4096 0 0)) = some k' ∧
      k'.log = [.received 1 0 fun _ => 0, .sent 0 1 ones] := by
  have user : k.current ≠ kernelTask := by
    rw [serves.current]
    decide
  have quiet : deliverPending (k.modify 1 (receiveBuffer 0 0)) 1 4096 =
      (k.modify 1 (receiveBuffer 0 0), false) := by
    have none : (List.range irqLines).find? (pendingFor (k.modify 1 (receiveBuffer 0 0)) 1) =
        none := by
      rw [List.find?_eq_none]
      intro irq _
      simp [pendingFor, serves.forwardPid]
    rw [deliverPending, none]
  have found : get ((k.modify 1 (receiveBuffer 0 0)).modify 1 fun _ =>
      dropSender (receiveBuffer 0 0 (k.table 1))) 0 = some 0 := by
    rw [← serves.found]
    unfold ProcessManager.get
    congr 1
    funext r
    by_cases same : r = 1
    · subst same
      simp [dropSender, receiveBuffer]
    · simp [same]
  have received : (receive k 4096 0 0).2 = 0 ∧
      (receive k 4096 0 0).1.log = [.received 1 0 fun _ => 0, .sent 0 1 ones] := by
    have pid : ((k.modify 1 (receiveBuffer 0 0)).table 1).pid = 1 := by
      rw [KernelState.table_modify_self]
      exact serves.parentPid
    have popped : notifyPop ((k.modify 1 (receiveBuffer 0 0)).table 1) = none := by
      simp [notifyPop, receiveBuffer, serves.notifyQueue]
    have queued : ((k.modify 1 (receiveBuffer 0 0)).table 1).sendQueue = [0] := by
      simp [receiveBuffer, serves.sendQueue]
    unfold receive
    rw [serves.current]
    dsimp only
    rw [pid, quiet]
    dsimp only
    rw [popped]
    dsimp only
    rw [queued]
    unfold receiveQueued
    simp only [KernelState.current_modify, serves.current, KernelState.table_modify_self,
      sendQueuePop]
    rw [show (receiveBuffer 0 0 (k.table 1)).sendQueue.headD 0 = 0 by
      simp [receiveBuffer, serves.sendQueue], found]
    simp [KernelState.record, writeMessage, asI32, bothBuffers, serves.kernelMsg, serves.log,
      serves.parentPid, dropSender, receiveBuffer]
  refine ⟨_, if_pos ⟨user, Nat.le_refl _⟩, ?_⟩
  have answered : handleSyscall k kernelVbase (.receive 4096 0 0) =
      reschedule (receive k 4096 0 0).1 kernelVbase := by
    simp only [handleSyscall, received.1, blockOrReturn]
    rfl
  rw [answered, ← received.2]
  unfold reschedule
  split
  · rfl
  · exact (switch_to_fields _ _ _).2.2.2.2.2.2

end CassiOS.Kernel.MessageOrder
