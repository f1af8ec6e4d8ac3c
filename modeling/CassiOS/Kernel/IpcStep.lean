import CassiOS.Kernel.ProcessStates
import CassiOS.Kernel.History

/-!
# What a step does to queues and messages

Every step is one of a few changes to the queues, the log and the set of processes whose
send is pending; scheduling, interrupts and results of calls change none of these.
-/

namespace CassiOS.Kernel.IpcStep

open CassiOS.Support.Words
open CassiOS.Kernel.State
open CassiOS.Kernel.ProcessManager
open CassiOS.Kernel.Scheduler
open CassiOS.Kernel.Irq
open CassiOS.Kernel.Syscall
open CassiOS.Kernel.System
open CassiOS.Kernel.ProcessTable
open CassiOS.Kernel.Invariant
open CassiOS.Kernel.Outcomes
open CassiOS.Kernel.Exit
open CassiOS.Kernel.ProcessStates

set_option autoImplicit false

/-- `k'` differs from `k` only in what the message protocol does not depend on. -/
structure SameQueues (k k' : KernelState) : Prop where
  processes : k'.processes = k.processes
  nextRef : k'.nextRef = k.nextRef
  log : k'.log = k.log
  sendQueue : ∀ r, (k'.table r).sendQueue = (k.table r).sendQueue
  notifyQueue : ∀ r, (k'.table r).notifyQueue = (k.table r).notifyQueue
  sending : ∀ r, (k'.table r).state = .sendBlocked ↔ (k.table r).state = .sendBlocked
  msg : ∀ r, (k.table r).state = .sendBlocked → (k'.table r).msg = (k.table r).msg

namespace SameQueues

variable {k k' k'' : KernelState}

theorem refl (k : KernelState) : SameQueues k k :=
  ⟨rfl, rfl, rfl, fun _ => rfl, fun _ => rfl, fun _ => Iff.rfl, fun _ _ => rfl⟩

theorem trans (first : SameQueues k k') (second : SameQueues k' k'') : SameQueues k k'' where
  processes := second.processes.trans first.processes
  nextRef := second.nextRef.trans first.nextRef
  log := second.log.trans first.log
  sendQueue := fun r => (second.sendQueue r).trans (first.sendQueue r)
  notifyQueue := fun r => (second.notifyQueue r).trans (first.notifyQueue r)
  sending := fun r => (second.sending r).trans (first.sending r)
  msg := fun r sending =>
    (second.msg r ((first.sending r).mpr sending)).trans (first.msg r sending)

/-- Only fields other than the table, the list and the log differ. -/
theorem of_table (table : k'.table = k.table) (processes : k'.processes = k.processes)
    (nextRef : k'.nextRef = k.nextRef) (log : k'.log = k.log) : SameQueues k k' :=
  ⟨processes, nextRef, log, fun r => by rw [table], fun r => by rw [table],
    fun r => by rw [table], fun r _ => by rw [table]⟩

theorem modify {r : Ref} {f : Process → Process}
    (sendQueue : (f (k.table r)).sendQueue = (k.table r).sendQueue)
    (notifyQueue : (f (k.table r)).notifyQueue = (k.table r).notifyQueue)
    (sending : (f (k.table r)).state = .sendBlocked ↔ (k.table r).state = .sendBlocked)
    (msg : (k.table r).state = .sendBlocked → (f (k.table r)).msg = (k.table r).msg) :
    SameQueues k (k.modify r f) := by
  refine ⟨rfl, rfl, rfl, fun q => ?_, fun q => ?_, fun q => ?_, fun q => ?_⟩
  · exact k.modify_keeps r q f Process.sendQueue sendQueue
  · exact k.modify_keeps r q f Process.notifyQueue notifyQueue
  · by_cases same : q = r
    · subst same
      rw [k.table_modify_self]
      exact sending
    · rw [k.table_modify_of_ne _ _ _ same]
  · by_cases same : q = r
    · subst same
      rw [k.table_modify_self]
      exact msg
    · intro _
      rw [k.table_modify_of_ne _ _ _ same]

theorem with_memory (memory : Nat → Nat → UInt8) : SameQueues k (withMemory k memory) :=
  of_table rfl rfl rfl rfl

theorem record (same : SameQueues k k') (event : Event) :
    SameQueues (k.record event) (k'.record event) :=
  ⟨same.processes, same.nextRef, by rw [KernelState.record, KernelState.record, same.log],
    same.sendQueue, same.notifyQueue, same.sending, same.msg⟩

theorem modify_both (same : SameQueues k k') {r : Ref} {f : Process → Process}
    (sendQueue : ∀ p q : Process, p.sendQueue = q.sendQueue →
      (f p).sendQueue = (f q).sendQueue)
    (notifyQueue : ∀ p q : Process, p.notifyQueue = q.notifyQueue →
      (f p).notifyQueue = (f q).notifyQueue)
    (state : ∀ p, (f p).state = p.state) (msg : ∀ p, (f p).msg = p.msg) :
    SameQueues (k.modify r f) (k'.modify r f) := by
  refine ⟨same.processes, same.nextRef, same.log, fun q => ?_, fun q => ?_, fun q => ?_,
    fun q => ?_⟩ <;>
    by_cases here : q = r
  · subst here
    simpa using sendQueue _ _ (same.sendQueue q)
  · simpa [here] using same.sendQueue q
  · subst here
    simpa using notifyQueue _ _ (same.notifyQueue q)
  · simpa [here] using same.notifyQueue q
  · subst here
    simpa [state] using same.sending q
  · simpa [here] using same.sending q
  · subst here
    simpa [state, msg] using same.msg q
  · simpa [here] using same.msg q

end SameQueues

section Frames

variable {k : KernelState}

theorem same_return_value (k : KernelState) (eax : Nat) : SameQueues k (returnValue k eax) :=
  SameQueues.modify rfl rfl Iff.rfl fun _ => rfl

theorem same_switch_to {next : Ref} (ready : (k.table next).state = .ready) (esp : Nat) :
    SameQueues k (switchTo k next k.current esp).1 := by
  obtain ⟨cr3, shape⟩ := switch_to_eq k next k.current esp
  rw [shape]
  refine ⟨rfl, rfl, rfl, fun r => ?_, fun r => ?_, fun r => ?_, fun r sending => ?_⟩ <;>
    dsimp only [switched]
  · split <;> split <;> rfl
  · split <;> split <;> rfl
  · by_cases chosen : r = next
    · rw [if_pos chosen, chosen, ready]
      split <;> simp [setRunning]
    · rw [if_neg chosen]
      split <;> rfl
  · split <;> split <;> rfl

theorem same_reschedule (stable : Stable k) (user : k.current ≠ kernelTask) (esp : Nat) :
    SameQueues k (reschedule k esp).1 := by
  rw [reschedule_eq stable.registered user]
  have reset : SameQueues k { k with tickCount := 0 } := .of_table rfl rfl rfl rfl
  exact reset.trans
    (same_switch_to (k := { k with tickCount := 0 }) (stable.finds_ready user).2.2 esp)

theorem same_block_or_return {answer : KernelState × Int} (handled : Handled k answer)
    (user : k.current ≠ kernelTask) (esp : Nat) :
    SameQueues answer.1 (blockOrReturn answer.1 esp answer.2).1 := by
  unfold blockOrReturn
  by_cases zero : answer.2 = 0
  · rw [if_pos zero]
    exact same_reschedule handled.stable (handled.current ▸ user) esp
  · rw [if_neg zero]
    exact same_return_value _ _

theorem same_schedule (sound : Sound k) (esp : Nat) :
    SameQueues k (schedule k esp).1 := by
  rcases schedule_cases k esp with ⟨tickCount, same⟩ | switched
  · rw [same]
    exact SameQueues.of_table rfl rfl rfl rfl
  · rw [switched]
    have demoted : SameQueues k (k.modify k.current demote) := by
      refine SameQueues.modify ?_ ?_ ?_ fun _ => ?_
      · unfold demote
        split <;> rfl
      · unfold demote
        split <;> rfl
      · simp [demote, sound.running]
      · unfold demote
        split <;> rfl
    have reset : SameQueues (k.modify k.current demote)
        { k.modify k.current demote with tickCount := 0 } := .of_table rfl rfl rfl rfl
    refine (demoted.trans reset).trans ?_
    exact same_switch_to (k := { k.modify k.current demote with tickCount := 0 })
      sound.slice_target.2 esp

theorem same_run_handler (sound : Sound k) (irq esp : Nat) :
    SameQueues k (runHandler k irq esp).1 := by
  unfold runHandler
  by_cases timer : irq = 0
  · rw [if_pos timer]
    have ticked : SameQueues k { k with ticks := u32 (k.ticks + 1) } :=
      .of_table rfl rfl rfl rfl
    refine ticked.trans ?_
    exact same_schedule (sound.with_ticks (u32 (k.ticks + 1))) esp
  · rw [if_neg timer]
    exact .refl k

theorem same_forward {irq : Nat} {k' : KernelState} (outcome : ForwardOutcome k irq k') :
    SameQueues k k' := by
  cases outcome with
  | ignored => exact .refl k
  | delivered memory live waiting =>
      exact (SameQueues.modify rfl rfl (by simp [setResult, waiting]) fun _ => rfl).trans
        (.with_memory memory)
  | pending line live busy => exact .of_table rfl rfl rfl rfl

end Frames

/-- The changes a step makes to queues and messages, up to `SameQueues`. -/
inductive IpcChange (k : KernelState) : Action → KernelState → Prop
  | none (action : Action) (notExit : ∀ esp, action ≠ .syscall esp .exit) :
      IpcChange k action k
  | sentDirect (esp : Nat) {targetPid : Nat} (msg dataPtr dataLen : Nat) (node : Bool)
      (memory : Nat → Nat → UInt8) (live : targetPid ∈ k.processes)
      (other : targetPid ≠ k.current) (waiting : (k.table targetPid).state = .receiveBlocked) :
      IpcChange k (.syscall esp (.send targetPid msg dataPtr dataLen node))
        (sentDirect k targetPid (readMessage k msg) msg dataPtr dataLen memory)
  | sentQueued (esp : Nat) {targetPid : Nat} (msg dataPtr dataLen : Nat) (node : Bool)
      (live : targetPid ∈ k.processes) (other : targetPid ≠ k.current)
      (busy : (k.table targetPid).state ≠ .receiveBlocked) :
      IpcChange k (.syscall esp (.send targetPid msg dataPtr dataLen node))
        (sentQueued k targetPid (readMessage k msg) msg dataPtr dataLen)
  | heard (esp msg dataPtr dataCapacity : Nat) {node : NotifyNode} {rest : List NotifyNode}
      (head : (k.table k.current).notifyQueue = node :: rest) :
      IpcChange k (.syscall esp (.receive msg dataPtr dataCapacity))
        ((k.modify k.current dropNotify).record (.heard k.current node.senderPid node.msg))
  | senderGone (esp msg dataPtr dataCapacity : Nat) {senderPid : Nat} {rest : List Nat}
      (head : (k.table k.current).sendQueue = senderPid :: rest)
      (noNotification : (k.table k.current).notifyQueue = [])
      (gone : senderPid ∉ k.processes) :
      IpcChange k (.syscall esp (.receive msg dataPtr dataCapacity))
        (k.modify k.current dropSender)
  | received (esp msg dataPtr dataCapacity : Nat) {senderPid : Nat} {rest : List Nat}
      (head : (k.table k.current).sendQueue = senderPid :: rest)
      (noNotification : (k.table k.current).notifyQueue = [])
      (live : senderPid ∈ k.processes) :
      IpcChange k (.syscall esp (.receive msg dataPtr dataCapacity))
        ((k.modify k.current dropSender).record
          (.received k.current senderPid (k.table senderPid).msg))
  | answered (esp : Nat) {targetPid : Nat} (msg dataPtr dataLen : Nat)
      (live : targetPid ∈ k.processes) (sending : (k.table targetPid).state = .sendBlocked) :
      IpcChange k (.syscall esp (.reply targetPid msg dataPtr dataLen))
        ((k.modify targetPid (setResult 0)).record (.replied k.current targetPid))
  | notifiedDirect (esp : Nat) {targetPid : Nat} (msg dataPtr dataLen : Nat)
      (node data : Bool) (live : targetPid ∈ k.processes) (other : targetPid ≠ k.current)
      (waiting : (k.table targetPid).state = .receiveBlocked) :
      IpcChange k (.syscall esp (.notify targetPid msg dataPtr dataLen node data))
        ((k.record (.notified k.current targetPid (readMessage k msg))).record
          (.heard targetPid k.current (readMessage k msg)))
  | notifiedQueued (esp : Nat) {targetPid : Nat} (msg dataPtr dataLen : Nat)
      (node data : Bool) {pushed : NotifyNode} (live : targetPid ∈ k.processes)
      (other : targetPid ≠ k.current)
      (busy : (k.table targetPid).state ≠ .receiveBlocked)
      (sender : pushed.senderPid = k.current) :
      IpcChange k (.syscall esp (.notify targetPid msg dataPtr dataLen node data))
        (notifiedQueued k targetPid pushed)
  | started (esp elfPtr elfSize : Nat) {loading : Loading} {proc : Process}
      (starts : Starts elfPtr elfSize loading) (new : IsNew k proc) :
      IpcChange k (.syscall esp (.exec elfPtr elfSize loading)) (started k proc)
  | exited (esp : Nat) {k' : KernelState} (exit : ExitOutcome k k') :
      IpcChange k (.syscall esp .exit) k'

section Records

variable {k : KernelState} (target : Ref) (words : Message) (msg dataPtr dataLen : Nat)
  (memory : Nat → Nat → UInt8) (r : Ref)

theorem sent_direct_queues :
    ((sentDirect k target words msg dataPtr dataLen memory).table r).sendQueue =
        (k.table r).sendQueue ∧
      ((sentDirect k target words msg dataPtr dataLen memory).table r).notifyQueue =
        (k.table r).notifyQueue := by
  constructor
  · rw [sentDirect, KernelState.modify_keeps _ _ _ _ Process.sendQueue rfl]
    change (((k.modify k.current _).modify target _).table r).sendQueue = _
    rw [KernelState.modify_keeps _ _ _ _ Process.sendQueue rfl,
      KernelState.modify_keeps _ _ _ _ Process.sendQueue rfl]
  · rw [sentDirect, KernelState.modify_keeps _ _ _ _ Process.notifyQueue rfl]
    change (((k.modify k.current _).modify target _).table r).notifyQueue = _
    rw [KernelState.modify_keeps _ _ _ _ Process.notifyQueue rfl,
      KernelState.modify_keeps _ _ _ _ Process.notifyQueue rfl]

theorem sent_direct_other {r : Ref} (caller : r ≠ k.current) :
    ((sentDirect k target words msg dataPtr dataLen memory).table r).msg = (k.table r).msg ∧
      (r ≠ target → ((sentDirect k target words msg dataPtr dataLen memory).table r).state =
        (k.table r).state) := by
  by_cases reached : r = target
  · subst reached
    simp [sentDirect, KernelState.record, withMemory, caller, setResult]
  · simp [sentDirect, KernelState.record, withMemory, caller, reached]

theorem sent_queued_queues (other : target ≠ k.current) :
    ((sentQueued k target words msg dataPtr dataLen).table r).sendQueue =
        (if r = target then (k.table r).sendQueue ++ [k.current] else (k.table r).sendQueue) ∧
      ((sentQueued k target words msg dataPtr dataLen).table r).notifyQueue =
        (k.table r).notifyQueue := by
  by_cases reached : r = target
  · subst reached
    simp [sentQueued, KernelState.record, other, appendSender]
  · by_cases caller : r = k.current
    · subst caller
      simp [sentQueued, KernelState.record, reached, block, outgoing]
    · simp [sentQueued, KernelState.record, caller, reached]

theorem sent_queued_other {r : Ref} (caller : r ≠ k.current) :
    ((sentQueued k target words msg dataPtr dataLen).table r).msg = (k.table r).msg ∧
      ((sentQueued k target words msg dataPtr dataLen).table r).state = (k.table r).state := by
  by_cases reached : r = target
  · subst reached
    simp [sentQueued, KernelState.record, caller, appendSender]
  · simp [sentQueued, KernelState.record, caller, reached]

end Records

section Steps

variable {k : KernelState}

theorem same_receive_buffer (sound : Sound k) (dataPtr dataCapacity : Nat) :
    SameQueues k (k.modify k.current (receiveBuffer dataPtr dataCapacity)) :=
  SameQueues.modify rfl rfl Iff.rfl fun sending =>
    absurd (sound.running.symm.trans sending) (by decide)

theorem ipc_receive (sound : Sound k) (esp : Nat) {msg dataPtr dataCapacity : Nat}
    {answer : KernelState × Int} (outcome : ReceiveOutcome k msg dataPtr dataCapacity answer) :
    ∃ k₁, IpcChange k (.syscall esp (.receive msg dataPtr dataCapacity)) k₁ ∧
      SameQueues k₁ answer.1 := by
  have first := same_receive_buffer sound dataPtr dataCapacity
  have running := sound.running
  cases outcome with
  | interrupt irq memory line owner pending =>
      exact ⟨k, .none _ nofun, first.trans (.of_table rfl rfl rfl rfl)⟩
  | notification node rest memory none head =>
      refine ⟨_, .heard esp msg dataPtr dataCapacity head, ?_⟩
      refine (first.modify_both (f := dropNotify) ?_ ?_ (fun _ => rfl) fun _ => rfl).trans
        (.with_memory memory) |>.record _
      · intro p q same
        exact same
      · intro p q same
        exact congrArg List.tail same
  | senderGone senderPid rest head noNotification gone =>
      refine ⟨_, .senderGone esp msg dataPtr dataCapacity head noNotification gone, ?_⟩
      refine first.modify_both (f := dropSender) ?_ ?_ (fun _ => rfl) fun _ => rfl
      · intro p q same
        exact congrArg List.tail same
      · intro p q same
        exact same
  | sender senderPid rest memory head noNotification live =>
      refine ⟨_, .received esp msg dataPtr dataCapacity head noNotification live, ?_⟩
      refine (first.modify_both (f := dropSender) ?_ ?_ (fun _ => rfl) fun _ => rfl).trans
        (.with_memory memory) |>.record _
      · intro p q same
        exact congrArg List.tail same
      · intro p q same
        exact same
  | waits none noNotification noSender =>
      refine ⟨k, .none _ nofun, first.trans (.modify rfl rfl ?_ fun _ => rfl)⟩
      simp [waitForMessage, receiveBuffer, running]

theorem ipc_step (sound : Sound k) {action : Action} {k' : KernelState}
    (next : step k action = some k') :
    ∃ k₁, IpcChange k action k₁ ∧ SameQueues k₁ k' := by
  have registered := sound.stable.registered
  have running := sound.running
  cases stepped next with
  | user bytes _ =>
      exact ⟨k, .none _ (by simp), .of_table rfl rfl rfl rfl⟩
  | irq number esp _ =>
      have handled := sound_run_handler sound (lineOf number) esp
      exact ⟨k, .none _ (by simp), (same_run_handler sound (lineOf number) esp).trans
        (same_forward (forward_outcome handled.stable.registered (lineOf number)))⟩
  | syscall esp call user _ =>
      cases call with
      | send targetPid msg dataPtr dataLen node =>
          have outcome := send_outcome registered targetPid msg dataPtr dataLen node
          have after := same_block_or_return (handled_send sound user outcome) user esp
          change ∃ k₁, _ ∧ SameQueues k₁ (blockOrReturn
            (send k targetPid msg dataPtr dataLen node).1 esp
            (send k targetPid msg dataPtr dataLen node).2).1
          generalize send k targetPid msg dataPtr dataLen node = answer at outcome after
          cases outcome with
          | refused => exact ⟨k, .none _ (by simp), after⟩
          | direct memory live other waiting =>
              exact ⟨_, .sentDirect esp msg dataPtr dataLen node memory live other waiting,
                after⟩
          | queueFull =>
              refine ⟨k, .none _ (by simp), .trans (.modify rfl rfl Iff.rfl ?_) after⟩
              intro sending
              rw [running] at sending
              cases sending
          | queued live other busy =>
              exact ⟨_, .sentQueued esp msg dataPtr dataLen node live other busy, after⟩
      | receive msg dataPtr dataCapacity =>
          have outcome := receive_outcome registered msg dataPtr dataCapacity
          obtain ⟨k₁, change, same⟩ := ipc_receive sound esp outcome
          refine ⟨k₁, change, same.trans ?_⟩
          unfold handleSyscall
          dsimp only
          by_cases delivered : (receive k msg dataPtr dataCapacity).2 = -2 ∨
              (receive k msg dataPtr dataCapacity).2 = -3
          · rw [if_pos delivered]
            exact same_return_value _ _
          · rw [if_neg delivered]
            exact same_block_or_return (handled_receive sound user outcome) user esp
      | reply targetPid msg dataPtr dataLen =>
          have outcome := reply_outcome registered targetPid msg dataPtr dataLen
          change ∃ k₁, _ ∧ SameQueues k₁ (returnValue
            (reply k targetPid msg dataPtr dataLen).1 _)
          generalize reply k targetPid msg dataPtr dataLen = answer at outcome
          cases outcome with
          | refused _ => exact ⟨k, .none _ (by simp), same_return_value _ _⟩
          | answered memory live waiting =>
              exact ⟨_, .answered esp msg dataPtr dataLen live waiting,
                (SameQueues.with_memory memory).record _ |>.trans (same_return_value _ _)⟩
      | notify targetPid msg dataPtr dataLen node data =>
          have outcome := notify_outcome registered targetPid msg dataPtr dataLen node data
          change ∃ k₁, _ ∧ SameQueues k₁ (returnValue
            (notify k targetPid msg dataPtr dataLen node data).1 _)
          generalize notify k targetPid msg dataPtr dataLen node data = answer at outcome
          cases outcome with
          | refused => exact ⟨k, .none _ (by simp), same_return_value _ _⟩
          | direct memory live other waiting =>
              refine ⟨_, .notifiedDirect esp msg dataPtr dataLen node data live other waiting,
                .trans (.record (.record (.trans (.modify rfl rfl ?_ fun _ => rfl)
                  (.with_memory memory)) _) _) (same_return_value _ _)⟩
              simp [setResult, waiting]
          | queued pushed live other busy sender words =>
              exact ⟨_, .notifiedQueued esp msg dataPtr dataLen node data live other busy
                sender, same_return_value _ _⟩
      | irqRegister irq =>
          have registered : SameQueues k
              (registerForward k (irq % 256) (k.table k.current).pid).1 := by
            unfold registerForward
            split
            · exact .refl k
            · exact .of_table rfl rfl rfl rfl
          exact ⟨k, .none _ (by simp), registered.trans (same_return_value _ _)⟩
      | exec elfPtr elfSize loading =>
          have outcome := exec_outcome k elfPtr elfSize loading
          change ∃ k₁, _ ∧ SameQueues k₁ (returnValue (exec k elfPtr elfSize loading).1 _)
          generalize exec k elfPtr elfSize loading = answer at outcome
          cases outcome with
          | failed _ => exact ⟨k, .none _ (by simp), same_return_value _ _⟩
          | child proc starts new =>
              exact ⟨_, .started esp elfPtr elfSize starts new, same_return_value _ _⟩
      | waitpid pid =>
          have outcome := waitpid_outcome registered pid
          have after := same_block_or_return (handled_waitpid sound user outcome) user esp
          change ∃ k₁, _ ∧ SameQueues k₁ (blockOrReturn (waitpid k pid).1 esp
            (waitpid k pid).2).1
          generalize waitpid k pid = answer at outcome after
          cases outcome with
          | refused => exact ⟨k, .none _ (by simp), after⟩
          | waits live other =>
              refine ⟨k, .none _ (by simp), .trans (.modify rfl rfl ?_ fun _ => rfl) after⟩
              simp [waitFor, running]
      | exit => exact ⟨_, .exited esp (exit_outcome sound.stable user), .refl _⟩

end Steps

end CassiOS.Kernel.IpcStep
