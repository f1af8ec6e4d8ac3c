import CassiOS.Kernel.SavedFrames

/-!
# Which page directory is loaded

`Active` says that `cr3` is the kernel's page directory or that of a live process, and of
the running one unless the kernel task runs. A switch keeps it; the steps between, calls
and interrupts, do not touch page directories.
-/

namespace CassiOS.Kernel.Directories

open CassiOS.Support.Words
open CassiOS.Kernel.State
open CassiOS.Kernel.ProcessManager
open CassiOS.Kernel.Scheduler
open CassiOS.Kernel.Irq
open CassiOS.Kernel.Syscall
open CassiOS.Kernel.System
open CassiOS.Kernel.ProcessTable
open CassiOS.Kernel.Invariant
open CassiOS.Kernel.Outcomes
open CassiOS.Kernel.Exit
open CassiOS.Kernel.ProcessStates

set_option autoImplicit false

variable {k k' k'' : KernelState} {kernelPd : Nat}

structure Active (kernelPd : Nat) (k : KernelState) : Prop where
  kernel : (k.table kernelTask).pageDirectory = 0
  users : ∀ r ∈ k.processes, r ≠ kernelTask → (k.table r).pageDirectory ≠ 0
  running : k.current ≠ kernelTask → k.cr3 = (k.table k.current).pageDirectory
  live : k.cr3 = kernelPd ∨
    ∃ r ∈ k.processes, r ≠ kernelTask ∧ k.cr3 = (k.table r).pageDirectory

/-- The processes and what belongs to them in memory are the same. -/
structure SameSpaces (k k' : KernelState) : Prop where
  processes : k'.processes = k.processes
  directory : ∀ r, (k'.table r).pageDirectory = (k.table r).pageDirectory
  stack : ∀ r, (k'.table r).kernelEsp = (k.table r).kernelEsp

/-- Nor did a switch happen. -/
structure Unswitched (k k' : KernelState) : Prop extends SameSpaces k k' where
  current : k'.current = k.current
  cr3 : k'.cr3 = k.cr3

theorem SameSpaces.trans (first : SameSpaces k k') (second : SameSpaces k' k'') :
    SameSpaces k k'' where
  processes := second.processes.trans first.processes
  directory r := (second.directory r).trans (first.directory r)
  stack r := (second.stack r).trans (first.stack r)

namespace Unswitched

theorem refl (k : KernelState) : Unswitched k k := ⟨⟨rfl, fun _ => rfl, fun _ => rfl⟩, rfl, rfl⟩

theorem trans (first : Unswitched k k') (second : Unswitched k' k'') : Unswitched k k'' where
  toSameSpaces := first.toSameSpaces.trans second.toSameSpaces
  current := second.current.trans first.current
  cr3 := second.cr3.trans first.cr3

theorem modify (r : Ref) {f : Process → Process}
    (same : ∀ p, (f p).pageDirectory = p.pageDirectory ∧ (f p).kernelEsp = p.kernelEsp) :
    Unswitched k (k.modify r f) where
  processes := rfl
  directory q := k.modify_keeps r q f Process.pageDirectory (same _).1
  stack q := k.modify_keeps r q f Process.kernelEsp (same _).2
  current := rfl
  cr3 := rfl

theorem of_fields (table : k'.table = k.table) (processes : k'.processes = k.processes)
    (current : k'.current = k.current) (cr3 : k'.cr3 = k.cr3) : Unswitched k k' :=
  ⟨⟨processes, fun r => by rw [table], fun r => by rw [table]⟩, current, cr3⟩

theorem with_memory (unswitched : Unswitched k k') (memory : Nat → Nat → UInt8) :
    Unswitched k (withMemory k' memory) := unswitched.trans (of_fields rfl rfl rfl rfl)

theorem record (unswitched : Unswitched k k') (event : Event) :
    Unswitched k (k'.record event) := unswitched.trans (of_fields rfl rfl rfl rfl)

theorem active (unswitched : Unswitched k k') (active : Active kernelPd k) :
    Active kernelPd k' where
  kernel := (unswitched.directory _).trans active.kernel
  users := by
    intro r member
    rw [unswitched.processes] at member
    rw [unswitched.directory]
    exact active.users r member
  running := by
    rw [unswitched.current, unswitched.cr3, unswitched.directory]
    exact active.running
  live := by
    rw [unswitched.cr3, unswitched.processes]
    rcases active.live with kernel | ⟨r, member, user, loaded⟩
    · exact .inl kernel
    · exact .inr ⟨r, member, user, by rw [unswitched.directory]; exact loaded⟩

end Unswitched

section Switching

theorem same_spaces_switch_to (next current : Ref) (esp : Nat) :
    SameSpaces k (switchTo k next current esp).1 := by
  have table := table_switch_to (k := k) next current esp
  refine ⟨(switch_to_fields (k := k) next current esp).1, fun r => ?_, fun r => ?_⟩
  · rw [table, switched]
    split <;> split <;> rfl
  · rw [table, switched]
    split <;> split <;> rfl

theorem cr3_switch_to (next : Ref) (esp : Nat) :
    (switchTo k next k.current esp).1.cr3 =
      if (k.table next).pageDirectory ≠ (k.table k.current).pageDirectory ∧
        (k.table next).pageDirectory ≠ 0 then (k.table next).pageDirectory else k.cr3 := by
  have stored : Unswitched k (k.modify k.current fun p => { p with esp := esp }) :=
    .modify _ fun _ => ⟨rfl, rfl⟩
  have saved : Unswitched k ((k.modify k.current fun p => { p with esp := esp }).modify next
      setRunning) := stored.trans (.modify _ fun _ => ⟨rfl, rfl⟩)
  unfold switchTo
  dsimp only
  rw [saved.directory, saved.directory]
  split
  · rfl
  · rfl

/-- The directory of the process that runs next is loaded, unless it has none. -/
theorem active_switch_to (active : Active kernelPd k) {next : Ref} (member : next ∈ k.processes)
    (esp : Nat) : Active kernelPd (switchTo k next k.current esp).1 := by
  have spaces := same_spaces_switch_to (k := k) next k.current esp
  have cr3 := cr3_switch_to (k := k) next esp
  have current := (switch_to_fields (k := k) next k.current esp).2.1
  -- a user process has a directory, so `cr3` is its own also when nothing is loaded
  have loaded : next ≠ kernelTask →
      (switchTo k next k.current esp).1.cr3 = (k.table next).pageDirectory := by
    intro user
    have own := active.users next member user
    rw [cr3]
    by_cases same : (k.table next).pageDirectory = (k.table k.current).pageDirectory
    · rw [if_neg fun both => both.1 same, same]
      apply active.running
      intro kernel
      rw [kernel, active.kernel] at same
      exact own same
    · rw [if_pos ⟨same, own⟩]
  constructor
  · rw [spaces.directory]
    exact active.kernel
  · intro r inside
    rw [spaces.processes] at inside
    rw [spaces.directory]
    exact active.users r inside
  · rw [current, spaces.directory]
    exact loaded
  · rw [spaces.processes]
    by_cases user : next = kernelTask
    · have spaces' := user ▸ spaces
      rw [cr3, user, if_neg fun both => both.2 active.kernel]
      rcases active.live with kernel | ⟨r, inside, other, same⟩
      · exact .inl kernel
      · exact .inr ⟨r, inside, other, same.trans (spaces'.directory r).symm⟩
    · exact .inr ⟨next, member, user, (loaded user).trans (spaces.directory next).symm⟩

end Switching

section Calls

theorem unswitched_send {targetPid msg dataPtr dataLen : Nat} {answer : KernelState × Int}
    (outcome : SendOutcome k targetPid msg dataPtr dataLen answer) :
    Unswitched k answer.1 := by
  have written : Unswitched k (k.modify k.current
      (outgoing (readMessage k msg) msg dataPtr dataLen)) := .modify _ fun _ => ⟨rfl, rfl⟩
  cases outcome with
  | refused => exact .refl k
  | direct memory live other waiting =>
      have delivered : Unswitched k ((k.modify k.current
          (outgoing (readMessage k msg) msg dataPtr dataLen)).modify targetPid
          (setResult k.current)) := written.trans (.modify _ fun _ => ⟨rfl, rfl⟩)
      exact (((delivered.with_memory memory).record _).record _).trans
        (.modify _ fun _ => ⟨rfl, rfl⟩)
  | queueFull => exact written
  | queued live other busy =>
      have pushed : Unswitched k ((k.modify k.current
          (outgoing (readMessage k msg) msg dataPtr dataLen)).modify targetPid
          (appendSender k.current)) := written.trans (.modify _ fun _ => ⟨rfl, rfl⟩)
      exact (pushed.record _).trans (.modify _ fun _ => ⟨rfl, rfl⟩)

theorem unswitched_receive {msg dataPtr dataCapacity : Nat} {answer : KernelState × Int}
    (outcome : ReceiveOutcome k msg dataPtr dataCapacity answer) : Unswitched k answer.1 := by
  have first : Unswitched k (k.modify k.current (receiveBuffer dataPtr dataCapacity)) :=
    .modify _ fun _ => ⟨rfl, rfl⟩
  cases outcome with
  | interrupt irq memory line owner pending => exact first.trans (.of_fields rfl rfl rfl rfl)
  | notification node rest memory none head =>
      exact (first.trans (.modify _ (f := dropNotify) fun _ => ⟨rfl, rfl⟩)).trans
        (.of_fields rfl rfl rfl rfl)
  | senderGone senderPid rest head noNotification gone =>
      exact first.trans (.modify _ fun _ => ⟨rfl, rfl⟩)
  | sender senderPid rest memory head noNotification live =>
      exact (first.trans (.modify _ (f := dropSender) fun _ => ⟨rfl, rfl⟩)).trans
        (.of_fields rfl rfl rfl rfl)
  | waits none noNotification noSender =>
      exact first.trans (.modify _ fun _ => ⟨rfl, rfl⟩)

theorem unswitched_waitpid {pid : Nat} {answer : KernelState × Int}
    (outcome : WaitOutcome k pid answer) : Unswitched k answer.1 := by
  cases outcome with
  | refused => exact .refl k
  | waits live other => exact .modify _ fun _ => ⟨rfl, rfl⟩

theorem unswitched_reply {targetPid : Nat} {answer : KernelState × Int}
    (outcome : ReplyOutcome k targetPid answer) : Unswitched k answer.1 := by
  cases outcome with
  | refused _ => exact .refl k
  | answered memory live waiting =>
      have woken : Unswitched k (k.modify targetPid (setResult 0)) :=
        .modify _ fun _ => ⟨rfl, rfl⟩
      exact (woken.with_memory memory).record _

theorem unswitched_notify {targetPid msg : Nat} {answer : KernelState × Int}
    (outcome : NotifyOutcome k targetPid msg answer) : Unswitched k answer.1 := by
  cases outcome with
  | refused => exact .refl k
  | direct memory live other waiting =>
      have woken : Unswitched k (k.modify targetPid (setResult 0)) :=
        .modify _ fun _ => ⟨rfl, rfl⟩
      exact ((woken.with_memory memory).record _).record _
  | queued node live other busy sender words =>
      have pushed : Unswitched k (k.modify targetPid (appendNotify node)) :=
        .modify _ fun _ => ⟨rfl, rfl⟩
      exact pushed.record _

theorem unswitched_forward {irq : Nat} (outcome : ForwardOutcome k irq k') :
    Unswitched k k' := by
  cases outcome with
  | ignored => exact .refl k
  | delivered memory live waiting =>
      have woken : Unswitched k (k.modify (k.forwardPid irq) (setResult 0)) :=
        .modify _ fun _ => ⟨rfl, rfl⟩
      exact woken.with_memory memory
  | pending line live busy => exact .of_fields rfl rfl rfl rfl

theorem unswitched_register_forward (irq pid : Nat) :
    Unswitched k (registerForward k irq pid).1 := by
  unfold registerForward
  split
  · exact .refl k
  · exact .of_fields rfl rfl rfl rfl

theorem unswitched_return_value (eax : Nat) : Unswitched k (returnValue k eax) :=
  .modify _ fun _ => ⟨rfl, rfl⟩

end Calls

section Steps

structure Kept (kernelPd : Nat) (k k' : KernelState) : Prop where
  spaces : SameSpaces k k'
  active : Active kernelPd k'

theorem Unswitched.kept (unswitched : Unswitched k k') (active : Active kernelPd k) :
    Kept kernelPd k k' := ⟨unswitched.toSameSpaces, unswitched.active active⟩

theorem kept_block_or_return {answer : KernelState × Int} (handled : Handled k answer)
    (user : k.current ≠ kernelTask) (active : Active kernelPd k)
    (unswitched : Unswitched k answer.1) (esp : Nat) :
    Kept kernelPd k (blockOrReturn answer.1 esp answer.2).1 := by
  unfold blockOrReturn
  by_cases zero : answer.2 = 0
  · have other : answer.1.current ≠ kernelTask := unswitched.current ▸ user
    rw [if_pos zero, reschedule_eq handled.stable.registered other]
    have reset : Unswitched k { answer.1 with tickCount := 0 } :=
      unswitched.trans (.of_fields rfl rfl rfl rfl)
    refine ⟨reset.toSameSpaces.trans (same_spaces_switch_to (k := { answer.1 with tickCount := 0 })
      _ _ esp), ?_⟩
    exact active_switch_to (k := { answer.1 with tickCount := 0 }) (reset.active active)
      (handled.stable.finds_ready other).1 esp
  · rw [if_neg zero]
    exact (unswitched.trans (unswitched_return_value _)).kept active

theorem kept_schedule (sound : Sound k) (active : Active kernelPd k) (esp : Nat) :
    Kept kernelPd k (Scheduler.schedule k esp).1 := by
  rcases schedule_cases k esp with ⟨tickCount, same⟩ | switched
  · rw [same]
    exact Unswitched.kept (.of_fields rfl rfl rfl rfl) active
  · rw [switched]
    have demoted : Unswitched { k with tickCount := 0 }
        (({ k with tickCount := 0 } : KernelState).modify k.current demote) := by
      apply Unswitched.modify
      intro p
      unfold demote
      split <;> exact ⟨rfl, rfl⟩
    have counted : Unswitched k { k with tickCount := 0 } := .of_fields rfl rfl rfl rfl
    have reset := counted.trans demoted
    refine ⟨reset.toSameSpaces.trans (same_spaces_switch_to _ _ esp), ?_⟩
    exact active_switch_to (reset.active active) sound.slice_target.1 esp

theorem kept_run_handler (sound : Sound k) (active : Active kernelPd k) (irq esp : Nat) :
    Kept kernelPd k (runHandler k irq esp).1 := by
  unfold runHandler
  by_cases timer : irq = 0
  · rw [if_pos timer]
    have counted : Unswitched k { k with ticks := u32 (k.ticks + 1) } := .of_fields rfl rfl rfl rfl
    obtain ⟨spaces, kept⟩ := kept_schedule (sound.with_ticks (u32 (k.ticks + 1)))
      (counted.active active) esp
    exact ⟨counted.toSameSpaces.trans spaces, kept⟩
  · rw [if_neg timer]
    exact (Unswitched.refl k).kept active

def Ordinary : Action → Prop
  | .syscall _ (.exec _ _ _) => False
  | .syscall _ .exit => False
  | _ => True

theorem kept_step (sound : Sound k) (active : Active kernelPd k) {action : Action}
    (ordinary : Ordinary action) (next : step k action = some k') : Kept kernelPd k k' := by
  have registered := sound.stable.registered
  cases stepped next with
  | user bytes _ =>
      exact Unswitched.kept (.of_fields rfl rfl rfl rfl) active
  | irq number esp _ =>
      obtain ⟨spaces, kept⟩ := kept_run_handler sound active (lineOf number) esp
      have handled := sound_run_handler sound (lineOf number) esp
      have forwarded := unswitched_forward
        (forward_outcome handled.stable.registered (lineOf number))
      exact ⟨spaces.trans forwarded.toSameSpaces, forwarded.active kept⟩
  | syscall esp call user _ =>
      cases call with
      | send targetPid msg dataPtr dataLen node =>
          have outcome := send_outcome registered targetPid msg dataPtr dataLen node
          exact kept_block_or_return (handled_send sound user outcome) user active
            (unswitched_send outcome) esp
      | receive msg dataPtr dataCapacity =>
          have outcome := receive_outcome registered msg dataPtr dataCapacity
          have handled := handled_receive sound user outcome
          unfold handleSyscall
          dsimp only
          by_cases delivered : (receive k msg dataPtr dataCapacity).2 = -2 ∨
              (receive k msg dataPtr dataCapacity).2 = -3
          · rw [if_pos delivered]
            exact ((unswitched_receive outcome).trans (unswitched_return_value 0)).kept active
          · rw [if_neg delivered]
            exact kept_block_or_return handled user active (unswitched_receive outcome) esp
      | reply targetPid msg dataPtr dataLen =>
          have outcome := reply_outcome registered targetPid msg dataPtr dataLen
          exact ((unswitched_reply outcome).trans (unswitched_return_value _)).kept active
      | notify targetPid msg dataPtr dataLen node data =>
          have outcome := notify_outcome registered targetPid msg dataPtr dataLen node data
          exact ((unswitched_notify outcome).trans (unswitched_return_value _)).kept active
      | irqRegister irq =>
          exact ((unswitched_register_forward (irq % 256) (k.table k.current).pid).trans
            (unswitched_return_value _)).kept active
      | exec elfPtr elfSize loading => exact absurd ordinary id
      | waitpid pid =>
          have outcome := waitpid_outcome registered pid
          exact kept_block_or_return (handled_waitpid sound user outcome) user active
            (unswitched_waitpid outcome) esp
      | exit => exact absurd ordinary id

end Steps

end CassiOS.Kernel.Directories
