import CassiOS.Kernel.IpcStep

/-!
# Saved frames of blocked processes

A process blocks only inside a system call, so the frame it is resumed through lies on its
kernel stack. This is what the guard on `esp` in `destroy` tests.
-/

namespace CassiOS.Kernel.SavedFrames

open CassiOS.Support.Words
open CassiOS.Kernel.State
open CassiOS.Kernel.ProcessManager
open CassiOS.Kernel.Scheduler
open CassiOS.Kernel.Irq
open CassiOS.Kernel.Syscall
open CassiOS.Kernel.System
open CassiOS.Kernel.ProcessTable
open CassiOS.Kernel.Invariant
open CassiOS.Kernel.Outcomes
open CassiOS.Kernel.Exit
open CassiOS.Kernel.ProcessStates

set_option autoImplicit false

variable {k k' : KernelState}

def Saved (k : KernelState) : Prop :=
  ∀ r ∈ k.processes, Blocked (k.table r) → kernelVbase ≤ (k.table r).esp

theorem not_blocked_of_ready {p : Process} (ready : p.state = .ready) : ¬ Blocked p := by
  rintro (state | state | state) <;> simp [ready] at state

theorem not_blocked_of_running {p : Process} (running : p.state = .running) :
    ¬ Blocked p := by
  rintro (state | state | state) <;> simp [running] at state

/-- Nothing but the state of a woken process changes for a process other than the caller. -/
structure OnlyWakes (k k' : KernelState) (caller : Ref) : Prop where
  processes : k'.processes = k.processes
  esp : ∀ r, r ≠ caller → (k'.table r).esp = (k.table r).esp
  state : ∀ r, r ≠ caller →
    (k'.table r).state = (k.table r).state ∨ (k'.table r).state = .ready

namespace OnlyWakes

variable {k'' : KernelState} {caller : Ref}

theorem of_table (table : k'.table = k.table) (processes : k'.processes = k.processes) :
    OnlyWakes k k' caller :=
  ⟨processes, fun r _ => by rw [table], fun r _ => Or.inl (by rw [table])⟩

theorem trans (first : OnlyWakes k k' caller) (second : OnlyWakes k' k'' caller) :
    OnlyWakes k k'' caller where
  processes := second.processes.trans first.processes
  esp := fun r other => (second.esp r other).trans (first.esp r other)
  state := fun r other => by
    rcases second.state r other with same | ready
    · rw [same]
      exact first.state r other
    · exact Or.inr ready

theorem with_memory (only : OnlyWakes k k' caller) (memory : Nat → Nat → UInt8) :
    OnlyWakes k (withMemory k' memory) caller := ⟨only.processes, only.esp, only.state⟩

theorem record (only : OnlyWakes k k' caller) (event : Event) :
    OnlyWakes k (k'.record event) caller := ⟨only.processes, only.esp, only.state⟩

theorem modify_caller (f : Process → Process) : OnlyWakes k (k.modify caller f) caller :=
  ⟨rfl, fun r other => by rw [k.table_modify_of_ne _ _ _ other],
    fun r other => Or.inl (by rw [k.table_modify_of_ne _ _ _ other])⟩

theorem modify {target : Ref} {f : Process → Process}
    (esp : (f (k.table target)).esp = (k.table target).esp)
    (state : (f (k.table target)).state = (k.table target).state ∨
      (f (k.table target)).state = .ready) : OnlyWakes k (k.modify target f) caller := by
  refine ⟨rfl, fun r _ => k.modify_keeps target r f Process.esp esp, fun r _ => ?_⟩
  by_cases here : r = target
  · subst here
    rw [k.table_modify_self]
    exact state
  · exact Or.inl (by rw [k.table_modify_of_ne _ _ _ here])

theorem saved (saved : Saved k) (only : OnlyWakes k k' caller)
    (own : ¬ Blocked (k'.table caller)) : Saved k' := by
  intro r member blocked
  have other : r ≠ caller := fun same => own (same ▸ blocked)
  rw [only.processes] at member
  rw [only.esp r other]
  rcases only.state r other with same | ready
  · refine saved r member ?_
    unfold Blocked at blocked ⊢
    rw [same] at blocked
    exact blocked
  · exact absurd blocked (not_blocked_of_ready ready)

end OnlyWakes

theorem only_wakes_send {targetPid msg dataPtr dataLen : Nat} {answer : KernelState × Int}
    (outcome : SendOutcome k targetPid msg dataPtr dataLen answer) :
    OnlyWakes k answer.1 k.current := by
  cases outcome with
  | refused => exact .of_table rfl rfl
  | direct memory live other waiting =>
      have delivered : OnlyWakes k ((k.modify k.current
          (outgoing (readMessage k msg) msg dataPtr dataLen)).modify targetPid
          (setResult k.current)) k.current :=
        .trans (.modify_caller _) (.modify rfl (Or.inr rfl))
      exact (((delivered.with_memory memory).record _).record _).trans (.modify_caller _)
  | queueFull => exact .modify_caller _
  | queued live other busy =>
      have pushed : OnlyWakes k ((k.modify k.current
          (outgoing (readMessage k msg) msg dataPtr dataLen)).modify targetPid
          (appendSender k.current)) k.current :=
        .trans (.modify_caller _) (.modify rfl (Or.inl rfl))
      exact (pushed.record _).trans (.modify_caller _)

theorem only_wakes_receive {msg dataPtr dataCapacity : Nat} {answer : KernelState × Int}
    (outcome : ReceiveOutcome k msg dataPtr dataCapacity answer) :
    OnlyWakes k answer.1 k.current := by
  have first : OnlyWakes k (k.modify k.current (receiveBuffer dataPtr dataCapacity))
    k.current := .modify_caller _
  cases outcome with
  | interrupt irq memory line owner pending => exact first.trans (.of_table rfl rfl)
  | notification node rest memory none head =>
      exact (first.trans (.modify_caller dropNotify)).trans (.of_table rfl rfl)
  | senderGone senderPid rest head noNotification gone =>
      exact first.trans (.modify_caller dropSender)
  | sender senderPid rest memory head noNotification live =>
      exact (first.trans (.modify_caller dropSender)).trans (.of_table rfl rfl)
  | waits none noNotification noSender => exact first.trans (.modify_caller _)

theorem only_wakes_waitpid {pid : Nat} {answer : KernelState × Int}
    (outcome : WaitOutcome k pid answer) : OnlyWakes k answer.1 k.current := by
  cases outcome with
  | refused => exact .of_table rfl rfl
  | waits live other => exact .modify_caller _

theorem only_wakes_reply {targetPid : Nat} {answer : KernelState × Int}
    (outcome : ReplyOutcome k targetPid answer) : OnlyWakes k answer.1 k.current := by
  cases outcome with
  | refused _ => exact .of_table rfl rfl
  | answered memory live waiting =>
      exact (OnlyWakes.modify (f := setResult 0) rfl (Or.inr rfl)).trans (.of_table rfl rfl)

theorem only_wakes_notify {targetPid msg : Nat} {answer : KernelState × Int}
    (outcome : NotifyOutcome k targetPid msg answer) : OnlyWakes k answer.1 k.current := by
  cases outcome with
  | refused => exact .of_table rfl rfl
  | direct memory live other waiting =>
      exact (OnlyWakes.modify (f := setResult 0) rfl (Or.inr rfl)).trans (.of_table rfl rfl)
  | queued node live other busy sender words =>
      exact (OnlyWakes.modify (f := appendNotify node) rfl (Or.inl rfl)).trans
        (.of_table rfl rfl)

theorem only_wakes_forward {irq : Nat} (caller : Ref) (outcome : ForwardOutcome k irq k') :
    OnlyWakes k k' caller := by
  cases outcome with
  | ignored => exact .of_table rfl rfl
  | delivered memory live waiting =>
      exact (OnlyWakes.modify (f := setResult 0) rfl (Or.inr rfl)).trans (.of_table rfl rfl)
  | pending line live busy => exact .of_table rfl rfl

theorem current_forward {irq : Nat} (outcome : ForwardOutcome k irq k') :
    k'.current = k.current := by
  cases outcome <;> rfl

theorem saved_switch_to {next : Ref} {esp : Nat} (high : kernelVbase ≤ esp)
    (saved : ∀ r ∈ k.processes, r ≠ k.current → Blocked (k.table r) →
      kernelVbase ≤ (k.table r).esp) : Saved (switchTo k next k.current esp).1 := by
  intro r member blocked
  rw [(switch_to_fields (k := k) next k.current esp).1] at member
  rw [table_switch_to, switched] at blocked ⊢
  by_cases chosen : r = next
  · rw [if_pos chosen] at blocked
    exact absurd blocked (not_blocked_of_running rfl)
  · rw [if_neg chosen] at blocked ⊢
    by_cases caller : r = k.current
    · rw [if_pos caller]
      exact high
    · rw [if_neg caller] at blocked ⊢
      exact saved r member caller blocked

theorem saved_block_or_return {answer : KernelState × Int} (saved : Saved k)
    (handled : Handled k answer) (only : OnlyWakes k answer.1 k.current)
    (user : k.current ≠ kernelTask) {esp : Nat} (high : kernelVbase ≤ esp) :
    Saved (blockOrReturn answer.1 esp answer.2).1 := by
  unfold blockOrReturn
  by_cases zero : answer.2 = 0
  · rw [if_pos zero, reschedule_eq handled.stable.registered (handled.current ▸ user)]
    refine saved_switch_to (k := { answer.1 with tickCount := 0 }) high ?_
    intro r member other blocked
    change r ≠ answer.1.current at other
    rw [handled.current] at other
    change kernelVbase ≤ (answer.1.table r).esp
    rw [only.esp r other]
    rcases only.state r other with same | ready
    · refine saved r (only.processes ▸ member) ?_
      change Blocked (answer.1.table r) at blocked
      unfold Blocked at blocked ⊢
      rw [same] at blocked
      exact blocked
    · exact absurd blocked (not_blocked_of_ready ready)
  · rw [if_neg zero]
    have running := handled.running zero
    have returned : OnlyWakes k (returnValue answer.1 (asU32 answer.2)) k.current :=
      only.trans (.modify rfl (Or.inl rfl))
    refine returned.saved saved (not_blocked_of_running ?_)
    rw [← handled.current, state_return_value]
    exact running

theorem saved_return_value (saved : Saved k) {k₁ : KernelState} (sound : Sound k₁)
    (current : k₁.current = k.current) (only : OnlyWakes k k₁ k.current) (eax : Nat) :
    Saved (returnValue k₁ eax) := by
  have returned : OnlyWakes k (returnValue k₁ eax) k.current :=
    only.trans (.modify rfl (Or.inl rfl))
  refine returned.saved saved (not_blocked_of_running ?_)
  rw [← current, state_return_value]
  exact sound.running

theorem saved_run_handler (sound : Sound k) (saved : Saved k) (irq : Nat) {esp : Nat}
    (high : kernelVbase ≤ esp) : Saved (runHandler k irq esp).1 := by
  unfold runHandler
  by_cases timer : irq = 0
  · rw [if_pos timer]
    have ticked := sound.with_ticks (u32 (k.ticks + 1))
    rcases schedule_cases { k with ticks := u32 (k.ticks + 1) } esp with
      ⟨tickCount, same⟩ | switched
    · rw [PitTimer.handleInterrupt, same]
      exact saved
    · rw [PitTimer.handleInterrupt, switched]
      refine saved_switch_to (k := KernelState.modify _ k.current demote) high ?_
      intro r member other blocked
      change r ≠ k.current at other
      change Blocked ((k.modify k.current demote).table r) at blocked
      change kernelVbase ≤ ((k.modify k.current demote).table r).esp
      rw [k.table_modify_of_ne _ _ _ other] at blocked ⊢
      exact saved r member blocked
  · rw [if_neg timer]
    exact saved

theorem saved_exit (registered : Registered k) (saved : Saved k) (exit : ExitOutcome k k') :
    Saved k' := by
  intro r member blocked
  rw [exit.processes] at member
  obtain ⟨other, known⟩ := registered.nodup.mem_erase_iff.mp member
  rw [exit.table r known other] at blocked ⊢
  by_cases chosen : r = k'.current
  · rw [if_pos chosen] at blocked
    exact absurd blocked (not_blocked_of_running rfl)
  · rw [if_neg chosen] at blocked ⊢
    unfold survivor at blocked ⊢
    split
    · next woken =>
      rw [if_pos woken] at blocked
      exact absurd blocked (not_blocked_of_ready rfl)
    · next unqueued =>
      rw [if_neg unqueued] at blocked
      split
      · next woken =>
        rw [if_pos woken] at blocked
        exact absurd blocked (not_blocked_of_ready rfl)
      · next unwaited =>
        rw [if_neg unwaited] at blocked
        exact saved r known blocked

theorem saved_started (registered : Registered k) (saved : Saved k) {proc : Process}
    (new : IsNew k proc) : Saved (started k proc) := by
  intro r member blocked
  rcases List.mem_append.mp member with known | fresh
  · have old : (started k proc).table r = k.table r :=
      if_neg (Nat.ne_of_lt (registered.created r known))
    rw [old] at blocked ⊢
    exact saved r known blocked
  · rw [List.mem_singleton.mp fresh] at blocked
    have own : (started k proc).table k.nextRef = proc := if_pos rfl
    rw [own] at blocked
    exact absurd blocked (not_blocked_of_ready new.state)

theorem saved_step (sound : Sound k) (saved : Saved k) {action : Action}
    (fresh : FreshPid k action) (next : step k action = some k') : Saved k' := by
  have registered := sound.stable.registered
  cases stepped next with
  | user bytes _ =>
      exact saved
  | irq number esp high =>
      have handled := sound_run_handler sound (lineOf number) esp
      have outcome := forward_outcome handled.stable.registered (lineOf number)
      have only := only_wakes_forward (runHandler k (lineOf number) esp).1.current outcome
      refine only.saved (saved_run_handler sound saved (lineOf number) high)
        (not_blocked_of_running ?_)
      have after := sound_forward handled outcome
      rw [← current_forward outcome]
      exact after.running
  | syscall esp call user high =>
      cases call with
      | send targetPid msg dataPtr dataLen node =>
          have outcome := send_outcome registered targetPid msg dataPtr dataLen node
          exact saved_block_or_return saved (handled_send sound user outcome)
            (only_wakes_send outcome) user high
      | receive msg dataPtr dataCapacity =>
          have outcome := receive_outcome registered msg dataPtr dataCapacity
          have handled := handled_receive sound user outcome
          unfold handleSyscall
          dsimp only
          by_cases delivered : (receive k msg dataPtr dataCapacity).2 = -2 ∨
              (receive k msg dataPtr dataCapacity).2 = -3
          · rw [if_pos delivered]
            exact saved_return_value saved
              ⟨handled.stable, handled.running (by omega)⟩ handled.current
              (only_wakes_receive outcome) 0
          · rw [if_neg delivered]
            exact saved_block_or_return saved handled (only_wakes_receive outcome) user high
      | reply targetPid msg dataPtr dataLen =>
          have outcome := reply_outcome registered targetPid msg dataPtr dataLen
          obtain ⟨kept, current⟩ := sound_reply sound outcome
          exact saved_return_value saved kept current (only_wakes_reply outcome) _
      | notify targetPid msg dataPtr dataLen node data =>
          have outcome := notify_outcome registered targetPid msg dataPtr dataLen node data
          obtain ⟨kept, current⟩ := sound_notify sound outcome
          exact saved_return_value saved kept current (only_wakes_notify outcome) _
      | irqRegister irq =>
          obtain ⟨kept, current⟩ := sound_register_forward sound (irq % 256)
          refine saved_return_value saved kept current (.of_table ?_ ?_) _
          · exact table_register_forward k (irq % 256) (k.table k.current).pid
          · unfold registerForward
            split <;> rfl
      | exec elfPtr elfSize loading =>
          have outcome := exec_outcome k elfPtr elfSize loading
          have kept := (sound_exec sound outcome fresh).1
          change Saved (returnValue (exec k elfPtr elfSize loading).1 _)
          generalize exec k elfPtr elfSize loading = answer at outcome kept
          have started : Saved answer.1 := by
            cases outcome with
            | failed _ => exact saved
            | child proc _ new => exact saved_started registered saved new
          exact saved_return_value started kept rfl (.of_table rfl rfl) _
      | waitpid pid =>
          have outcome := waitpid_outcome registered pid
          exact saved_block_or_return saved (handled_waitpid sound user outcome)
            (only_wakes_waitpid outcome) user high
      | exit => exact saved_exit registered saved (exit_outcome sound.stable user)

end CassiOS.Kernel.SavedFrames
