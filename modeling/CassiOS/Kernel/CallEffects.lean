import CassiOS.Kernel.Outcomes

/-!
# What a call changes of other processes

The handlers change a process record in three ways: they wake a blocked process, block the
caller, or leave PID and state alone. A relation between states that allows these changes
holds between the state before a call and the state after it.
-/

namespace CassiOS.Kernel.CallEffects

open CassiOS.Support.Words
open CassiOS.Kernel.State
open CassiOS.Kernel.ProcessManager
open CassiOS.Kernel.Syscall
open CassiOS.Kernel.Outcomes

set_option autoImplicit false

structure Waking (R : KernelState → KernelState → Prop) : Prop where
  refl : ∀ k, R k k
  trans : ∀ {k k' k''}, R k k' → R k' k'' → R k k''
  fields : ∀ {k k'}, k'.table = k.table → k'.processes = k.processes →
    k'.current = k.current → k'.nextRef = k.nextRef → k'.pendingIrq = k.pendingIrq → R k k'
  keep : ∀ {k r f}, (∀ p : Process, (f p).pid = p.pid) →
    (∀ p : Process, (f p).state = p.state) → R k (k.modify r f)
  wake : ∀ {k table}, (∀ r, table r = k.table r ∨ (k.table r).state ≠ .running ∧
    (table r).pid = (k.table r).pid ∧ (table r).state = .ready) → R k { k with table := table }

/-- A relation that also allows `caller` to block as a sender or to wait for an exit. -/
structure Blocking (caller : Ref) (R : KernelState → KernelState → Prop) : Prop
    extends Waking R where
  block : ∀ {k f}, (∀ p : Process, (f p).pid = p.pid) →
    (∀ p : Process, (f p).state = .sendBlocked ∨ (f p).state = .waitBlocked) →
      R k (k.modify caller f)

namespace Waking

variable {R : KernelState → KernelState → Prop} (waking : Waking R)
include waking

theorem record {k k' : KernelState} (related : R k k') (event : Event) : R k (k'.record event) :=
  waking.trans related (waking.fields rfl rfl rfl rfl rfl)

theorem wake_one {k : KernelState} {r : Ref} {f : Process → Process}
    (stopped : (k.table r).state ≠ .running) (pid : (f (k.table r)).pid = (k.table r).pid)
    (ready : (f (k.table r)).state = .ready) : R k (k.modify r f) := by
  apply waking.wake
  intro q
  split
  · next same =>
    subst same
    exact .inr ⟨stopped, pid, ready⟩
  · exact .inl rfl

theorem deliver {k : KernelState} {target : Ref} (msg : Message) (dataPtr dataLen eax : Nat)
    (stopped : (k.table target).state ≠ .running) :
    R k (Syscall.deliver k target msg dataPtr dataLen eax) := by
  obtain ⟨memory, same⟩ := deliver_eq k target msg dataPtr dataLen eax
  rw [same]
  have ready : R k (k.modify target (setResult eax)) := waking.wake_one stopped rfl rfl
  exact waking.trans ready (waking.fields rfl rfl rfl rfl rfl)

theorem returnValue (k : KernelState) (eax : Nat) : R k (Syscall.returnValue k eax) :=
  waking.keep (fun _ => rfl) fun _ => rfl

theorem reply (k : KernelState) (targetPid msg dataPtr dataLen : Nat) :
    R k (Syscall.reply k targetPid msg dataPtr dataLen).1 := by
  unfold Syscall.reply
  split
  · exact waking.refl k
  · next target _ =>
    split
    · exact waking.refl k
    · next waits =>
      have blocked := not_not.1 waits
      have delivered := waking.deliver (readMessage k msg) dataPtr dataLen 0
        (fun runs => ProcessState.noConfusion (blocked.symm.trans runs))
      exact waking.record delivered _

theorem notify (k : KernelState) (targetPid msg dataPtr dataLen : Nat) (node data : Bool) :
    R k (Syscall.notify k targetPid msg dataPtr dataLen node data).1 := by
  unfold Syscall.notify
  dsimp only
  split
  · exact waking.refl k
  · split
    · exact waking.refl k
    · split
      · next waits =>
        have delivered := waking.deliver (readMessage k msg) dataPtr dataLen 0
          (fun runs => ProcessState.noConfusion (waits.symm.trans runs))
        exact waking.record (waking.record delivered _) _
      · split
        · exact waking.refl k
        · next target _ _ _ _ pushed queued =>
          rcases notify_push_cases (k.table target) (k.table k.current).pid (readMessage k msg)
            (readBytes k.memory k.cr3 dataPtr) dataPtr dataLen node data with
            full | ⟨added, _, _, stored⟩
          · cases full.symm.trans queued
          · cases stored.symm.trans queued
            rw [KernelState.modify_const]
            have appended : R k (k.modify target (appendNotify added)) :=
              waking.keep (fun _ => rfl) fun _ => rfl
            exact waking.record appended _

/-! ## Destruction -/

theorem wakeSender (k : KernelState) (senderPid : Nat) :
    R k (ProcessManager.wakeSender k senderPid) := by
  unfold ProcessManager.wakeSender
  split
  · split
    · next blocked =>
      exact waking.wake_one (fun runs => ProcessState.noConfusion (blocked.symm.trans runs))
        rfl rfl
    · exact waking.refl k
  · exact waking.refl k

theorem wakeSenders (queue : List Nat) (k : KernelState) :
    R k (queue.foldl ProcessManager.wakeSender k) := by
  induction queue generalizing k with
  | nil => exact waking.refl k
  | cons senderPid rest ih => exact waking.trans (waking.wakeSender k senderPid) (ih _)

theorem wakeWaiters (k : KernelState) (pid : Nat) : R k (ProcessManager.wakeWaiters k pid) := by
  apply waking.wake
  intro r
  split
  · next blocked =>
    exact .inr ⟨fun runs => ProcessState.noConfusion (blocked.2.1.symm.trans runs), rfl, rfl⟩
  · exact .inl rfl

/-- `destroy` takes one process out of the list and wakes others, or does nothing. -/
theorem destroy (k : KernelState) (pid : Nat) :
    ProcessManager.destroy k pid = k ∧ (pid = 0 ∨ get k pid = none) ∨
      ∃ gone k', pid ≠ 0 ∧ get k pid = some gone ∧ R k k' ∧
        ProcessManager.destroy k pid = { k' with processes := k'.processes.erase gone } := by
  unfold ProcessManager.destroy
  by_cases zero : pid = 0
  · exact .inl ⟨if_pos zero, .inl zero⟩
  · rw [if_neg zero]
    cases found : get k pid with
    | none => exact .inl ⟨rfl, .inr rfl⟩
    | some gone =>
        have emptied : R k (((k.table gone).sendQueue.foldl
            ProcessManager.wakeSender k).modify gone fun q => { q with sendQueue := [] }) :=
          waking.trans (waking.wakeSenders _ k) (waking.keep (fun _ => rfl) fun _ => rfl)
        have woken := waking.trans emptied (waking.wakeWaiters _ pid)
        have freed := waking.trans woken (waking.keep (r := gone)
          (f := fun q => { q with notifyQueue := [], pageDirectory := 0, kernelEsp := 0 })
          (fun _ => rfl) fun _ => rfl)
        exact .inr ⟨gone, _, zero, rfl, freed, rfl⟩

end Waking

section Callers

variable {R : KernelState → KernelState → Prop} {caller : Ref} {k : KernelState}

theorem Blocking.send (blocking : Blocking caller R) (current : k.current = caller)
    (targetPid msg dataPtr dataLen : Nat) (node : Bool) :
    R k (Syscall.send k targetPid msg dataPtr dataLen node).1 := by
  have stored : R k (k.modify k.current (outgoing (readMessage k msg) msg dataPtr dataLen)) :=
    blocking.toWaking.keep (fun _ => rfl) fun _ => rfl
  have blocks : ∀ {k'}, R k k' → R k (k'.modify k.current (Syscall.block .sendBlocked)) := by
    intro k' related
    rw [current]
    exact blocking.toWaking.trans related (blocking.block (fun _ => rfl) fun _ => .inl rfl)
  unfold Syscall.send
  dsimp only
  split
  · exact blocking.toWaking.refl k
  · next target _ =>
    split
    · exact blocking.toWaking.refl k
    · split
      · next waits =>
        have delivered := blocking.toWaking.trans stored
          (blocking.toWaking.deliver (readMessage k msg) dataPtr dataLen (k.table k.current).pid
            (fun runs => ProcessState.noConfusion (waits.symm.trans runs)))
        exact blocks (blocking.toWaking.record (blocking.toWaking.record delivered _) _)
      · split
        · exact stored
        · next pushed queued =>
          unfold sendQueuePush at queued
          split at queued
          · cases queued
            rw [KernelState.modify_const]
            have appended : R k ((k.modify k.current
                (outgoing (readMessage k msg) msg dataPtr dataLen)).modify target
                  (appendSender (k.table k.current).pid)) :=
              blocking.toWaking.trans stored (blocking.toWaking.keep (fun _ => rfl) fun _ => rfl)
            exact blocks (blocking.toWaking.record appended _)
          · cases queued

theorem Blocking.waitpid (blocking : Blocking caller R) (current : k.current = caller) (pid : Nat) :
    R k (Syscall.waitpid k pid).1 := by
  unfold Syscall.waitpid
  dsimp only
  split
  · exact blocking.toWaking.refl k
  · split
    · exact blocking.toWaking.refl k
    · rw [current]
      exact blocking.block (fun _ => rfl) fun _ => .inr rfl

end Callers

end CassiOS.Kernel.CallEffects
