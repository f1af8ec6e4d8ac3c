import CassiOS.Kernel.IpcStep
import CassiOS.Kernel.SchedulingSafety

/-!
# Every pending send has a live addressee

A process in state `SendBlocked` waits for the process its latest send was addressed to,
which still has it queued or has received its message. This holds in every run in which a
process exits only when it owes no reply.
-/

namespace CassiOS.Kernel.PendingSends

open CassiOS.Support.Words
open CassiOS.Support.TransitionSystem
open CassiOS.Kernel.State
open CassiOS.Kernel.ProcessManager
open CassiOS.Kernel.Syscall
open CassiOS.Kernel.System
open CassiOS.Kernel.ProcessTable
open CassiOS.Kernel.Invariant
open CassiOS.Kernel.Outcomes
open CassiOS.Kernel.Exit
open CassiOS.Kernel.ProcessStates
open CassiOS.Kernel.SchedulingSafety
open CassiOS.Kernel.History
open CassiOS.Kernel.IpcStep

set_option autoImplicit false

variable {k k' : KernelState}

/-- The send of `s` is with a live process: queued there, or received and not answered. -/
def Attended (k : KernelState) (s : Ref) : Prop :=
  ∃ r ∈ k.processes,
    (currentSend (k.table s).pid k.log = some ((k.table r).pid, .queued) ∧
      (k.table s).pid ∈ (k.table r).sendQueue) ∨
    currentSend (k.table s).pid k.log = some ((k.table r).pid, .received)

def NoOrphans (k : KernelState) : Prop :=
  ∀ s ∈ k.processes, (k.table s).state = .sendBlocked → Attended k s

/-- A process that exits has every process that still waits for it in its send queue. -/
def OwesNoReply (k : KernelState) : Action → Prop
  | .syscall _ .exit => ∀ s ∈ k.processes, (k.table s).state = .sendBlocked →
      (∃ stage, currentSend (k.table s).pid k.log = some ((k.table k.current).pid, stage)) →
      (k.table s).pid ∈ (k.table k.current).sendQueue
  | _ => True

/-- `NoOrphans` in terms of process identities. -/
def Waits (k : KernelState) : Prop :=
  ∀ s ∈ k.processes, (k.table s).state = .sendBlocked → ∃ r ∈ k.processes,
    (currentSend s k.log = some (r, .queued) ∧ s ∈ (k.table r).sendQueue) ∨
      currentSend s k.log = some (r, .received)

theorem no_orphans_iff_waits (registered : Registered k) : NoOrphans k ↔ Waits k := by
  have pid := registered.pid
  constructor
  · intro attended s member sending
    obtain ⟨r, live, stage⟩ := attended s member sending
    rw [pid s member, pid r live] at stage
    exact ⟨r, live, stage⟩
  · intro waits s member sending
    obtain ⟨r, live, stage⟩ := waits s member sending
    refine ⟨r, live, ?_⟩
    rw [pid s member, pid r live]
    exact stage

theorem Waits.same_queues (waits : Waits k) (same : SameQueues k k') : Waits k' := by
  intro s member sending
  rw [same.processes] at member
  obtain ⟨r, live, stage⟩ := waits s member ((same.sending s).mp sending)
  refine ⟨r, same.processes ▸ live, ?_⟩
  rw [same.log, same.sendQueue]
  exact stage

theorem current_send_of_other_sender {s sender target : Nat} {msg : Message}
    {log : List Event} (other : sender ≠ s) :
    currentSend s (.sent sender target msg :: log) = currentSend s log := if_neg other

theorem current_send_own {s target : Nat} {msg : Message} {log : List Event} :
    currentSend s (.sent s target msg :: log) = some (target, .queued) := if_pos rfl

theorem current_send_delivered {s target : Nat} {msg : Message} {log : List Event}
    (queued : currentSend s log = some (target, .queued)) :
    currentSend s (.received target s msg :: log) = some (target, .received) :=
  if_pos ⟨rfl, queued⟩

theorem current_send_of_other_received {s receiver sender : Nat} {msg : Message}
    {log : List Event} (other : sender ≠ s ∨ currentSend s log ≠ some (receiver, .queued)) :
    currentSend s (.received receiver sender msg :: log) = currentSend s log :=
  if_neg fun both => other.elim (fun apart => apart both.1) fun apart => apart both.2

theorem current_send_of_other_reply {s replier target : Nat} {log : List Event}
    (other : target ≠ s) :
    currentSend s (.replied replier target :: log) = currentSend s log := if_neg other

section Changes

theorem waits_sent_direct (waits : Waits k) {target : Ref} (live : target ∈ k.processes)
    (words : Message) (msg dataPtr dataLen : Nat) (memory : Nat → Nat → UInt8)
    (waiting : (k.table target).state = .receiveBlocked) :
    Waits (sentDirect k target words msg dataPtr dataLen memory) := by
  intro s member sending
  by_cases caller : s = k.current
  · subst caller
    exact ⟨target, live, Or.inr (current_send_delivered current_send_own)⟩
  · by_cases reached : s = target
    · subst reached
      simp [sentDirect, KernelState.record, withMemory, setResult, caller] at sending
    · have old : (k.table s).state = .sendBlocked := by
        rw [(sent_direct_other target words msg dataPtr dataLen memory caller).2 reached] at sending
        exact sending
      obtain ⟨r, alive, stage⟩ := waits s member old
      refine ⟨r, alive, ?_⟩
      have log : currentSend s (sentDirect k target words msg dataPtr dataLen memory).log =
          currentSend s k.log :=
        (current_send_of_other_received (Or.inl (Ne.symm caller))).trans
          (current_send_of_other_sender (Ne.symm caller))
      have queue := (sent_direct_queues (k := k) target words msg dataPtr dataLen
        memory r).1
      rw [log, queue]
      exact stage

theorem waits_sent_queued (waits : Waits k) {target : Ref} (live : target ∈ k.processes)
    (other : target ≠ k.current) (words : Message) (msg dataPtr dataLen : Nat) :
    Waits (sentQueued k target words msg dataPtr dataLen) := by
  have queue (r : Ref) :=
    (sent_queued_queues target words msg dataPtr dataLen r other).1
  intro s member sending
  by_cases caller : s = k.current
  · subst caller
    refine ⟨target, live, Or.inl ⟨current_send_own, ?_⟩⟩
    rw [queue, if_pos rfl]
    exact List.mem_append_right _ (List.mem_singleton_self _)
  · have old : (k.table s).state = .sendBlocked := by
      rw [(sent_queued_other target words msg dataPtr dataLen caller).2] at sending
      exact sending
    obtain ⟨r, alive, stage⟩ := waits s member old
    refine ⟨r, alive, ?_⟩
    have log : currentSend s (sentQueued k target words msg dataPtr dataLen).log =
        currentSend s k.log := current_send_of_other_sender (Ne.symm caller)
    rw [log, queue]
    refine stage.imp (fun queued => ⟨queued.1, ?_⟩) id
    split
    · exact List.mem_append_left _ queued.2
    · exact queued.2

theorem waits_received (waits : Waits k) {senderPid : Nat} {rest : List Nat}
    (head : (k.table k.current).sendQueue = senderPid :: rest) (words : Message) :
    Waits ((k.modify k.current dropSender).record
      (.received k.current senderPid words)) := by
  intro s member sending
  have old : (k.table s).state = .sendBlocked := by
    rw [← sending]
    exact (k.modify_keeps k.current s dropSender Process.state rfl).symm
  obtain ⟨r, alive, stage⟩ := waits s member old
  refine ⟨r, alive, ?_⟩
  change (currentSend s (.received k.current senderPid words :: k.log) = _ ∧
    s ∈ ((k.modify k.current dropSender).table r).sendQueue) ∨
    currentSend s (.received k.current senderPid words :: k.log) = _
  rcases stage with ⟨queued, inQueue⟩ | received
  · by_cases delivered : senderPid = s ∧ r = k.current
    · obtain ⟨rfl, rfl⟩ := delivered
      exact Or.inr (current_send_delivered queued)
    · left
      refine ⟨?_, ?_⟩
      · rw [current_send_of_other_received, queued]
        rw [queued]
        by_cases apart : senderPid = s
        · exact Or.inr fun same => delivered ⟨apart, by simpa using same⟩
        · exact Or.inl apart
      · by_cases here : r = k.current
        · subst here
          rw [KernelState.table_modify_self]
          rw [head] at inQueue
          rcases List.mem_cons.mp inQueue with same | later
          · exact absurd ⟨same.symm, rfl⟩ delivered
          · simpa [dropSender, head] using later
        · rw [KernelState.table_modify_of_ne _ _ _ _ here]
          exact inQueue
  · right
    rw [current_send_of_other_received, received]
    rw [received]
    exact Or.inr (by simp)

theorem waits_sender_gone (waits : Waits k) {senderPid : Nat} {rest : List Nat}
    (head : (k.table k.current).sendQueue = senderPid :: rest)
    (gone : senderPid ∉ k.processes) : Waits (k.modify k.current dropSender) := by
  intro s member sending
  have old : (k.table s).state = .sendBlocked := by
    rw [← sending]
    exact (k.modify_keeps k.current s dropSender Process.state rfl).symm
  obtain ⟨r, alive, stage⟩ := waits s member old
  refine ⟨r, alive, stage.imp (fun queued => ⟨queued.1, ?_⟩) id⟩
  by_cases here : r = k.current
  · subst here
    rw [KernelState.table_modify_self]
    have inQueue := queued.2
    rw [head] at inQueue
    rcases List.mem_cons.mp inQueue with same | later
    · exact absurd (same ▸ member) gone
    · simpa [dropSender, head] using later
  · rw [KernelState.table_modify_of_ne _ _ _ _ here]
    exact queued.2

theorem waits_answered (waits : Waits k) (target : Ref) :
    Waits ((k.modify target (setResult 0)).record (.replied k.current target)) := by
  intro s member sending
  by_cases reached : s = target
  · subst reached
    simp [KernelState.record, setResult] at sending
  · have old : (k.table s).state = .sendBlocked := by
      simpa [KernelState.record, reached] using sending
    obtain ⟨r, alive, stage⟩ := waits s member old
    refine ⟨r, alive, ?_⟩
    have log : currentSend s (.replied k.current target :: k.log) = currentSend s k.log :=
      current_send_of_other_reply (Ne.symm reached)
    have queue : ((k.modify target (setResult 0)).table r).sendQueue =
        (k.table r).sendQueue := k.modify_keeps _ _ (setResult 0) Process.sendQueue rfl
    change (currentSend s (.replied k.current target :: k.log) = _ ∧
      s ∈ ((k.modify target (setResult 0)).table r).sendQueue) ∨
      currentSend s (.replied k.current target :: k.log) = _
    rw [log, queue]
    exact stage

theorem waits_exit (waits : Waits k) (registered : Registered k)
    (owes : ∀ s ∈ k.processes, (k.table s).state = .sendBlocked →
      (∃ stage, currentSend s k.log = some (k.current, stage)) →
      s ∈ (k.table k.current).sendQueue)
    (exit : ExitOutcome k k') : Waits k' := by
  have mem_iff (r : Ref) : r ∈ k'.processes ↔ r ≠ k.current ∧ r ∈ k.processes := by
    rw [exit.processes]
    exact registered.nodup.mem_erase_iff
  intro s member sending
  obtain ⟨other, known⟩ := (mem_iff s).mp member
  rw [exit.table s known other] at sending
  by_cases chosen : s = k'.current
  · rw [if_pos chosen] at sending
    cases sending
  rw [if_neg chosen] at sending
  -- a sender in the queue of the dying process would have been woken
  have unqueued : ¬ (s ∈ (k.table k.current).sendQueue ∧ (k.table s).state = .sendBlocked) := by
    intro queued
    rw [survivor, if_pos queued] at sending
    cases sending
  have old : (k.table s).state = .sendBlocked := by
    rcases (survivor_keeps (k := k) k.current s).2.2.2.2.2 with same | ready
    · exact same ▸ sending
    · rw [ready] at sending
      cases sending
  obtain ⟨r, alive, stage⟩ := waits s known old
  have apart : r ≠ k.current := by
    rintro rfl
    refine unqueued ⟨owes s known old ?_, old⟩
    rcases stage with ⟨queued, _⟩ | received
    · exact ⟨_, queued⟩
    · exact ⟨_, received⟩
  refine ⟨r, (mem_iff r).mpr ⟨apart, alive⟩, ?_⟩
  have queue : (k'.table r).sendQueue = (k.table r).sendQueue := by
    rw [exit.table r alive apart]
    split
    · rfl
    · exact (survivor_keeps k.current r).2.1
  rw [exit.log, queue]
  exact stage

theorem waits_started (waits : Waits k) (registered : Registered k) {proc : Process}
    (new : IsNew k proc) : Waits (started k proc) := by
  have old (r : Ref) (member : r ∈ k.processes) : (started k proc).table r = k.table r :=
    if_neg (Nat.ne_of_lt (registered.created r member))
  intro s member sending
  rcases List.mem_append.mp member with known | fresh
  · rw [old s known] at sending
    obtain ⟨r, alive, stage⟩ := waits s known sending
    refine ⟨r, List.mem_append_left _ alive, ?_⟩
    rw [old r alive]
    exact stage
  · rw [List.mem_singleton.mp fresh] at sending
    have own : (started k proc).table k.nextRef = proc := if_pos rfl
    rw [own, new.state] at sending
    cases sending

end Changes

theorem waits_step (sound : Sound k) (waits : Waits k) {action : Action}
    (owes : OwesNoReply k action) (next : step k action = some k') : Waits k' := by
  obtain ⟨k₁, change, same⟩ := ipc_step sound next
  refine Waits.same_queues ?_ same
  cases change with
  | none _ _ => exact waits
  | sentDirect _ msg dataPtr dataLen _ memory live other waiting =>
      exact waits_sent_direct waits live _ msg dataPtr dataLen memory waiting
  | sentQueued _ msg dataPtr dataLen _ live other busy =>
      exact waits_sent_queued waits live other _ msg dataPtr dataLen
  | heard _ _ _ _ head =>
      intro s member sending
      have old : (k.table s).state = .sendBlocked := by
        rw [← sending]
        exact (k.modify_keeps k.current s dropNotify Process.state rfl).symm
      obtain ⟨r, alive, stage⟩ := waits s member old
      refine ⟨r, alive, stage.imp (fun queued => ⟨queued.1, ?_⟩) id⟩
      change s ∈ ((k.modify k.current dropNotify).table r).sendQueue
      rw [k.modify_keeps _ _ dropNotify Process.sendQueue rfl]
      exact queued.2
  | senderGone _ _ _ _ head _ gone => exact waits_sender_gone waits head gone
  | received _ _ _ _ head _ _ => exact waits_received waits head _
  | answered _ _ _ _ _ _ => exact waits_answered waits _
  | notifiedDirect _ _ _ _ _ _ _ _ _ => exact waits
  | notifiedQueued esp msg dataPtr dataLen node data live other busy sender =>
      rename_i target pushed
      intro s member sending
      have old : (k.table s).state = .sendBlocked := by
        rw [← sending]
        exact (k.modify_keeps target s (appendNotify pushed) Process.state rfl).symm
      obtain ⟨r, alive, stage⟩ := waits s member old
      refine ⟨r, alive, stage.imp (fun queued => ⟨queued.1, ?_⟩) id⟩
      change s ∈ ((k.modify target (appendNotify pushed)).table r).sendQueue
      rw [k.modify_keeps _ _ (appendNotify pushed) Process.sendQueue rfl]
      exact queued.2
  | started _ _ _ _ new => exact waits_started waits sound.stable.registered new
  | exited _ exit =>
      refine waits_exit waits sound.stable.registered ?_ exit
      intro s member sending addressed
      have pid := sound.stable.registered.pid
      have queued := owes s member sending
      rw [pid s member, pid _ sound.stable.registered.current] at queued
      exact queued addressed

theorem waits_of_reaches
    (reached : Reaches (fun k action => FreshPid k action ∧ OwesNoReply k action) k) :
    Sound k ∧ Waits k := by
  obtain ⟨cr3, memory, modules, few, run⟩ := reached
  refine run.invariant (fun k => Sound k ∧ Waits k) ?_ ?_
  · refine boot_induction Waits ?_ ?_ few
    · intro s member sending
      rw [List.mem_singleton.mp member] at sending
      cases sending
    · intro k proc sound _ new waits
      exact waits_started waits sound.stable.registered new
  · intro k action k' inv admitted next
    exact ⟨sound_step inv.1 admitted.1 next, waits_step inv.1 inv.2 admitted.2 next⟩

/-- Process 1 receives the message of process 2 and replies, while that of process 3 waits in its
queue. -/
def replying : List Action :=
  List.replicate 10 timerTick ++
    [.syscall kernelVbase (.receive 4096 0 0), .syscall kernelVbase (.send 1 4096 0 0 true),
      .syscall kernelVbase (.send 1 4096 0 0 true)] ++
    List.replicate 10 timerTick ++ [.syscall kernelVbase (.reply 2 4096 0 0)]

theorem mem_replying {action : Action} (member : action ∈ replying) :
    action = timerTick ∨ action = .syscall kernelVbase (.receive 4096 0 0) ∨
      action = .syscall kernelVbase (.send 1 4096 0 0 true) ∨
        action = .syscall kernelVbase (.reply 2 4096 0 0) := by
  simp only [replying, List.mem_append, List.mem_replicate, List.mem_cons,
    List.not_mem_nil] at member
  grind

theorem replying_result :
    (path step (boot 0 (fun _ _ => 0) [anyProgram, anyProgram, anyProgram]) replying).map (fun k =>
        ((k.current, k.processes.filter fun r => (k.table r).state == .sendBlocked),
          ((k.table 1).pid, (k.table 1).sendQueue, (k.table 3).pid), currentSend 3 k.log)) =
      some ((1, [3]), (1, [3], 3), some (1, .queued)) := by
  decide +kernel

theorem replying_exit_result :
    ((path step (boot 0 (fun _ _ => 0) [anyProgram, anyProgram, anyProgram]) replying).bind fun k =>
      step k (.syscall kernelVbase .exit)).map (fun k => k.processes) = some [0, 2, 3] := by
  decide +kernel

/-- Process 1 receives a message of process 2 and exits without a reply. -/
def receiverExits : List Action := serving ++ [.syscall kernelVbase .exit]

theorem receiver_exits_result :
    (path step twoPrograms receiverExits).map
        (fun k => ((k.processes, (k.table 0).pid, (k.table 2).pid),
          (k.table 2).state, currentSend 2 k.log)) =
      some (([0, 2], 0, 2), .sendBlocked, some (1, .received)) := by
  decide +kernel

end CassiOS.Kernel.PendingSends
