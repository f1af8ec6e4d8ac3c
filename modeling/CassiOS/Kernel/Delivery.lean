import CassiOS.Kernel.PendingSends

/-!
# Messages are delivered in order, exactly once

While every reply goes to a process whose message the replier has received, each pair of
processes sees a queue: what was sent is what was received followed by what is pending.
-/

namespace CassiOS.Kernel.Delivery

open CassiOS.Support.Words
open CassiOS.Support.TransitionSystem
open CassiOS.Kernel.State
open CassiOS.Kernel.ProcessManager
open CassiOS.Kernel.Scheduler
open CassiOS.Kernel.Syscall
open CassiOS.Kernel.System
open CassiOS.Kernel.ProcessTable
open CassiOS.Kernel.Invariant
open CassiOS.Kernel.Outcomes
open CassiOS.Kernel.Exit
open CassiOS.Kernel.ProcessStates
open CassiOS.Kernel.History
open CassiOS.Kernel.IpcStep
open CassiOS.Kernel.PendingSends

set_option autoImplicit false

variable {k k' : KernelState}

def isFrom (sender : Nat) (node : NotifyNode) : Bool := node.senderPid = sender

/-- The notifications of `sender` in a queue. -/
def notesFrom (sender : Nat) (queue : List NotifyNode) : List Message :=
  (queue.filter (isFrom sender)).map NotifyNode.msg

/-- The messages of `s` that process `r` has not received yet. -/
def pending (k : KernelState) (r s : Nat) : List Message :=
  notesFrom s (k.table r).notifyQueue ++
    if s ∈ (k.table r).sendQueue then [(k.table s).msg] else []

/-- Each reply names a PID that the replier's own `receive` returned and that it has not
replied to. -/
def RepliesOwed (k : KernelState) : Action → Prop
  | .syscall _ (.reply targetPid _ _ _) => targetPid ∈ owed (k.table k.current).pid k.log
  | _ => True

structure Delivers (k : KernelState) : Prop where
  order : ∀ r ∈ k.processes, ∀ s,
    sentTo s r k.log = receivedFrom r s k.log ++ pending k r s
  gone : ∀ r, r ∉ k.processes → ∀ s, receivedFrom r s k.log <+: sentTo s r k.log
  future : ∀ r, k.nextRef ≤ r →
    (∀ s, sentTo s r k.log = [] ∧ receivedFrom r s k.log = []) ∧ owed r k.log = []
  queued : ∀ r ∈ k.processes, ∀ s ∈ (k.table r).sendQueue, s ∈ k.processes ∧
    (k.table s).state = .sendBlocked ∧ currentSend s k.log = some (r, .queued)
  once : ∀ r ∈ k.processes, (k.table r).sendQueue.Nodup
  owes : ∀ r ∈ k.processes, ∀ s ∈ owed r k.log, s ∈ k.processes ∧
    (k.table s).state = .sendBlocked ∧ currentSend s k.log = some (r, .received)
  owesOnce : ∀ r ∈ k.processes, (owed r k.log).Nodup

theorem Delivers.same_queues (delivers : Delivers k) (same : SameQueues k k') :
    Delivers k' where
  order := fun r member s => by
    rw [same.processes] at member
    have pending_eq : pending k' r s = pending k r s := by
      unfold pending
      rw [same.notifyQueue, same.sendQueue]
      by_cases inQueue : s ∈ (k.table r).sendQueue
      · rw [if_pos inQueue, if_pos inQueue, same.msg s (delivers.queued r member s inQueue).2.1]
      · rw [if_neg inQueue, if_neg inQueue]
    rw [same.log, pending_eq]
    exact delivers.order r member s
  gone := fun r absent s => by
    rw [same.processes] at absent
    rw [same.log]
    exact delivers.gone r absent s
  future := fun r beyond => by
    rw [same.nextRef] at beyond
    rw [same.log]
    exact delivers.future r beyond
  queued := fun r member s inQueue => by
    rw [same.processes] at member ⊢
    rw [same.sendQueue] at inQueue
    rw [same.sending, same.log]
    exact delivers.queued r member s inQueue
  once := fun r member => by
    rw [same.processes] at member
    rw [same.sendQueue]
    exact delivers.once r member
  owes := fun r member s inList => by
    rw [same.processes] at member ⊢
    rw [same.log] at inList ⊢
    rw [same.sending]
    exact delivers.owes r member s inList
  owesOnce := fun r member => by
    rw [same.processes] at member
    rw [same.log]
    exact delivers.owesOnce r member

section Notes

theorem notes_from_cons (s : Nat) (node : NotifyNode) (rest : List NotifyNode) :
    notesFrom s (node :: rest) =
      (if node.senderPid = s then [node.msg] else []) ++ notesFrom s rest := by
  unfold notesFrom
  by_cases own : node.senderPid = s <;> simp [isFrom, own]

theorem notes_from_append (s : Nat) (queue : List NotifyNode) (node : NotifyNode) :
    notesFrom s (queue ++ [node]) =
      notesFrom s queue ++ if node.senderPid = s then [node.msg] else [] := by
  unfold notesFrom
  by_cases own : node.senderPid = s <;> simp [isFrom, own]

end Notes

section Facts

/-- A process that is not in the middle of a send is in no queue and on no list. -/
theorem Delivers.not_queued (delivers : Delivers k) {r s : Ref} (member : r ∈ k.processes)
    (idle : (k.table s).state ≠ .sendBlocked) : s ∉ (k.table r).sendQueue :=
  fun inQueue => idle (delivers.queued r member s inQueue).2.1

theorem Delivers.not_owed (delivers : Delivers k) {r s : Ref} (member : r ∈ k.processes)
    (idle : (k.table s).state ≠ .sendBlocked) : s ∉ owed r k.log :=
  fun inList => idle (delivers.owes r member s inList).2.1

theorem not_sending_of_running {s : Ref} (running : (k.table s).state = .running) :
    (k.table s).state ≠ .sendBlocked := by
  rw [running]
  decide

theorem not_sending_of_waiting {s : Ref} (waiting : (k.table s).state = .receiveBlocked) :
    (k.table s).state ≠ .sendBlocked := by
  rw [waiting]
  decide

theorem pending_of_waiting (sound : Sound k) {r : Ref} (member : r ∈ k.processes)
    (waiting : (k.table r).state = .receiveBlocked) (s : Nat) : pending k r s = [] := by
  obtain ⟨noSender, noNotification, _⟩ := (sound.stable.admissible r member).receiver waiting
  simp [pending, noSender, noNotification, notesFrom]

end Facts

section Changes

variable (sound : Sound k) (delivers : Delivers k)
include sound delivers

theorem delivers_sent_direct {target : Ref} (live : target ∈ k.processes)
    (other : target ≠ k.current) (words : Message) (msg dataPtr dataLen : Nat)
    (memory : Nat → Nat → UInt8) (waiting : (k.table target).state = .receiveBlocked) :
    Delivers (sentDirect k target words msg dataPtr dataLen memory) := by
  have idle := not_sending_of_running sound.running
  have below := sound.stable.registered.created target live
  have queues := sent_direct_queues (k := k) target words msg dataPtr dataLen memory
  have record {r : Ref} (caller : r ≠ k.current) :=
    sent_direct_other target words msg dataPtr dataLen memory caller
  have kept {s : Ref} (sending : (k.table s).state = .sendBlocked) :
      s ≠ k.current ∧ ((sentDirect k target words msg dataPtr dataLen memory).table s).state =
        .sendBlocked ∧ currentSend s (sentDirect k target words msg dataPtr dataLen memory).log =
          currentSend s k.log := by
    have caller : s ≠ k.current := fun same => idle (same ▸ sending)
    have apart : s ≠ target := fun same => not_sending_of_waiting waiting (same ▸ sending)
    refine ⟨caller, ((record caller).2 apart).trans sending, ?_⟩
    exact (current_send_of_other_received (Or.inl (Ne.symm caller))).trans
      (current_send_of_other_sender (Ne.symm caller))
  have pending_eq (r : Ref) (member : r ∈ k.processes) (s : Nat) :
      pending (sentDirect k target words msg dataPtr dataLen memory) r s = pending k r s := by
    unfold pending
    rw [(queues r).1, (queues r).2]
    by_cases inQueue : s ∈ (k.table r).sendQueue
    · have caller := (kept (delivers.queued r member s inQueue).2.1).1
      rw [if_pos inQueue, if_pos inQueue, (record caller).1]
    · rw [if_neg inQueue, if_neg inQueue]
  refine ⟨fun r member s => ?_, fun r absent s => ?_, fun r beyond => ?_,
    fun r member s inQueue => ?_, fun r member => ?_, fun r member s inList => ?_,
    fun r member => ?_⟩
  · rw [pending_eq r member]
    change sentTo s r (.received target k.current words :: .sent k.current target words ::
      k.log) = receivedFrom r s (.received target k.current words ::
        .sent k.current target words :: k.log) ++ _
    simp only [sent_to_received, sent_to_sent, received_from_received, received_from_sent]
    rw [delivers.order r member s]
    by_cases here : target = r ∧ k.current = s
    · obtain ⟨rfl, rfl⟩ := here
      simp [pending_of_waiting sound live waiting]
    · rw [if_neg here, if_neg fun both => here both.symm]
      simp
  · have apart : target ≠ r := fun same => absent (same ▸ live)
    change receivedFrom r s (.received target k.current words ::
      .sent k.current target words :: k.log) <+: sentTo s r (.received target k.current words ::
        .sent k.current target words :: k.log)
    simpa [apart] using delivers.gone r absent s
  · have apart : target ≠ r := Nat.ne_of_lt (Nat.lt_of_lt_of_le below beyond)
    obtain ⟨silent, none⟩ := delivers.future r beyond
    refine ⟨fun s => ?_, ?_⟩
    · change sentTo s r (.received target k.current words :: .sent k.current target words ::
        k.log) = [] ∧ receivedFrom r s (.received target k.current words ::
          .sent k.current target words :: k.log) = []
      simpa [apart] using silent s
    · exact (if_neg apart).trans none
  · rw [(queues r).1] at inQueue
    obtain ⟨known, sending, stage⟩ := delivers.queued r member s inQueue
    obtain ⟨_, state, same⟩ := kept sending
    exact ⟨known, state, same.trans stage⟩
  · rw [(queues r).1]
    exact delivers.once r member
  · have cases_owed : (r = target ∧ s = k.current) ∨ s ∈ owed r k.log := by
      change s ∈ (if target = r then k.current :: owed r k.log else owed r k.log) at inList
      by_cases here : target = r
      · rw [if_pos here] at inList
        rcases List.mem_cons.mp inList with first | later
        · exact Or.inl ⟨here.symm, first⟩
        · exact Or.inr later
      · rw [if_neg here] at inList
        exact Or.inr inList
    rcases cases_owed with ⟨rfl, rfl⟩ | old
    · refine ⟨sound.stable.registered.current, ?_,
        current_send_delivered current_send_own⟩
      rw [sentDirect, KernelState.table_modify_self]
      rfl
    · obtain ⟨known, sending, stage⟩ := delivers.owes r member s old
      obtain ⟨_, state, same⟩ := kept sending
      exact ⟨known, state, same.trans stage⟩
  · change (if target = r then k.current :: owed r k.log else owed r k.log).Nodup
    split
    · exact List.nodup_cons.mpr ⟨delivers.not_owed member idle, delivers.owesOnce r member⟩
    · exact delivers.owesOnce r member

theorem delivers_sent_queued {target : Ref} (live : target ∈ k.processes)
    (other : target ≠ k.current) (words : Message) (msg dataPtr dataLen : Nat) :
    Delivers (sentQueued k target words msg dataPtr dataLen) := by
  have idle := not_sending_of_running sound.running
  have below := sound.stable.registered.created target live
  have queues (r : Ref) :=
    sent_queued_queues target words msg dataPtr dataLen r other
  have record {r : Ref} (caller : r ≠ k.current) :=
    sent_queued_other target words msg dataPtr dataLen caller
  have own : ((sentQueued k target words msg dataPtr dataLen).table k.current).msg = words ∧
      ((sentQueued k target words msg dataPtr dataLen).table k.current).state =
        .sendBlocked := by
    simp [sentQueued, KernelState.record, Ne.symm other, block, outgoing]
  have kept {s : Ref} (sending : (k.table s).state = .sendBlocked) :
      s ≠ k.current ∧ ((sentQueued k target words msg dataPtr dataLen).table s).state =
        .sendBlocked ∧ currentSend s (sentQueued k target words msg dataPtr dataLen).log =
          currentSend s k.log := by
    have caller : s ≠ k.current := fun same => idle (same ▸ sending)
    exact ⟨caller, (record caller).2.trans sending,
      current_send_of_other_sender (Ne.symm caller)⟩
  have absent (r : Ref) (member : r ∈ k.processes) := delivers.not_queued member idle
  have pending_eq (r : Ref) (member : r ∈ k.processes) (s : Nat) :
      pending (sentQueued k target words msg dataPtr dataLen) r s =
        pending k r s ++ if k.current = s ∧ target = r then [words] else [] := by
    unfold pending
    rw [(queues r).1, (queues r).2]
    by_cases caller : s = k.current
    · subst caller
      rw [own.1, if_neg (absent r member)]
      by_cases here : r = target
      · subst here
        simp
      · rw [if_neg here, if_neg (absent r member)]
        simp [Ne.symm here]
    · rw [(record caller).1, if_neg (show ¬ (k.current = s ∧ target = r) from
        fun both => caller both.1.symm)]
      by_cases here : r = target
      · subst here
        simp [caller]
      · simp [here]
  refine ⟨fun r member s => ?_, fun r gone s => ?_, fun r beyond => ?_,
    fun r member s inQueue => ?_, fun r member => ?_, fun r member s inList => ?_,
    fun r member => delivers.owesOnce r member⟩
  · rw [pending_eq r member]
    change sentTo s r (.sent k.current target words :: k.log) =
      receivedFrom r s (.sent k.current target words :: k.log) ++ _
    rw [sent_to_sent, received_from_sent, delivers.order r member s, List.append_assoc]
  · have apart : target ≠ r := fun same => gone (same ▸ live)
    change receivedFrom r s (.sent k.current target words :: k.log) <+:
      sentTo s r (.sent k.current target words :: k.log)
    simpa [apart] using delivers.gone r gone s
  · have apart : target ≠ r := Nat.ne_of_lt (Nat.lt_of_lt_of_le below beyond)
    obtain ⟨silent, none⟩ := delivers.future r beyond
    refine ⟨fun s => ?_, none⟩
    change sentTo s r (.sent k.current target words :: k.log) = [] ∧
      receivedFrom r s (.sent k.current target words :: k.log) = []
    simpa [apart] using silent s
  · rw [(queues r).1] at inQueue
    have cases_queued : (r = target ∧ s = k.current) ∨ s ∈ (k.table r).sendQueue := by
      by_cases here : r = target
      · rw [if_pos here] at inQueue
        rcases List.mem_append.mp inQueue with old | last
        · exact Or.inr old
        · exact Or.inl ⟨here, List.mem_singleton.mp last⟩
      · rw [if_neg here] at inQueue
        exact Or.inr inQueue
    rcases cases_queued with ⟨rfl, rfl⟩ | old
    · exact ⟨sound.stable.registered.current, own.2, current_send_own⟩
    · obtain ⟨known, sending, stage⟩ := delivers.queued r member s old
      obtain ⟨_, state, same⟩ := kept sending
      exact ⟨known, state, same.trans stage⟩
  · rw [(queues r).1]
    split
    · refine List.nodup_append.mpr ⟨delivers.once r member, List.nodup_singleton _, ?_⟩
      intro s inQueue q last
      rw [List.mem_singleton.mp last]
      exact fun same => absent r member (same ▸ inQueue)
    · exact delivers.once r member
  · obtain ⟨known, sending, stage⟩ := delivers.owes r member s inList
    obtain ⟨_, state, same⟩ := kept sending
    exact ⟨known, state, same.trans stage⟩

theorem delivers_heard {node : NotifyNode} {rest : List NotifyNode}
    (head : (k.table k.current).notifyQueue = node :: rest) :
    Delivers ((k.modify k.current dropNotify).record
      (.heard k.current node.senderPid node.msg)) := by
  have caller := sound.stable.registered.current
  have below := sound.stable.registered.created k.current caller
  have sendQueue (r : Ref) := k.modify_keeps k.current r dropNotify Process.sendQueue rfl
  have state (r : Ref) := k.modify_keeps k.current r dropNotify Process.state rfl
  have msg (r : Ref) := k.modify_keeps k.current r dropNotify Process.msg rfl
  have pending_eq (r : Ref) (s : Nat) : pending k r s =
      (if k.current = r ∧ node.senderPid = s then [node.msg] else []) ++
        pending (k.modify k.current dropNotify) r s := by
    unfold pending
    rw [sendQueue, msg]
    by_cases here : r = k.current
    · subst here
      rw [KernelState.table_modify_self, head, notes_from_cons]
      simp [dropNotify, head]
    · rw [if_neg (show ¬ (k.current = r ∧ node.senderPid = s) from
        fun both => here both.1.symm), KernelState.table_modify_of_ne _ _ _ _ here]
      rfl
  refine ⟨fun r member s => ?_, fun r gone s => ?_, fun r beyond => ?_,
    fun r member s inQueue => ?_, fun r member => ?_, fun r member s inList => ?_,
    fun r member => delivers.owesOnce r member⟩
  · change sentTo s r (.heard k.current node.senderPid node.msg :: k.log) =
      receivedFrom r s (.heard k.current node.senderPid node.msg :: k.log) ++
        pending (k.modify k.current dropNotify) r s
    rw [sent_to_heard, received_from_heard, delivers.order r member s, pending_eq,
      List.append_assoc]
  · have apart : k.current ≠ r := fun same => gone (same ▸ caller)
    change receivedFrom r s (.heard k.current node.senderPid node.msg :: k.log) <+:
      sentTo s r (.heard k.current node.senderPid node.msg :: k.log)
    simpa [apart] using delivers.gone r gone s
  · have apart : k.current ≠ r := Nat.ne_of_lt (Nat.lt_of_lt_of_le below beyond)
    obtain ⟨silent, none⟩ := delivers.future r beyond
    refine ⟨fun s => ?_, none⟩
    change sentTo s r (.heard k.current node.senderPid node.msg :: k.log) = [] ∧
      receivedFrom r s (.heard k.current node.senderPid node.msg :: k.log) = []
    simpa [apart] using silent s
  · change s ∈ ((k.modify k.current dropNotify).table r).sendQueue at inQueue
    rw [sendQueue] at inQueue
    obtain ⟨known, sending, stage⟩ := delivers.queued r member s inQueue
    exact ⟨known, (state s).trans sending, stage⟩
  · change ((k.modify k.current dropNotify).table r).sendQueue.Nodup
    rw [sendQueue]
    exact delivers.once r member
  · obtain ⟨known, sending, stage⟩ := delivers.owes r member s inList
    exact ⟨known, (state s).trans sending, stage⟩

theorem delivers_received {senderPid : Nat} {rest : List Nat}
    (head : (k.table k.current).sendQueue = senderPid :: rest)
    (noNotification : (k.table k.current).notifyQueue = []) :
    Delivers ((k.modify k.current dropSender).record
      (.received k.current senderPid (k.table senderPid).msg)) := by
  have caller := sound.stable.registered.current
  have below := sound.stable.registered.created k.current caller
  have notifyQueue (r : Ref) := k.modify_keeps k.current r dropSender Process.notifyQueue rfl
  have state (r : Ref) := k.modify_keeps k.current r dropSender Process.state rfl
  have msg (r : Ref) := k.modify_keeps k.current r dropSender Process.msg rfl
  have first : senderPid ∈ (k.table k.current).sendQueue := by
    rw [head]
    exact List.mem_cons_self
  obtain ⟨live, sending, stage⟩ := delivers.queued k.current caller senderPid first
  have nodup := delivers.once k.current caller
  rw [head] at nodup
  obtain ⟨notLater, nodupRest⟩ := List.nodup_cons.mp nodup
  have own : ((k.modify k.current dropSender).table k.current).sendQueue = rest := by
    rw [KernelState.table_modify_self, dropSender, head]
    rfl
  have queue {r : Ref} (here : r ≠ k.current) :
      (k.modify k.current dropSender).table r = k.table r :=
    k.table_modify_of_ne _ _ _ here
  have still {r s : Ref} (inQueue : s ∈ ((k.modify k.current dropSender).table r).sendQueue)
      (member : r ∈ k.processes) : s ∈ (k.table r).sendQueue ∧ s ≠ senderPid := by
    by_cases here : r = k.current
    · subst here
      rw [own] at inQueue
      refine ⟨by rw [head]; exact List.mem_cons_of_mem _ inQueue, ?_⟩
      exact fun same => notLater (same ▸ inQueue)
    · rw [queue here] at inQueue
      refine ⟨inQueue, fun same => here ?_⟩
      have other := (delivers.queued r member s inQueue).2.2
      rw [same, stage] at other
      exact (congrArg Prod.fst (Option.some.inj other)).symm
  have pending_eq (r : Ref) (s : Nat) : pending k r s =
      (if k.current = r ∧ senderPid = s then [(k.table senderPid).msg] else []) ++
        pending (k.modify k.current dropSender) r s := by
    unfold pending
    rw [notifyQueue, msg]
    by_cases here : r = k.current
    · subst here
      rw [own, head, noNotification]
      by_cases same : s = senderPid
      · subst same
        simp [notLater, notesFrom]
      · simp [same, Ne.symm same, notesFrom]
    · rw [if_neg (show ¬ (k.current = r ∧ senderPid = s) from
        fun both => here both.1.symm), queue here]
      rfl
  refine ⟨fun r member s => ?_, fun r gone s => ?_, fun r beyond => ?_,
    fun r member s inQueue => ?_, fun r member => ?_, fun r member s inList => ?_,
    fun r member => ?_⟩
  · change sentTo s r (.received k.current senderPid (k.table senderPid).msg :: k.log) =
      receivedFrom r s (.received k.current senderPid (k.table senderPid).msg :: k.log) ++
        pending (k.modify k.current dropSender) r s
    rw [sent_to_received, received_from_received, delivers.order r member s, pending_eq,
      List.append_assoc]
  · have apart : k.current ≠ r := fun same => gone (same ▸ caller)
    change receivedFrom r s (.received k.current senderPid (k.table senderPid).msg :: k.log) <+:
      sentTo s r (.received k.current senderPid (k.table senderPid).msg :: k.log)
    simpa [apart] using delivers.gone r gone s
  · have apart : k.current ≠ r := Nat.ne_of_lt (Nat.lt_of_lt_of_le below beyond)
    obtain ⟨silent, none⟩ := delivers.future r beyond
    refine ⟨fun s => ?_, (if_neg apart).trans none⟩
    change sentTo s r (.received k.current senderPid (k.table senderPid).msg :: k.log) = [] ∧
      receivedFrom r s (.received k.current senderPid (k.table senderPid).msg :: k.log) = []
    simpa [apart] using silent s
  · obtain ⟨inside, other⟩ := still inQueue member
    obtain ⟨known, waits, queued⟩ := delivers.queued r member s inside
    exact ⟨known, (state s).trans waits,
      (current_send_of_other_received (Or.inl (Ne.symm other))).trans queued⟩
  · change ((k.modify k.current dropSender).table r).sendQueue.Nodup
    by_cases here : r = k.current
    · subst here
      rw [own]
      exact nodupRest
    · rw [queue here]
      exact delivers.once r member
  · have cases_owed : (r = k.current ∧ s = senderPid) ∨ s ∈ owed r k.log := by
      change s ∈ (if k.current = r then senderPid :: owed r k.log else owed r k.log) at inList
      by_cases here : k.current = r
      · rw [if_pos here] at inList
        rcases List.mem_cons.mp inList with same | later
        · exact Or.inl ⟨here.symm, same⟩
        · exact Or.inr later
      · rw [if_neg here] at inList
        exact Or.inr inList
    rcases cases_owed with ⟨rfl, rfl⟩ | old
    · exact ⟨live, (state s).trans sending, current_send_delivered stage⟩
    · obtain ⟨known, waits, received⟩ := delivers.owes r member s old
      refine ⟨known, (state s).trans waits, ?_⟩
      have other : s ≠ senderPid := by
        rintro rfl
        rw [stage] at received
        cases received
      exact (current_send_of_other_received (Or.inl (Ne.symm other))).trans received
  · change (if k.current = r then senderPid :: owed r k.log else owed r k.log).Nodup
    split
    · refine List.nodup_cons.mpr ⟨fun inList => ?_, delivers.owesOnce r member⟩
      have received := (delivers.owes r member senderPid inList).2.2
      rw [stage] at received
      cases received
    · exact delivers.owesOnce r member

theorem delivers_answered {target : Ref} (owing : target ∈ owed k.current k.log) :
    Delivers ((k.modify target (setResult 0)).record (.replied k.current target)) := by
  have caller := sound.stable.registered.current
  have below := sound.stable.registered.created k.current caller
  have sendQueue (r : Ref) := k.modify_keeps target r (setResult 0) Process.sendQueue rfl
  have notifyQueue (r : Ref) := k.modify_keeps target r (setResult 0) Process.notifyQueue rfl
  have msg (r : Ref) := k.modify_keeps target r (setResult 0) Process.msg rfl
  have state {s : Ref} (other : s ≠ target) :
      (k.modify target (setResult 0)).table s = k.table s := k.table_modify_of_ne _ _ _ other
  have stage := (delivers.owes k.current caller target owing).2.2
  have pending_eq (r s : Nat) :
      pending (k.modify target (setResult 0)) r s = pending k r s := by
    unfold pending
    rw [notifyQueue, sendQueue, msg]
  refine ⟨fun r member s => ?_, fun r gone s => ?_, fun r beyond => ?_,
    fun r member s inQueue => ?_, fun r member => ?_, fun r member s inList => ?_,
    fun r member => ?_⟩
  · change sentTo s r (.replied k.current target :: k.log) =
      receivedFrom r s (.replied k.current target :: k.log) ++
        pending (k.modify target (setResult 0)) r s
    rw [sent_to_replied, received_from_replied, pending_eq]
    exact delivers.order r member s
  · change receivedFrom r s (.replied k.current target :: k.log) <+:
      sentTo s r (.replied k.current target :: k.log)
    rw [sent_to_replied, received_from_replied]
    exact delivers.gone r gone s
  · have apart : k.current ≠ r := Nat.ne_of_lt (Nat.lt_of_lt_of_le below beyond)
    obtain ⟨silent, none⟩ := delivers.future r beyond
    refine ⟨fun s => ?_, (if_neg apart).trans none⟩
    change sentTo s r (.replied k.current target :: k.log) = [] ∧
      receivedFrom r s (.replied k.current target :: k.log) = []
    rw [sent_to_replied, received_from_replied]
    exact silent s
  · change s ∈ ((k.modify target (setResult 0)).table r).sendQueue at inQueue
    rw [sendQueue] at inQueue
    obtain ⟨known, sending, queued⟩ := delivers.queued r member s inQueue
    have other : s ≠ target := by
      rintro rfl
      rw [stage] at queued
      cases queued
    exact ⟨known, by rw [← sending, ← state other]; rfl,
      (current_send_of_other_reply (Ne.symm other)).trans queued⟩
  · change ((k.modify target (setResult 0)).table r).sendQueue.Nodup
    rw [sendQueue]
    exact delivers.once r member
  · have old : s ∈ owed r k.log ∧ s ≠ target := by
      change s ∈ (if k.current = r then (owed r k.log).erase target else owed r k.log) at inList
      by_cases here : k.current = r
      · subst here
        rw [if_pos rfl] at inList
        have known := (delivers.owesOnce k.current caller).mem_erase_iff.mp inList
        exact ⟨known.2, known.1⟩
      · rw [if_neg here] at inList
        refine ⟨inList, ?_⟩
        rintro rfl
        have other := (delivers.owes r member s inList).2.2
        rw [stage] at other
        exact here (congrArg Prod.fst (Option.some.inj other))
    obtain ⟨known, sending, received⟩ := delivers.owes r member s old.1
    exact ⟨known, by rw [← sending, ← state old.2]; rfl,
      (current_send_of_other_reply (Ne.symm old.2)).trans received⟩
  · change (if k.current = r then (owed r k.log).erase target else owed r k.log).Nodup
    split
    · exact (delivers.owesOnce r member).erase _
    · exact delivers.owesOnce r member

theorem delivers_notified_direct {target : Ref} (live : target ∈ k.processes)
    (waiting : (k.table target).state = .receiveBlocked) (words : Message) :
    Delivers ((k.record (.notified k.current target words)).record
      (.heard target k.current words)) := by
  have below := sound.stable.registered.created target live
  refine ⟨fun r member s => ?_, fun r gone s => ?_, fun r beyond => ?_, delivers.queued,
    delivers.once, delivers.owes, delivers.owesOnce⟩
  · change sentTo s r (.heard target k.current words :: .notified k.current target words ::
      k.log) = receivedFrom r s (.heard target k.current words ::
        .notified k.current target words :: k.log) ++ pending k r s
    rw [sent_to_heard, sent_to_notified, received_from_heard, received_from_notified,
      delivers.order r member s]
    by_cases here : target = r ∧ k.current = s
    · obtain ⟨rfl, rfl⟩ := here
      simp [pending_of_waiting sound live waiting]
    · rw [if_neg here, if_neg fun both => here both.symm]
      simp
  · have apart : target ≠ r := fun same => gone (same ▸ live)
    change receivedFrom r s (.heard target k.current words ::
      .notified k.current target words :: k.log) <+: sentTo s r (.heard target k.current words ::
        .notified k.current target words :: k.log)
    simpa [apart] using delivers.gone r gone s
  · have apart : target ≠ r := Nat.ne_of_lt (Nat.lt_of_lt_of_le below beyond)
    obtain ⟨silent, none⟩ := delivers.future r beyond
    refine ⟨fun s => ?_, none⟩
    change sentTo s r (.heard target k.current words :: .notified k.current target words ::
      k.log) = [] ∧ receivedFrom r s (.heard target k.current words ::
        .notified k.current target words :: k.log) = []
    simpa [apart] using silent s

theorem delivers_notified_queued {target : Ref} (live : target ∈ k.processes)
    {node : NotifyNode} (sender : node.senderPid = k.current) :
    Delivers (notifiedQueued k target node) := by
  have idle := not_sending_of_running sound.running
  have below := sound.stable.registered.created target live
  have sendQueue (r : Ref) := k.modify_keeps target r (appendNotify node) Process.sendQueue rfl
  have state (r : Ref) := k.modify_keeps target r (appendNotify node) Process.state rfl
  have msg (r : Ref) := k.modify_keeps target r (appendNotify node) Process.msg rfl
  have pending_eq (r : Ref) (member : r ∈ k.processes) (s : Nat) :
      pending (k.modify target (appendNotify node)) r s =
        pending k r s ++ if k.current = s ∧ target = r then [node.msg] else [] := by
    unfold pending
    rw [sendQueue, msg]
    by_cases here : r = target
    · subst here
      rw [KernelState.table_modify_self, appendNotify, notes_from_append, sender]
      by_cases own : k.current = s
      · -- the sender runs, so it has no blocking send in the queue behind its notification
        subst own
        simp [delivers.not_queued member idle]
      · simp [own]
    · rw [KernelState.table_modify_of_ne _ _ _ _ here]
      simp [Ne.symm here]
  refine ⟨fun r member s => ?_, fun r gone s => ?_, fun r beyond => ?_,
    fun r member s inQueue => ?_, fun r member => ?_, fun r member s inList => ?_,
    fun r member => delivers.owesOnce r member⟩
  · change sentTo s r (.notified k.current target node.msg :: k.log) =
      receivedFrom r s (.notified k.current target node.msg :: k.log) ++
        pending (k.modify target (appendNotify node)) r s
    rw [sent_to_notified, received_from_notified, pending_eq r member,
      delivers.order r member s, List.append_assoc]
  · have apart : target ≠ r := fun same => gone (same ▸ live)
    change receivedFrom r s (.notified k.current target node.msg :: k.log) <+:
      sentTo s r (.notified k.current target node.msg :: k.log)
    simpa [apart] using delivers.gone r gone s
  · have apart : target ≠ r := Nat.ne_of_lt (Nat.lt_of_lt_of_le below beyond)
    obtain ⟨silent, none⟩ := delivers.future r beyond
    refine ⟨fun s => ?_, none⟩
    change sentTo s r (.notified k.current target node.msg :: k.log) = [] ∧
      receivedFrom r s (.notified k.current target node.msg :: k.log) = []
    simpa [apart] using silent s
  · change s ∈ ((k.modify target (appendNotify node)).table r).sendQueue at inQueue
    rw [sendQueue] at inQueue
    obtain ⟨known, sending, queued⟩ := delivers.queued r member s inQueue
    exact ⟨known, (state s).trans sending, queued⟩
  · change ((k.modify target (appendNotify node)).table r).sendQueue.Nodup
    rw [sendQueue]
    exact delivers.once r member
  · obtain ⟨known, sending, received⟩ := delivers.owes r member s inList
    exact ⟨known, (state s).trans sending, received⟩

theorem delivers_started {proc : Process} (new : IsNew k proc) : Delivers (started k proc) := by
  have registered := sound.stable.registered
  have old (r : Ref) (member : r ∈ k.processes) : (started k proc).table r = k.table r :=
    if_neg (Nat.ne_of_lt (registered.created r member))
  have own : (started k proc).table k.nextRef = proc := if_pos rfl
  have cases_mem (r : Ref) (member : r ∈ (started k proc).processes) :
      r ∈ k.processes ∨ r = k.nextRef := by
    simpa [started] using member
  have absent : k.nextRef ∉ k.processes :=
    fun member => Nat.lt_irrefl _ (registered.created _ member)
  refine ⟨fun r member s => ?_, fun r gone s => ?_, fun r beyond => ?_,
    fun r member s inQueue => ?_, fun r member => ?_, fun r member s inList => ?_,
    fun r member => ?_⟩
  · change sentTo s r k.log = receivedFrom r s k.log ++ pending (started k proc) r s
    rcases cases_mem r member with known | rfl
    · have pending_eq : pending (started k proc) r s = pending k r s := by
        unfold pending
        rw [old r known]
        by_cases inQueue : s ∈ (k.table r).sendQueue
        · rw [if_pos inQueue, if_pos inQueue, old s (delivers.queued r known s inQueue).1]
        · rw [if_neg inQueue, if_neg inQueue]
      rw [pending_eq]
      exact delivers.order r known s
    · obtain ⟨silent, _⟩ := delivers.future k.nextRef (Nat.le_refl _)
      have pending_eq : pending (started k proc) k.nextRef s = [] := by
        simp [pending, own, new.sendQueue, new.notifyQueue, notesFrom]
      rw [(silent s).1, (silent s).2, pending_eq]
      rfl
  · exact delivers.gone r (fun known => gone (List.mem_append_left _ known)) s
  · exact delivers.future r (Nat.le_of_succ_le beyond)
  · rcases cases_mem r member with known | rfl
    · rw [old r known] at inQueue
      obtain ⟨alive, sending, queued⟩ := delivers.queued r known s inQueue
      refine ⟨List.mem_append_left _ alive, ?_, queued⟩
      rw [old s alive]
      exact sending
    · rw [own, new.sendQueue] at inQueue
      cases inQueue
  · rcases cases_mem r member with known | rfl
    · rw [old r known]
      exact delivers.once r known
    · rw [own, new.sendQueue]
      exact List.nodup_nil
  · rcases cases_mem r member with known | rfl
    · obtain ⟨alive, sending, received⟩ := delivers.owes r known s inList
      refine ⟨List.mem_append_left _ alive, ?_, received⟩
      rw [old s alive]
      exact sending
    · have none : owed k.nextRef k.log = [] := (delivers.future _ (Nat.le_refl _)).2
      change s ∈ owed k.nextRef k.log at inList
      rw [none] at inList
      cases inList
  · rcases cases_mem r member with known | rfl
    · exact delivers.owesOnce r known
    · change (owed k.nextRef k.log).Nodup
      rw [(delivers.future _ (Nat.le_refl _)).2]
      exact List.nodup_nil

theorem delivers_exit (exit : ExitOutcome k k') : Delivers k' := by
  have registered := sound.stable.registered
  have idle := not_sending_of_running sound.running
  have mem_iff (r : Ref) : r ∈ k'.processes ↔ r ≠ k.current ∧ r ∈ k.processes := by
    rw [exit.processes]
    exact registered.nodup.mem_erase_iff
  have fields {r : Ref} (known : r ∈ k.processes) (other : r ≠ k.current) :
      (k'.table r).sendQueue = (k.table r).sendQueue ∧
        (k'.table r).notifyQueue = (k.table r).notifyQueue ∧
        (k'.table r).msg = (k.table r).msg := by
    rw [exit.table r known other]
    split
    · exact ⟨rfl, rfl, rfl⟩
    · obtain ⟨_, sendQueue, notifyQueue, _, msg, _⟩ := survivor_keeps (k := k) k.current r
      exact ⟨sendQueue, notifyQueue, msg⟩
  -- a sender that is with another process than the dying one is not woken
  have still {r s : Ref} {stage : Stage} (other : r ≠ k.current) (known : s ∈ k.processes)
      (sending : (k.table s).state = .sendBlocked)
      (current : currentSend s k.log = some (r, stage)) :
      s ∈ k'.processes ∧ (k'.table s).state = .sendBlocked := by
    have apart : s ≠ k.current := fun same => idle (same ▸ sending)
    refine ⟨(mem_iff s).mpr ⟨apart, known⟩, ?_⟩
    have chosen : s ≠ k'.current := by
      rintro rfl
      rw [exit.next_ready] at sending
      cases sending
    have unqueued : s ∉ (k.table k.current).sendQueue := by
      intro inQueue
      have queued := (delivers.queued _ registered.current s inQueue).2.2
      rw [current] at queued
      exact other (congrArg Prod.fst (Option.some.inj queued))
    rw [exit.table s known apart, if_neg chosen, survivor, if_neg (fun both => unqueued both.1),
      if_neg (by simp [sending])]
    exact sending
  refine ⟨fun r member s => ?_, fun r gone s => ?_, fun r beyond => ?_,
    fun r member s inQueue => ?_, fun r member => ?_, fun r member s inList => ?_,
    fun r member => ?_⟩
  · obtain ⟨other, known⟩ := (mem_iff r).mp member
    obtain ⟨sendQueue, notifyQueue, _⟩ := fields known other
    have pending_eq : pending k' r s = pending k r s := by
      unfold pending
      rw [sendQueue, notifyQueue]
      by_cases inQueue : s ∈ (k.table r).sendQueue
      · obtain ⟨alive, sending, _⟩ := delivers.queued r known s inQueue
        have apart : s ≠ k.current := fun same => idle (same ▸ sending)
        rw [if_pos inQueue, if_pos inQueue, (fields alive apart).2.2]
      · rw [if_neg inQueue, if_neg inQueue]
    rw [exit.log, pending_eq]
    exact delivers.order r known s
  · rw [exit.log]
    by_cases dying : r = k.current
    · subst dying
      rw [delivers.order _ registered.current s]
      exact List.prefix_append _ _
    · exact delivers.gone r (fun known => gone ((mem_iff r).mpr ⟨dying, known⟩)) s
  · rw [exit.nextRef] at beyond
    rw [exit.log]
    exact delivers.future r beyond
  · obtain ⟨other, known⟩ := (mem_iff r).mp member
    rw [(fields known other).1] at inQueue
    obtain ⟨alive, sending, queued⟩ := delivers.queued r known s inQueue
    obtain ⟨member', sending'⟩ := still other alive sending queued
    exact ⟨member', sending', exit.log ▸ queued⟩
  · obtain ⟨other, known⟩ := (mem_iff r).mp member
    rw [(fields known other).1]
    exact delivers.once r known
  · obtain ⟨other, known⟩ := (mem_iff r).mp member
    rw [exit.log] at inList
    obtain ⟨alive, sending, received⟩ := delivers.owes r known s inList
    obtain ⟨member', sending'⟩ := still other alive sending received
    exact ⟨member', sending', exit.log ▸ received⟩
  · rw [exit.log]
    exact delivers.owesOnce r ((mem_iff r).mp member).2

end Changes

theorem delivers_step (sound : Sound k) (delivers : Delivers k) {action : Action}
    (replies : RepliesOwed k action) (next : step k action = some k') : Delivers k' := by
  obtain ⟨k₁, change, same⟩ := ipc_step sound next
  refine Delivers.same_queues ?_ same
  cases change with
  | none _ _ => exact delivers
  | sentDirect _ msg dataPtr dataLen _ memory live other waiting =>
      exact delivers_sent_direct sound delivers live other _ msg dataPtr dataLen memory waiting
  | sentQueued _ msg dataPtr dataLen _ live other busy =>
      exact delivers_sent_queued sound delivers live other _ msg dataPtr dataLen
  | heard _ _ _ _ head => exact delivers_heard sound delivers head
  | senderGone _ _ _ _ head _ gone =>
      have live := (delivers.queued _ sound.stable.registered.current _
        (by rw [head]; exact List.mem_cons_self)).1
      exact absurd live gone
  | received _ _ _ _ head noNotification _ =>
      exact delivers_received sound delivers head noNotification
  | answered _ _ _ _ _ _ =>
      have owing : _ ∈ owed (k.table k.current).pid k.log := replies
      rw [sound.stable.registered.pid _ sound.stable.registered.current] at owing
      exact delivers_answered sound delivers owing
  | notifiedDirect _ _ _ _ _ _ live _ waiting =>
      exact delivers_notified_direct sound delivers live waiting _
  | notifiedQueued _ _ _ _ _ _ live _ _ sender =>
      exact delivers_notified_queued sound delivers live sender
  | started _ _ _ _ new => exact delivers_started sound delivers new
  | exited _ exit => exact delivers_exit sound delivers exit

theorem delivers_bare (cr3 : Nat) (memory : Nat → Nat → UInt8) :
    Delivers (bare cr3 memory) where
  order := fun _ _ _ => rfl
  gone := fun _ _ _ => List.nil_prefix
  future := fun _ _ => ⟨fun _ => ⟨rfl, rfl⟩, rfl⟩
  queued := fun _ _ _ inQueue => absurd inQueue List.not_mem_nil
  once := fun _ _ => List.nodup_nil
  owes := fun _ _ _ inList => absurd inList List.not_mem_nil
  owesOnce := fun _ _ => List.nodup_nil

theorem delivers_of_reaches
    (reached : Reaches (fun k action => FreshPid k action ∧ RepliesOwed k action) k) :
    Sound k ∧ Delivers k := by
  obtain ⟨cr3, memory, modules, few, run⟩ := reached
  refine run.invariant (fun k => Sound k ∧ Delivers k) ?_ ?_
  · exact boot_induction Delivers (delivers_bare cr3 memory)
      (fun _ _ sound _ new delivers => delivers_started sound delivers new) few
  · intro k action k' inv admitted next
    exact ⟨sound_step inv.1 admitted.1 next, delivers_step inv.1 inv.2 admitted.2 next⟩

end CassiOS.Kernel.Delivery
