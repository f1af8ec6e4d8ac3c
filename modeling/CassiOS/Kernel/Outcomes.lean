import CassiOS.Kernel.Invariant

/-!
# Outcomes of the system call handlers

For each handler, the states it can return and when, while PIDs have not wrapped. User
memory is left open: no later argument depends on it.
-/

namespace CassiOS.Kernel.Outcomes

open CassiOS.Support.Words
open CassiOS.Kernel.State
open CassiOS.Kernel.ProcessManager
open CassiOS.Kernel.Scheduler
open CassiOS.Kernel.Irq
open CassiOS.Kernel.Syscall
open CassiOS.Kernel.System
open CassiOS.Kernel.ProcessTable

set_option autoImplicit false

variable {k : KernelState}

theorem deliver_eq (k : KernelState) (target : Ref) (msg : Message)
    (dataPtr dataLen eax : Nat) :
    ∃ memory, deliver k target msg dataPtr dataLen eax =
      withMemory (k.modify target (setResult eax)) memory := by
  unfold deliver copyBulk
  dsimp only
  split <;> exact ⟨_, rfl⟩

/-! ## Answers -/

theorem handle_send (k : KernelState) (esp targetPid msg dataPtr dataLen : Nat) (node : Bool) :
    handleSyscall k esp (.send targetPid msg dataPtr dataLen node) =
      blockOrReturn (send k targetPid msg dataPtr dataLen node).1 esp
        (send k targetPid msg dataPtr dataLen node).2 := rfl

theorem handle_notify (k : KernelState) (esp targetPid msg dataPtr dataLen : Nat)
    (node data : Bool) :
    handleSyscall k esp (.notify targetPid msg dataPtr dataLen node data) =
      (returnValue (notify k targetPid msg dataPtr dataLen node data).1
        (asU32 (notify k targetPid msg dataPtr dataLen node data).2), esp) := rfl

theorem handle_receive (k : KernelState) (esp msg dataPtr dataCapacity : Nat) :
    handleSyscall k esp (.receive msg dataPtr dataCapacity) =
      if (receive k msg dataPtr dataCapacity).2 = -2 ∨ (receive k msg dataPtr dataCapacity).2 = -3
      then (returnValue (receive k msg dataPtr dataCapacity).1 0, esp)
      else blockOrReturn (receive k msg dataPtr dataCapacity).1 esp
        (receive k msg dataPtr dataCapacity).2 := rfl

theorem frame_eax_return_value {k : KernelState} {r : Ref} (current : k.current = r) (eax : Nat) :
    ((returnValue k eax).table r).frameEax = eax := by
  rw [returnValue, current, KernelState.table_modify_self]

/-! ## Sending -/

/-- The caller has delivered its message to a waiting process and blocks. -/
def sentDirect (k : KernelState) (target : Ref) (words : Message)
    (msg dataPtr dataLen : Nat) (memory : Nat → Nat → UInt8) : KernelState :=
  (((withMemory ((k.modify k.current (outgoing words msg dataPtr dataLen)).modify target
      (setResult k.current)) memory).record (.sent k.current target words)).record
      (.received target k.current words)).modify k.current (block .sendBlocked)

def sentQueued (k : KernelState) (target : Ref) (words : Message)
    (msg dataPtr dataLen : Nat) : KernelState :=
  (((k.modify k.current (outgoing words msg dataPtr dataLen)).modify target
      (appendSender k.current)).record (.sent k.current target words)).modify k.current
      (block .sendBlocked)

inductive SendOutcome (k : KernelState) (targetPid msg dataPtr dataLen : Nat) :
    KernelState × Int → Prop
  | refused : SendOutcome k targetPid msg dataPtr dataLen (k, -1)
  | direct (memory : Nat → Nat → UInt8) (live : targetPid ∈ k.processes)
      (other : targetPid ≠ k.current) (waiting : (k.table targetPid).state = .receiveBlocked) :
      SendOutcome k targetPid msg dataPtr dataLen
        (sentDirect k targetPid (readMessage k msg) msg dataPtr dataLen memory, 0)
  | queueFull : SendOutcome k targetPid msg dataPtr dataLen
        (k.modify k.current (outgoing (readMessage k msg) msg dataPtr dataLen), -1)
  | queued (live : targetPid ∈ k.processes) (other : targetPid ≠ k.current)
      (busy : (k.table targetPid).state ≠ .receiveBlocked) :
      SendOutcome k targetPid msg dataPtr dataLen
        (sentQueued k targetPid (readMessage k msg) msg dataPtr dataLen, 0)

theorem send_outcome (registered : Registered k) (targetPid msg dataPtr dataLen : Nat)
    (node : Bool) : SendOutcome k targetPid msg dataPtr dataLen
      (send k targetPid msg dataPtr dataLen node) := by
  unfold send
  cases found : get k targetPid with
  | none => exact .refused
  | some target =>
      obtain ⟨rfl, live⟩ := registered.get_eq_some.mp found
      by_cases self : target = k.current
      · simp only [if_pos self]
        exact .refused
      · have pid : (k.table target).pid = target := registered.pid target live
        have callerPid : (k.table k.current).pid = k.current :=
          registered.pid _ registered.current
        have target_eq : (k.modify k.current
            (outgoing (readMessage k msg) msg dataPtr dataLen)).table target =
              k.table target := k.table_modify_of_ne _ _ _ self
        simp only [if_neg self, target_eq, callerPid]
        by_cases waiting : (k.table target).state = .receiveBlocked
        · simp only [if_pos waiting]
          obtain ⟨memory, delivered⟩ := deliver_eq
            (k.modify k.current (outgoing (readMessage k msg) msg dataPtr dataLen)) target
            (readMessage k msg) dataPtr dataLen k.current
          have kept : (deliver (k.modify k.current
              (outgoing (readMessage k msg) msg dataPtr dataLen)) target (readMessage k msg)
              dataPtr dataLen k.current).table target =
                setResult k.current (k.table target) := by
            rw [delivered]
            change ((k.modify k.current _).modify target _).table target = _
            rw [KernelState.table_modify_self, target_eq]
          simp only [kept]
          rw [delivered]
          have named : (setResult k.current (k.table target)).pid = target := pid
          simp only [named]
          exact .direct memory live self waiting
        · simp only [if_neg waiting]
          cases node with
          | false => exact .queueFull
          | true =>
              have outcome : SendOutcome k target msg dataPtr dataLen _ :=
                .queued live self waiting
              rw [sentQueued, ← KernelState.modify_const _ target, target_eq] at outcome
              simp only [sendQueuePush, if_pos, KernelState.table_modify_self]
              rw [show (appendSender k.current (k.table target)).pid = target from pid]
              exact outcome

/-! ## Receiving -/

/-- No interrupt of a line registered to `r` waits to be delivered. -/
def NonePending (k : KernelState) (r : Ref) : Prop :=
  ∀ irq, irq < irqLines → k.forwardPid irq = r → k.pendingIrq irq = false

inductive ReceiveOutcome (k : KernelState) (msg dataPtr dataCapacity : Nat) :
    KernelState × Int → Prop
  | interrupt (irq : Nat) (memory : Nat → Nat → UInt8) (line : irq < irqLines)
      (owner : k.forwardPid irq = k.current) (pending : k.pendingIrq irq = true) :
      ReceiveOutcome k msg dataPtr dataCapacity
        (withMemory (setPending (k.modify k.current (receiveBuffer dataPtr dataCapacity))
          irq false) memory, -2)
  | notification (node : NotifyNode) (rest : List NotifyNode) (memory : Nat → Nat → UInt8)
      (none : NonePending k k.current)
      (head : (k.table k.current).notifyQueue = node :: rest) :
      ReceiveOutcome k msg dataPtr dataCapacity
        ((withMemory ((k.modify k.current (receiveBuffer dataPtr dataCapacity)).modify
          k.current dropNotify) memory).record (.heard k.current node.senderPid node.msg), -3)
  | senderGone (senderPid : Nat) (rest : List Nat)
      (head : (k.table k.current).sendQueue = senderPid :: rest)
      (noNotification : (k.table k.current).notifyQueue = [])
      (gone : senderPid ∉ k.processes) :
      ReceiveOutcome k msg dataPtr dataCapacity
        ((k.modify k.current (receiveBuffer dataPtr dataCapacity)).modify k.current
          dropSender, -1)
  | sender (senderPid : Nat) (rest : List Nat) (memory : Nat → Nat → UInt8)
      (head : (k.table k.current).sendQueue = senderPid :: rest)
      (noNotification : (k.table k.current).notifyQueue = [])
      (live : senderPid ∈ k.processes) :
      ReceiveOutcome k msg dataPtr dataCapacity
        ((withMemory ((k.modify k.current (receiveBuffer dataPtr dataCapacity)).modify
          k.current dropSender) memory).record
          (.received k.current senderPid (k.table senderPid).msg), asI32 senderPid)
  | waits (none : NonePending k k.current)
      (noNotification : (k.table k.current).notifyQueue = [])
      (noSender : (k.table k.current).sendQueue = []) :
      ReceiveOutcome k msg dataPtr dataCapacity
        ((k.modify k.current (receiveBuffer dataPtr dataCapacity)).modify k.current
          (waitForMessage msg), 0)

/-- The scan answers whether an interrupt is pending and clears the one it delivers. -/
theorem deliver_pending_cases (k : KernelState) (pid msg : Nat) :
    (NonePending k pid ∧ deliverPending k pid msg = (k, false)) ∨
      ∃ irq memory, irq < irqLines ∧ k.forwardPid irq = pid ∧ k.pendingIrq irq = true ∧
        deliverPending k pid msg = (withMemory (setPending k irq false) memory, true) := by
  unfold deliverPending
  cases found : (List.range irqLines).find? (pendingFor k pid) with
  | none =>
      left
      refine ⟨fun irq line owner => ?_, rfl⟩
      have missed := List.find?_eq_none.mp found irq (List.mem_range.mpr line)
      simpa [pendingFor, owner] using missed
  | some irq =>
      right
      have line := List.mem_range.mp (List.mem_of_find?_eq_some found)
      have selected := List.find?_some found
      simp only [pendingFor, Bool.and_eq_true, decide_eq_true_eq] at selected
      exact ⟨irq, _, line, selected.1, selected.2, rfl⟩

theorem receive_notified_eq (k : KernelState) (msg dataPtr dataCapacity : Nat)
    (node : NotifyNode) (popped : Process) :
    ∃ memory, receiveNotified k msg dataPtr dataCapacity node popped =
      (withMemory (k.modify k.current fun _ => popped) memory).record
        (.heard popped.pid node.senderPid node.msg) := by
  have owner : ((k.modify k.current fun _ => popped).table k.current).pid = popped.pid := by
    rw [KernelState.table_modify_self]
  unfold receiveNotified
  dsimp only
  rw [← owner]
  split <;> exact ⟨_, rfl⟩

theorem table_receive_queued (k : KernelState) (msg dataPtr dataCapacity : Nat) :
    (receiveQueued k msg dataPtr dataCapacity).1.table = (k.modify k.current dropSender).table ∧
      (receiveQueued k msg dataPtr dataCapacity).1.current = k.current ∧
      (receiveQueued k msg dataPtr dataCapacity).1.pendingIrq = k.pendingIrq := by
  unfold receiveQueued sendQueuePop
  simp only [KernelState.modify_const]
  split
  · exact ⟨rfl, rfl, rfl⟩
  · split <;> exact ⟨rfl, rfl, rfl⟩

theorem receive_queued_cases {senderPid : Nat} {rest : List Nat}
    (registered : Registered (k.modify k.current dropSender)) (msg dataPtr dataCapacity : Nat)
    (queue : (k.table k.current).sendQueue = senderPid :: rest) :
    (senderPid ∉ k.processes ∧ receiveQueued k msg dataPtr dataCapacity =
        (k.modify k.current dropSender, -1)) ∨
      (senderPid ∈ k.processes ∧ ∃ memory, receiveQueued k msg dataPtr dataCapacity =
        ((withMemory (k.modify k.current dropSender) memory).record (.received
          ((k.modify k.current dropSender).table k.current).pid senderPid
          ((k.modify k.current dropSender).table senderPid).msg), asI32 senderPid)) := by
  have head : (k.table k.current).sendQueue.headD 0 = senderPid := by rw [queue]; rfl
  have popped := KernelState.modify_const k k.current dropSender
  unfold receiveQueued
  simp only [sendQueuePop, head, popped]
  by_cases live : senderPid ∈ k.processes
  · right
    refine ⟨live, ?_⟩
    rw [registered.get_of_mem live]
    dsimp only
    split <;> exact ⟨_, rfl⟩
  · left
    refine ⟨live, ?_⟩
    rw [registered.get_eq_none.mpr live]

theorem receive_outcome (registered : Registered k) (msg dataPtr dataCapacity : Nat) :
    ReceiveOutcome k msg dataPtr dataCapacity (receive k msg dataPtr dataCapacity) := by
  have callerPid : (k.table k.current).pid = k.current := registered.pid _ registered.current
  have first : Registered (k.modify k.current (receiveBuffer dataPtr dataCapacity)) :=
    registered.modify rfl (registered.live _ registered.current)
  unfold receive
  simp only [KernelState.table_modify_self]
  rw [show (receiveBuffer dataPtr dataCapacity (k.table k.current)).pid = k.current from
    callerPid]
  rcases deliver_pending_cases (k.modify k.current (receiveBuffer dataPtr dataCapacity))
    k.current msg with ⟨none, scanned⟩ | ⟨irq, memory, line, owner, pending, scanned⟩
  · rw [scanned]
    simp only [KernelState.table_modify_self]
    cases notifications : (k.table k.current).notifyQueue with
    | cons node rest =>
        have popped : notifyPop (receiveBuffer dataPtr dataCapacity (k.table k.current)) =
            some (node, dropNotify (receiveBuffer dataPtr dataCapacity
              (k.table k.current))) := by
          rw [notifyPop, show (receiveBuffer dataPtr dataCapacity
            (k.table k.current)).notifyQueue = node :: rest from notifications]
        obtain ⟨memory, received⟩ := receive_notified_eq
          (k.modify k.current (receiveBuffer dataPtr dataCapacity)) msg dataPtr dataCapacity
          node (dropNotify (receiveBuffer dataPtr dataCapacity (k.table k.current)))
        simp only [popped]
        have outcome : ReceiveOutcome k msg dataPtr dataCapacity _ :=
          .notification node rest memory none notifications
        rw [← KernelState.modify_const _ k.current dropNotify,
          KernelState.table_modify_self] at outcome
        rw [received, show (dropNotify (receiveBuffer dataPtr dataCapacity
          (k.table k.current))).pid = k.current from callerPid]
        exact outcome
    | nil =>
        have popped : notifyPop (receiveBuffer dataPtr dataCapacity (k.table k.current)) =
            Option.none := by
          rw [notifyPop, show (receiveBuffer dataPtr dataCapacity
            (k.table k.current)).notifyQueue = [] from notifications]
        simp only [popped]
        cases senders : (k.table k.current).sendQueue with
        | nil =>
            rw [if_neg (not_not_intro (show (receiveBuffer dataPtr dataCapacity
              (k.table k.current)).sendQueue = [] from senders))]
            exact .waits none notifications senders
        | cons senderPid rest =>
            rw [if_pos (show (receiveBuffer dataPtr dataCapacity
              (k.table k.current)).sendQueue ≠ [] from by simp [receiveBuffer, senders])]
            have queue : ((k.modify k.current (receiveBuffer dataPtr dataCapacity)).table
                k.current).sendQueue = senderPid :: rest := by
              rw [KernelState.table_modify_self]
              exact senders
            have popped : Registered ((k.modify k.current
                (receiveBuffer dataPtr dataCapacity)).modify k.current dropSender) :=
              first.modify rfl (first.live _ first.current)
            rcases receive_queued_cases popped msg dataPtr dataCapacity queue with
              ⟨gone, received⟩ | ⟨live, memory, received⟩
            · rw [received]
              exact .senderGone senderPid rest senders notifications gone
            · have owner : (((k.modify k.current (receiveBuffer dataPtr dataCapacity)).modify
                  k.current dropSender).table k.current).pid = k.current :=
                popped.pid _ popped.current
              have words : (((k.modify k.current (receiveBuffer dataPtr dataCapacity)).modify
                  k.current dropSender).table senderPid).msg = (k.table senderPid).msg := by
                rw [KernelState.modify_keeps _ _ _ _ Process.msg rfl,
                  KernelState.modify_keeps _ _ _ _ Process.msg rfl]
              simp only [received, KernelState.current_modify, words, owner]
              exact .sender senderPid rest memory senders notifications live
  · rw [scanned]
    exact .interrupt irq memory line owner pending

/-! ## Replying and notifying -/

inductive ReplyOutcome (k : KernelState) (targetPid : Nat) : KernelState × Int → Prop
  | refused (notWaiting : targetPid ∈ k.processes →
      (k.table targetPid).state ≠ .sendBlocked) : ReplyOutcome k targetPid (k, -1)
  | answered (memory : Nat → Nat → UInt8) (live : targetPid ∈ k.processes)
      (waiting : (k.table targetPid).state = .sendBlocked) :
      ReplyOutcome k targetPid
        ((withMemory (k.modify targetPid (setResult 0)) memory).record
          (.replied k.current targetPid), 0)

theorem reply_outcome (registered : Registered k) (targetPid msg dataPtr dataLen : Nat) :
    ReplyOutcome k targetPid (reply k targetPid msg dataPtr dataLen) := by
  unfold reply
  cases found : get k targetPid with
  | none =>
      exact .refused fun live => absurd live (registered.get_eq_none.mp found)
  | some target =>
      obtain ⟨rfl, live⟩ := registered.get_eq_some.mp found
      by_cases waiting : (k.table target).state = .sendBlocked
      · obtain ⟨memory, delivered⟩ := deliver_eq k target (readMessage k msg) dataPtr dataLen 0
        have named (r : Ref) (member : r ∈ k.processes) :
            ((withMemory (k.modify target (setResult 0)) memory).table r).pid = r := by
          change ((k.modify target (setResult 0)).table r).pid = r
          rw [KernelState.modify_keeps _ _ _ _ Process.pid rfl]
          exact registered.pid r member
        simp only [waiting, ne_eq, not_true_eq_false, if_false, delivered]
        rw [named target live]
        change ReplyOutcome k target ((KernelState.record _ (.replied
          (((withMemory (k.modify target (setResult 0)) memory).table k.current).pid) _)), 0)
        rw [named _ registered.current]
        exact .answered memory live waiting
      · simp only [ne_eq, waiting, not_false_eq_true, if_true]
        exact .refused fun _ => waiting

/-- The caller's notification has reached a waiting process. -/
def notifiedDirect (k : KernelState) (target : Ref) (words : Message)
    (memory : Nat → Nat → UInt8) : KernelState :=
  ((withMemory (k.modify target (setResult 0)) memory).record
    (.notified k.current target words)).record (.heard target k.current words)

def notifiedQueued (k : KernelState) (target : Ref) (node : NotifyNode) : KernelState :=
  (k.modify target (appendNotify node)).record (.notified k.current target node.msg)

inductive NotifyOutcome (k : KernelState) (targetPid msg : Nat) : KernelState × Int → Prop
  | refused : NotifyOutcome k targetPid msg (k, -1)
  | direct (memory : Nat → Nat → UInt8) (live : targetPid ∈ k.processes)
      (other : targetPid ≠ k.current) (waiting : (k.table targetPid).state = .receiveBlocked) :
      NotifyOutcome k targetPid msg
        (notifiedDirect k targetPid (readMessage k msg) memory, 0)
  | queued (node : NotifyNode) (live : targetPid ∈ k.processes)
      (other : targetPid ≠ k.current)
      (busy : (k.table targetPid).state ≠ .receiveBlocked)
      (sender : node.senderPid = k.current) (words : node.msg = readMessage k msg) :
      NotifyOutcome k targetPid msg (notifiedQueued k targetPid node, 0)

theorem notify_push_cases (p : Process) (senderPid : Nat) (m : Message)
    (bytes : Nat → UInt8) (dataPtr dataLen : Nat) (node data : Bool) :
    notifyPush p senderPid m bytes dataPtr dataLen node data = none ∨
      ∃ pushed : NotifyNode, pushed.senderPid = senderPid ∧ pushed.msg = m ∧
        notifyPush p senderPid m bytes dataPtr dataLen node data =
          some (appendNotify pushed p) := by
  unfold notifyPush
  cases node with
  | false => exact Or.inl rfl
  | true =>
      by_cases bulk : dataPtr ≠ 0 ∧ 0 < dataLen
      · cases data with
        | false => exact Or.inl (by simp [bulk])
        | true => exact Or.inr ⟨⟨senderPid, m, bytes, dataLen⟩, rfl, rfl, by simp [bulk]⟩
      · exact Or.inr ⟨⟨senderPid, m, fun _ => 0, 0⟩, rfl, rfl, by rw [if_neg bulk]; rfl⟩

theorem notify_outcome (registered : Registered k) (targetPid msg dataPtr dataLen : Nat)
    (node data : Bool) :
    NotifyOutcome k targetPid msg (notify k targetPid msg dataPtr dataLen node data) := by
  unfold notify
  cases found : get k targetPid with
  | none => exact .refused
  | some target =>
      obtain ⟨rfl, live⟩ := registered.get_eq_some.mp found
      by_cases self : target = k.current
      · simp only [if_pos self]
        exact .refused
      · have pid : (k.table target).pid = target := registered.pid target live
        have callerPid : (k.table k.current).pid = k.current :=
          registered.pid _ registered.current
        simp only [if_neg self, callerPid]
        by_cases waiting : (k.table target).state = .receiveBlocked
        · simp only [if_pos waiting]
          obtain ⟨memory, delivered⟩ := deliver_eq k target (readMessage k msg) dataPtr
            dataLen 0
          have named :
              ((withMemory (k.modify target (setResult 0)) memory).table target).pid =
                target := by
            change ((k.modify target (setResult 0)).table target).pid = target
            rw [KernelState.table_modify_self]
            exact pid
          simp only [delivered, named]
          exact .direct memory live self waiting
        · simp only [if_neg waiting]
          rcases notify_push_cases (k.table target) k.current (readMessage k msg)
            (readBytes k.memory k.cr3 dataPtr) dataPtr dataLen node data with
            full | ⟨pushed, sender, words, stored⟩
          · rw [full]
            exact .refused
          · rw [stored]
            simp only [KernelState.modify_const k target (appendNotify pushed),
              KernelState.table_modify_self]
            rw [show (appendNotify pushed (k.table target)).pid = target from pid, ← words]
            exact .queued pushed live self waiting sender words

/-! ## Starting and waiting for processes -/

def started (k : KernelState) (proc : Process) : KernelState :=
  { k with
    table := fun q => if q = k.nextRef then proc else k.table q
    processes := k.processes ++ [k.nextRef]
    nextPid := u32 (k.nextPid + 1)
    nextRef := k.nextRef + 1 }

/-- A new process is ready, has PID `nextPid` and empty queues. -/
structure IsNew (k : KernelState) (proc : Process) : Prop where
  pid : proc.pid = k.nextPid
  state : proc.state = .ready
  sendQueue : proc.sendQueue = []
  notifyQueue : proc.notifyQueue = []

theorem spawn_cases (k : KernelState) (loading : Loading) (userCS userDS : Nat) :
    (¬ (loading.userStackFrame ≠ 0 ∧ loading.kernelStackFrame ≠ 0 ∧
        loading.process = true) ∧ spawn k loading userCS userDS = (k, none)) ∨
      ((loading.userStackFrame ≠ 0 ∧ loading.kernelStackFrame ≠ 0 ∧
        loading.process = true) ∧ ∃ proc, IsNew k proc ∧
          spawn k loading userCS userDS = (started k proc, some k.nextRef)) := by
  unfold spawn
  by_cases userStack : loading.userStackFrame = 0
  · exact Or.inl ⟨fun all => all.1 userStack, if_pos userStack⟩
  rw [if_neg userStack]
  by_cases kernelStack : loading.kernelStackFrame = 0
  · exact Or.inl ⟨fun all => all.2.1 kernelStack, if_pos kernelStack⟩
  rw [if_neg kernelStack]
  cases process : loading.process with
  | false => exact Or.inl ⟨fun all => Bool.noConfusion all.2.2, rfl⟩
  | true =>
      refine Or.inr ⟨⟨userStack, kernelStack, rfl⟩, ?_⟩
      let top := u32 (loading.kernelStackFrame + kernelVbase + frameSize)
      refine ⟨{ freshProcess k.nextPid (u32 (top + 4294967296 - 76)) userCS userDS
          loading.pdPhysical with
            kernelEsp := top
            heapBase := loading.heapStart
            heapBreak := loading.heapStart }, ⟨rfl, rfl, rfl, rfl⟩, ?_⟩
      simp only [create, if_true, KernelState.modify, started, Prod.mk.injEq, and_true,
        KernelState.mk.injEq]
      funext q
      by_cases new : q = k.nextRef
      · simp only [new, if_true]
        rfl
      · simp only [new, if_false]

inductive ExecOutcome (k : KernelState) (elfPtr elfSize : Nat) (loading : Loading) :
    KernelState × Nat → Prop
  | failed (missing : ¬ Starts elfPtr elfSize loading) :
      ExecOutcome k elfPtr elfSize loading (k, 0)
  | child (proc : Process) (starts : Starts elfPtr elfSize loading) (new : IsNew k proc) :
      ExecOutcome k elfPtr elfSize loading (started k proc, k.nextPid)

theorem exec_outcome (k : KernelState) (elfPtr elfSize : Nat) (loading : Loading) :
    ExecOutcome k elfPtr elfSize loading (exec k elfPtr elfSize loading) := by
  unfold exec
  by_cases arguments : elfPtr = 0 ∨ elfSize = 0
  · rw [if_pos arguments]
    exact .failed fun all => arguments.elim all.1 all.2.1
  rw [if_neg arguments]
  cases buffer : loading.buffer with
  | false => exact .failed fun all => by simp [Starts, buffer] at all
  | true =>
      by_cases pd : loading.pdPhysical = 0
      · simp only [pd, if_true]
        exact .failed fun all => all.2.2.2.1 pd
      cases success : loading.success with
      | false => 
          simp only [pd]
          exact .failed fun all => by simp [Starts, success] at all
      | true =>
          simp only [pd, Bool.not_true, Bool.false_eq_true, if_false]
          rcases spawn_cases k loading (k.table k.current).cs (k.table k.current).ds with
            ⟨missing, spawned⟩ | ⟨allocated, proc, new, spawned⟩
          · rw [spawned]
            exact .failed fun all => missing all.2.2.2.2.2
          · rw [spawned]
            have pid : ((started k proc).table k.nextRef).pid = k.nextPid := by
              simp only [started, if_true]
              exact new.pid
            simp only [pid]
            rw [not_or] at arguments
            exact .child proc ⟨arguments.1, arguments.2, buffer, pd, success, allocated⟩ new

inductive WaitOutcome (k : KernelState) (pid : Nat) : KernelState × Int → Prop
  | refused : WaitOutcome k pid (k, -1)
  | waits (live : pid ∈ k.processes) (other : pid ≠ k.current) :
      WaitOutcome k pid (k.modify k.current (waitFor pid), 0)

theorem waitpid_outcome (registered : Registered k) (pid : Nat) :
    WaitOutcome k pid (waitpid k pid) := by
  unfold waitpid
  cases found : get k pid with
  | none => exact .refused
  | some target =>
      obtain ⟨rfl, live⟩ := registered.get_eq_some.mp found
      by_cases self : target = k.current
      · simp only [if_pos self]
        exact .refused
      · simp only [if_neg self]
        exact .waits live self

/-! ## Interrupts -/

inductive ForwardOutcome (k : KernelState) (irq : Nat) : KernelState → Prop
  | ignored : ForwardOutcome k irq k
  | delivered (memory : Nat → Nat → UInt8) (live : k.forwardPid irq ∈ k.processes)
      (waiting : (k.table (k.forwardPid irq)).state = .receiveBlocked) :
      ForwardOutcome k irq (withMemory (k.modify (k.forwardPid irq) (setResult 0)) memory)
  | pending (line : irq < irqLines) (live : k.forwardPid irq ∈ k.processes)
      (busy : (k.table (k.forwardPid irq)).state ≠ .receiveBlocked) :
      ForwardOutcome k irq (setPending k irq true)

theorem handle_irq_forward (k : KernelState) (number esp : Nat) :
    (handleIrq k number esp).1 = forward (runHandler k (lineOf number) esp).1 (lineOf number) :=
  rfl

theorem forward_outcome (registered : Registered k) (irq : Nat) :
    ForwardOutcome k irq (forward k irq) := by
  unfold forward
  by_cases forwarded : irq < irqLines ∧ k.forwardPid irq ≠ 0
  · rw [if_pos forwarded]
    cases found : get k (k.forwardPid irq) with
    | none => exact .ignored
    | some target =>
        obtain ⟨rfl, live⟩ := registered.get_eq_some.mp found
        by_cases waiting : (k.table (k.forwardPid irq)).state = .receiveBlocked
        · simp only [if_pos waiting]
          exact .delivered _ live waiting
        · simp only [if_neg waiting]
          exact .pending forwarded.1 live waiting
  · rw [if_neg forwarded]
    exact .ignored

/-! ## Steps -/

/-- What each action leaves and the guard it passed; an interrupt forwards its line last. -/
inductive Stepped (k : KernelState) : Action → KernelState → Prop
  | user (bytes : Nat → UInt8) (user : k.current ≠ kernelTask) :
      Stepped k (.user bytes) (runUser k bytes)
  | irq (number esp : Nat) (high : kernelVbase ≤ esp) :
      Stepped k (.irq number esp) (forward (runHandler k (lineOf number) esp).1 (lineOf number))
  | syscall (esp : Nat) (call : Call) (user : k.current ≠ kernelTask)
      (high : kernelVbase ≤ esp) :
      Stepped k (.syscall esp call) (handleSyscall k esp call).1

theorem stepped {action : Action} {k' : KernelState} (next : step k action = some k') :
    Stepped k action k' := by
  cases action with
  | user bytes =>
      by_cases user : k.current ≠ kernelTask
      · rw [step, if_pos user] at next
        obtain rfl := Option.some.inj next
        exact .user bytes user
      · rw [step, if_neg user] at next
        cases next
  | syscall esp call =>
      by_cases possible : k.current ≠ kernelTask ∧ kernelVbase ≤ esp
      · rw [step, if_pos possible] at next
        obtain rfl := Option.some.inj next
        exact .syscall esp call possible.1 possible.2
      · rw [step, if_neg possible] at next
        cases next
  | irq number esp =>
      by_cases possible : kernelVbase ≤ esp
      · rw [step, if_pos possible] at next
        obtain rfl := Option.some.inj next
        rw [handle_irq_forward]
        exact .irq number esp possible
      · rw [step, if_neg possible] at next
        cases next

end CassiOS.Kernel.Outcomes
