import CassiOS.Kernel.ChunkedCopy
import CassiOS.Kernel.Outcomes
import CassiOS.Kernel.Invariant

/-!
# The two orders of a delivery

A process may wait in `receive` when a message is sent to it, or fetch it later from one of
its queues. Its buffers and the value its call returns are the same either way.
-/

namespace CassiOS.Kernel.DeliveryOrders

open CassiOS.Support.Words
open CassiOS.Kernel.State
open CassiOS.Kernel.ProcessManager
open CassiOS.Kernel.Scheduler
open CassiOS.Kernel.Irq
open CassiOS.Kernel.Syscall
open CassiOS.Kernel.Invariant
open CassiOS.Kernel.Outcomes
open CassiOS.Kernel.ChunkedCopy (placeAt Apart memCopy copyChunks)

set_option autoImplicit false

section Specification

inductive Kind
  | send
  | notify

def bulkLength (dataPtr dataLen dst capacity : Nat) : Nat :=
  if bothBuffers dataPtr dataLen dst capacity then min dataLen capacity else 0

/-- The arguments of a call that carries a message, and of the `receive` that gets it. A
process follows its pointers in its space; what is read of the sender's bulk data lies apart
from the receiver's buffers. -/
structure Transfer where
  kind : Kind
  sender : Ref
  senderPid : Nat
  senderSpace : Nat
  receiver : Ref
  targetPid : Nat
  receiverSpace : Nat
  msg : Nat
  dataPtr : Nat
  dataLen : Nat
  buf : Nat
  dst : Nat
  capacity : Nat
  other : receiver ≠ sender
  pid : 0 < senderPid ∧ senderPid < 2147483648
  pointers : buf < 4294967296 ∧ dst < 4294967296
  lengths : dataLen < 4294967296 ∧ capacity < 4294967296
  messageApart : ∀ i j, i < 24 → j < bulkLength dataPtr dataLen dst capacity →
    placeAt Prod.mk receiverSpace buf i ≠ placeAt Prod.mk senderSpace dataPtr j
  dataApart : Apart Prod.mk receiverSpace dst senderSpace dataPtr
    (bulkLength dataPtr dataLen dst capacity)

namespace Transfer

variable (t : Transfer)

def call : Call :=
  match t.kind with
  | .send => .send t.targetPid t.msg t.dataPtr t.dataLen true
  | .notify => .notify t.targetPid t.msg t.dataPtr t.dataLen true true

theorem call_send (sends : t.kind = .send) :
    t.call = .send t.targetPid t.msg t.dataPtr t.dataLen true := by
  unfold call
  rw [sends]

theorem call_notify (notifies : t.kind = .notify) :
    t.call = .notify t.targetPid t.msg t.dataPtr t.dataLen true true := by
  unfold call
  rw [notifies]

def receiveCall : Call := .receive t.buf t.dst t.capacity

/-- What `receive` returns: nobody waits for a reply to a notification. -/
def result : Nat :=
  match t.kind with
  | .send => t.senderPid
  | .notify => 0

theorem result_send (sends : t.kind = .send) : t.result = t.senderPid := by
  unfold result
  rw [sends]

theorem result_notify (notifies : t.kind = .notify) : t.result = 0 := by
  unfold result
  rw [notifies]

def length : Nat := bulkLength t.dataPtr t.dataLen t.dst t.capacity

end Transfer

/-- Address `a` is one of the `len` from `ptr` on. -/
def Within (ptr len a : Nat) : Prop := u32 (a + 4294967296 - ptr) < len

structure Arrived (t : Transfer) (words : Message) (bytes : Nat → UInt8)
    (before after : Nat → Nat → UInt8) : Prop where
  data : ∀ i, i < t.length → after t.receiverSpace (u32 (t.dst + i)) = bytes i
  message : ∀ i : Fin 24, ¬ Within t.dst t.length (u32 (t.buf + i)) →
    after t.receiverSpace (u32 (t.buf + i)) = words i
  untouched : ∀ pd a, pd ≠ t.receiverSpace ∨ ¬ Within t.buf 24 a ∧ ¬ Within t.dst t.length a →
    after pd a = before pd a

/-- The sender makes its call in `k`, with a message and bulk data in its buffers. -/
structure Sends (t : Transfer) (words : Message) (bytes : Nat → UInt8) (k : KernelState) : Prop where
  current : k.current = t.sender
  space : k.cr3 = t.senderSpace
  pid : (k.table t.sender).pid = t.senderPid
  target : get k t.targetPid = some t.receiver
  words : readMessage k t.msg = words
  bytes : ∀ i, i < t.dataLen → readBytes k.memory k.cr3 t.dataPtr i = bytes i

/-- The receiver calls `receive` in `k` and blocks, and waits with the same buffers when the
sender makes its call in `later`. -/
structure WaitsFirst (t : Transfer) (words : Message) (bytes : Nat → UInt8) (k : KernelState)
    (esp : Nat) (later : KernelState) : Prop where
  current : k.current = t.receiver
  running : (k.table t.receiver).state ≠ .receiveBlocked
  blocks : ((handleSyscall k esp t.receiveCall).1.table t.receiver).state = .receiveBlocked
  waiting : (later.table t.receiver).state = .receiveBlocked
  space : spaceOf later t.receiver = t.receiverSpace
  msgPtr : (later.table t.receiver).msgPtr =
    ((handleSyscall k esp t.receiveCall).1.table t.receiver).msgPtr
  dataPtr : (later.table t.receiver).dataPtr =
    ((handleSyscall k esp t.receiveCall).1.table t.receiver).dataPtr
  dataLen : (later.table t.receiver).dataLen =
    ((handleSyscall k esp t.receiveCall).1.table t.receiver).dataLen
  sends : Sends t words bytes later

/-- What was queued in `queued` is what the receiver's call takes in `later`; a sender that
waits for it is as it was, and its bulk data are. -/
def Fetches (t : Transfer) (bytes : Nat → UInt8) (queued later : KernelState) : Prop :=
  match t.kind with
  | .send =>
      (later.table t.receiver).notifyQueue = [] ∧
        (later.table t.receiver).sendQueue.head? = (queued.table t.receiver).sendQueue.getLast? ∧
        get later t.senderPid = some t.sender ∧
        (later.table t.sender).msg = (queued.table t.sender).msg ∧
        (later.table t.sender).dataPtr = (queued.table t.sender).dataPtr ∧
        (later.table t.sender).dataLen = (queued.table t.sender).dataLen ∧
        spaceOf later t.sender = t.senderSpace ∧
        ∀ i, i < t.dataLen → readBytes later.memory t.senderSpace t.dataPtr i = bytes i
  | .notify =>
      (later.table t.receiver).notifyQueue.head? = (queued.table t.receiver).notifyQueue.getLast?

/-- The sender makes its call in `k` while the receiver does something else, and the receiver
calls `receive` in `later`. -/
structure QueuesFirst (t : Transfer) (words : Message) (bytes : Nat → UInt8) (k : KernelState)
    (esp : Nat) (later : KernelState) : Prop where
  sends : Sends t words bytes k
  busy : (k.table t.receiver).state ≠ .receiveBlocked
  current : later.current = t.receiver
  space : later.cr3 = t.receiverSpace
  quiet : ∀ irq, irq < irqLines →
    pendingFor later (later.table t.receiver).pid irq = false
  fetches : Fetches t bytes (handleSyscall k esp t.call).1 later

end Specification

section Effects

variable {k : KernelState} {r : Ref} {esp : Nat}

theorem memory_reschedule (k : KernelState) (esp : Nat) :
    (reschedule k esp).1.memory = k.memory := by
  unfold reschedule
  split
  · rfl
  · obtain ⟨cr3, same⟩ := switch_to_eq { k with tickCount := 0 } (findNextReady k k.current)
      k.current esp
    dsimp only
    rw [same]

theorem write_bytes_none (memory : Nat → Nat → UInt8) (space dst : Nat) (bytes : Nat → UInt8) :
    writeBytes memory space dst 0 bytes = memory := by
  funext pd a
  exact if_neg fun inside => Nat.not_lt_zero _ inside.2

theorem arrived_of_writes {t : Transfer} {words : Message} {bytes values : Nat → UInt8}
    {before : Nat → Nat → UInt8} (same : ∀ i, i < t.length → values i = bytes i) :
    Arrived t words bytes before
      (writeBytes (writeBytes before t.receiverSpace t.buf 24 (messageBytes words))
        t.receiverSpace t.dst t.length values) := by
  have short : t.length < 4294967296 := by
    have low := t.lengths.1
    unfold Transfer.length bulkLength
    split <;> omega
  have position : ∀ ptr i, ptr < 4294967296 → i < 4294967296 →
      u32 (u32 (ptr + i) + 4294967296 - ptr) = i := by
    intro ptr i low below
    unfold u32
    omega
  constructor
  · intro i below
    have here := position t.dst i t.pointers.2 (by omega)
    unfold writeBytes
    rw [here, if_pos ⟨rfl, below⟩]
    exact same i below
  · intro i outside
    have here := position t.buf i t.pointers.1 (by omega)
    unfold writeBytes
    rw [if_neg fun inside => outside inside.2, here, if_pos ⟨rfl, i.isLt⟩]
    exact congrArg words (Fin.ext (Nat.mod_eq_of_lt i.isLt))
  · intro pd a outside
    have elsewhere : ∀ ptr len, pd ≠ t.receiverSpace ∨ ¬ Within ptr len a →
        ¬ (pd = t.receiverSpace ∧ u32 (a + 4294967296 - ptr) < len) := by
      rintro ptr len (other | beyond) inside
      · exact other inside.1
      · exact beyond inside.2
    unfold writeBytes
    rw [if_neg (elsewhere _ _ (outside.imp_right And.right)),
      if_neg (elsewhere _ _ (outside.imp_right And.left))]

/-- The sender's bulk data are not where the receiver's message goes. -/
theorem data_behind_message (t : Transfer) (words : Message) (memory : Nat → Nat → UInt8) {i : Nat}
    (below : i < t.length) :
    readBytes (writeBytes memory t.receiverSpace t.buf 24 (messageBytes words)) t.senderSpace
        t.dataPtr i = readBytes memory t.senderSpace t.dataPtr i := by
  unfold readBytes writeBytes
  apply if_neg
  rintro ⟨same, inside⟩
  apply t.messageApart _ i inside below
  unfold placeAt
  rw [← same]
  apply congrArg
  have low := t.pointers.1
  unfold u32
  omega

theorem length_le (t : Transfer) : t.length ≤ t.dataLen := by
  unfold Transfer.length bulkLength
  split <;> omega

theorem memory_deliver (k : KernelState) (target : Ref) (msg : Message)
    (dataPtr dataLen eax : Nat) :
    let written := writeBytes k.memory (spaceOf k target) (k.table target).msgPtr 24
      (messageBytes msg)
    (deliver k target msg dataPtr dataLen eax).memory =
      writeBytes written (spaceOf k target) (k.table target).dataPtr
        (bulkLength dataPtr dataLen (k.table target).dataPtr (k.table target).dataLen)
        (readBytes written k.cr3 dataPtr) := by
  intro written
  have same : (copyMessageToProcess k target (k.table target).msgPtr msg).table = k.table := rfl
  unfold deliver copyBulk bulkLength
  simp only [same]
  split
  · rfl
  · rw [write_bytes_none]
    rfl

theorem frame_eax_deliver (k : KernelState) (target : Ref) (msg : Message)
    (dataPtr dataLen eax : Nat) :
    ((deliver k target msg dataPtr dataLen eax).table target).frameEax = eax := by
  unfold deliver
  dsimp only
  rw [KernelState.table_modify_self]
  rfl

end Effects

section Direct

variable {t : Transfer} {words : Message} {bytes : Nat → UInt8} {k later : KernelState} {esp : Nat}

/-- `receive` blocks its caller or leaves its state alone. -/
theorem receive_cases (k : KernelState) (msg dataPtr dataCapacity : Nat) :
    receive k msg dataPtr dataCapacity =
        ((k.modify k.current (receiveBuffer dataPtr dataCapacity)).modify k.current
          (waitForMessage msg), 0) ∨
      ((receive k msg dataPtr dataCapacity).1.table k.current).state =
          (k.table k.current).state ∧
        (receive k msg dataPtr dataCapacity).1.current = k.current := by
  unfold receive
  simp only [KernelState.table_modify_self]
  rcases deliver_pending_cases (k.modify k.current (receiveBuffer dataPtr dataCapacity))
    (receiveBuffer dataPtr dataCapacity (k.table k.current)).pid msg with
      ⟨_, scanned⟩ | ⟨irq, memory, _, _, _, scanned⟩
  · simp only [scanned, KernelState.table_modify_self]
    unfold notifyPop
    rcases (receiveBuffer dataPtr dataCapacity (k.table k.current)).notifyQueue with
      _ | ⟨node, rest⟩
    · dsimp only
      split
      · right
        obtain ⟨table, current, _⟩ := table_receive_queued
          (k.modify k.current (receiveBuffer dataPtr dataCapacity)) msg dataPtr dataCapacity
        rw [table, current]
        simp only [KernelState.current_modify, KernelState.table_modify_self, and_true]
        rfl
      · exact .inl rfl
    · right
      obtain ⟨memory, same⟩ := receive_notified_eq
        (k.modify k.current (receiveBuffer dataPtr dataCapacity)) msg dataPtr dataCapacity node
        (dropNotify (receiveBuffer dataPtr dataCapacity (k.table k.current)))
      dsimp only
      rw [same]
      refine ⟨?_, rfl⟩
      simp only [KernelState.record, withMemory, KernelState.current_modify,
        KernelState.table_modify_self, dropNotify, receiveBuffer]
  · rw [scanned]
    exact .inr ⟨(congrArg Process.state (KernelState.table_modify_self _ _ _)).trans rfl, rfl⟩

/-- Only the call itself makes its caller wait for a message. -/
theorem block_or_return_state (k : KernelState) (esp : Nat) (result : Int) (r : Ref)
    (waiting : ((blockOrReturn k esp result).1.table r).state = .receiveBlocked) :
    (k.table r).state = .receiveBlocked := by
  unfold blockOrReturn at waiting
  split at waiting
  · obtain ⟨sp, state, record, unchanged⟩ := record_reschedule k esp r
    rw [record] at waiting
    rcases unchanged with running | same
    · exact absurd (running.symm.trans waiting) (by decide)
    · exact same.symm.trans waiting
  · rw [returnValue, KernelState.modify_keeps _ _ _ _ Process.state rfl] at waiting
    exact waiting

theorem registered_buffers (running : (k.table k.current).state ≠ .receiveBlocked)
    (blocks : ((handleSyscall k esp t.receiveCall).1.table k.current).state = .receiveBlocked) :
    let p := (handleSyscall k esp t.receiveCall).1.table k.current
    p.msgPtr = t.buf ∧ p.dataPtr = t.dst ∧ p.dataLen = t.capacity := by
  unfold Transfer.receiveCall at blocks ⊢
  rw [handle_receive] at blocks ⊢
  rcases receive_cases k t.buf t.dst t.capacity with waits | ⟨kept, _⟩
  · rw [waits]
    obtain ⟨sp, state, record, _⟩ := record_reschedule
      ((k.modify k.current (receiveBuffer t.dst t.capacity)).modify k.current
        (waitForMessage t.buf)) esp k.current
    simp only [KernelState.table_modify_self] at record
    have answer : ¬ ((0 : Int) = -2 ∨ (0 : Int) = -3) := by decide
    dsimp only
    rw [if_neg answer, blockOrReturn, if_pos rfl, record]
    exact ⟨rfl, rfl, rfl⟩
  · exfalso
    apply running
    rw [← kept]
    split at blocks
    · rw [returnValue, KernelState.modify_keeps _ _ _ _ Process.state rfl] at blocks
      exact blocks
    · exact block_or_return_state _ esp _ _ blocks

theorem send_waiting {msg dataPtr dataLen targetPid : Nat} {target : Ref}
    (found : get k targetPid = some target) (other : target ≠ k.current)
    (waiting : (k.table target).state = .receiveBlocked) (node : Bool) :
    let words := readMessage k msg
    let stored := k.modify k.current (outgoing words msg dataPtr dataLen)
    ∃ event event', send k targetPid msg dataPtr dataLen node =
      ((((deliver stored target words dataPtr dataLen (k.table k.current).pid).record
        event).record event').modify k.current (block .sendBlocked), 0) := by
  intro words stored
  have kept : stored.table target = k.table target :=
    KernelState.table_modify_of_ne _ _ _ _ other
  unfold send
  rw [found]
  dsimp only
  rw [if_neg other, if_pos (show (stored.table target).state = .receiveBlocked by
    rw [kept, waiting])]
  exact ⟨_, _, rfl⟩

theorem notify_waiting {msg dataPtr dataLen targetPid : Nat} {target : Ref}
    (found : get k targetPid = some target) (other : target ≠ k.current)
    (waiting : (k.table target).state = .receiveBlocked) (node data : Bool) :
    ∃ event event', notify k targetPid msg dataPtr dataLen node data =
      (((deliver k target (readMessage k msg) dataPtr dataLen 0).record event).record
        event', 0) := by
  unfold notify
  rw [found]
  dsimp only
  rw [if_neg other, if_pos waiting]
  exact ⟨_, _, rfl⟩

/-- A call that finds its target waiting delivers to it, whatever it stores of the caller. -/
theorem direct_delivers (sends : Sends t words bytes later)
    (waiting : (later.table t.receiver).state = .receiveBlocked) (esp : Nat) :
    ∃ k : KernelState, k.memory = later.memory ∧ k.cr3 = later.cr3 ∧
      k.table t.receiver = later.table t.receiver ∧
      (handleSyscall later esp t.call).1.memory =
        (deliver k t.receiver words t.dataPtr t.dataLen t.result).memory ∧
      ((handleSyscall later esp t.call).1.table t.receiver).frameEax = t.result := by
  have other := t.other
  cases kind : t.kind with
  | send =>
      let stored := later.modify t.sender (outgoing words t.msg t.dataPtr t.dataLen)
      have kept : stored.table t.receiver = later.table t.receiver :=
        KernelState.table_modify_of_ne _ _ _ _ other
      obtain ⟨event, event', run⟩ := send_waiting sends.target
        (show t.receiver ≠ later.current by rw [sends.current]; exact other) waiting true
      rw [sends.current, sends.words, sends.pid] at run
      obtain ⟨sp, state, record, _⟩ := record_reschedule
        ((((deliver stored t.receiver words t.dataPtr t.dataLen t.senderPid).record event).record
          event').modify t.sender (block .sendBlocked)) esp t.receiver
      refine ⟨stored, rfl, rfl, kept, ?_⟩
      rw [t.call_send kind, t.result_send kind, handle_send, run, blockOrReturn, if_pos rfl,
        memory_reschedule, record, KernelState.table_modify_of_ne _ _ _ _ other]
      exact ⟨rfl, frame_eax_deliver _ _ _ _ _ _⟩
  | notify =>
      obtain ⟨event, event', run⟩ := notify_waiting sends.target
        (show t.receiver ≠ later.current by rw [sends.current]; exact other) waiting true true
      rw [sends.words] at run
      refine ⟨later, rfl, rfl, rfl, ?_⟩
      rw [t.call_notify kind, t.result_notify kind, handle_notify, run]
      refine ⟨rfl, ?_⟩
      have caller : (deliver later t.receiver words t.dataPtr t.dataLen 0).current = t.sender := by
        obtain ⟨memory, same⟩ := deliver_eq later t.receiver words t.dataPtr t.dataLen 0
        rw [same]
        exact sends.current
      have apart : t.receiver ≠ (((deliver later t.receiver words t.dataPtr t.dataLen 0).record
          event).record event').current := fun same => other (same.trans caller)
      dsimp only
      rw [returnValue, KernelState.table_modify_of_ne _ _ _ _ apart]
      exact frame_eax_deliver _ _ _ _ _ _

theorem arrived_direct (first : WaitsFirst t words bytes k esp later) (esp' : Nat) :
    Arrived t words bytes later.memory (handleSyscall later esp' t.call).1.memory ∧
      ((handleSyscall later esp' t.call).1.table t.receiver).frameEax = t.result := by
  obtain ⟨state, memory, cr3, record, written, answer⟩ :=
    direct_delivers first.sends first.waiting esp'
  refine ⟨?_, answer⟩
  have running := first.running
  have blocks := first.blocks
  rw [← first.current] at running blocks
  obtain ⟨msgPtr, dataPtr, dataLen⟩ := registered_buffers running blocks
  rw [first.current] at msgPtr dataPtr dataLen
  have space : spaceOf state t.receiver = t.receiverSpace := by
    rw [← first.space]
    unfold spaceOf
    rw [record, cr3]
  rw [written, memory_deliver, record, memory, cr3, space, first.msgPtr, first.dataPtr,
    first.dataLen, msgPtr, dataPtr, dataLen, first.sends.space]
  apply arrived_of_writes
  intro i below
  rw [data_behind_message t words _ below,
    ← first.sends.bytes i (Nat.lt_of_lt_of_le below (length_le t)),
    first.sends.space]

end Direct

section Queued

variable {t : Transfer} {words : Message} {bytes : Nat → UInt8} {k later : KernelState} {esp : Nat}

theorem get_modify (r : Ref) (f : Process → Process) (pid : ∀ p, (f p).pid = p.pid)
    (state : ∀ p, (f p).state = p.state) (target : Nat) :
    ProcessManager.get (k.modify r f) target = ProcessManager.get k target := by
  have samePid : ∀ q, ((k.modify r f).table q).pid = (k.table q).pid :=
    fun q => k.modify_keeps r q f Process.pid (pid _)
  have sameState : ∀ q, ((k.modify r f).table q).state = (k.table q).state :=
    fun q => k.modify_keeps r q f Process.state (state _)
  unfold ProcessManager.get
  simp only [KernelState.processes_modify, samePid, sameState]

theorem queued_send (sends : Sends t words bytes k) (kind : t.kind = .send)
    (busy : (k.table t.receiver).state ≠ .receiveBlocked) (esp : Nat) :
    let queued := (handleSyscall k esp t.call).1
    (queued.table t.receiver).sendQueue = (k.table t.receiver).sendQueue ++ [t.senderPid] ∧
      (queued.table t.sender).msg = words ∧ (queued.table t.sender).dataPtr = t.dataPtr ∧
      (queued.table t.sender).dataLen = t.dataLen := by
  intro queued
  have other := t.other
  let stored := k.modify t.sender (outgoing words t.msg t.dataPtr t.dataLen)
  have kept : stored.table t.receiver = k.table t.receiver :=
    KernelState.table_modify_of_ne _ _ _ _ other
  have run : ∃ event, send k t.targetPid t.msg t.dataPtr t.dataLen true =
      (((stored.modify t.receiver (appendSender t.senderPid)).record event).modify t.sender
        (block .sendBlocked), 0) := by
    unfold send
    rw [sends.target]
    simp only [sends.current, if_neg other, sends.words, sends.pid]
    rw [if_neg (show (stored.table t.receiver).state ≠ .receiveBlocked by rw [kept]; exact busy)]
    unfold sendQueuePush
    rw [if_pos rfl, ← KernelState.modify_const stored t.receiver (appendSender t.senderPid)]
    exact ⟨_, rfl⟩
  obtain ⟨event, run⟩ := run
  let blocked := ((stored.modify t.receiver (appendSender t.senderPid)).record event).modify
    t.sender (block .sendBlocked)
  have after : queued = (reschedule blocked esp).1 := by
    unfold queued
    rw [t.call_send kind, handle_send, run, blockOrReturn, if_pos rfl]
  obtain ⟨sp, state, receiver, _⟩ := record_reschedule blocked esp t.receiver
  obtain ⟨sp', state', sender, _⟩ := record_reschedule blocked esp t.sender
  have head : blocked.table t.receiver = appendSender t.senderPid (k.table t.receiver) := by
    unfold blocked
    rw [KernelState.table_modify_of_ne _ _ _ _ other]
    change (stored.modify t.receiver (appendSender t.senderPid)).table t.receiver = _
    rw [KernelState.table_modify_self, kept]
  have waiting : blocked.table t.sender =
      block .sendBlocked (outgoing words t.msg t.dataPtr t.dataLen (k.table t.sender)) := by
    unfold blocked
    rw [KernelState.table_modify_self]
    change block _ ((stored.modify t.receiver (appendSender t.senderPid)).table t.sender) = _
    rw [KernelState.table_modify_of_ne _ _ _ _ other.symm, KernelState.table_modify_self]
  rw [after, receiver, sender, head, waiting]
  exact ⟨rfl, rfl, rfl, rfl⟩

theorem queued_notify (sends : Sends t words bytes k) (kind : t.kind = .notify)
    (busy : (k.table t.receiver).state ≠ .receiveBlocked) (esp : Nat) :
    ∃ node : NotifyNode, ((handleSyscall k esp t.call).1.table t.receiver).notifyQueue =
        (k.table t.receiver).notifyQueue ++ [node] ∧ node.msg = words ∧
      node.dataLen = (if t.dataPtr ≠ 0 ∧ 0 < t.dataLen then t.dataLen else 0) ∧
      ∀ i, i < node.dataLen → node.data i = bytes i := by
  have other := t.other
  let carried : NotifyNode := if t.dataPtr ≠ 0 ∧ 0 < t.dataLen
    then ⟨t.senderPid, words, readBytes k.memory k.cr3 t.dataPtr, t.dataLen⟩
    else ⟨t.senderPid, words, fun _ => 0, 0⟩
  have pushed : notifyPush (k.table t.receiver) t.senderPid words
      (readBytes k.memory k.cr3 t.dataPtr) t.dataPtr t.dataLen true true =
        some (appendNotify carried (k.table t.receiver)) := by
    unfold notifyPush carried
    simp only [Bool.not_true, Bool.false_eq_true, if_false, if_true]
    split <;> rfl
  have run : ∃ event, notify k t.targetPid t.msg t.dataPtr t.dataLen true true =
      ((k.modify t.receiver (appendNotify carried)).record event, 0) := by
    unfold notify
    rw [sends.target]
    simp only [sends.current, if_neg other, sends.words, sends.pid, if_neg busy]
    rw [pushed, ← KernelState.modify_const k t.receiver (appendNotify carried)]
    exact ⟨_, rfl⟩
  obtain ⟨event, run⟩ := run
  refine ⟨carried, ?_, ?_, ?_, ?_⟩
  · have apart : t.receiver ≠ ((k.modify t.receiver (appendNotify carried)).record event).current :=
      fun same => other (same.trans sends.current)
    rw [t.call_notify kind, handle_notify, run, returnValue,
      KernelState.table_modify_of_ne _ _ _ _ apart]
    exact congrArg Process.notifyQueue (KernelState.table_modify_self _ _ _)
  · unfold carried
    split <;> rfl
  · unfold carried
    split <;> rfl
  · unfold carried
    split
    · exact sends.bytes
    · exact fun _ below => absurd below (Nat.not_lt_zero _)

end Queued

section Fetched

variable {t : Transfer} {words : Message} {bytes : Nat → UInt8} {k later : KernelState} {esp : Nat}

theorem receive_quiet (quiet : ∀ irq, irq < irqLines →
      pendingFor later (later.table later.current).pid irq = false) (msg dataPtr dataCapacity : Nat) :
    receive later msg dataPtr dataCapacity =
      let k := later.modify later.current (receiveBuffer dataPtr dataCapacity)
      match (later.table later.current).notifyQueue with
      | node :: _ => (receiveNotified k msg dataPtr dataCapacity node
          (dropNotify (k.table later.current)), -3)
      | [] => if (later.table later.current).sendQueue ≠ [] then
          receiveQueued k msg dataPtr dataCapacity
        else (k.modify later.current (waitForMessage msg), 0) := by
  have scanned : deliverPending (later.modify later.current (receiveBuffer dataPtr dataCapacity))
      (later.table later.current).pid msg =
        (later.modify later.current (receiveBuffer dataPtr dataCapacity), false) := by
    unfold deliverPending
    rw [List.find?_eq_none.2]
    intro irq line
    rw [Bool.not_eq_true]
    exact quiet irq (List.mem_range.1 line)
  unfold receive
  simp only [KernelState.table_modify_self]
  rw [show (receiveBuffer dataPtr dataCapacity (later.table later.current)).pid =
    (later.table later.current).pid from rfl, scanned]
  simp only [KernelState.table_modify_self]
  unfold notifyPop
  rw [show (receiveBuffer dataPtr dataCapacity (later.table later.current)).notifyQueue =
    (later.table later.current).notifyQueue from rfl]
  rcases (later.table later.current).notifyQueue with _ | ⟨node, rest⟩
  · rfl
  · rfl

/-- The length kept with a notification leads to that of a direct delivery. -/
theorem kept_length {dataPtr dataLen n : Nat} (dst capacity : Nat)
    (kept : n = if dataPtr ≠ 0 ∧ 0 < dataLen then dataLen else 0) :
    (if 0 < n ∧ dst ≠ 0 ∧ 0 < capacity then min n capacity else 0) =
      bulkLength dataPtr dataLen dst capacity := by
  unfold bulkLength
  by_cases named : dataPtr ≠ 0 ∧ 0 < dataLen
  · rw [if_pos named] at kept
    rw [kept]
    apply if_congr _ rfl rfl
    exact ⟨fun both => ⟨named.1, both⟩, And.right⟩
  · rw [if_neg named] at kept
    rw [kept, if_neg fun both => Nat.lt_irrefl 0 both.1,
      if_neg fun both : bothBuffers dataPtr dataLen dst capacity => named ⟨both.1, both.2.1⟩]

theorem memory_receive_notified (k : KernelState) (msg dataPtr dataCapacity : Nat)
    (node : NotifyNode) (popped : Process) :
    (receiveNotified k msg dataPtr dataCapacity node popped).memory =
        writeBytes (writeBytes k.memory k.cr3 msg 24 (messageBytes node.msg)) k.cr3 dataPtr
          (if 0 < node.dataLen ∧ dataPtr ≠ 0 ∧ 0 < dataCapacity
            then min node.dataLen dataCapacity else 0) node.data ∧
      (receiveNotified k msg dataPtr dataCapacity node popped).current = k.current := by
  unfold receiveNotified
  dsimp only
  split
  · exact ⟨rfl, rfl⟩
  · rw [write_bytes_none]
    exact ⟨rfl, rfl⟩

theorem memory_receive_queued {k : KernelState} {senderPid : Nat} {sender : Ref}
    (head : (k.table k.current).sendQueue.headD 0 = senderPid)
    (live : ProcessManager.get (k.modify k.current dropSender) senderPid = some sender)
    (other : sender ≠ k.current) (msg dataPtr dataCapacity : Nat) :
    let written := writeBytes k.memory k.cr3 msg 24 (messageBytes (k.table sender).msg)
    let answer := receiveQueued k msg dataPtr dataCapacity
    answer.1.memory = writeBytes written k.cr3 dataPtr
        (bulkLength (k.table sender).dataPtr (k.table sender).dataLen dataPtr dataCapacity)
        (readBytes written (spaceOf k sender) (k.table sender).dataPtr) ∧
      answer.1.current = k.current ∧ answer.2 = asI32 senderPid := by
  intro written answer
  unfold answer receiveQueued sendQueuePop bulkLength
  simp only [head, KernelState.modify_const, live]
  have kept := KernelState.table_modify_of_ne k _ _ dropSender other
  let filled := writeMessage (k.modify k.current dropSender) msg (k.table sender).msg
  have same : filled.table sender = k.table sender := kept
  have space : spaceOf filled sender = spaceOf k sender := by
    unfold spaceOf
    rw [same]
    rfl
  simp only [kept]
  rw [show writeMessage (k.modify k.current dropSender) msg (k.table sender).msg = filled from rfl,
    same]
  split
  · unfold copyDataFromProcess
    rw [space]
    exact ⟨rfl, rfl, trivial⟩
  · rw [write_bytes_none]
    exact ⟨rfl, rfl, trivial⟩

theorem arrived_notified (first : QueuesFirst t words bytes k esp later) (kind : t.kind = .notify)
    (esp' : Nat) :
    Arrived t words bytes later.memory (handleSyscall later esp' t.receiveCall).1.memory ∧
      ((handleSyscall later esp' t.receiveCall).1.table t.receiver).frameEax = t.result := by
  obtain ⟨node, queue, msg, dataLen, data⟩ := queued_notify first.sends kind first.busy esp
  have head := first.fetches
  unfold Fetches at head
  rw [kind] at head
  dsimp only at head
  rw [queue, List.getLast?_concat] at head
  obtain ⟨rest, queued⟩ := List.head?_eq_some_iff.1 head
  have quiet := first.quiet
  rw [← first.current] at quiet queued
  have run := receive_quiet quiet t.buf t.dst t.capacity
  rw [queued] at run
  dsimp only at run
  rw [Transfer.receiveCall, handle_receive, run, if_pos (.inr rfl), t.result_notify kind]
  obtain ⟨memory, current⟩ := memory_receive_notified
    (later.modify later.current (receiveBuffer t.dst t.capacity)) t.buf t.dst t.capacity node
    (dropNotify ((later.modify later.current (receiveBuffer t.dst t.capacity)).table later.current))
  constructor
  · have length := kept_length t.dst t.capacity dataLen
    rw [length, msg] at memory
    have result : (returnValue (receiveNotified
        (later.modify later.current (receiveBuffer t.dst t.capacity)) t.buf t.dst t.capacity node
        (dropNotify ((later.modify later.current
          (receiveBuffer t.dst t.capacity)).table later.current))) 0).memory =
        writeBytes (writeBytes later.memory later.cr3 t.buf 24 (messageBytes words)) later.cr3
          t.dst t.length node.data := memory
    rw [result, first.space]
    apply arrived_of_writes
    intro i below
    apply data
    rw [Transfer.length, ← length] at below
    split at below
    · omega
    · exact absurd below (Nat.not_lt_zero i)
  · exact frame_eax_return_value (current.trans first.current) 0

theorem as_u32_as_i32 {n : Nat} (small : n < 4294967296) : asU32 (asI32 n) = n := by
  unfold asU32 asI32
  split <;> omega

theorem arrived_sent (first : QueuesFirst t words bytes k esp later) (kind : t.kind = .send)
    (esp' : Nat) :
    Arrived t words bytes later.memory (handleSyscall later esp' t.receiveCall).1.memory ∧
      ((handleSyscall later esp' t.receiveCall).1.table t.receiver).frameEax = t.result := by
  obtain ⟨queue, msg, dataPtr, dataLen⟩ := queued_send first.sends kind first.busy esp
  have fetches := first.fetches
  unfold Fetches at fetches
  rw [kind] at fetches
  dsimp only at fetches
  obtain ⟨noNotification, head, live, sameMsg, samePtr, sameLen, space, data⟩ := fetches
  rw [queue, List.getLast?_concat] at head
  obtain ⟨rest, senders⟩ := List.head?_eq_some_iff.1 head
  have quiet := first.quiet
  rw [← first.current] at quiet noNotification senders
  have run := receive_quiet quiet t.buf t.dst t.capacity
  rw [noNotification] at run
  dsimp only at run
  rw [if_pos (by rw [senders]; exact List.cons_ne_nil _ _)] at run
  let ready := later.modify later.current (receiveBuffer t.dst t.capacity)
  have other : t.sender ≠ later.current := fun same => t.other (same.trans first.current).symm
  have kept : ready.table t.sender = later.table t.sender :=
    KernelState.table_modify_of_ne _ _ _ _ other
  have queued : (ready.table ready.current).sendQueue.headD 0 = t.senderPid := by
    rw [show ready.table ready.current = receiveBuffer t.dst t.capacity (later.table later.current)
      from KernelState.table_modify_self _ _ _]
    exact congrArg (fun queue => queue.headD 0) senders
  have found : ProcessManager.get (ready.modify ready.current dropSender) t.senderPid =
      some t.sender := by
    rw [get_modify _ dropSender (fun _ => rfl) (fun _ => rfl)]
    exact (get_modify later.current (receiveBuffer t.dst t.capacity) (fun _ => rfl)
      (fun _ => rfl) _).trans live
  obtain ⟨memory, current, answer⟩ := memory_receive_queued queued found other t.buf t.dst t.capacity
  have sender : (ready.table t.sender).msg = words ∧
      (ready.table t.sender).dataPtr = t.dataPtr ∧ (ready.table t.sender).dataLen = t.dataLen := by
    rw [kept, sameMsg, samePtr, sameLen]
    exact ⟨msg, dataPtr, dataLen⟩
  have senderSpace : spaceOf ready t.sender = t.senderSpace := by
    rw [← space]
    unfold spaceOf
    rw [kept]
    rfl
  rw [sender.1, sender.2.1, sender.2.2, senderSpace, show ready.cr3 = t.receiverSpace from
    first.space] at memory
  have value : asI32 t.senderPid = t.senderPid := if_pos t.pid.2
  have positive := t.pid.1
  rw [Transfer.receiveCall, handle_receive, run, answer, value, if_neg (by omega), blockOrReturn,
    if_neg (by omega)]
  constructor
  · rw [show (returnValue _ _).memory = _ from memory]
    apply arrived_of_writes
    intro i below
    rw [data_behind_message t words _ below]
    exact data i (Nat.lt_of_lt_of_le below (length_le t))
  · rw [frame_eax_return_value (current.trans first.current), ← value,
      as_u32_as_i32 (Nat.lt_trans t.pid.2 (by decide)), t.result_send kind]

theorem arrived_fetched (first : QueuesFirst t words bytes k esp later) (esp' : Nat) :
    Arrived t words bytes later.memory (handleSyscall later esp' t.receiveCall).1.memory ∧
      ((handleSyscall later esp' t.receiveCall).1.table t.receiver).frameEax = t.result := by
  cases kind : t.kind with
  | send => exact arrived_sent first kind esp'
  | notify => exact arrived_notified first kind esp'

end Fetched

section Agreement

variable {t : Transfer} {words : Message} {bytes : Nat → UInt8}

/-- Two deliveries leave the same message, also where bulk data were written over it. -/
theorem arrived_message {before after before' after' : Nat → Nat → UInt8}
    (arrived : Arrived t words bytes before after)
    (arrived' : Arrived t words bytes before' after') (i : Fin 24) :
    after t.receiverSpace (u32 (t.buf + i)) = after' t.receiverSpace (u32 (t.buf + i)) := by
  by_cases inside : Within t.dst t.length (u32 (t.buf + i))
  · have same : u32 (t.buf + i) = u32 (t.dst + u32 (u32 (t.buf + i) + 4294967296 - t.dst)) := by
      have low := t.pointers.2
      unfold u32
      omega
    rw [same, arrived.data _ inside, arrived'.data _ inside]
  · rw [arrived.message i inside, arrived'.message i inside]

/-- Whether a message finds its receiver waiting or waits for it, the receiver ends with the
same message, the same bulk data and the same return value; and copying in chunks is copying
at once. -/
theorem delivery_orders_agree {k later k' later' : KernelState} {esp esp' : Nat}
    (waits : WaitsFirst t words bytes k esp later)
    (queues : QueuesFirst t words bytes k' esp' later') (callEsp receiveEsp : Nat) :
    let direct := (handleSyscall later callEsp t.call).1
    let fetched := (handleSyscall later' receiveEsp t.receiveCall).1
    Arrived t words bytes later.memory direct.memory ∧
      Arrived t words bytes later'.memory fetched.memory ∧
      (∀ i : Fin 24, direct.memory t.receiverSpace (u32 (t.buf + i)) =
        fetched.memory t.receiverSpace (u32 (t.buf + i))) ∧
      (direct.table t.receiver).frameEax = t.result ∧
      (fetched.table t.receiver).frameEax = t.result ∧
      ∀ (Place : Type) [DecidableEq Place] (resolve : Nat → Nat → Place)
        (dstPD dst srcPD src len : Nat) (m : Place → UInt8),
          Apart resolve dstPD dst srcPD src len →
            copyChunks resolve dstPD dst srcPD src len 0 m =
              memCopy resolve dstPD dst srcPD src len m := by
  obtain ⟨arrived, answer⟩ := arrived_direct waits callEsp
  obtain ⟨arrived', answer'⟩ := arrived_fetched queues receiveEsp
  refine ⟨arrived, arrived', arrived_message arrived arrived', answer, answer', ?_⟩
  intro Place _ resolve dstPD dst srcPD src len m apart
  exact ChunkedCopy.copy_chunks_eq apart

def twoProcesses : KernelState :=
  { System.bare 0x1000 (fun pd a => UInt8.ofNat (pd / 0x1000 + a)) with
    table := fun r =>
      if r = 1 then { freshProcess 1 0xC0001000 0x1B 0x23 0x1000 with state := .running }
      else if r = 2 then freshProcess 2 0xC0002000 0x1B 0x23 0x2000
      else freshProcess 0 0xC0000000 0x08 0x10 0
    processes := [kernelTask, 1, 2]
    current := 1 }

/-- Process 2 sends 40 bytes to process 1, which takes 300 of them at most. -/
def fortyBytes : Transfer where
  kind := .send
  sender := 2
  senderPid := 2
  senderSpace := 0x2000
  receiver := 1
  targetPid := 1
  receiverSpace := 0x1000
  msg := 0x8000000
  dataPtr := 0x8000100
  dataLen := 40
  buf := 0x9000000
  dst := 0x9000100
  capacity := 300
  other := by decide
  pid := by decide
  pointers := by decide
  lengths := by decide
  messageApart := fun _ _ _ _ same => absurd (Prod.mk.inj same).1 (by decide)
  dataApart := fun _ _ _ _ same => absurd (Prod.mk.inj same).1 (by decide)

def sentMessage : Message := readMessage { twoProcesses with cr3 := 0x2000 } 0x8000000

def sentBytes : Nat → UInt8 := readBytes twoProcesses.memory 0x2000 0x8000100

def waitingState : KernelState := (handleSyscall twoProcesses 0xC0000F00 fortyBytes.receiveCall).1

def senderRuns : KernelState := (switchTo (twoProcesses.modify 1 demote) 2 1 0xC0000F00).1

/-- Process 2 waits in `send`, and process 1 runs again. -/
def receiverRuns : KernelState :=
  (switchTo ((handleSyscall senderRuns 0xC0001F00 fortyBytes.call).1.modify kernelTask demote) 1
    kernelTask 0xC0000000).1

theorem waits_first :
    WaitsFirst fortyBytes sentMessage sentBytes twoProcesses 0xC0000F00 waitingState where
  current := rfl
  running := by decide
  blocks := by decide +kernel
  waiting := by decide +kernel
  space := by decide +kernel
  msgPtr := rfl
  dataPtr := rfl
  dataLen := rfl
  sends :=
    { current := by decide +kernel
      space := by decide +kernel
      pid := by decide +kernel
      target := by decide +kernel
      words := rfl
      bytes := by decide +kernel }

theorem queues_first :
    QueuesFirst fortyBytes sentMessage sentBytes senderRuns 0xC0001F00 receiverRuns where
  sends :=
    { current := by decide +kernel
      space := by decide +kernel
      pid := by decide +kernel
      target := by decide +kernel
      words := rfl
      bytes := by decide +kernel }
  busy := by decide +kernel
  current := by decide +kernel
  space := by decide +kernel
  quiet := by decide +kernel
  fetches := by
    refine ⟨rfl, ?_, ?_, rfl, ?_, ?_, ?_, ?_⟩
    · decide +kernel
    · decide +kernel
    · decide +kernel
    · decide +kernel
    · decide +kernel
    · decide +kernel

theorem forty_bytes_either_way :
    let direct := (handleSyscall waitingState 0xC0001F00 fortyBytes.call).1
    let fetched := (handleSyscall receiverRuns 0xC0000F00 fortyBytes.receiveCall).1
    (direct.table 1).frameEax = 2 ∧ (fetched.table 1).frameEax = 2 ∧
      (∀ i, i < 40 → direct.memory 0x1000 (0x9000100 + i) = sentBytes i) ∧
      ∀ i, i < 40 → fetched.memory 0x1000 (0x9000100 + i) = sentBytes i := by
  obtain ⟨arrived, arrived', _, answer, answer', _⟩ :=
    delivery_orders_agree waits_first queues_first 0xC0001F00 0xC0000F00
  have place : ∀ i, i < 40 → u32 (0x9000100 + i) = 0x9000100 + i :=
    fun i below => u32_of_lt (by omega)
  refine ⟨answer, answer', ?_, ?_⟩
  · intro i below
    rw [← place i below]
    exact arrived.data i below
  · intro i below
    rw [← place i below]
    exact arrived'.data i below

end Agreement

end CassiOS.Kernel.DeliveryOrders
