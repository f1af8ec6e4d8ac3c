import CassiOS.Kernel.Irq

/-!
# System calls

The handlers of `core/syscall.cpp` that act on processes and messages. A handler is given
its arguments, and an answer for each allocation it makes; it returns the new state and
its result. `handleSyscall` takes the call and the address of its frame instead of
decoding the saved registers.
-/

namespace CassiOS.Kernel.Syscall

open CassiOS.Support.Words
open CassiOS.Kernel.State
open CassiOS.Kernel.ProcessManager
open CassiOS.Kernel.Scheduler
open CassiOS.Kernel.Irq

set_option autoImplicit false

/-- Bulk data go along when both sides name a buffer. -/
def bothBuffers (dataPtr dataLen otherPtr otherLen : Nat) : Prop :=
  dataPtr ≠ 0 ∧ 0 < dataLen ∧ otherPtr ≠ 0 ∧ 0 < otherLen

instance (dataPtr dataLen otherPtr otherLen : Nat) :
    Decidable (bothBuffers dataPtr dataLen otherPtr otherLen) :=
  inferInstanceAs (Decidable (_ ∧ _ ∧ _ ∧ _))

/-- Bulk data from the running process to the buffer `target` registered. -/
def copyBulk (k : KernelState) (target : Ref) (dataPtr dataLen : Nat) : KernelState :=
  if bothBuffers dataPtr dataLen (k.table target).dataPtr (k.table target).dataLen then
    copyDataToProcess k target (k.table target).dataPtr dataPtr
      (min dataLen (k.table target).dataLen)
  else k

def setResult (eax : Nat) (p : Process) : Process :=
  { p with frameEax := eax, state := .ready }

/-- A message for a process that waits in `receive` or `send`: into its buffer, and the
process is ready with `eax` as the value its call returns. -/
def deliver (k : KernelState) (target : Ref) (msg : Message) (dataPtr dataLen eax : Nat) :
    KernelState :=
  let k := copyMessageToProcess k target (k.table target).msgPtr msg
  let k := copyBulk k target dataPtr dataLen
  k.modify target (setResult eax)

def block (state : ProcessState) (p : Process) : Process := { p with state := state }

def outgoing (msg : Message) (msgPtr dataPtr dataLen : Nat) (p : Process) : Process :=
  { p with msg := msg, msgPtr := msgPtr, dataPtr := dataPtr, dataLen := dataLen }

def send (k : KernelState) (targetPid msg dataPtr dataLen : Nat) (node : Bool) :
    KernelState × Int :=
  let sender := k.current
  match get k targetPid with
  | none => (k, -1)
  | some target =>
      if target = sender then (k, -1)
      else
        let words := readMessage k msg
        let senderPid := (k.table sender).pid
        let k := k.modify sender (outgoing words msg dataPtr dataLen)
        if (k.table target).state = .receiveBlocked then
          let k := deliver k target words dataPtr dataLen senderPid
          let k := (k.record (.sent senderPid (k.table target).pid words)).record
            (.received (k.table target).pid senderPid words)
          (k.modify sender (block .sendBlocked), 0)
        else
          match sendQueuePush (k.table target) senderPid node with
          | none => (k, -1)
          | some pushed =>
              let k := k.modify target fun _ => pushed
              let k := k.record (.sent senderPid (k.table target).pid words)
              (k.modify sender (block .sendBlocked), 0)

/-- The head of the send queue is taken; its message is read from the sender's process. -/
def receiveQueued (k : KernelState) (msg dataPtr dataCapacity : Nat) : KernelState × Int :=
  let receiver := k.current
  let (senderPid, popped) := sendQueuePop (k.table receiver)
  let k := k.modify receiver fun _ => popped
  match get k senderPid with
  | none => (k, -1)
  | some sender =>
      let words := (k.table sender).msg
      let k := writeMessage k msg words
      let k :=
        if bothBuffers (k.table sender).dataPtr (k.table sender).dataLen dataPtr dataCapacity
        then copyDataFromProcess k sender dataPtr (k.table sender).dataPtr
          (min (k.table sender).dataLen dataCapacity)
        else k
      let k := k.record (.received (k.table receiver).pid senderPid words)
      (k, asI32 senderPid)

/-- The head of the notification queue, with the bulk data kept for it. -/
def receiveNotified (k : KernelState) (msg dataPtr dataCapacity : Nat) (node : NotifyNode)
    (popped : Process) : KernelState :=
  let receiver := k.current
  let k := k.modify receiver fun _ => popped
  let k := writeMessage k msg node.msg
  let k :=
    if 0 < node.dataLen ∧ dataPtr ≠ 0 ∧ 0 < dataCapacity then
      { k with memory :=
          writeBytes k.memory k.cr3 dataPtr (min node.dataLen dataCapacity) node.data }
    else k
  k.record (.heard (k.table receiver).pid node.senderPid node.msg)

def receiveBuffer (dataPtr dataCapacity : Nat) (p : Process) : Process :=
  { p with dataPtr := dataPtr, dataLen := dataCapacity }

def waitForMessage (msg : Nat) (p : Process) : Process :=
  { p with msgPtr := msg, state := .receiveBlocked }

def receive (k : KernelState) (msg dataPtr dataCapacity : Nat) : KernelState × Int :=
  let receiver := k.current
  let k := k.modify receiver (receiveBuffer dataPtr dataCapacity)
  match deliverPending k (k.table receiver).pid msg with
  | (k, true) => (k, -2)
  | (k, false) =>
      match notifyPop (k.table receiver) with
      | some (node, popped) => (receiveNotified k msg dataPtr dataCapacity node popped, -3)
      | none =>
          if (k.table receiver).sendQueue ≠ [] then receiveQueued k msg dataPtr dataCapacity
          else (k.modify receiver (waitForMessage msg), 0)

/-- The caller's identity plays no part. -/
def reply (k : KernelState) (targetPid msg dataPtr dataLen : Nat) : KernelState × Int :=
  match get k targetPid with
  | none => (k, -1)
  | some target =>
      if (k.table target).state ≠ .sendBlocked then (k, -1)
      else
        let k := deliver k target (readMessage k msg) dataPtr dataLen 0
        (k.record (.replied (k.table k.current).pid (k.table target).pid), 0)

def notify (k : KernelState) (targetPid msg dataPtr dataLen : Nat) (node data : Bool) :
    KernelState × Int :=
  let sender := k.current
  match get k targetPid with
  | none => (k, -1)
  | some target =>
      if target = sender then (k, -1)
      else
        let temp := readMessage k msg
        let senderPid := (k.table sender).pid
        if (k.table target).state = .receiveBlocked then
          let k := deliver k target temp dataPtr dataLen 0
          ((k.record (.notified senderPid (k.table target).pid temp)).record
            (.heard (k.table target).pid senderPid temp), 0)
        else
          match notifyPush (k.table target) senderPid temp
              (readBytes k.memory k.cr3 dataPtr) dataPtr dataLen node data with
          | none => (k, -1)
          | some pushed =>
              let k := k.modify target fun _ => pushed
              (k.record (.notified senderPid (k.table target).pid temp), 0)

/-- The ELF image is copied, loaded into a new address space and started. -/
def exec (k : KernelState) (elfPtr elfSize : Nat) (loading : Loading) : KernelState × Nat :=
  if elfPtr = 0 ∨ elfSize = 0 then (k, 0)
  else if !loading.buffer then (k, 0)
  else if loading.pdPhysical = 0 then (k, 0)
  else if !loading.success then (k, 0)
  else
    let caller := k.table k.current
    match spawn k loading caller.cs caller.ds with
    | (k, none) => (k, 0)
    | (k, some child) => (k, (k.table child).pid)

def waitFor (pid : Nat) (p : Process) : Process :=
  { p with waitPid := pid, state := .waitBlocked }

def waitpid (k : KernelState) (pid : Nat) : KernelState × Int :=
  let caller := k.current
  match get k pid with
  | none => (k, -1)
  | some target => if target = caller then (k, -1) else (k.modify caller (waitFor pid), 0)

/-- A system call with its arguments and the answers to its allocations. -/
inductive Call
  | send (targetPid msg dataPtr dataLen : Nat) (node : Bool)
  | receive (msg dataPtr dataCapacity : Nat)
  | reply (targetPid msg dataPtr dataLen : Nat)
  | notify (targetPid msg dataPtr dataLen : Nat) (node data : Bool)
  | irqRegister (irq : Nat)
  | exec (elfPtr elfSize : Nat) (loading : Loading)
  | waitpid (pid : Nat)
  | exit

/-- `frame->eax` of the running process. -/
def returnValue (k : KernelState) (eax : Nat) : KernelState :=
  k.modify k.current fun p => { p with frameEax := eax }

/-- A result of zero means that the caller blocks. -/
def blockOrReturn (k : KernelState) (esp : Nat) (result : Int) : KernelState × Nat :=
  if result = 0 then reschedule k esp else (returnValue k (asU32 result), esp)

def handleSyscall (k : KernelState) (esp : Nat) : Call → KernelState × Nat
  | .send targetPid msg dataPtr dataLen node =>
      let (k, result) := send k targetPid msg dataPtr dataLen node
      blockOrReturn k esp result
  | .receive msg dataPtr dataCapacity =>
      let (k, result) := receive k msg dataPtr dataCapacity
      if result = -2 ∨ result = -3 then (returnValue k 0, esp) else blockOrReturn k esp result
  | .reply targetPid msg dataPtr dataLen =>
      let (k, result) := reply k targetPid msg dataPtr dataLen
      (returnValue k (asU32 result), esp)
  | .notify targetPid msg dataPtr dataLen node data =>
      let (k, result) := notify k targetPid msg dataPtr dataLen node data
      (returnValue k (asU32 result), esp)
  | .irqRegister irq =>
      let (k, result) := registerForward k (irq % 256) (k.table k.current).pid
      (returnValue k (asU32 result), esp)
  | .exec elfPtr elfSize loading =>
      let (k, child) := exec k elfPtr elfSize loading
      (returnValue k child, esp)
  | .waitpid pid =>
      let (k, result) := waitpid k pid
      blockOrReturn k esp result
  | .exit => exitCurrent k

end CassiOS.Kernel.Syscall
