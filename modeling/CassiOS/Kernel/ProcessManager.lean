import CassiOS.Kernel.State
import Mathlib.Data.List.Nodup

/-!
# Process manager

`core/process.cpp`: the two IPC queues of a process, creation and destruction of
processes, lookup by PID. Allocations that may fail are answered by the caller: a flag
for `operator new`, an address that is 0 on failure for `allocFrame`. A refused `new` is the
null pointer that the code tests for; that the constructor of `Process` faults on it before the
test is in `Kernel.FailedExec`.
-/

namespace CassiOS.Kernel.ProcessManager

open CassiOS.Support.Words
open CassiOS.Kernel.State

set_option autoImplicit false

/-! ## Queues -/

def appendSender (senderPid : Nat) (p : Process) : Process :=
  { p with sendQueue := p.sendQueue ++ [senderPid] }

def dropSender (p : Process) : Process := { p with sendQueue := p.sendQueue.tail }

def sendQueuePush (p : Process) (senderPid : Nat) (node : Bool) : Option Process :=
  if node then some (appendSender senderPid p) else none

/-- An empty queue answers PID 0. -/
def sendQueuePop (p : Process) : Nat × Process := (p.sendQueue.headD 0, dropSender p)

def appendNotify (node : NotifyNode) (p : Process) : Process :=
  { p with notifyQueue := p.notifyQueue ++ [node] }

def dropNotify (p : Process) : Process := { p with notifyQueue := p.notifyQueue.tail }

/-- `bytes` are the sender's bulk data; `node` and `data` answer the two allocations. -/
def notifyPush (p : Process) (senderPid : Nat) (m : Message) (bytes : Nat → UInt8)
    (dataPtr dataLen : Nat) (node data : Bool) : Option Process :=
  if !node then none
  else if dataPtr ≠ 0 ∧ 0 < dataLen then
    if data then some (appendNotify ⟨senderPid, m, bytes, dataLen⟩ p) else none
  else some (appendNotify ⟨senderPid, m, fun _ => 0, 0⟩ p)

def notifyPop (p : Process) : Option (NotifyNode × Process) :=
  match p.notifyQueue with
  | [] => none
  | node :: _ => some (node, dropNotify p)

/-! ## Lookup -/

def get (k : KernelState) (pid : Nat) : Option Ref :=
  k.processes.find? fun r => (k.table r).pid = pid ∧ (k.table r).state ≠ .empty

def getHead (k : KernelState) : Ref := k.processes.headD kernelTask

def getProcessCount (k : KernelState) : Nat := k.processes.length

/-! ## Creation -/

def freshProcess (pid esp cs ds pageDirectory : Nat) : Process where
  pid := pid
  state := .ready
  esp := esp
  frameEax := 0
  cs := cs
  ds := ds
  pageDirectory := pageDirectory
  kernelEsp := 0
  heapBase := 0
  heapBreak := 0
  waitPid := 0
  msg := fun _ => 0
  msgPtr := 0
  dataPtr := 0
  dataLen := 0
  sendQueue := []
  notifyQueue := []

def create (k : KernelState) (esp cs ds pageDirectory : Nat) (process : Bool) :
    KernelState × Option Ref :=
  if process then
    ({ k with
        table := fun q =>
          if q = k.nextRef then freshProcess k.nextPid esp cs ds pageDirectory else k.table q
        processes := k.processes ++ [k.nextRef]
        nextPid := u32 (k.nextPid + 1)
        nextRef := k.nextRef + 1 },
      some k.nextRef)
  else (k, none)

structure Loading where
  buffer : Bool
  pdPhysical : Nat
  success : Bool
  entryPoint : Nat
  heapStart : Nat
  userStackFrame : Nat
  kernelStackFrame : Nat
  process : Bool

def frameSize : Nat := 4096

/-- The initial interrupt frame of a process is 19 words. -/
def spawn (k : KernelState) (loading : Loading) (userCS userDS : Nat) :
    KernelState × Option Ref :=
  if loading.userStackFrame = 0 then (k, none)
  else if loading.kernelStackFrame = 0 then (k, none)
  else
    let kernelStackTop := u32 (loading.kernelStackFrame + kernelVbase + frameSize)
    match create k (u32 (kernelStackTop + 4294967296 - 76)) userCS userDS loading.pdPhysical
        loading.process with
    | (k, none) => (k, none)
    | (k, some proc) =>
        (k.modify proc fun p =>
          { p with
            kernelEsp := kernelStackTop
            heapBase := loading.heapStart
            heapBreak := loading.heapStart },
          some proc)

/-! ## Destruction -/

/-- A blocked process becomes ready with `result` as the value its system call returns. -/
def wake (result : Nat) (p : Process) : Process :=
  { p with
    frameEax := if kernelVbase ≤ p.esp then result else p.frameEax
    state := .ready }

/-- One node of the send queue of a process that is destroyed. -/
def wakeSender (k : KernelState) (senderPid : Nat) : KernelState :=
  match get k senderPid with
  | some sender =>
      if (k.table sender).state = .sendBlocked then k.modify sender (wake (asU32 (-1))) else k
  | none => k

def wakeWaiters (k : KernelState) (pid : Nat) : KernelState :=
  { k with
    table := fun r =>
      if r ∈ k.processes ∧ (k.table r).state = .waitBlocked ∧ (k.table r).waitPid = pid then
        wake 0 (k.table r)
      else k.table r }

def destroy (k : KernelState) (pid : Nat) : KernelState :=
  if pid = 0 then k
  else match get k pid with
  | none => k
  | some p =>
      let k := (k.table p).sendQueue.foldl wakeSender k
      let k := k.modify p fun q => { q with sendQueue := [] }
      let k := wakeWaiters k pid
      let k := k.modify p fun q =>
        { q with notifyQueue := [], pageDirectory := 0, kernelEsp := 0 }
      { k with processes := k.processes.erase p }

end CassiOS.Kernel.ProcessManager
