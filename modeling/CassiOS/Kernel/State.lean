import Mathlib.Algebra.GroupWithZero.Nat
import CassiOS.Support.Words

/-!
# Kernel state

Processes, IPC queues and the singletons of the kernel (`core/process.hpp`,
`core/scheduler.hpp`, `hardware/irq.hpp`) as one state. A `Process*` is a `Ref`, the
identity of a process object; `processes` is the linked list of the process manager.
User memory is kept per page directory and survives unchanged until the kernel or the
running program writes it. Nothing in the kernel reads `log`.
-/

namespace CassiOS.Kernel.State

open CassiOS.Support.Words

set_option autoImplicit false

def kernelVbase : Nat := 0xC0000000
def defaultTimeSlice : Nat := 10
def irqNotify : UInt8 := 1

inductive ProcessState
  | empty
  | ready
  | running
  | sendBlocked
  | receiveBlocked
  | waitBlocked
  deriving DecidableEq, Repr

/-- The 24 bytes of an `ipc::Message`: six little-endian words, `type` first. -/
abbrev Message : Type := Fin 24 → UInt8

theorem message_size_ne_zero : (24 : Nat) ≠ 0 := by decide

scoped instance messageNeZero : NeZero 24 := ⟨message_size_ne_zero⟩

structure NotifyNode where
  senderPid : Nat
  msg : Message
  data : Nat → UInt8
  dataLen : Nat

/-- `frameEax` is the `eax` slot of the register frame saved at `esp`. -/
structure Process where
  pid : Nat
  state : ProcessState
  esp : Nat
  frameEax : Nat
  cs : Nat
  ds : Nat
  pageDirectory : Nat
  kernelEsp : Nat
  heapBase : Nat
  heapBreak : Nat
  waitPid : Nat
  msg : Message
  msgPtr : Nat
  dataPtr : Nat
  dataLen : Nat
  sendQueue : List Nat
  notifyQueue : List NotifyNode

abbrev Ref : Type := Nat

/-- The embedded process object of the process manager. -/
def kernelTask : Ref := 0

inductive Event
  /-- A blocking send was accepted. -/
  | sent (sender target : Nat) (msg : Message)
  /-- A notification was accepted. -/
  | notified (sender target : Nat) (msg : Message)
  /-- The message of a blocking send reached the receiver's buffer. -/
  | received (receiver sender : Nat) (msg : Message)
  /-- A notification reached the receiver's buffer. -/
  | heard (receiver sender : Nat) (msg : Message)
  | replied (replier target : Nat)

structure KernelState where
  table : Ref → Process
  processes : List Ref
  current : Ref
  nextPid : Nat
  /-- The identity the next process object gets. -/
  nextRef : Nat
  tickCount : Nat
  timeSlice : Nat
  ticks : Nat
  forwardPid : Nat → Nat
  pendingIrq : Nat → Bool
  cr3 : Nat
  memory : Nat → Nat → UInt8
  /-- Newest event first. -/
  log : List Event

namespace KernelState

def modify (k : KernelState) (r : Ref) (f : Process → Process) : KernelState :=
  { k with table := fun q => if q = r then f (k.table q) else k.table q }

def record (k : KernelState) (event : Event) : KernelState :=
  { k with log := event :: k.log }

section Modify

variable (k : KernelState) (r q : Ref) (f : Process → Process)

theorem table_modify :
    (k.modify r f).table q = if q = r then f (k.table q) else k.table q := rfl

@[simp] theorem table_modify_self : (k.modify r f).table r = f (k.table r) := if_pos rfl

@[simp] theorem table_modify_of_ne (other : q ≠ r) :
    (k.modify r f).table q = k.table q := if_neg other

@[simp] theorem processes_modify : (k.modify r f).processes = k.processes := rfl
@[simp] theorem current_modify : (k.modify r f).current = k.current := rfl
@[simp] theorem next_pid_modify : (k.modify r f).nextPid = k.nextPid := rfl
@[simp] theorem next_ref_modify : (k.modify r f).nextRef = k.nextRef := rfl
@[simp] theorem tick_count_modify : (k.modify r f).tickCount = k.tickCount := rfl
@[simp] theorem time_slice_modify : (k.modify r f).timeSlice = k.timeSlice := rfl
@[simp] theorem forward_pid_modify : (k.modify r f).forwardPid = k.forwardPid := rfl
@[simp] theorem pending_irq_modify : (k.modify r f).pendingIrq = k.pendingIrq := rfl
@[simp] theorem log_modify : (k.modify r f).log = k.log := rfl

theorem modify_const : k.modify r (fun _ => f (k.table r)) = k.modify r f := by
  unfold modify
  congr
  funext q
  by_cases same : q = r
  · rw [if_pos same, if_pos same, same]
  · rw [if_neg same, if_neg same]

/-- A part of the process records that an update keeps is kept everywhere. -/
theorem modify_keeps {α : Type} (field : Process → α)
    (keeps : field (f (k.table r)) = field (k.table r)) :
    field ((k.modify r f).table q) = field (k.table q) := by
  by_cases same : q = r
  · subst same
    rw [table_modify_self, keeps]
  · rw [table_modify_of_ne k r q f same]

end Modify

end KernelState

/-! ## User memory -/

/-- The bytes from `src` on in one address space. -/
def readBytes (memory : Nat → Nat → UInt8) (space src : Nat) : Nat → UInt8 :=
  fun i => memory space (u32 (src + i))

def writeBytes (memory : Nat → Nat → UInt8) (space dst len : Nat) (bytes : Nat → UInt8) :
    Nat → Nat → UInt8 :=
  fun pd a =>
    if pd = space ∧ u32 (a + 4294967296 - dst) < len then
      bytes (u32 (a + 4294967296 - dst))
    else memory pd a

/-- The address space a pointer of `target` is followed in: its own page directory when
it has one, else the loaded one. -/
def spaceOf (k : KernelState) (target : Ref) : Nat :=
  if (k.table target).pageDirectory ≠ 0 then (k.table target).pageDirectory else k.cr3

/-- `copyMessage` from a user pointer of the running process. -/
def readMessage (k : KernelState) (src : Nat) : Message :=
  fun i => readBytes k.memory k.cr3 src i.val

def messageBytes (msg : Message) : Nat → UInt8 := fun i => msg (Fin.ofNat 24 i)

/-- `copyMessage` to a user pointer of the running process. -/
def writeMessage (k : KernelState) (dst : Nat) (msg : Message) : KernelState :=
  { k with memory := writeBytes k.memory k.cr3 dst 24 (messageBytes msg) }

def copyMessageToProcess (k : KernelState) (target : Ref) (dst : Nat) (msg : Message) :
    KernelState :=
  { k with memory := writeBytes k.memory (spaceOf k target) dst 24 (messageBytes msg) }

/-- The chunks of the source are one copy: its two buffers lie in different spaces. -/
def copyDataToProcess (k : KernelState) (target : Ref) (dst src len : Nat) : KernelState :=
  { k with
    memory := writeBytes k.memory (spaceOf k target) dst len (readBytes k.memory k.cr3 src) }

def copyDataFromProcess (k : KernelState) (source : Ref) (dst src len : Nat) : KernelState :=
  { k with
    memory := writeBytes k.memory k.cr3 dst len (readBytes k.memory (spaceOf k source) src) }

section Memory

variable (k : KernelState) (r : Ref) (dst src len : Nat) (msg : Message)

/-- A state in which only user memory may differ from `k`. -/
def withMemory (memory : Nat → Nat → UInt8) : KernelState := { k with memory := memory }

theorem write_message_eq : ∃ memory, writeMessage k dst msg = withMemory k memory := ⟨_, rfl⟩

theorem copy_message_to_process_eq :
    ∃ memory, copyMessageToProcess k r dst msg = withMemory k memory := ⟨_, rfl⟩

theorem copy_data_to_process_eq :
    ∃ memory, copyDataToProcess k r dst src len = withMemory k memory := ⟨_, rfl⟩

theorem copy_data_from_process_eq :
    ∃ memory, copyDataFromProcess k r dst src len = withMemory k memory := ⟨_, rfl⟩

end Memory

end CassiOS.Kernel.State
