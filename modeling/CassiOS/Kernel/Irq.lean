import CassiOS.Kernel.Scheduler

/-!
# Interrupt requests

`hardware/irq.cpp`, with the one in-kernel handler the kernel registers: the timer of
`hardware/pit.cpp` on line 0.
-/

namespace CassiOS.Kernel.Irq

open CassiOS.Support.Words
open CassiOS.Kernel.State
open CassiOS.Kernel.ProcessManager
open CassiOS.Kernel.Scheduler

set_option autoImplicit false

def irqOffset : Nat := 0x20
def irqLines : Nat := 16

/-- `type` is `IrqNotify`, `arg1` the line, the other words are zero. -/
def irqMessage (irq : Nat) : Message :=
  fun i => if i = 0 then irqNotify else if i = 4 then UInt8.ofNat irq else 0

namespace PitTimer

def handleInterrupt (k : KernelState) (esp : Nat) : KernelState × Nat :=
  schedule { k with ticks := u32 (k.ticks + 1) } esp

end PitTimer

/-- `handlers[irq]` when one is registered. -/
def runHandler (k : KernelState) (irq esp : Nat) : KernelState × Nat :=
  if irq = 0 then PitTimer.handleInterrupt k esp else (k, esp)

def setPending (k : KernelState) (irq : Nat) (value : Bool) : KernelState :=
  { k with pendingIrq := fun line => if line = irq then value else k.pendingIrq line }

/-- The message is delivered to a process that waits for one and remembered otherwise. -/
def forward (k : KernelState) (irq : Nat) : KernelState :=
  if irq < irqLines ∧ k.forwardPid irq ≠ 0 then
    match get k (k.forwardPid irq) with
    | none => k
    | some target =>
        if (k.table target).state = .receiveBlocked then
          let k := copyMessageToProcess k target (k.table target).msgPtr (irqMessage irq)
          k.modify target fun p => { p with frameEax := 0, state := .ready }
        else setPending k irq true
  else k

/-- `number - IRQ_OFFSET` in a `u8`. -/
def lineOf (number : Nat) : Nat := (number + 256 - irqOffset) % 256

def handleIrq (k : KernelState) (number esp : Nat) : KernelState × Nat :=
  let irq := lineOf number
  let handled := runHandler k irq esp
  (forward handled.1 irq, handled.2)

def registerForward (k : KernelState) (irq pid : Nat) : KernelState × Int :=
  if irqLines ≤ irq then (k, -1)
  else ({ k with forwardPid := fun line => if line = irq then pid else k.forwardPid line }, 0)

def pendingFor (k : KernelState) (pid irq : Nat) : Bool :=
  k.forwardPid irq = pid && k.pendingIrq irq

def deliverPending (k : KernelState) (pid msg : Nat) : KernelState × Bool :=
  match (List.range irqLines).find? (pendingFor k pid) with
  | some irq => (writeMessage (setPending k irq false) msg (irqMessage irq), true)
  | none => (k, false)

end CassiOS.Kernel.Irq
