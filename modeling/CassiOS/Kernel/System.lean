import CassiOS.Kernel.Syscall
import CassiOS.Support.TransitionSystem

/-!
# The kernel as a transition system

`boot` is the state at the end of `start()` of `core/kernel.cpp`. From there the running
program changes its own memory or makes a system call, and interrupts arrive; each is one
step. The kernel task only idles, so it makes no system call. A register frame lies on a
kernel stack, above `KERNEL_VBASE`.
-/

namespace CassiOS.Kernel.System

open CassiOS.Support.Words
open CassiOS.Support.TransitionSystem
open CassiOS.Kernel.State
open CassiOS.Kernel.ProcessManager
open CassiOS.Kernel.Irq
open CassiOS.Kernel.Syscall

set_option autoImplicit false

def kernelProcess : Process :=
  { freshProcess 0 0 0x08 0x10 0 with state := .running }

/-- The kernel before any module is loaded; `cr3` and `memory` are what paging left. -/
def bare (cr3 : Nat) (memory : Nat → Nat → UInt8) : KernelState where
  table := fun _ => kernelProcess
  processes := [kernelTask]
  current := kernelTask
  nextPid := 1
  nextRef := 1
  tickCount := 0
  timeSlice := defaultTimeSlice
  ticks := 0
  forwardPid := fun _ => 0
  pendingIrq := fun _ => false
  cr3 := cr3
  memory := memory
  log := []

def userCS : Nat := 0x18 ||| 3
def userDS : Nat := 0x20 ||| 3

def loadModule (k : KernelState) (loading : Loading) : KernelState :=
  if loading.pdPhysical = 0 then k
  else if !loading.success then k
  else (spawn k loading userCS userDS).1

def boot (cr3 : Nat) (memory : Nat → Nat → UInt8) (modules : List Loading) : KernelState :=
  modules.foldl loadModule (bare cr3 memory)

inductive Action
  /-- The running program replaces the contents of its address space. -/
  | user (bytes : Nat → UInt8)
  | syscall (esp : Nat) (call : Call)
  | irq (number esp : Nat)

def runUser (k : KernelState) (bytes : Nat → UInt8) : KernelState :=
  { k with memory := fun pd a => if pd = k.cr3 then bytes a else k.memory pd a }

def step (k : KernelState) : Action → Option KernelState
  | .user bytes => if k.current ≠ kernelTask then some (runUser k bytes) else none
  | .syscall esp call =>
      if k.current ≠ kernelTask ∧ kernelVbase ≤ esp then some (handleSyscall k esp call).1
      else none
  | .irq number esp =>
      if kernelVbase ≤ esp then some (handleIrq k number esp).1 else none

/-- Whether every allocation of a program start succeeds and the image is accepted. -/
def Starts (elfPtr elfSize : Nat) (loading : Loading) : Prop :=
  elfPtr ≠ 0 ∧ elfSize ≠ 0 ∧ loading.buffer = true ∧ loading.pdPhysical ≠ 0 ∧
    loading.success = true ∧ loading.userStackFrame ≠ 0 ∧ loading.kernelStackFrame ≠ 0 ∧
    loading.process = true

/-- No process is created once `nextPid` has wrapped around to the kernel task's PID. -/
def FreshPid (k : KernelState) : Action → Prop
  | .syscall _ (.exec elfPtr elfSize loading) => Starts elfPtr elfSize loading → k.nextPid ≠ 0
  | _ => True

/-- The states of every run from the end of `start()`; `mods_count` is a `u32`. -/
def Reaches (admits : KernelState → Action → Prop) (k : KernelState) : Prop :=
  ∃ cr3 memory modules, modules.length < 4294967296 ∧
    Run step admits (boot cr3 memory modules) k

theorem Reaches.weaken {admits admits' : KernelState → Action → Prop}
    {k : KernelState} (reached : Reaches admits k)
    (wider : ∀ k action, admits k action → admits' k action) :
    Reaches admits' k := by
  obtain ⟨cr3, memory, modules, few, run⟩ := reached
  exact ⟨cr3, memory, modules, few, run.weaken wider⟩

end CassiOS.Kernel.System
