import CassiOS.Kernel.ProcessMemory
import CassiOS.Kernel.System

/-!
# The kernel and its frames

`Machine` joins the scheduling state with the memory of the machine: what `exec` and the
boot code are answered by the allocators and the ELF loader is computed from the frames,
and a process that exits gives its frames back.
-/

namespace CassiOS.Kernel.MemorySystem

open CassiOS.Support.Words
open CassiOS.Kernel.State
open CassiOS.Kernel.ProcessManager
open CassiOS.Kernel.Syscall (Call)
open CassiOS.Kernel.System (bare)
open CassiOS.Memory.Paging
open CassiOS.Kernel.ElfLoader
open CassiOS.Kernel.ProcessMemory (UserProcess userStackPage loadModule)

set_option autoImplicit false

structure Machine where
  kernel : KernelState
  memory : MemoryState

/-- The part of a process record that `destroy` gives back. -/
def userProcess (p : Process) : UserProcess :=
  ⟨p.pageDirectory, p.kernelEsp, p.heapBase, p.heapBreak⟩

section Loading

variable (elfData : Nat → UInt8) (elfSize : Nat) (buffer process : Bool)

/-- The answers of the allocators and of the loader to one start of a program. -/
def loading (m : MemoryState) : Loading :=
  let (pdPhysical, m) := createAddressSpace m
  let (elf, m) := load elfData elfSize pdPhysical m
  let (userStackFrame, m) := takeFrame m
  let (kernelStackFrame, _) :=
    takeFrame (mapUserPage pdPhysical userStackPage userStackFrame userFlags m)
  { buffer := buffer
    pdPhysical := pdPhysical
    success := elf.success
    entryPoint := elf.entryPoint
    heapStart := elf.heapStart
    userStackFrame := userStackFrame
    kernelStackFrame := kernelStackFrame
    process := process }

/-- Whether the answers let a process be created. -/
def Created (l : Loading) : Prop :=
  l.pdPhysical ≠ 0 ∧ l.success = true ∧ l.userStackFrame ≠ 0 ∧ l.kernelStackFrame ≠ 0 ∧
    l.process = true

/-- The memory side creates a process exactly when the answers say so, and the same one. -/
theorem load_module_loading (m : MemoryState) :
    (Created (loading elfData elfSize buffer process m) ∧
        (loadModule elfData elfSize process m).1 =
          some ⟨(loading elfData elfSize buffer process m).pdPhysical,
            u32 ((loading elfData elfSize buffer process m).kernelStackFrame + kernelVbase +
              Memory.Physical.frameSize),
            (loading elfData elfSize buffer process m).heapStart,
            (loading elfData elfSize buffer process m).heapStart⟩) ∨
      (¬ Created (loading elfData elfSize buffer process m) ∧
        (loadModule elfData elfSize process m).1 = none) := by
  unfold loading loadModule Created
  rcases createAddressSpace m with ⟨pdPhysical, made⟩
  dsimp only
  by_cases zero : pdPhysical = 0
  · simp only [if_pos zero]
    exact .inr ⟨fun all => all.1 zero, trivial⟩
  · simp only [if_neg zero]
    rcases load elfData elfSize pdPhysical made with ⟨elf, filled⟩
    dsimp only
    cases success : elf.success with
    | false =>
        simp only [Bool.not_false, if_true]
        exact .inr ⟨fun all => Bool.noConfusion all.2.1, trivial⟩
    | true =>
        simp only [Bool.not_true, Bool.false_eq_true, if_false]
        unfold ProcessMemory.spawn
        rcases takeFrame filled with ⟨userStackFrame, taken⟩
        dsimp only
        by_cases noStack : userStackFrame = 0
        · simp only [if_pos noStack]
          exact .inr ⟨fun all => all.2.2.1 noStack, trivial⟩
        · simp only [if_neg noStack]
          rcases takeFrame (mapUserPage pdPhysical userStackPage userStackFrame userFlags taken)
            with ⟨kernelStackFrame, final⟩
          dsimp only
          by_cases noKernelStack : kernelStackFrame = 0
          · simp only [if_pos noKernelStack]
            exact .inr ⟨fun all => all.2.2.2.1 noKernelStack, trivial⟩
          · simp only [if_neg noKernelStack]
            cases process with
            | true =>
                simp only [if_true]
                exact .inl ⟨⟨zero, trivial, noStack, noKernelStack, trivial⟩, rfl⟩
            | false =>
                simp only [Bool.false_eq_true, if_false]
                exact .inr ⟨fun all => all.2.2.2.2.elim, trivial⟩

end Loading

section Steps

inductive Action
  | user (bytes : Nat → UInt8)
  | syscall (esp : Nat) (call : Call)
  /-- `elfData` is the image as the loader sees it in the kernel's buffer; `buffer` and
  `process` say whether the kernel heap has room for it and for the process object. -/
  | exec (esp elfPtr elfSize : Nat) (elfData : Nat → UInt8) (buffer process : Bool)
  | irq (number esp : Nat)

def kernelAction (m : MemoryState) : Action → System.Action
  | .user bytes => .user bytes
  | .syscall esp call => .syscall esp call
  | .exec esp elfPtr elfSize elfData buffer process =>
      .syscall esp (.exec elfPtr elfSize (loading elfData elfSize buffer process m))
  | .irq number esp => .irq number esp

/-- The memory side of `ProcessManager::destroy`. -/
def destroyMemory (k : KernelState) (pid : Nat) (m : MemoryState) : MemoryState :=
  if pid = 0 then m
  else
    match get k pid with
    | none => m
    | some p => ProcessMemory.destroy (userProcess (k.table p)) m

def memoryAfter (k : KernelState) (m : MemoryState) : Action → MemoryState
  | .exec _ elfPtr elfSize elfData buffer process =>
      if elfPtr = 0 ∨ elfSize = 0 then m
      else if !buffer then m
      else (ProcessMemory.exec elfData elfSize process m).2
  | .syscall _ .exit => destroyMemory k (k.table k.current).pid m
  | _ => m

/-- A program start goes through `Action.exec`, which computes its answers. -/
def answered : Action → Bool
  | .syscall _ (.exec _ _ _) => false
  | _ => true

def step (s : Machine) (action : Action) : Option Machine :=
  if answered action then
    (System.step s.kernel (kernelAction s.memory action)).map fun k =>
      ⟨k, memoryAfter s.kernel s.memory action⟩
  else none

/-- A multiboot module with the answer to the allocation of its process object. -/
structure Module where
  elfData : Nat → UInt8
  elfSize : Nat
  process : Bool

def bootModule (s : Machine) (module : Module) : Machine where
  kernel := System.loadModule s.kernel
    (loading module.elfData module.elfSize true module.process s.memory)
  memory := (loadModule module.elfData module.elfSize module.process s.memory).2

/-- The machine at the end of `start()`; `kernelPd` is the address of the kernel's page
directory, which `PagingManager::init` has loaded. -/
def boot (kernelPd : Nat) (bytes : Nat → Nat → UInt8) (m : MemoryState) (modules : List Module) :
    Machine := modules.foldl bootModule ⟨bare kernelPd bytes, m⟩

end Steps

end CassiOS.Kernel.MemorySystem
