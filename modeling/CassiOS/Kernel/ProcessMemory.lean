import CassiOS.Kernel.ElfLoader
import CassiOS.Memory.Ownership
import CassiOS.Support.TransitionSystem

/-!
# Memory of a user process

What `exec`, `sbrk`, `mapDevice` and the exit of a process do to frames and page tables.
The kernel heap is a fixed region, so its allocations take no frames.
-/

namespace CassiOS.Kernel.ProcessMemory

open CassiOS.Support.Words
open CassiOS.Memory.Physical
open CassiOS.Memory.Paging
open CassiOS.Kernel.ElfLoader

set_option autoImplicit false

/-- The fields of `Process` that concern its memory. -/
structure UserProcess where
  pageDirectory : Nat
  kernelEsp : Nat
  heapBase : Nat
  heapBreak : Nat
  deriving DecidableEq, Repr

def userStackPage : Nat := 0xBFFFF000

section Creation

/-- `ProcessManager::spawn`; `process` says whether `create` gets its process. -/
def spawn (pdPhysical heapStart : Nat) (process : Bool) (m : MemoryState) :
    Option UserProcess × MemoryState :=
  let (userStackFrame, m) := takeFrame m
  if userStackFrame = 0 then (none, m)
  else
    let m := mapUserPage pdPhysical userStackPage userStackFrame userFlags m
    let (kernelStackFrame, m) := takeFrame m
    if kernelStackFrame = 0 then (none, m)
    else
      let kernelStackTop := u32 (kernelStackFrame + kernelVbase + frameSize)
      if process then (some ⟨pdPhysical, kernelStackTop, heapStart, heapStart⟩, m)
      else (none, freeFrames m [kernelStackFrame])

/-- One multiboot module at boot: what fails here is not taken back. -/
def loadModule (elfData : Nat → UInt8) (elfSize : Nat) (process : Bool) (m : MemoryState) :
    Option UserProcess × MemoryState :=
  let (pdPhysical, m) := createAddressSpace m
  if pdPhysical = 0 then (none, m)
  else
    let (elf, m) := load elfData elfSize pdPhysical m
    if !elf.success then (none, m)
    else spawn pdPhysical elf.heapStart process m

/-- `SyscallHandler::exec` once the image is in a kernel buffer. -/
def exec (elfData : Nat → UInt8) (elfSize : Nat) (process : Bool) (m : MemoryState) :
    Option UserProcess × MemoryState :=
  let (pdPhysical, m) := createAddressSpace m
  if pdPhysical = 0 then (none, m)
  else
    let (elf, m) := load elfData elfSize pdPhysical m
    if !elf.success then (none, destroyAddressSpace pdPhysical m)
    else
      match spawn pdPhysical elf.heapStart process m with
      | (none, m) => (none, destroyAddressSpace pdPhysical m)
      | (some child, m) => (some child, m)

/-- `exec` does what boot does for a module, and destroys the address space on failure. -/
theorem exec_eq (elfData : Nat → UInt8) (elfSize : Nat) (process : Bool) (m : MemoryState) :
    exec elfData elfSize process m =
      match loadModule elfData elfSize process m with
      | (some child, after) => (some child, after)
      | (none, after) =>
          (none, if (createAddressSpace m).1 = 0 then after
            else destroyAddressSpace (createAddressSpace m).1 after) := by
  unfold exec loadModule
  rcases createAddressSpace m with ⟨pdPhysical, made⟩
  dsimp only
  by_cases nonzero : pdPhysical = 0
  · simp only [if_pos nonzero]
  · simp only [if_neg nonzero]
    rcases load elfData elfSize pdPhysical made with ⟨elf, filled⟩
    dsimp only
    by_cases failed : (!elf.success) = true
    · simp only [if_pos failed]
    · simp only [if_neg failed]
      rcases spawn pdPhysical elf.heapStart process filled with ⟨_ | child, after⟩
      · rfl
      · rfl

end Creation

section Calls

/-- The loop of `sbrk` over page addresses; the flag is clear when there was no frame. -/
def growHeap (pdPhysical : Nat) : List Nat → MemoryState → Bool × MemoryState
  | [], m => (true, m)
  | addr :: rest, m =>
      let (frame, m) := takeFrame m
      if frame = 0 then (false, m)
      else growHeap pdPhysical rest (mapUserPage pdPhysical addr frame userFlags m)

/-- `for (addr = oldBreak; addr < newBreak; addr += FRAME_SIZE)`. -/
def heapPages (oldBreak newBreak : Nat) : List Nat :=
  (List.range ((newBreak - oldBreak + (frameSize - 1)) / frameSize)).map fun i =>
    oldBreak + i * frameSize

/-- The new break `sbrk` accepts for an increment. -/
def acceptedBreak (increment : Nat) (p : UserProcess) : Option Nat :=
  let oldBreak := p.heapBreak
  if oldBreak = 0 then none
  else if increment = 0 then none
  else if u32 (oldBreak + increment) < oldBreak then none
  else
    let newBreak := u32 (oldBreak + increment + frameSize - 1) / frameSize * frameSize
    if newBreak < oldBreak then none
    else if userStackPage < newBreak then none
    else some newBreak

def sbrk (increment : Nat) (p : UserProcess) (m : MemoryState) : Nat × UserProcess × MemoryState :=
  match acceptedBreak increment p with
  | none => (if increment = 0 then p.heapBreak else 0, p, m)
  | some newBreak =>
      match growHeap p.pageDirectory (heapPages p.heapBreak newBreak) m with
      | (false, m) => (0, p, m)
      | (true, m) => (p.heapBreak, { p with heapBreak := newBreak }, m)

/-- Whether `mapDevice` accepts its arguments. -/
def deviceAccepted (physical virt pages : Nat) (p : UserProcess) : Bool :=
  let size := u32 (pages * 0x1000)
  !(p.pageDirectory == 0) && !(pages == 0 || decide (0x10000 < pages)) &&
    !decide (u32 (physical + size) < physical) &&
      !(decide (u32 (virt + size) < virt) || decide (kernelVbase < u32 (virt + size)))

/-- The pages `mapDevice` maps, with what it maps there. -/
def devicePages (physical virt pages : Nat) : List (Nat × Nat) :=
  (List.range pages).map fun i => (u32 (virt + i * 0x1000), u32 (physical + i * 0x1000))

def mapDevicePages (pdPhysical : Nat) (pages : List (Nat × Nat)) (m : MemoryState) : MemoryState :=
  pages.foldl (fun m page => mapUserPage pdPhysical page.1 page.2 userFlags m) m

def mapDevice (physical virt pages : Nat) (p : UserProcess) (m : MemoryState) :
    Int × MemoryState :=
  if deviceAccepted physical virt pages p then
    (0, mapDevicePages p.pageDirectory (devicePages physical virt pages) m)
  else (-1, m)

end Calls

section Exit

/-- `(void*)(p->kernelEsp - KERNEL_VBASE - FRAME_SIZE)`. -/
def kernelStackFrame (p : UserProcess) : Nat :=
  u32 (p.kernelEsp + 4294967296 - kernelVbase + 4294967296 - frameSize)

/-- The addresses `ProcessManager::destroy` passes to `freeFrame`, in order. -/
def destroyedFrames (p : UserProcess) (m : MemoryState) : List Nat :=
  (if p.pageDirectory = 0 then [] else spaceFrames m p.pageDirectory) ++
    (if p.kernelEsp = 0 then [] else [kernelStackFrame p])

def destroy (p : UserProcess) (m : MemoryState) : MemoryState :=
  let m := if p.pageDirectory = 0 then m else destroyAddressSpace p.pageDirectory m
  if p.kernelEsp = 0 then m else freeFrames m [kernelStackFrame p]

theorem free_frames_append (m : MemoryState) (first second : List Nat) :
    freeFrames (freeFrames m first) second = freeFrames m (first ++ second) := by
  unfold freeFrames
  rw [List.foldl_append]

theorem destroy_eq (p : UserProcess) (m : MemoryState) :
    destroy p m = freeFrames m (destroyedFrames p m) := by
  unfold destroy destroyedFrames destroyAddressSpace
  split <;> split
  · rfl
  · rfl
  · simp only [List.append_nil]
  · exact free_frames_append _ _ _

end Exit

section Life

structure Life where
  process : UserProcess
  memory : MemoryState

inductive Call
  | sbrk (increment : Nat)
  | mapDevice (physical virt pages : Nat)

def perform (s : Life) : Call → Life
  | .sbrk increment =>
      let (_, p, m) := sbrk increment s.process s.memory
      ⟨p, m⟩
  | .mapDevice physical virt pages =>
      { s with memory := (mapDevice physical virt pages s.process s.memory).2 }

def step (s : Life) (call : Call) : Option Life := some (perform s call)

end Life

end CassiOS.Kernel.ProcessMemory
