import CassiOS.Kernel.BootFrames
import CassiOS.Memory.KernelFrames

/-!
# Boot modules

`start` of `core/kernel.cpp`, as far as it takes frames: the kernel heap, the direct map and
the loop over the multiboot modules. The allocator does not know where the modules lie. They
survive exactly when enough frames are free below them each time that frames are taken.
-/

namespace CassiOS.Kernel.BootModules

open CassiOS.Support.LowestFirst
open CassiOS.Support.Words
open CassiOS.Memory
open CassiOS.Memory.Physical
open CassiOS.Memory.MemoryMap
open CassiOS.Memory.Paging
open CassiOS.Memory.NewSpace hiding Extends
open CassiOS.Memory.DirectMap hiding Extends Start
open CassiOS.Memory.KernelHeap (HeapInit kernelHeapFrames)
open CassiOS.Memory.KernelFrames
open CassiOS.Kernel.ElfLoader
open CassiOS.Kernel.ProcessMemory
open CassiOS.Kernel.NewProcess
open CassiOS.Kernel.BootFrames

set_option autoImplicit false

/-- The bit of `MULTIBOOT_FLAG_MODS`. -/
def multibootFlagMods : Nat := 3

/-- The fields of `MultibootInfo` that `start` goes by, as the boot loader filled them in. -/
structure BootInfo where
  map : MultibootInfo
  modsCount : Nat
  modsAddr : Nat

structure MultibootModule where
  modStart : Nat
  modEnd : Nat
  deriving DecidableEq, Repr

/-- What a run of `start` depends on besides the memory: whether there is a process object in
round `i`, and what the users of the kernel heap have written to it by then. -/
structure BootRun where
  info : BootInfo
  process : Nat → Bool
  objects : Nat → Nat → Nat → Nat

section Source

def directByte (m : MemoryState) (address : Nat) : UInt8 :=
  let entry := kernelTranslation m address
  if present entry then
    UInt8.ofNat (m.words (frameOf entry) (address % frameSize / 4) / 256 ^ (address % 4))
  else 0

def moduleCount (info : BootInfo) : Nat :=
  if info.map.flags.testBit multibootFlagMods then info.modsCount else 0

/-- `mods[i]`. -/
def readModule (memory : Nat → UInt8) (info : BootInfo) (i : Nat) : MultibootModule :=
  let mods := u32 (info.modsAddr + kernelVbase)
  ⟨load32 memory (u32 (mods + i * 16)), load32 memory (u32 (mods + i * 16 + 4))⟩

def elfData (memory : Nat → UInt8) (module : MultibootModule) (i : Nat) : UInt8 :=
  memory (u32 (module.modStart + kernelVbase + i))

def elfSize (module : MultibootModule) : Nat := u32 (module.modEnd + 4294967296 - module.modStart)

/-- The file of round `i`, as it lies in memory when there is an address space for it. From then
on the loader writes to frames that it takes, so that a file whose frames are not handed out is
the same until it is loaded. -/
def file (info : BootInfo) (i : Nat) (m : MemoryState) : Nat → UInt8 :=
  elfData (directByte (createAddressSpace m).2) (readModule (directByte m) info i)

def fileSize (info : BootInfo) (i : Nat) (m : MemoryState) : Nat :=
  elfSize (readModule (directByte m) info i)

/-- Round `i` of the loop. -/
def bootModule (info : BootInfo) (process : Bool) (i : Nat) (m : MemoryState) : MemoryState :=
  (loadModule (file info i m) (fileSize info i m) process m).2

/-- The users of the kernel heap write to its region. -/
def writeHeap (region : Option (Nat × Nat)) (content : Nat → Nat → Nat) (m : MemoryState) :
    MemoryState :=
  { m with words := fun f j => if heapFrame region f then content f j else m.words f j }

variable (run : BootRun) (heap : HeapInit)

/-- The memory when `KernelHeap::init` has returned. -/
def heapState (m₀ : MemoryState) : MemoryState :=
  writeHeap heap.region (run.objects 0) { m₀ with pmm := heap.pmm }

/-- The memory before round `i` of the loop, which begins with `paged`. -/
def roundState (paged : MemoryState) : Nat → MemoryState
  | 0 => paged
  | i + 1 => writeHeap heap.region (run.objects (i + 1))
      (bootModule run.info (run.process i) i (roundState paged i))

/-- `m₀` is the memory when `PhysicalMemoryManager::init` has returned. -/
def start (fuel : Nat) (m₀ : MemoryState) : Option MemoryState := do
  let heap := KernelHeap.init m₀.pmm
  let paged ← DirectMap.init fuel run.info.map (heapState run heap m₀)
  some (roundState run heap paged (moduleCount run.info))

end Source

section Specification

variable (run : BootRun) (heap : HeapInit) (m₀ paged : MemoryState)

/-- `allocFrame` returned the frame between the two states. -/
def HandedOut (before m : MemoryState) (frame : Nat) : Prop := ¬ before.Used frame ∧ m.Used frame

def placedModule (i : Nat) : MultibootModule := readModule (memoryByte m₀) run.info i

/-- The frame holds one of the bytes from `first` to `last`. -/
def HoldsByte (first last frame : Nat) : Prop := ∃ a, first ≤ a ∧ a < last ∧ a / frameSize = frame

def ListFrame (info : BootInfo) (frame : Nat) : Prop :=
  HoldsByte info.modsAddr (info.modsAddr + moduleCount info * 16) frame

def ModuleFrame (module : MultibootModule) (frame : Nat) : Prop :=
  HoldsByte module.modStart module.modEnd frame

/-- A frame of the module list or of a module that is not loaded before round `i`. -/
def Pending (i frame : Nat) : Prop :=
  ListFrame run.info frame ∨
    ∃ k, i ≤ k ∧ k < moduleCount run.info ∧ ModuleFrame (placedModule run m₀ k) frame

/-- The memory in round `i` when the loader has returned. -/
def loadedState (i : Nat) : MemoryState :=
  let m := roundState run heap paged i
  loadedModule (file run.info i m) (fileSize run.info i m) m

/-- The memory in round `i` when the process has its kernel stack. -/
def peakState (i : Nat) : MemoryState := bootModule run.info true i (roundState run heap paged i)

/-- No frame of the list or of a module is handed out before it is loaded. -/
structure FramesKept : Prop where
  paging : ∀ f, Pending run m₀ 0 f → ¬ HandedOut m₀ paged f
  loading : ∀ i, i < moduleCount run.info → ∀ f, ModuleFrame (placedModule run m₀ i) f →
    ¬ HandedOut m₀ (loadedState run heap paged i) f
  starting : ∀ i, i < moduleCount run.info → ∀ f, Pending run m₀ (i + 1) f →
    ¬ HandedOut m₀ (peakState run heap paged i) f

/-- The bytes of the module are those that the boot loader placed. -/
def Intact (m : MemoryState) (i : Nat) : Prop :=
  ∀ k, k < elfSize (placedModule run m₀ i) →
    elfData (directByte m) (placedModule run m₀ i) k =
      elfData (memoryByte m₀) (placedModule run m₀ i) k

/-- Each round finds its entry of the list and its module, until the module is loaded. -/
structure BytesKept : Prop where
  listed : ∀ i, i < moduleCount run.info →
    readModule (directByte (roundState run heap paged i)) run.info i = placedModule run m₀ i
  read : ∀ i, i < moduleCount run.info →
    Intact run m₀ (createAddressSpace (roundState run heap paged i)).2 i
  loaded : ∀ i, i < moduleCount run.info → Intact run m₀ (loadedState run heap paged i) i

/-- Whenever frames are taken, as many are free below the frames of the list and of the
modules that are still to be loaded. -/
structure FramesFit (entries : List MultibootMmapEntry) : Prop where
  forHeap : ∀ f, Pending run m₀ 0 f → ¬ m₀.Used f → kernelHeapFrames ≤ freeBelow m₀ f
  forTables : ∀ f, Pending run m₀ 0 f → ¬ (heapState run heap m₀).Used f →
    tablesNeeded entries ≤ freeBelow (heapState run heap m₀) f
  loading : ∀ i, i < moduleCount run.info → ∀ f, ModuleFrame (placedModule run m₀ i) f →
    ¬ (roundState run heap paged i).Used f →
      let m := roundState run heap paged i
      loadDemand (file run.info i m) (fileSize run.info i m) m ≤ freeBelow m f
  starting : ∀ i, i < moduleCount run.info → ∀ f, Pending run m₀ (i + 1) f →
    ¬ (roundState run heap paged i).Used f →
      let m := roundState run heap paged i
      startDemand (file run.info i m) (fileSize run.info i m) m ≤ freeBelow m f

/-- The direct map shows the list and the modules, the heap does not reach over them, and no
module has a page in the kernel's half of the address space. -/
structure Reachable (entries : List MultibootMmapEntry) : Prop where
  low : ∀ f, Pending run m₀ 0 f → f < 0x40000
  mapped : ∀ f, Pending run m₀ 0 f →
    ∃ entry ∈ entries, entry.type = multibootMmapAvailable ∧ Covered entry f
  apart : ∀ f, Pending run m₀ 0 f → heapFrame (heap.region) f = false
  user : ∀ i, i < moduleCount run.info →
    let m := roundState run heap paged i
    ∀ page ∈ elfPages (file run.info i m) (fileSize run.info i m), page.virtualAddr < kernelVbase

/-- The boot loader has filled the list in, the memory map is still there when the direct map
is set up, and there are frames for the page tables where the boot page table reaches them. -/
structure Bootable (map : BootMap) : Prop where
  info : run.info.map = map.info
  empty : ∀ i, m₀.kernelDirectory i = 0
  bytes : ∀ a, MapByte map a → memoryByte (heapState run heap m₀) a = map.memory a
  spared : ∀ a, MapByte map a → Spared (heapState run heap m₀) map.entries a
  enough : Enough (heapState run heap m₀) map.entries
  addressable : run.info.modsAddr + moduleCount run.info * 16 ≤ 4294967296
  ordered : ∀ i, i < moduleCount run.info →
    (placedModule run m₀ i).modStart ≤ (placedModule run m₀ i).modEnd

end Specification

section Rounds

variable {run : BootRun} {heap : HeapInit} {m₀ paged m : MemoryState}
  {entries : List MultibootMmapEntry}

structure Carried (paged m : MemoryState) : Prop where
  reserved : Reserved m
  directory : m.kernelDirectory = paged.kernelDirectory
  grows : ∀ f, paged.Used f → m.Used f

theorem carried_of_frames (carried : Carried paged m) {next : MemoryState}
    (grows : ∀ f, m.Used f → next.Used f) (directory : next.kernelDirectory = m.kernelDirectory) :
    Carried paged next where
  reserved := by
    refine ⟨grows 0 carried.reserved.zero, fun frame kernel => ?_⟩
    apply grows
    apply carried.reserved.tables
    unfold KernelTable at kernel ⊢
    rw [directory] at kernel
    exact kernel
  directory := directory.trans carried.directory
  grows f used := grows f (carried.grows f used)

theorem carried_module (carried : Carried paged m) (info : BootInfo) (process : Bool) (i : Nat) :
    Carried paged (bootModule info process i m) := by
  have frames := (load_module_frames carried.reserved (file info i m) (fileSize info i m)
    process).1
  exact carried_of_frames carried frames.grows frames.directory

theorem used_write_heap (region : Option (Nat × Nat)) (content : Nat → Nat → Nat)
    (m : MemoryState) (f : Nat) : (writeHeap region content m).Used f ↔ m.Used f := Iff.rfl

theorem carried_write (carried : Carried paged m) (region : Option (Nat × Nat))
    (content : Nat → Nat → Nat) : Carried paged (writeHeap region content m) :=
  carried_of_frames carried (fun _ used => used) rfl

theorem carried_round (reserved : Reserved paged) (i : Nat) :
    Carried paged (roundState run heap paged i) := by
  induction i with
  | zero => exact ⟨reserved, rfl, fun _ used => used⟩
  | succ i ih =>
      rw [roundState]
      exact carried_write (carried_module ih run.info (run.process i) i) _ _

theorem reserved_of_ready (ready : KernelFrames.Ready m₀ entries paged) (zeroUsed : m₀.Used 0) :
    Reserved paged := by
  obtain ⟨taken, built⟩ := ready.built
  refine ⟨(built.used 0).2 (Or.inl zeroUsed), ?_⟩
  rintro frame ⟨i, _, has, rfl⟩
  exact (built.used _).2 (Or.inr (built.tables i has).1)

/-- The frames that round `i` takes, from the lowest that is free on, and what it leaves as it
was. -/
structure RoundFrames (info : BootInfo) (i : Nat) (m : MemoryState) : Prop where
  made : Filled frameCount m.Used (createAddressSpace m).2.Used 1
  loaded : Filled frameCount m.Used (loadedModule (file info i m) (fileSize info i m) m).Used
    (loadDemand (file info i m) (fileSize info i m) m)
  started : Filled frameCount m.Used (bootModule info true i m).Used
    (startDemand (file info i m) (fileSize info i m) m)
  madeQuiet : Quiet m (createAddressSpace m).2
  loadedQuiet : Quiet m (loadedModule (file info i m) (fileSize info i m) m)
  quiet : ∀ process, Quiet m (bootModule info process i m)
  within : ∀ process f, (bootModule info process i m).Used f → (bootModule info true i m).Used f

theorem round_frames (carried : Carried paged m) (info : BootInfo) (i : Nat) :
    RoundFrames info i m := by
  have none : Filled frameCount m.Used m.Used 0 := filled_start
  have ⟨made, madeQuiet⟩ := create_filled none carried.reserved.zero
  have loaded := @load_filled (file info i m) (fileSize info i m) _ _ _ _ carried.reserved none
  have started := @module_filled (file info i m) (fileSize info i m) _ _ _ _ carried.reserved none
  rw [Nat.zero_add] at made loaded started
  exact ⟨made, loaded.1, started.1, madeQuiet, loaded.2, fun process => (started.2 process).1,
    fun process => (started.2 process).2⟩

end Rounds

section Frames

variable {run : BootRun} {heap : HeapInit} {m₀ paged : MemoryState}
  {entries : List MultibootMmapEntry}

theorem holds_byte_bound {first last f : Nat} (holds : HoldsByte first last f)
    (bound : last ≤ 4294967296) : f < frameCount := by
  obtain ⟨a, _, high, rfl⟩ := holds
  unfold frameSize frameCount bitmapSize
  omega

theorem module_frame_bound {i f : Nat} (own : ModuleFrame (placedModule run m₀ i) f) :
    f < frameCount := holds_byte_bound own (Nat.le_of_lt (load32_lt _ _))

theorem pending_bound (addressable : run.info.modsAddr + moduleCount run.info * 16 ≤ 4294967296)
    {i f : Nat} (pending : Pending run m₀ i f) : f < frameCount := by
  rcases pending with listed | ⟨k, _, _, own⟩
  · exact holds_byte_bound listed addressable
  · exact module_frame_bound own

theorem Pending.earlier {i k f : Nat} (before : i ≤ k) (pending : Pending run m₀ k f) :
    Pending run m₀ i f := by
  rcases pending with listed | ⟨j, later, inside, own⟩
  · exact Or.inl listed
  · exact Or.inr ⟨j, Nat.le_trans before later, inside, own⟩

/-- What the states before the loop are, as far as frames go. -/
structure Prepared (run : BootRun) (heap : HeapInit) (m₀ : MemoryState)
    (entries : List MultibootMmapEntry) (paged : MemoryState) : Prop where
  zeroUsed : m₀.Used 0
  region : ∀ f, heapFrame heap.region f = true → (heapState run heap m₀).Used f
  taken : Filled frameCount m₀.Used (heapState run heap m₀).Used kernelHeapFrames
  ready : KernelFrames.Ready (heapState run heap m₀) entries paged
  addressable : run.info.modsAddr + moduleCount run.info * 16 ≤ 4294967296

theorem Prepared.heap_grows (prepared : Prepared run heap m₀ entries paged) {f : Nat}
    (bound : f < frameCount) (used : m₀.Used f) : (heapState run heap m₀).Used f :=
  (prepared.taken f bound).2 (Or.inl used)

theorem Prepared.paged_grows (prepared : Prepared run heap m₀ entries paged) {f : Nat}
    (bound : f < frameCount) (used : m₀.Used f) : paged.Used f :=
  (prepared.ready.filled f bound).2 (Or.inl (prepared.heap_grows bound used))

theorem Prepared.carried (prepared : Prepared run heap m₀ entries paged) (i : Nat) :
    Carried paged (roundState run heap paged i) := by
  apply carried_round
  apply reserved_of_ready prepared.ready
  exact prepared.heap_grows (by decide) prepared.zeroUsed

theorem Prepared.frames (prepared : Prepared run heap m₀ entries paged) (i : Nat) :
    RoundFrames run.info i (roundState run heap paged i) :=
  round_frames (prepared.carried i) run.info i

theorem Prepared.grows (prepared : Prepared run heap m₀ entries paged) (i : Nat) {f : Nat}
    (bound : f < frameCount) (used : m₀.Used f) : (roundState run heap paged i).Used f :=
  (prepared.carried i).grows f (prepared.paged_grows bound used)

/-- Every frame in use after round `i` was in use when the process had its kernel stack. -/
theorem used_after_round (prepared : Prepared run heap m₀ entries paged) {i f : Nat}
    (used : (roundState run heap paged (i + 1)).Used f) : (peakState run heap paged i).Used f := by
  rw [roundState, used_write_heap] at used
  exact (prepared.frames i).within (run.process i) f used

/-- As long as the frames fit, those of the list and of later modules are handed out in no
round. -/
theorem pending_unused (prepared : Prepared run heap m₀ entries paged)
    (fit : FramesFit run heap m₀ paged entries) (i : Nat) (inside : i ≤ moduleCount run.info)
    {f : Nat} (pending : Pending run m₀ i f) (used : (roundState run heap paged i).Used f) :
    m₀.Used f := by
  have bound := pending_bound prepared.addressable pending
  induction i with
  | zero =>
      by_contra free
      have notHeap : ¬ (heapState run heap m₀).Used f := by
        intro taken
        have few := (prepared.taken.handed_iff bound free).1 taken
        exact Nat.not_le.2 few (fit.forHeap f pending free)
      have few := (prepared.ready.filled.handed_iff bound notHeap).1 used
      exact Nat.not_le.2 few (fit.forTables f pending notHeap)
  | succ i ih =>
      by_cases before : (roundState run heap paged i).Used f
      · exact ih (Nat.le_of_succ_le inside) (pending.earlier (Nat.le_succ i)) before
      · have peak := used_after_round prepared used
        have few := ((prepared.frames i).started.handed_iff bound before).1 peak
        exact absurd (fit.starting i inside f pending before) (Nat.not_le.2 few)

theorem frames_kept_of_fit (prepared : Prepared run heap m₀ entries paged)
    (fit : FramesFit run heap m₀ paged entries) : FramesKept run heap m₀ paged where
  paging f pending := fun handed =>
    handed.1 (pending_unused prepared fit 0 (Nat.zero_le _) pending handed.2)
  loading i inside f own := by
    rintro ⟨free, used⟩
    have before : ¬ (roundState run heap paged i).Used f := fun used => free
      (pending_unused prepared fit i (Nat.le_of_lt inside)
        (Or.inr ⟨i, Nat.le_refl i, inside, own⟩) used)
    have few := ((prepared.frames i).loaded.handed_iff (module_frame_bound own) before).1 used
    exact Nat.not_le.2 few (fit.loading i inside f own before)
  starting i inside f pending := by
    rintro ⟨free, used⟩
    have before : ¬ (roundState run heap paged i).Used f := fun used => free
      (pending_unused prepared fit i (Nat.le_of_lt inside) (pending.earlier (Nat.le_succ i)) used)
    have bound := pending_bound prepared.addressable pending
    have few := ((prepared.frames i).started.handed_iff bound before).1 used
    exact Nat.not_le.2 few (fit.starting i inside f pending before)

theorem frames_fit_of_kept (prepared : Prepared run heap m₀ entries paged)
    (kept : FramesKept run heap m₀ paged) : FramesFit run heap m₀ paged entries where
  forHeap f pending free := by
    have bound := pending_bound prepared.addressable pending
    by_contra few
    have taken := (prepared.taken.handed_iff bound free).2 (Nat.not_le.1 few)
    exact kept.paging f pending ⟨free, (prepared.ready.filled f bound).2 (Or.inl taken)⟩
  forTables f pending free := by
    have bound := pending_bound prepared.addressable pending
    by_contra few
    have taken := (prepared.ready.filled.handed_iff bound free).2 (Nat.not_le.1 few)
    exact kept.paging f pending ⟨fun used => free (prepared.heap_grows bound used), taken⟩
  loading i inside f own free := by
    have bound := module_frame_bound own
    by_contra few
    have taken := ((prepared.frames i).loaded.handed_iff bound free).2 (Nat.not_le.1 few)
    exact kept.loading i inside f own ⟨fun used => free (prepared.grows i bound used), taken⟩
  starting i inside f pending free := by
    have bound := pending_bound prepared.addressable pending
    by_contra few
    have taken := ((prepared.frames i).started.handed_iff bound free).2 (Nat.not_le.1 few)
    exact kept.starting i inside f pending ⟨fun used => free (prepared.grows i bound used), taken⟩

end Frames

section Reading

variable {run : BootRun} {heap : HeapInit} {m₀ paged m : MemoryState}
  {entries : List MultibootMmapEntry}

/-- The kernel's directory and its page tables are those of the direct map. -/
structure KeepsTables (paged m : MemoryState) : Prop where
  directory : m.kernelDirectory = paged.kernelDirectory
  words : ∀ f, KernelTable paged f → m.words f = paged.words f

theorem kernel_translation_kept (kept : KeepsTables paged m) {va : Nat} (high : kernelVbase ≤ va) :
    kernelTranslation m va = kernelTranslation paged va := by
  unfold kernelTranslation translation
  rw [kept.directory]
  dsimp only
  split
  · next has =>
    have table : KernelTable paged (frameOf (paged.kernelDirectory (va / tableSpan))) :=
      ⟨_, LoaderSafety.user_entries_of_kernel high, has, rfl⟩
    rw [kept.words _ table]
  · rfl

/-- A byte of a frame that holds what it held is read at its address of the direct map. -/
theorem direct_byte_kept (kept : KeepsTables paged m) {a : Nat} (low : a / frameSize < 0x40000)
    (shown : Shown paged (a / frameSize))
    (same : m.words (a / frameSize) = m₀.words (a / frameSize)) :
    directByte m (a + kernelVbase) = memoryByte m₀ (a + kernelVbase) := by
  have inside : a % frameSize < frameSize := Nat.mod_lt a (by decide)
  obtain ⟨_, has, at_⟩ := reaches_of_shown low shown (a % frameSize) inside
  have address : a / frameSize * frameSize + a % frameSize = a := by
    rw [Nat.mul_comm]
    exact Nat.div_add_mod a frameSize
  rw [address] at has at_
  have page : (a + kernelVbase) % frameSize = a % frameSize := by
    unfold kernelVbase frameSize
    omega
  unfold directByte
  rw [kernel_translation_kept kept (Nat.le_add_left _ a)]
  change (if present (kernelTranslation paged (a + kernelVbase)) = true then _ else _) = _
  unfold kernelTranslation
  rw [if_pos has, at_, same, page]
  unfold memoryByte
  rw [Nat.add_sub_cancel]

/-- The bytes from `first` to `last` are read in `m` as they were placed. -/
def ReadsAlike (m₀ m : MemoryState) (first last : Nat) : Prop :=
  ∀ a, first ≤ a → a < last →
    a < 0x40000000 ∧ directByte m (a + kernelVbase) = memoryByte m₀ (a + kernelVbase)

theorem reads_alike (kept : KeepsTables paged m) {first last : Nat}
    (frames : ∀ f, HoldsByte first last f →
      f < 0x40000 ∧ Shown paged f ∧ m.words f = m₀.words f) : ReadsAlike m₀ m first last := by
  intro a low high
  obtain ⟨small, shown, same⟩ := frames (a / frameSize) ⟨a, low, high, rfl⟩
  refine ⟨?_, direct_byte_kept kept small shown same⟩
  unfold frameSize at small
  omega

theorem read_module_alike {info : BootInfo} (alike : ReadsAlike m₀ m info.modsAddr
      (info.modsAddr + moduleCount info * 16)) {i : Nat} (inside : i < moduleCount info) :
    readModule (directByte m) info i = readModule (memoryByte m₀) info i := by
  have last := (alike (info.modsAddr + i * 16 + 15) (by omega) (by omega)).1
  have word : ∀ k, k ≤ 12 →
      load32 (directByte m) (u32 (u32 (info.modsAddr + kernelVbase) + i * 16 + k)) =
        load32 (memoryByte m₀) (u32 (u32 (info.modsAddr + kernelVbase) + i * 16 + k)) := by
    intro k small
    have address : u32 (u32 (info.modsAddr + kernelVbase) + i * 16 + k) =
        info.modsAddr + i * 16 + k + kernelVbase := by
      unfold u32 kernelVbase
      omega
    rw [address]
    apply load32_congr
    intro a low high
    have byte := (alike (a - kernelVbase) (by omega) (by omega)).2
    rw [Nat.sub_add_cancel (by omega)] at byte
    exact byte
  unfold readModule
  dsimp only
  rw [word 4 (by decide)]
  have first := word 0 (by decide)
  rw [Nat.add_zero] at first
  rw [first]

theorem elf_data_alike {module : MultibootModule} (ordered : module.modStart ≤ module.modEnd)
    (bound : module.modEnd < 4294967296)
    (alike : ReadsAlike m₀ m module.modStart module.modEnd) {k : Nat}
    (inside : k < elfSize module) :
    elfData (directByte m) module k = elfData (memoryByte m₀) module k := by
  have size : elfSize module = module.modEnd - module.modStart := by
    unfold elfSize u32
    omega
  rw [size] at inside
  obtain ⟨small, byte⟩ := alike (module.modStart + k) (by omega) (by omega)
  have address : u32 (module.modStart + kernelVbase + k) = module.modStart + k + kernelVbase := by
    unfold u32 kernelVbase
    omega
  unfold elfData
  rw [address]
  exact byte

end Reading

section Bytes

variable {run : BootRun} {heap : HeapInit} {m₀ paged m : MemoryState}
  {entries : List MultibootMmapEntry}

theorem table_not_heap (prepared : Prepared run heap m₀ entries paged) {f : Nat}
    (table : KernelTable paged f) : heapFrame (heap.region) f = false := by
  obtain ⟨taken, built⟩ := prepared.ready.built
  obtain ⟨i, _, has, rfl⟩ := table
  have free := (built.early _ (built.tables i has).1).1
  by_contra inside
  exact free (prepared.region _ ((Bool.not_eq_false _).mp inside))

theorem write_heap_words {region : Option (Nat × Nat)} {f : Nat}
    (outside : heapFrame region f = false) (content : Nat → Nat → Nat) (m : MemoryState) :
    (writeHeap region content m).words f = m.words f := by
  funext j
  apply if_neg
  rw [outside]
  exact Bool.false_ne_true

theorem KeepsTables.later (kept : KeepsTables paged m) (carried : Carried paged m)
    {next : MemoryState} (directory : next.kernelDirectory = m.kernelDirectory)
    (keeps : KeepsUsed m next) : KeepsTables paged next where
  directory := directory.trans kept.directory
  words f table := by
    have same : KernelTable m f := by
      unfold KernelTable
      rw [carried.directory]
      exact table
    rw [keeps f (carried.reserved.tables f same), kept.words f table]

/-- As long as no round puts a page into the kernel's half, the tables are those of the direct
map. -/
theorem keeps_tables_round (prepared : Prepared run heap m₀ entries paged) (i : Nat)
    (user : ∀ j, j < i → let m := roundState run heap paged j
      ∀ page ∈ elfPages (file run.info j m) (fileSize run.info j m), page.virtualAddr < kernelVbase) :
    KeepsTables paged (roundState run heap paged i) := by
  induction i with
  | zero => exact ⟨rfl, fun _ _ => rfl⟩
  | succ i ih =>
      have kept := ih fun j before => user j (Nat.lt_succ_of_lt before)
      have carried := prepared.carried i
      have frames := (load_module_frames carried.reserved
        (file run.info i (roundState run heap paged i))
        (fileSize run.info i (roundState run heap paged i)) (run.process i)).1
      have booted := kept.later carried frames.directory
        (module_keeps carried.reserved (run.process i) (user i (Nat.lt_succ_self i)))
      rw [roundState]
      refine ⟨booted.directory, fun f table => ?_⟩
      rw [write_heap_words (table_not_heap prepared table)]
      exact booted.words f table

/-- Where no page table is put, the direct map leaves a frame as it was. -/
theorem paged_words (prepared : Prepared run heap m₀ entries paged) {f : Nat}
    (spared : ¬ (heapState run heap m₀).Used f →
      tablesNeeded entries ≤ freeBelow (heapState run heap m₀) f)
    (outside : heapFrame heap.region f = false) : paged.words f = m₀.words f := by
  obtain ⟨taken, built⟩ := prepared.ready.built
  have kept : f ∉ taken := by
    intro member
    obtain ⟨free, few⟩ := built.early f member
    exact Nat.not_le.2 few (spared free)
  have unwritten : (heapState run heap m₀).words f = m₀.words f := by
    unfold heapState
    rw [write_heap_words outside]
  exact (built.kept f kept).trans unwritten

/-- A frame that no round takes holds in every round what it held at the start. -/
theorem spared_words (prepared : Prepared run heap m₀ entries paged) (i : Nat) {f : Nat}
    (bound : f < frameCount) (outside : heapFrame heap.region f = false)
    (spared : ¬ (heapState run heap m₀).Used f →
      tablesNeeded entries ≤ freeBelow (heapState run heap m₀) f)
    (rounds : ∀ j, j < i → let m := roundState run heap paged j
      (∀ page ∈ elfPages (file run.info j m) (fileSize run.info j m),
          page.virtualAddr < kernelVbase) ∧
        (¬ m.Used f → startDemand (file run.info j m) (fileSize run.info j m) m ≤ freeBelow m f)) :
    (roundState run heap paged i).words f = m₀.words f := by
  induction i with
  | zero => exact paged_words prepared spared outside
  | succ i ih =>
      have before := ih fun j earlier => rounds j (Nat.lt_succ_of_lt earlier)
      obtain ⟨user, fit⟩ := rounds i (Nat.lt_succ_self i)
      have carried := prepared.carried i
      rw [roundState, write_heap_words outside, ← before]
      unfold bootModule
      by_cases used : (roundState run heap paged i).Used f
      · exact module_keeps carried.reserved (run.process i) user f used
      · have frames := prepared.frames i
        apply (frames.quiet (run.process i)).unused
        intro taken
        have peak := frames.within (run.process i) f taken
        have few := (frames.started.handed_iff bound used).1 peak
        exact Nat.not_le.2 few (fit used)

theorem pending_words (prepared : Prepared run heap m₀ entries paged)
    (fit : FramesFit run heap m₀ paged entries)
    (reachable : Reachable run heap m₀ paged entries) (i : Nat)
    (inside : i ≤ moduleCount run.info) {f : Nat} (pending : Pending run m₀ i f) :
    (roundState run heap paged i).words f = m₀.words f := by
  have first := pending.earlier (Nat.zero_le i)
  refine spared_words prepared i (pending_bound prepared.addressable pending)
    (reachable.apart f first) (fit.forTables f first) fun j before => ?_
  have below : j < moduleCount run.info := Nat.lt_of_lt_of_le before inside
  exact ⟨reachable.user j below, fit.starting j below f (pending.earlier before)⟩

/-- And so does a frame of the module of the round, before and after it is loaded. -/
theorem module_words (prepared : Prepared run heap m₀ entries paged)
    (fit : FramesFit run heap m₀ paged entries)
    (reachable : Reachable run heap m₀ paged entries) (i : Nat)
    (inside : i < moduleCount run.info) {f : Nat} (own : ModuleFrame (placedModule run m₀ i) f) :
    (createAddressSpace (roundState run heap paged i)).2.words f = m₀.words f ∧
      (loadedState run heap paged i).words f = m₀.words f := by
  have pending : Pending run m₀ i f := Or.inr ⟨i, Nat.le_refl i, inside, own⟩
  have before := pending_words prepared fit reachable i (Nat.le_of_lt inside) pending
  have carried := prepared.carried i
  have frames := prepared.frames i
  rw [← before]
  by_cases used : (roundState run heap paged i).Used f
  · exact ⟨create_keeps carried.reserved f used,
      load_keeps carried.reserved (reachable.user i inside) f used⟩
  · have bound := module_frame_bound own
    have enough := fit.loading i inside f own used
    dsimp only at enough
    constructor
    · apply frames.madeQuiet.unused
      intro taken
      have few := (frames.made.handed_iff bound used).1 taken
      unfold loadDemand at enough
      exact Nat.not_le.2 few (Nat.le_trans (Nat.le_add_right 1 _) enough)
    · apply frames.loadedQuiet.unused
      intro taken
      exact Nat.not_le.2 ((frames.loaded.handed_iff bound used).1 taken) enough

theorem bytes_kept_of_fit (prepared : Prepared run heap m₀ entries paged)
    (ordered : ∀ i, i < moduleCount run.info →
      (placedModule run m₀ i).modStart ≤ (placedModule run m₀ i).modEnd)
    (fit : FramesFit run heap m₀ paged entries) (reachable : Reachable run heap m₀ paged entries) :
    BytesKept run heap m₀ paged := by
  have shown : ∀ f, Pending run m₀ 0 f → f < 0x40000 ∧ Shown paged f := by
    intro f pending
    exact ⟨reachable.low f pending, prepared.ready.shown f
      (pending_bound prepared.addressable pending) (reachable.mapped f pending)⟩
  have intact : ∀ i, i < moduleCount run.info → ∀ m, KeepsTables paged m →
      (∀ f, ModuleFrame (placedModule run m₀ i) f → m.words f = m₀.words f) →
        Intact run m₀ m i := by
    intro i inside m kept words k small
    apply elf_data_alike (ordered i inside) (load32_lt _ _) _ small
    apply reads_alike kept
    intro f own
    obtain ⟨low, seen⟩ := shown f (Or.inr ⟨i, Nat.zero_le i, inside, own⟩)
    exact ⟨low, seen, words f own⟩
  have tables := fun i (inside : i < moduleCount run.info) => keeps_tables_round prepared i
    fun j before => reachable.user j (Nat.lt_trans before inside)
  constructor
  · intro i inside
    apply read_module_alike _ inside
    apply reads_alike (tables i inside)
    intro f listed
    obtain ⟨low, seen⟩ := shown f (Or.inl listed)
    exact ⟨low, seen, pending_words prepared fit reachable i (Nat.le_of_lt inside) (Or.inl listed)⟩
  · intro i inside
    have carried := prepared.carried i
    exact intact i inside _ ((tables i inside).later carried (create_directory carried.reserved)
      (create_keeps carried.reserved))
      fun f own => (module_words prepared fit reachable i inside own).1
  · intro i inside
    have carried := prepared.carried i
    exact intact i inside _ ((tables i inside).later carried (loaded_directory carried.reserved)
      (load_keeps carried.reserved (reachable.user i inside)))
      fun f own => (module_words prepared fit reachable i inside own).2

end Bytes

section Booting

variable {run : BootRun} {heap : HeapInit} {m₀ : MemoryState} {map : BootMap} {fuel : Nat}

theorem prepared_of_heap (rounds : map.entries.length < fuel) (zeroUsed : m₀.Used 0)
    (taken : Filled frameCount m₀.Used (Used heap.pmm.bitmap) kernelHeapFrames)
    (region : ∀ f, heapFrame heap.region f = true → Used heap.pmm.bitmap f)
    (bootable : Bootable run heap m₀ map) :
    ∃ paged, DirectMap.init fuel run.info.map (heapState run heap m₀) = some paged ∧
      Prepared run heap m₀ map.entries paged := by
  have used : ∀ f, (heapState run heap m₀).Used f ↔ Used heap.pmm.bitmap f := fun _ => Iff.rfl
  have filled := taken.congr fun f _ => used f
  have zeroHeap : (heapState run heap m₀).Used 0 :=
    (filled 0 (by decide)).2 (Or.inl zeroUsed)
  obtain ⟨paged, done, ready⟩ := init_ready rounds bootable.enough zeroHeap bootable.empty
    (laid_congr map.laid bootable.bytes) bootable.spared
  rw [bootable.info]
  refine ⟨paged, done, zeroUsed, ?_, filled, ready, bootable.addressable⟩
  exact fun f inside => (used f).2 (region f inside)

/-- In every run of `start`: no frame of the list or of a module is handed out before it is
loaded exactly when the frames fit, and then the modules are read as they were placed, if the
direct map reaches them. -/
theorem modules_survive_iff (image : KernelImage) (map : BootMap) (fuel : Nat)
    (rounds : map.entries.length < fuel) :
    ∃ pm, MemoryMap.init fuel map.memory image map.info construct = some pm ∧
      ∀ (run : BootRun) (heap : HeapInit) (m₀ : MemoryState), m₀.pmm = pm →
        heap = KernelHeap.init pm → Bootable run heap m₀ map →
          ∃ paged, DirectMap.init fuel run.info.map (heapState run heap m₀) = some paged ∧
            start run fuel m₀ = some (roundState run heap paged (moduleCount run.info)) ∧
            (FramesKept run heap m₀ paged ↔ FramesFit run heap m₀ paged map.entries) ∧
            (FramesFit run heap m₀ paged map.entries → Reachable run heap m₀ paged map.entries →
              BytesKept run heap m₀ paged) := by
  obtain ⟨pm, done, windows, _⟩ := init_windows image map fuel rounds
  refine ⟨pm, done, ?_⟩
  intro run heap m₀ managed created bootable
  have zeroUsed : Used pm.bitmap 0 := zero_used windows
  have taken := heap_filled zeroUsed
  have region := fun f => @heap_frame_used pm zeroUsed f
  have started : start run fuel m₀ = (do
      let paged ← DirectMap.init fuel run.info.map (heapState run heap m₀)
      some (roundState run heap paged (moduleCount run.info))) := by
    rw [created, ← managed]
    rfl
  rw [← created] at taken region
  subst managed
  obtain ⟨paged, direct, prepared⟩ := prepared_of_heap rounds zeroUsed taken region bootable
  refine ⟨paged, direct, ?_, ⟨?_, ?_⟩, ?_⟩
  · rw [started, direct]
    rfl
  · exact frames_fit_of_kept prepared
  · exact frames_kept_of_fit prepared
  · exact bytes_kept_of_fit prepared bootable.ordered

end Booting

section Machines

open CassiOS.Kernel.LoaderSafety (onePageImage)

/-- Two modules of 84 bytes, the first at `page` times 64 KiB and the second at `0x4C0000`. -/
def listBytes (page : UInt8) : List UInt8 :=
  [0, 0, page, 0, 84, 0, page, 0, 0, 0, 0, 0, 0, 0, 0, 0, 0, 0, 0x4C, 0, 84, 0, 0x4C, 0]

/-- The list lies at `0x4A0000`, and behind it each 64 KiB begin with an image of one page. -/
def moduleMemory (page : UInt8) (address : Nat) : UInt8 :=
  if address < 0xC04A0000 then mapMemory lowEntries address
  else if address < 0xC04B0000 then (listBytes page).getD (address - 0xC04A0000) 0
  else onePageImage 0x08 (address % 65536)

def moduleInfo : MultibootInfo := ⟨72, 24, 0x9000⟩

theorem module_entry (page : UInt8) : readEntry (moduleMemory page) 0xC0009000 =
    ⟨20, 0x100000, 0x400000, 1⟩ := by
  have same : readEntry (moduleMemory page) 0xC0009000 =
      readEntry (mapMemory lowEntries) 0xC0009000 := by
    apply read_entry_congr
    intro a _ high
    exact if_pos (by omega)
  rw [same]
  decide

def moduleMap (page : UInt8) : BootMap where
  memory := moduleMemory page
  info := moduleInfo
  entries := lowEntries
  flagged := by decide
  direct := by decide
  laid := ⟨module_entry page, rfl⟩

def moduleRun : BootRun := ⟨⟨moduleInfo, 2, 0x4A0000⟩, fun _ => true, fun _ _ _ => 0⟩

def moduleState (page : UInt8) (pm : PhysicalMemoryManager) : MemoryState :=
  ⟨pm, wordsOf (moduleMemory page), fun _ => 0⟩

variable {page : UInt8} {pm : PhysicalMemoryManager} {heap : HeapInit}

theorem module_bytes {a : Nat} (direct : kernelVbase ≤ a) :
    memoryByte (moduleState page pm) a = moduleMemory page a :=
  memory_byte_of_words (moduleMemory page) (moduleState page pm) rfl direct

/-- Where module `i` lies, in units of 64 KiB. -/
def modulePage (page : UInt8) (i : Nat) : Nat := if i = 0 then page.toNat else 0x4C

theorem placed_example (page : UInt8) (pm : PhysicalMemoryManager) {i : Nat} (inside : i < 2) :
    placedModule moduleRun (moduleState page pm) i =
      ⟨modulePage page i * 65536, modulePage page i * 65536 + 84⟩ := by
  have word : ∀ a, kernelVbase ≤ a →
      load32 (memoryByte (moduleState page pm)) a = load32 (moduleMemory page) a := fun a direct =>
    load32_congr fun b low _ => module_bytes (Nat.le_trans direct low)
  unfold placedModule readModule
  dsimp only
  rcases Nat.lt_succ_iff_lt_or_eq.1 inside with first | rfl
  · obtain rfl := Nat.lt_one_iff.1 first
    rw [word _ (by decide), word _ (by decide)]
    have start : load32 (moduleMemory page) 0xC04A0000 = page.toNat * 65536 := by
      change 0 + 256 * 0 + 65536 * (page.toNat + 256 * 0) = _
      omega
    have end_ : load32 (moduleMemory page) 0xC04A0004 = page.toNat * 65536 + 84 := by
      change 84 + 256 * 0 + 65536 * (page.toNat + 256 * 0) = _
      omega
    exact congrArg₂ MultibootModule.mk start end_
  · rw [word _ (by decide), word _ (by decide)]
    have start : load32 (moduleMemory page) 0xC04A0010 = 0x4C * 65536 := by
      change 0 + 256 * 0 + 65536 * (76 + 256 * 0) = _
      omega
    have end_ : load32 (moduleMemory page) 0xC04A0014 = 0x4C * 65536 + 84 := by
      change 84 + 256 * 0 + 65536 * (76 + 256 * 0) = _
      omega
    exact congrArg₂ MultibootModule.mk start end_

def FreeFrames (pm : PhysicalMemoryManager) (low : Nat) : Prop :=
  ∀ f, f < frameCount → (¬ Used pm.bitmap f ↔ low ≤ f ∧ f < 0x500)

theorem zero_of_free {pm : PhysicalMemoryManager} {low : Nat} (free : FreeFrames pm low)
    (positive : 0 < low) : Used pm.bitmap 0 := by
  by_contra clear
  have from_ := ((free 0 (by decide)).1 clear).1
  omega

theorem module_machine (page : UInt8) : ∃ pm,
    MemoryMap.init 2 (moduleMap page).memory smallImage (moduleMap page).info construct = some pm ∧
      FreeFrames pm 0x180 := by
  obtain ⟨pm, run, windows, _⟩ := init_windows smallImage (moduleMap page) 2 (Nat.lt_succ_self 1)
  refine ⟨pm, run, fun f _ => ?_⟩
  rw [windows f, not_or, not_not]
  exact KernelHeap.plain_free f

theorem module_heap {pm : PhysicalMemoryManager} (free : FreeFrames pm 0x180) :
    FreeFrames (KernelHeap.init pm).pmm 0x280 ∧
      ∀ f, heapFrame (KernelHeap.init pm).region f = true ↔ 0x180 ≤ f ∧ f < 0x280 := by
  have inside : 0x500 < frameCount := by decide
  have zeroUsed := zero_of_free free (by decide)
  have below : ∀ other, other < 0x180 → Used pm.bitmap other := by
    intro other under
    by_contra clear
    have low := (free other (by omega)).1 clear
    omega
  have first : ¬ Used pm.bitmap 0x180 := (free 0x180 (by omega)).2 (by decide)
  have filled := heap_filled zeroUsed
  constructor
  · intro f bound
    exact filled.interval (Nat.le_of_lt inside) free bound
  · intro f
    rw [heap_frame_iff (by decide) (by omega) first below]
    unfold kernelHeapFrames
    constructor
    · rintro ⟨k, few, rfl⟩
      rw [Nat.mod_eq_of_lt (by omega)]
      omega
    · intro window
      refine ⟨f - 0x180, by omega, ?_⟩
      rw [Nat.mod_eq_of_lt (by omega)]
      omega

theorem free_below_example {m : MemoryState} {low : Nat} (free : FreeFrames m.pmm low) {f : Nat}
    (small : f ≤ 0x500) : freeBelow m f = f - low := by
  have inside : 0x500 < frameCount := by decide
  have clear : ∀ i, i < 0x500 → (¬ m.Used i ↔ low ≤ i) := by
    intro i under
    exact (free i (by omega)).trans (and_iff_left under)
  exact clear_below_interval clear small

theorem module_bootable (free : FreeFrames heap.pmm 0x280)
    (region : ∀ f, heapFrame heap.region f = true ↔ 0x180 ≤ f ∧ f < 0x280) :
    Bootable moduleRun heap (moduleState page pm) (moduleMap page) := by
  have inside : 0x500 < frameCount := by decide
  have used : ∀ f, (heapState moduleRun heap (moduleState page pm)).Used f ↔
      Used heap.pmm.bitmap f := fun _ => Iff.rfl
  have map : ∀ a, MapByte (moduleMap page) a → kernelVbase ≤ a ∧ frameAt a = 9 := by
    intro a read
    simp only [MapByte, moduleMap, moduleInfo, lowEntries, ReadAt, or_false] at read
    unfold frameAt
    unfold kernelVbase frameSize at *
    omega
  have outside : heapFrame heap.region 9 = false := by
    by_contra covered
    have low := (region 9).1 ((Bool.not_eq_false _).mp covered)
    omega
  constructor
  · rfl
  · exact fun _ => rfl
  · intro a read
    obtain ⟨direct, nine⟩ := map a read
    have byte : memoryByte (moduleState page pm) a = moduleMemory page a := module_bytes direct
    have words : (heapState moduleRun heap (moduleState page pm)).words 9 =
        (moduleState page pm).words 9 := by
      unfold heapState
      rw [write_heap_words outside]
    have number : (a - kernelVbase) / frameSize = 9 := nine
    change _ = moduleMemory page a
    rw [← byte]
    unfold memoryByte
    rw [number, words]
  · intro a read
    left
    rw [(map a read).2, used]
    by_contra clear
    have low := (free 9 (by omega)).1 clear
    omega
  · have enough := free_below_example (m := heapState moduleRun heap (moduleState page pm)) free
      (f := bootFrames) (by decide)
    unfold Enough
    rw [enough]
    exact low_map_tables.trans (by decide)
  · decide
  · intro i inside
    rw [placed_example page pm inside]
    exact Nat.le_add_right _ 84

theorem pending_example {i f : Nat} (pending : Pending moduleRun (moduleState page pm) i f) :
    f = 0x4A0 ∨ f = page.toNat * 16 ∨ f = 0x4C0 := by
  have count : moduleCount moduleRun.info = 2 := by decide
  rcases pending with ⟨a, low, high, rfl⟩ | ⟨k, _, inside, a, low, high, rfl⟩
  · left
    rw [count] at high
    simp only [moduleRun] at low high
    unfold frameSize
    omega
  · right
    rw [count] at inside
    rw [placed_example page pm inside] at low high
    dsimp only at low high
    have place : modulePage page k = page.toNat ∨ modulePage page k = 0x4C := by
      unfold modulePage
      split
      · exact .inl rfl
      · exact .inr rfl
    unfold frameSize
    omega

theorem one_page_file {data : Nat → UInt8} (alike : ∀ k, k < 84 → data k = onePageImage 0x08 k) :
    (elfPages data 84).map Page.virtualAddr = [0x08000000] ∧
      FailedExec.imageAccepted data 84 = true := by
  have half : ∀ o, o + 1 < 84 → load16 data o = load16 (onePageImage 0x08) o := by
    intro o inside
    unfold load16
    rw [alike o (by omega), alike (o + 1) inside]
  have valid : validHeader data 84 = true := by
    unfold validHeader
    rw [half 16 (by decide), half 18 (by decide), alike 0 (by decide), alike 1 (by decide),
      alike 2 (by decide), alike 3 (by decide), alike 4 (by decide)]
    decide
  have word : load32 data 28 = 52 := by
    rw [load32_congr fun a _ high => alike a (by omega)]
    decide
  have size : load16 data 42 = 32 := half 42 (by decide)
  have count : load16 data 44 = 1 := half 44 (by decide)
  have header : programHeader data 52 = ⟨1, 0, 0x08000000, 0, 1⟩ := by
    have field : ∀ o, o ≤ 72 → load32 (fun i => data (u32 i)) o =
        load32 (fun i => onePageImage 0x08 (u32 i)) o := by
      intro o small
      apply load32_congr
      intro a _ high
      have same : u32 a = a := Nat.mod_eq_of_lt (by omega)
      rw [same]
      exact alike a (by omega)
    unfold programHeader
    dsimp only
    rw [field 52 (by decide), field (52 + 4) (by decide), field (52 + 8) (by decide),
      field (52 + 16) (by decide), field (52 + 20) (by decide)]
    rfl
  have first : u32 (52 + 0 * 32) = 52 := by decide
  constructor
  · unfold elfPages
    rw [valid, word, size, count]
    unfold acceptedPages acceptedPages
    rw [first]
    dsimp only
    rw [header]
    rfl
  · unfold FailedExec.imageAccepted
    rw [valid, word, size, count]
    change (FailedExec.headerAccepted data 84 (u32 (52 + 0 * 32)) && true) = true
    unfold FailedExec.headerAccepted
    rw [first, header]
    rfl

variable {paged : MemoryState}

theorem covered_example {f : Nat} (low : 0x100 ≤ f) (high : f < 0x500) :
    ∃ entry ∈ lowEntries, entry.type = multibootMmapAvailable ∧ Covered entry f := by
  have base : mapBase ⟨20, 0x100000, 0x400000, 1⟩ = 0x100000 := by decide
  have count : pageCount ⟨20, 0x100000, 0x400000, 1⟩ = 1024 := by decide
  refine ⟨_, List.mem_cons_self, rfl, ?_⟩
  unfold Covered
  rw [base, count]
  unfold frameSize
  omega

theorem window_example {i f : Nat} (pending : Pending moduleRun (moduleState 0x4B pm) i f) :
    0x4A0 ≤ f ∧ f ≤ 0x4C0 := by
  have place := pending_example pending
  have number : (0x4B : UInt8).toNat = 0x4B := rfl
  omega

theorem image_placed {i k : Nat} (inside : i < 2) (small : k < 84) :
    elfData (memoryByte (moduleState 0x4B pm)) (placedModule moduleRun (moduleState 0x4B pm) i) k =
      onePageImage 0x08 k := by
  have number : (0x4B : UInt8).toNat = 0x4B := rfl
  have place : 0x4B ≤ modulePage 0x4B i ∧ modulePage 0x4B i ≤ 0x4C := by
    unfold modulePage
    split <;> omega
  rw [placed_example 0x4B pm inside]
  generalize modulePage 0x4B i = page at place
  have address : u32 (page * 65536 + kernelVbase + k) = page * 65536 + kernelVbase + k :=
    Nat.mod_eq_of_lt (by unfold kernelVbase; omega)
  have offset : (page * 65536 + kernelVbase + k) % 65536 = k := by
    unfold kernelVbase
    omega
  unfold elfData
  dsimp only
  rw [address, module_bytes (by omega)]
  unfold moduleMemory
  rw [if_neg (by unfold kernelVbase; omega), if_neg (by unfold kernelVbase; omega), offset]

/-- A round in which the list and the modules are as they were finds the image. -/
theorem round_example (prepared : Prepared moduleRun heap (moduleState 0x4B pm) lowEntries paged)
    {i low : Nat} (inside : i < 2) (free : FreeFrames (roundState moduleRun heap paged i).pmm low)
    (under : low < 0x4A0) (kept : KeepsTables paged (roundState moduleRun heap paged i))
    (words : ∀ f, 0x4A0 ≤ f → f ≤ 0x4C0 →
      (roundState moduleRun heap paged i).words f = (moduleState 0x4B pm).words f) :
    let m := roundState moduleRun heap paged i
    (elfPages (file moduleRun.info i m) (fileSize moduleRun.info i m)).map Page.virtualAddr =
        [0x08000000] ∧
      FailedExec.imageAccepted (file moduleRun.info i m) (fileSize moduleRun.info i m) = true := by
  have frames := prepared.frames i
  have carried := prepared.carried i
  have bound : 0x500 < frameCount := by decide
  have seen : ∀ f, 0x4A0 ≤ f ∧ f ≤ 0x4C0 → f < 0x40000 ∧ Shown paged f := fun f window =>
    ⟨by omega, prepared.ready.shown f (by omega) (covered_example (by omega) (by omega))⟩
  have listed : readModule (directByte (roundState moduleRun heap paged i)) moduleRun.info i =
      placedModule moduleRun (moduleState 0x4B pm) i := by
    apply read_module_alike _ inside
    apply reads_alike kept
    intro f list
    have window := window_example (Or.inl list : Pending moduleRun (moduleState 0x4B pm) 0 f)
    exact ⟨(seen f window).1, (seen f window).2, words f window.1 window.2⟩
  have placed := placed_example 0x4B pm inside
  have place : modulePage 0x4B i ≤ 0x4C := by
    have number : (0x4B : UInt8).toNat = 0x4B := rfl
    unfold modulePage
    split <;> omega
  have size : elfSize (placedModule moduleRun (moduleState 0x4B pm) i) = 84 := by
    rw [placed]
    unfold elfSize u32
    dsimp only
    omega
  have image : ∀ k, k < 84 →
      file moduleRun.info i (roundState moduleRun heap paged i) k = onePageImage 0x08 k := by
    intro k small
    rw [← image_placed inside small]
    unfold file
    rw [listed]
    refine elf_data_alike ?_ (load32_lt _ _) ?_ (size ▸ small)
    · rw [placed]
      exact Nat.le_add_right _ 84
    · apply reads_alike (kept.later carried (create_directory carried.reserved)
        (create_keeps carried.reserved))
      intro f own
      have window := window_example (Or.inr ⟨i, Nat.zero_le i, inside, own⟩ :
        Pending moduleRun (moduleState 0x4B pm) 0 f)
      refine ⟨(seen f window).1, (seen f window).2, ?_⟩
      rw [← words f window.1 window.2]
      apply frames.madeQuiet.unused
      intro taken
      have unused := (free f (by omega)).2 (by omega)
      have few := (frames.made.handed_iff (by omega) unused).1 taken
      change freeBelow (roundState moduleRun heap paged i) f < 1 at few
      rw [free_below_example free (by omega)] at few
      omega
  dsimp only
  unfold fileSize
  rw [listed, size]
  exact one_page_file image

/-- A directory and the page with its table, and the stack page with its table and the kernel
stack. -/
theorem demand_example {data : Nat → UInt8} {size : Nat} (m : MemoryState)
    (pages : (elfPages data size).map Page.virtualAddr = [0x08000000])
    (accepted : FailedExec.imageAccepted data size = true) :
    loadDemand data size m ≤ 3 ∧ startDemand data size m ≤ 6 ∧
      ∀ page ∈ elfPages data size, page.virtualAddr < kernelVbase := by
  have tables := UserSpace.missing_tables_le (FailedExec.spaceTables m)
  refine ⟨?_, ?_, ?_⟩
  · have missing := tables [0x08000000]
    unfold loadDemand
    rw [pages]
    unfold UserSpace.frameDemand
    simp only [List.length_cons, List.length_nil] at missing ⊢
    omega
  · have missing := tables ([0x08000000] ++ [userStackPage])
    unfold startDemand FailedExec.startPages
    rw [pages, accepted, if_pos rfl, if_pos rfl]
    unfold UserSpace.frameDemand
    simp only [List.length_append, List.length_cons, List.length_nil] at missing ⊢
    omega
  · intro page member
    have address := List.mem_map_of_mem (f := Page.virtualAddr) member
    rw [pages, List.mem_singleton] at address
    rw [address]
    decide

structure RoundFits (heap : HeapInit) (paged : MemoryState) (i : Nat) : Prop where
  free : ∃ low, low ≤ 0x290 ∧ FreeFrames (roundState moduleRun heap paged i).pmm low
  accepted : FailedExec.imageAccepted (file moduleRun.info i (roundState moduleRun heap paged i))
    (fileSize moduleRun.info i (roundState moduleRun heap paged i)) = true
  load : loadDemand (file moduleRun.info i (roundState moduleRun heap paged i))
    (fileSize moduleRun.info i (roundState moduleRun heap paged i))
      (roundState moduleRun heap paged i) ≤ 3
  start : startDemand (file moduleRun.info i (roundState moduleRun heap paged i))
    (fileSize moduleRun.info i (roundState moduleRun heap paged i))
      (roundState moduleRun heap paged i) ≤ 6
  user : ∀ page ∈ elfPages (file moduleRun.info i (roundState moduleRun heap paged i))
    (fileSize moduleRun.info i (roundState moduleRun heap paged i)), page.virtualAddr < kernelVbase

theorem RoundFits.room {i f : Nat} (fits : RoundFits heap paged i) (high : 0x4A0 ≤ f)
    (small : f ≤ 0x4C0) : 6 ≤ freeBelow (roundState moduleRun heap paged i) f := by
  obtain ⟨low, under, free⟩ := fits.free
  rw [free_below_example free (by omega)]
  omega

theorem round_fits_of_free
    (prepared : Prepared moduleRun heap (moduleState 0x4B pm) lowEntries paged) {i low : Nat}
    (inside : i < 2) (small : low ≤ 0x290)
    (free : FreeFrames (roundState moduleRun heap paged i).pmm low)
    (kept : KeepsTables paged (roundState moduleRun heap paged i))
    (words : ∀ f, 0x4A0 ≤ f → f ≤ 0x4C0 →
      (roundState moduleRun heap paged i).words f = (moduleState 0x4B pm).words f) :
    RoundFits heap paged i := by
  obtain ⟨pages, accepted⟩ := round_example prepared inside free (by omega) kept words
  obtain ⟨load, start, user⟩ :=
    demand_example (roundState moduleRun heap paged i) pages accepted
  exact ⟨⟨low, small, free⟩, accepted, load, start, user⟩

/-- With modules at `0x4B0000` and `0x4C0000` both rounds have the frames that they need. -/
theorem rounds_fit (left : FreeFrames heap.pmm 0x280)
    (region : ∀ f, heapFrame heap.region f = true ↔ 0x180 ≤ f ∧ f < 0x280)
    (prepared : Prepared moduleRun heap (moduleState 0x4B pm) lowEntries paged) {i : Nat}
    (inside : i < 2) : RoundFits heap paged i := by
  have bound : 0x500 < frameCount := by decide
  have tables : tablesNeeded lowEntries ≤ 2 := low_map_tables
  have apart : ∀ f, 0x280 ≤ f → heapFrame heap.region f = false := by
    intro f high
    by_contra covered
    have low := (region f).1 ((Bool.not_eq_false _).mp covered)
    omega
  have spared : ∀ f, 0x4A0 ≤ f → f ≤ 0x4C0 →
      tablesNeeded lowEntries ≤ freeBelow (heapState moduleRun heap (moduleState 0x4B pm)) f := by
    intro f high small
    rw [free_below_example (m := heapState moduleRun heap (moduleState 0x4B pm)) left (by omega)]
    omega
  have words := fun i f (high : 0x4A0 ≤ f) (small : f ≤ 0x4C0) => spared_words prepared i
    (show f < frameCount by omega) (apart f (by omega)) fun _ => spared f high small
  have free : FreeFrames paged.pmm (0x280 + tablesNeeded lowEntries) := fun f within =>
    prepared.ready.filled.interval (Nat.le_of_lt bound) left within
  have first : RoundFits heap paged 0 := round_fits_of_free prepared (by decide) (by omega) free
    (keeps_tables_round prepared 0 fun j before => absurd before (Nat.not_lt_zero j))
    fun f high small => words 0 f high small fun j before => absurd before (Nat.not_lt_zero j)
  have one : ∀ {j}, j < 1 → j = 0 := Nat.lt_one_iff.1
  rcases Nat.lt_succ_iff_lt_or_eq.1 inside with zero | rfl
  · rw [one zero]
    exact first
  · have later : FreeFrames (roundState moduleRun heap paged 1).pmm _ := fun f within =>
      (prepared.frames 0).started.interval (Nat.le_of_lt bound) free within
    have few := first.start
    refine round_fits_of_free prepared (by decide) ?_ later ?_ ?_
    · omega
    · exact keeps_tables_round prepared 1 fun j before => one before ▸ first.user
    · intro f high small
      refine words 1 f high small fun j before => ?_
      rw [one before]
      exact ⟨first.user, fun _ => Nat.le_trans few (first.room high small)⟩

theorem modules_fit (free : FreeFrames pm 0x180) (left : FreeFrames heap.pmm 0x280)
    (region : ∀ f, heapFrame heap.region f = true ↔ 0x180 ≤ f ∧ f < 0x280)
    (prepared : Prepared moduleRun heap (moduleState 0x4B pm) lowEntries paged) :
    FramesFit moduleRun heap (moduleState 0x4B pm) paged lowEntries ∧
      Reachable moduleRun heap (moduleState 0x4B pm) paged lowEntries := by
  have tables : tablesNeeded lowEntries ≤ 2 := low_map_tables
  have fits := fun {i} (inside : i < 2) => rounds_fit left region prepared inside
  constructor
  · constructor
    · intro f pending _
      have window := window_example pending
      rw [free_below_example (m := moduleState 0x4B pm) free (by omega)]
      unfold kernelHeapFrames
      omega
    · intro f pending _
      have window := window_example pending
      rw [free_below_example (m := heapState moduleRun heap (moduleState 0x4B pm)) left (by omega)]
      omega
    · intro i inside f own _
      have window := window_example (Or.inr ⟨i, Nat.zero_le i, inside, own⟩ :
        Pending moduleRun (moduleState 0x4B pm) 0 f)
      have room := (fits inside).room window.1 window.2
      exact Nat.le_trans (fits inside).load (Nat.le_trans (by decide) room)
    · intro i inside f pending _
      have window := window_example pending
      exact Nat.le_trans (fits inside).start ((fits inside).room window.1 window.2)
  · constructor
    · intro f pending
      have window := window_example pending
      omega
    · intro f pending
      have window := window_example pending
      exact covered_example (by omega) (by omega)
    · intro f pending
      have window := window_example pending
      by_contra covered
      have low := (region f).1 ((Bool.not_eq_false _).mp covered)
      omega
    · exact fun i inside => (fits inside).user

/-- Two modules in high memory, of which every frame is free at first, are loaded. -/
theorem high_modules_survive : ∃ pm paged,
    MemoryMap.init 2 (moduleMap 0x4B).memory smallImage (moduleMap 0x4B).info construct = some pm ∧
      (∀ f, f = 0x4B0 ∨ f = 0x4C0 → ¬ (moduleState 0x4B pm).Used f) ∧
      start moduleRun 2 (moduleState 0x4B pm) =
        some (roundState moduleRun (KernelHeap.init pm) paged 2) ∧
      (∀ i, i < 2 → RoundFits (KernelHeap.init pm) paged i) ∧
      FramesKept moduleRun (KernelHeap.init pm) (moduleState 0x4B pm) paged ∧
      BytesKept moduleRun (KernelHeap.init pm) (moduleState 0x4B pm) paged := by
  obtain ⟨pm, run, free⟩ := module_machine 0x4B
  obtain ⟨pm', run', survive⟩ := modules_survive_iff smallImage (moduleMap 0x4B) 2
    (Nat.lt_succ_self 1)
  obtain rfl : pm = pm' := Option.some.inj (run.symm.trans run')
  have zeroUsed := zero_of_free free (by decide)
  have taken := heap_filled zeroUsed
  have covered := fun f => @heap_frame_used pm zeroUsed f
  obtain ⟨left, region⟩ := module_heap free
  generalize created : KernelHeap.init pm = heap at taken covered left region ⊢
  have bootable : Bootable moduleRun heap (moduleState 0x4B pm) (moduleMap 0x4B) :=
    module_bootable left region
  obtain ⟨paged, direct, prepared⟩ := @prepared_of_heap moduleRun heap (moduleState 0x4B pm)
    (moduleMap 0x4B) 2 (Nat.lt_succ_self 1) zeroUsed taken covered bootable
  obtain ⟨paged', direct', started, frames, bytes⟩ := survive moduleRun heap (moduleState 0x4B pm)
    rfl created.symm bootable
  obtain rfl : paged = paged' := Option.some.inj (direct.symm.trans direct')
  obtain ⟨fit, reachable⟩ := modules_fit free left region prepared
  subst created
  refine ⟨pm, paged, run, ?_, started, fun i inside => rounds_fit left region prepared inside,
    frames.2 fit, bytes fit reachable⟩
  intro f place
  have bound : 0x500 < frameCount := by decide
  exact (free f (by omega)).2 (by omega)

/-- The heap takes the first frame behind the kernel, which is the module's. -/
theorem module_behind_kernel_lost : ∃ pm,
    MemoryMap.init 2 (moduleMap 0x18).memory smallImage (moduleMap 0x18).info construct = some pm ∧
      Bootable moduleRun (KernelHeap.init pm) (moduleState 0x18 pm) (moduleMap 0x18) ∧
      ∃ paged, DirectMap.init 2 moduleRun.info.map
          (heapState moduleRun (KernelHeap.init pm) (moduleState 0x18 pm)) = some paged ∧
        ¬ FramesKept moduleRun (KernelHeap.init pm) (moduleState 0x18 pm) paged := by
  obtain ⟨pm, run, free⟩ := module_machine 0x18
  refine ⟨pm, run, ?_⟩
  have inside : 0x500 < frameCount := by decide
  have zeroUsed := zero_of_free free (by decide)
  have taken := heap_filled zeroUsed
  have covered := fun f => @heap_frame_used pm zeroUsed f
  obtain ⟨left, region⟩ := module_heap free
  generalize KernelHeap.init pm = heap at taken covered left region ⊢
  have bootable : Bootable moduleRun heap (moduleState 0x18 pm) (moduleMap 0x18) :=
    module_bootable left region
  obtain ⟨paged, direct, prepared⟩ := @prepared_of_heap moduleRun heap (moduleState 0x18 pm)
    (moduleMap 0x18) 2 (Nat.lt_succ_self 1) zeroUsed taken covered bootable
  refine ⟨bootable, paged, direct, fun kept => ?_⟩
  have own : ModuleFrame (placedModule moduleRun (moduleState 0x18 pm) 0) 0x180 := by
    rw [placed_example 0x18 pm (by decide)]
    exact ⟨0x180000, by decide, by decide, by decide⟩
  have clear : ∀ f, f < frameCount → 0x180 ≤ f ∧ f < 0x500 → ¬ (moduleState 0x18 pm).Used f :=
    fun f bound => (free f bound).2
  have given := prepared.region 0x180 ((region 0x180).2 ⟨Nat.le_refl _, by decide⟩)
  have bound : 0x180 < frameCount := by omega
  have handed : HandedOut (moduleState 0x18 pm) paged 0x180 :=
    ⟨clear 0x180 bound (by decide), (prepared.ready.filled 0x180 bound).2 (Or.inl given)⟩
  exact kept.paging 0x180 (Or.inr ⟨0, Nat.le_refl 0, by decide, own⟩) handed

end Machines

end CassiOS.Kernel.BootModules
