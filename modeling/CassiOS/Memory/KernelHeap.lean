import CassiOS.Memory.FrameSequences
import CassiOS.Memory.MemoryMap

/-!
# Kernel heap

`KernelHeap::init` of `memory/heap.cpp`. It takes 256 frames, keeps the address of the first
one and gives the allocator the region that begins there. The frames are the lowest free
ones; they are the frames of the region exactly when no frame between them is in use.
-/

namespace CassiOS.Memory.KernelHeap

open CassiOS.Support.TransitionSystem
open CassiOS.Support.Words
open CassiOS.Memory.FrameSequences
open CassiOS.Memory.MemoryMap
open CassiOS.Memory.Physical

set_option autoImplicit false

def kernelHeapFrames : Nat := 256

/-- `KERNEL_HEAP_SIZE`. -/
def kernelHeapSize : Nat := kernelHeapFrames * 4096

section Source

/-- The answers of `n` calls of `allocFrame`. -/
def allocFrames : Nat → PhysicalMemoryManager → List Nat × PhysicalMemoryManager
  | 0, pm => ([], pm)
  | n + 1, pm =>
      let (address, pm) := allocFrame pm
      let (rest, pm) := allocFrames n pm
      (address :: rest, pm)

/-- The base and size of the allocator, if there is one, and the addresses that `allocFrame`
returned on the way. -/
structure HeapInit where
  region : Option (Nat × Nat)
  returned : List Nat
  pmm : PhysicalMemoryManager

def init (pm : PhysicalMemoryManager) : HeapInit :=
  let (frame, pm) := allocFrame pm
  let base := u32 (frame + kernelVbase)
  if base = kernelVbase then ⟨none, [frame], pm⟩
  else
    let (rest, pm) := allocFrames (kernelHeapFrames - 1) pm
    ⟨some (base, kernelHeapSize), frame :: rest, pm⟩

end Source

section Specification

def physicalOf (virtualAddr : Nat) : Nat := u32 (virtualAddr + 4294967296 - kernelVbase)

/-- The frame was handed out, is memory, and is handed to no later user of the manager that
frees nothing but what it was handed. -/
structure OwnsFrame (entries : List MultibootMmapEntry) (heap : HeapInit) (address : Nat) :
    Prop where
  returned : address ∈ heap.returned ∧ address ≠ 0
  ram : Ram entries (address / frameSize)
  kept : ∀ s, Run step anyAction (firstUse heap.pmm) s → address ∉ s.outstanding

def OwnsRegion (entries : List MultibootMmapEntry) (heap : HeapInit) : Prop :=
  ∀ base size, heap.region = some (base, size) →
    ∀ k, k < size / frameSize → OwnsFrame entries heap (physicalOf (base + k * frameSize))

/-- A frame that `PhysicalMemoryManager::init` leaves free. -/
def Allocatable (image : KernelImage) (entries : List MultibootMmapEntry) (frame : Nat) : Prop :=
  Freed entries frame ∧ ¬ Reserved image frame

/-- The 256 frames from the lowest free one on are all free, and they are memory. -/
def Contiguous (image : KernelImage) (entries : List MultibootMmapEntry) : Prop :=
  ∀ frame, Allocatable image entries frame →
    (∀ other, other < frame → ¬ Allocatable image entries other) →
      ∀ k, k < kernelHeapFrames →
        Allocatable image entries (frame + k) ∧ Ram entries (frame + k)

end Specification

section Allocation

variable {pm : PhysicalMemoryManager}

theorem alloc_first {frame : Nat} (bound : frame < frameCount) (clear : ¬ Used pm.bitmap frame)
    (below : ∀ other, other < frame → Used pm.bitmap other) :
    allocFrame pm = (frame * frameSize, { pm with bitmap := markUsed pm.bitmap frame }) := by
  rcases alloc_frame_cases pm with ⟨first, _, clear', below', run⟩ | ⟨full, _⟩
  · have same : first = frame := by
      rcases Nat.lt_trichotomy first frame with low | same | high
      · exact absurd (below first low) clear'
      · exact same
      · exact absurd (below' frame high) clear
    rw [run, same]
  · exact absurd (full frame bound) clear

theorem mem_alloc_frames {n address : Nat} (member : address ∈ (allocFrames n pm).1) :
    address = 0 ∨ FreeAt pm.bitmap address := by
  induction n generalizing pm with
  | zero => exact absurd member List.not_mem_nil
  | succ n ih =>
      rcases alloc_frame_cases pm with ⟨frame, bound, clear, _, run⟩ | ⟨_, run⟩
      · unfold allocFrames at member
        rw [run] at member
        rcases List.mem_cons.1 member with first | later
        · exact Or.inr ⟨frame, bound, first, clear⟩
        · refine (ih later).imp_right ?_
          rintro ⟨other, inside, same, free⟩
          exact ⟨other, inside, same, fun used => free
            ((used_mark_used _ _ _ bound).2 (Or.inl used))⟩
      · unfold allocFrames at member
        rw [run] at member
        rcases List.mem_cons.1 member with first | later
        · exact Or.inl first
        · exact ih later

/-- From the lowest free frame on, frames that are all free are handed out one after another. -/
theorem alloc_frames_run {n frame : Nat} (below : ∀ other, other < frame → Used pm.bitmap other)
    (free : ∀ k, k < n → frame + k < frameCount ∧ ¬ Used pm.bitmap (frame + k)) :
    (∀ k, k < n → (frame + k) * frameSize ∈ (allocFrames n pm).1) ∧
      ∀ other, Used (allocFrames n pm).2.bitmap other ↔
        Used pm.bitmap other ∨ frame ≤ other ∧ other < frame + n := by
  induction n generalizing pm frame with
  | zero =>
      refine ⟨fun k none => absurd none (Nat.not_lt_zero k), fun other => ?_⟩
      exact (or_iff_left (by omega)).symm
  | succ n ih =>
      have first := free 0 (Nat.succ_pos n)
      rw [Nat.add_zero] at first
      have run := alloc_first first.1 first.2 below
      have marked := fun other => used_mark_used pm.bitmap frame other first.1
      let next : PhysicalMemoryManager := { pm with bitmap := markUsed pm.bitmap frame }
      have below' : ∀ other, other < frame + 1 → Used next.bitmap other := by
        intro other low
        apply (marked other).2
        rcases Nat.lt_succ_iff_lt_or_eq.1 low with lower | same
        · exact Or.inl (below other lower)
        · exact Or.inr same
      have free' : ∀ k, k < n →
          frame + 1 + k < frameCount ∧ ¬ Used next.bitmap (frame + 1 + k) := by
        intro k inside
        have later := free (k + 1) (by omega)
        rw [Nat.add_comm k, ← Nat.add_assoc] at later
        refine ⟨later.1, fun used => ?_⟩
        rcases (marked _).1 used with old | same
        · exact later.2 old
        · omega
      have rest := ih below' free'
      unfold allocFrames
      rw [run]
      constructor
      · intro k inside
        cases k with
        | zero => exact List.mem_cons_self
        | succ k =>
            rw [Nat.add_comm k, ← Nat.add_assoc]
            exact List.mem_cons_of_mem _ (rest.1 k (by omega))
      · intro other
        change Used (allocFrames n next).2.bitmap other ↔ _
        rw [rest.2, marked, or_assoc]
        apply or_congr_right
        omega

end Allocation

section Region

variable {image : KernelImage} {entries : List MultibootMmapEntry} {pm : PhysicalMemoryManager}

theorem alloc_frames_succ (n : Nat) (pm : PhysicalMemoryManager) :
    allocFrames (n + 1) pm = ((allocFrame pm).1 :: (allocFrames n (allocFrame pm).2).1,
      (allocFrames n (allocFrame pm).2).2) := rfl

/-- What `init` does from the lowest free frame on. -/
structure Taken (pm : PhysicalMemoryManager) (frame : Nat) (taken : List Nat)
    (after : PhysicalMemoryManager) : Prop where
  free : ∀ address ∈ taken, address = 0 ∨ FreeAt pm.bitmap address
  all : (∀ k, k < kernelHeapFrames → frame + k < frameCount ∧ ¬ Used pm.bitmap (frame + k)) →
    (∀ k, k < kernelHeapFrames → (frame + k) * frameSize ∈ taken) ∧
      ∀ other, Used after.bitmap other ↔
        Used pm.bitmap other ∨ frame ≤ other ∧ other < frame + kernelHeapFrames

theorem init_taken {frame : Nat} (positive : 0 < frame) (bound : frame < frameCount)
    (clear : ¬ Used pm.bitmap frame) (below : ∀ other, other < frame → Used pm.bitmap other) :
    ∃ taken after, Taken pm frame taken after ∧
      init pm = ⟨some (u32 (frame * frameSize + kernelVbase), kernelHeapSize), taken, after⟩ := by
  have run := alloc_first bound clear below
  have created : u32 (frame * frameSize + kernelVbase) ≠ kernelVbase := by
    unfold u32 frameSize kernelVbase
    unfold frameCount bitmapSize at bound
    omega
  have count : kernelHeapFrames = 255 + 1 := rfl
  unfold init
  rw [run]
  dsimp only
  rw [if_neg created, count, Nat.add_sub_cancel]
  generalize 255 = n at count
  have frames := alloc_frames_succ n pm
  rw [run] at frames
  refine ⟨(allocFrames (n + 1) pm).1, (allocFrames (n + 1) pm).2,
    ⟨fun address member => mem_alloc_frames member, fun free => ?_⟩, ?_⟩
  · rw [count] at free ⊢
    exact alloc_frames_run below free
  · rw [frames]

theorem init_none (full : ∀ frame, frame < frameCount → Used pm.bitmap frame) :
    (init pm).region = none := by
  rcases alloc_frame_cases pm with ⟨frame, bound, clear, _⟩ | ⟨_, run⟩
  · exact absurd (full frame bound) clear
  · unfold init
    rw [run]
    rfl

/-- The frame behind page `k` of the region; at 4 GiB the addresses wrap around. -/
theorem physical_page (frame k : Nat) :
    physicalOf (u32 (frame * frameSize + kernelVbase) + k * frameSize) =
      (frame + k) % frameCount * frameSize := by
  unfold physicalOf u32 frameSize kernelVbase frameCount bitmapSize
  omega

theorem allocatable_bound {frame : Nat} (free : Allocatable image entries frame) :
    0 < frame ∧ frame + 1 < frameCount := by
  obtain ⟨⟨entry, _, _, window⟩, unreserved⟩ := free
  constructor
  · by_contra zero
    have first : frame = 0 := by omega
    apply unreserved
    rw [first]
    exact Or.inr (Or.inr ⟨by decide, by decide⟩)
  · have top := window.2
    unfold frameCount bitmapSize
    unfold u32 frameSize at top
    omega

/-- The heap owns its region exactly when the frames behind the lowest free one are free. -/
theorem owns_region_iff
    (windows : ∀ frame, Used pm.bitmap frame ↔ ¬ Freed entries frame ∨ Reserved image frame) :
    OwnsRegion entries (init pm) ↔ Contiguous image entries := by
  have free : ∀ frame, ¬ Used pm.bitmap frame ↔ Allocatable image entries frame := by
    intro frame
    rw [windows, not_or, not_not]
    rfl
  rcases alloc_frame_cases pm with ⟨frame, bound, clear, below, _⟩ | ⟨full, _⟩
  · have lowest := (free frame).1 clear
    have positive := (allocatable_bound lowest).1
    have pages : kernelHeapSize / frameSize = kernelHeapFrames := rfl
    obtain ⟨taken, after, took, run⟩ := init_taken positive bound clear below
    rw [run]
    constructor
    · intro owns first free' below' k inside
      have same : first = frame := by
        rcases Nat.lt_trichotomy first frame with low | same | high
        · exact absurd (below first low) ((free first).2 free')
        · exact same
        · exact absurd lowest (below' frame high)
      subst same
      have owned : ∀ j, j < kernelHeapFrames →
          Allocatable image entries ((first + j) % frameCount) ∧
            Ram entries ((first + j) % frameCount) := by
        intro j small
        have own := owns _ _ rfl j (by rw [pages]; exact small)
        rw [physical_page] at own
        rcases took.free _ own.returned.1 with null | ⟨other, _, same, wasFree⟩
        · exact absurd null own.returned.2
        · rw [frame_address_injective same] at own ⊢
          refine ⟨(free other).1 wasFree, ?_⟩
          have ram := own.ram
          rwa [frame_of_address] at ram
      -- The last frame below 4 GiB is never free, so the region ends below it.
      have room : first + k < frameCount := by
        by_contra wraps
        have last := (owned (frameCount - 1 - first) (by omega)).1
        rw [Nat.mod_eq_of_lt (by omega)] at last
        have top := (allocatable_bound last).2
        omega
      have here := owned k inside
      rwa [Nat.mod_eq_of_lt room] at here
    · intro contiguous base size region k inside
      obtain ⟨rfl, rfl⟩ := Prod.mk.inj (Option.some.inj region)
      rw [pages] at inside
      have all := contiguous frame lowest fun other low => fun free' =>
        (free other).2 free' (below other low)
      have given := took.all fun k inside =>
        ⟨Nat.lt_of_succ_lt (allocatable_bound (all k inside).1).2, (free _).2 (all k inside).1⟩
      have room := (allocatable_bound (all k inside).1)
      rw [physical_page, Nat.mod_eq_of_lt (by omega)]
      constructor
      · refine ⟨given.1 k inside, ?_⟩
        unfold frameSize
        omega
      · rw [frame_of_address]
        exact (all k inside).2
      · intro s later held
        have zero : Used after.bitmap 0 := (given.2 0).2 (Or.inl (below 0 positive))
        obtain ⟨other, _, same, wasFree⟩ := (run_sound zero later).wereFree _ held
        rw [← frame_address_injective same] at wasFree
        exact wasFree ((given.2 _).2 (Or.inr ⟨by omega, by omega⟩))
  · have none := init_none full
    refine iff_of_true ?_ ?_
    · intro base size region
      rw [none] at region
      cases region
    · intro frame free'
      have bound := (allocatable_bound free').2
      exact absurd (full frame (by omega)) ((free frame).2 free')

/-- Whatever the memory map and wherever the kernel lies: the allocator that is created owns
its region exactly when the 256 frames from the lowest free one on are free memory. -/
theorem heap_owned_iff (image : KernelImage) (map : BootMap) (fuel : Nat)
    (enough : map.entries.length < fuel) :
    ∃ pm, MemoryMap.init fuel map.memory image map.info construct = some pm ∧
      (OwnsRegion map.entries (init pm) ↔ Contiguous image map.entries) := by
  obtain ⟨pm, run, windows, _⟩ := init_windows image map fuel enough
  exact ⟨pm, run, owns_region_iff windows⟩

end Region

section Machines

def plainEntries : List MultibootMmapEntry := [⟨20, 0x100000, 0x400000, 1⟩]

def plainMap : BootMap where
  memory := mapMemory plainEntries
  info := ⟨64, 24, 0x9000⟩
  entries := plainEntries
  flagged := flag_mmap
  direct := map_below
  laid := ⟨by decide, rfl⟩

theorem reserved_small (frame : Nat) :
    Reserved smallImage frame ↔ frame = 0 ∨ 0x100 ≤ frame ∧ frame < 0x180 := by
  simp only [Reserved, Overlaps, smallImage, kernelVbase, bitmapSize, frameSize]
  omega

theorem plain_free (frame : Nat) :
    Allocatable smallImage plainEntries frame ↔ 0x180 ≤ frame ∧ frame < 0x500 := by
  have window : Freed plainEntries frame ↔ 0x100 ≤ frame ∧ frame < 0x500 := by
    simp [Freed, plainEntries, multibootMmapAvailable, FreedWindow, entryBase, entryLength, u32,
      frameSize]
  unfold Allocatable
  rw [window, reserved_small]
  omega

theorem plain_contiguous : Contiguous smallImage plainEntries := by
  intro frame free lowest k inside
  have bounds := (plain_free frame).1 free
  have first : frame = 0x180 := by
    by_contra other
    exact lowest 0x180 (by omega) ((plain_free _).2 ⟨by decide, by decide⟩)
  unfold kernelHeapFrames at inside
  constructor
  · exact (plain_free _).2 (by omega)
  · refine ⟨_, List.mem_cons_self, rfl, ?_, ?_⟩
    · change 0x100000 ≤ (frame + k) * 4096
      omega
    · change (frame + k) * 4096 + 4096 ≤ 0x100000 + 0x400000
      omega

theorem plain_heap_owned : ∃ pm,
    MemoryMap.init 2 plainMap.memory smallImage plainMap.info construct = some pm ∧
      OwnsRegion plainMap.entries (init pm) := by
  obtain ⟨pm, run, owned⟩ := heap_owned_iff smallImage plainMap 2 (by decide)
  exact ⟨pm, run, owned.2 plain_contiguous⟩

/-- With conventional memory below the hole at 640 KiB, the heap begins at 4 KiB and its
region reaches over the hole and into the kernel. -/
theorem ordinary_heap_not_owned : ∃ pm,
    MemoryMap.init 4 ordinaryMap.memory smallImage ordinaryMap.info construct = some pm ∧
      ¬ OwnsRegion ordinaryMap.entries (init pm) := by
  obtain ⟨pm, run, windows, _⟩ := init_windows smallImage ordinaryMap 4 (by decide)
  refine ⟨pm, run, ?_⟩
  rw [owns_region_iff windows]
  intro contiguous
  have first : Allocatable smallImage ordinaryMap.entries 1 :=
    ⟨by decide, by rw [reserved_small]; omega⟩
  have lowest : ∀ other, other < 1 → ¬ Allocatable smallImage ordinaryMap.entries other := by
    intro other low free
    exact free.2 ((reserved_small other).2 (Or.inl (by omega)))
  have hole := (contiguous 1 first lowest 0x9E (by decide)).1.1
  exact absurd hole (by decide)

end Machines

end CassiOS.Memory.KernelHeap
