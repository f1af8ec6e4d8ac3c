import CassiOS.Memory.Physical

/-!
# Memory map

`PhysicalMemoryManager::init` on the memory map of the boot loader. The map is a run of
`MultibootMmapEntry` structures in memory; `KernelImage` is what the linker script and
the kernel's own layout promise about the symbols `init` reads.
-/

namespace CassiOS.Memory.MemoryMap

open CassiOS.Support.Words
open CassiOS.Memory.Physical

set_option autoImplicit false

def multibootFlagMmap : Nat := 6
def multibootMmapAvailable : Nat := 1

/-- The fields of `MultibootInfo` that `init` reads. -/
structure MultibootInfo where
  flags : Nat
  mmapLength : Nat
  mmapAddr : Nat

structure MultibootMmapEntry where
  size : Nat
  baseAddr : Nat
  length : Nat
  type : Nat
deriving DecidableEq

def readEntry (memory : Nat → UInt8) (address : Nat) : MultibootMmapEntry where
  size := load32 memory address
  baseAddr := load64 memory (address + 4)
  length := load64 memory (address + 12)
  type := load32 memory (address + 20)

/-- Virtual addresses of `_kernel_start`, `_kernel_end` and the bitmap in `.bss`. -/
structure KernelImage where
  kernelStart : Nat
  kernelEnd : Nat
  bitmap : Nat
  mapped : kernelVbase ≤ kernelStart
  bitmapFrom : kernelStart ≤ bitmap
  bitmapTo : bitmap + bitmapSize ≤ kernelEnd
  addressable : kernelEnd < 4294967296

section Init

/-- The window of an entry that `init` frees: both fields are cut to 32 bits, and the
length is clamped when the 64-bit end lies above `0xFFFFFFFF`. -/
def entryBase (entry : MultibootMmapEntry) : Nat := u32 entry.baseAddr

def entryLength (entry : MultibootMmapEntry) : Nat :=
  if 0xFFFFFFFF < (entry.baseAddr + entry.length) % 18446744073709551616 then
    0xFFFFFFFF - entryBase entry
  else u32 entry.length

def freeEntry (entry : MultibootMmapEntry) (bitmap : Bitmap) : Bitmap :=
  if entry.type = multibootMmapAvailable then
    markRegionFree (entryBase entry) (entryLength entry) bitmap
  else bitmap

/-- The loop over the map; one round of it per unit of fuel. -/
def freeEntries (memory : Nat → UInt8) (mmapEnd : Nat) : Nat → Nat → Bitmap → Option Bitmap
  | 0, _, _ => none
  | fuel + 1, mmapAddr, bitmap =>
      if mmapAddr < mmapEnd then
        let entry := readEntry memory mmapAddr
        freeEntries memory mmapEnd fuel (u32 (mmapAddr + u32 (entry.size + 4)))
          (freeEntry entry bitmap)
      else some bitmap

/-- The three `markRegionUsed` calls at the end of `init`. -/
def markReserved (image : KernelImage) (bitmap : Bitmap) : Bitmap :=
  let kernelStart := image.kernelStart - kernelVbase
  let kernelEnd := image.kernelEnd - kernelVbase
  let bitmap := markRegionUsed kernelStart (kernelEnd - kernelStart) bitmap
  let bitmap := markRegionUsed (image.bitmap - kernelVbase) bitmapSize bitmap
  markRegionUsed 0 frameSize bitmap

def init (fuel : Nat) (memory : Nat → UInt8) (image : KernelImage) (info : MultibootInfo)
    (pm : PhysicalMemoryManager) : Option PhysicalMemoryManager :=
  if info.flags.testBit multibootFlagMmap then do
    let mmapAddr := u32 (info.mmapAddr + kernelVbase)
    let bitmap ← freeEntries memory (u32 (mmapAddr + info.mmapLength)) fuel mmapAddr pm.bitmap
    some ⟨markReserved image bitmap, countClear bitmap bitmapSize⟩
  else some pm

end Init

section Reserved

/-- The frame shares a byte with `[base, base + length)`. -/
def Overlaps (base length frame : Nat) : Prop :=
  base < frame * frameSize + frameSize ∧ frame * frameSize < base + length

/-- The frame intersects the kernel image, the bitmap or page 0. -/
def Reserved (image : KernelImage) (frame : Nat) : Prop :=
  Overlaps (image.kernelStart - kernelVbase) (image.kernelEnd - image.kernelStart) frame ∨
    Overlaps (image.bitmap - kernelVbase) bitmapSize frame ∨ Overlaps 0 frameSize frame

theorem used_mark_reserved (image : KernelImage) (bitmap : Bitmap) (frame : Nat) :
    Used (markReserved image bitmap) frame ↔ Used bitmap frame ∨ Reserved image frame := by
  have mapped := image.mapped
  have bitmapFrom := image.bitmapFrom
  have bitmapTo := image.bitmapTo
  have addressable := image.addressable
  unfold kernelVbase bitmapSize at *
  have span : image.kernelEnd - 3221225472 - (image.kernelStart - 3221225472) =
      image.kernelEnd - image.kernelStart := by omega
  simp only [markReserved, kernelVbase, bitmapSize, span]
  rw [used_mark_region_used _ _ _ _ (by decide) (by decide),
    used_mark_region_used _ _ _ _ (by unfold frameSize; omega) (by omega),
    used_mark_region_used _ _ _ _ (by unfold frameSize; omega) (by omega)]
  simp only [Reserved, Overlaps, kernelVbase, bitmapSize, or_assoc]

theorem top_not_reserved (image : KernelImage) : ¬ Reserved image 0xFFFFF := by
  have mapped := image.mapped
  have bitmapFrom := image.bitmapFrom
  have bitmapTo := image.bitmapTo
  have addressable := image.addressable
  simp only [Reserved, Overlaps, kernelVbase, bitmapSize, frameSize] at *
  omega

end Reserved

section Map

/-- The entries lie one behind the other from `address` to `mmapEnd`. -/
def Laid (memory : Nat → UInt8) (mmapEnd : Nat) : Nat → List MultibootMmapEntry → Prop
  | address, [] => address = mmapEnd
  | address, entry :: rest =>
      readEntry memory address = entry ∧ Laid memory mmapEnd (address + (entry.size + 4)) rest

structure BootMap where
  memory : Nat → UInt8
  info : MultibootInfo
  entries : List MultibootMmapEntry
  flagged : info.flags.testBit multibootFlagMmap = true
  direct : info.mmapAddr + kernelVbase + info.mmapLength < 4294967296
  laid : Laid memory (info.mmapAddr + kernelVbase + info.mmapLength)
    (info.mmapAddr + kernelVbase) entries

/-- Some available entry makes `init` free the frame. -/
def Freed (entries : List MultibootMmapEntry) (frame : Nat) : Prop :=
  ∃ entry ∈ entries, entry.type = multibootMmapAvailable ∧
    FreedWindow (entryBase entry) (entryLength entry) frame

instance (entries : List MultibootMmapEntry) (frame : Nat) : Decidable (Freed entries frame) :=
  inferInstanceAs (Decidable (∃ _ ∈ entries, _))

def Ram (entries : List MultibootMmapEntry) (frame : Nat) : Prop :=
  ∃ entry ∈ entries, entry.type = multibootMmapAvailable ∧
    entry.baseAddr ≤ frame * frameSize ∧
      frame * frameSize + frameSize ≤ entry.baseAddr + entry.length

instance (entries : List MultibootMmapEntry) (frame : Nat) : Decidable (Ram entries frame) :=
  inferInstanceAs (Decidable (∃ _ ∈ entries, _))

theorem laid_le {memory : Nat → UInt8} {mmapEnd address : Nat}
    {entries : List MultibootMmapEntry} (laid : Laid memory mmapEnd address entries) :
    address ≤ mmapEnd := by
  induction entries generalizing address with
  | nil => exact Nat.le_of_eq laid
  | cons entry rest ih =>
      have onward := ih laid.2
      omega

theorem free_entries_laid {memory : Nat → UInt8} {mmapEnd fuel address : Nat}
    {entries : List MultibootMmapEntry} (bitmap : Bitmap) (inside : mmapEnd < 4294967296)
    (laid : Laid memory mmapEnd address entries) (enough : entries.length < fuel) :
    freeEntries memory mmapEnd fuel address bitmap =
      some (entries.foldl (fun bitmap entry => freeEntry entry bitmap) bitmap) := by
  induction entries generalizing fuel address bitmap with
  | nil =>
      obtain rfl : address = mmapEnd := laid
      cases fuel with
      | zero => exact absurd enough (Nat.not_lt_zero _)
      | succ fuel =>
          rw [freeEntries, if_neg (Nat.lt_irrefl _)]
          rfl
  | cons entry rest ih =>
      cases fuel with
      | zero => exact absurd enough (Nat.not_lt_zero _)
      | succ fuel =>
          obtain ⟨here, onward⟩ := laid
          have bound := laid_le onward
          have next : u32 (address + u32 (entry.size + 4)) = address + (entry.size + 4) := by
            rw [u32_of_lt (by omega : entry.size + 4 < 4294967296), u32_of_lt (by omega)]
          rw [freeEntries, if_pos (by omega), here]
          simp only [next, List.foldl_cons]
          exact ih _ onward (Nat.lt_of_succ_lt_succ enough)

theorem used_free_entry (entry : MultibootMmapEntry) (bitmap : Bitmap) (frame : Nat) :
    Used (freeEntry entry bitmap) frame ↔
      Used bitmap frame ∧ ¬ (entry.type = multibootMmapAvailable ∧
        FreedWindow (entryBase entry) (entryLength entry) frame) := by
  unfold freeEntry
  by_cases available : entry.type = multibootMmapAvailable
  · rw [if_pos available, used_mark_region_free]
    simp only [available, true_and]
  · rw [if_neg available]
    simp only [available, false_and, not_false_eq_true, and_true]

theorem used_free_all (entries : List MultibootMmapEntry) (bitmap : Bitmap) (frame : Nat) :
    Used (entries.foldl (fun bitmap entry => freeEntry entry bitmap) bitmap) frame ↔
      Used bitmap frame ∧ ¬ Freed entries frame := by
  induction entries generalizing bitmap with
  | nil => simp [Freed]
  | cons entry rest ih =>
      rw [List.foldl_cons, ih, used_free_entry]
      simp only [Freed, List.mem_cons, exists_eq_or_imp, not_or, and_assoc]

/-- What `init` leaves: the frames of the cut windows are free unless reserved, and
`totalFrames` counts the windows. -/
theorem init_windows (image : KernelImage) (map : BootMap) (fuel : Nat)
    (enough : map.entries.length < fuel) :
    ∃ pm, init fuel map.memory image map.info construct = some pm ∧
      (∀ frame, Used pm.bitmap frame ↔ ¬ Freed map.entries frame ∨ Reserved image frame) ∧
      pm.totalFrames = Nat.count (Freed map.entries) frameCount := by
  have direct := map.direct
  have start : u32 (map.info.mmapAddr + kernelVbase) = map.info.mmapAddr + kernelVbase :=
    u32_of_lt (by omega)
  have loop := free_entries_laid construct.bitmap direct map.laid enough
  have allUsed : ∀ frame, Used construct.bitmap frame :=
    fun frame => used_full_byte construct.bitmap frame rfl
  let freed := map.entries.foldl (fun bitmap entry => freeEntry entry bitmap) construct.bitmap
  refine ⟨⟨markReserved image freed, countClear freed bitmapSize⟩, ?_, ?_, ?_⟩
  · rw [init, if_pos map.flagged]
    simp only [start, u32_of_lt direct, loop]
    rfl
  · intro frame
    rw [used_mark_reserved, used_free_all]
    simp only [allUsed, true_and]
  · change countClear _ bitmapSize = _
    rw [count_clear_eq]
    apply count_eq_of_agree
    intro frame _
    rw [used_free_all]
    simp only [allUsed, true_and, not_not]

end Map

section OnlyRam

/-- After `init` exactly the unreserved frames inside available entries are free, and
`totalFrames` is the number of frames inside available entries. -/
structure OnlyRam (image : KernelImage) (entries : List MultibootMmapEntry)
    (pm : PhysicalMemoryManager) : Prop where
  free : ∀ frame, frame < frameCount →
    (isFrameUsed pm (frame * frameSize) = false ↔ Ram entries frame ∧ ¬ Reserved image frame)
  total : pm.totalFrames = Nat.count (Ram entries) frameCount

/-- Entries that start at or below the last frame end below 4 GiB, and cutting the
others to 32 bits gives frames of available entries only. -/
def SurvivesTruncation (entries : List MultibootMmapEntry) : Prop :=
  ∀ entry ∈ entries, entry.type = multibootMmapAvailable →
    if entry.baseAddr ≤ 0xFFFFF000 then entry.baseAddr + entry.length < 4294967296
    else ∀ frame, FreedWindow (entryBase entry) (entryLength entry) frame → Ram entries frame

theorem window_exact {entry : MultibootMmapEntry} (low : entry.baseAddr ≤ 0xFFFFF000)
    (fits : entry.baseAddr + entry.length < 4294967296) (frame : Nat) :
    FreedWindow (entryBase entry) (entryLength entry) frame ↔
      entry.baseAddr ≤ frame * frameSize ∧
        frame * frameSize + frameSize ≤ entry.baseAddr + entry.length := by
  have base : entryBase entry = entry.baseAddr := u32_of_lt (by omega)
  have length : entryLength entry = entry.length := by
    unfold entryLength
    rw [if_neg (by omega), u32_of_lt (by omega)]
  rw [base, length, FreedWindow]
  simp only [frameSize]
  rw [u32_of_lt (by omega), u32_of_lt fits]
  omega

theorem top_never_freed (base length : Nat) : ¬ FreedWindow base length 0xFFFFF := by
  have wrapped : u32 (base + length) < 4294967296 := Nat.mod_lt _ (by decide)
  unfold FreedWindow frameSize
  omega

theorem freed_of_ram {entries : List MultibootMmapEntry} {frame : Nat}
    (fits : ∀ entry ∈ entries, entry.type = multibootMmapAvailable →
      entry.baseAddr ≤ 0xFFFFF000 → entry.baseAddr + entry.length < 4294967296)
    (bound : frame < frameCount) (ram : Ram entries frame) : Freed entries frame := by
  obtain ⟨entry, member, available, inside⟩ := ram
  have low : entry.baseAddr ≤ 0xFFFFF000 := by
    have first := inside.1
    unfold frameSize at first
    unfold frameCount bitmapSize at bound
    omega
  exact ⟨entry, member, available,
    (window_exact low (fits entry member available low) frame).2 inside⟩

theorem SurvivesTruncation.fits {entries : List MultibootMmapEntry}
    (survives : SurvivesTruncation entries) :
    ∀ entry ∈ entries, entry.type = multibootMmapAvailable →
      entry.baseAddr ≤ 0xFFFFF000 → entry.baseAddr + entry.length < 4294967296 := by
  intro entry member available low
  have cut := survives entry member available
  rw [if_pos low] at cut
  exact cut

theorem freed_bound {entries : List MultibootMmapEntry} {frame : Nat}
    (freed : Freed entries frame) : frame < frameCount := by
  obtain ⟨entry, _, _, window⟩ := freed
  have wrapped : u32 (entryBase entry + entryLength entry) < 4294967296 :=
    Nat.mod_lt _ (by decide)
  have last := window.2
  unfold frameSize at last
  unfold frameCount bitmapSize
  omega

/-- Under the condition, the windows and the frames inside available entries agree. -/
theorem freed_iff_ram {entries : List MultibootMmapEntry} (survives : SurvivesTruncation entries)
    {frame : Nat} (bound : frame < frameCount) : Freed entries frame ↔ Ram entries frame := by
  constructor
  · rintro ⟨entry, member, available, window⟩
    have cut := survives entry member available
    by_cases low : entry.baseAddr ≤ 0xFFFFF000
    · exact ⟨entry, member, available,
        (window_exact low (survives.fits entry member available low) frame).1 window⟩
    · rw [if_neg low] at cut
      exact cut frame window
  · exact freed_of_ram survives.fits bound

/-- A predicate that implies another one below `n` and holds there as often agrees with it. -/
theorem agree_of_count_eq {p q : Nat → Prop} [DecidablePred p] [DecidablePred q] {n : Nat}
    (implied : ∀ k, k < n → p k → q k) (same : Nat.count p n = Nat.count q n)
    {k : Nat} (bound : k < n) (holds : q k) : p k := by
  rw [Nat.count_eq_card_filter_range, Nat.count_eq_card_filter_range] at same
  have subset : (Finset.range n).filter p ⊆ (Finset.range n).filter q := by
    intro j member
    obtain ⟨range, left⟩ := Finset.mem_filter.1 member
    exact Finset.mem_filter.2 ⟨range, implied j (Finset.mem_range.1 range) left⟩
  have equal := Finset.eq_of_subset_of_card_le subset (le_of_eq same.symm)
  have member : k ∈ (Finset.range n).filter q :=
    Finset.mem_filter.2 ⟨Finset.mem_range.2 bound, holds⟩
  rw [← equal] at member
  exact (Finset.mem_filter.1 member).2

theorem frame_free_iff {image : KernelImage} {entries : List MultibootMmapEntry}
    {pm : PhysicalMemoryManager} {frame : Nat} (bound : frame < frameCount)
    (windows : Used pm.bitmap frame ↔ ¬ Freed entries frame ∨ Reserved image frame) :
    isFrameUsed pm (frame * frameSize) = false ↔
      Freed entries frame ∧ ¬ Reserved image frame := by
  rw [← Bool.not_eq_true, is_frame_used_iff pm frame bound, windows]
  tauto

/-- If only RAM is free, no available entry reaches the top of the 32-bit space. -/
theorem fits_of_only_ram {image : KernelImage} {entries : List MultibootMmapEntry}
    {pm : PhysicalMemoryManager} (onlyRam : OnlyRam image entries pm)
    (windows : ∀ frame, Used pm.bitmap frame ↔ ¬ Freed entries frame ∨ Reserved image frame) :
    ∀ entry ∈ entries, entry.type = multibootMmapAvailable →
      entry.baseAddr ≤ 0xFFFFF000 → entry.baseAddr + entry.length < 4294967296 := by
  intro entry member available low
  by_contra crossing
  have bound : 0xFFFFF < frameCount := by decide
  have ram : Ram entries 0xFFFFF := by
    refine ⟨entry, member, available, ?_⟩
    unfold frameSize
    omega
  have free := (onlyRam.free 0xFFFFF bound).2 ⟨ram, top_not_reserved image⟩
  obtain ⟨⟨_, _, _, window⟩, _⟩ := (frame_free_iff bound (windows 0xFFFFF)).1 free
  exact top_never_freed _ _ window

/-- `init` frees exactly the RAM when no available entry is cut into other memory. -/
theorem init_frees_only_ram (image : KernelImage) (map : BootMap) (fuel : Nat)
    (enough : map.entries.length < fuel) :
    ∃ pm, init fuel map.memory image map.info construct = some pm ∧
      (OnlyRam image map.entries pm ↔ SurvivesTruncation map.entries) := by
  obtain ⟨pm, run, windows, total⟩ := init_windows image map fuel enough
  refine ⟨pm, run, ?_, ?_⟩
  · intro onlyRam
    have fits := fits_of_only_ram onlyRam windows
    intro entry member available
    split
    · next low => exact fits entry member available low
    · intro frame window
      have freed : Freed map.entries frame := ⟨entry, member, available, window⟩
      apply agree_of_count_eq (fun k bound => freed_of_ram fits bound) _ (freed_bound freed) freed
      rw [← onlyRam.total, total]
  · intro survives
    constructor
    · intro frame bound
      rw [frame_free_iff bound (windows frame), freed_iff_ram survives bound]
    · rw [total]
      apply count_eq_of_agree
      intro frame bound
      exact freed_iff_ram survives bound

/-- The kernel at 1 MiB with its bitmap in the middle. -/
def smallImage : KernelImage where
  kernelStart := 0xC0100000
  kernelEnd := 0xC0180000
  bitmap := 0xC0140000
  mapped := by decide
  bitmapFrom := by decide
  bitmapTo := by decide
  addressable := by decide

def entryBytes (entry : MultibootMmapEntry) : List UInt8 :=
  (List.range 4).map (fun k => UInt8.ofNat (entry.size / 256 ^ k)) ++
    (List.range 8).map (fun k => UInt8.ofNat (entry.baseAddr / 256 ^ k)) ++
      (List.range 8).map (fun k => UInt8.ofNat (entry.length / 256 ^ k)) ++
        (List.range 4).map (fun k => UInt8.ofNat (entry.type / 256 ^ k))

/-- A map of 20-byte entries at physical address `0x9000`. -/
def mapMemory (entries : List MultibootMmapEntry) (address : Nat) : UInt8 :=
  (entries.flatMap entryBytes).getD (address - 0xC0009000) 0

theorem flag_mmap : Nat.testBit 64 multibootFlagMmap = true := by decide

theorem map_below : 0x9000 + kernelVbase + 24 < 4294967296 := by decide

/-- Conventional memory, a reserved hole and the memory from 1 MiB to 128 MiB. -/
def ordinaryEntries : List MultibootMmapEntry :=
  [⟨20, 0, 0x9FC00, 1⟩, ⟨20, 0xF0000, 0x10000, 2⟩, ⟨20, 0x100000, 0x7F00000, 1⟩]

def ordinaryMap : BootMap where
  memory := mapMemory ordinaryEntries
  info := ⟨64, 72, 0x9000⟩
  entries := ordinaryEntries
  flagged := flag_mmap
  direct := by decide
  laid := ⟨by decide, by decide, by decide, rfl⟩

theorem init_frees_only_ram_of_ordinary_map :
    ∃ pm, init 4 ordinaryMap.memory smallImage ordinaryMap.info construct = some pm ∧
      OnlyRam smallImage ordinaryMap.entries pm := by
  obtain ⟨pm, run, exactly⟩ := init_frees_only_ram smallImage ordinaryMap 4 (by decide)
  refine ⟨pm, run, exactly.2 ?_⟩
  intro entry member available
  have low : entry.baseAddr ≤ 0xFFFFF000 ∧ entry.baseAddr + entry.length < 4294967296 := by
    revert entry
    decide
  rw [if_pos low.1]
  exact low.2

def highMap : BootMap where
  memory := mapMemory [⟨20, 0x100000000, 0x10000000, 1⟩]
  info := ⟨64, 24, 0x9000⟩
  entries := [⟨20, 0x100000000, 0x10000000, 1⟩]
  flagged := flag_mmap
  direct := map_below
  laid := ⟨by decide, rfl⟩

/-- The frame at 2 MiB becomes allocatable although no memory is there. -/
theorem high_memory_frees_low_frame :
    ∃ pm, init 2 highMap.memory smallImage highMap.info construct = some pm ∧
      ¬ OnlyRam smallImage highMap.entries pm := by
  obtain ⟨pm, run, windows, _⟩ := init_windows smallImage highMap 2 (by decide)
  refine ⟨pm, run, ?_⟩
  intro onlyRam
  have bound : 0x200 < frameCount := by decide
  have freed : Freed highMap.entries 0x200 := by decide
  have unreserved : ¬ Reserved smallImage 0x200 := by
    simp only [Reserved, Overlaps, smallImage, kernelVbase, bitmapSize, frameSize]
    omega
  have free := (frame_free_iff bound (windows 0x200)).2 ⟨freed, unreserved⟩
  have ram := ((onlyRam.free 0x200 bound).1 free).1
  exact absurd ram (by decide)

end OnlyRam

end CassiOS.Memory.MemoryMap
