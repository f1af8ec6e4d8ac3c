import CassiOS.Memory.DirectMap
import CassiOS.Memory.KernelHeap
import CassiOS.Support.LowestFirst

/-!
# The frames that the kernel takes for itself

The kernel heap takes the 256 lowest free frames and the direct map as many of the next ones
as it needs page tables. The region of the heap has no frame in it that is free afterwards.
-/

namespace CassiOS.Memory.KernelFrames

open CassiOS.Support.LowestFirst
open CassiOS.Support.Words
open CassiOS.Memory.DirectMap
open CassiOS.Memory.KernelHeap
open CassiOS.Memory.MemoryMap
open CassiOS.Memory.Paging
open CassiOS.Memory.Physical

set_option autoImplicit false

section Heap

variable {start : Nat → Prop} [DecidablePred start] {pm : PhysicalMemoryManager} {n : Nat}

theorem alloc_filled (filled : Filled frameCount start (Used pm.bitmap) n) :
    Filled frameCount start (Used (allocFrame pm).2.bitmap) (n + 1) := by
  rcases alloc_frame_cases pm with ⟨frame, bound, clear, below, run⟩ | ⟨full, run⟩
  · rw [run]
    exact filled.take bound clear below fun f _ => used_mark_used pm.bitmap frame f bound
  · rw [run]
    exact filled.full full (Nat.le_succ n)

theorem alloc_frames_filled (k : Nat) (filled : Filled frameCount start (Used pm.bitmap) n) :
    Filled frameCount start (Used (allocFrames k pm).2.bitmap) (n + k) := by
  induction k generalizing pm n with
  | zero => exact filled
  | succ k ih =>
      have onward := ih (alloc_filled filled)
      rw [alloc_frames_succ, Nat.add_comm k, ← Nat.add_assoc]
      exact onward

theorem heap_filled (zeroUsed : Used pm.bitmap 0) :
    Filled frameCount (Used pm.bitmap) (Used (KernelHeap.init pm).pmm.bitmap)
      kernelHeapFrames := by
  have first := alloc_filled (filled_start : Filled frameCount (Used pm.bitmap) _ 0)
  have count : kernelHeapFrames = 255 + 1 := rfl
  unfold KernelHeap.init
  rw [count, Nat.add_sub_cancel]
  generalize 255 = rest at count
  have all := alloc_frames_filled rest first
  rw [Nat.zero_add, Nat.add_comm] at all
  dsimp only
  split
  · next none =>
    rcases alloc_frame_cases pm with ⟨frame, bound, clear, _, run⟩ | ⟨full, run⟩
    · rw [run] at none
      have zero : frame = 0 := by
        unfold u32 frameSize kernelVbase at none
        unfold frameCount bitmapSize at bound
        omega
      exact absurd (zero ▸ zeroUsed) clear
    · rw [run] at first ⊢
      exact first.full full (Nat.succ_le_succ (Nat.zero_le rest))
  · exact all

def heapFrame (region : Option (Nat × Nat)) (frame : Nat) : Bool :=
  match region with
  | none => false
  | some (base, size) => (List.range (size / frameSize)).any fun k =>
      physicalOf (base + k * frameSize) / frameSize == frame

theorem heap_frame_iff {first : Nat} (positive : 0 < first) (bound : first < frameCount)
    (clear : ¬ Used pm.bitmap first) (below : ∀ other, other < first → Used pm.bitmap other)
    (frame : Nat) : heapFrame (KernelHeap.init pm).region frame = true ↔
      ∃ k, k < kernelHeapFrames ∧ (first + k) % frameCount = frame := by
  obtain ⟨taken, after, _, run⟩ := init_taken positive bound clear below
  have pages : kernelHeapSize / frameSize = kernelHeapFrames := rfl
  rw [run]
  unfold heapFrame
  dsimp only
  rw [pages, List.any_eq_true]
  apply exists_congr
  intro k
  rw [List.mem_range, physical_page, frame_of_address, beq_iff_eq]

theorem heap_frame_used (zeroUsed : Used pm.bitmap 0) {frame : Nat}
    (inside : heapFrame (KernelHeap.init pm).region frame = true) :
    Used (KernelHeap.init pm).pmm.bitmap frame := by
  have filled := heap_filled zeroUsed
  rcases alloc_frame_cases pm with ⟨first, bound, clear, below, _⟩ | ⟨full, _⟩
  · have positive : 0 < first := by
      rcases Nat.eq_zero_or_pos first with zero | positive
      · exact absurd (zero ▸ zeroUsed) clear
      · exact positive
    obtain ⟨k, few, same⟩ := (heap_frame_iff positive bound clear below frame).1 inside
    have small : frame < frameCount := by
      rw [← same]
      exact Nat.mod_lt _ (by decide)
    apply (filled frame small).2
    by_cases wraps : first + k < frameCount
    · -- at most `k` frames are free between the first one and this one
      right
      rw [Nat.mod_eq_of_lt wraps] at same
      have none : clearBelow (Used pm.bitmap) first = 0 :=
        filled_start.lowest bound clear below
      unfold clearBelow at none ⊢
      rw [← same, Nat.count_add, none, Nat.zero_add]
      exact Nat.lt_of_le_of_lt (Nat.count_le _) few
    · left
      apply below
      unfold kernelHeapFrames at few
      unfold frameCount bitmapSize at wraps small same bound
      omega
  · have none := init_none full
    rw [none] at inside
    exact absurd inside Bool.false_ne_true

end Heap

section Tables

variable {m₀ : MemoryState}

theorem table_of_shown {m : MemoryState} {frame : Nat} (shown : Shown m frame) :
    present (m.kernelDirectory (u32 (frame * frameSize + kernelVbase) / tableSpan)) = true := by
  by_contra absent
  unfold Shown kernelTranslation translation at shown
  rw [if_neg absent] at shown
  have entry := (kernel_entry frame).1
  rw [← shown] at entry
  exact absurd entry (by decide)

/-- What `init` leaves: a page table for each directory entry it needs, in the lowest frames
that were free. -/
structure Ready (m₀ : MemoryState) (entries : List MultibootMmapEntry) (m : MemoryState) :
    Prop where
  built : ∃ taken, Built m₀ entries m taken
  filled : Filled frameCount m₀.Used m.Used (tablesNeeded entries)
  shown : ∀ frame, frame < frameCount → (∃ entry ∈ entries,
    entry.type = multibootMmapAvailable ∧ Covered entry frame) → Shown m frame

open Classical in
theorem init_ready {map : BootMap} {fuel : Nat} (rounds : map.entries.length < fuel)
    (enough : Enough m₀ map.entries) (zeroUsed : m₀.Used 0)
    (empty : ∀ i, m₀.kernelDirectory i = 0)
    (laid : Laid (memoryByte m₀) (map.info.mmapAddr + kernelVbase + map.info.mmapLength)
      (map.info.mmapAddr + kernelVbase) map.entries)
    (spared : ∀ a, ReadAt (map.info.mmapAddr + kernelVbase) map.entries a →
      Spared m₀ map.entries a) :
    ∃ m, DirectMap.init fuel map.info m₀ = some m ∧ Ready m₀ map.entries m := by
  obtain ⟨m, done, ⟨taken, built⟩, shown⟩ := init_built rounds enough zeroUsed empty laid spared
  have served : ∀ i, Needs map.entries i → present (m.kernelDirectory i) = true := by
    rintro i (⟨entry, member, available, k, low, rfl⟩ | ⟨k, low, rfl⟩)
    · have page : mapBase entry + k * frameSize = (mapBase entry / frameSize + k) * frameSize := by
        rw [Nat.add_mul, map_base_page]
      have end_ := map_end_bound entry
      rw [page]
      apply table_of_shown
      apply shown _ (by omega)
      exact Or.inl ⟨entry, member, available, by unfold Covered; omega⟩
    · have page : vgaBase + k * frameSize = (0xB8 + k) * frameSize := by
        unfold vgaBase frameSize
        omega
      unfold vgaPages at low
      rw [page]
      apply table_of_shown
      apply shown _ (by unfold frameCount bitmapSize; omega)
      exact Or.inr (by unfold vgaPages; omega)
  have count : taken.card = tablesNeeded map.entries := by
    have same : (Finset.range 1024).filter (fun i => present (m.kernelDirectory i) = true) =
        (Finset.range 1024).filter (Needs map.entries) :=
      Finset.filter_congr fun i _ => ⟨fun has => (built.tables i has).2, served i⟩
    rw [built.count, same]
    rfl
  refine ⟨m, done, ⟨taken, built⟩, ?_, fun frame small covered => ?_⟩
  · exact filled_of_taken (fun i _ => built.used i) built.early count
  · exact shown frame small (Or.inl covered)

end Tables

end CassiOS.Memory.KernelFrames
