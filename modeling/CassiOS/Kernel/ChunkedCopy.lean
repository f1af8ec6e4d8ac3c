import CassiOS.Kernel.State
import CassiOS.Support.BlockCopy

/-!
# Copies between address spaces, byte for byte

`mem::copy` and the bulk copies of `core/syscall.cpp` on memory whose places `resolve` finds
from a page directory and an address. A copy through the 256-byte buffer is a single copy as
long as no place of the source is one of the destination.
-/

namespace CassiOS.Kernel.ChunkedCopy

open CassiOS.Support.Words
open CassiOS.Support.BlockCopy
open CassiOS.Kernel.State

set_option autoImplicit false

variable {Place : Type*} [DecidableEq Place]

section Loops

/-- The place of byte `i` of a buffer while `cr3` is loaded. -/
def placeAt (resolve : Nat → Nat → Place) (cr3 ptr i : Nat) : Place := resolve cr3 (u32 (ptr + i))

/-- The sizes in which `mem::copy` moves bytes: words when both pointers are aligned alike. -/
def copySizes (d s n : Nat) : List Nat :=
  if d % 4 = s % 4 then
    let head := min n ((4 - d % 4) % 4)
    List.replicate head 1 ++ List.replicate ((n - head) / 4) 4 ++ List.replicate ((n - head) % 4) 1
  else List.replicate n 1

/-- `mem::copy` as if the two buffers could be reached through different page directories. -/
def memCopy (resolve : Nat → Nat → Place) (dstPD dst srcPD src n : Nat) (m : Place → UInt8) :
    Place → UInt8 :=
  copyBlocks (placeAt resolve dstPD dst) (placeAt resolve srcPD src) (copySizes dst src n) 0 m

/-- The loop over `chunk`; the two page directories are loaded in turn. -/
def copyChunks (resolve : Nat → Nat → Place) (dstPD dst srcPD src len offset : Nat)
    (m : Place → UInt8) : Place → UInt8 :=
  if offset < len then
    let n := if 256 < len - offset then 256 else len - offset
    let chunk := fun i => m (placeAt resolve srcPD src (offset + i))
    copyChunks resolve dstPD dst srcPD src len (offset + n)
      (store (fun i => placeAt resolve dstPD dst (offset + i)) chunk n m)
  else m
termination_by len - offset
decreasing_by
  split <;> omega

def copyDataToProcess (resolve : Nat → Nat → Place) (currentCR3 targetPD dst src len : Nat)
    (m : Place → UInt8) : Place → UInt8 :=
  if targetPD ≠ 0 ∧ targetPD ≠ currentCR3 then
    copyChunks resolve targetPD dst currentCR3 src len 0 m
  else memCopy resolve currentCR3 dst currentCR3 src len m

def copyDataFromProcess (resolve : Nat → Nat → Place) (currentCR3 sourcePD dst src len : Nat)
    (m : Place → UInt8) : Place → UInt8 :=
  if sourcePD ≠ 0 ∧ sourcePD ≠ currentCR3 then
    copyChunks resolve currentCR3 dst sourcePD src len 0 m
  else memCopy resolve currentCR3 dst currentCR3 src len m

/-- The page directory through which the pointers of a process are followed. -/
def effective (currentCR3 pd : Nat) : Nat := if pd ≠ 0 then pd else currentCR3

end Loops

section SingleCopy

variable {resolve : Nat → Nat → Place} {dstPD dst srcPD src len : Nat} {m : Place → UInt8}

/-- No byte of the source lies where a byte of the destination lies. -/
def Apart (resolve : Nat → Nat → Place) (dstPD dst srcPD src len : Nat) : Prop :=
  ∀ i j, i < len → j < len → placeAt resolve dstPD dst i ≠ placeAt resolve srcPD src j

theorem copy_sizes_sum (d s n : Nat) : (copySizes d s n).sum = n := by
  unfold copySizes
  split
  · simp only [List.sum_append_nat, List.sum_replicate_nat]
    omega
  · rw [List.sum_replicate_nat, Nat.mul_one]

theorem mem_copy_eq (apart : Apart resolve dstPD dst srcPD src len) :
    memCopy resolve dstPD dst srcPD src len m =
      store (placeAt resolve dstPD dst) (fun i => m (placeAt resolve srcPD src i)) len m := by
  unfold memCopy
  have copied := copy_blocks_eq (m := m) (copySizes dst src len) 0 (by
    rw [Nat.zero_add, copy_sizes_sum]
    exact apart)
  rw [copied, copy_sizes_sum]
  simp only [Nat.zero_add]

theorem copy_chunks_blocks (offset : Nat) (m : Place → UInt8) :
    ∃ sizes : List Nat, sizes.sum = len - offset ∧
      copyChunks resolve dstPD dst srcPD src len offset m =
        copyBlocks (placeAt resolve dstPD dst) (placeAt resolve srcPD src) sizes offset m := by
  fun_induction copyChunks resolve dstPD dst srcPD src len offset m with
  | case1 offset m more n chunk ih =>
      obtain ⟨sizes, total, rest⟩ := ih
      refine ⟨n :: sizes, ?_, rest⟩
      rw [List.sum_cons, total]
      unfold n
      split <;> omega
  | case2 offset m done => exact ⟨[], by rw [List.sum_nil]; omega, rfl⟩

theorem copy_chunks_eq (apart : Apart resolve dstPD dst srcPD src len) :
    copyChunks resolve dstPD dst srcPD src len 0 m =
      memCopy resolve dstPD dst srcPD src len m := by
  obtain ⟨sizes, total, blocks⟩ := @copy_chunks_blocks _ _ resolve dstPD dst srcPD src len 0 m
  rw [Nat.sub_zero] at total
  rw [blocks, copy_blocks_eq sizes 0 (by rw [Nat.zero_add, total]; exact apart), total,
    mem_copy_eq apart]
  simp only [Nat.zero_add]

/-- Whichever page directories are involved, bulk data are copied as by one `mem::copy`. -/
theorem copy_data_to_process_single {currentCR3 targetPD : Nat}
    (apart : Apart resolve (effective currentCR3 targetPD) dst currentCR3 src len) :
    copyDataToProcess resolve currentCR3 targetPD dst src len m =
      memCopy resolve (effective currentCR3 targetPD) dst currentCR3 src len m := by
  unfold copyDataToProcess
  unfold effective at apart ⊢
  split
  · next other =>
    rw [if_pos other.1] at apart ⊢
    exact copy_chunks_eq apart
  · next here =>
    split
    · next own => rw [not_and_not_right.1 here own]
    · rfl

theorem copy_data_from_process_single {currentCR3 sourcePD : Nat}
    (apart : Apart resolve currentCR3 dst (effective currentCR3 sourcePD) src len) :
    copyDataFromProcess resolve currentCR3 sourcePD dst src len m =
      memCopy resolve currentCR3 dst (effective currentCR3 sourcePD) src len m := by
  unfold copyDataFromProcess
  unfold effective at apart ⊢
  split
  · next other =>
    rw [if_pos other.1] at apart ⊢
    exact copy_chunks_eq apart
  · next here =>
    split
    · next own => rw [not_and_not_right.1 here own]
    · rfl

end SingleCopy

section Spaces

variable {space dst n : Nat} {values : Nat → UInt8} {m : Nat × Nat → UInt8} {pd a : Nat}

theorem store_in_space (word : a < 4294967296) (pointer : dst < 4294967296)
    (length : n ≤ 4294967296) :
    store (placeAt Prod.mk space dst) values n m (pd, a) =
      if pd = space ∧ u32 (a + 4294967296 - dst) < n then values (u32 (a + 4294967296 - dst))
      else m (pd, a) := by
  have position : ∀ i, i < 4294967296 →
      (u32 (dst + i) = a ↔ i = u32 (a + 4294967296 - dst)) := by
    intro i low
    unfold u32
    omega
  split
  · next inside =>
    obtain ⟨rfl, below⟩ := inside
    have here : placeAt Prod.mk pd dst (u32 (a + 4294967296 - dst)) = (pd, a) := by
      unfold placeAt
      rw [(position _ (Nat.lt_of_lt_of_le below length)).2 rfl]
    rw [← here, store_at _ below]
    intro i j low low' same
    have equal := (Prod.mk.inj same).2
    unfold u32 at equal
    omega
  · next outside =>
    apply store_apart
    rintro i below same
    obtain ⟨rfl, there⟩ := Prod.mk.inj same
    rw [(position i (Nat.lt_of_lt_of_le below length)).1 there] at below
    exact outside ⟨rfl, below⟩

theorem effective_eq (k : KernelState) (r : Ref) :
    effective k.cr3 (k.table r).pageDirectory = spaceOf k r := rfl

/-- The copies of the kernel state are these, on memory kept for each page directory. -/
theorem copy_data_to_process_bytes (k : KernelState) (target : Ref) {src len : Nat}
    (apart : Apart Prod.mk (spaceOf k target) dst k.cr3 src len) (word : a < 4294967296)
    (pointer : dst < 4294967296) (length : len ≤ 4294967296) :
    copyDataToProcess Prod.mk k.cr3 (k.table target).pageDirectory dst src len
        (Function.uncurry k.memory) (pd, a) =
      (State.copyDataToProcess k target dst src len).memory pd a := by
  rw [copy_data_to_process_single apart, effective_eq, mem_copy_eq apart,
    store_in_space word pointer length]
  rfl

theorem copy_data_from_process_bytes (k : KernelState) (source : Ref) {src len : Nat}
    (apart : Apart Prod.mk k.cr3 dst (spaceOf k source) src len) (word : a < 4294967296)
    (pointer : dst < 4294967296) (length : len ≤ 4294967296) :
    copyDataFromProcess Prod.mk k.cr3 (k.table source).pageDirectory dst src len
        (Function.uncurry k.memory) (pd, a) =
      (State.copyDataFromProcess k source dst src len).memory pd a := by
  rw [copy_data_from_process_single apart, effective_eq, mem_copy_eq apart,
    store_in_space word pointer length]
  rfl

end Spaces

end CassiOS.Kernel.ChunkedCopy
