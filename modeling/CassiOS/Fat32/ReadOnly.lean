import CassiOS.Fat32.CacheTransparency
import CassiOS.Fat32.DirectoryModel

/-!
# Reading a volume of any geometry

The read operations on an object whose cache agrees with the drive, with no assumption on the
layout: cluster numbers may lie outside the FAT or the drive, sector numbers may wrap, and a
cluster buffer may be longer than what is read into it. `Reading faults s d` says that `s` has
the content `d` (`core` of an object: what the drive holds and the layout, without cache and
scripts) and that no failure other than `faults` is to come. Reading changes no content.
-/

namespace CassiOS.Fat32.ReadOnly

open CassiOS.Support.PartialProgram
open CassiOS.Fat32.Types
open CassiOS.Fat32.Device
open CassiOS.Fat32.Cache
open CassiOS.Fat32.CacheTransparency
open CassiOS.Fat32.Filesystem
open CassiOS.Fat32.VolumeModel
open CassiOS.Fat32.DirectoryModel

set_option autoImplicit false
set_option maxRecDepth 4000

structure Reading (faults : Faults) (s d : Fat32Filesystem) : Prop where
  transparent : Transparent s
  granting : faults.drive = false → Granting s
  supplied : faults.heap = false → Supplied s
  same : core s = d

/-- What `fatGet` answers. -/
def nextOf (d : Fat32Filesystem) (cluster : Nat) : Nat :=
  if d.fatEntryCount ≤ cluster then fatEoc
  else fatCell (d.ata.sectors (fatSector d cluster)) (fatOffset cluster) % 268435456

/-- The buffer `buf` after sectors `i` up to `i + n` behind `lba` were read into it. -/
def sectorsInto (sectors : Nat → Sector) (lba i n : Nat) (buf : Buf) : Buf := fun j =>
  if i * 512 ≤ j ∧ j < (i + n) * 512 then sectors (u32 (lba + j / 512)) (Fin.ofNat 512 j) else buf j

/-- The buffer `buf` after a cluster was read into it. -/
def clusterInto (d : Fat32Filesystem) (cluster : Nat) (buf : Buf) : Buf :=
  sectorsInto d.ata.sectors (clusterToLba d cluster) 0 d.sectorsPerCluster buf

section Images

variable {sectors : Nat → Sector} {lba i n : Nat}

theorem sectors_into_none (buf : Buf) : sectorsInto sectors lba i 0 buf = buf := by
  funext j
  apply if_neg
  omega

theorem sectors_into_step (buf : Buf) :
    sectorsInto sectors lba (i + 1) n (putSector buf (i * 512) (sectors (u32 (lba + i)))) =
      sectorsInto sectors lba i (n + 1) buf := by
  funext j
  unfold sectorsInto putSector
  by_cases first : i * 512 ≤ j ∧ j < i * 512 + 512
  · have quot : j / 512 = i := by omega
    have offset : Fin.ofNat 512 (j - i * 512) = Fin.ofNat 512 j := by
      apply Fin.ext
      simp only [Fin.val_ofNat]
      omega
    rw [if_neg (by omega), if_pos first, if_pos (by omega), quot, offset]
  · rw [if_neg first]
    by_cases later : (i + 1) * 512 ≤ j ∧ j < (i + 1 + n) * 512
    · rw [if_pos later, if_pos (by omega)]
    · rw [if_neg later, if_neg (by omega)]

/-- Of a buffer only the part behind the cluster matters. -/
theorem cluster_into_congr {d : Fat32Filesystem} {c : Nat} {buf buf' : Buf}
    (same : ∀ j, d.sectorsPerCluster * 512 ≤ j → buf j = buf' j) :
    clusterInto d c buf = clusterInto d c buf' := by
  funext j
  unfold clusterInto sectorsInto
  split
  · rfl
  · exact same j (by omega)

theorem cluster_into_behind (d : Fat32Filesystem) (c : Nat) (buf : Buf) {j : Nat}
    (behind : d.sectorsPerCluster * 512 ≤ j) : clusterInto d c buf j = buf j := by
  apply if_neg
  omega

end Images

section Operations

variable {faults : Faults} {s s' d : Fat32Filesystem}

theorem Reading.kept (reading : Reading faults s d) {lba : Nat} (serves : Serves s s' lba)
    (same : core s' = core s) : Reading faults s' d where
  transparent := serves.transparent
  granting sure := serves.granting (reading.granting sure)
  supplied sure := serves.supplied (reading.supplied sure)
  same := same.trans reading.same

theorem Reading.layout (reading : Reading faults s d) :
    s.ata.sectors = d.ata.sectors ∧ s.fatEntryCount = d.fatEntryCount ∧
      s.sectorsPerCluster = d.sectorsPerCluster ∧ entriesPerCluster s = entriesPerCluster d ∧
      s.rootCluster = d.rootCluster := by
  obtain rfl := reading.same
  exact ⟨rfl, rfl, rfl, rfl, rfl⟩

theorem Reading.addresses (reading : Reading faults s d) (c : Nat) :
    fatSector s c = fatSector d c ∧ clusterToLba s c = clusterToLba d c := by
  obtain rfl := reading.same
  exact ⟨rfl, rfl⟩

theorem read_sector_reading (d : Fat32Filesystem) (lba : Nat) :
    Achieves (Reading faults) (readSector lba) d fun data w => w = d ∧
      (data = some (d.ata.sectors lba) ∨ data = none ∧ faults.drive = true) := by
  intro s reading
  obtain ⟨data, s', run, serves, same, outcome⟩ := cache_read_cases reading.transparent lba
  refine ⟨data, s', d, run, reading.kept serves same, rfl, ?_⟩
  rcases outcome with found | ⟨missing, refused⟩
  · rw [found, reading.layout.1]
    exact .inl rfl
  · refine .inr ⟨missing, ?_⟩
    by_contra sure
    exact refused (reading.granting (Bool.eq_false_iff.2 sure))

theorem heap_alloc_reading (d : Fat32Filesystem) :
    Achieves (Reading faults) heapAlloc d fun block w => w = d ∧
      (block = some d.heap.junk ∨ block = none ∧ faults.heap = true) := by
  intro s reading
  obtain ⟨block, run, outcome⟩ := heap_alloc_cases s
  refine ⟨block, _, d, run, ?_, rfl, ?_⟩
  · exact ⟨Transparent.congr reading.transparent rfl rfl, reading.granting,
      fun sure ok member => reading.supplied sure ok (List.mem_of_mem_tail member), reading.same⟩
  · have junk : s.heap.junk = d.heap.junk := by
      obtain rfl := reading.same
      rfl
    rcases outcome with found | ⟨missing, refused⟩
    · rw [found, junk]
      exact .inl rfl
    · refine .inr ⟨missing, ?_⟩
      by_contra sure
      exact refused (reading.supplied (Bool.eq_false_iff.2 sure))

theorem fat_get_reading (d : Fat32Filesystem) (c : Nat) :
    Achieves (Reading faults) (fatGet c) d fun a w => w = d ∧
      (a = nextOf d c ∨ a = fatEoc ∧ faults.drive = true) := by
  intro s reading
  unfold fatGet nextOf
  rw [reading.layout.2.1, (reading.addresses c).1]
  by_cases beyond : d.fatEntryCount ≤ c
  · rw [if_pos beyond, if_pos beyond]
    exact ⟨fatEoc, s, d, rfl, reading, rfl, .inl rfl⟩
  · rw [if_neg beyond, if_neg beyond]
    refine achieves_bind (read_sector_reading d (fatSector d c)) ?_ s reading
    rintro _ w ⟨rfl, rfl | ⟨rfl, fails⟩⟩
    · exact achieves_pure ⟨rfl, .inl rfl⟩
    · exact achieves_pure ⟨rfl, .inr ⟨rfl, fails⟩⟩

theorem read_sectors_reading (d : Fat32Filesystem) (lba n i : Nat) (buf : Buf) :
    Achieves (Reading faults) (readSectors lba i n buf) d fun answer w => w = d ∧
      (answer = (true, sectorsInto d.ata.sectors lba i n buf) ∨
        answer.1 = false ∧ faults.drive = true) := by
  induction n generalizing i buf with
  | zero =>
      rw [sectors_into_none]
      exact achieves_pure ⟨rfl, .inl rfl⟩
  | succ n ih =>
      unfold readSectors
      apply achieves_bind (read_sector_reading d (u32 (lba + i)))
      rintro _ w ⟨rfl, rfl | ⟨rfl, fails⟩⟩
      · rw [← sectors_into_step]
        exact ih (i + 1) _
      · exact achieves_pure ⟨rfl, .inr ⟨rfl, fails⟩⟩

theorem read_cluster_reading (d : Fat32Filesystem) (c : Nat) (buf : Buf) :
    Achieves (Reading faults) (readCluster c buf) d fun answer w => w = d ∧
      (answer = (true, clusterInto d c buf) ∨ answer.1 = false ∧ faults.drive = true) := by
  intro s reading
  unfold readCluster
  rw [(reading.addresses c).2, reading.layout.2.2.1]
  exact read_sectors_reading d (clusterToLba d c) d.sectorsPerCluster 0 buf s reading

theorem note_overrun_reading (d : Fat32Filesystem) (overrun : Bool) :
    Runs (Reading faults) (noteOverrun overrun) d PUnit.unit d := by
  intro s reading
  exact ⟨_, rfl, Transparent.congr reading.transparent rfl rfl, reading.granting, reading.supplied,
    reading.same⟩

end Operations

end CassiOS.Fat32.ReadOnly
