import CassiOS.Fat32.Cache
import CassiOS.Support.RowMajor
import Mathlib.Tactic.Ring

/-!
# The volume behind the sectors

What the directory and file code works on: one FAT value for each cluster number and
the bytes of each data cluster. `Stands faults s v` says that `s` is a mounted volume on a
512-byte drive, with two FAT copies that cover every entry, that no failure other than
`faults` is to come, and that `v` is its content. The primitives of the filesystem object
are specified on `Volume` here, and nothing above this module looks at sectors again.
-/

namespace CassiOS.Fat32.VolumeModel

open CassiOS.Support.PartialProgram
open CassiOS.Fat32.Types
open CassiOS.Fat32.Device
open CassiOS.Fat32.Cache

set_option autoImplicit false
set_option maxRecDepth 4000

structure Volume where
  sectorsPerCluster : Nat
  rootCluster : Nat
  fatEntryCount : Nat
  fat : Nat → Nat
  cluster : Nat → Buf
  handles : List FileHandle

def Volume.clusterBytes (v : Volume) : Nat := 512 * v.sectorsPerCluster

/-- A cluster number with an entry in the FAT and sectors of its own. -/
def Volume.Valid (v : Volume) (c : Nat) : Prop := 2 ≤ c ∧ c < v.fatEntryCount

instance (v : Volume) (c : Nat) : Decidable (v.Valid c) :=
  inferInstanceAs (Decidable (2 ≤ c ∧ c < v.fatEntryCount))

/-- A cluster that `allocateCluster` may hand out. -/
def Volume.Free (v : Volume) (c : Nat) : Prop := v.Valid c ∧ v.fat c = fatFree

instance (v : Volume) (c : Nat) : Decidable (v.Free c) :=
  inferInstanceAs (Decidable (v.Valid c ∧ v.fat c = fatFree))

def Volume.setFat (v : Volume) (c value : Nat) : Volume :=
  { v with fat := fun d => if d = c ∧ c < v.fatEntryCount then value % 268435456 else v.fat d }

def Volume.putCluster (v : Volume) (c : Nat) (buf : Buf) : Volume :=
  { v with cluster := fun d => if d = c then fun j => if j < v.clusterBytes then buf j else 0
      else v.cluster d }

def Volume.setHandles (v : Volume) (handles : List FileHandle) : Volume :=
  { v with handles := handles }

section Changes

variable (v : Volume) (c : Nat)

theorem Volume.set_fat_self (value : Nat) (bound : c < v.fatEntryCount) :
    (v.setFat c value).fat c = value % 268435456 := if_pos ⟨rfl, bound⟩

theorem Volume.set_fat_other (value : Nat) {d : Nat} (other : d ≠ c) :
    (v.setFat c value).fat d = v.fat d := if_neg fun both => other both.1

theorem Volume.put_cluster_self (buf : Buf) {j : Nat} (inside : j < v.clusterBytes) :
    (v.putCluster c buf).cluster c j = buf j := by
  unfold Volume.putCluster
  simp only [if_true, if_pos inside]

theorem Volume.put_cluster_other (buf : Buf) {d : Nat} (other : d ≠ c) :
    (v.putCluster c buf).cluster d = v.cluster d := if_neg other

@[simp] theorem Volume.count_set_fat (value : Nat) :
    (v.setFat c value).fatEntryCount = v.fatEntryCount := rfl
@[simp] theorem Volume.bytes_set_fat (value : Nat) :
    (v.setFat c value).clusterBytes = v.clusterBytes := rfl
@[simp] theorem Volume.cluster_set_fat (value : Nat) : (v.setFat c value).cluster = v.cluster := rfl
@[simp] theorem Volume.handles_set_fat (value : Nat) : (v.setFat c value).handles = v.handles := rfl
@[simp] theorem Volume.count_put_cluster (buf : Buf) :
    (v.putCluster c buf).fatEntryCount = v.fatEntryCount := rfl
@[simp] theorem Volume.bytes_put_cluster (buf : Buf) :
    (v.putCluster c buf).clusterBytes = v.clusterBytes := rfl
@[simp] theorem Volume.fat_put_cluster (buf : Buf) : (v.putCluster c buf).fat = v.fat := rfl
@[simp] theorem Volume.handles_put_cluster (buf : Buf) :
    (v.putCluster c buf).handles = v.handles := rfl

end Changes

/-- A FAT32 layout on 512-byte sectors, as `mount` computes it. -/
structure Layout (s : Fat32Filesystem) : Prop where
  sector : s.bytesPerSector = sectorSize
  perCluster : 0 < s.sectorsPerCluster
  clusterBytes : s.bytesPerCluster = s.bytesPerSector * s.sectorsPerCluster
  fatStart : s.fatStartSector = s.reservedSectors
  dataStart : s.dataStartSector = s.reservedSectors + s.numFats * s.fatSize
  copies : 2 ≤ s.numFats
  fatCovers : s.fatEntryCount * 4 ≤ s.fatSize * sectorSize
  entries : s.fatEntryCount ≤ 0x0FFFFFF7
  dataFits : s.dataStartSector + (s.fatEntryCount - 2) * s.sectorsPerCluster ≤ 4294967296
  handleTable : s.handles.length = maxHandles

def volumeOf (s : Fat32Filesystem) : Volume where
  sectorsPerCluster := s.sectorsPerCluster
  rootCluster := s.rootCluster
  fatEntryCount := s.fatEntryCount
  fat c :=
    if c < s.fatEntryCount then
      fatCell (s.ata.sectors (s.fatStartSector + c * 4 / 512)) (c * 4 % 512) % 268435456
    else fatEoc
  cluster c j :=
    if (2 ≤ c ∧ c < s.fatEntryCount) ∧ j < 512 * s.sectorsPerCluster then
      s.ata.sectors (s.dataStartSector + (c - 2) * s.sectorsPerCluster + j / 512) (Fin.ofNat 512 j)
    else 0
  handles := s.handles

/-- Whether requests to the drive may fail, and allocations. -/
structure Faults where
  drive : Bool
  heap : Bool

/-- The cache is in order and no failure other than `faults` is to come. -/
structure Steady (faults : Faults) (s : Fat32Filesystem) : Prop where
  transparent : Transparent s
  unmirrored : Unmirrored s
  granting : faults.drive = false → Granting s
  supplied : faults.heap = false → Supplied s

structure Stands (faults : Faults) (s : Fat32Filesystem) (v : Volume) : Prop where
  layout : Layout s
  steady : Steady faults s
  content : volumeOf s = v

/-- `Does faults f v a w`: on a mounted volume with content `v`, `f` returns `a` and
leaves `w`. -/
abbrev Does {α : Type} (faults : Faults) (f : Fs α) (v : Volume) (a : α) (w : Volume) : Prop :=
  Runs (Stands faults) f v a w

section LayoutFacts

variable {s : Fat32Filesystem}

theorem Layout.bytes (layout : Layout s) : s.bytesPerCluster = 512 * s.sectorsPerCluster := by
  rw [layout.clusterBytes, layout.sector]
  rfl

theorem Layout.fat_below_data (layout : Layout s) :
    s.fatStartSector + 2 * s.fatSize ≤ s.dataStartSector := by
  have both : 2 * s.fatSize ≤ s.numFats * s.fatSize := Nat.mul_le_mul_right _ layout.copies
  rw [layout.fatStart, layout.dataStart]
  omega

theorem Layout.data_bound (layout : Layout s) {c i : Nat}
    (valid : 2 ≤ c ∧ c < s.fatEntryCount) (inside : i < s.sectorsPerCluster) :
    s.dataStartSector + (c - 2) * s.sectorsPerCluster + i < 4294967296 := by
  have fits := layout.dataFits
  have step : (c - 2) * s.sectorsPerCluster + s.sectorsPerCluster ≤
      (s.fatEntryCount - 2) * s.sectorsPerCluster := by
    rw [← Nat.succ_mul]
    exact Nat.mul_le_mul_right _ (by omega)
  omega

theorem Layout.data_unmirrored (layout : Layout s) {lba : Nat} (above : s.dataStartSector ≤ lba) :
    ¬ Mirror s lba := by
  have below := layout.fat_below_data
  unfold Mirror
  omega

theorem Layout.fat_sector (layout : Layout s) {c : Nat} (bound : c < s.fatEntryCount) :
    fatSector s c = s.fatStartSector + c * 4 / 512 ∧ fatOffset c = c * 4 % 512 ∧
      c * 4 / 512 < s.fatSize := by
  have entries := layout.entries
  have covers := layout.fatCovers
  have below := layout.fat_below_data
  have fits := layout.dataFits
  simp only [sectorSize] at covers
  have small : c * 4 < 4294967296 := by omega
  have inside : c * 4 / 512 < s.fatSize := by omega
  refine ⟨?_, ?_, inside⟩
  · simp only [fatSector, sectorSize, u32_of_lt small]
    exact u32_of_lt (by omega)
  · simp only [fatOffset, sectorSize, u32_of_lt small]

theorem Layout.fat_unmirrored (layout : Layout s) {c : Nat} (bound : c < s.fatEntryCount) :
    ¬ Mirror s (fatSector s c) := by
  obtain ⟨sector, _, inside⟩ := layout.fat_sector bound
  rw [sector]
  unfold Mirror
  omega

theorem Layout.cluster_lba (layout : Layout s) {c : Nat} (valid : 2 ≤ c ∧ c < s.fatEntryCount) :
    clusterToLba s c = s.dataStartSector + (c - 2) * s.sectorsPerCluster := by
  have bound := layout.data_bound valid layout.perCluster
  have entries := layout.entries
  have wrap : u32 (c + 4294967294) = c - 2 := by
    unfold u32
    omega
  rw [clusterToLba, wrap]
  exact u32_of_lt (by omega)

theorem layout_of_core {s' : Fat32Filesystem} (layout : Layout s)
    (same : core s' = core (withSectors s s'.ata.sectors)) : Layout s' := by
  have moved : Layout (core (withSectors s s'.ata.sectors)) :=
    ⟨layout.sector, layout.perCluster, layout.clusterBytes, layout.fatStart, layout.dataStart,
      layout.copies, layout.fatCovers, layout.entries, layout.dataFits, layout.handleTable⟩
  rw [← same] at moved
  exact ⟨moved.sector, moved.perCluster, moved.clusterBytes, moved.fatStart, moved.dataStart,
    moved.copies, moved.fatCovers, moved.entries, moved.dataFits, moved.handleTable⟩

theorem volume_of_core {s' : Fat32Filesystem} (same : core s' = core s) :
    volumeOf s' = volumeOf s := by
  have field : volumeOf (core s') = volumeOf (core s) := by rw [same]
  exact field

theorem core_of_core {s' : Fat32Filesystem} (same : core s' = core s) :
    core s' = core (withSectors s s'.ata.sectors) := by
  rw [core_sectors same]
  exact same

end LayoutFacts

section Plumbing

variable {faults : Faults} {s s' : Fat32Filesystem} {v w : Volume} {α : Type}

theorem Stands.bytes (stands : Stands faults s v) : s.bytesPerCluster = v.clusterBytes := by
  rw [stands.layout.bytes, ← stands.content]
  rfl

theorem Stands.count (stands : Stands faults s v) : s.fatEntryCount = v.fatEntryCount := by
  rw [← stands.content]
  rfl

theorem Stands.root (stands : Stands faults s v) : s.rootCluster = v.rootCluster := by
  rw [← stands.content]
  rfl

theorem Stands.table (stands : Stands faults s v) : s.handles = v.handles := by
  rw [← stands.content]
  rfl

theorem Stands.valid (stands : Stands faults s v) {c : Nat} (valid : v.Valid c) :
    2 ≤ c ∧ c < s.fatEntryCount := by
  rw [stands.count]
  exact valid

theorem Steady.served (steady : Steady faults s) {lba : Nat} (serves : Serves s s' lba)
    (outside : ¬ Mirror s lba) (mirror : ∀ l, Mirror s' l ↔ Mirror s l) : Steady faults s' where
  transparent := serves.transparent
  unmirrored := serves.unmirrored steady.unmirrored outside mirror
  granting sure := serves.granting (steady.granting sure)
  supplied sure := serves.supplied (steady.supplied sure)

theorem Steady.congr (steady : Steady faults s) (same : core s' = core s)
    (cache : s'.cache = s.cache) (requests : Granting s → Granting s')
    (blocks : Supplied s → Supplied s') : Steady faults s' where
  transparent := by
    constructor
    · rw [cache]
      exact steady.transparent.size
    · rw [cache, core_sectors same]
      exact steady.transparent.holds
    · rw [cache]
      exact steady.transparent.unique
  unmirrored := by
    rintro lba ⟨i, e, found, valid, rfl⟩
    rw [cache] at found
    rw [mirror_of_core same]
    exact steady.unmirrored _ ⟨i, e, found, valid, rfl⟩
  granting sure := requests (steady.granting sure)
  supplied sure := blocks (steady.supplied sure)

/-- The content depends on what `core` keeps. -/
theorem Stands.same (stands : Stands faults s v) (same : core s' = core s)
    (steady : Steady faults s') : Stands faults s' v where
  layout := layout_of_core stands.layout (core_of_core same)
  steady := steady
  content := (volume_of_core same).trans stands.content

theorem heap_alloc_does (v : Volume) : Achieves (Stands faults) heapAlloc v fun block w =>
    w = v ∧ (block = none → faults.heap = true) := by
  intro s stands
  obtain ⟨block, run, outcome⟩ := heap_alloc_cases s
  refine ⟨block, _, v, run, stands.same rfl (stands.steady.congr rfl rfl id ?_), rfl, ?_⟩
  · exact fun supplied ok member => supplied ok (List.mem_of_mem_tail member)
  · intro missing
    rcases outcome with held | ⟨_, refused⟩
    · rw [held] at missing
      cases missing
    · by_contra sure
      exact refused (stands.steady.supplied (Bool.eq_false_iff.mpr sure))

end Plumbing

section Sectors

variable {faults : Faults} {s : Fat32Filesystem} {v : Volume}

theorem read_sector_stands (stands : Stands faults s v) {lba : Nat} (outside : ¬ Mirror s lba) :
    ∃ data s', readSector lba s = some (data, s') ∧ Stands faults s' v ∧ core s' = core s ∧
      (data = some (s.ata.sectors lba) ∨ data = none ∧ faults.drive = true) := by
  obtain ⟨data, s', run, serves, same, outcome⟩ := cache_read_cases stands.steady.transparent lba
  refine ⟨data, s', run, stands.same same (stands.steady.served serves outside
    (mirror_of_core same)), same, outcome.imp_right fun ⟨missing, refused⟩ => ⟨missing, ?_⟩⟩
  by_contra sure
  exact refused (stands.steady.granting (Bool.eq_false_iff.mpr sure))

/-- One more sector in front of a window of the buffer filled from the drive. -/
theorem window_grows (sectors : Nat → Sector) (lba i n : Nat) (buf : Buf) (j : Nat) :
    (if (i + 1) * 512 ≤ j ∧ j < (i + 1 + n) * 512 then
      sectors (lba + j / 512) (Fin.ofNat 512 j)
    else putSector buf (i * 512) (sectors (lba + i)) j) =
      if i * 512 ≤ j ∧ j < (i + (n + 1)) * 512 then sectors (lba + j / 512) (Fin.ofNat 512 j)
      else buf j := by
  unfold putSector
  by_cases first : i * 512 ≤ j ∧ j < i * 512 + 512
  · have quot : j / 512 = i := by omega
    have offset : Fin.ofNat 512 (j - i * 512) = Fin.ofNat 512 j := by
      apply Fin.ext
      simp only [Fin.val_ofNat]
      omega
    rw [if_neg (by omega), if_pos first, if_pos (by omega), quot, offset]
  · rw [if_neg first]
    by_cases later : (i + 1) * 512 ≤ j ∧ j < (i + 1 + n) * 512
    · rw [if_pos later, if_pos (by omega)]
    · rw [if_neg later, if_neg (by omega)]

/-- Sectors `lba + i` up to `lba + i + n` are put at their place in the buffer. -/
theorem read_sectors_stands (lba n : Nat) (i : Nat) (buf : Buf) (stands : Stands faults s v)
    (bound : lba + i + n ≤ 4294967296) (outside : ∀ k, i ≤ k → k < i + n → ¬ Mirror s (lba + k)) :
    ∃ ok buf' s', readSectors lba i n buf s = some ((ok, buf'), s') ∧ Stands faults s' v ∧
      core s' = core s ∧
      (ok = true ∧ (buf' = fun j => if i * 512 ≤ j ∧ j < (i + n) * 512 then
          s.ata.sectors (lba + j / 512) (Fin.ofNat 512 j) else buf j) ∨
        ok = false ∧ faults.drive = true) := by
  induction n generalizing i buf s with
  | zero =>
      have none_inside : ∀ j, ¬ (i * 512 ≤ j ∧ j < (i + 0) * 512) := by omega
      refine ⟨true, buf, s, rfl, stands, rfl, .inl ⟨rfl, ?_⟩⟩
      simp only [none_inside, if_false]
  | succ n ih =>
      have here : u32 (lba + i) = lba + i := u32_of_lt (by omega)
      obtain ⟨data, s₁, read, stands₁, same₁, outcome⟩ :=
        read_sector_stands stands (outside i (Nat.le_refl _) (by omega))
      rcases outcome with rfl | ⟨rfl, fails⟩
      · obtain ⟨ok, buf', s₂, rest, stands₂, same₂, outcome₂⟩ := ih (i + 1)
          (putSector buf (i * sectorSize) (s.ata.sectors (lba + i))) stands₁ (by omega)
          (fun k lower upper => by
            rw [mirror_of_core same₁]
            exact outside k (by omega) (by omega))
        refine ⟨ok, buf', s₂, ?_, stands₂, same₂.trans same₁, outcome₂.imp_left ?_⟩
        · rw [readSectors, here]
          exact (bind_of_some read).trans rest
        · rintro ⟨done, rfl⟩
          refine ⟨done, funext fun j => ?_⟩
          rw [core_sectors same₁]
          exact window_grows s.ata.sectors lba i n buf j
      · refine ⟨false, buf, s₁, ?_, stands₁, same₁, .inr ⟨rfl, fails⟩⟩
        rw [readSectors, here]
        exact bind_of_some read

/-- The drive after the buffer was written to sectors `lba + i` up to `lba + i + n`. -/
def writtenWindow (sectors : Nat → Sector) (lba i n : Nat) (buf : Buf) : Nat → Sector := fun l =>
  if lba + i ≤ l ∧ l < lba + i + n then sectorOf buf ((l - lba) * 512) else sectors l

theorem written_window_grows (sectors : Nat → Sector) (lba i n : Nat) (buf : Buf) :
    writtenWindow (putAt sectors (lba + i) (sectorOf buf (i * 512))) lba (i + 1) n buf =
      writtenWindow sectors lba i (n + 1) buf := by
  funext l
  unfold writtenWindow putAt
  by_cases first : l = lba + i
  · have offset : l - lba = i := by omega
    rw [if_neg (by omega), if_pos first, if_pos (by omega), offset]
  · rw [if_neg first]
    by_cases later : lba + (i + 1) ≤ l ∧ l < lba + (i + 1) + n
    · rw [if_pos later, if_pos (by omega)]
    · rw [if_neg later, if_neg (by omega)]

theorem write_sectors_steady (sure : faults.drive = false) (lba n : Nat) (buf : Buf) (i : Nat)
    (steady : Steady faults s) (bound : lba + i + n ≤ 4294967296)
    (outside : ∀ k, i ≤ k → k < i + n → ¬ Mirror s (lba + k)) :
    ∃ s', writeSectors lba i buf n s = some (true, s') ∧ Steady faults s' ∧
      core s' = core (withSectors s (writtenWindow s.ata.sectors lba i n buf)) := by
  induction n generalizing i s with
  | zero =>
      refine ⟨s, rfl, steady, ?_⟩
      have unchanged : writtenWindow s.ata.sectors lba i 0 buf = s.ata.sectors := by
        funext l
        exact if_neg (by omega)
      rw [unchanged]
      rfl
  | succ n ih =>
      have here : u32 (lba + i) = lba + i := u32_of_lt (by omega)
      obtain ⟨s₁, write, serves, same₁⟩ := cache_write_serves (steady.granting sure)
        steady.transparent (lba + i) (sectorOf buf (i * sectorSize))
      have mirror : ∀ l, Mirror s₁ l ↔ Mirror s l := fun l => mirror_of_core same₁ l
      have steady₁ := steady.served serves (outside i (Nat.le_refl _) (by omega)) mirror
      have sectors₁ : s₁.ata.sectors =
          putAt s.ata.sectors (lba + i) (sectorOf buf (i * 512)) := core_sectors same₁
      obtain ⟨s₂, rest, steady₂, same₂⟩ := ih (i + 1) steady₁ (by omega) (fun k lower upper => by
        rw [mirror]
        exact outside k (by omega) (by omega))
      refine ⟨s₂, ?_, steady₂, ?_⟩
      · rw [writeSectors, here]
        exact (bind_of_some write).trans rest
      · rw [same₂, sectors₁, written_window_grows]
        exact core_with_sectors same₁ _

end Sectors

section Clusters

variable {faults : Faults} {v : Volume}

/-- The first `n` bytes come from `a`, the others from `b`. -/
def overlay (n : Nat) (a b : Buf) : Buf := fun j => if j < n then a j else b j

theorem read_cluster_does {c : Nat} (valid : v.Valid c) (buf : Buf) :
    Achieves (Stands faults) (readCluster c buf) v fun answer w => w = v ∧
      (answer = (true, overlay v.clusterBytes (v.cluster c) buf) ∨
        answer.1 = false ∧ faults.drive = true) := by
  intro s stands
  have layout := stands.layout
  have inRange := stands.valid valid
  have last := layout.data_bound inRange (i := s.sectorsPerCluster - 1)
    (by have := layout.perCluster; omega)
  obtain ⟨ok, buf', s', run, stands', _, outcome⟩ := read_sectors_stands (clusterToLba s c)
    s.sectorsPerCluster 0 buf stands
    (by rw [layout.cluster_lba inRange]; have := layout.perCluster; omega)
    (fun k _ _ => by
      rw [layout.cluster_lba inRange]
      exact layout.data_unmirrored (by omega))
  refine ⟨(ok, buf'), s', v, run, stands', rfl, outcome.imp_left ?_⟩
  rintro ⟨rfl, rfl⟩
  refine congrArg (Prod.mk true) (funext fun j => ?_)
  rw [layout.cluster_lba inRange, ← stands.content]
  have size : (volumeOf s).clusterBytes = 512 * s.sectorsPerCluster := rfl
  by_cases inside : j < (volumeOf s).clusterBytes
  · rw [if_pos (by omega)]
    exact ((if_pos inside).trans (if_pos ⟨inRange, size ▸ inside⟩)).symm
  · rw [if_neg (by omega)]
    exact (if_neg inside).symm

theorem volume_of_written {s : Fat32Filesystem} (layout : Layout s) {c : Nat}
    (valid : 2 ≤ c ∧ c < s.fatEntryCount) (buf : Buf) :
    volumeOf (withSectors s (writtenWindow s.ata.sectors
        (s.dataStartSector + (c - 2) * s.sectorsPerCluster) 0 s.sectorsPerCluster buf)) =
      (volumeOf s).putCluster c buf := by
  have fatBelow := layout.fat_below_data
  simp only [volumeOf, withSectors, Volume.putCluster, Volume.clusterBytes]
  congr 1
  · funext d
    refine ite_congr rfl (fun bound => ?_) (fun _ => rfl)
    obtain ⟨_, _, inside⟩ := layout.fat_sector bound
    rw [writtenWindow, if_neg (by omega)]
  · funext d j
    by_cases own : d = c
    · subst own
      rw [if_pos rfl]
      by_cases inside : j < 512 * s.sectorsPerCluster
      · refine (if_pos ⟨valid, inside⟩).trans (Eq.trans ?_ (if_pos inside).symm)
        rw [writtenWindow, if_pos (by omega)]
        simp only [sectorOf, Fin.val_ofNat]
        congr 1
        omega
      · exact (if_neg fun both => inside both.2).trans (if_neg inside).symm
    · rw [if_neg own]
      refine ite_congr rfl (fun inside => ?_) (fun _ => rfl)
      have apart : ¬ (s.dataStartSector + (c - 2) * s.sectorsPerCluster + 0 ≤
            s.dataStartSector + (d - 2) * s.sectorsPerCluster + j / 512 ∧
          s.dataStartSector + (d - 2) * s.sectorsPerCluster + j / 512 <
            s.dataStartSector + (c - 2) * s.sectorsPerCluster + 0 + s.sectorsPerCluster) := by
        intro overlap
        have unique : d - 2 = c - 2 ∧ j / 512 = (d - 2) * s.sectorsPerCluster + j / 512 -
            (c - 2) * s.sectorsPerCluster :=
          Support.RowMajor.index_unique (by omega) (show _ < s.sectorsPerCluster by omega)
            (by omega)
        omega
      rw [writtenWindow, if_neg apart]

theorem write_cluster_does (sure : faults.drive = false) {c : Nat} (valid : v.Valid c)
    (buf : Buf) : Does faults (writeCluster c buf) v true (v.putCluster c buf) := by
  intro s stands
  have layout := stands.layout
  have inRange := stands.valid valid
  have last := layout.data_bound inRange (i := s.sectorsPerCluster - 1)
    (by have := layout.perCluster; omega)
  obtain ⟨s', run, steady, same⟩ := write_sectors_steady sure (clusterToLba s c)
    s.sectorsPerCluster buf 0 stands.steady
    (by rw [layout.cluster_lba inRange]; have := layout.perCluster; omega)
    (fun k _ _ => by
      rw [layout.cluster_lba inRange]
      exact layout.data_unmirrored (by omega))
  have moved : core s' = core (withSectors s s'.ata.sectors) := by
    rw [core_sectors same]
    exact same
  refine ⟨s', run, layout_of_core layout moved, steady, ?_⟩
  rw [volume_of_core same, layout.cluster_lba inRange, volume_of_written layout inRange,
    stands.content]

end Clusters

end CassiOS.Fat32.VolumeModel
