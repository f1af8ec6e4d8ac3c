import CassiOS.Fat32.CacheTransparency

/-!
# The geometry that `mount` establishes

`mount` copies the boot sector's fields and derives the layout from them in `u32` arithmetic.
`Sound` is what the rest of the code relies on: divisors that are not 0, cluster buffers as
long as what is read into them, a FAT area with a cell for every entry, and clusters with
sectors of their own within the volume. Whether a mounted volume is sound is decided by the
boot sector alone.
-/

namespace CassiOS.Fat32.MountGeometry

open CassiOS.Support.PartialProgram
open CassiOS.Fat32.Types
open CassiOS.Fat32.Device
open CassiOS.Fat32.Operations
open CassiOS.Fat32.Cache
open CassiOS.Fat32.CacheTransparency

set_option autoImplicit false

section BootSector

/-! The fields of `Bpb` that `mount` reads. -/

variable (boot : Sector)

def bytesPerSector : Nat := le16 (sectorByte boot 11) (sectorByte boot 12)
def sectorsPerCluster : Nat := (sectorByte boot 13).toNat
def reservedSectors : Nat := le16 (sectorByte boot 14) (sectorByte boot 15)
def numFats : Nat := (sectorByte boot 16).toNat
def totalSectors32 : Nat :=
  le32 (sectorByte boot 32) (sectorByte boot 33) (sectorByte boot 34) (sectorByte boot 35)
def fatSize32 : Nat :=
  le32 (sectorByte boot 36) (sectorByte boot 37) (sectorByte boot 38) (sectorByte boot 39)

/-- Where the data area begins, and the number of whole clusters behind it. -/
def dataStart : Nat := reservedSectors boot + numFats boot * fatSize32 boot
def clusterCount : Nat := (totalSectors32 boot - dataStart boot) / sectorsPerCluster boot

/-- The fields fit together. -/
structure GoodGeometry : Prop where
  perCluster : sectorsPerCluster boot ≠ 0
  sectorSize : 512 ≤ bytesPerSector boot
  fatEnd : reservedSectors boot + fatSize32 boot < 4294967296
  dataInside : dataStart boot ≤ totalSectors32 boot
  offsets : clusterCount boot + 2 ≤ 1073741824
  fatHolds : (clusterCount boot + 1) * 4 / 512 < fatSize32 boot

end BootSector

/-- The geometry that cluster and FAT access rely on; no equation wraps. -/
structure Sound (s : Fat32Filesystem) (totalSectors : Nat) : Prop where
  divisors : s.sectorsPerCluster ≠ 0 ∧ s.bytesPerCluster ≠ 0
  buffer : s.sectorsPerCluster * 512 ≤ s.bytesPerCluster
  fatEnd : s.fatStartSector + s.fatSize < 4294967296
  dataSector : s.dataStartSector = s.reservedSectors + s.numFats * s.fatSize
  dataInside : s.dataStartSector ≤ totalSectors
  entries : s.fatEntryCount = (totalSectors - s.dataStartSector) / s.sectorsPerCluster + 2
  cells : ∀ c, c < s.fatEntryCount → c * 4 < 4294967296 ∧
    fatSector s c = s.fatStartSector + c * 4 / 512 ∧
    s.fatStartSector ≤ fatSector s c ∧ fatSector s c < s.fatStartSector + s.fatSize
  clusters : ∀ c, 2 ≤ c → c < s.fatEntryCount →
    clusterToLba s c = s.dataStartSector + (c - 2) * s.sectorsPerCluster ∧
    s.dataStartSector ≤ clusterToLba s c ∧
    clusterToLba s c + s.sectorsPerCluster ≤ totalSectors
  apart : ∀ c d, 2 ≤ c → c < s.fatEntryCount → 2 ≤ d → d < s.fatEntryCount → c ≠ d →
    clusterToLba s c + s.sectorsPerCluster ≤ clusterToLba s d ∨
      clusterToLba s d + s.sectorsPerCluster ≤ clusterToLba s c

/-- What `mount` leaves on a volume with that boot sector. -/
structure MountedFrom (boot : Sector) (s : Fat32Filesystem) : Prop where
  perCluster : s.sectorsPerCluster = sectorsPerCluster boot
  clusterBytes : s.bytesPerCluster = u32 (bytesPerSector boot * sectorsPerCluster boot)
  reserved : s.reservedSectors = reservedSectors boot
  fats : s.numFats = numFats boot
  fatSize : s.fatSize = fatSize32 boot
  fatStart : s.fatStartSector = reservedSectors boot
  dataSector : s.dataStartSector = u32 (dataStart boot)
  entries : s.fatEntryCount = u32 (u32 (totalSectors32 boot +
    (4294967296 - u32 (dataStart boot))) / sectorsPerCluster boot + 2)

section Running

variable {s₀ : Fat32Filesystem} {boot : Sector}

theorem layout_mounted (s : Fat32Filesystem) :
    MountedFrom boot (layoutFrom (fun j => sectorByte boot j) s) :=
  ⟨rfl, rfl, rfl, rfl, rfl, rfl, rfl, rfl⟩

def withTable (s : Fat32Filesystem) : Fat32Filesystem :=
  { s with
    heap := ⟨s.heap.outcomes.tail, s.heap.junk⟩
    handles := List.replicate maxHandles emptyHandle }

def withCache (s : Fat32Filesystem) : Fat32Filesystem :=
  { s with
    heap := ⟨s.heap.outcomes.tail, s.heap.junk⟩
    cache := List.replicate cacheSize emptyCacheEntry
    cacheAge := 0 }

/-- `mount` behind its allocations. -/
def mountVolume : Fs Bool := do
  match ← readSector 0 with
  | none => pure false
  | some boot =>
      if boot 13 = 0 then fun _ => none
      else do
        modify (layoutFrom fun j => sectorByte boot j)
        pure true

theorem supplied_tail {s : Fat32Filesystem} (supplied : Supplied s) : Supplied (withTable s) :=
  fun ok member => supplied ok (List.mem_of_mem_tail member)

/-- Only an allocation that fails keeps `mount` from reading the boot sector. -/
theorem mount_cases (s₀ : Fat32Filesystem) :
    mount s₀ = mountVolume (withCache (withTable s₀)) ∨
      ∃ s, mount s₀ = some (false, s) ∧ ¬ Supplied s₀ := by
  obtain ⟨table, alloc, granted⟩ := heap_alloc_cases s₀
  rcases granted with rfl | ⟨rfl, refused⟩
  · obtain ⟨block, alloc', granted'⟩ := heap_alloc_cases (withTable s₀)
    rcases granted' with rfl | ⟨rfl, refused⟩
    · left
      refine (bind_of_some alloc).trans ((bind_of_some (x := modify _) rfl).trans ?_)
      exact (bind_of_some alloc').trans (bind_of_some (x := modify _) rfl)
    · have failed : mount s₀ = (pure false : Fs Bool) { withTable s₀ with
          heap := ⟨(withTable s₀).heap.outcomes.tail, (withTable s₀).heap.junk⟩ } :=
        (bind_of_some alloc).trans ((bind_of_some (x := modify _) rfl).trans (bind_of_some alloc'))
      exact .inr ⟨_, failed, fun supplied => refused (supplied_tail supplied)⟩
  · exact .inr ⟨_, bind_of_some alloc, refused⟩

theorem mount_volume_cases {s : Fat32Filesystem} (transparent : Transparent s)
    (sector : s.ata.sectors 0 = boot) (divides : boot 13 ≠ 0) :
    ∃ ok s', mountVolume s = some (ok, s') ∧ Transparent s' ∧
      (ok = true → MountedFrom boot s' ∧ s'.ata.sectors = s.ata.sectors) ∧
      (Granting s → ok = true) := by
  obtain ⟨data, s₁, read, serves, same, outcome⟩ := cache_read_cases transparent 0
  rcases outcome with rfl | ⟨rfl, refused⟩
  · rw [sector] at read
    have goes : mountVolume s = some (true, layoutFrom (fun j => sectorByte boot j) s₁) := by
      refine (bind_of_some read).trans ?_
      dsimp only
      rw [if_neg divides]
      rfl
    exact ⟨true, _, goes, Transparent.congr serves.transparent rfl rfl,
      fun _ => ⟨layout_mounted s₁, (core_sectors same : s₁.ata.sectors = s.ata.sectors)⟩,
      fun _ => rfl⟩
  · exact ⟨false, s₁, bind_of_some read, serves.transparent, nofun,
      fun granting => absurd granting refused⟩

theorem mount_volume_traps {s : Fat32Filesystem} (transparent : Transparent s)
    (granting : Granting s) (sector : s.ata.sectors 0 = boot) (zero : boot 13 = 0) :
    mountVolume s = none := by
  obtain ⟨s₁, read, _⟩ := cache_read_serves granting transparent 0
  rw [sector] at read
  refine (bind_of_some read).trans ?_
  dsimp only
  rw [if_pos zero]

theorem with_cache_transparent (s : Fat32Filesystem) : Transparent (withCache s) :=
  transparent_empty rfl

/-- A mounted volume has an orderly cache, and its layout is that of the boot sector. -/
theorem mount_establishes {s : Fat32Filesystem} (mounted : mount s₀ = some (true, s)) :
    Transparent s ∧ MountedFrom (s₀.ata.sectors 0) s ∧ s.ata.sectors = s₀.ata.sectors := by
  rcases mount_cases s₀ with run | ⟨s', run, _⟩
  · rw [run] at mounted
    by_cases zero : s₀.ata.sectors 0 13 = 0
    · obtain ⟨data, s₁, read, _, _, outcome⟩ :=
        cache_read_cases (with_cache_transparent (withTable s₀)) 0
      have goes := (bind_of_some read).symm.trans mounted
      rcases outcome with rfl | ⟨rfl, _⟩
      · dsimp only at goes
        rw [if_pos (show (withCache (withTable s₀)).ata.sectors 0 13 = 0 from zero)] at goes
        cases goes
      · cases goes
    · obtain ⟨ok, s', run', transparent, layout, _⟩ := mount_volume_cases
        (with_cache_transparent (withTable s₀)) rfl zero
      cases run'.symm.trans mounted
      exact ⟨transparent, layout rfl⟩
  · cases run.symm.trans mounted

end Running

section Arithmetic

variable {boot : Sector} {s : Fat32Filesystem}

theorem boot_fields_lt (boot : Sector) : bytesPerSector boot < 65536 ∧
    sectorsPerCluster boot < 256 ∧ reservedSectors boot < 65536 ∧
    totalSectors32 boot < 4294967296 ∧ fatSize32 boot < 4294967296 :=
  ⟨le16_lt .., UInt8.toNat_lt _, le16_lt .., le32_lt .., le32_lt ..⟩

theorem per_cluster_zero : sectorsPerCluster boot = 0 ↔ boot 13 = 0 :=
  ⟨fun zero => UInt8.toNat_inj.1 zero, fun zero => congrArg UInt8.toNat zero⟩

/-- The product of two fields of 16 and 8 bits does not wrap. -/
theorem cluster_bytes_product (mounted : MountedFrom boot s) :
    s.bytesPerCluster = bytesPerSector boot * s.sectorsPerCluster := by
  obtain ⟨bytes, perCluster, _⟩ := boot_fields_lt boot
  have product : bytesPerSector boot * sectorsPerCluster boot ≤ 65535 * 255 :=
    Nat.mul_le_mul (by omega) (by omega)
  rw [mounted.clusterBytes, mounted.perCluster]
  exact u32_of_lt (by omega)

theorem good_layout (good : GoodGeometry boot) (mounted : MountedFrom boot s) :
    s.dataStartSector = dataStart boot ∧ s.fatEntryCount = clusterCount boot + 2 := by
  obtain ⟨_, _, _, total, _⟩ := boot_fields_lt boot
  have inside := good.dataInside
  have offsets := good.offsets
  have data : u32 (dataStart boot) = dataStart boot := u32_of_lt (by omega)
  have rest : u32 (totalSectors32 boot + (4294967296 - dataStart boot)) =
      totalSectors32 boot - dataStart boot := by
    unfold u32
    omega
  refine ⟨mounted.dataSector.trans data, ?_⟩
  rw [mounted.entries, data, rest]
  exact u32_of_lt (by unfold clusterCount at offsets; omega)

theorem clusters_inside (inside : dataStart boot ≤ totalSectors32 boot) {k : Nat}
    (below : k < clusterCount boot) :
    dataStart boot + k * sectorsPerCluster boot + sectorsPerCluster boot ≤ totalSectors32 boot := by
  have steps : (k + 1) * sectorsPerCluster boot ≤
      clusterCount boot * sectorsPerCluster boot := Nat.mul_le_mul_right _ below
  have whole : clusterCount boot * sectorsPerCluster boot ≤
      totalSectors32 boot - dataStart boot := Nat.div_mul_le_self ..
  rw [Nat.succ_mul] at steps
  omega

theorem good_sound (good : GoodGeometry boot) (mounted : MountedFrom boot s) :
    Sound s (totalSectors32 boot) := by
  obtain ⟨data, entries⟩ := good_layout good mounted
  obtain ⟨_, _, reserved, total, _⟩ := boot_fields_lt boot
  have per := mounted.perCluster
  have bytes := cluster_bytes_product mounted
  have offsets := good.offsets
  have holds := good.fatHolds
  have fatEnd := good.fatEnd
  have lba : ∀ c, 2 ≤ c → c < s.fatEntryCount →
      clusterToLba s c = dataStart boot + (c - 2) * sectorsPerCluster boot ∧
      clusterToLba s c + sectorsPerCluster boot ≤ totalSectors32 boot := by
    intro c low high
    have inside := clusters_inside good.dataInside
      (show c - 2 < clusterCount boot by omega)
    have wrap : u32 (c + 4294967294) = c - 2 := by
      unfold u32
      omega
    have exactly : clusterToLba s c = dataStart boot + (c - 2) * sectorsPerCluster boot := by
      unfold clusterToLba
      rw [wrap, data, per]
      exact u32_of_lt (by omega)
    exact ⟨exactly, by omega⟩
  constructor
  · rw [bytes, per]
    have size := good.sectorSize
    exact ⟨good.perCluster, Nat.mul_ne_zero (by omega) good.perCluster⟩
  · rw [bytes, per, Nat.mul_comm]
    exact Nat.mul_le_mul_right _ good.sectorSize
  · rw [mounted.fatStart, mounted.fatSize]
    exact fatEnd
  · rw [data, mounted.reserved, mounted.fats, mounted.fatSize]
    rfl
  · rw [data]
    exact good.dataInside
  · rw [entries, data, per]
    rfl
  · intro c below
    have small : c * 4 < 4294967296 := by omega
    have cell : c * 4 / 512 < fatSize32 boot := by omega
    have sector : fatSector s c = s.fatStartSector + c * 4 / 512 := by
      unfold fatSector sectorSize
      rw [u32_of_lt small, mounted.fatStart]
      exact u32_of_lt (by omega)
    rw [sector, mounted.fatSize]
    omega
  · intro c low high
    obtain ⟨exactly, inside⟩ := lba c low high
    rw [data, per]
    exact ⟨exactly, by omega, inside⟩
  · intro c d lowC highC lowD highD differ
    obtain ⟨exactC, _⟩ := lba c lowC highC
    obtain ⟨exactD, _⟩ := lba d lowD highD
    have step : ∀ {a b : Nat}, 2 ≤ a → a < b →
        (a - 2) * sectorsPerCluster boot + sectorsPerCluster boot ≤
          (b - 2) * sectorsPerCluster boot := by
      intro a b low less
      rw [← Nat.succ_mul]
      exact Nat.mul_le_mul_right _ (by omega)
    rw [exactC, exactD, per]
    rcases Nat.lt_or_gt_of_ne differ with less | less
    · have ends := step lowC less
      omega
    · have ends := step lowD less
      omega

theorem sound_good (mounted : MountedFrom boot s) (sound : Sound s (totalSectors32 boot)) :
    GoodGeometry boot := by
  obtain ⟨_, _, _, total, _⟩ := boot_fields_lt boot
  have per := mounted.perCluster
  have positive : sectorsPerCluster boot ≠ 0 := per ▸ sound.divisors.1
  have data : s.dataStartSector = dataStart boot := by
    rw [sound.dataSector, mounted.reserved, mounted.fats, mounted.fatSize]
    rfl
  have entries : s.fatEntryCount = clusterCount boot + 2 := by
    rw [sound.entries, data, per]
    rfl
  have last := sound.cells (clusterCount boot + 1) (by omega)
  obtain ⟨small, sector, _, inside⟩ := last
  constructor
  · exact positive
  · have buffer := sound.buffer
    rw [cluster_bytes_product mounted, per, Nat.mul_comm] at buffer
    exact Nat.le_of_mul_le_mul_right buffer (Nat.pos_of_ne_zero positive)
  · rw [← mounted.fatStart, ← mounted.fatSize]
    exact sound.fatEnd
  · rw [← data]
    exact sound.dataInside
  · omega
  · rw [sector, mounted.fatSize] at inside
    omega

end Arithmetic

/-- On a drive with that boot sector `mount` does not trap, and answers `true` only on a sound
volume. -/
def Validates (boot : Sector) : Prop :=
  ∀ s₀ : Fat32Filesystem, s₀.ata.sectors 0 = boot → ∃ ok s, mount s₀ = some (ok, s) ∧
    (ok = true → Sound s (totalSectors32 boot))

/-- An object in front of a drive that serves every request, before `mount`. -/
def freshObject (sectors : Nat → Sector) : Fat32Filesystem where
  ata := ⟨sectors, []⟩
  heap := ⟨[], fun _ => 0⟩
  bytesPerSector := 0
  sectorsPerCluster := 0
  bytesPerCluster := 0
  reservedSectors := 0
  numFats := 0
  fatSize := 0
  fatStartSector := 0
  dataStartSector := 0
  rootCluster := 0
  totalClusters := 0
  fatEntryCount := 0
  handles := []
  cache := []
  cacheAge := 0
  lfnOverrun := false

theorem fresh_mount (sectors : Nat → Sector) :
    mount (freshObject sectors) = mountVolume (withCache (withTable (freshObject sectors))) := by
  rcases mount_cases (freshObject sectors) with run | ⟨_, _, refused⟩
  · exact run
  · exact absurd (fun _ member => absurd member List.not_mem_nil) refused

theorem fresh_granting (sectors : Nat → Sector) :
    Granting (withCache (withTable (freshObject sectors))) :=
  fun _ member => absurd member List.not_mem_nil

theorem validates_needs {boot : Sector} (validates : Validates boot) : GoodGeometry boot := by
  obtain ⟨ok, s, run, sound⟩ := validates (freshObject fun _ => boot) rfl
  rw [fresh_mount] at run
  have granting := fresh_granting fun _ => boot
  by_cases zero : boot 13 = 0
  · rw [mount_volume_traps (with_cache_transparent _) granting rfl zero] at run
    cases run
  · obtain ⟨ok', s', run', _, layout, granted⟩ :=
      mount_volume_cases (with_cache_transparent (withTable (freshObject fun _ => boot))) rfl zero
    cases run'.symm.trans run
    exact sound_good (layout (granted granting)).1 (sound (granted granting))

/-- `mount` answers for the geometry of exactly the volumes whose fields fit together. -/
theorem mount_validates_iff (boot : Sector) : Validates boot ↔ GoodGeometry boot := by
  constructor
  · exact validates_needs
  · intro good s₀ sector
    have divides : boot 13 ≠ 0 := fun zero => good.perCluster (per_cluster_zero.2 zero)
    rcases mount_cases s₀ with run | ⟨s, run, _⟩
    · obtain ⟨ok, s, run', _, layout, _⟩ :=
        mount_volume_cases (with_cache_transparent (withTable s₀)) sector divides
      exact ⟨ok, s, run.trans run', fun answered => good_sound good (layout answered).1⟩
    · exact ⟨false, s, run, nofun⟩

/-- A boot sector of zeros, on which the division by `sectorsPerCluster` traps. -/
theorem blank_boot_traps : ¬ ∀ boot, Validates boot := by
  intro all
  exact (validates_needs (all fun _ => 0)).perCluster (per_cluster_zero.2 rfl)

end CassiOS.Fat32.MountGeometry
