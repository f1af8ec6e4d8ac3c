import CassiOS.Fat32.CacheTransparency
import CassiOS.Fat32.FatModel

/-!
# A cache that is stale for the second FAT

`flushFat` writes the second FAT past the cache. A sector of it that is cached nevertheless, as
after a read of a cluster that lies there, is stale from then on. The cache does not look at
the content of a sector before it asks the drive for it, so all other sectors are served as
before.
-/

namespace CassiOS.Fat32.StaleMirror

open CassiOS.Support.PartialProgram
open CassiOS.Fat32.Types
open CassiOS.Fat32.Device
open CassiOS.Fat32.Cache
open CassiOS.Fat32.CacheTransparency
open CassiOS.Fat32.Filesystem
open CassiOS.Fat32.VolumeModel
open CassiOS.Fat32.FatModel

set_option autoImplicit false
set_option maxRecDepth 4000

section Alike

variable {α β : Type} {P : Nat → Prop} {f : Fs α}

/-- On two drives that agree in the sectors of `P`, the program does the same, and leaves such
drives. -/
def Alike (P : Nat → Prop) {α : Type} (f : Fs α) : Prop :=
  ∀ s sectors a t, (∀ l, P l → sectors l = s.ata.sectors l) →
    f (withSectors s sectors) = some (a, t) →
    ∃ sectors', f s = some (a, withSectors t sectors') ∧ ∀ l, P l → t.ata.sectors l = sectors' l

theorem alike_bind {x : Fs β} {g : β → Fs α} (first : Alike P x) (rest : ∀ b, Alike P (g b)) :
    Alike P (x >>= g) := by
  intro s sectors a u same run
  obtain ⟨b, t, run₁, run₂⟩ := bind_eq_some.1 run
  obtain ⟨sectors₁, run₁', same₁⟩ := first s sectors b t same run₁
  obtain ⟨sectors₂, run₂', same₂⟩ :=
    rest b (withSectors t sectors₁) t.ata.sectors a u same₁ run₂
  exact ⟨sectors₂, (bind_of_some run₁').trans run₂', same₂⟩

theorem alike_blind (blind : ∀ s sectors, f (withSectors s sectors) =
    (f s).map fun r => (r.1, withSectors r.2 sectors))
    (keeps : ∀ s a t, f s = some (a, t) → t.ata.sectors = s.ata.sectors) : Alike P f := by
  intro s sectors a t same run
  rw [blind] at run
  obtain ⟨⟨b, u⟩, step, made⟩ := Option.map_eq_some_iff.1 run
  cases made
  refine ⟨s.ata.sectors, ?_, same⟩
  rw [step, ← keeps s b u step]
  rfl

theorem alike_pure (a : α) : Alike P (pure a : Fs α) :=
  alike_blind (fun _ _ => rfl) fun _ _ _ run => by cases run; rfl

theorem alike_ata_read {lba : Nat} (inside : P lba) : Alike P (ataRead lba) := by
  intro s sectors data t same run
  cases run
  refine ⟨s.ata.sectors, ?_, same⟩
  unfold ataRead withSectors
  dsimp only
  rw [same lba inside]

theorem alike_ata_write (lba : Nat) (data : Sector) : Alike P (ataWrite lba data) := by
  intro s sectors ok t same run
  cases run
  refine ⟨_, rfl, ?_⟩
  intro l inside
  unfold withSectors
  dsimp only
  cases s.ata.outcomes.headD true with
  | true =>
      simp only [if_true, putAt]
      rw [same l inside]
  | false => exact same l inside

theorem alike_heap_alloc : Alike P heapAlloc :=
  alike_blind (fun _ _ => rfl) fun _ _ _ run => by cases run; rfl

theorem alike_set_entry (i : Nat) (update : CacheEntry → CacheEntry) :
    Alike P (setEntry i update) :=
  alike_blind (fun _ _ => rfl) fun _ _ _ run => by cases run; rfl

theorem alike_fill_entry (i lba : Nat) (data : Sector) (dirty : Bool) :
    Alike P (fillEntry i lba data dirty) :=
  alike_blind (fun _ _ => rfl) fun _ _ _ run => by cases run; rfl

theorem alike_entry_data (i : Nat) : Alike P (entryData i) :=
  alike_blind (fun _ _ => rfl) fun _ _ _ run => by cases run; rfl

theorem alike_cache_lookup (lba : Nat) : Alike P (cacheLookup lba) := by
  apply alike_blind
  · intro s sectors
    unfold cacheLookup withSectors
    dsimp only
    split
    · rfl
    · rfl
  · intro s hit t run
    unfold cacheLookup at run
    split at run
    · cases run
      rfl
    · cases run
      rfl

theorem alike_write_back (i : Nat) (entry : CacheEntry) : Alike P (writeBack i entry) := by
  unfold writeBack
  split
  · exact alike_bind (alike_ata_write _ _) fun _ => alike_set_entry _ _
  · exact alike_pure _

theorem alike_cache_evict : Alike P cacheEvict := by
  intro s sectors slot t same run
  have cache : (withSectors s sectors).cache = s.cache := rfl
  unfold cacheEvict at run ⊢
  rw [cache] at run
  cases search : s.cache.findIdx? fun entry => !entry.valid with
  | some i =>
      simp only [search] at run ⊢
      by_cases block : (s.cache[i]?.bind CacheEntry.data).isSome = true
      · rw [if_pos block] at run ⊢
        exact alike_pure (some i) s sectors slot t same run
      · rw [if_neg block] at run ⊢
        refine alike_bind alike_heap_alloc ?_ s sectors slot t same run
        rintro (_ | block)
        · exact alike_pure none
        · exact alike_bind (alike_set_entry _ _) fun _ => alike_pure (some i)
  | none =>
      simp only [search] at run ⊢
      cases oldest : s.cache[oldestEntry s.cache]? with
      | none =>
          simp only [oldest] at run ⊢
          exact alike_pure none s sectors slot t same run
      | some entry =>
          simp only [oldest] at run ⊢
          refine alike_bind (alike_write_back _ _) ?_ s sectors slot t same run
          exact fun _ => alike_bind (alike_set_entry _ _) fun _ => alike_pure _

theorem alike_cache_read {lba : Nat} (inside : P lba) : Alike P (cacheRead lba) := by
  unfold cacheRead
  apply alike_bind (alike_cache_lookup lba)
  rintro (_ | i)
  · apply alike_bind alike_cache_evict
    rintro (_ | i)
    · exact alike_ata_read inside
    · apply alike_bind (alike_ata_read inside)
      rintro (_ | data)
      · exact alike_pure _
      · exact alike_bind (alike_fill_entry _ _ _ _) fun _ => alike_pure _
  · exact alike_entry_data i

theorem alike_cache_write (lba : Nat) (data : Sector) : Alike P (cacheWrite lba data) := by
  unfold cacheWrite
  apply alike_bind (alike_cache_lookup lba)
  rintro (_ | i)
  · apply alike_bind alike_cache_evict
    rintro (_ | i)
    · exact alike_ata_write _ _
    · exact alike_bind (alike_fill_entry _ _ _ _) fun _ => alike_ata_write _ _
  · exact alike_bind (alike_fill_entry _ _ _ _) fun _ => alike_ata_write _ _

end Alike

section Sectors

variable {s s' s'' : Fat32Filesystem} {sectors sectors' : Nat → Sector}

/-- Up to the sectors of the second FAT the cache agrees with the drive. -/
def Backed (s : Fat32Filesystem) : Prop :=
  ∃ sectors, Transparent (withSectors s sectors) ∧ ∀ l, ¬ Mirror s l → sectors l = s.ata.sectors l

/-- What a step leaves that makes the drive's sectors, up to those of the second FAT, `sectors`. -/
structure Leaves (s s' : Fat32Filesystem) (sectors : Nat → Sector) : Prop where
  granting : Granting s'
  backed : Backed s'
  layout : core (withSectors s' sectors) = core (withSectors s sectors)
  drive : ∀ l, ¬ Mirror s l → s'.ata.sectors l = sectors l

theorem Leaves.mirror (leaves : Leaves s s' sectors) (l : Nat) : Mirror s' l ↔ Mirror s l :=
  mirror_of_core leaves.layout l

theorem Leaves.trans (first : Leaves s s' sectors) (second : Leaves s' s'' sectors') :
    Leaves s s'' sectors' where
  granting := second.granting
  backed := second.backed
  layout := second.layout.trans (core_with_sectors first.layout sectors')
  drive := fun l outside => second.drive l (by rwa [first.mirror])

/-- The run on the twin of `s` whose drive agrees with the cache, read as one on `s`. -/
theorem leaves_of_twin {t : Fat32Filesystem} (granting : Granting t) (transparent : Transparent t)
    (same : core t = core (withSectors s sectors))
    (agree : ∀ l, ¬ Mirror s l → t.ata.sectors l = sectors' l) :
    Leaves s (withSectors t sectors') sectors where
  granting := granting
  backed := by
    refine ⟨t.ata.sectors, transparent, ?_⟩
    intro l outside
    apply agree
    have mirror : Mirror (withSectors t sectors') l ↔ Mirror s l :=
      mirror_of_core (core_with_sectors same sectors') l
    rwa [← mirror]
  layout := core_with_sectors same sectors
  drive := fun l outside => (agree l outside).symm.trans (congrFun (core_sectors same) l)

theorem Leaves.congr (leaves : Leaves s s' sectors)
    (agree : ∀ l, ¬ Mirror s l → sectors l = sectors' l) : Leaves s s' sectors' where
  granting := leaves.granting
  backed := leaves.backed
  layout := core_with_sectors leaves.layout sectors'
  drive := fun l outside => (leaves.drive l outside).trans (agree l outside)

theorem read_sector_leaves (granting : Granting s) (backed : Backed s) {lba : Nat}
    (outside : ¬ Mirror s lba) : ∃ s', readSector lba s = some (some (s.ata.sectors lba), s') ∧
      Leaves s s' s.ata.sectors := by
  obtain ⟨twin, transparent, agree⟩ := backed
  obtain ⟨t, run, serves, same⟩ := cache_read_serves (s := withSectors s twin) granting
    transparent lba
  obtain ⟨sectors', run', agree'⟩ := alike_cache_read (P := fun l => ¬ Mirror s l) outside s twin
    _ t agree run
  have data : (withSectors s twin).ata.sectors lba = s.ata.sectors lba := agree lba outside
  rw [data] at run'
  exact ⟨_, run', (leaves_of_twin (serves.granting granting) serves.transparent same
    agree').congr agree⟩

theorem write_sector_leaves (granting : Granting s) (backed : Backed s) (lba : Nat)
    (data : Sector) : ∃ s', writeSector lba data s = some (true, s') ∧
      Leaves s s' (putAt s.ata.sectors lba data) := by
  obtain ⟨twin, transparent, agree⟩ := backed
  obtain ⟨t, run, serves, same⟩ := cache_write_serves (s := withSectors s twin) granting
    transparent lba data
  obtain ⟨sectors', run', agree'⟩ := alike_cache_write (P := fun l => ¬ Mirror s l) lba data s
    twin _ t agree run
  have stored : core t = core (withSectors s (putAt twin lba data)) := same
  refine ⟨_, run', (leaves_of_twin (serves.granting granting) serves.transparent stored
    agree').congr ?_⟩
  intro l outside
  unfold putAt
  split
  · rfl
  · exact agree l outside

theorem read_sectors_leaves (lba n i : Nat) (buf : Buf) (granting : Granting s)
    (backed : Backed s) (bound : lba + i + n ≤ 4294967296)
    (outside : ∀ k, i ≤ k → k < i + n → ¬ Mirror s (lba + k)) :
    ∃ s', readSectors lba i n buf s = some ((true, fun j =>
        if i * 512 ≤ j ∧ j < (i + n) * 512 then s.ata.sectors (lba + j / 512) (Fin.ofNat 512 j)
        else buf j), s') ∧ Leaves s s' s.ata.sectors := by
  induction n generalizing i buf s with
  | zero =>
      have none_inside : ∀ j, ¬ (i * 512 ≤ j ∧ j < (i + 0) * 512) := by omega
      refine ⟨s, ?_, granting, backed, rfl, fun _ _ => rfl⟩
      simp only [none_inside, if_false]
      rfl
  | succ n ih =>
      have here : u32 (lba + i) = lba + i := u32_of_lt (by omega)
      obtain ⟨s₁, read, leaves₁⟩ :=
        read_sector_leaves granting backed (outside i (Nat.le_refl _) (by omega))
      obtain ⟨s₂, rest, leaves₂⟩ := ih (i + 1)
        (putSector buf (i * sectorSize) (s.ata.sectors (lba + i))) leaves₁.granting
        leaves₁.backed (by omega) (fun k lower upper => by
          rw [leaves₁.mirror]
          exact outside k (by omega) (by omega))
      refine ⟨s₂, ?_, (leaves₁.trans leaves₂).congr leaves₁.drive⟩
      rw [readSectors, here]
      refine (bind_of_some read).trans (rest.trans ?_)
      congr 3
      funext j
      rw [← window_grows s.ata.sectors lba i n buf j]
      refine ite_congr rfl (fun inside => ?_) fun _ => rfl
      rw [leaves₁.drive (lba + j / 512) (outside (j / 512) (by omega) (by omega))]

theorem write_sectors_leaves (lba n : Nat) (buf : Buf) (i : Nat) (granting : Granting s)
    (backed : Backed s) (bound : lba + i + n ≤ 4294967296) :
    ∃ s', writeSectors lba i buf n s = some (true, s') ∧
      Leaves s s' (writtenWindow s.ata.sectors lba i n buf) := by
  induction n generalizing i s with
  | zero =>
      refine ⟨s, rfl, granting, backed, rfl, ?_⟩
      intro l _
      exact (if_neg (by omega)).symm
  | succ n ih =>
      have here : u32 (lba + i) = lba + i := u32_of_lt (by omega)
      obtain ⟨s₁, write, leaves₁⟩ :=
        write_sector_leaves granting backed (lba + i) (sectorOf buf (i * sectorSize))
      obtain ⟨s₂, rest, leaves₂⟩ := ih (i + 1) leaves₁.granting leaves₁.backed (by omega)
      refine ⟨s₂, ?_, (leaves₁.trans leaves₂).congr ?_⟩
      · rw [writeSectors, here]
        exact (bind_of_some write).trans rest
      · intro l outside
        rw [← written_window_grows]
        unfold writtenWindow
        split
        · rfl
        · exact leaves₁.drive l outside

end Sectors

section Held

/-- The drive serves every request, and up to the sectors of the second FAT the cache agrees with
it. -/
structure Held (s : Fat32Filesystem) (v : Volume) : Prop where
  layout : Layout s
  granting : Granting s
  backed : Backed s
  content : volumeOf s = v

variable {s s' : Fat32Filesystem} {v : Volume} {sectors sectors' : Nat → Sector}

theorem held_of_transparent (layout : Layout s) (granting : Granting s)
    (transparent : Transparent s) : Held s (volumeOf s) :=
  ⟨layout, granting, ⟨s.ata.sectors, transparent, fun _ _ => rfl⟩, rfl⟩

theorem Held.valid (held : Held s v) {c : Nat} (valid : v.Valid c) :
    2 ≤ c ∧ c < s.fatEntryCount := by
  rw [← held.content] at valid
  exact valid

theorem Held.count (held : Held s v) : s.fatEntryCount = v.fatEntryCount := by
  rw [← held.content]
  rfl

theorem volume_of_agree (layout : Layout s)
    (agree : ∀ l, ¬ Mirror s l → sectors l = sectors' l) :
    volumeOf (withSectors s sectors) = volumeOf (withSectors s sectors') := by
  have below := layout.fat_below_data
  simp only [volumeOf, withSectors]
  congr 1
  · funext c
    refine ite_congr rfl (fun bound => ?_) fun _ => rfl
    have outside := layout.fat_unmirrored bound
    obtain ⟨sector, _, _⟩ := layout.fat_sector bound
    rw [sector] at outside
    rw [agree _ outside]
  · funext c j
    refine ite_congr rfl (fun inside => ?_) fun _ => rfl
    rw [agree _ (layout.data_unmirrored (by omega))]

theorem held_of_leaves (held : Held s v) (leaves : Leaves s s' sectors) :
    Held s' (volumeOf (withSectors s sectors)) where
  layout := by
    apply layout_of_core held.layout
    exact core_with_sectors leaves.layout s'.ata.sectors
  granting := leaves.granting
  backed := leaves.backed
  content := by
    rw [← volume_of_agree held.layout leaves.drive]
    exact volume_of_core (core_with_sectors leaves.layout s'.ata.sectors)

theorem fat_get_held (v : Volume) (c : Nat) : Runs Held (fatGet c) v (v.fat c) v := by
  intro s held
  unfold fatGet
  by_cases beyond : s.fatEntryCount ≤ c
  · rw [if_pos beyond]
    refine ⟨s, ?_, held⟩
    rw [← held.content]
    exact congrArg (fun next => some (next, s)) (if_neg (Nat.not_lt.2 beyond)).symm
  · rw [if_neg beyond]
    have bound : c < s.fatEntryCount := Nat.lt_of_not_le beyond
    obtain ⟨s', read, leaves⟩ :=
      read_sector_leaves held.granting held.backed (held.layout.fat_unmirrored bound)
    obtain ⟨sector, offset, _⟩ := held.layout.fat_sector bound
    have held' := held_of_leaves held leaves
    refine ⟨s', (bind_of_some read).trans ?_, held.content ▸ held'⟩
    rw [sector, offset, ← held.content]
    exact congrArg (fun next => some (next, s')) (if_pos bound).symm

theorem fat_set_held (v : Volume) (c value : Nat) :
    Runs Held (fatSet c value) v PUnit.unit (v.setFat c value) := by
  intro s held
  unfold fatSet
  by_cases beyond : s.fatEntryCount ≤ c
  · rw [if_pos beyond]
    have unchanged : v.setFat c value = v := by
      have none : ∀ d, ¬ (d = c ∧ c < v.fatEntryCount) := fun d both =>
        Nat.not_lt.2 (held.count ▸ beyond) both.2
      unfold Volume.setFat
      simp only [none, if_false]
    rw [unchanged]
    exact ⟨s, rfl, held⟩
  · rw [if_neg beyond]
    have bound : c < s.fatEntryCount := Nat.lt_of_not_le beyond
    obtain ⟨s₁, read, leaves₁⟩ :=
      read_sector_leaves held.granting held.backed (held.layout.fat_unmirrored bound)
    obtain ⟨s₂, write, leaves₂⟩ := write_sector_leaves leaves₁.granting leaves₁.backed
      (fatSector s c) (putCell (s.ata.sectors (fatSector s c)) (fatOffset c)
        (mergeCell (fatCell (s.ata.sectors (fatSector s c)) (fatOffset c)) value))
    refine ⟨s₂, (bind_of_some read).trans ((bind_of_some write).trans rfl), ?_⟩
    rw [← held.content, ← volume_of_fat_set held.layout bound]
    apply held_of_leaves held
    apply (leaves₁.trans leaves₂).congr
    intro l outside
    unfold putAt
    split
    · rfl
    · exact leaves₁.drive l outside

theorem read_cluster_held {c : Nat} (valid : v.Valid c) (buf : Buf) :
    Runs Held (readCluster c buf) v (true, overlay v.clusterBytes (v.cluster c) buf) v := by
  intro s held
  have layout := held.layout
  have inRange := held.valid valid
  have last := layout.data_bound inRange (i := s.sectorsPerCluster - 1)
    (by have := layout.perCluster; omega)
  obtain ⟨s', run, leaves⟩ := read_sectors_leaves (clusterToLba s c) s.sectorsPerCluster 0 buf
    held.granting held.backed
    (by rw [layout.cluster_lba inRange]; have := layout.perCluster; omega)
    (fun k _ _ => by
      rw [layout.cluster_lba inRange]
      exact layout.data_unmirrored (by omega))
  refine ⟨s', run.trans ?_, held.content ▸ held_of_leaves held leaves⟩
  congr 3
  funext j
  rw [layout.cluster_lba inRange, ← held.content]
  have size : (volumeOf s).clusterBytes = 512 * s.sectorsPerCluster := rfl
  by_cases inside : j < (volumeOf s).clusterBytes
  · rw [if_pos (by omega)]
    exact ((if_pos inside).trans (if_pos ⟨inRange, size ▸ inside⟩)).symm
  · rw [if_neg (by omega)]
    exact (if_neg inside).symm

theorem write_cluster_held {c : Nat} (valid : v.Valid c) (buf : Buf) :
    Runs Held (writeCluster c buf) v true (v.putCluster c buf) := by
  intro s held
  have layout := held.layout
  have inRange := held.valid valid
  have last := layout.data_bound inRange (i := s.sectorsPerCluster - 1)
    (by have := layout.perCluster; omega)
  obtain ⟨s', run, leaves⟩ := write_sectors_leaves (clusterToLba s c) s.sectorsPerCluster buf 0
    held.granting held.backed
    (by rw [layout.cluster_lba inRange]; have := layout.perCluster; omega)
  refine ⟨s', run, ?_⟩
  rw [← held.content, ← volume_of_written layout inRange, ← layout.cluster_lba inRange]
  exact held_of_leaves held leaves

theorem flush_entries_held (v : Volume) (entries : List CacheEntry) :
    Runs Held (flushEntries entries) v PUnit.unit v := by
  induction entries with
  | nil => exact runs_pure _ v
  | cons entry rest ih =>
      intro s held
      rw [flushEntries]
      cases entry.data with
      | none => exact ih s held
      | some data =>
          dsimp only
          split
          · next copied =>
            obtain ⟨_, _, lower, upper⟩ := copied
            have below := held.layout.fat_below_data
            have fits := held.layout.dataFits
            unfold u32 at upper
            have mirror : Mirror s (u32 (entry.lba + s.fatSize)) := by
              rw [u32_of_lt (by omega)]
              unfold Mirror
              omega
            obtain ⟨outcomes, write, granted⟩ := ata_write_granting held.granting
              (u32 (entry.lba + s.fatSize)) data
            have other : ∀ l, ¬ Mirror s l →
                putAt s.ata.sectors (u32 (entry.lba + s.fatSize)) data l = s.ata.sectors l :=
              fun l outside => if_neg fun same : l = _ => outside (same ▸ mirror)
            obtain ⟨sectors, transparent, agree⟩ := held.backed
            have leaves : Leaves s { s with
                ata := ⟨putAt s.ata.sectors (u32 (entry.lba + s.fatSize)) data, outcomes⟩ }
                s.ata.sectors := by
              refine ⟨granted, ⟨sectors, Transparent.congr transparent rfl rfl, ?_⟩, rfl, other⟩
              exact fun l outside => (agree l outside).trans (other l outside).symm
            have held₁ := held_of_leaves held leaves
            obtain ⟨s₂, run, held₂⟩ := ih _ (held.content ▸ held₁)
            exact ⟨s₂, (bind_of_some write).trans run, held₂⟩
          · exact ih s held

theorem flush_fat_held (v : Volume) : Runs Held flushFat v true v := by
  intro s held
  obtain ⟨s', run, held'⟩ := flush_entries_held v s.cache s held
  exact ⟨s', (bind_of_some (x := get) rfl).trans ((bind_of_some run).trans rfl), held'⟩

/-- The first free cluster, if there is one, and nothing but the FAT is changed. -/
theorem allocate_from_held (n i : Nat) (v : Volume) :
    Achieves Held (allocateFrom i n) v fun c w =>
      (c = 0 ∨ i ≤ c ∧ c < i + n) ∧ ∃ fat, w = { v with fat := fat } := by
  induction n generalizing i with
  | zero => exact achieves_pure ⟨.inl rfl, v.fat, rfl⟩
  | succ n ih =>
      unfold allocateFrom
      apply achieves_bind_runs (fat_get_held v i)
      by_cases free : v.fat i = fatFree
      · rw [if_pos free]
        apply achieves_bind_runs (fat_set_held v i fatEoc)
        exact achieves_pure ⟨.inr ⟨Nat.le_refl i, by omega⟩, _, rfl⟩
      · rw [if_neg free]
        apply (ih (i + 1)).mono
        rintro c w ⟨place, fat⟩
        exact ⟨by omega, fat⟩

theorem allocate_cluster_held (v : Volume) :
    Achieves Held allocateCluster v fun c w =>
      (c = 0 ∨ v.Valid c) ∧ ∃ fat, w = { v with fat := fat } := by
  intro s held
  unfold allocateCluster
  rw [held.count]
  apply (allocate_from_held (v.fatEntryCount - 2) 2 v).mono ?_ s held
  rintro c w ⟨place, fat⟩
  refine ⟨place.imp_right fun bounds => ⟨bounds.1, by omega⟩, fat⟩

theorem Held.bytes (held : Held s v) : s.bytesPerCluster = v.clusterBytes := by
  rw [held.layout.bytes, ← held.content]
  rfl

/-- The cluster that `extendDirectory` appends is zeroed and ends its chain. -/
theorem extend_directory_held (v : Volume) (c : Nat) (buf : Buf) :
    Achieves Held (extendDirectory c buf) v fun r w => w.handles = v.handles ∧
      (r.1 = 0 ∨ w.Valid r.1 ∧ (w.cluster r.1 = fun _ => 0) ∧ fatEoc ≤ w.fat r.1) := by
  unfold extendDirectory
  apply achieves_bind (allocate_cluster_held v)
  rintro n w ⟨place, fat, rfl⟩
  by_cases full : n = 0
  · rw [if_pos full]
    exact achieves_pure ⟨rfl, .inl rfl⟩
  · have valid : v.Valid n := place.resolve_left full
    rw [if_neg full]
    apply achieves_bind_runs (fat_set_held _ c n)
    apply achieves_bind_runs (fat_set_held _ n fatEoc)
    apply achieves_bind_runs (flush_fat_held _)
    apply achieves_get
    intro s held
    have size : s.bytesPerCluster = v.clusterBytes := held.bytes
    apply achieves_bind_runs (write_cluster_held (by exact valid) _)
    refine achieves_pure ⟨rfl, .inr ⟨valid, ?_, ?_⟩⟩
    · funext j
      change (if n = n then fun j => if j < v.clusterBytes then
        (if j < s.bytesPerCluster then 0 else buf j) else 0 else _) j = 0
      rw [if_pos rfl, size]
      by_cases inside : j < v.clusterBytes
      · rw [if_pos inside, if_pos inside]
      · rw [if_neg inside]
    · rw [Volume.fat_put_cluster, Volume.set_fat_self _ n fatEoc (by exact valid.2)]
      exact Nat.le_refl _

end Held

end CassiOS.Fat32.StaleMirror
