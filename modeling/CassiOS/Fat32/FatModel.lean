import CassiOS.Fat32.VolumeModel

/-!
# The FAT on the volume

What `fatGet`, `fatSet`, `allocateCluster` and `flushFat` do to a `Volume`. Everything that
writes is specified for a drive that does not fail.
-/

namespace CassiOS.Fat32.FatModel

open CassiOS.Support.PartialProgram
open CassiOS.Fat32.Types
open CassiOS.Fat32.Device
open CassiOS.Fat32.Cache
open CassiOS.Fat32.VolumeModel

set_option autoImplicit false

section Cells

theorem sector_byte_put_cell (data : Sector) (offset value : Nat) {i : Nat} (bound : i < 512) :
    sectorByte (putCell data offset value) i =
      if offset ≤ i ∧ i < offset + 4 then byteOf value (i - offset) else sectorByte data i := by
  have index : (Fin.ofNat 512 i).val = i := Nat.mod_eq_of_lt bound
  unfold sectorByte putCell
  rw [index]

theorem fat_cell_put_same (data : Sector) {offset value : Nat} (bound : offset + 4 ≤ 512) :
    fatCell (putCell data offset value) offset = value % 4294967296 := by
  have byte : ∀ k, k < 4 → sectorByte (putCell data offset value) (offset + k) = byteOf value k := by
    intro k small
    rw [sector_byte_put_cell data offset value (by omega), if_pos (by omega)]
    congr 1
    omega
  have first := byte 0 (by decide)
  rw [Nat.add_zero] at first
  unfold fatCell
  rw [first, byte 1 (by decide), byte 2 (by decide), byte 3 (by decide), le32_byte_of]

theorem fat_cell_put_other (data : Sector) {offset other value : Nat} (bound : other + 4 ≤ 512)
    (apart : other + 4 ≤ offset ∨ offset + 4 ≤ other) :
    fatCell (putCell data offset value) other = fatCell data other := by
  have byte : ∀ k, k < 4 →
      sectorByte (putCell data offset value) (other + k) = sectorByte data (other + k) := by
    intro k small
    rw [sector_byte_put_cell data offset value (by omega), if_neg (by omega)]
  have first := byte 0 (by decide)
  rw [Nat.add_zero] at first
  unfold fatCell
  rw [first, byte 1 (by decide), byte 2 (by decide), byte 3 (by decide)]

theorem merge_cell_mod (existing value : Nat) :
    mergeCell existing value % 4294967296 % 268435456 = value % 268435456 := by
  unfold mergeCell
  omega

end Cells

section Access

variable {faults : Faults} {v : Volume}

theorem valid_below_eoc {s : Fat32Filesystem} (stands : Stands faults s v) {c : Nat}
    (valid : v.Valid c) : c < fatEoc := by
  have bound := (stands.valid valid).2
  have entries := stands.layout.entries
  unfold fatEoc
  omega

theorem cluster_bytes_pos {s : Fat32Filesystem} (stands : Stands faults s v) :
    0 < v.clusterBytes := by
  rw [← stands.bytes, stands.layout.bytes]
  have positive := stands.layout.perCluster
  omega

theorem fat_get_does (v : Volume) (c : Nat) :
    Achieves (Stands faults) (fatGet c) v fun a w => w = v ∧
      (a = v.fat c ∨ a = fatEoc ∧ faults.drive = true) := by
  intro s stands
  unfold fatGet
  by_cases beyond : s.fatEntryCount ≤ c
  · rw [if_pos beyond]
    refine ⟨fatEoc, s, v, rfl, stands, rfl, .inl ?_⟩
    rw [← stands.content]
    exact (if_neg (Nat.not_lt.2 beyond)).symm
  · rw [if_neg beyond]
    have bound : c < s.fatEntryCount := Nat.lt_of_not_le beyond
    obtain ⟨data, s', run, stands', _, outcome⟩ :=
      read_sector_stands stands (stands.layout.fat_unmirrored bound)
    obtain ⟨sector, offset, _⟩ := stands.layout.fat_sector bound
    rcases outcome with rfl | ⟨rfl, fails⟩
    · refine ⟨_, s', v, (bind_of_some run).trans rfl, stands', rfl, .inl ?_⟩
      rw [sector, offset, ← stands.content]
      exact (if_pos bound).symm
    · exact ⟨_, s', v, (bind_of_some run).trans rfl, stands', rfl, .inr ⟨rfl, fails⟩⟩

theorem volume_of_fat_set {s : Fat32Filesystem} (layout : Layout s) {c : Nat}
    (bound : c < s.fatEntryCount) (value : Nat) :
    volumeOf (withSectors s (putAt s.ata.sectors (fatSector s c)
        (putCell (s.ata.sectors (fatSector s c)) (fatOffset c)
          (mergeCell (fatCell (s.ata.sectors (fatSector s c)) (fatOffset c)) value)))) =
      (volumeOf s).setFat c value := by
  obtain ⟨sector, offset, inside⟩ := layout.fat_sector bound
  have below := layout.fat_below_data
  rw [sector, offset]
  simp only [volumeOf, withSectors, Volume.setFat]
  congr 1
  · funext d
    by_cases own : d = c
    · subst own
      refine (if_pos bound).trans (Eq.trans ?_ (if_pos ⟨rfl, bound⟩).symm)
      rw [putAt, if_pos rfl, fat_cell_put_same _ (by omega), merge_cell_mod]
    · refine Eq.trans ?_ (if_neg fun both => own both.1).symm
      refine ite_congr rfl (fun small => ?_) (fun _ => rfl)
      congr 1
      unfold putAt
      split
      · next same => rw [fat_cell_put_other _ (by omega) (by omega), same]
      · rfl
  · funext d j
    refine ite_congr rfl (fun data => ?_) (fun _ => rfl)
    rw [putAt, if_neg (by omega)]

theorem fat_set_does (sure : faults.drive = false) (v : Volume) (c value : Nat) :
    Does faults (fatSet c value) v PUnit.unit (v.setFat c value) := by
  intro s stands
  unfold fatSet
  by_cases beyond : s.fatEntryCount ≤ c
  · rw [if_pos beyond]
    have unchanged : v.setFat c value = v := by
      have none : ∀ d, ¬ (d = c ∧ c < v.fatEntryCount) := fun d both =>
        Nat.not_lt.2 (stands.count ▸ beyond) both.2
      unfold Volume.setFat
      simp only [none, if_false]
    rw [unchanged]
    exact ⟨s, rfl, stands⟩
  · rw [if_neg beyond]
    have bound : c < s.fatEntryCount := Nat.lt_of_not_le beyond
    have outside := stands.layout.fat_unmirrored bound
    obtain ⟨data, s₁, read, stands₁, same₁, outcome⟩ := read_sector_stands stands outside
    rcases outcome with rfl | ⟨_, fails⟩
    · obtain ⟨s₂, write, serves, same₂⟩ := cache_write_serves (stands₁.steady.granting sure)
        stands₁.steady.transparent (fatSector s c) (putCell (s.ata.sectors (fatSector s c))
          (fatOffset c) (mergeCell (fatCell (s.ata.sectors (fatSector s c)) (fatOffset c)) value))
      have mirror : ∀ l, Mirror s₂ l ↔ Mirror s₁ l := fun l => mirror_of_core same₂ l
      have same : core s₂ = core (withSectors s _) := same₂.trans (by
        rw [core_sectors same₁]
        exact core_with_sectors same₁ _)
      have moved : core s₂ = core (withSectors s s₂.ata.sectors) := by
        rw [core_sectors same]
        exact same
      refine ⟨s₂, (bind_of_some read).trans ((bind_of_some write).trans rfl),
        layout_of_core stands.layout moved, stands₁.steady.served serves ?_ mirror, ?_⟩
      · rw [mirror_of_core same₁]
        exact outside
      · rw [volume_of_core same, volume_of_fat_set stands.layout bound, stands.content]
    · rw [sure] at fails
      cases fails

theorem fat_get_sure (sure : faults.drive = false) (v : Volume) (c : Nat) :
    Does faults (fatGet c) v (v.fat c) v := by
  apply Achieves.runs
  apply (fat_get_does v c).mono
  rintro a w ⟨same, found | ⟨_, fails⟩⟩
  · exact ⟨found, same⟩
  · rw [sure] at fails
    cases fails

end Access

section Allocation

variable {faults : Faults}

theorem allocate_from_does (sure : faults.drive = false) (v : Volume) (n i : Nat) :
    (∃ c, i ≤ c ∧ c < i + n ∧ v.fat c = fatFree ∧ (∀ d, i ≤ d → d < c → v.fat d ≠ fatFree) ∧
        Does faults (allocateFrom i n) v c (v.setFat c fatEoc)) ∨
      ((∀ c, i ≤ c → c < i + n → v.fat c ≠ fatFree) ∧ Does faults (allocateFrom i n) v 0 v) := by
  induction n generalizing i with
  | zero => exact .inr ⟨fun c lower upper => absurd upper (by omega), runs_pure 0 v⟩
  | succ n ih =>
      by_cases free : v.fat i = fatFree
      · left
        refine ⟨i, Nat.le_refl i, by omega, free, fun d lower upper => absurd upper (by omega), ?_⟩
        apply runs_bind (fat_get_sure sure v i)
        rw [if_pos free]
        exact runs_bind (fat_set_does sure v i fatEoc) (runs_pure i _)
      · have skip : ∀ {c w}, Does faults (allocateFrom (i + 1) n) v c w →
            Does faults (allocateFrom i (n + 1)) v c w := by
          intro c w rest
          apply runs_bind (fat_get_sure sure v i)
          rw [if_neg free]
          exact rest
        rcases ih (i + 1) with ⟨c, lower, upper, found, before, run⟩ | ⟨none, run⟩
        · left
          refine ⟨c, by omega, by omega, found, fun d lowerD upperD => ?_, skip run⟩
          rcases Nat.eq_or_lt_of_le lowerD with rfl | later
          · exact free
          · exact before d later upperD
        · right
          refine ⟨fun c lowerC upperC => ?_, skip run⟩
          rcases Nat.eq_or_lt_of_le lowerC with rfl | later
          · exact free
          · exact none c later (by omega)

/-- The first free cluster becomes the end of a chain; 0 when there is none. -/
theorem allocate_cluster_does (sure : faults.drive = false) (v : Volume) :
    (∃ c, v.Free c ∧ (∀ d, d < c → ¬ v.Free d) ∧
        Does faults allocateCluster v c (v.setFat c fatEoc)) ∨
      ((∀ c, ¬ v.Free c) ∧ Does faults allocateCluster v 0 v) := by
  have start : ∀ {c w}, Does faults (allocateFrom 2 (v.fatEntryCount - 2)) v c w →
      Does faults allocateCluster v c w := by
    intro c w run s stands
    unfold allocateCluster
    rw [stands.count]
    exact run s stands
  rcases allocate_from_does sure v (v.fatEntryCount - 2) 2 with
    ⟨c, lower, upper, found, before, run⟩ | ⟨none, run⟩
  · left
    refine ⟨c, ⟨⟨lower, by omega⟩, found⟩, ?_, start run⟩
    rintro d earlier ⟨⟨lowerD, _⟩, freeD⟩
    exact before d lowerD earlier freeD
  · right
    refine ⟨?_, start run⟩
    rintro c ⟨⟨lower, upper⟩, free⟩
    exact none c lower (by omega) free

end Allocation

section Mirroring

variable {faults : Faults} {s : Fat32Filesystem} {v : Volume}

/-- Writing a sector of the second FAT past the cache changes no content. -/
theorem ata_write_mirror (sure : faults.drive = false) (stands : Stands faults s v) {lba : Nat}
    (mirror : Mirror s lba) (data : Sector) :
    ∃ s', ataWrite lba data s = some (true, s') ∧ Stands faults s' v := by
  obtain ⟨rest, write, granted⟩ := ata_write_granting (stands.steady.granting sure) lba data
  have layout := stands.layout
  have below := layout.fat_below_data
  obtain ⟨lower, upper⟩ := mirror
  have other : ∀ l, l ≠ lba → putAt s.ata.sectors lba data l = s.ata.sectors l :=
    fun l apart => if_neg apart
  refine ⟨_, write, layout_of_core layout rfl, ?_, ?_⟩
  · obtain ⟨⟨size, holds, unique⟩, unmirrored, _, supplied⟩ := stands.steady
    refine ⟨⟨size, ?_, unique⟩, unmirrored, fun _ => granted, supplied⟩
    intro i e found valid
    have apart : e.lba ≠ lba := by
      intro same
      exact unmirrored e.lba ⟨i, e, found, valid, rfl⟩ (same ▸ ⟨lower, upper⟩)
    exact (holds i e found valid).trans (congrArg some (other e.lba apart).symm)
  · rw [← stands.content]
    simp only [volumeOf]
    congr 1
    · funext c
      refine ite_congr rfl (fun bound => ?_) (fun _ => rfl)
      obtain ⟨_, _, inside⟩ := layout.fat_sector bound
      rw [other _ (by omega)]
    · funext c j
      refine ite_congr rfl (fun inside => ?_) (fun _ => rfl)
      rw [other _ (by omega)]

theorem flush_entries_does (sure : faults.drive = false) (v : Volume) (entries : List CacheEntry) :
    Does faults (flushEntries entries) v PUnit.unit v := by
  induction entries with
  | nil => exact runs_pure _ v
  | cons entry rest ih =>
      intro s stands
      rw [flushEntries]
      cases entry.data with
      | none => exact ih s stands
      | some data =>
          dsimp only
          split
          · next copied =>
            obtain ⟨_, _, lower, upper⟩ := copied
            have layout := stands.layout
            have below := layout.fat_below_data
            have fits := layout.dataFits
            unfold u32 at upper
            obtain ⟨s₁, write, stands₁⟩ := ata_write_mirror sure stands
              (show Mirror s (u32 (entry.lba + s.fatSize)) by
                rw [u32_of_lt (by omega)]
                unfold Mirror
                omega) data
            obtain ⟨s₂, run, stands₂⟩ := ih s₁ stands₁
            exact ⟨s₂, (bind_of_some write).trans run, stands₂⟩
          · exact ih s stands

theorem flush_fat_does (sure : faults.drive = false) (v : Volume) :
    Does faults flushFat v true v := by
  intro s stands
  obtain ⟨s', run, stands'⟩ := flush_entries_does sure v s.cache s stands
  exact ⟨s', (bind_of_some (x := get) rfl).trans ((bind_of_some run).trans rfl), stands'⟩

end Mirroring

end CassiOS.Fat32.FatModel
