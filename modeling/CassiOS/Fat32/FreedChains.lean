import CassiOS.Fat32.CacheTransparency
import CassiOS.Fat32.FatModel
import CassiOS.Support.Walks
import Mathlib.Order.Interval.Finset.Nat

/-!
# Freeing a chain of any FAT

`freeChain` on a FAT that need not be in order: links may lead in a circle, out of the FAT or
to free clusters, and nothing is assumed of the data area. The FAT is the sequence of its
32-bit cells; the loop clears cells while it follows them, and where it comes back to a cell
that it has cleared the link there is 0. The byte offset of a cell is a `u32`, so the code
addresses cell `c` modulo 2^30.
-/

namespace CassiOS.Fat32.FreedChains

open CassiOS.Support.PartialProgram
open CassiOS.Support.Walks
open CassiOS.Fat32.Types
open CassiOS.Fat32.Device
open CassiOS.Fat32.Cache
open CassiOS.Fat32.FatModel

set_option autoImplicit false

section Cells

/-- The `c`-th cell of the FAT. -/
def fatEntry (s : Fat32Filesystem) (c : Nat) : Nat :=
  fatCell (s.ata.sectors (s.fatStartSector + c * 4 / 512)) (c * 4 % 512)

def topBits (cell : Nat) : Nat := cell / 268435456 * 268435456

def linkBits (cell : Nat) : Nat := cell % 268435456

/-- The cell that the byte offset `cluster * 4` leads to. -/
def addressed (cluster : Nat) : Nat := cluster % 1073741824

structure FatArea (s : Fat32Filesystem) : Prop where
  holds : s.fatEntryCount * 4 ≤ s.fatSize * 512
  sectors : s.fatStartSector + s.fatSize ≤ 4294967296

/-- The sector number of a cell does not wrap. -/
def Addressable (s : Fat32Filesystem) : Prop :=
  ∀ c, c < s.fatEntryCount → s.fatStartSector + addressed c * 4 / 512 < 4294967296

abbrev InRange (count c : Nat) : Prop := 2 ≤ c ∧ c < count

/-- The link of a cluster, where it leads to a cluster; numbers from `FAT_EOC` on are end
marks. -/
def fatLink (count : Nat) (cells : Nat → Nat) (c : Nat) : Option Nat :=
  if linkBits (cells c) < fatEoc ∧ InRange count (linkBits (cells c)) then
    some (linkBits (cells c))
  else none

def firstOf (count start : Nat) : Option Nat := if InRange count start then some start else none

/-- The clusters reached from `start` by following links within the FAT. -/
def Reached (s : Fat32Filesystem) (start c : Nat) : Prop :=
  Behind (fatLink s.fatEntryCount (fatEntry s)) (firstOf s.fatEntryCount start) c

/-- The cells after those of `freed` were set to free. -/
def emptied (cells : Nat → Nat) (freed : Finset Nat) : Nat → Nat := fun c =>
  if c ∈ freed then topBits (cells c) else cells c

theorem link_bits_top_bits (cell : Nat) : linkBits (topBits cell) = 0 := by
  unfold linkBits topBits
  omega

theorem link_bits_lt (cell : Nat) : linkBits cell < 268435456 := by
  unfold linkBits
  omega

theorem top_bits_idem (cell : Nat) : topBits (topBits cell) = topBits cell := by
  unfold topBits
  omega

theorem top_bits_of_free {cell : Nat} (free : linkBits cell = 0) : topBits cell = cell := by
  unfold linkBits at free
  unfold topBits
  omega

theorem addressed_of_lt {c : Nat} (small : c < 1073741824) : addressed c = c :=
  Nat.mod_eq_of_lt small

theorem FatArea.addressable {s : Fat32Filesystem} (area : FatArea s) : Addressable s := by
  intro c bound
  have holds := area.holds
  have sectors := area.sectors
  have least : addressed c ≤ c := Nat.mod_le c _
  omega

theorem merge_cell_free (cell : Nat) : mergeCell cell fatFree = topBits cell := by
  unfold mergeCell fatFree topBits
  omega

variable {cells : Nat → Nat} {freed : Finset Nat}

theorem emptied_none (cells : Nat → Nat) : emptied cells ∅ = cells := by
  funext c
  exact if_neg (Finset.notMem_empty c)

theorem emptied_other {c : Nat} (kept : c ∉ freed) : emptied cells freed c = cells c := if_neg kept

theorem emptied_self {c : Nat} (member : c ∈ freed) : emptied cells freed c = topBits (cells c) :=
  if_pos member

theorem emptied_union (cells : Nat → Nat) (freed freed' : Finset Nat) :
    emptied (emptied cells freed) freed' = emptied cells (freed' ∪ freed) := by
  funext d
  unfold emptied
  by_cases later : d ∈ freed'
  · rw [if_pos later, if_pos (Finset.mem_union_left _ later)]
    by_cases first : d ∈ freed
    · rw [if_pos first, top_bits_idem]
    · rw [if_neg first]
  · have other : d ∈ freed' ∪ freed ↔ d ∈ freed := by
      rw [Finset.mem_union]
      exact or_iff_right later
    rw [if_neg later]
    simp only [other]

theorem emptied_insert (cells : Nat → Nat) (freed : Finset Nat) (c : Nat) :
    emptied (emptied cells freed) {c} = emptied cells (insert c freed) :=
  emptied_union cells freed {c}

end Cells

section Access

/-- A filesystem object whose drive serves every request and whose FAT has these cells. -/
structure Served (count : Nat) (s : Fat32Filesystem) (cells : Nat → Nat) : Prop where
  transparent : Transparent s
  granting : Granting s
  addresses : Addressable s
  count : s.fatEntryCount = count
  entries : fatEntry s = cells

variable {count : Nat} {s s' : Fat32Filesystem} {cells : Nat → Nat}

theorem fat_entry_of_core (same : core s' = core s) : fatEntry s' = fatEntry s := by
  have field : fatEntry (core s') = fatEntry (core s) := by rw [same]
  exact field

theorem addressable_of_core (sectors : Nat → Sector) (addresses : Addressable s)
    (same : core s' = core (withSectors s sectors)) : Addressable s' := by
  have moved : Addressable (core (withSectors s sectors)) := addresses
  rw [← same] at moved
  exact moved

theorem count_of_core (sectors : Nat → Sector)
    (same : core s' = core (withSectors s sectors)) : s'.fatEntryCount = s.fatEntryCount := by
  have field : (core s').fatEntryCount = (core (withSectors s sectors)).fatEntryCount := by
    rw [same]
  exact field

/-- Where the code looks for the cell of a cluster. -/
theorem fat_address (addresses : Addressable s) {c : Nat} (bound : c < s.fatEntryCount) :
    fatSector s c = s.fatStartSector + addressed c * 4 / 512 ∧
      fatOffset c = addressed c * 4 % 512 := by
  have wrapped : u32 (c * 4) = addressed c * 4 := by
    unfold u32 addressed
    omega
  constructor
  · unfold fatSector sectorSize
    rw [wrapped]
    exact u32_of_lt (addresses c bound)
  · unfold fatOffset sectorSize
    rw [wrapped]

theorem fat_get_cell {c : Nat} (bound : c < count) (cells : Nat → Nat) :
    Runs (Served count) (fatGet c) cells (linkBits (cells (addressed c))) cells := by
  intro s served
  rw [← served.count] at bound
  obtain ⟨sector, offset⟩ := fat_address served.addresses bound
  obtain ⟨data, s', run, serves, same, outcome⟩ :=
    cache_read_cases served.transparent (fatSector s c)
  rcases outcome with rfl | ⟨_, refused⟩
  · refine ⟨s', ?_, serves.transparent, serves.granting served.granting,
      addressable_of_core s.ata.sectors served.addresses same,
      (count_of_core s.ata.sectors same).trans served.count,
      (fat_entry_of_core same).trans served.entries⟩
    unfold fatGet
    rw [if_neg (Nat.not_le.2 bound)]
    refine (bind_of_some run).trans ?_
    rw [sector, offset, ← served.entries]
    rfl
  · exact absurd served.granting refused

theorem fat_entry_with_sectors (s : Fat32Filesystem) (sectors : Nat → Sector) (c : Nat) :
    fatEntry (withSectors s sectors) c =
      fatCell (sectors (s.fatStartSector + c * 4 / 512)) (c * 4 % 512) := rfl

theorem fat_entry_put (s : Fat32Filesystem) (c : Nat) :
    fatEntry (withSectors s (putAt s.ata.sectors (s.fatStartSector + c * 4 / 512)
      (putCell (s.ata.sectors (s.fatStartSector + c * 4 / 512)) (c * 4 % 512)
        (mergeCell (fatEntry s c) fatFree)))) = emptied (fatEntry s) {c} := by
  have cell_lt : ∀ d, fatEntry s d < 4294967296 := fun d => le32_lt ..
  funext d
  unfold emptied
  by_cases own : d = c
  · subst own
    rw [if_pos (Finset.mem_singleton_self d), fat_entry_with_sectors, putAt, if_pos rfl,
      fat_cell_put_same _ (by omega), merge_cell_free]
    have small := cell_lt d
    exact Nat.mod_eq_of_lt (Nat.lt_of_le_of_lt (Nat.div_mul_le_self ..) small)
  · rw [if_neg fun member => own (Finset.mem_singleton.1 member), fat_entry_with_sectors]
    unfold putAt
    split
    · next same =>
      rw [fat_cell_put_other _ (by omega) (by omega), ← same]
      rfl
    · rfl

theorem fat_set_cell {c : Nat} (bound : c < count) (cells : Nat → Nat) :
    Runs (Served count) (fatSet c fatFree) cells PUnit.unit (emptied cells {addressed c}) := by
  intro s served
  have inside : ¬ s.fatEntryCount ≤ c := by
    rw [served.count]
    exact Nat.not_le.2 bound
  obtain ⟨sector, offset⟩ := fat_address served.addresses (Nat.lt_of_not_le inside)
  obtain ⟨data, s₁, read, serves₁, same₁, outcome⟩ :=
    cache_read_cases served.transparent (fatSector s c)
  rcases outcome with rfl | ⟨_, refused⟩
  · obtain ⟨s₂, write, serves₂, same₂⟩ := cache_write_serves (serves₁.granting served.granting)
      serves₁.transparent (fatSector s c) (putCell (s.ata.sectors (fatSector s c)) (fatOffset c)
        (mergeCell (fatCell (s.ata.sectors (fatSector s c)) (fatOffset c)) fatFree))
    have same : core s₂ = core (withSectors s _) := same₂.trans (by
      rw [core_sectors same₁]
      exact core_with_sectors same₁ _)
    refine ⟨s₂, ?_, serves₂.transparent, serves₂.granting (serves₁.granting served.granting),
      addressable_of_core _ served.addresses same, (count_of_core _ same).trans served.count, ?_⟩
    · unfold fatSet
      rw [if_neg inside]
      exact (bind_of_some read).trans ((bind_of_some write).trans rfl)
    · rw [fat_entry_of_core same, sector, offset, ← served.entries]
      exact fat_entry_put s (addressed c)
  · exact absurd served.granting refused

end Access

section Loop

variable {count : Nat} {cells : Nat → Nat} {start : Option Nat} {visited : Finset Nat}

theorem first_of_range {c : Nat} (range : InRange count c) : firstOf count c = some c :=
  if_pos range

theorem first_of_outside {c : Nat} (outside : ¬ InRange count c) : firstOf count c = none :=
  if_neg outside

theorem fat_link_lt {c d : Nat} (link : fatLink count cells c = some d) : d < 268435456 := by
  unfold fatLink at link
  split at link
  · cases link
    exact link_bits_lt _
  · cases link

/-- Where the loop goes on, the link is the place where it looks next. -/
theorem fat_link_onward {c : Nat} (onward : linkBits (cells c) < fatEoc) :
    fatLink count cells c = firstOf count (linkBits (cells c)) := by
  unfold fatLink firstOf
  simp only [onward, true_and]

theorem fat_link_ended {c : Nat} (ended : ¬ linkBits (cells c) < fatEoc) :
    fatLink count cells c = none := if_neg fun both => ended both.1

/-- A round on a cluster of the FAT reads the link and clears the cell. -/
theorem free_chain_round {fuel c : Nat} {cells' : Nat → Nat} (range : InRange count c)
    (rest : linkBits (cells (addressed c)) < fatEoc →
      Runs (Served count) (freeChain fuel (linkBits (cells (addressed c))))
        (emptied cells {addressed c}) PUnit.unit cells')
    (last : ¬ linkBits (cells (addressed c)) < fatEoc → cells' = emptied cells {addressed c}) :
    Runs (Served count) (freeChain (fuel + 1) c) cells PUnit.unit cells' := by
  have body : Runs (Served count) (do
      let next ← fatGet c
      fatSet c fatFree
      if fatEoc ≤ next then pure PUnit.unit else freeChain fuel next) cells PUnit.unit cells' := by
    apply runs_bind (fat_get_cell range.2 cells)
    apply runs_bind (fat_set_cell range.2 cells)
    by_cases onward : linkBits (cells (addressed c)) < fatEoc
    · rw [if_neg (Nat.not_le.2 onward)]
      exact rest onward
    · rw [if_pos (Nat.le_of_not_lt onward), last onward]
      exact runs_pure _ _
  intro s served
  unfold freeChain
  rw [if_pos (served.count.symm ▸ range)]
  exact body s served

theorem free_chain_outside {fuel c : Nat} (outside : ¬ InRange count c) (cells : Nat → Nat) :
    Runs (Served count) (freeChain (fuel + 1) c) cells PUnit.unit cells := by
  intro s served
  unfold freeChain
  rw [if_neg (served.count.symm ▸ outside)]
  exact ⟨s, rfl, served⟩

/-- From any moment of the walk the loop clears what is still to be visited. Each round visits
a cluster of the FAT for the first time, or it is the last but one. -/
theorem free_chain_walk {fuel c : Nat}
    (trail : Trail (fatLink count cells) start visited (firstOf count c))
    (small : c < 1073741824) (within : visited ⊆ Finset.Ico 2 count)
    (enough : (Finset.Ico 2 count \ visited).card + 2 ≤ fuel) :
    ∃ freed : Finset Nat, (∀ d, d ∈ freed ↔ Behind (fatLink count cells) start d) ∧
      Runs (Served count) (freeChain fuel c) (emptied cells visited) PUnit.unit
        (emptied cells freed) := by
  induction fuel generalizing c visited with
  | zero => omega
  | succ fuel ih =>
      by_cases range : InRange count c
      · have here := addressed_of_lt small
        rw [first_of_range range] at trail
        by_cases seen : c ∈ visited
        · refine ⟨visited, trail.closed ?_, ?_⟩
          · intro a same
            cases same
            exact seen
          · -- the link of a cleared cell is 0, which is no cluster
            have zero : linkBits (emptied cells visited (addressed c)) = 0 := by
              rw [here, emptied_self seen, link_bits_top_bits]
            have again : emptied (emptied cells visited) {addressed c} = emptied cells visited := by
              rw [here, emptied_insert, Finset.insert_eq_of_mem seen]
            obtain _ | fuel := fuel
            · omega
            apply free_chain_round range
            · intro _
              rw [zero, again]
              apply free_chain_outside
              omega
            · intro _
              exact again.symm
        · have step := trail.step
          have size : (Finset.Ico 2 count \ insert c visited).card + 2 ≤ fuel := by
            have lies : c ∈ Finset.Ico 2 count \ visited :=
              Finset.mem_sdiff.2 ⟨Finset.mem_Ico.2 range, seen⟩
            have fewer := Finset.card_erase_of_mem lies
            have positive := Finset.card_pos.2 ⟨c, lies⟩
            rw [Finset.sdiff_insert]
            omega
          have within' : insert c visited ⊆ Finset.Ico 2 count :=
            Finset.insert_subset (Finset.mem_Ico.2 range) within
          have link : linkBits (emptied cells visited (addressed c)) = linkBits (cells c) := by
            rw [here, emptied_other seen]
          have cleared : emptied (emptied cells visited) {addressed c} =
              emptied cells (insert c visited) := by
            rw [here]
            exact emptied_insert cells visited c
          by_cases onward : linkBits (cells c) < fatEoc
          · rw [fat_link_onward onward] at step
            have near := link_bits_lt (cells c)
            obtain ⟨freed, exactly, run⟩ := ih step (by omega) within' size
            refine ⟨freed, exactly, free_chain_round range ?_ ?_⟩
            · intro _
              rw [link, cleared]
              exact run
            · intro ended
              rw [link] at ended
              exact absurd onward ended
          · rw [fat_link_ended onward] at step
            refine ⟨insert c visited, step.closed nofun, free_chain_round range ?_ ?_⟩
            · intro on
              rw [link] at on
              exact absurd on onward
            · intro _
              exact cleared.symm
      · rw [first_of_outside range] at trail
        exact ⟨visited, trail.closed nofun, free_chain_outside range _⟩

/-- From a start whose cell the code can address, exactly the clusters behind it are freed. -/
theorem free_chain_empties (cells : Nat → Nat) {fuel c : Nat} (small : c < 1073741824)
    (enough : count - 2 + 2 ≤ fuel) :
    ∃ freed : Finset Nat,
      (∀ d, d ∈ freed ↔ Behind (fatLink count cells) (firstOf count c) d) ∧
      Runs (Served count) (freeChain fuel c) cells PUnit.unit (emptied cells freed) := by
  have size : (Finset.Ico 2 count \ ∅).card + 2 ≤ fuel := by
    rw [Finset.sdiff_empty, Nat.card_Ico]
    exact enough
  have trail : Trail (fatLink count cells) (firstOf count c) ∅ (firstOf count c) := trail_begin
  have run := free_chain_walk trail small (Finset.empty_subset _) size
  rw [emptied_none] at run
  exact run

/-- From any other start the loop first clears the cell that it takes for the start's. -/
theorem free_chain_misplaces (cells : Nat → Nat) {fuel c : Nat} (range : InRange count c)
    (large : 1073741824 ≤ c) (enough : count + 1 ≤ fuel) :
    ∃ freed : Finset Nat, addressed c ∈ freed ∧ c ∉ freed ∧
      Runs (Served count) (freeChain fuel c) cells PUnit.unit (emptied cells freed) := by
  obtain _ | fuel := fuel
  · omega
  have apart : c ∉ ({addressed c} : Finset Nat) := by
    intro same
    have small : addressed c < 1073741824 := Nat.mod_lt _ (by decide)
    rw [← Finset.mem_singleton.1 same] at small
    omega
  by_cases onward : linkBits (cells (addressed c)) < fatEoc
  · have near := link_bits_lt (cells (addressed c))
    have next : linkBits (cells (addressed c)) < 1073741824 := by omega
    have rounds : count - 2 + 2 ≤ fuel := by omega
    obtain ⟨freed, exactly, run⟩ :=
      free_chain_empties (emptied cells {addressed c}) next rounds
    rw [emptied_union] at run
    refine ⟨freed ∪ {addressed c}, Finset.mem_union_right _ (Finset.mem_singleton_self _), ?_,
      free_chain_round range (fun _ => run) fun ended => absurd onward ended⟩
    intro member
    rcases Finset.mem_union.1 member with later | first
    · -- every cluster behind a link has a number of 28 bits
      have low : c < 268435456 := by
        apply behind_invariant (P := fun d => d < 268435456) ?_ ?_ ((exactly c).1 later)
        · intro a first
          unfold firstOf at first
          split at first
          · cases first
            exact near
          · cases first
        · exact fun a b _ link => fat_link_lt link
      omega
    · exact apart first
  · exact ⟨{addressed c}, Finset.mem_singleton_self _, apart,
      free_chain_round range (fun on => absurd on onward) fun _ => rfl⟩

end Loop

/-- `freeChain` returns, and of all cells of the FAT exactly those of the clusters reached from
`start` are free, with their top bits kept. -/
def Frees (s : Fat32Filesystem) (start : Nat) : Prop :=
  ∀ fuel, s.fatEntryCount + 2 ≤ fuel → ∃ s', freeChain fuel start s = some (PUnit.unit, s') ∧
    ∀ c, (Reached s start c → fatEntry s' c = topBits (fatEntry s c)) ∧
      (¬ Reached s start c → fatEntry s' c = fatEntry s c)

section Exactness

variable {s : Fat32Filesystem} {start : Nat}

theorem served_self (transparent : Transparent s) (granting : Granting s) (area : FatArea s) :
    Served s.fatEntryCount s (fatEntry s) := ⟨transparent, granting, area.addressable, rfl, rfl⟩

theorem reached_start (range : InRange s.fatEntryCount start) : Reached s start start := by
  unfold Reached
  rw [first_of_range range]
  exact behind_start start

theorem reached_free {c : Nat} (range : InRange s.fatEntryCount start)
    (free : linkBits (fatEntry s start) = 0) (reached : Reached s start c) : c = start := by
  unfold Reached at reached
  rw [first_of_range range] at reached
  apply behind_invariant (P := fun d => d = start) ?_ ?_ reached
  · intro a first
    exact (Option.some.inj first).symm
  · rintro a b rfl link
    unfold fatLink at link
    rw [free] at link
    cases link

theorem frees_of_exact (served : Served s.fatEntryCount s (fatEntry s))
    (run : ∀ fuel, s.fatEntryCount + 2 ≤ fuel → ∃ freed : Finset Nat,
      (∀ c, c ∈ freed ↔ Reached s start c) ∧ Runs (Served s.fatEntryCount) (freeChain fuel start)
        (fatEntry s) PUnit.unit (emptied (fatEntry s) freed)) : Frees s start := by
  intro fuel enough
  obtain ⟨freed, exactly, runs⟩ := run fuel enough
  obtain ⟨s', returns, served'⟩ := runs s served
  refine ⟨s', returns, ?_⟩
  intro c
  rw [served'.entries, ← exactly c]
  exact ⟨emptied_self, emptied_other⟩

/-- Where start and addressed cell are free already, clearing the wrong cell does not show. -/
theorem frees_misplaced (served : Served s.fatEntryCount s (fatEntry s))
    (range : InRange s.fatEntryCount start) (free : linkBits (fatEntry s start) = 0)
    (free' : linkBits (fatEntry s (addressed start)) = 0) : Frees s start := by
  apply frees_of_exact served
  intro fuel enough
  obtain _ | _ | fuel := fuel
  · omega
  · omega
  have unchanged : ∀ c, linkBits (fatEntry s c) = 0 →
      emptied (fatEntry s) {c} = fatEntry s := by
    intro c free
    funext d
    unfold emptied
    split
    · next same =>
      rw [Finset.mem_singleton.1 same]
      exact top_bits_of_free free
    · rfl
  refine ⟨{start}, ?_, ?_⟩
  · intro c
    constructor
    · intro same
      rw [Finset.mem_singleton.1 same]
      exact reached_start range
    · intro reached
      exact Finset.mem_singleton.2 (reached_free range free reached)
  · rw [unchanged start free]
    apply free_chain_round range
    · intro _
      rw [free', unchanged _ free']
      apply free_chain_outside
      omega
    · intro _
      exact (unchanged _ free').symm

theorem misplaced_free (served : Served s.fatEntryCount s (fatEntry s))
    (range : InRange s.fatEntryCount start) (large : 1073741824 ≤ start)
    (frees : Frees s start) :
    linkBits (fatEntry s start) = 0 ∧ linkBits (fatEntry s (addressed start)) = 0 := by
  obtain ⟨freed, cleared, kept, runs⟩ :=
    free_chain_misplaces (fatEntry s) range large (Nat.le_succ _)
  obtain ⟨s', returns, exactly⟩ := frees _ (Nat.le_refl _)
  obtain ⟨-, served'⟩ := runs_result runs served returns
  have here := (exactly start).1 (reached_start range)
  rw [served'.entries, emptied_other kept] at here
  have free : linkBits (fatEntry s start) = 0 := by
    rw [here, link_bits_top_bits]
  refine ⟨free, ?_⟩
  have unreached : ¬ Reached s start (addressed start) := by
    intro reached
    have same := reached_free range free reached
    have small : addressed start < 1073741824 := Nat.mod_lt _ (by decide)
    omega
  have there := (exactly (addressed start)).2 unreached
  rw [served'.entries, emptied_self cleared] at there
  rw [← there, link_bits_top_bits]

end Exactness

/-- On every FAT whose area holds all cells, with every request served: exactly the chain is
freed, unless the byte offset of the start's cell wraps and one of the two cells that are then
confused is in use. -/
theorem free_chain_frees_iff (s : Fat32Filesystem) (start : Nat) (transparent : Transparent s)
    (granting : Granting s) (area : FatArea s) :
    Frees s start ↔ start < 1073741824 ∨ s.fatEntryCount ≤ start ∨
      linkBits (fatEntry s start) = 0 ∧ linkBits (fatEntry s (start % 1073741824)) = 0 := by
  have served := served_self transparent granting area
  constructor
  · intro frees
    by_cases small : start < 1073741824
    · exact .inl small
    · by_cases beyond : s.fatEntryCount ≤ start
      · exact .inr (.inl beyond)
      · exact .inr (.inr (misplaced_free served (by omega) (by omega) frees))
  · rintro condition
    by_cases range : InRange s.fatEntryCount start
    · rcases condition with small | beyond | ⟨free, free'⟩
      · apply frees_of_exact served
        intro fuel enough
        exact free_chain_empties (fatEntry s) small (by omega)
      · omega
      · exact frees_misplaced served range free free'
    · apply frees_of_exact served
      intro fuel enough
      obtain _ | fuel := fuel
      · omega
      refine ⟨∅, ?_, ?_⟩
      · intro c
        unfold Reached
        rw [first_of_outside range]
        exact ⟨fun member => absurd member (Finset.notMem_empty c), nofun⟩
      · rw [emptied_none]
        exact free_chain_outside range _

/-- The links of clusters 2 to 5: from 2 a circle of 3 and 4 is reached, and 5 stands alone. -/
def circularLink (c : Nat) : Nat :=
  if c = 2 then 3 else if c = 3 then 4 else if c = 4 then 3 else if c = 5 then fatEoc else 0

def circularVolume : Fat32Filesystem where
  ata := ⟨fun lba k => if lba = 1 ∨ lba = 2 then byteOf (circularLink (k.val / 4)) (k.val % 4) else 0,
    []⟩
  heap := ⟨[], fun _ => 0⟩
  bytesPerSector := 512
  sectorsPerCluster := 1
  bytesPerCluster := 512
  reservedSectors := 1
  numFats := 2
  fatSize := 1
  fatStartSector := 1
  dataStartSector := 3
  rootCluster := 5
  totalClusters := 4
  fatEntryCount := 6
  handles := List.replicate 16 ⟨0, 0, 0, 0, false, false⟩
  cache := List.replicate cacheSize ⟨0, none, 0, false, false⟩
  cacheAge := 0
  lfnOverrun := false

theorem circular_volume_reaches :
    Reached circularVolume 2 4 ∧ ¬ Reached circularVolume 2 5 := by
  have links : fatLink 6 (fatEntry circularVolume) 2 = some 3 ∧
      fatLink 6 (fatEntry circularVolume) 3 = some 4 ∧
        fatLink 6 (fatEntry circularVolume) 4 = some 3 := by decide +kernel
  obtain ⟨two, three, four⟩ := links
  constructor
  · exact behind_next (behind_next (behind_start 2) two) three
  · intro reached
    have inside : 5 = 2 ∨ 5 = 3 ∨ 5 = 4 := by
      apply behind_invariant (P := fun c => c = 2 ∨ c = 3 ∨ c = 4) ?_ ?_ reached
      · intro a first
        exact .inl (Option.some.inj first).symm
      · intro a b member link
        change fatLink 6 (fatEntry circularVolume) a = some b at link
        rcases member with rfl | rfl | rfl
        · exact .inr (.inl (Option.some.inj (link.symm.trans two)))
        · exact .inr (.inr (Option.some.inj (link.symm.trans three)))
        · exact .inr (.inl (Option.some.inj (link.symm.trans four)))
    omega

/-- The circle is freed with what leads to it, and cluster 5 stays in use. -/
theorem circular_volume_frees : ∃ s', freeChain 8 2 circularVolume = some (PUnit.unit, s') ∧
    linkBits (fatEntry s' 4) = 0 ∧ linkBits (fatEntry s' 5) = fatEoc := by
  have frees : Frees circularVolume 2 :=
    (free_chain_frees_iff circularVolume 2 (CacheTransparency.transparent_empty rfl)
      (fun _ member => absurd member List.not_mem_nil) ⟨by decide, by decide⟩).2 (.inl (by decide))
  obtain ⟨s', run, exactly⟩ := frees 8 (Nat.le_refl 8)
  refine ⟨s', run, ?_, ?_⟩
  · rw [(exactly 4).1 circular_volume_reaches.1, link_bits_top_bits]
  · rw [(exactly 5).2 circular_volume_reaches.2]
    decide +kernel

/-- A volume of 2^30 + 1 clusters as `mount` computes it from its boot sector; clusters 2 and
2^30 + 2 are in use, each a chain of its own. -/
def hugeVolume : Fat32Filesystem where
  ata := ⟨fun lba k =>
    if (lba = 32 ∨ lba = 8388640) ∧ 8 ≤ k.val ∧ k.val < 12 then byteOf fatEoc (k.val - 8) else 0, []⟩
  heap := ⟨[], fun _ => 0⟩
  bytesPerSector := 512
  sectorsPerCluster := 1
  bytesPerCluster := 512
  reservedSectors := 32
  numFats := 2
  fatSize := 8388609
  fatStartSector := 32
  dataStartSector := 16777250
  rootCluster := 2
  totalClusters := 1073741825
  fatEntryCount := 1073741827
  handles := List.replicate 16 ⟨0, 0, 0, 0, false, false⟩
  cache := List.replicate cacheSize ⟨0, none, 0, false, false⟩
  cacheAge := 0
  lfnOverrun := false

theorem huge_transparent : Transparent hugeVolume := CacheTransparency.transparent_empty rfl

theorem huge_granting : Granting hugeVolume := fun _ member => absurd member List.not_mem_nil

theorem huge_area : FatArea hugeVolume := ⟨by decide, by decide⟩

/-- To free the chain of cluster 2^30 + 2, the code frees cluster 2, the root directory's. -/
theorem huge_volume_misfreed :
    ¬ ∀ s start, Transparent s → Granting s → FatArea s → Frees s start := by
  intro all
  have frees := all hugeVolume 1073741826 huge_transparent huge_granting huge_area
  have both := misplaced_free (served_self huge_transparent huge_granting huge_area)
    (by decide) (by decide) frees
  have used : linkBits (fatEntry hugeVolume (addressed 1073741826)) = fatEoc := by decide +kernel
  rw [both.2] at used
  cases used

end CassiOS.Fat32.FreedChains
