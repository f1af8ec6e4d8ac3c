import CassiOS.Memory.MemoryMap
import CassiOS.Memory.Paging
import Mathlib.Data.Finset.Card

/-!
# Direct map

`PagingManager::init`: the available memory and the VGA memory are mapped at
`KERNEL_VBASE`, with page tables that are taken on the way. Until the new directory is
loaded the page tables of the boot loader count, which map the first 4 MiB only; a page
table beyond them is a page fault. The memory map is read from the memory that is written.
-/

namespace CassiOS.Memory.DirectMap

open CassiOS.Support.Words
open CassiOS.Memory.Physical
open CassiOS.Memory.MemoryMap
open CassiOS.Memory.Paging

set_option autoImplicit false

/-- `PAGE_PRESENT | PAGE_READWRITE`. -/
def kernelFlags : Nat := pagePresent ||| pageReadwrite

/-- What `boot_page_table` maps at `KERNEL_VBASE`. -/
def bootFrames : Nat := 1024

section Source

def setKernelEntry (m : MemoryState) (index value : Nat) : MemoryState :=
  { m with kernelDirectory := fun i => if i = index then value else m.kernelDirectory i }

/-- The page table for an entry of the kernel's directory, allocated when the entry is empty;
the flag says whether there is one. -/
def ensureKernelTable (pdIndex : Nat) (m : MemoryState) : Bool × MemoryState :=
  if present (m.kernelDirectory pdIndex) then (true, m)
  else
    let (frame, m) := takeFrame m
    if frame = 0 then (false, m)
    else
      let m := m.fillFrame (frame / frameSize) fun _ => 0
      (true, setKernelEntry m pdIndex (makeEntry frame kernelFlags))

/-- Nothing is mapped when no page table can be allocated; `none` is a page fault. -/
def mapPage (virtualAddr physicalAddr flags : Nat) (m : MemoryState) : Option MemoryState :=
  let pdIndex := virtualAddr / tableSpan
  let ptIndex := virtualAddr / frameSize % 1024
  let (ok, m) := ensureKernelTable pdIndex m
  if ok then
    let table := frameOf (m.kernelDirectory pdIndex)
    if table < bootFrames then some (m.setWord table ptIndex (makeEntry physicalAddr flags))
    else none
  else some m

/-- The loop over `n` pages from `addr` on. -/
def mapPages : Nat → Nat → MemoryState → Option MemoryState
  | _, 0, m => some m
  | addr, n + 1, m => do
      let m ← mapPage (u32 (addr + kernelVbase)) addr kernelFlags m
      mapPages (addr + frameSize) n m

/-- The first page of an entry and the end of its last one. -/
def mapBase (entry : MultibootMmapEntry) : Nat := u32 entry.baseAddr / frameSize * frameSize

def mapEnd (entry : MultibootMmapEntry) : Nat :=
  let sum := (entry.baseAddr + entry.length) % 18446744073709551616
  let top := if 0xFFFFFFFF < sum then 0xFFFFF000 else u32 sum
  u32 (top + (frameSize - 1)) / frameSize * frameSize

def pageCount (entry : MultibootMmapEntry) : Nat := (mapEnd entry - mapBase entry) / frameSize

def mapEntry (entry : MultibootMmapEntry) (m : MemoryState) : Option MemoryState :=
  if entry.type = multibootMmapAvailable then mapPages (mapBase entry) (pageCount entry) m
  else some m

def memoryByte (m : MemoryState) (address : Nat) : UInt8 :=
  UInt8.ofNat (m.words ((address - kernelVbase) / frameSize)
    ((address - kernelVbase) % frameSize / 4) / 256 ^ (address % 4))

/-- The loop over the map; one round of it per unit of fuel. -/
def mapEntries (mmapEnd : Nat) : Nat → Nat → MemoryState → Option MemoryState
  | 0, _, _ => none
  | fuel + 1, mmapAddr, m =>
      if mmapAddr < mmapEnd then do
        let m ← mapEntry (readEntry (memoryByte m) mmapAddr) m
        -- the size is read behind the loop over the pages
        mapEntries mmapEnd fuel (u32 (mmapAddr + u32 (load32 (memoryByte m) mmapAddr + 4))) m
      else some m

def vgaBase : Nat := 0xB8000
def vgaPages : Nat := 8

def init (fuel : Nat) (info : MultibootInfo) (m : MemoryState) : Option MemoryState :=
  if info.flags.testBit multibootFlagMmap then do
    let mmapAddr := u32 (info.mmapAddr + kernelVbase)
    let m ← mapEntries (u32 (mmapAddr + info.mmapLength)) fuel mmapAddr m
    mapPages vgaBase vgaPages m
  else some m

end Source

section Tables

variable {m : MemoryState}

/-- What the direct map needs: a page of an available entry, or VGA memory, in the part of
the address space that directory entry `i` covers. -/
def Needs (entries : List MultibootMmapEntry) (i : Nat) : Prop :=
  (∃ entry ∈ entries, entry.type = multibootMmapAvailable ∧ ∃ k, k < pageCount entry ∧
    u32 (mapBase entry + k * frameSize + kernelVbase) / tableSpan = i) ∨
  ∃ k, k < vgaPages ∧ u32 (vgaBase + k * frameSize + kernelVbase) / tableSpan = i

open Classical in
noncomputable def tablesNeeded (entries : List MultibootMmapEntry) : Nat :=
  ((Finset.range 1024).filter (Needs entries)).card

theorem needs_bound {entries : List MultibootMmapEntry} {i : Nat} (needs : Needs entries i) :
    i < 1024 := by
  have wrapped : ∀ n, u32 n / tableSpan < 1024 := by
    intro n
    unfold u32 tableSpan
    omega
  rcases needs with ⟨_, _, _, _, _, rfl⟩ | ⟨_, _, rfl⟩
  · exact wrapped _
  · exact wrapped _

/-- The free frames below frame `f`. -/
def freeBelow (m : MemoryState) (f : Nat) : Nat := Nat.count (fun frame => ¬ m.Used frame) f

/-- The page tables that were taken since `m₀`: one for each directory entry in use, and no
frame behind the first ones that were free. -/
structure Built (m₀ : MemoryState) (entries : List MultibootMmapEntry) (m : MemoryState)
    (taken : Finset Nat) : Prop where
  used : ∀ f, m.Used f ↔ m₀.Used f ∨ f ∈ taken
  count : taken.card =
    ((Finset.range 1024).filter fun i => present (m.kernelDirectory i) = true).card
  early : ∀ f ∈ taken, ¬ m₀.Used f ∧ freeBelow m₀ f < tablesNeeded entries
  tables : ∀ i, present (m.kernelDirectory i) = true →
    frameOf (m.kernelDirectory i) ∈ taken ∧ Needs entries i
  apart : ∀ i j, present (m.kernelDirectory i) = true → present (m.kernelDirectory j) = true →
    frameOf (m.kernelDirectory i) = frameOf (m.kernelDirectory j) → i = j
  kept : ∀ f, f ∉ taken → m.words f = m₀.words f
  supervisor : ∀ i j, present (m.kernelDirectory i) = true →
    m.words (frameOf (m.kernelDirectory i)) j % 8 ≠ 7

/-- Enough frames for the page tables where the boot page table reaches them. -/
def Enough (m₀ : MemoryState) (entries : List MultibootMmapEntry) : Prop :=
  tablesNeeded entries ≤ freeBelow m₀ bootFrames

variable {m₀ : MemoryState} {entries : List MultibootMmapEntry} {taken : Finset Nat}

theorem built_start (empty : ∀ i, m₀.kernelDirectory i = 0) : Built m₀ entries m₀ ∅ := by
  have none : ∀ i, ¬ present (m₀.kernelDirectory i) = true := by
    intro i
    rw [empty i]
    decide
  constructor
  · simp
  · rw [Finset.card_empty, eq_comm, Finset.card_eq_zero, Finset.filter_eq_empty_iff]
    exact fun i _ => none i
  · exact fun _ => nofun
  · exact fun i has => absurd has (none i)
  · exact fun i _ has => absurd has (none i)
  · exact fun _ _ => rfl
  · exact fun i _ has => absurd has (none i)

open Classical in
/-- While a needed entry is empty, fewer tables than needed have been taken. -/
theorem taken_few (built : Built m₀ entries m taken) {i : Nat} (needs : Needs entries i)
    (absent : present (m.kernelDirectory i) = false) : taken.card < tablesNeeded entries := by
  rw [built.count]
  apply Finset.card_lt_card
  apply Finset.ssubset_iff_subset_ne.2
  constructor
  · intro j member
    obtain ⟨range, has⟩ := Finset.mem_filter.1 member
    exact Finset.mem_filter.2 ⟨range, (built.tables j has).2⟩
  · intro same
    have member : i ∈ (Finset.range 1024).filter
        fun i => present (m.kernelDirectory i) = true := by
      rw [same]
      exact Finset.mem_filter.2 ⟨Finset.mem_range.2 (needs_bound needs), needs⟩
    have has := (Finset.mem_filter.1 member).2
    rw [absent] at has
    cases has

/-- Where all frames below `f` are in use now, those that were free have been taken. -/
theorem free_below_taken (built : Built m₀ entries m taken) {f : Nat}
    (below : ∀ frame, frame < f → m.Used frame) : freeBelow m₀ f ≤ taken.card := by
  unfold freeBelow
  rw [Nat.count_eq_card_filter_range]
  apply Finset.card_le_card
  intro frame member
  obtain ⟨range, free⟩ := Finset.mem_filter.1 member
  exact ((built.used frame).1 (below frame (Finset.mem_range.1 range))).resolve_left free

theorem taken_boot (enough : Enough m₀ entries) {f : Nat}
    (early : freeBelow m₀ f < tablesNeeded entries) : f < bootFrames := by
  by_contra beyond
  have more : freeBelow m₀ bootFrames ≤ freeBelow m₀ f :=
    Nat.count_monotone _ (Nat.le_of_not_lt beyond)
  unfold Enough at enough
  omega

theorem kernel_entry (frame : Nat) :
    present (makeEntry (frame * frameSize) kernelFlags) = true ∧
      frameOf (makeEntry (frame * frameSize) kernelFlags) = frame := by
  have flags : kernelFlags = 3 := rfl
  have number : frame * 4096 / 4096 = frame := Nat.mul_div_cancel _ (by decide)
  constructor
  · unfold present makeEntry frameSize
    rw [flags, beq_iff_eq]
    omega
  · rw [frame_of_make_entry]
    exact number

/-- The tables after one more was taken for the empty entry `i`. -/
theorem built_table (built : Built m₀ entries m taken) {i f : Nat} (needs : Needs entries i)
    (absent : present (m.kernelDirectory i) = false) (bound : f < frameCount)
    (clear : ¬ m.Used f) (below : ∀ frame, frame < f → m.Used frame) :
    Built m₀ entries (setKernelEntry ((m.mark f).fillFrame f fun _ => 0) i
      (makeEntry (f * frameSize) kernelFlags)) (insert f taken) := by
  obtain ⟨has, at_⟩ := kernel_entry f
  have free : ¬ m₀.Used f := fun used => clear ((built.used f).2 (.inl used))
  have fresh : f ∉ taken := fun member => clear ((built.used f).2 (.inr member))
  have directory : ∀ j, (setKernelEntry ((m.mark f).fillFrame f fun _ => 0) i
      (makeEntry (f * frameSize) kernelFlags)).kernelDirectory j =
      if j = i then makeEntry (f * frameSize) kernelFlags else m.kernelDirectory j := fun _ => rfl
  have presents : ∀ j, present (if j = i then makeEntry (f * frameSize) kernelFlags
      else m.kernelDirectory j) = true ↔ j = i ∨ present (m.kernelDirectory j) = true := by
    intro j
    by_cases here : j = i
    · rw [if_pos here]
      exact ⟨fun _ => .inl here, fun _ => has⟩
    · rw [if_neg here]
      exact ⟨.inr, fun either => either.resolve_left here⟩
  constructor
  · intro frame
    change (m.mark f).Used frame ↔ _
    rw [MemoryState.used_mark _ _ bound, built.used, Finset.mem_insert, or_assoc,
      or_comm (a := frame ∈ taken)]
  · rw [Finset.card_insert_of_notMem fresh, built.count]
    have grown : (Finset.range 1024).filter (fun j => present ((setKernelEntry
        ((m.mark f).fillFrame f fun _ => 0) i
          (makeEntry (f * frameSize) kernelFlags)).kernelDirectory j) = true) =
        insert i ((Finset.range 1024).filter fun j => present (m.kernelDirectory j) = true) := by
      apply Finset.ext
      intro j
      rw [Finset.mem_filter, directory, presents, Finset.mem_insert, Finset.mem_filter,
        Finset.mem_range]
      constructor
      · rintro ⟨range, rfl | old⟩
        · exact .inl rfl
        · exact .inr ⟨range, old⟩
      · rintro (rfl | ⟨range, old⟩)
        · exact ⟨needs_bound needs, .inl rfl⟩
        · exact ⟨range, .inr old⟩
    rw [grown, Finset.card_insert_of_notMem]
    intro member
    have old := (Finset.mem_filter.1 member).2
    rw [absent] at old
    cases old
  · intro frame member
    rcases Finset.mem_insert.1 member with rfl | old
    · refine ⟨free, ?_⟩
      exact Nat.lt_of_le_of_lt (free_below_taken built below) (taken_few built needs absent)
    · exact built.early frame old
  · intro j
    rw [directory, presents]
    rintro (rfl | old)
    · rw [if_pos rfl, at_]
      exact ⟨Finset.mem_insert_self f taken, needs⟩
    · have other : j ≠ i := by
        rintro rfl
        rw [absent] at old
        cases old
      rw [if_neg other]
      obtain ⟨member, needed⟩ := built.tables j old
      exact ⟨Finset.mem_insert_of_mem member, needed⟩
  · have old : ∀ j, j ≠ i → present (m.kernelDirectory j) = true →
        frameOf (m.kernelDirectory j) ≠ f := fun j _ has same =>
      fresh (same ▸ (built.tables j has).1)
    intro j k
    rw [directory, directory, presents, presents]
    by_cases here : j = i
    · by_cases there : k = i
      · exact fun _ _ _ => here.trans there.symm
      · rw [if_pos here, if_neg there, at_]
        exact fun _ inK same => absurd same.symm (old k there (inK.resolve_left there))
    · by_cases there : k = i
      · rw [if_neg here, if_pos there, at_]
        exact fun inJ _ same => absurd same (old j here (inJ.resolve_left here))
      · rw [if_neg here, if_neg there]
        exact fun inJ inK same =>
          built.apart j k (inJ.resolve_left here) (inK.resolve_left there) same
  · intro frame outside
    have other : frame ≠ f := fun same => outside (same ▸ Finset.mem_insert_self f taken)
    have before : frame ∉ taken := fun member => outside (Finset.mem_insert_of_mem member)
    rw [← built.kept frame before]
    exact if_neg other
  · intro j k
    rw [directory, presents]
    rintro (rfl | old)
    · rw [if_pos rfl, at_]
      change ((m.mark f).fillFrame f fun _ => 0).words f k % 8 ≠ 7
      rw [MemoryState.words_fill_frame, if_pos rfl]
      decide
    · have other : j ≠ i := by
        rintro rfl
        rw [absent] at old
        cases old
      rw [if_neg other]
      have away : frameOf (m.kernelDirectory j) ≠ f := fun same =>
        fresh (same ▸ (built.tables j old).1)
      change ((m.mark f).fillFrame f fun _ => 0).words (frameOf (m.kernelDirectory j)) k % 8 ≠ 7
      rw [MemoryState.words_fill_frame, if_neg away]
      exact built.supervisor j k old

theorem built_word (built : Built m₀ entries m taken) {i : Nat} (index : Nat) {value : Nat}
    (flags : value % 8 ≠ 7) (has : present (m.kernelDirectory i) = true) :
    Built m₀ entries (m.setWord (frameOf (m.kernelDirectory i)) index value) taken where
  used := built.used
  count := built.count
  early := built.early
  tables := built.tables
  apart := built.apart
  kept := by
    intro f outside
    rw [← built.kept f outside]
    funext j
    apply if_neg
    intro same
    exact outside (same.1 ▸ (built.tables i has).1)
  supervisor := by
    intro j k hasJ
    change (if frameOf (m.kernelDirectory j) = frameOf (m.kernelDirectory i) ∧ k = index then
      value else m.words (frameOf (m.kernelDirectory j)) k) % 8 ≠ 7
    split
    · exact flags
    · exact built.supervisor j k hasJ

theorem kernel_entry_flags (physicalAddr : Nat) : makeEntry physicalAddr kernelFlags % 8 ≠ 7 := by
  have flags : kernelFlags = 3 := rfl
  unfold makeEntry frameSize
  rw [flags]
  omega

end Tables

section Mapping

variable {m m₀ : MemoryState} {entries : List MultibootMmapEntry} {taken : Finset Nat}

def kernelTranslation (m : MemoryState) (virtualAddr : Nat) : Nat :=
  translation m m.kernelDirectory virtualAddr

def Mapped (m : MemoryState) (virtualAddr entry : Nat) (next : MemoryState) : Prop :=
  ∀ va, kernelTranslation next va =
    if va / frameSize = virtualAddr / frameSize then entry else kernelTranslation m va

theorem same_page (va virtualAddr : Nat) : va / frameSize = virtualAddr / frameSize ↔
    va / tableSpan = virtualAddr / tableSpan ∧
      va / frameSize % 1024 = virtualAddr / frameSize % 1024 := by
  unfold frameSize tableSpan
  omega

theorem mapped_word (built : Built m₀ entries m taken) {virtualAddr : Nat} (entry : Nat)
    (has : present (m.kernelDirectory (virtualAddr / tableSpan)) = true) :
    Mapped m virtualAddr entry (m.setWord
      (frameOf (m.kernelDirectory (virtualAddr / tableSpan))) (virtualAddr / frameSize % 1024)
        entry) := by
  intro va
  unfold kernelTranslation translation
  rw [MemoryState.directory_set_word]
  dsimp only
  by_cases table : va / tableSpan = virtualAddr / tableSpan
  · rw [table, if_pos has, if_pos has, MemoryState.words_set_word]
    apply if_congr _ rfl rfl
    rw [same_page]
    exact ⟨fun same => ⟨table, same.2⟩, fun same => ⟨rfl, same.2⟩⟩
  · rw [if_neg fun same => table ((same_page _ _).1 same).1]
    by_cases other : present (m.kernelDirectory (va / tableSpan)) = true
    · rw [if_pos other, if_pos other, MemoryState.words_set_word, if_neg]
      exact fun same => table (built.apart _ _ other has same.1)
    · rw [if_neg other, if_neg other]

/-- A new table is empty like the entry before it. -/
theorem table_translation (built : Built m₀ entries m taken) {i f : Nat}
    (absent : present (m.kernelDirectory i) = false) (clear : ¬ m.Used f) (va : Nat) :
    kernelTranslation (setKernelEntry ((m.mark f).fillFrame f fun _ => 0) i
      (makeEntry (f * frameSize) kernelFlags)) va = kernelTranslation m va := by
  obtain ⟨has, at_⟩ := kernel_entry f
  have fresh : f ∉ taken := fun member => clear ((built.used f).2 (.inr member))
  unfold kernelTranslation translation
  change (if present (if va / tableSpan = i then makeEntry (f * frameSize) kernelFlags
      else m.kernelDirectory (va / tableSpan)) = true then _ else 0) = _
  dsimp only
  by_cases here : va / tableSpan = i
  · have none : ¬ present (m.kernelDirectory i) = true := by
      rw [absent]
      exact Bool.false_ne_true
    rw [here, if_pos rfl, if_pos has, if_neg none]
    change (setKernelEntry ((m.mark f).fillFrame f fun _ => 0) i _).words
      (frameOf (if i = i then _ else _)) _ = 0
    rw [if_pos rfl, at_]
    exact congrFun (if_pos rfl) _
  · rw [if_neg here]
    change (if _ then (setKernelEntry ((m.mark f).fillFrame f fun _ => 0) i _).words
      (frameOf (if va / tableSpan = i then _ else _)) _ else 0) = _
    rw [if_neg here]
    by_cases other : present (m.kernelDirectory (va / tableSpan)) = true
    · rw [if_pos other, if_pos other]
      have away : frameOf (m.kernelDirectory (va / tableSpan)) ≠ f := fun same =>
        fresh (same ▸ (built.tables _ other).1)
      exact congrFun (if_neg away) _
    · rw [if_neg other, if_neg other]

/-- One page: there is a table for it, within reach, and nothing else is changed. -/
theorem map_page_built (enough : Enough m₀ entries) (zeroUsed : m₀.Used 0)
    (built : Built m₀ entries m taken) {virtualAddr : Nat} (physicalAddr : Nat)
    (needs : Needs entries (virtualAddr / tableSpan)) :
    ∃ next taken', mapPage virtualAddr physicalAddr kernelFlags m = some next ∧
      Built m₀ entries next taken' ∧
      Mapped m virtualAddr (makeEntry physicalAddr kernelFlags) next := by
  have plain := kernel_entry_flags physicalAddr
  have store : ∀ {m : MemoryState} {taken : Finset Nat}, Built m₀ entries m taken →
      present (m.kernelDirectory (virtualAddr / tableSpan)) = true →
      frameOf (m.kernelDirectory (virtualAddr / tableSpan)) < bootFrames := by
    intro m taken built has
    exact taken_boot enough (built.early _ (built.tables _ has).1).2
  unfold mapPage ensureKernelTable
  dsimp only
  cases has : present (m.kernelDirectory (virtualAddr / tableSpan)) with
  | true =>
      rw [if_pos rfl, if_pos rfl, if_pos (store built has)]
      exact ⟨_, taken, rfl, built_word built _ plain has, mapped_word built _ has⟩
  | false =>
      rw [if_neg Bool.false_ne_true]
      have zero : m.Used 0 := (built.used 0).2 (.inl zeroUsed)
      rcases take_frame_cases zero with ⟨f, positive, bound, clear, below, run⟩ | ⟨full, _⟩
      · obtain ⟨nonzero, number⟩ := frame_address positive
        obtain ⟨hasNew, at_⟩ := kernel_entry f
        have built' := built_table built needs has bound clear below
        have has' : present ((setKernelEntry ((m.mark f).fillFrame f fun _ => 0)
            (virtualAddr / tableSpan) (makeEntry (f * frameSize) kernelFlags)).kernelDirectory
              (virtualAddr / tableSpan)) = true := by
          change present (if _ = _ then _ else _) = true
          rw [if_pos rfl]
          exact hasNew
        rw [run]
        dsimp only
        rw [if_neg nonzero, number, if_pos rfl, if_pos (store built' has')]
        refine ⟨_, _, rfl, built_word built' _ plain has', fun va => ?_⟩
        rw [mapped_word built' _ has' va, table_translation built has clear]
      · have few := taken_few built needs has
        have all := free_below_taken built (f := bootFrames) fun frame low =>
          full frame (Nat.lt_trans low (by decide))
        unfold Enough at enough
        omega

end Mapping

section Running

variable {m m₀ : MemoryState} {entries : List MultibootMmapEntry} {taken : Finset Nat}

/-- The frame is mapped at its address of the direct map. -/
def Shown (m : MemoryState) (frame : Nat) : Prop :=
  kernelTranslation m (u32 (frame * frameSize + kernelVbase)) =
    makeEntry (frame * frameSize) kernelFlags

theorem direct_page {frame other : Nat} (bound : frame < frameCount)
    (boundOther : other < frameCount) :
    u32 (frame * frameSize + kernelVbase) / frameSize =
      u32 (other * frameSize + kernelVbase) / frameSize ↔ frame = other := by
  unfold frameCount bitmapSize at bound boundOther
  unfold u32 frameSize kernelVbase
  omega

theorem shown_mapped {next : MemoryState} {frame : Nat} (bound : frame < frameCount)
    (mapped : Mapped m (u32 (frame * frameSize + kernelVbase))
      (makeEntry (frame * frameSize) kernelFlags) next) :
    Shown next frame ∧ ∀ other, other < frameCount → Shown m other → Shown next other := by
  constructor
  · exact (mapped _).trans (if_pos rfl)
  · intro other boundOther shown
    unfold Shown
    rw [mapped]
    split
    · next same => rw [(direct_page boundOther bound).1 same]
    · exact shown

/-- What a part of `init` leaves: tables for what it needs, and the frames in `frames` shown. -/
def Extends (m₀ : MemoryState) (entries : List MultibootMmapEntry) (m : MemoryState)
    (frames : Nat → Prop) (next : MemoryState) : Prop :=
  (∃ taken, Built m₀ entries next taken) ∧
    ∀ frame, frame < frameCount → frames frame ∨ Shown m frame → Shown next frame

theorem map_pages_built (enough : Enough m₀ entries) (zeroUsed : m₀.Used 0)
    (built : Built m₀ entries m taken) (first n : Nat) (bound : first + n ≤ frameCount)
    (needs : ∀ k, k < n →
      Needs entries (u32 (first * frameSize + k * frameSize + kernelVbase) / tableSpan)) :
    ∃ next, mapPages (first * frameSize) n m = some next ∧
      Extends m₀ entries m (fun frame => first ≤ frame ∧ frame < first + n) next := by
  induction n generalizing first m taken with
  | zero =>
      refine ⟨m, rfl, ⟨taken, built⟩, fun frame _ shown => ?_⟩
      exact shown.resolve_left fun inside => by omega
  | succ n ih =>
      have here := needs 0 (Nat.succ_pos n)
      rw [Nat.zero_mul, Nat.add_zero] at here
      obtain ⟨m₁, taken₁, run, built₁, mapped⟩ := map_page_built enough zeroUsed built
        (first * frameSize) here
      have inside : first < frameCount := by omega
      obtain ⟨shown, others⟩ := shown_mapped inside mapped
      have onward : first * frameSize + frameSize = (first + 1) * frameSize :=
        (Nat.succ_mul first frameSize).symm
      obtain ⟨next, rest, built', shown'⟩ := ih built₁ (first + 1) (by omega) fun k low => by
        have later := needs (k + 1) (Nat.succ_lt_succ low)
        rw [Nat.succ_mul, Nat.add_comm (k * frameSize), ← Nat.add_assoc, onward] at later
        exact later
      refine ⟨next, ?_, built', ?_⟩
      · rw [mapPages, run]
        change mapPages (first * frameSize + frameSize) n m₁ = some next
        rw [onward]
        exact rest
      · intro frame small either
        apply shown' frame small
        rcases either with window | before
        · by_cases start : frame = first
          · exact .inr (start ▸ shown)
          · exact .inl (by omega)
        · exact .inr (others frame small before)

/-- The frames that `mapEntry` shows. -/
def Covered (entry : MultibootMmapEntry) (frame : Nat) : Prop :=
  mapBase entry / frameSize ≤ frame ∧ frame < mapBase entry / frameSize + pageCount entry

theorem map_base_page (entry : MultibootMmapEntry) :
    mapBase entry / frameSize * frameSize = mapBase entry := by
  unfold mapBase frameSize
  omega

theorem map_end_bound (entry : MultibootMmapEntry) :
    mapBase entry / frameSize + pageCount entry ≤ frameCount := by
  have wrapped : ∀ n, u32 n < 4294967296 := fun n => Nat.mod_lt _ (by decide)
  have low := wrapped entry.baseAddr
  have high := wrapped ((if 0xFFFFFFFF < (entry.baseAddr + entry.length) % 18446744073709551616
    then 0xFFFFF000 else u32 ((entry.baseAddr + entry.length) % 18446744073709551616)) +
      (frameSize - 1))
  unfold pageCount mapEnd mapBase frameCount bitmapSize
  dsimp only
  unfold frameSize at *
  omega

theorem map_entry_built (enough : Enough m₀ entries) (zeroUsed : m₀.Used 0)
    (built : Built m₀ entries m taken) {entry : MultibootMmapEntry} (member : entry ∈ entries) :
    ∃ next, mapEntry entry m = some next ∧ Extends m₀ entries m
      (fun frame => entry.type = multibootMmapAvailable ∧ Covered entry frame) next := by
  unfold mapEntry
  by_cases available : entry.type = multibootMmapAvailable
  · rw [if_pos available]
    obtain ⟨next, run, built', shown⟩ := map_pages_built enough zeroUsed built
      (mapBase entry / frameSize) (pageCount entry) (map_end_bound entry) fun k low => by
        rw [map_base_page]
        exact .inl ⟨entry, member, available, k, low, rfl⟩
    rw [map_base_page] at run
    exact ⟨next, run, built', fun frame small either =>
      shown frame small (either.imp_left And.right)⟩
  · rw [if_neg available]
    exact ⟨m, rfl, ⟨taken, built⟩, fun frame _ either =>
      either.resolve_left fun both => available both.1⟩

end Running

section Reading

variable {memory memory' : Nat → UInt8} {m m₀ : MemoryState}
  {entries : List MultibootMmapEntry} {taken : Finset Nat}

theorem load32_congr {address : Nat} (same : ∀ a, address ≤ a → a < address + 4 →
    memory' a = memory a) : load32 memory' address = load32 memory address := by
  unfold load32 load16
  rw [same address (by omega) (by omega), same (address + 1) (by omega) (by omega),
    same (address + 2) (by omega) (by omega), same (address + 2 + 1) (by omega) (by omega)]

theorem load64_congr {address : Nat} (same : ∀ a, address ≤ a → a < address + 8 →
    memory' a = memory a) : load64 memory' address = load64 memory address := by
  unfold load64
  rw [load32_congr fun a low high => same a low (by omega),
    load32_congr fun a low high => same a (by omega) (by omega)]

theorem read_entry_congr {address : Nat} (same : ∀ a, address ≤ a → a < address + 24 →
    memory' a = memory a) : readEntry memory' address = readEntry memory address := by
  unfold readEntry
  rw [load32_congr fun a low high => same a low (by omega),
    load64_congr fun a low high => same a (by omega) (by omega),
    load64_congr fun a low high => same a (by omega) (by omega),
    load32_congr fun a low high => same a (by omega) (by omega)]

/-- The addresses of the bytes of the entries that lie from `address` on. -/
def ReadAt : Nat → List MultibootMmapEntry → Nat → Prop
  | _, [], _ => False
  | address, entry :: rest, a =>
      address ≤ a ∧ a < address + 24 ∨ ReadAt (address + (entry.size + 4)) rest a

def frameAt (a : Nat) : Nat := (a - kernelVbase) / frameSize

/-- No page table is put where the byte is: its frame is in use, or there are enough free
frames before it. -/
def Spared (m₀ : MemoryState) (entries : List MultibootMmapEntry) (a : Nat) : Prop :=
  m₀.Used (frameAt a) ∨ tablesNeeded entries ≤ freeBelow m₀ (frameAt a)

theorem spared_byte (built : Built m₀ entries m taken) {a : Nat}
    (spared : Spared m₀ entries a) : memoryByte m a = memoryByte m₀ a := by
  have outside : frameAt a ∉ taken := by
    intro member
    obtain ⟨free, early⟩ := built.early _ member
    rcases spared with used | later
    · exact free used
    · omega
  unfold memoryByte
  rw [show (a - kernelVbase) / frameSize = frameAt a from rfl, built.kept _ outside]

/-- The loop maps the entries one after the other, and reads what was there before it. -/
theorem map_entries_built (enough : Enough m₀ entries) (zeroUsed : m₀.Used 0)
    {mmapEnd : Nat} (inside : mmapEnd < 4294967296) {fuel address : Nat}
    {rest : List MultibootMmapEntry} (within : ∀ entry ∈ rest, entry ∈ entries)
    (laid : Laid (memoryByte m₀) mmapEnd address rest)
    (spared : ∀ a, ReadAt address rest a → Spared m₀ entries a)
    (rounds : rest.length < fuel) (built : Built m₀ entries m taken) :
    ∃ next, mapEntries mmapEnd fuel address m = some next ∧ Extends m₀ entries m
      (fun frame => ∃ entry ∈ rest, entry.type = multibootMmapAvailable ∧ Covered entry frame)
        next := by
  induction rest generalizing fuel address m taken with
  | nil =>
      obtain rfl : address = mmapEnd := laid
      cases fuel with
      | zero => exact absurd rounds (Nat.not_lt_zero _)
      | succ fuel =>
          rw [mapEntries, if_neg (Nat.lt_irrefl _)]
          refine ⟨m, rfl, ⟨taken, built⟩, fun frame _ either => ?_⟩
          exact either.resolve_left fun ⟨_, member, _⟩ => absurd member List.not_mem_nil
  | cons entry rest ih =>
      cases fuel with
      | zero => exact absurd rounds (Nat.not_lt_zero _)
      | succ fuel =>
          obtain ⟨here, onward⟩ := laid
          have bound := laid_le onward
          have reads : ∀ {m : MemoryState} {taken : Finset Nat}, Built m₀ entries m taken →
              readEntry (memoryByte m) address = entry := by
            intro m taken built
            rw [← here]
            exact read_entry_congr fun a low high =>
              spared_byte built (spared a (.inl ⟨low, high⟩))
          obtain ⟨m₁, run, ⟨taken₁, built₁⟩, shown₁⟩ := map_entry_built enough zeroUsed built
            (within entry List.mem_cons_self)
          have size : load32 (memoryByte m₁) address = entry.size :=
            congrArg MultibootMmapEntry.size (reads built₁)
          have next : u32 (address + u32 (entry.size + 4)) = address + (entry.size + 4) := by
            rw [u32_of_lt (by omega : entry.size + 4 < 4294967296), u32_of_lt (by omega)]
          obtain ⟨last, rest', built', shown⟩ := ih
            (fun e member => within e (List.mem_cons_of_mem entry member)) onward
            (fun a read => spared a (.inr read)) (Nat.lt_of_succ_lt_succ rounds) built₁
          refine ⟨last, ?_, built', ?_⟩
          · rw [mapEntries, if_pos (by omega), reads built, run]
            change mapEntries mmapEnd fuel (u32 (address +
              u32 (load32 (memoryByte m₁) address + 4))) m₁ = some last
            rw [size, next]
            exact rest'
          · intro frame small either
            apply shown frame small
            rcases either with ⟨e, member, covered⟩ | before
            · rcases List.mem_cons.1 member with rfl | later
              · exact .inr (shown₁ frame small (.inl covered))
              · exact .inl ⟨e, later, covered⟩
            · exact .inr (shown₁ frame small (.inr before))

theorem init_built {map : BootMap} {fuel : Nat} (rounds : map.entries.length < fuel)
    (enough : Enough m₀ map.entries) (zeroUsed : m₀.Used 0)
    (empty : ∀ i, m₀.kernelDirectory i = 0)
    (laid : Laid (memoryByte m₀) (map.info.mmapAddr + kernelVbase + map.info.mmapLength)
      (map.info.mmapAddr + kernelVbase) map.entries)
    (spared : ∀ a, ReadAt (map.info.mmapAddr + kernelVbase) map.entries a →
      Spared m₀ map.entries a) :
    ∃ m, init fuel map.info m₀ = some m ∧ (∃ taken, Built m₀ map.entries m taken) ∧
      ∀ frame, frame < frameCount → ((∃ entry ∈ map.entries,
        entry.type = multibootMmapAvailable ∧ Covered entry frame) ∨
          0xB8 ≤ frame ∧ frame < 0xB8 + vgaPages) → Shown m frame := by
  have direct := map.direct
  have start : u32 (map.info.mmapAddr + kernelVbase) = map.info.mmapAddr + kernelVbase :=
    u32_of_lt (by omega)
  obtain ⟨m₁, run, ⟨taken₁, built₁⟩, shown₁⟩ := map_entries_built enough zeroUsed direct
    (fun _ member => member) laid spared rounds (built_start empty)
  obtain ⟨m, vga, built, shown⟩ := map_pages_built enough zeroUsed built₁ 0xB8 vgaPages
    (by decide) fun k low => .inr ⟨k, low, rfl⟩
  refine ⟨m, ?_, built, fun frame small covered => ?_⟩
  · unfold init
    rw [if_pos map.flagged]
    simp only [start, u32_of_lt direct, run]
    exact vga
  · apply shown frame small
    rcases covered with entry | vga
    · exact .inr (shown₁ frame small (.inl entry))
    · exact .inl vga

end Reading

section Reaching

variable {m : MemoryState} {frame : Nat}

/-- Every byte of the frame has an address of the direct map, and a page directory leads from
there to the frame. -/
def Reaches (m : MemoryState) (directory : Nat → Nat) (frame : Nat) : Prop :=
  ∀ offset, offset < frameSize →
    frame * frameSize + offset + kernelVbase < 4294967296 ∧
    present (translation m directory (frame * frameSize + offset + kernelVbase)) = true ∧
    frameOf (translation m directory (frame * frameSize + offset + kernelVbase)) = frame

/-- The kernel's directory is as it was and its page tables are in use with what they held. -/
def KeepsKernel (m later : MemoryState) : Prop :=
  later.Used 0 ∧ later.kernelDirectory = m.kernelDirectory ∧
    ∀ i, present (m.kernelDirectory i) = true → later.Used (frameOf (m.kernelDirectory i)) ∧
      later.words (frameOf (m.kernelDirectory i)) = m.words (frameOf (m.kernelDirectory i))

/-- The kernel and every address space that is created later reach the frame. -/
def EverySpace (m : MemoryState) (frame : Nat) : Prop :=
  Reaches m m.kernelDirectory frame ∧ ∀ later, KeepsKernel m later → ∀ pd next,
    createAddressSpace later = (pd, next) → pd ≠ 0 →
      Reaches next (next.words (pd / frameSize)) frame

theorem reaches_of_shown (low : frame < 0x40000) (shown : Shown m frame) :
    Reaches m m.kernelDirectory frame := by
  obtain ⟨has, at_⟩ := kernel_entry frame
  intro offset inside
  have small : frame * frameSize + offset + kernelVbase < 4294967296 := by
    unfold frameSize at inside ⊢
    unfold kernelVbase
    omega
  have page : (frame * frameSize + offset + kernelVbase) / frameSize =
      u32 (frame * frameSize + kernelVbase) / frameSize := by
    rw [u32_of_lt (by omega)]
    unfold frameSize kernelVbase at *
    omega
  obtain ⟨table, index⟩ := (same_page _ _).1 page
  have same : translation m m.kernelDirectory (frame * frameSize + offset + kernelVbase) =
      makeEntry (frame * frameSize) kernelFlags := by
    rw [← shown]
    unfold kernelTranslation translation
    rw [table, index]
  rw [same]
  exact ⟨small, has, at_⟩

/-- A new directory copies the kernel's entries, and its frame is no page table. -/
theorem every_space_of_shown (low : frame < 0x40000) (shown : Shown m frame) :
    EverySpace m frame := by
  have reaches := reaches_of_shown low shown
  refine ⟨reaches, ?_⟩
  rintro later ⟨zeroUsed, directory, tables⟩ pd next run created offset inside
  obtain ⟨small, has, at_⟩ := reaches offset inside
  refine ⟨small, ?_⟩
  rcases create_address_space_cases zeroUsed with ⟨f, positive, _, clear, _, created'⟩ | ⟨_, none⟩
  · rw [run] at created'
    obtain ⟨rfl, rfl⟩ := Prod.mk.inj created'
    obtain ⟨_, number⟩ := frame_address positive
    have high : ¬ (frame * frameSize + offset + kernelVbase) / tableSpan < userEntries := by
      unfold kernelVbase tableSpan userEntries
      omega
    have same : translation ((later.mark f).fillFrame f fun i =>
          if i < userEntries then 0 else later.kernelDirectory i)
        (((later.mark f).fillFrame f fun i =>
          if i < userEntries then 0 else later.kernelDirectory i).words f)
        (frame * frameSize + offset + kernelVbase) =
        translation m m.kernelDirectory (frame * frameSize + offset + kernelVbase) := by
      unfold translation
      dsimp only
      rw [MemoryState.words_fill_frame, if_pos rfl, if_neg high, directory]
      by_cases table : present (m.kernelDirectory
          ((frame * frameSize + offset + kernelVbase) / tableSpan)) = true
      · obtain ⟨used, kept⟩ := tables _ table
        rw [if_pos table, if_pos table, MemoryState.words_fill_frame, if_neg]
        · exact congrFun kept _
        · intro same
          exact clear (same ▸ used)
      · rw [if_neg table, if_neg table]
    rw [number, same]
    exact ⟨has, at_⟩
  · rw [run] at none
    exact absurd (Prod.mk.inj none).1 created

end Reaching

section Windows

def BelowFourGiB (entries : List MultibootMmapEntry) : Prop :=
  ∀ entry ∈ entries, entry.type = multibootMmapAvailable →
    entry.baseAddr < 4294967296 ∧ entry.baseAddr + entry.length ≤ 4294967296

/-- No available entry makes a frame at or above 1 GiB allocatable. -/
def Low (entries : List MultibootMmapEntry) : Prop :=
  ∀ frame, Freed entries frame → frame < 0x40000

/-- What `PhysicalMemoryManager::init` frees, `PagingManager::init` maps. -/
theorem covered_of_freed {entries : List MultibootMmapEntry} (below : BelowFourGiB entries)
    (low : Low entries) {frame : Nat} (freed : Freed entries frame) :
    ∃ entry ∈ entries, entry.type = multibootMmapAvailable ∧ Covered entry frame := by
  obtain ⟨entry, member, available, window⟩ := freed
  obtain ⟨start, stop⟩ := below entry member available
  have base : entryBase entry = entry.baseAddr := u32_of_lt start
  have sum : (entry.baseAddr + entry.length) % 18446744073709551616 =
      entry.baseAddr + entry.length := Nat.mod_eq_of_lt (by omega)
  -- a window that reaches the last page below 4 GiB would hold a frame above 1 GiB
  have top : ¬ FreedWindow (entryBase entry) (entryLength entry) 0xFFFFE := fun inside =>
    absurd (low _ ⟨entry, member, available, inside⟩) (by decide)
  refine ⟨entry, member, available, ?_⟩
  unfold Covered pageCount mapEnd mapBase
  unfold FreedWindow entryLength at window top
  rw [base, sum] at window top
  rw [sum]
  dsimp only
  unfold u32 frameSize at *
  have first : entry.baseAddr % 4294967296 = entry.baseAddr := Nat.mod_eq_of_lt start
  by_cases crossing : 0xFFFFFFFF < entry.baseAddr + entry.length
  · rw [if_pos crossing] at window top ⊢
    rw [first]
    omega
  · have last : (entry.baseAddr + entry.length) % 4294967296 = entry.baseAddr + entry.length :=
      Nat.mod_eq_of_lt (by omega)
    rw [if_neg crossing, Nat.add_mod_mod, last] at window top
    rw [if_neg crossing, first, last]
    omega

theorem high_not_reserved (image : KernelImage) {frame : Nat} (high : 0x40000 ≤ frame) :
    ¬ Reserved image frame := by
  have mapped := image.mapped
  have bitmapFrom := image.bitmapFrom
  have bitmapTo := image.bitmapTo
  have addressable := image.addressable
  simp only [Reserved, Overlaps, kernelVbase, bitmapSize, frameSize] at *
  omega

end Windows

section Booting

variable {map : BootMap} {m₀ : MemoryState} {pm : PhysicalMemoryManager}

theorem laid_congr {memory memory' : Nat → UInt8} {mmapEnd address : Nat}
    {entries : List MultibootMmapEntry} (laid : Laid memory mmapEnd address entries)
    (same : ∀ a, ReadAt address entries a → memory' a = memory a) :
    Laid memory' mmapEnd address entries := by
  induction entries generalizing address with
  | nil => exact laid
  | cons entry rest ih =>
      obtain ⟨here, onward⟩ := laid
      refine ⟨?_, ih onward fun a read => same a (.inr read)⟩
      rw [← here]
      exact read_entry_congr fun a low high => same a (.inl ⟨low, high⟩)

def MapByte (map : BootMap) (a : Nat) : Prop :=
  ReadAt (map.info.mmapAddr + kernelVbase) map.entries a

/-- The state before `init`: frames may have been taken since the other `init`, the map is still
there, the kernel's directory is empty, and there are frames for the page tables. -/
structure Start (map : BootMap) (pm : PhysicalMemoryManager) (m₀ : MemoryState) : Prop where
  taken : ∀ frame, Used pm.bitmap frame → m₀.Used frame
  bytes : ∀ a, MapByte map a → memoryByte m₀ a = map.memory a
  empty : ∀ i, m₀.kernelDirectory i = 0
  enough : Enough m₀ map.entries

/-- Every frame that was allocatable then is reached once `init` has returned. -/
def AllReached (fuel : Nat) (map : BootMap) (pm : PhysicalMemoryManager) (m₀ : MemoryState) :
    Prop :=
  ∀ frame, frame < frameCount → ¬ Used pm.bitmap frame →
    ∃ m, init fuel map.info m₀ = some m ∧ EverySpace m frame

theorem zero_used {image : KernelImage}
    (windows : ∀ frame, Used pm.bitmap frame ↔ ¬ Freed map.entries frame ∨ Reserved image frame) :
    Used pm.bitmap 0 := by
  apply (windows 0).2
  exact .inr (.inr (.inr (by unfold Overlaps frameSize; omega)))

/-- What later code relies on holds when `init` has returned. -/
theorem booted_after_init {image : KernelImage} {fuel : Nat} (rounds : map.entries.length < fuel)
    (windows : ∀ frame, Used pm.bitmap frame ↔ ¬ Freed map.entries frame ∨ Reserved image frame)
    (start : Start map pm m₀) (low : Low map.entries)
    (spared : ∀ a, MapByte map a → Spared m₀ map.entries a) :
    ∃ m, init fuel map.info m₀ = some m ∧ Booted m := by
  have zeroUsed : m₀.Used 0 := start.taken 0 (zero_used windows)
  obtain ⟨m, done, ⟨taken, built⟩, _⟩ := init_built rounds start.enough zeroUsed start.empty
    (laid_congr map.laid start.bytes) spared
  refine ⟨m, done, (built.used 0).2 (.inl zeroUsed), ?_, ?_, ?_⟩
  · intro frame _ free
    apply low
    by_contra other
    exact free ((built.used frame).2 (.inl (start.taken frame ((windows frame).2 (.inl other)))))
  · intro i _ has
    exact (built.used _).2 (.inr (built.tables i has).1)
  · exact fun i j _ has => built.supervisor i j has

/-- Every allocatable frame is reached through the direct map if all of them lie below 1 GiB and
no page table is put over the memory map, and only if they do. -/
theorem frames_reached_iff (image : KernelImage) (map : BootMap) (fuel : Nat)
    (rounds : map.entries.length < fuel) (below : BelowFourGiB map.entries) :
    ∃ pm, MemoryMap.init fuel map.memory image map.info construct = some pm ∧
      ∀ m₀, Start map pm m₀ →
        (Low map.entries → (∀ a, MapByte map a → Spared m₀ map.entries a) →
          AllReached fuel map pm m₀) ∧
        (AllReached fuel map pm m₀ → Low map.entries) := by
  obtain ⟨pm, run, windows, _⟩ := init_windows image map fuel rounds
  refine ⟨pm, run, fun m₀ start => ⟨fun low spared frame bound free => ?_, fun reached => ?_⟩⟩
  · have freed : Freed map.entries frame := by
      by_contra other
      exact free ((windows frame).2 (.inl other))
    have zeroUsed : m₀.Used 0 := start.taken 0 (zero_used windows)
    obtain ⟨m, done, _, shown⟩ := init_built rounds start.enough zeroUsed start.empty
      (laid_congr map.laid start.bytes) spared
    exact ⟨m, done, every_space_of_shown (low frame freed)
      (shown frame bound (.inl (covered_of_freed below low freed)))⟩
  · intro frame freed
    by_contra high
    have above : 0x40000 ≤ frame := Nat.le_of_not_lt high
    have free : ¬ Used pm.bitmap frame := fun used =>
      ((windows frame).1 used).elim (fun other => other freed) (high_not_reserved image above)
    obtain ⟨m, _, reaches, _⟩ := reached frame (freed_bound freed) free
    have address := (reaches 0 (by decide)).1
    unfold frameSize kernelVbase at address
    omega

end Booting

section Examples

def wordsOf (memory : Nat → UInt8) (frame index : Nat) : Nat :=
  load32 memory (frame * frameSize + index * 4 + kernelVbase)

theorem byte_of_load32 (memory : Nat → UInt8) (address k : Nat) (small : k < 4) :
    UInt8.ofNat (load32 memory address / 256 ^ k) = memory (address + k) := by
  have b₀ := (memory address).toNat_lt
  have b₁ := (memory (address + 1)).toNat_lt
  have b₂ := (memory (address + 2)).toNat_lt
  have b₃ := (memory (address + 2 + 1)).toNat_lt
  apply UInt8.toNat_inj.1
  rw [UInt8.toNat_ofNat']
  unfold load32 load16
  rcases k with _ | _ | _ | _ | k
  · change _ = (memory address).toNat
    omega
  · change _ = (memory (address + 1)).toNat
    omega
  · change _ = (memory (address + 2)).toNat
    omega
  · change _ = (memory (address + 2 + 1)).toNat
    omega
  · omega

def lowEntries : List MultibootMmapEntry := [⟨20, 0x100000, 0x400000, 1⟩]

def lowMap : BootMap where
  memory := mapMemory lowEntries
  info := ⟨64, 24, 0x9000⟩
  entries := lowEntries
  flagged := flag_mmap
  direct := map_below
  laid := ⟨by decide, rfl⟩

theorem low_map_needs {i : Nat} (needs : Needs lowEntries i) : i = 768 ∨ i = 769 := by
  rcases needs with ⟨entry, member, _, k, low, rfl⟩ | ⟨k, low, rfl⟩
  · obtain rfl := List.mem_singleton.1 member
    have count : pageCount ⟨20, 0x100000, 0x400000, 1⟩ = 1024 := by decide
    have base : mapBase ⟨20, 0x100000, 0x400000, 1⟩ = 0x100000 := by decide
    rw [count] at low
    rw [base]
    unfold u32 frameSize kernelVbase tableSpan
    omega
  · unfold vgaPages at low
    unfold u32 vgaBase frameSize kernelVbase tableSpan
    omega

open Classical in
theorem low_map_tables : tablesNeeded lowEntries ≤ 2 := by
  have within : (Finset.range 1024).filter (Needs lowEntries) ⊆ {768, 769} := by
    intro i member
    rw [Finset.mem_insert, Finset.mem_singleton]
    exact low_map_needs (Finset.mem_filter.1 member).2
  exact (Finset.card_le_card within).trans (by decide)

theorem low_map_byte {a : Nat} (read : MapByte lowMap a) : 0xC0009000 ≤ a ∧ a < 0xC0009018 := by
  rcases read with here | none
  · exact here
  · exact absurd none id

theorem memory_byte_of_words (memory : Nat → UInt8) (m : MemoryState)
    (same : m.words = wordsOf memory) {a : Nat} (direct : kernelVbase ≤ a) :
    memoryByte m a = memory a := by
  unfold memoryByte
  rw [same]
  unfold wordsOf
  rw [byte_of_load32 memory _ (a % 4) (Nat.mod_lt _ (by decide))]
  congr 1
  unfold kernelVbase frameSize at *
  omega

def lowState (pm : PhysicalMemoryManager) : MemoryState :=
  ⟨pm, wordsOf lowMap.memory, fun _ => 0⟩

/-- A machine with 4 MiB of memory from 1 MiB on reaches all of it. -/
theorem low_map_reached : ∃ pm m₀,
    MemoryMap.init 2 lowMap.memory smallImage lowMap.info construct = some pm ∧
    ¬ Used pm.bitmap 0x200 ∧ AllReached 2 lowMap pm m₀ := by
  obtain ⟨pm', run', windows, _⟩ := init_windows smallImage lowMap 2 (by decide)
  obtain ⟨pm, run, exactly⟩ := frames_reached_iff smallImage lowMap 2 (by decide) (by
    intro entry member _
    obtain rfl := List.mem_singleton.1 member
    decide)
  obtain rfl : pm' = pm := Option.some.inj (run'.symm.trans run)
  have free : ∀ frame, 0x180 ≤ frame → frame < 0x500 → ¬ Used pm'.bitmap frame := by
    intro frame lower upper used
    rcases (windows frame).1 used with other | reserved
    · apply other
      refine ⟨_, List.mem_cons_self, rfl, ?_⟩
      have window :
          u32 (entryBase ⟨20, 0x100000, 0x400000, 1⟩ + (frameSize - 1)) / frameSize = 256 ∧
          u32 (entryBase ⟨20, 0x100000, 0x400000, 1⟩ +
            entryLength ⟨20, 0x100000, 0x400000, 1⟩) / frameSize = 0x500 := by decide
      unfold FreedWindow
      rw [window.1, window.2]
      omega
    · simp only [Reserved, Overlaps, smallImage, kernelVbase, bitmapSize, frameSize] at reserved
      omega
  have start : Start lowMap pm' (lowState pm') := by
    refine ⟨fun _ used => used, fun a read => ?_, fun _ => rfl, ?_⟩
    · obtain ⟨low, _⟩ := low_map_byte read
      apply memory_byte_of_words lowMap.memory (lowState pm') rfl
      unfold kernelVbase
      omega
    · apply low_map_tables.trans
      unfold freeBelow
      rw [Nat.count_eq_card_filter_range]
      have within : {0x200, 0x201} ⊆ (Finset.range bootFrames).filter fun frame =>
          ¬ (lowState pm').Used frame := by
        intro frame member
        rw [Finset.mem_insert, Finset.mem_singleton] at member
        have bounds : 0x180 ≤ frame ∧ frame < bootFrames := by
          unfold bootFrames
          omega
        refine Finset.mem_filter.2 ⟨Finset.mem_range.2 bounds.2, free frame bounds.1 ?_⟩
        unfold bootFrames at bounds
        omega
      exact Finset.card_le_card within
  refine ⟨pm', _, run', free 0x200 (by decide) (by decide), (exactly _ start).1 ?_ ?_⟩
  · rintro frame ⟨entry, member, _, _, upper⟩
    obtain rfl := List.mem_singleton.1 member
    have stop : u32 (entryBase ⟨20, 0x100000, 0x400000, 1⟩ +
        entryLength ⟨20, 0x100000, 0x400000, 1⟩) / frameSize = 0x500 := by decide
    rw [stop] at upper
    omega
  · intro a read
    obtain ⟨low, high⟩ := low_map_byte read
    have nine : frameAt a = 9 := by
      unfold frameAt kernelVbase frameSize
      omega
    left
    rw [nine]
    exact (windows 9).2 (.inl (by decide))

def highEntries : List MultibootMmapEntry := [⟨20, 0x40000000, 0x1000, 1⟩]

def gigabyteMap : BootMap where
  memory := mapMemory highEntries
  info := ⟨64, 24, 0x9000⟩
  entries := highEntries
  flagged := flag_mmap
  direct := map_below
  laid := ⟨by decide, rfl⟩

/-- It is allocatable, and its address in the direct map wraps around to 0. -/
theorem frame_at_one_gigabyte_wraps : BelowFourGiB gigabyteMap.entries ∧
    ∃ pm, MemoryMap.init 2 gigabyteMap.memory smallImage gigabyteMap.info construct = some pm ∧
      ¬ Used pm.bitmap 0x40000 ∧ u32 (0x40000 * frameSize + kernelVbase) = 0 ∧
      ∀ m₀, ¬ AllReached 2 gigabyteMap pm m₀ := by
  obtain ⟨pm, run, windows, _⟩ := init_windows smallImage gigabyteMap 2 (by decide)
  have free : ¬ Used pm.bitmap 0x40000 := by
    intro used
    rcases (windows 0x40000).1 used with other | reserved
    · exact other (by decide)
    · exact high_not_reserved smallImage (Nat.le_refl _) reserved
  refine ⟨?_, pm, run, free, by decide, fun m₀ reached => ?_⟩
  · intro entry member _
    obtain rfl := List.mem_singleton.1 member
    decide
  · obtain ⟨m, _, reaches, _⟩ := reached 0x40000 (by decide) free
    have address := (reaches 0 (by decide)).1
    revert address
    decide

end Examples

end CassiOS.Memory.DirectMap
