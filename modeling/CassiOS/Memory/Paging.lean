import CassiOS.Memory.Physical

/-!
# Paging manager

The address spaces of `memory/paging.cpp`. A page directory or page table is a frame of
1024 words, which the kernel reaches through its direct map; `words` holds the contents of
all frames by frame number. The kernel's own page directory lies in `.bss`.
-/

namespace CassiOS.Memory.Paging

open CassiOS.Support.Words
open CassiOS.Memory.Physical

set_option autoImplicit false

def pagePresent : Nat := 0x01
def pageReadwrite : Nat := 0x02
def pageUser : Nat := 0x04

/-- `PAGE_PRESENT | PAGE_READWRITE | PAGE_USER`. -/
def userFlags : Nat := pagePresent ||| pageReadwrite ||| pageUser

/-- User page-directory entries are 0-767, kernel ones 768-1023. -/
def userEntries : Nat := 768

def tableSpan : Nat := 4194304

/-- The first physical address that is not device memory to `destroyAddressSpace`. -/
def deviceLimit : Nat := 0x100000

structure MemoryState where
  pmm : PhysicalMemoryManager
  words : Nat → Nat → Nat
  kernelDirectory : Nat → Nat

namespace MemoryState

def Used (m : MemoryState) (frame : Nat) : Prop := Physical.Used m.pmm.bitmap frame

instance (m : MemoryState) (frame : Nat) : Decidable (m.Used frame) :=
  inferInstanceAs (Decidable (Physical.Used m.pmm.bitmap frame))

def setWord (m : MemoryState) (frame index value : Nat) : MemoryState :=
  { m with words := fun f j => if f = frame ∧ j = index then value else m.words f j }

def fillFrame (m : MemoryState) (frame : Nat) (content : Nat → Nat) : MemoryState :=
  { m with words := fun f => if f = frame then content else m.words f }

def mark (m : MemoryState) (frame : Nat) : MemoryState :=
  { m with pmm := { m.pmm with bitmap := markUsed m.pmm.bitmap frame } }

section Fields

variable (m : MemoryState) (frame index value : Nat) (content : Nat → Nat)

@[simp] theorem pmm_set_word : (m.setWord frame index value).pmm = m.pmm := rfl
@[simp] theorem directory_set_word :
    (m.setWord frame index value).kernelDirectory = m.kernelDirectory := rfl
@[simp] theorem pmm_fill_frame : (m.fillFrame frame content).pmm = m.pmm := rfl
@[simp] theorem directory_fill_frame :
    (m.fillFrame frame content).kernelDirectory = m.kernelDirectory := rfl
@[simp] theorem words_mark : (m.mark frame).words = m.words := rfl
@[simp] theorem directory_mark : (m.mark frame).kernelDirectory = m.kernelDirectory := rfl

@[simp] theorem used_set_word (f : Nat) : (m.setWord frame index value).Used f ↔ m.Used f := Iff.rfl
@[simp] theorem used_fill_frame (f : Nat) : (m.fillFrame frame content).Used f ↔ m.Used f := Iff.rfl

theorem words_set_word (f j : Nat) :
    (m.setWord frame index value).words f j =
      if f = frame ∧ j = index then value else m.words f j := rfl

theorem words_fill_frame (f j : Nat) :
    (m.fillFrame frame content).words f j = if f = frame then content j else m.words f j := by
  unfold fillFrame
  split
  · next same => simp only [same, if_true]
  · next other => simp only [if_neg other]

theorem used_mark (bound : frame < frameCount) (f : Nat) :
    (m.mark frame).Used f ↔ m.Used f ∨ f = frame := used_mark_used _ _ _ bound

end Fields

end MemoryState

section Entries

/-- `entry & PAGE_PRESENT`. -/
def present (entry : Nat) : Bool := entry % 2 == 1

def frameOf (entry : Nat) : Nat := entry / frameSize

/-- `(physicalAddr & 0xFFFFF000) | (flags & 0xFFF)`. -/
def makeEntry (physicalAddr flags : Nat) : Nat :=
  physicalAddr / frameSize * frameSize + flags % frameSize

theorem frame_of_make_entry (physicalAddr flags : Nat) :
    frameOf (makeEntry physicalAddr flags) = physicalAddr / frameSize := by
  unfold frameOf makeEntry frameSize
  omega

theorem make_entry_user (physicalAddr : Nat) : makeEntry physicalAddr userFlags % 8 = 7 := by
  have flags : userFlags = 7 := rfl
  unfold makeEntry frameSize
  rw [flags]
  omega

theorem present_make_entry (physicalAddr : Nat) : present (makeEntry physicalAddr userFlags) = true := by
  have low := make_entry_user physicalAddr
  unfold present
  rw [beq_iff_eq]
  omega

end Entries

section AddressSpaces

/-- `allocFrame` of the physical memory manager. -/
def takeFrame (m : MemoryState) : Nat × MemoryState :=
  let answer := allocFrame m.pmm
  (answer.1, { m with pmm := answer.2 })

/-- The physical address of the new page directory, 0 on failure. -/
def createAddressSpace (m : MemoryState) : Nat × MemoryState :=
  let (frame, m) := takeFrame m
  if frame = 0 then (0, m)
  else
    (frame, m.fillFrame (frame / frameSize) fun i =>
      if i < userEntries then 0 else m.kernelDirectory i)

/-- The page table for a directory entry, allocated when the entry is empty; the flag
says whether there is one. -/
def ensureTable (pd pdIndex : Nat) (m : MemoryState) : Bool × MemoryState :=
  if present (m.words pd pdIndex) then (true, m)
  else
    let (ptFrame, m) := takeFrame m
    if ptFrame = 0 then (false, m)
    else
      let m := m.fillFrame (ptFrame / frameSize) fun _ => 0
      (true, m.setWord pd pdIndex (makeEntry ptFrame userFlags))

/-- Nothing is mapped when no page table can be allocated. -/
def mapUserPage (pdPhysical virtualAddr physicalAddr flags : Nat) (m : MemoryState) : MemoryState :=
  let pd := pdPhysical / frameSize
  let pdIndex := virtualAddr / tableSpan
  let ptIndex := virtualAddr / frameSize % 1024
  let (ok, m) := ensureTable pd pdIndex m
  if ok then m.setWord (frameOf (m.words pd pdIndex)) ptIndex (makeEntry physicalAddr flags) else m

/-- The frame `destroyAddressSpace` frees for one page-table entry. -/
def pageFrame (entry : Nat) : List Nat :=
  let frame := frameOf entry * frameSize
  if present entry ∧ deviceLimit ≤ frame then [frame] else []

def tableFrames (m : MemoryState) (table : Nat) : List Nat :=
  (List.range 1024).flatMap fun j => pageFrame (m.words table j)

/-- The frames of one user entry of a directory, with the page table behind its pages. -/
def entryFrames (m : MemoryState) (pd i : Nat) : List Nat :=
  let entry := m.words pd i
  if present entry then tableFrames m (frameOf entry) ++ [frameOf entry * frameSize] else []

/-- The addresses `destroyAddressSpace` passes to `freeFrame`, in order. -/
def spaceFrames (m : MemoryState) (pdPhysical : Nat) : List Nat :=
  (List.range userEntries).flatMap (entryFrames m (pdPhysical / frameSize)) ++ [pdPhysical]

def freeFrames (m : MemoryState) (addresses : List Nat) : MemoryState :=
  { m with pmm := addresses.foldl (fun pmm address => freeFrame address pmm) m.pmm }

/-- Freeing a frame leaves its words, so the walk reads what it would read before. -/
def destroyAddressSpace (pdPhysical : Nat) (m : MemoryState) : MemoryState :=
  freeFrames m (spaceFrames m pdPhysical)

def translation (m : MemoryState) (directory : Nat → Nat) (virtualAddr : Nat) : Nat :=
  let entry := directory (virtualAddr / tableSpan)
  if present entry then m.words (frameOf entry) (virtualAddr / frameSize % 1024) else 0

end AddressSpaces

section Allocation

variable {m : MemoryState}

def Exhausted (m : MemoryState) : Prop := ∀ frame, frame < frameCount → m.Used frame

/-- What the kernel has set up when the first address space is created: frame 0 is
reserved, the direct map reaches all other free frames, and the kernel's page tables are
in use and hold no page for user mode. -/
structure Booted (m : MemoryState) : Prop where
  zeroUsed : m.Used 0
  direct : ∀ frame, frame < frameCount → ¬ m.Used frame → frame < 0x40000
  tables : ∀ i, userEntries ≤ i → present (m.kernelDirectory i) = true →
    m.Used (frameOf (m.kernelDirectory i))
  supervisor : ∀ i j, userEntries ≤ i → present (m.kernelDirectory i) = true →
    m.words (frameOf (m.kernelDirectory i)) j % 8 ≠ 7

theorem take_frame_cases (zeroUsed : m.Used 0) :
    (∃ frame, 0 < frame ∧ frame < frameCount ∧ ¬ m.Used frame ∧
        (∀ other, other < frame → m.Used other) ∧
        takeFrame m = (frame * frameSize, m.mark frame)) ∨
      (Exhausted m ∧ takeFrame m = (0, m)) := by
  unfold takeFrame
  rcases alloc_frame_cases m.pmm with ⟨frame, bound, clear, before, run⟩ | ⟨full, run⟩
  · left
    have positive : 0 < frame := by
      rcases Nat.eq_zero_or_pos frame with rfl | positive
      · exact absurd zeroUsed clear
      · exact positive
    refine ⟨frame, positive, bound, clear, before, ?_⟩
    rw [run]
    rfl
  · right
    refine ⟨full, ?_⟩
    rw [run]

theorem free_frames_mark {frame : Nat} (bound : frame < frameCount) (clear : ¬ m.Used frame) :
    getFreeFrames m.pmm = getFreeFrames (m.mark frame).pmm + 1 :=
  free_frames_mark_used m.pmm bound clear

theorem exhausted_iff : Exhausted m ↔ getFreeFrames m.pmm = 0 := (free_frames_eq_zero m.pmm).symm

theorem frame_address {frame : Nat} (positive : 0 < frame) :
    frame * frameSize ≠ 0 ∧ frame * frameSize / frameSize = frame := by
  unfold frameSize
  omega

theorem create_address_space_cases (zeroUsed : m.Used 0) :
    (∃ frame, 0 < frame ∧ frame < frameCount ∧ ¬ m.Used frame ∧
        (∀ other, other < frame → m.Used other) ∧
        createAddressSpace m = (frame * frameSize, (m.mark frame).fillFrame frame fun i =>
          if i < userEntries then 0 else m.kernelDirectory i)) ∨
      (Exhausted m ∧ createAddressSpace m = (0, m)) := by
  rcases take_frame_cases zeroUsed with ⟨frame, positive, bound, clear, before, run⟩ | ⟨full, run⟩
  · left
    obtain ⟨nonzero, number⟩ := frame_address positive
    refine ⟨frame, positive, bound, clear, before, ?_⟩
    unfold createAddressSpace
    rw [run]
    simp only [if_neg nonzero, number]
    rfl
  · right
    refine ⟨full, ?_⟩
    unfold createAddressSpace
    rw [run]
    rfl

/-- The state after a page was mapped: through an existing table, through a new one, or
not at all for want of a frame. -/
inductive MapOutcome (m : MemoryState) (pd virtualAddr entry : Nat) : MemoryState → Prop
  | existing (table : present (m.words pd (virtualAddr / tableSpan)) = true) :
      MapOutcome m pd virtualAddr entry
        (m.setWord (frameOf (m.words pd (virtualAddr / tableSpan)))
          (virtualAddr / frameSize % 1024) entry)
  | fresh (table : Nat) (absent : present (m.words pd (virtualAddr / tableSpan)) = false)
      (positive : 0 < table) (bound : table < frameCount) (clear : ¬ m.Used table)
      (before : ∀ other, other < table → m.Used other) :
      MapOutcome m pd virtualAddr entry
        ((((m.mark table).fillFrame table fun _ => 0).setWord pd (virtualAddr / tableSpan)
          (makeEntry (table * frameSize) userFlags)).setWord table
            (virtualAddr / frameSize % 1024) entry)
  | starved (absent : present (m.words pd (virtualAddr / tableSpan)) = false)
      (full : Exhausted m) : MapOutcome m pd virtualAddr entry m

theorem ensure_table_present {pd pdIndex : Nat} (table : present (m.words pd pdIndex) = true) :
    ensureTable pd pdIndex m = (true, m) := by
  unfold ensureTable
  rw [if_pos table]

theorem ensure_table_absent (zeroUsed : m.Used 0) {pd pdIndex : Nat}
    (absent : present (m.words pd pdIndex) = false) :
    (∃ table, 0 < table ∧ table < frameCount ∧ ¬ m.Used table ∧
        (∀ other, other < table → m.Used other) ∧
        ensureTable pd pdIndex m = (true, ((m.mark table).fillFrame table fun _ => 0).setWord
          pd pdIndex (makeEntry (table * frameSize) userFlags))) ∨
      (Exhausted m ∧ ensureTable pd pdIndex m = (false, m)) := by
  have noTable : ¬ present (m.words pd pdIndex) = true := by
    rw [absent]
    exact Bool.false_ne_true
  rcases take_frame_cases zeroUsed with ⟨table, positive, bound, clear, before, run⟩ | ⟨full, run⟩
  · left
    obtain ⟨nonzero, number⟩ := frame_address positive
    refine ⟨table, positive, bound, clear, before, ?_⟩
    unfold ensureTable
    rw [if_neg noTable, run]
    simp only [if_neg nonzero, number]
  · right
    refine ⟨full, ?_⟩
    unfold ensureTable
    rw [if_neg noTable, run]
    simp only [if_true]

theorem map_user_page_outcome (zeroUsed : m.Used 0) (pd virtualAddr physicalAddr flags : Nat) :
    MapOutcome m pd virtualAddr (makeEntry physicalAddr flags)
      (mapUserPage (pd * frameSize) virtualAddr physicalAddr flags m) := by
  unfold mapUserPage
  simp only [frame_of_address]
  cases table : present (m.words pd (virtualAddr / tableSpan)) with
  | true =>
      rw [ensure_table_present table]
      simp only [if_true]
      exact .existing table
  | false =>
      rcases ensure_table_absent zeroUsed table with
        ⟨t, positive, bound, clear, before, run⟩ | ⟨full, run⟩
      · rw [run]
        obtain ⟨_, number⟩ := frame_address positive
        have stored : frameOf ((((m.mark t).fillFrame t fun _ => 0).setWord pd
            (virtualAddr / tableSpan) (makeEntry (t * frameSize) userFlags)).words pd
              (virtualAddr / tableSpan)) = t := by
          rw [MemoryState.words_set_word, if_pos ⟨rfl, rfl⟩, frame_of_make_entry, number]
        simp only [if_true]
        rw [stored]
        exact .fresh t table positive bound clear before
      · rw [run]
        simp only [Bool.false_eq_true, if_false]
        exact .starved table full

theorem map_keeps_used {pd virtualAddr entry : Nat} {next : MemoryState}
    (outcome : MapOutcome m pd virtualAddr entry next) {frame : Nat} (used : m.Used frame) :
    next.Used frame := by
  cases outcome with
  | existing table => exact used
  | fresh table absent positive bound clear before =>
      exact (MemoryState.used_mark _ _ bound frame).2 (.inl used)
  | starved absent full => exact used

/-- What mapping a page does to the count of free frames and to the tables of `pd`. -/
theorem map_budget {pd virtualAddr entry : Nat} {next : MemoryState}
    (outcome : MapOutcome m pd virtualAddr entry next) (pdUsed : m.Used pd)
    (other : present (m.words pd (virtualAddr / tableSpan)) = true →
      pd ≠ frameOf (m.words pd (virtualAddr / tableSpan))) :
    (present (m.words pd (virtualAddr / tableSpan)) = true ∧
        getFreeFrames next.pmm = getFreeFrames m.pmm ∧
        ∀ i, present (next.words pd i) = present (m.words pd i)) ∨
      (present (m.words pd (virtualAddr / tableSpan)) = false ∧ getFreeFrames m.pmm ≠ 0 ∧
        getFreeFrames next.pmm = getFreeFrames m.pmm - 1 ∧
        ∀ i, present (next.words pd i) =
          (decide (i = virtualAddr / tableSpan) || present (m.words pd i))) ∨
      (present (m.words pd (virtualAddr / tableSpan)) = false ∧ getFreeFrames m.pmm = 0 ∧
        next = m) := by
  cases outcome with
  | existing table =>
      refine .inl ⟨table, rfl, ?_⟩
      intro i
      rw [MemoryState.words_set_word, if_neg fun same => other table same.1]
  | fresh table absent positive bound clear lower =>
      have taken := free_frames_mark bound clear
      have notTable : pd ≠ table := fun same => clear (same ▸ pdUsed)
      refine .inr (.inl ⟨absent, by omega, ?_, ?_⟩)
      · simp only [MemoryState.pmm_set_word, MemoryState.pmm_fill_frame]
        omega
      · intro i
        rw [MemoryState.words_set_word, if_neg fun same => notTable same.1,
          MemoryState.words_set_word]
        by_cases here : i = virtualAddr / tableSpan
        · rw [if_pos ⟨rfl, here⟩, present_make_entry, decide_eq_true here, Bool.true_or]
        · rw [if_neg fun same => here same.2, MemoryState.words_fill_frame, if_neg notTable,
            decide_eq_false here, Bool.false_or, MemoryState.words_mark]
  | starved absent full => exact .inr (.inr ⟨absent, exhausted_iff.1 full, rfl⟩)

end Allocation

section Freeing

variable {m : MemoryState}

theorem free_frames_words (addresses : List Nat) :
    (freeFrames m addresses).words = m.words ∧
      (freeFrames m addresses).kernelDirectory = m.kernelDirectory := ⟨rfl, rfl⟩

theorem space_frames_free (addresses : List Nat) (pdPhysical : Nat) :
    spaceFrames (freeFrames m addresses) pdPhysical = spaceFrames m pdPhysical := rfl

theorem used_free_frames (addresses : List Nat)
    (bounds : ∀ address ∈ addresses, address / frameSize < frameCount) (frame : Nat) :
    (freeFrames m addresses).Used frame ↔
      m.Used frame ∧ ∀ address ∈ addresses, address / frameSize ≠ frame := by
  induction addresses generalizing m with
  | nil =>
      simp only [List.not_mem_nil, false_implies, implies_true, and_true]
      exact Iff.rfl
  | cons address rest ih =>
      have first := used_mark_free m.pmm.bitmap (address / frameSize) frame
        (bounds address List.mem_cons_self)
      have others := ih (m := { m with pmm := freeFrame address m.pmm })
        fun a member => bounds a (List.mem_cons_of_mem _ member)
      have unfolded : freeFrames m (address :: rest) =
          freeFrames { m with pmm := freeFrame address m.pmm } rest := rfl
      have here : MemoryState.Used { m with pmm := freeFrame address m.pmm } frame ↔
          m.Used frame ∧ frame ≠ address / frameSize := first
      rw [unfolded, others, here, and_assoc]
      simp only [List.forall_mem_cons, ne_comm]

end Freeing

end CassiOS.Memory.Paging
