import CassiOS.Memory.NewSpace
import CassiOS.Memory.UserSpace
import CassiOS.Support.TransitionSystem

/-!
# Address spaces side by side

Any number of address spaces, built page by page over frames from `allocFrame`. No frame
is in two of them, none holds data and none is a page table of the kernel, so mapping a
page shows up at that page of that address space and nowhere else.
-/

namespace CassiOS.Memory.AddressSpaces

open CassiOS.Support.TransitionSystem
open CassiOS.Memory.Physical
open CassiOS.Memory.Paging
open CassiOS.Memory.Ownership
open CassiOS.Memory.Owned
open CassiOS.Memory.UserSpace
open CassiOS.Memory.NewSpace

set_option autoImplicit false

/-- `spaces` are the frames of the page directories made so far, `data` the frames handed
out for anything else. -/
structure Spaces where
  memory : MemoryState
  spaces : List Nat
  data : List Nat

inductive Action where
  | createAddressSpace
  | mapUserPage (pd virtualAddr physicalAddr flags : Nat)
  | allocFrame
  | writeData (frame index value : Nat)

/-- One call; pages are mapped at user addresses, and data goes to frames handed out for it. -/
def step (s : Spaces) : Action → Option Spaces
  | .createAddressSpace =>
      let (address, m) := createAddressSpace s.memory
      some (if address = 0 then { s with memory := m }
        else { s with memory := m, spaces := address / frameSize :: s.spaces })
  | .mapUserPage pd virtualAddr physicalAddr flags =>
      if pd ∈ s.spaces ∧ virtualAddr < kernelVbase then
        some { s with
          memory := mapUserPage (pd * frameSize) virtualAddr physicalAddr flags s.memory }
      else none
  | .allocFrame =>
      let (address, m) := takeFrame s.memory
      some (if address = 0 then { s with memory := m }
        else { s with memory := m, data := address / frameSize :: s.data })
  | .writeData frame index value =>
      if frame ∈ s.data then some { s with memory := s.memory.setWord frame index value } else none

def atBoot (m : MemoryState) : Spaces := ⟨m, [], []⟩

section Specification

/-- A page was mapped with `entry` in `pd`, and no other translation changed. -/
structure OnePageMapped (before after : MemoryState) (spaces : List Nat)
    (pd virtualAddr entry : Nat) : Prop where
  table : after.words pd (virtualAddr / tableSpan) % 8 = 7
  mapped : ∀ a, a / frameSize = virtualAddr / frameSize →
    translation after (after.words pd) a = entry
  others : ∀ a, a / frameSize ≠ virtualAddr / frameSize →
    translation after (after.words pd) a = translation before (before.words pd) a
  elsewhere : ∀ other ∈ spaces, other ≠ pd → ∀ a,
    translation after (after.words other) a = translation before (before.words other) a
  kernel : ∀ a, kernelVbase ≤ a → translation after after.kernelDirectory a =
    translation before before.kernelDirectory a

end Specification

section Frames

variable {m next : MemoryState} {pd frame : Nat}

/-- The directory of an address space or one of its page tables. -/
def InSpace (m : MemoryState) (pd frame : Nat) : Prop := frame = pd ∨ Table m pd frame

theorem in_space_used (space : Space m pd) (inside : InSpace m pd frame) : m.Used frame := by
  rcases inside with rfl | ⟨i, low, here, rfl⟩
  · exact space.directory
  · exact (space.used i low here).1

theorem plain_of_outside (used : m.Used frame) (outside : ¬ InSpace m pd frame) :
    Plain m pd frame where
  used := used
  notDirectory := fun same => outside (.inl same)
  notTable := fun i low here same => outside (.inr ⟨i, low, here, same⟩)

theorem unused_outside (space : Space m pd) (clear : ¬ m.Used frame) : ¬ InSpace m pd frame :=
  fun inside => clear (in_space_used space inside)

theorem in_space_frame (same : next.words pd = m.words pd) :
    InSpace next pd frame ↔ InSpace m pd frame := by
  unfold InSpace Table
  rw [same]

theorem space_frame (space : Space m pd) (same : next.words pd = m.words pd)
    (grows : ∀ f, m.Used f → next.Used f) : Space next pd := by
  refine ⟨⟨grows pd space.directory, ?_, ?_⟩, grows 0 space.zero, ?_⟩
  · intro i low
    rw [same]
    exact fun here => ⟨grows _ (space.used i low here).1, (space.used i low here).2⟩
  · rw [same]
    exact space.apart
  · rw [same]
    exact space.flags

/-- What mapping a page adds to the address space was free before. -/
theorem in_space_map {virtualAddr entry : Nat} (space : Space m pd)
    (user : virtualAddr / tableSpan < userEntries)
    (outcome : MapOutcome m pd virtualAddr entry next) (inside : InSpace next pd frame) :
    InSpace m pd frame ∨ frame < frameCount ∧ ¬ m.Used frame := by
  rcases inside with rfl | ⟨i, low, here, rfl⟩
  · exact .inl (.inl rfl)
  · rcases table_after_map space.toTables user outcome here with ⟨before, same⟩ | new
    · rw [same]
      exact .inl (.inr ⟨i, low, before, rfl⟩)
    · exact .inr new

theorem kernel_directory_map {virtualAddr entry : Nat}
    (outcome : MapOutcome m pd virtualAddr entry next) : next.kernelDirectory = m.kernelDirectory := by
  cases outcome with
  | existing table => rfl
  | fresh table absent positive bound clear before => rfl
  | starved absent full => rfl

end Frames

section Invariant

structure Separate (s : Spaces) : Prop where
  zero : s.memory.Used 0
  space : ∀ pd ∈ s.spaces, Space s.memory pd
  apart : ∀ pd ∈ s.spaces, ∀ other ∈ s.spaces, other ≠ pd →
    ∀ f, InSpace s.memory other f → ¬ InSpace s.memory pd f
  kernelHalf : ∀ pd ∈ s.spaces, ∀ i, userEntries ≤ i →
    s.memory.words pd i = s.memory.kernelDirectory i
  kernelTables : ∀ f, KernelTable s.memory f → s.memory.Used f ∧
    ∀ pd ∈ s.spaces, ¬ InSpace s.memory pd f
  data : ∀ f ∈ s.data, s.memory.Used f ∧ ¬ KernelTable s.memory f ∧
    ∀ pd ∈ s.spaces, ¬ InSpace s.memory pd f

variable {s : Spaces} {next : MemoryState} {pd : Nat}

theorem at_boot_separate {m : MemoryState} (booted : Booted m) : Separate (atBoot m) where
  zero := booted.zeroUsed
  space := nofun
  apart := nofun
  kernelHalf := nofun
  kernelTables := by
    rintro f ⟨i, high, here, rfl⟩
    exact ⟨booted.tables i high here, nofun⟩
  data := nofun

theorem separate_frame (separate : Separate s) (grows : ∀ f, s.memory.Used f → next.Used f)
    (directory : next.kernelDirectory = s.memory.kernelDirectory)
    (same : ∀ pd ∈ s.spaces, next.words pd = s.memory.words pd) :
    Separate { s with memory := next } := by
  have kernel : ∀ f, KernelTable next f ↔ KernelTable s.memory f := by
    intro f
    unfold KernelTable
    rw [directory]
  have inside : ∀ pd ∈ s.spaces, ∀ f, InSpace next pd f ↔ InSpace s.memory pd f :=
    fun pd member f => in_space_frame (same pd member)
  constructor
  · exact grows 0 separate.zero
  · exact fun pd member => space_frame (separate.space pd member) (same pd member) grows
  · intro pd member other member' different f
    rw [inside pd member, inside other member']
    exact separate.apart pd member other member' different f
  · intro pd member i high
    change next.words pd i = next.kernelDirectory i
    rw [same pd member, directory]
    exact separate.kernelHalf pd member i high
  · intro f table
    obtain ⟨used, outside⟩ := separate.kernelTables f ((kernel f).1 table)
    exact ⟨grows f used, fun pd member => (inside pd member f).not.2 (outside pd member)⟩
  · intro f member
    obtain ⟨used, notTable, outside⟩ := separate.data f member
    exact ⟨grows f used, (kernel f).not.2 notTable,
      fun pd member' => (inside pd member' f).not.2 (outside pd member')⟩

theorem separate_add (separate : Separate s) (fresh : ∀ i, i < userEntries →
    present (s.memory.words pd i) = false) (used : s.memory.Used pd)
    (kernel : ∀ i, userEntries ≤ i → s.memory.words pd i = s.memory.kernelDirectory i)
    (notTable : ¬ KernelTable s.memory pd) (notData : pd ∉ s.data)
    (outside : ∀ other ∈ s.spaces, ¬ InSpace s.memory other pd) :
    Separate { s with spaces := pd :: s.spaces } := by
  have alone : ∀ f, InSpace s.memory pd f → f = pd := by
    rintro f (same | ⟨i, low, here, _⟩)
    · exact same
    · rw [fresh i low] at here
      cases here
  constructor
  · exact separate.zero
  · intro other member
    rcases List.mem_cons.1 member with rfl | older
    · exact space_of_empty separate.zero used fresh
    · exact separate.space other older
  · intro first member second member' different f
    rcases List.mem_cons.1 member with rfl | older
    · rcases List.mem_cons.1 member' with rfl | older'
      · exact absurd rfl different
      · intro inside new
        rw [alone f new] at inside
        exact outside second older' inside
    · rcases List.mem_cons.1 member' with rfl | older'
      · intro new inside
        rw [alone f new] at inside
        exact outside first older inside
      · exact separate.apart first older second older' different f
  · intro other member
    rcases List.mem_cons.1 member with rfl | older
    · exact kernel
    · exact separate.kernelHalf other older
  · intro f table
    obtain ⟨usedF, others⟩ := separate.kernelTables f table
    refine ⟨usedF, ?_⟩
    intro other member
    rcases List.mem_cons.1 member with rfl | older
    · intro inside
      rw [alone f inside] at table
      exact notTable table
    · exact others other older
  · intro f member
    obtain ⟨usedF, notKernel, others⟩ := separate.data f member
    refine ⟨usedF, notKernel, ?_⟩
    intro other member'
    rcases List.mem_cons.1 member' with rfl | older
    · intro inside
      rw [alone f inside] at member
      exact notData member
    · exact others other older

theorem separate_data {frame : Nat} (separate : Separate s) (used : s.memory.Used frame)
    (notTable : ¬ KernelTable s.memory frame)
    (outside : ∀ pd ∈ s.spaces, ¬ InSpace s.memory pd frame) :
    Separate { s with data := frame :: s.data } where
  zero := separate.zero
  space := separate.space
  apart := separate.apart
  kernelHalf := separate.kernelHalf
  kernelTables := separate.kernelTables
  data := by
    intro f member
    rcases List.mem_cons.1 member with rfl | older
    · exact ⟨used, notTable, outside⟩
    · exact separate.data f older

theorem separate_map {virtualAddr entry : Nat} (separate : Separate s) (member : pd ∈ s.spaces)
    (user : virtualAddr / tableSpan < userEntries)
    (outcome : MapOutcome s.memory pd virtualAddr entry next) :
    Separate { s with memory := next } ∧
      ∀ other ∈ s.spaces, other ≠ pd → next.words other = s.memory.words other := by
  have space := separate.space pd member
  have grows : ∀ f, s.memory.Used f → next.Used f := fun f => map_keeps_used outcome
  have directory := kernel_directory_map outcome
  have plain : ∀ other ∈ s.spaces, other ≠ pd → ∀ f, InSpace s.memory other f →
      Plain s.memory pd f := fun other member' different f inside =>
    plain_of_outside (in_space_used (separate.space other member') inside)
      (separate.apart pd member other member' different f inside)
  have same : ∀ other ∈ s.spaces, other ≠ pd → next.words other = s.memory.words other :=
    fun other member' different =>
      (plain_map space.toTables user outcome (plain other member' different other (.inl rfl))).2
  have kernel : ∀ f, KernelTable next f ↔ KernelTable s.memory f := by
    intro f
    unfold KernelTable
    rw [directory]
  -- a frame in use outside an address space stays outside it
  have stays : ∀ other ∈ s.spaces, ∀ f, s.memory.Used f → ¬ InSpace s.memory other f →
      ¬ InSpace next other f := by
    intro other member' f used outside
    by_cases here : other = pd
    · subst here
      intro inside
      rcases in_space_map space user outcome inside with old | ⟨_, new⟩
      · exact outside old
      · exact new used
    · rw [in_space_frame (same other member' here)]
      exact outside
  refine ⟨?_, same⟩
  constructor
  · exact grows 0 separate.zero
  · intro other member'
    by_cases here : other = pd
    · subst here
      exact space_map space user outcome
    · exact space_frame (separate.space other member') (same other member' here) grows
  · intro first member₁ second member₂ different f inside
    have spaceFirst := separate.space first member₁
    have spaceSecond := separate.space second member₂
    by_cases here : second = pd
    · subst here
      have other : first ≠ second := Ne.symm different
      rw [in_space_frame (same first member₁ other)]
      rcases in_space_map space user outcome inside with old | ⟨_, new⟩
      · exact separate.apart first member₁ second member₂ different f old
      · exact unused_outside spaceFirst new
    · have old := (in_space_frame (same second member₂ here)).1 inside
      exact stays first member₁ f (in_space_used spaceSecond old)
        (separate.apart first member₁ second member₂ different f old)
  · intro other member' i high
    change next.words other i = next.kernelDirectory i
    rw [directory, ← separate.kernelHalf other member' i high]
    by_cases here : other = pd
    · subst here
      rcases directory_after_map space.toTables user outcome with
        unchanged | ⟨_, _, _, _, _, linked, _⟩
      · exact unchanged i
      · rw [linked, if_neg (Nat.ne_of_gt (user.trans_le high))]
    · rw [same other member' here]
  · intro f table
    obtain ⟨used, outside⟩ := separate.kernelTables f ((kernel f).1 table)
    exact ⟨grows f used, fun other member' => stays other member' f used (outside other member')⟩
  · intro f member'
    obtain ⟨used, notTable, outside⟩ := separate.data f member'
    exact ⟨grows f used, (kernel f).not.2 notTable,
      fun other member'' => stays other member'' f used (outside other member'')⟩

end Invariant

section Steps

variable {s s' : Spaces}

theorem user_address {virtualAddr : Nat} (low : virtualAddr < kernelVbase) :
    virtualAddr / tableSpan < userEntries := by
  unfold kernelVbase at low
  unfold tableSpan userEntries
  omega

theorem directory_fill {frame pd : Nat} (separate : Separate s) (clear : ¬ s.memory.Used frame)
    (content : Nat → Nat) (member : pd ∈ s.spaces) :
    ((s.memory.mark frame).fillFrame frame content).words pd = s.memory.words pd := by
  have other : pd ≠ frame := by
    rintro rfl
    exact clear (separate.space _ member).directory
  funext j
  rw [MemoryState.words_fill_frame, if_neg other, MemoryState.words_mark]

theorem separate_fill {frame : Nat} (separate : Separate s) (bound : frame < frameCount)
    (clear : ¬ s.memory.Used frame) (content : Nat → Nat) :
    Separate { s with memory := (s.memory.mark frame).fillFrame frame content } := by
  apply separate_frame separate
  · exact fun f used => (MemoryState.used_mark _ _ bound f).2 (.inl used)
  · rfl
  · exact fun pd member => directory_fill separate clear content member

/-- What a step can do; without a free frame the two allocations change nothing. -/
inductive StepOutcome (s : Spaces) : Action → Spaces → Prop
  | created (frame : Nat) (bound : frame < frameCount) (clear : ¬ s.memory.Used frame) :
      StepOutcome s .createAddressSpace
        ⟨(s.memory.mark frame).fillFrame frame fun i =>
          if i < userEntries then 0 else s.memory.kernelDirectory i, frame :: s.spaces, s.data⟩
  | notCreated : StepOutcome s .createAddressSpace s
  | mapped (pd virtualAddr physicalAddr flags : Nat) (member : pd ∈ s.spaces)
      (low : virtualAddr < kernelVbase) :
      StepOutcome s (.mapUserPage pd virtualAddr physicalAddr flags)
        { s with memory := mapUserPage (pd * frameSize) virtualAddr physicalAddr flags s.memory }
  | handedOut (frame : Nat) (bound : frame < frameCount) (clear : ¬ s.memory.Used frame) :
      StepOutcome s .allocFrame ⟨s.memory.mark frame, s.spaces, frame :: s.data⟩
  | notHandedOut : StepOutcome s .allocFrame s
  | written (frame index value : Nat) (handed : frame ∈ s.data) :
      StepOutcome s (.writeData frame index value)
        { s with memory := s.memory.setWord frame index value }

theorem step_outcome {action : Action} (zero : s.memory.Used 0) (next : step s action = some s') :
    StepOutcome s action s' := by
  cases action with
  | createAddressSpace =>
      rcases create_address_space_cases zero with ⟨frame, positive, bound, clear, _, run⟩ | ⟨_, run⟩
      · obtain ⟨nonzero, number⟩ := frame_address positive
        simp only [step, run, if_neg nonzero, number, Option.some.injEq] at next
        subst next
        exact .created frame bound clear
      · simp only [step, run, if_true, Option.some.injEq] at next
        subst next
        exact .notCreated
  | mapUserPage pd virtualAddr physicalAddr flags =>
      unfold step at next
      dsimp only at next
      split at next
      · next allowed =>
        cases next
        exact .mapped pd virtualAddr physicalAddr flags allowed.1 allowed.2
      · cases next
  | allocFrame =>
      rcases take_frame_cases zero with ⟨frame, positive, bound, clear, _, run⟩ | ⟨_, run⟩
      · obtain ⟨nonzero, number⟩ := frame_address positive
        simp only [step, run, if_neg nonzero, number, Option.some.injEq] at next
        subst next
        exact .handedOut frame bound clear
      · simp only [step, run, if_true, Option.some.injEq] at next
        subst next
        exact .notHandedOut
  | writeData frame index value =>
      unfold step at next
      dsimp only at next
      split at next
      · next handed =>
        cases next
        exact .written frame index value handed
      · cases next

theorem directory_written {frame pd : Nat} (separate : Separate s) (handed : frame ∈ s.data)
    (index value : Nat) (member : pd ∈ s.spaces) :
    (s.memory.setWord frame index value).words pd = s.memory.words pd := by
  obtain ⟨_, _, outside⟩ := separate.data frame handed
  have other : pd ≠ frame := fun same => outside pd member (.inl same.symm)
  funext j
  rw [MemoryState.words_set_word, if_neg fun same => other same.1]

theorem separate_step {action : Action} (separate : Separate s) (next : step s action = some s') :
    Separate s' := by
  cases step_outcome separate.zero next with
  | created frame bound clear =>
      have filled := separate_fill separate bound clear fun i =>
        if i < userEntries then 0 else s.memory.kernelDirectory i
      have notTable : ¬ KernelTable s.memory frame := fun table =>
        clear (separate.kernelTables frame table).1
      apply separate_add filled
      · intro i low
        rw [MemoryState.words_fill_frame, if_pos rfl, if_pos low]
        rfl
      · exact (MemoryState.used_mark _ _ bound frame).2 (.inr rfl)
      · intro i high
        rw [MemoryState.words_fill_frame, if_pos rfl, if_neg (Nat.not_lt.2 high)]
        rfl
      · exact notTable
      · exact fun member => clear (separate.data frame member).1
      · intro other member
        exact (in_space_frame (directory_fill separate clear _ member)).not.2
          (unused_outside (separate.space other member) clear)
  | notCreated => exact separate
  | mapped pd virtualAddr physicalAddr flags member low =>
      exact (separate_map separate member (user_address low)
        (map_user_page_outcome separate.zero pd virtualAddr physicalAddr flags)).1
  | handedOut frame bound clear =>
      have grows : ∀ f, s.memory.Used f → (s.memory.mark frame).Used f := fun f used =>
        (MemoryState.used_mark _ _ bound f).2 (.inl used)
      have marked : Separate { s with memory := s.memory.mark frame } :=
        separate_frame separate grows rfl fun _ _ => rfl
      apply separate_data marked
      · exact (MemoryState.used_mark _ _ bound frame).2 (.inr rfl)
      · exact fun table => clear (separate.kernelTables frame table).1
      · intro pd member
        have outside : ¬ InSpace s.memory pd frame :=
          unused_outside (separate.space pd member) clear
        exact outside
  | notHandedOut => exact separate
  | written frame index value handed =>
      exact separate_frame separate (fun _ used => used) rfl
        fun pd member => directory_written separate handed index value member

end Steps

section Effect

variable {s : Spaces} {next : MemoryState} {pd virtualAddr entry : Nat}

/-- The frames that translate for another address space, or for the kernel, keep their words. -/
theorem foreign_words (separate : Separate s) (member : pd ∈ s.spaces)
    (user : virtualAddr / tableSpan < userEntries)
    (outcome : MapOutcome s.memory pd virtualAddr entry next) {frame : Nat}
    (used : s.memory.Used frame) (outside : ¬ InSpace s.memory pd frame) :
    next.words frame = s.memory.words frame :=
  (plain_map (separate.space pd member).toTables user outcome (plain_of_outside used outside)).2

theorem kernel_table_words (separate : Separate s) (member : pd ∈ s.spaces)
    (user : virtualAddr / tableSpan < userEntries)
    (outcome : MapOutcome s.memory pd virtualAddr entry next) {i : Nat} (high : userEntries ≤ i)
    (here : present (s.memory.kernelDirectory i) = true) :
    next.words (frameOf (s.memory.kernelDirectory i)) =
      s.memory.words (frameOf (s.memory.kernelDirectory i)) := by
  obtain ⟨used, outside⟩ := separate.kernelTables _ ⟨i, high, here, rfl⟩
  exact foreign_words separate member user outcome used (outside pd member)

/-- A directory entry that stayed, over a table that stayed, translates as before. -/
theorem translation_congr {m m' : MemoryState} {directory directory' : Nat → Nat} {a : Nat}
    (entries : directory' (a / tableSpan) = directory (a / tableSpan))
    (tables : present (directory (a / tableSpan)) = true →
      m'.words (frameOf (directory (a / tableSpan))) = m.words (frameOf (directory (a / tableSpan)))) :
    translation m' directory' a = translation m directory a := by
  unfold translation
  dsimp only
  rw [entries]
  split
  · next here => rw [tables here]
  · rfl

theorem kernel_page (a : Nat) : kernelVbase ≤ a ↔ userEntries ≤ a / tableSpan := by
  unfold kernelVbase tableSpan userEntries
  omega

theorem translation_elsewhere (separate : Separate s) (member : pd ∈ s.spaces)
    (user : virtualAddr / tableSpan < userEntries)
    (outcome : MapOutcome s.memory pd virtualAddr entry next) {other : Nat}
    (member' : other ∈ s.spaces) (different : other ≠ pd) (a : Nat) :
    translation next (next.words other) a =
      translation s.memory (s.memory.words other) a := by
  have directory := (separate_map separate member user outcome).2 other member' different
  apply translation_congr
  · rw [directory]
  · intro here
    rcases Nat.lt_or_ge (a / tableSpan) userEntries with low | high
    · have own : InSpace s.memory other (frameOf (s.memory.words other (a / tableSpan))) :=
        .inr ⟨_, low, here, rfl⟩
      exact foreign_words separate member user outcome
        (in_space_used (separate.space other member') own)
        (separate.apart pd member other member' different _ own)
    · rw [separate.kernelHalf other member' _ high] at here ⊢
      exact kernel_table_words separate member user outcome high here

theorem translation_kernel (separate : Separate s) (member : pd ∈ s.spaces)
    (user : virtualAddr / tableSpan < userEntries)
    (outcome : MapOutcome s.memory pd virtualAddr entry next) {a : Nat} (high : kernelVbase ≤ a) :
    translation next next.kernelDirectory a =
      translation s.memory s.memory.kernelDirectory a := by
  apply translation_congr
  · rw [kernel_directory_map outcome]
  · exact kernel_table_words separate member user outcome ((kernel_page a).1 high)

theorem translation_own (separate : Separate s) (member : pd ∈ s.spaces)
    (user : virtualAddr / tableSpan < userEntries)
    (outcome : MapOutcome s.memory pd virtualAddr entry next) {a : Nat}
    (different : a / frameSize ≠ virtualAddr / frameSize) :
    translation next (next.words pd) a = translation s.memory (s.memory.words pd) a := by
  have space := separate.space pd member
  rcases Nat.lt_or_ge (a / tableSpan) userEntries with low | high
  · exact page_entry_map_other space.toTables user outcome low different
  · have after := (separate_map separate member user outcome).1.kernelHalf pd member _ high
    have before := separate.kernelHalf pd member _ high
    dsimp only at after
    rw [kernel_directory_map outcome] at after
    apply translation_congr
    · rw [after, before]
    · rw [before]
      exact kernel_table_words separate member user outcome high

theorem one_page_mapped (separate : Separate s) (member : pd ∈ s.spaces)
    (user : virtualAddr / tableSpan < userEntries)
    (outcome : MapOutcome s.memory pd virtualAddr entry next)
    (served : present (s.memory.words pd (virtualAddr / tableSpan)) = true ∨ ¬ Exhausted s.memory)
    (here : present entry = true) :
    OnePageMapped s.memory next s.spaces pd virtualAddr entry where
  table := by
    have mapped := entry_mapped (separate.space pd member).toTables user outcome served
    have space := (separate_map separate member user outcome).1.space pd member
    apply space.flags _ user
    by_contra absent
    rw [page_entry_absent (Bool.not_eq_true _ ▸ absent)] at mapped
    rw [← mapped] at here
    cases here
  mapped := by
    intro a same
    exact (page_entry_congr same).trans
      (entry_mapped (separate.space pd member).toTables user outcome served)
  others := fun _ => translation_own separate member user outcome
  elsewhere := fun _ member' different =>
    translation_elsewhere separate member user outcome member' different
  kernel := fun _ => translation_kernel separate member user outcome

end Effect

section DirectMap

variable {s s' : Spaces}

structure Direct (s : Spaces) : Prop extends Separate s where
  spacesReached : ∀ pd ∈ s.spaces, ∀ f, InSpace s.memory pd f → f < directFrames
  freeReached : ∀ f, f < frameCount → ¬ s.memory.Used f → f < directFrames

theorem direct_space (direct : Direct s) {pd : Nat} (member : pd ∈ s.spaces) :
    DirectSpace s.memory pd where
  toSpace := direct.space pd member
  directoryReached := direct.spacesReached pd member pd (.inl rfl)
  tablesReached i low here := direct.spacesReached pd member _ (.inr ⟨i, low, here, rfl⟩)
  freeReached := direct.freeReached

theorem at_boot_direct {m : MemoryState} (booted : Booted m) : Direct (atBoot m) where
  toSeparate := at_boot_separate booted
  spacesReached := nofun
  freeReached := booted.direct

theorem frames_after_step {action : Action} (separate : Separate s)
    (next : step s action = some s') :
    (∀ f, s.memory.Used f → s'.memory.Used f) ∧
      ∀ pd ∈ s'.spaces, ∀ f, InSpace s'.memory pd f →
        pd ∈ s.spaces ∧ InSpace s.memory pd f ∨ f < frameCount ∧ ¬ s.memory.Used f := by
  cases step_outcome separate.zero next with
  | created frame bound clear =>
      refine ⟨fun f used => (MemoryState.used_mark _ _ bound f).2 (.inl used), ?_⟩
      intro pd member f inside
      rcases List.mem_cons.1 member with rfl | older
      · rcases inside with rfl | ⟨i, low, here, _⟩
        · exact .inr ⟨bound, clear⟩
        · rw [MemoryState.words_fill_frame, if_pos rfl, if_pos low] at here
          cases here
      · exact .inl ⟨older, (in_space_frame (directory_fill separate clear _ older)).1 inside⟩
  | notCreated => exact ⟨fun _ used => used, fun pd member f inside => .inl ⟨member, inside⟩⟩
  | mapped pd virtualAddr physicalAddr flags own low =>
      have outcome := map_user_page_outcome separate.zero pd virtualAddr physicalAddr flags
      refine ⟨fun f => map_keeps_used outcome, ?_⟩
      intro other member f inside
      by_cases here : other = pd
      · subst here
        rcases in_space_map (separate.space other own) (user_address low) outcome inside with
          old | new
        · exact .inl ⟨member, old⟩
        · exact .inr new
      · have same := (separate_map separate own (user_address low) outcome).2 other member here
        exact .inl ⟨member, (in_space_frame same).1 inside⟩
  | handedOut frame bound clear =>
      refine ⟨fun f used => (MemoryState.used_mark _ _ bound f).2 (.inl used), ?_⟩
      exact fun pd member f inside => .inl ⟨member, inside⟩
  | notHandedOut => exact ⟨fun _ used => used, fun pd member f inside => .inl ⟨member, inside⟩⟩
  | written frame index value handed =>
      refine ⟨fun _ used => used, fun pd member f inside => .inl ⟨member, ?_⟩⟩
      exact (in_space_frame (directory_written separate handed index value member)).1 inside

theorem direct_step {action : Action} (direct : Direct s) (next : step s action = some s') :
    Direct s' := by
  obtain ⟨grows, spaces⟩ := frames_after_step direct.toSeparate next
  refine ⟨separate_step direct.toSeparate next, ?_, ?_⟩
  · intro pd member f inside
    rcases spaces pd member f inside with ⟨older, old⟩ | ⟨bound, clear⟩
    · exact direct.spacesReached pd older f old
    · exact direct.freeReached f bound clear
  · exact fun f bound clear => direct.freeReached f bound fun used => clear (grows f used)

end DirectMap

section Runs

theorem reached_direct {m : MemoryState} (booted : Booted m) {s : Spaces}
    (run : Run step anyAction (atBoot m) s) : Direct s := by
  apply run.invariant Direct (at_boot_direct booted)
  intro t action t' direct _ next
  exact direct_step direct next

theorem reached_separate {m : MemoryState} (booted : Booted m) {s : Spaces}
    (run : Run step anyAction (atBoot m) s) : Separate s := (reached_direct booted run).toSeparate

theorem present_entry (physicalAddr : Nat) {flags : Nat} (odd : flags % 2 = 1) :
    present (makeEntry physicalAddr flags) = true := by
  unfold present makeEntry frameSize
  rw [beq_iff_eq]
  omega

/-- Among any address spaces, `mapUserPage` maps its page and changes no other translation;
when it needs a page table and no frame is free, it changes nothing. -/
theorem map_user_page_changes_one {m : MemoryState} (booted : Booted m) {s : Spaces}
    (run : Run step anyAction (atBoot m) s) {pd virtualAddr : Nat} (physicalAddr : Nat) {flags : Nat}
    (member : pd ∈ s.spaces) (low : virtualAddr < kernelVbase) (odd : flags % 2 = 1) :
    let next := mapUserPage (pd * frameSize) virtualAddr physicalAddr flags s.memory
    let table := present (s.memory.words pd (virtualAddr / tableSpan)) = true
    (table ∨ (takeFrame s.memory).1 ≠ 0 →
        OnePageMapped s.memory next s.spaces pd virtualAddr (makeEntry physicalAddr flags)) ∧
      (¬ table ∧ (takeFrame s.memory).1 = 0 → next = s.memory) := by
  intro next table
  have separate := reached_separate booted run
  have user := user_address low
  have outcome : MapOutcome s.memory pd virtualAddr (makeEntry physicalAddr flags) next :=
    map_user_page_outcome separate.zero pd virtualAddr physicalAddr flags
  have available : (takeFrame s.memory).1 = 0 ↔ Exhausted s.memory := by
    rcases take_frame_cases separate.zero with ⟨frame, positive, bound, clear, _, run⟩ | ⟨full, run⟩
    · rw [run]
      exact iff_of_false (frame_address positive).1 fun full => clear (full frame bound)
    · rw [run]
      exact iff_of_true rfl full
  rw [Ne, available]
  constructor
  · exact fun served =>
      one_page_mapped separate member user outcome served (present_entry physicalAddr odd)
  · rintro ⟨absent, full⟩
    clear_value next
    cases outcome with
    | existing there => exact absurd there absent
    | fresh frame _ _ bound clear _ => exact absurd (full frame bound) clear
    | starved _ _ => rfl

/-- Frames 1 to 7 are free, and the kernel has no page table. -/
def sevenFrames : MemoryState where
  pmm := { construct with bitmap := fun i => if i = 0 then 1#8 else 0xFF#8 }
  words := fun _ _ => 0
  kernelDirectory := fun _ => 0

theorem booted_seven_frames : Booted sevenFrames where
  zeroUsed := rfl
  direct := by
    intro frame _ clear
    by_contra high
    have byte : sevenFrames.pmm.bitmap (frame / 8) = 0xFF#8 := if_neg (by omega)
    exact clear (used_full_byte _ _ byte)
  tables := by
    intro i _ here
    cases here
  supervisor := by
    intro i j _ here
    cases here

theorem second_space_mapped :
    ∃ s, path step (atBoot sevenFrames)
        [.createAddressSpace, .createAddressSpace, .mapUserPage 1 0x400000 0x200000 7] = some s ∧
      OnePageMapped s.memory (mapUserPage (2 * frameSize) 0x400000 0x300000 7 s.memory) s.spaces
        2 0x400000 (makeEntry 0x300000 7) := by
  have reached : (path step (atBoot sevenFrames) [.createAddressSpace, .createAddressSpace,
      .mapUserPage 1 0x400000 0x200000 7]).map (fun s => (s.spaces, (takeFrame s.memory).1)) =
      some ([2, 1], 4 * frameSize) := by decide +kernel
  obtain ⟨s, run, values⟩ := Option.map_eq_some_iff.1 reached
  obtain ⟨spaces, frame⟩ := Prod.mk.inj values
  refine ⟨s, run, ?_⟩
  apply (map_user_page_changes_one booted_seven_frames (run_of_path (fun _ _ _ => trivial) run)
    0x300000 ?_ (by decide) (by decide)).1
  · right
    rw [frame]
    decide
  · rw [spaces]
    decide

end Runs

end CassiOS.Memory.AddressSpaces
