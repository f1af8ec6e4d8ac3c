import CassiOS.Kernel.ElfLoader

/-!
# What loading a program writes

The page tables behind directory entries 768-1023 are shared by all address spaces, and
`mapUserPage` takes any virtual address. Loading a file leaves the kernel's translations
alone exactly when no page of it at or above `KERNEL_VBASE` is reached before the frames
run out; then only user directory entries of the target and new frames are written.
-/

namespace CassiOS.Kernel.LoaderSafety

open CassiOS.Support.Words
open CassiOS.Memory.Physical
open CassiOS.Memory.Paging
open CassiOS.Kernel.ElfLoader

set_option autoImplicit false

section Specification

/-- A page directory in use with the kernel's half in it. -/
def AddressSpace (m : MemoryState) (space : Nat) : Prop :=
  m.Used space ∧ ∀ i, userEntries ≤ i → m.words space i = m.kernelDirectory i

/-- The state differs only in user entries of `pd` and in frames allocated since. -/
def WritesUserSide (before after : MemoryState) (pd : Nat) : Prop :=
  ∀ frame j, after.words frame j ≠ before.words frame j →
    frame = pd ∧ j < userEntries ∨ ¬ before.Used frame ∧ after.Used frame

structure KernelUntouched (before after : MemoryState) (pd : Nat) : Prop where
  kernel : ∀ virtualAddr, kernelVbase ≤ virtualAddr → virtualAddr < 4294967296 →
    translation after after.kernelDirectory virtualAddr =
      translation before before.kernelDirectory virtualAddr
  spaces : ∀ space, AddressSpace before space →
    ∀ virtualAddr, kernelVbase ≤ virtualAddr → virtualAddr < 4294967296 →
      translation after (after.words space) virtualAddr =
        translation before (before.words space) virtualAddr
  writes : WritesUserSide before after pd

/-- Whether mapping pages at these addresses gets to a kernel address while `free` frames
last: a page takes a frame and, where `tables` has none yet, a page table another. -/
def reachesKernel (free : Nat) (tables : Nat → Bool) : List Nat → Bool
  | [] => false
  | virtualAddr :: rest =>
      if free = 0 then false
      else if tables (virtualAddr / tableSpan) then
        decide (kernelVbase ≤ virtualAddr) || reachesKernel (free - 1) tables rest
      else if free = 1 then false
      else
        decide (kernelVbase ≤ virtualAddr) || reachesKernel (free - 2)
          (fun i => decide (i = virtualAddr / tableSpan) || tables i) rest

end Specification

section Target

variable {before m : MemoryState} {pd : Nat}

/-- The new page directory, before anything is mapped in it. -/
structure Target (before : MemoryState) (pd : Nat) : Prop where
  zeroUsed : before.Used 0
  used : before.Used pd
  user : ∀ i, i < userEntries → present (before.words pd i) = false
  kernel : ∀ i, userEntries ≤ i → before.words pd i = before.kernelDirectory i
  tables : ∀ i, userEntries ≤ i → present (before.kernelDirectory i) = true →
    before.Used (frameOf (before.kernelDirectory i)) ∧ frameOf (before.kernelDirectory i) ≠ pd
  supervisor : ∀ i j, userEntries ≤ i → present (before.kernelDirectory i) = true →
    before.words (frameOf (before.kernelDirectory i)) j % 8 ≠ 7

theorem target_of_create (booted : Booted m) {pdPhysical : Nat}
    (created : createAddressSpace m = (pdPhysical, before)) (made : pdPhysical ≠ 0) :
    pdPhysical = pdPhysical / frameSize * frameSize ∧ Target before (pdPhysical / frameSize) := by
  rcases create_address_space_cases booted.zeroUsed with
    ⟨frame, positive, bound, clear, _, run⟩ | ⟨_, run⟩
  · rw [created] at run
    obtain ⟨rfl, rfl⟩ := Prod.mk.inj run
    have number := (frame_address positive).2
    rw [number]
    have tableNew : ∀ i, userEntries ≤ i → present (m.kernelDirectory i) = true →
        frameOf (m.kernelDirectory i) ≠ frame := by
      intro i high table same
      apply clear
      rw [← same]
      exact booted.tables i high table
    refine ⟨rfl, ?_⟩
    constructor
    · exact (MemoryState.used_mark _ _ bound 0).2 (.inl booted.zeroUsed)
    · exact (MemoryState.used_mark _ _ bound frame).2 (.inr rfl)
    · intro i low
      rw [MemoryState.words_fill_frame, if_pos rfl, if_pos low]
      rfl
    · intro i high
      rw [MemoryState.words_fill_frame, if_pos rfl, if_neg (Nat.not_lt.2 high)]
      rfl
    · intro i high table
      exact ⟨(MemoryState.used_mark _ _ bound _).2 (.inl (booted.tables i high table)),
        tableNew i high table⟩
    · intro i j high table
      simp only [MemoryState.directory_fill_frame, MemoryState.directory_mark] at table ⊢
      rw [MemoryState.words_fill_frame, if_neg (tableNew i high table)]
      exact booted.supervisor i j high table
  · rw [created] at run
    exact absurd (Prod.mk.inj run).1 made

end Target

section Invariant

variable {before m : MemoryState} {pd : Nat}

/-- What holds while only user pages have been mapped. -/
structure Kept (before m : MemoryState) (pd : Nat) : Prop where
  grows : ∀ frame, before.Used frame → m.Used frame
  directory : m.kernelDirectory = before.kernelDirectory
  writes : WritesUserSide before m pd
  tables : ∀ i, i < userEntries → present (m.words pd i) = true →
    ¬ before.Used (frameOf (m.words pd i)) ∧ m.Used (frameOf (m.words pd i))

theorem kept_refl (target : Target before pd) : Kept before before pd where
  grows := fun _ used => used
  directory := rfl
  writes := fun _ _ changed => absurd rfl changed
  tables := by
    intro i low table
    rw [target.user i low] at table
    exact absurd table Bool.false_ne_true

theorem kept_words (kept : Kept before m pd) {frame j : Nat} (used : before.Used frame)
    (outside : frame = pd → userEntries ≤ j) : m.words frame j = before.words frame j := by
  by_contra changed
  rcases kept.writes frame j changed with ⟨same, low⟩ | ⟨unused, _⟩
  · exact absurd low (Nat.not_lt.2 (outside same))
  · exact unused used

theorem kept_kernel_entry (target : Target before pd) (kept : Kept before m pd) {i : Nat}
    (high : userEntries ≤ i) : m.words pd i = before.kernelDirectory i := by
  rw [kept_words kept target.used fun _ => high, target.kernel i high]

theorem user_entries_of_kernel {virtualAddr : Nat} (high : kernelVbase ≤ virtualAddr) :
    userEntries ≤ virtualAddr / tableSpan := by
  unfold kernelVbase at high
  unfold userEntries tableSpan
  omega

theorem user_entries_of_user {virtualAddr : Nat} (low : ¬ kernelVbase ≤ virtualAddr) :
    virtualAddr / tableSpan < userEntries := by
  unfold kernelVbase at low
  unfold userEntries tableSpan
  omega

theorem kernel_untouched (target : Target before pd) (kept : Kept before m pd) :
    KernelUntouched before m pd := by
  have tableWords : ∀ i, userEntries ≤ i → present (before.kernelDirectory i) = true → ∀ j,
      m.words (frameOf (before.kernelDirectory i)) j =
        before.words (frameOf (before.kernelDirectory i)) j := by
    intro i high table j
    obtain ⟨used, other⟩ := target.tables i high table
    exact kept_words kept used fun same => absurd same other
  constructor
  · intro virtualAddr high _
    have entry := user_entries_of_kernel high
    unfold translation
    simp only [kept.directory]
    split
    · next table => exact tableWords _ entry table _
    · rfl
  · intro space ⟨used, half⟩ virtualAddr high _
    have entry := user_entries_of_kernel high
    unfold translation
    simp only [kept_words kept used fun _ => entry]
    split
    · next table =>
      rw [half _ entry] at table ⊢
      exact tableWords _ entry table _
    · rfl
  · exact kept.writes

end Invariant

section Steps

variable {before m next : MemoryState} {pd virtualAddr entry frame : Nat} {content : Nat → Nat}

/-- A kernel entry or kernel page-table word that now admits user mode. -/
def Overwritten (before m : MemoryState) (pd : Nat) : Prop :=
  ∃ frame j, before.Used frame ∧ (frame = pd → userEntries ≤ j) ∧
    before.words frame j % 8 ≠ 7 ∧ m.Used frame ∧ m.words frame j % 8 = 7

theorem not_untouched_of_overwritten (overwritten : Overwritten before m pd) :
    ¬ KernelUntouched before m pd := by
  rintro ⟨_, _, writes⟩
  obtain ⟨frame, j, used, outside, was, _, now⟩ := overwritten
  have changed : m.words frame j ≠ before.words frame j := by
    intro same
    rw [same] at now
    exact was now
  rcases writes frame j changed with ⟨same, low⟩ | ⟨unused, _⟩
  · exact absurd low (Nat.not_lt.2 (outside same))
  · exact unused used

theorem map_keeps_entry (outcome : MapOutcome m pd virtualAddr entry next)
    (user : entry % 8 = 7) {f j : Nat} (used : m.Used f) (here : m.words f j % 8 = 7) :
    next.Used f ∧ next.words f j % 8 = 7 := by
  cases outcome with
  | existing table =>
      refine ⟨used, ?_⟩
      rw [MemoryState.words_set_word]
      split
      · exact user
      · exact here
  | fresh table absent positive bound clear before =>
      refine ⟨(MemoryState.used_mark _ _ bound f).2 (.inl used), ?_⟩
      have other : f ≠ table := fun same => clear (same ▸ used)
      rw [MemoryState.words_set_word]
      split
      · exact user
      · rw [MemoryState.words_set_word]
        split
        · exact make_entry_user _
        · rw [MemoryState.words_fill_frame, if_neg other]
          exact here
  | starved absent full => exact ⟨used, here⟩

theorem place_pages_keep_entry (zeroUsed : m.Used 0) (pages : List Page) {f j : Nat}
    (used : m.Used f) (here : m.words f j % 8 = 7) :
    (placePages (pd * frameSize) pages m).2.Used f ∧
      (placePages (pd * frameSize) pages m).2.words f j % 8 = 7 := by
  induction pages generalizing m with
  | nil => exact ⟨used, here⟩
  | cons page rest ih =>
      unfold placePages
      rcases place_page_cases zeroUsed (pd * frameSize) page with
        ⟨frame, _, bound, clear, _, run⟩ | ⟨_, run⟩
      · rw [run]
        have marked : ∀ {f}, m.Used f → (m.mark frame).Used f := fun used =>
          (MemoryState.used_mark _ _ bound _).2 (.inl used)
        have outcome := map_user_page_outcome (marked zeroUsed) pd page.virtualAddr
          (frame * frameSize) userFlags
        obtain ⟨still, kept⟩ := @map_keeps_entry _ _ _ _ _ outcome (make_entry_user _) f j
          (marked used) here
        have zeroNext := (MemoryState.used_fill_frame _ frame page.content 0).2
          (map_keeps_used outcome (marked zeroUsed))
        have filled := MemoryState.words_fill_frame (mapUserPage (pd * frameSize)
          page.virtualAddr (frame * frameSize) userFlags (m.mark frame)) frame page.content f j
        rw [if_neg fun same : f = frame => clear (same ▸ used)] at filled
        rw [← filled] at kept
        exact ih zeroNext still kept
      · rw [run]
        exact ⟨used, here⟩

theorem place_pages_exhausted (zeroUsed : m.Used 0) (full : Exhausted m) (pages : List Page) :
    (placePages (pd * frameSize) pages m).2 = m := by
  cases pages with
  | nil => rfl
  | cons page rest =>
      unfold placePages
      rcases place_page_cases zeroUsed (pd * frameSize) page with
        ⟨frame, _, bound, clear, _, _⟩ | ⟨_, run⟩
      · exact absurd (full frame bound) clear
      · rw [run]

theorem kept_user_page (target : Target before pd) (kept : Kept before m pd)
    (user : present (m.words pd (virtualAddr / tableSpan)) = true ∨ ¬ Exhausted (m.mark frame) →
      ¬ kernelVbase ≤ virtualAddr)
    (bound : frame < frameCount) (clear : ¬ m.Used frame)
    (outcome : MapOutcome (m.mark frame) pd virtualAddr entry next) :
    Kept before (next.fillFrame frame content) pd := by
  have marked : ∀ {f}, m.Used f → (m.mark frame).Used f := fun used =>
    (MemoryState.used_mark _ _ bound _).2 (.inl used)
  have frameUsed : next.Used frame :=
    map_keeps_used outcome ((MemoryState.used_mark _ _ bound _).2 (.inr rfl))
  have pdUsed := kept.grows pd target.used
  have pdOther : pd ≠ frame := fun same => clear (same ▸ pdUsed)
  have frameNew : ¬ before.Used frame := fun used => clear (kept.grows frame used)
  have grows : ∀ f, m.Used f → next.Used f := fun f used => map_keeps_used outcome (marked used)
  have settled : WritesUserSide before m pd → ∀ f j, m.words f j ≠ before.words f j →
      f = pd ∧ j < userEntries ∨ ¬ before.Used f ∧ next.Used f := by
    intro writes f j changed
    rcases writes f j changed with inside | ⟨unused, used⟩
    · exact .inl inside
    · exact .inr ⟨unused, grows f used⟩
  cases outcome with
  | existing table =>
      have low := user_entries_of_user (user (.inl table))
      obtain ⟨tableNew, tableUsed⟩ := kept.tables _ low table
      constructor
      · exact fun f used => grows f (kept.grows f used)
      · exact kept.directory
      · intro f j
        rw [MemoryState.words_fill_frame, MemoryState.words_set_word]
        split
        · next same =>
          rw [same]
          exact fun _ => .inr ⟨frameNew, frameUsed⟩
        · split
          · next same =>
            rw [same.1]
            exact fun _ => .inr ⟨tableNew, grows _ tableUsed⟩
          · exact settled kept.writes f j
      · intro i inside
        have other : pd ≠ frameOf ((m.mark frame).words pd (virtualAddr / tableSpan)) :=
          fun same => tableNew (same ▸ target.used)
        rw [MemoryState.words_fill_frame, if_neg pdOther, MemoryState.words_set_word,
          if_neg fun same => other same.1]
        intro present
        obtain ⟨fresh, used⟩ := kept.tables i inside present
        exact ⟨fresh, grows _ used⟩
  | fresh table absent positive tableBound tableClear lower =>
      have low := user_entries_of_user (user (.inr fun full => tableClear (full table tableBound)))
      have tableNew : ¬ before.Used table := fun used => tableClear (marked (kept.grows _ used))
      have tableUsed := (MemoryState.used_mark (m.mark frame) table tableBound table).2 (.inr rfl)
      have other : pd ≠ table := fun same => tableNew (same ▸ target.used)
      constructor
      · exact fun f used => grows f (kept.grows f used)
      · exact kept.directory
      · intro f j
        rw [MemoryState.words_fill_frame, MemoryState.words_set_word, MemoryState.words_set_word,
          MemoryState.words_fill_frame]
        split
        · next same =>
          rw [same]
          exact fun _ => .inr ⟨frameNew, frameUsed⟩
        · split
          · next same =>
            rw [same.1]
            exact fun _ => .inr ⟨tableNew, tableUsed⟩
          · split
            · next same =>
              rw [same.1, same.2]
              exact fun _ => .inl ⟨rfl, low⟩
            · split
              · next same =>
                rw [same]
                exact fun _ => .inr ⟨tableNew, tableUsed⟩
              · exact settled kept.writes f j
      · intro i inside
        rw [MemoryState.words_fill_frame, if_neg pdOther, MemoryState.words_set_word,
          if_neg fun same => other same.1, MemoryState.words_set_word]
        split
        · intro _
          rw [frame_of_make_entry, (frame_address positive).2]
          exact ⟨tableNew, tableUsed⟩
        · rw [MemoryState.words_fill_frame, if_neg other]
          intro present
          obtain ⟨fresh, used⟩ := kept.tables i inside present
          exact ⟨fresh, grows _ used⟩
  | starved absent full =>
      constructor
      · exact fun f used => grows f (kept.grows f used)
      · exact kept.directory
      · intro f j
        rw [MemoryState.words_fill_frame]
        split
        · next same =>
          rw [same]
          exact fun _ => .inr ⟨frameNew, frameUsed⟩
        · exact settled kept.writes f j
      · intro i inside
        rw [MemoryState.words_fill_frame, if_neg pdOther]
        intro present
        obtain ⟨fresh, used⟩ := kept.tables i inside present
        exact ⟨fresh, grows _ used⟩

theorem overwritten_kernel_page (target : Target before pd) (kept : Kept before m pd)
    (kernel : kernelVbase ≤ virtualAddr) (bound : frame < frameCount) (clear : ¬ m.Used frame)
    (user : entry % 8 = 7) (outcome : MapOutcome (m.mark frame) pd virtualAddr entry next)
    (mapped : present (m.words pd (virtualAddr / tableSpan)) = true ∨ ¬ Exhausted (m.mark frame)) :
    Overwritten before (next.fillFrame frame content) pd := by
  have high := user_entries_of_kernel kernel
  have marked : ∀ {f}, m.Used f → (m.mark frame).Used f := fun used =>
    (MemoryState.used_mark _ _ bound _).2 (.inl used)
  have pdUsed := kept.grows pd target.used
  have pdOther : pd ≠ frame := fun same => clear (same ▸ pdUsed)
  have same := kept_kernel_entry target kept high
  cases outcome with
  | existing table =>
      rw [MemoryState.words_mark, same] at table ⊢
      obtain ⟨used, other⟩ := target.tables _ high table
      have notFrame : frameOf (before.kernelDirectory (virtualAddr / tableSpan)) ≠ frame :=
        fun same => clear (same ▸ kept.grows _ used)
      refine ⟨_, virtualAddr / frameSize % 1024, used, fun same => absurd same other,
        target.supervisor _ _ high table, marked (kept.grows _ used), ?_⟩
      rw [MemoryState.words_fill_frame, if_neg notFrame, MemoryState.words_set_word,
        if_pos ⟨rfl, rfl⟩]
      exact user
  | fresh table absent positive tableBound tableClear lower =>
      have other : pd ≠ table := fun same => tableClear (same ▸ marked pdUsed)
      refine ⟨pd, virtualAddr / tableSpan, target.used, fun _ => high, ?_,
        (MemoryState.used_mark _ _ tableBound pd).2 (.inl (marked pdUsed)), ?_⟩
      · rw [target.kernel _ high, ← same]
        intro low
        unfold present at absent
        rw [MemoryState.words_mark, beq_eq_false_iff_ne] at absent
        omega
      · rw [MemoryState.words_fill_frame, if_neg pdOther, MemoryState.words_set_word,
          if_neg fun same => other same.1, MemoryState.words_set_word, if_pos ⟨rfl, rfl⟩]
        exact make_entry_user _
  | starved absent full =>
      rcases mapped with table | notFull
      · rw [MemoryState.words_mark, table] at absent
        exact absurd absent Bool.noConfusion
      · exact absurd full notFull

/-- A page that finds a table or a second frame is mapped, any other ends the loading. -/
theorem place_pages_cases (pd : Nat) (zeroUsed : m.Used 0) (page : Page) (rest : List Page) :
    (Exhausted m ∧ (placePages (pd * frameSize) (page :: rest) m).2 = m) ∨
      ∃ frame next, frame < frameCount ∧ ¬ m.Used frame ∧
        MapOutcome (m.mark frame) pd page.virtualAddr (makeEntry (frame * frameSize) userFlags)
          next ∧
        placePages (pd * frameSize) (page :: rest) m =
          placePages (pd * frameSize) rest (next.fillFrame frame page.content) := by
  rcases place_page_cases zeroUsed (pd * frameSize) page with
    ⟨frame, _, bound, clear, _, run⟩ | ⟨full, run⟩
  · right
    have zeroNext := (MemoryState.used_mark _ _ bound 0).2 (.inl zeroUsed)
    have outcome := map_user_page_outcome zeroNext pd page.virtualAddr (frame * frameSize) userFlags
    refine ⟨frame, _, bound, clear, outcome, ?_⟩
    rw [placePages, run]
  · left
    refine ⟨full, ?_⟩
    rw [placePages, run]

/-- What placing a page does to the count of free frames and to the tables of `pd`. -/
theorem place_budget (content : Nat → Nat) (bound : frame < frameCount) (clear : ¬ m.Used frame)
    (outcome : MapOutcome (m.mark frame) pd virtualAddr entry next) (pdUsed : m.Used pd)
    (other : present (m.words pd (virtualAddr / tableSpan)) = true →
      pd ≠ frameOf (m.words pd (virtualAddr / tableSpan))) :
    (present (m.words pd (virtualAddr / tableSpan)) = true ∧
        getFreeFrames next.pmm = getFreeFrames m.pmm - 1 ∧
        ∀ i, present ((next.fillFrame frame content).words pd i) = present (m.words pd i)) ∨
      (present (m.words pd (virtualAddr / tableSpan)) = false ∧ getFreeFrames m.pmm ≠ 1 ∧
        getFreeFrames next.pmm = getFreeFrames m.pmm - 2 ∧
        ¬ Exhausted (m.mark frame) ∧
        ∀ i, present ((next.fillFrame frame content).words pd i) =
          (decide (i = virtualAddr / tableSpan) || present (m.words pd i))) ∨
      (present (m.words pd (virtualAddr / tableSpan)) = false ∧ getFreeFrames m.pmm = 1 ∧
        Exhausted next) := by
  have taken := free_frames_mark bound clear
  have pdOther : pd ≠ frame := fun same => clear (same ▸ pdUsed)
  have filled : ∀ i, (next.fillFrame frame content).words pd i = next.words pd i := by
    intro i
    rw [MemoryState.words_fill_frame, if_neg pdOther]
  have pdMarked := (MemoryState.used_mark _ _ bound pd).2 (.inl pdUsed)
  simp only [filled]
  rcases map_budget outcome pdMarked other with
    ⟨table, free, tables⟩ | ⟨absent, some, free, tables⟩ | ⟨absent, none, rfl⟩
  · exact .inl ⟨table, by omega, tables⟩
  · refine .inr (.inl ⟨absent, by omega, by omega, ?_, tables⟩)
    intro full
    exact some (exhausted_iff.1 full)
  · exact .inr (.inr ⟨absent, by omega, exhausted_iff.2 none⟩)

theorem place_pages_keep_used (zeroUsed : m.Used 0) (pages : List Page) {f : Nat}
    (used : m.Used f) : (placePages (pd * frameSize) pages m).2.Used f := by
  induction pages generalizing m with
  | nil => exact used
  | cons page rest ih =>
      rcases place_pages_cases pd zeroUsed page rest with
        ⟨_, run⟩ | ⟨frame, next, bound, _, outcome, run⟩
      · rw [run]
        exact used
      · rw [run]
        have kept : ∀ {f}, m.Used f → (next.fillFrame frame page.content).Used f := fun used =>
          map_keeps_used outcome ((MemoryState.used_mark _ _ bound _).2 (.inl used))
        exact ih (kept zeroUsed) (kept used)

end Steps

section Run

variable {before m : MemoryState} {pd : Nat}

theorem own_table_of_kept (target : Target before pd) (kept : Kept before m pd) (i : Nat)
    (table : present (m.words pd i) = true) : pd ≠ frameOf (m.words pd i) := by
  rcases Nat.lt_or_ge i userEntries with low | high
  · intro same
    exact (kept.tables i low table).1 (same ▸ target.used)
  · rw [kept_kernel_entry target kept high] at table ⊢
    exact (target.tables i high table).2.symm

theorem place_pages_reach (target : Target before pd) (kept : Kept before m pd) (pages : List Page)
    (tables : Nat → Bool) (same : ∀ i, tables i = present (m.words pd i)) :
    (reachesKernel (getFreeFrames m.pmm) tables (pages.map Page.virtualAddr) = false →
        Kept before (placePages (pd * frameSize) pages m).2 pd) ∧
      (reachesKernel (getFreeFrames m.pmm) tables (pages.map Page.virtualAddr) = true →
        Overwritten before (placePages (pd * frameSize) pages m).2 pd) := by
  induction pages generalizing m tables with
  | nil => exact ⟨fun _ => kept, fun reached => absurd reached Bool.false_ne_true⟩
  | cons page rest ih =>
      have zeroUsed := kept.grows 0 target.zeroUsed
      have pdUsed := kept.grows pd target.used
      rw [List.map_cons, reachesKernel]
      rcases place_pages_cases pd zeroUsed page rest with
        ⟨full, run⟩ | ⟨frame, next, bound, clear, outcome, run⟩
      · rw [run, if_pos (exhausted_iff.1 full)]
        exact ⟨fun _ => kept, fun reached => absurd reached Bool.false_ne_true⟩
      · have available : getFreeFrames m.pmm ≠ 0 := by
          rw [free_frames_mark bound clear]
          omega
        have zeroNext := (MemoryState.used_fill_frame next frame page.content 0).2
          (map_keeps_used outcome ((MemoryState.used_mark _ _ bound 0).2 (.inl zeroUsed)))
        have persist : Overwritten before (next.fillFrame frame page.content) pd →
            Overwritten before (placePages (pd * frameSize) rest
              (next.fillFrame frame page.content)).2 pd := by
          rintro ⟨f, j, used, outside, was, now, entry⟩
          exact ⟨f, j, used, outside, was, place_pages_keep_entry zeroNext rest now entry⟩
        rw [run, if_neg available, same]
        rcases place_budget page.content bound clear outcome pdUsed
            (own_table_of_kept target kept _) with
          ⟨table, free, after⟩ | ⟨absent, one, free, notFull, after⟩ | ⟨absent, one, full⟩
        · rw [if_pos table]
          by_cases kernel : kernelVbase ≤ page.virtualAddr
          · rw [decide_eq_true kernel, Bool.true_or]
            refine ⟨fun impossible => absurd impossible Bool.noConfusion, fun _ => persist ?_⟩
            exact overwritten_kernel_page target kept kernel bound clear (make_entry_user _) outcome
              (.inl table)
          · rw [decide_eq_false kernel, Bool.false_or, ← free]
            apply ih (kept_user_page target kept (fun _ => kernel) bound clear outcome) tables
            intro i
            rw [after, same]
        · rw [if_neg fun table => absurd (absent.symm.trans table) Bool.noConfusion, if_neg one]
          by_cases kernel : kernelVbase ≤ page.virtualAddr
          · rw [decide_eq_true kernel, Bool.true_or]
            refine ⟨fun impossible => absurd impossible Bool.noConfusion, fun _ => persist ?_⟩
            exact overwritten_kernel_page target kept kernel bound clear (make_entry_user _) outcome
              (.inr notFull)
          · rw [decide_eq_false kernel, Bool.false_or, ← free]
            apply ih (kept_user_page target kept (fun _ => kernel) bound clear outcome)
            intro i
            rw [after, same]
        · rw [if_neg fun table => absurd (absent.symm.trans table) Bool.noConfusion, if_pos one]
          have starved : ¬ (present (m.words pd (page.virtualAddr / tableSpan)) = true ∨
              ¬ Exhausted (m.mark frame)) := by
            have none : getFreeFrames (m.mark frame).pmm = 0 := by
              have taken := free_frames_mark bound clear
              omega
            rintro (table | notFull)
            · exact absurd (absent.symm.trans table) Bool.noConfusion
            · exact notFull (exhausted_iff.2 none)
          rw [place_pages_exhausted zeroNext full]
          exact ⟨fun _ => kept_user_page target kept (fun mapped => absurd mapped starved) bound
            clear outcome, fun reached => absurd reached Bool.false_ne_true⟩

/-- The directory entries that have a page table when loading starts. -/
def kernelTables (m : MemoryState) (i : Nat) : Bool :=
  decide (userEntries ≤ i) && present (m.kernelDirectory i)

variable {pdPhysical : Nat} (elfData : Nat → UInt8) (elfSize : Nat)

theorem load_reach (booted : Booted m) (created : createAddressSpace m = (pdPhysical, before))
    (made : pdPhysical ≠ 0) :
    (reachesKernel (getFreeFrames before.pmm) (kernelTables before)
        ((elfPages elfData elfSize).map Page.virtualAddr) = false →
        KernelUntouched before (load elfData elfSize pdPhysical before).2
          (pdPhysical / frameSize)) ∧
      (reachesKernel (getFreeFrames before.pmm) (kernelTables before)
        ((elfPages elfData elfSize).map Page.virtualAddr) = true →
        ¬ KernelUntouched before (load elfData elfSize pdPhysical before).2
          (pdPhysical / frameSize)) := by
  obtain ⟨address, target⟩ := target_of_create booted created made
  have tables : ∀ i, kernelTables before i =
      present (before.words (pdPhysical / frameSize) i) := by
    intro i
    unfold kernelTables
    rcases Nat.lt_or_ge i userEntries with low | high
    · rw [target.user i low, decide_eq_false (Nat.not_le.2 low), Bool.false_and]
    · rw [target.kernel i high, decide_eq_true high, Bool.true_and]
  obtain ⟨keeps, overwrites⟩ := place_pages_reach target (kept_refl target)
    (elfPages elfData elfSize) (kernelTables before) tables
  rw [(load_pages pdPhysical before).1]
  rw [← address] at keeps overwrites
  exact ⟨fun safe => kernel_untouched target (keeps safe),
    fun reached => not_untouched_of_overwritten (overwrites reached)⟩

/-- Loading any file into a new address space leaves the kernel's translations alone
exactly when it gets to none of its pages at or above `KERNEL_VBASE`. -/
theorem load_leaves_kernel_iff (booted : Booted m)
    (created : createAddressSpace m = (pdPhysical, before)) (made : pdPhysical ≠ 0) :
    KernelUntouched before (load elfData elfSize pdPhysical before).2 (pdPhysical / frameSize) ↔
      reachesKernel (getFreeFrames before.pmm) (kernelTables before)
        ((elfPages elfData elfSize).map Page.virtualAddr) = false := by
  obtain ⟨keeps, overwrites⟩ := load_reach elfData elfSize booted created made
  constructor
  · intro untouched
    by_contra reached
    exact overwrites ((Bool.not_eq_false _).mp reached) untouched
  · exact keeps

end Run

section Examples

/-- Frames 256 to 263 are free, all others in use; frame 1 is the kernel's page table. -/
def smallMachine : MemoryState where
  pmm := { construct with bitmap := fun i => if i = 32 then 0 else 255 }
  words := fun frame j => if frame = 1 then j * frameSize + 3 else 0
  kernelDirectory := fun i => if i = userEntries then frameSize + 3 else 0

/-- An executable with one page, whose address has the given highest byte. -/
def onePageImage (top : UInt8) : Nat → UInt8
  | 0 => 0x7F
  | 1 => 0x45
  | 2 => 0x4C
  | 3 => 0x46
  | 4 => 1
  | 16 => 2
  | 18 => 3
  | 28 => 52
  | 42 => 32
  | 44 => 1
  | 52 => 1
  | 63 => top
  | 72 => 1
  | _ => 0

theorem used_small_machine {frame : Nat} (other : frame / 8 ≠ 32) : smallMachine.Used frame := by
  have byte : smallMachine.pmm.bitmap (frame / 8) = 255 := if_neg other
  have bits : ∀ bit, bit < 8 → bitSet (255 : BitVec 8) bit = true := by decide
  unfold MemoryState.Used Used
  rw [byte]
  exact bits _ (Nat.mod_lt _ (by decide))

theorem clear_small_machine : ∀ frame, 256 ≤ frame → frame < 264 → ¬ smallMachine.Used frame := by
  intro frame low high
  have byte : smallMachine.pmm.bitmap (frame / 8) = 0 := if_pos (by omega)
  have bits : ∀ bit, bit < 8 → bitSet (0 : BitVec 8) bit = false := by decide
  unfold MemoryState.Used Used
  rw [byte, bits _ (Nat.mod_lt _ (by decide))]
  exact Bool.false_ne_true

theorem booted_small_machine : Booted smallMachine where
  zeroUsed := used_small_machine (by decide)
  direct := by
    intro frame _ clear
    by_contra high
    exact clear (used_small_machine (by omega))
  tables := by
    intro i _ table
    have entry : i = userEntries := by
      by_contra other
      rw [show smallMachine.kernelDirectory i = 0 from if_neg other] at table
      exact absurd table (by decide)
    rw [entry]
    exact used_small_machine (by decide)
  supervisor := by
    intro i j _ _
    have word : smallMachine.words (frameOf (smallMachine.kernelDirectory i)) j =
        if frameOf (smallMachine.kernelDirectory i) = 1 then j * frameSize + 3 else 0 := rfl
    rw [word]
    unfold frameSize
    split <;> omega

theorem create_on_small_machine :
    ∃ before, createAddressSpace smallMachine = (256 * frameSize, before) ∧
      getFreeFrames before.pmm ≠ 0 ∧
      before.kernelDirectory = smallMachine.kernelDirectory := by
  rcases create_address_space_cases booted_small_machine.zeroUsed with
    ⟨frame, _, bound, clear, lower, run⟩ | ⟨full, _⟩
  · have here : frame = 256 := by
      by_contra other
      rcases Nat.lt_or_ge frame 256 with small | large
      · exact clear (used_small_machine (by omega))
      · exact clear_small_machine 256 (by decide) (by decide) (lower 256 (by omega))
    subst here
    refine ⟨_, run, ?_, rfl⟩
    intro none
    have next := exhausted_iff.2 none 257 (by decide)
    rw [MemoryState.used_fill_frame, MemoryState.used_mark _ _ bound] at next
    rcases next with already | same
    · exact clear_small_machine 257 (by decide) (by decide) already
    · exact absurd same (by decide)
  · exact absurd (full 256 (by decide)) (clear_small_machine 256 (by decide) (by decide))

theorem one_page_address :
    (elfPages (onePageImage 0xC0) 84).map Page.virtualAddr = [0xC0000000] ∧
      (elfPages (onePageImage 0x08) 84).map Page.virtualAddr = [0x08000000] := by
  decide +kernel

/-- A file with one page at `0x08000000`. -/
theorem user_page_leaves_kernel : ∃ before,
    createAddressSpace smallMachine = (256 * frameSize, before) ∧
      KernelUntouched before (load (onePageImage 0x08) 84 (256 * frameSize) before).2 256 := by
  obtain ⟨before, created, _, _⟩ := create_on_small_machine
  refine ⟨before, created, ?_⟩
  apply (load_leaves_kernel_iff (onePageImage 0x08) 84 booted_small_machine created
    (by decide)).2
  rw [one_page_address.2]
  unfold reachesKernel reachesKernel
  have user : decide (kernelVbase ≤ 0x08000000) = false := by decide
  rw [user]
  simp only [Bool.false_or, ite_self]

/-- A file with one page at `KERNEL_VBASE`. -/
theorem kernel_page_reaches_kernel : ∃ before, Booted smallMachine ∧
    createAddressSpace smallMachine = (256 * frameSize, before) ∧
      ¬ KernelUntouched before (load (onePageImage 0xC0) 84 (256 * frameSize) before).2 256 := by
  obtain ⟨before, created, free, directory⟩ := create_on_small_machine
  refine ⟨before, booted_small_machine, created, ?_⟩
  apply (load_reach (onePageImage 0xC0) 84 booted_small_machine created (by decide)).2
  rw [one_page_address.1]
  unfold reachesKernel
  have table : kernelTables before (0xC0000000 / tableSpan) = true := by
    unfold kernelTables
    rw [directory]
    decide
  have kernel : decide (kernelVbase ≤ 0xC0000000) = true := by decide
  rw [if_neg free, if_pos table, kernel, Bool.true_or]

end Examples

end CassiOS.Kernel.LoaderSafety
