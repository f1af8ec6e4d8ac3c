import CassiOS.Memory.Ownership

/-!
# Building an address space beside others

Whatever is mapped in a new page directory, only frames that were free and the kernel's
own page tables are written, and every frame the walk of the directory finds was free.
-/

namespace CassiOS.Memory.NewSpace

open CassiOS.Memory.Physical
open CassiOS.Memory.Paging
open CassiOS.Memory.Ownership

set_option autoImplicit false

/-- A page table of the kernel's half. -/
def KernelTable (m : MemoryState) (frame : Nat) : Prop :=
  ∃ i, userEntries ≤ i ∧ present (m.kernelDirectory i) = true ∧
    frameOf (m.kernelDirectory i) = frame

/-- Frame `frame` was allocated between the two states. -/
structure New (before m : MemoryState) (frame : Nat) : Prop where
  bound : frame < frameCount
  unused : ¬ before.Used frame
  used : m.Used frame

/-- The frames in use stay, and so do their words, the kernel's page tables apart. -/
structure Frames (before m : MemoryState) : Prop where
  grows : ∀ frame, before.Used frame → m.Used frame
  directory : m.kernelDirectory = before.kernelDirectory
  writes : ∀ frame j, m.words frame j ≠ before.words frame j →
    ¬ before.Used frame ∨ KernelTable before frame

structure Extends (before m : MemoryState) (pd : Nat) : Prop extends Frames before m where
  own : New before m pd
  tables : ∀ i, present (m.words pd i) = true → frameOf (m.words pd i) ≠ pd ∧
    (New before m (frameOf (m.words pd i)) ∨
      userEntries ≤ i ∧ KernelTable before (frameOf (m.words pd i)))
  pages : ∀ table, Table m pd table → ∀ j, present (m.words table j) = true →
    New before m (frameOf (m.words table j))

section Rules

variable {before m next : MemoryState} {pd virtualAddr entry frame : Nat}

theorem New.mono (new : New before m frame) (grows : ∀ f, m.Used f → next.Used f) :
    New before next frame := ⟨new.bound, new.unused, grows _ new.used⟩

theorem Extends.table_new (extension : Extends before m pd) {table : Nat}
    (own : Table m pd table) : New before m table := by
  obtain ⟨i, low, here, rfl⟩ := own
  rcases (extension.tables i here).2 with new | ⟨high, _⟩
  · exact new
  · exact absurd low (Nat.not_lt.2 high)

theorem Extends.table_kind (extension : Extends before m pd)
    (grows : ∀ f, m.Used f → next.Used f) {i : Nat} (here : present (m.words pd i) = true) :
    frameOf (m.words pd i) ≠ pd ∧ (New before next (frameOf (m.words pd i)) ∨
      userEntries ≤ i ∧ KernelTable before (frameOf (m.words pd i))) := by
  obtain ⟨other, new | kernel⟩ := extension.tables i here
  · exact ⟨other, .inl (new.mono grows)⟩
  · exact ⟨other, .inr kernel⟩

theorem frames_refl (m : MemoryState) : Frames m m :=
  ⟨fun _ used => used, rfl, fun _ _ changed => absurd rfl changed⟩

theorem extends_take (extension : Extends before m pd) (bound : frame < frameCount) :
    Extends before (m.mark frame) pd := by
  have grows : ∀ f, m.Used f → (m.mark frame).Used f := fun f used =>
    (MemoryState.used_mark _ _ bound f).2 (.inl used)
  constructor
  · exact ⟨fun f used => grows f (extension.grows f used), extension.directory, extension.writes⟩
  · exact extension.own.mono grows
  · exact fun i => extension.table_kind grows
  · intro table own j here
    exact (extension.pages table own j here).mono grows

theorem extends_fill (extension : Extends before m pd) (content : Nat → Nat)
    (unused : ¬ before.Used frame) (other : frame ≠ pd)
    (notTable : ∀ table, Table m pd table → table ≠ frame) :
    Extends before (m.fillFrame frame content) pd := by
  have directory : ∀ i, (m.fillFrame frame content).words pd i = m.words pd i := by
    intro i
    rw [MemoryState.words_fill_frame, if_neg other.symm]
  have grows : ∀ f, m.Used f → (m.fillFrame frame content).Used f := fun _ used => used
  have tables : ∀ table, Table (m.fillFrame frame content) pd table → Table m pd table := by
    rintro table ⟨i, low, here, rfl⟩
    rw [directory] at here ⊢
    exact ⟨i, low, here, rfl⟩
  constructor
  · refine ⟨extension.grows, extension.directory, ?_⟩
    intro f j
    rw [MemoryState.words_fill_frame]
    split
    · next same =>
      rw [same]
      exact fun _ => .inl unused
    · exact extension.writes f j
  · exact extension.own.mono grows
  · intro i
    rw [directory]
    exact extension.table_kind grows
  · intro table own j
    have old := tables table own
    rw [MemoryState.words_fill_frame, if_neg (notTable table old)]
    exact fun here => (extension.pages table old j here).mono grows

theorem extends_map (extension : Extends before m pd)
    (outcome : MapOutcome m pd virtualAddr entry next) (page : New before m (frameOf entry)) :
    Extends before next pd := by
  have grows : ∀ f, m.Used f → next.Used f := fun f => map_keeps_used outcome
  cases outcome with
  | existing table =>
      obtain ⟨other, kind⟩ := extension.tables _ table
      have directory : ∀ i, (m.setWord (frameOf (m.words pd (virtualAddr / tableSpan)))
          (virtualAddr / frameSize % 1024) entry).words pd i = m.words pd i := by
        intro i
        rw [MemoryState.words_set_word, if_neg fun same => other same.1.symm]
      constructor
      · refine ⟨fun f used => grows f (extension.grows f used), extension.directory, ?_⟩
        intro f j
        rw [MemoryState.words_set_word]
        split
        · next same =>
          rw [same.1]
          rcases kind with new | ⟨_, kernel⟩
          · exact fun _ => .inl new.unused
          · exact fun _ => .inr kernel
        · exact extension.writes f j
      · exact extension.own.mono grows
      · intro i
        rw [directory]
        exact extension.table_kind grows
      · rintro t ⟨i, low, here, rfl⟩ j
        rw [directory] at here ⊢
        rw [MemoryState.words_set_word]
        split
        · exact fun _ => page.mono grows
        · exact fun shown => (extension.pages _ ⟨i, low, here, rfl⟩ j shown).mono grows
  | fresh table absent positive bound clear lower =>
      have number := (frame_address positive).2
      have tableNew : New before ((((m.mark table).fillFrame table fun _ => 0).setWord pd
          (virtualAddr / tableSpan) (makeEntry (table * frameSize) userFlags)).setWord table
            (virtualAddr / frameSize % 1024) entry) table :=
        ⟨bound, fun used => clear (extension.grows _ used),
          (MemoryState.used_mark _ _ bound table).2 (.inr rfl)⟩
      have other : pd ≠ table := fun same => clear (same ▸ extension.own.used)
      have entries : ∀ i, ((((m.mark table).fillFrame table fun _ => 0).setWord pd
          (virtualAddr / tableSpan) (makeEntry (table * frameSize) userFlags)).setWord table
            (virtualAddr / frameSize % 1024) entry).words pd i =
          if i = virtualAddr / tableSpan then makeEntry (table * frameSize) userFlags
          else m.words pd i := by
        intro i
        rw [MemoryState.words_set_word, if_neg fun same => other same.1,
          MemoryState.words_set_word]
        by_cases here : i = virtualAddr / tableSpan
        · rw [if_pos ⟨rfl, here⟩, if_pos here]
        · rw [if_neg fun same => here same.2, if_neg here, MemoryState.words_fill_frame,
            if_neg other, MemoryState.words_mark]
      constructor
      · refine ⟨fun f used => grows f (extension.grows f used), extension.directory, ?_⟩
        intro f j
        rw [MemoryState.words_set_word, MemoryState.words_set_word, MemoryState.words_fill_frame]
        split
        · next same =>
          rw [same.1]
          exact fun _ => .inl tableNew.unused
        · split
          · next same =>
            rw [same.1]
            exact fun _ => .inl extension.own.unused
          · split
            · next same =>
              rw [same]
              exact fun _ => .inl tableNew.unused
            · exact extension.writes f j
      · exact extension.own.mono grows
      · intro i
        rw [entries]
        split
        · rw [frame_of_make_entry, number]
          exact fun _ => ⟨other.symm, .inl tableNew⟩
        · exact extension.table_kind grows
      · rintro t ⟨i, low, here, rfl⟩ j
        rw [entries] at here ⊢
        split at here
        · next same =>
          rw [if_pos same, frame_of_make_entry, number, MemoryState.words_set_word]
          split
          · exact fun _ => page.mono grows
          · rw [MemoryState.words_set_word, if_neg fun same => other same.1.symm,
              MemoryState.words_fill_frame, if_pos rfl]
            exact fun impossible => absurd impossible (by decide)
        · next different =>
          rw [if_neg different]
          have own : Table m pd (frameOf (m.words pd i)) := ⟨i, low, here, rfl⟩
          have apart : frameOf (m.words pd i) ≠ table := fun same =>
            clear (same ▸ (extension.table_new own).used)
          rw [MemoryState.words_set_word, if_neg fun same => apart same.1,
            MemoryState.words_set_word, if_neg fun same => (extension.tables i here).1 same.1,
            MemoryState.words_fill_frame, if_neg apart, MemoryState.words_mark]
          intro shown
          exact (extension.pages _ own j shown).mono grows
  | starved absent full => exact extension

theorem not_table_after_map (extension : Extends before m pd)
    (outcome : MapOutcome m pd virtualAddr entry next) (used : m.Used frame)
    (notTable : ∀ table, Table m pd table → table ≠ frame) :
    ∀ table, Table next pd table → table ≠ frame := by
  rintro table ⟨i, low, here, rfl⟩
  cases outcome with
  | existing behind =>
      have other := (extension.tables _ behind).1
      rw [MemoryState.words_set_word, if_neg fun same => other same.1.symm] at here ⊢
      exact notTable _ ⟨i, low, here, rfl⟩
  | fresh new absent positive bound clear lower =>
      have other : pd ≠ new := fun same => clear (same ▸ extension.own.used)
      rw [MemoryState.words_set_word, if_neg fun same => other same.1, MemoryState.words_set_word]
        at here ⊢
      split at here
      · next same =>
        rw [if_pos same, frame_of_make_entry, (frame_address positive).2]
        rintro rfl
        exact clear used
      · next different =>
        rw [MemoryState.words_fill_frame, if_neg other, MemoryState.words_mark] at here
        rw [if_neg different, MemoryState.words_fill_frame, if_neg other, MemoryState.words_mark]
        exact notTable _ ⟨i, low, here, rfl⟩
  | starved absent full => exact notTable _ ⟨i, low, here, rfl⟩

/-- Everything the walk of the directory finds was allocated since `before`. -/
theorem Extends.found (extension : Extends before m pd) {address : Nat}
    (member : address ∈ spaceFrames m (pd * frameSize)) :
    ∃ frame, address = frame * frameSize ∧ New before m frame := by
  rw [space_frames_eq, List.mem_append] at member
  rcases member with inside | last
  · obtain ⟨i, low, found⟩ := List.mem_flatMap.1 inside
    cases here : present (m.words pd i) with
    | false =>
        rw [entry_frames_absent here] at found
        exact absurd found List.not_mem_nil
    | true =>
        have own : Table m pd (frameOf (m.words pd i)) := ⟨i, List.mem_range.1 low, here, rfl⟩
        rw [entry_frames_present here, List.mem_append] at found
        rcases found with page | table
        · obtain ⟨j, _, shown⟩ := List.mem_flatMap.1 page
          unfold pageFrame at shown
          dsimp only at shown
          split at shown
          · next freed =>
            exact ⟨_, List.mem_singleton.1 shown, extension.pages _ own j freed.1⟩
          · exact absurd shown List.not_mem_nil
        · exact ⟨_, List.mem_singleton.1 table, extension.table_new own⟩
  · exact ⟨pd, List.mem_singleton.1 last, extension.own⟩

theorem Frames.freed (frames : Frames before m) (addresses : List Nat)
    (found : ∀ address ∈ addresses,
      ∃ frame, address = frame * frameSize ∧ frame < frameCount ∧ ¬ before.Used frame) :
    Frames before (freeFrames m addresses) := by
  obtain ⟨words, directory⟩ := @free_frames_words m addresses
  constructor
  · intro f used
    rw [used_free_frames]
    · refine ⟨frames.grows f used, ?_⟩
      intro address member same
      obtain ⟨frame, rfl, _, unused⟩ := found address member
      rw [frame_of_address] at same
      exact unused (same ▸ used)
    · intro address member
      obtain ⟨frame, rfl, bound, _⟩ := found address member
      rw [frame_of_address]
      exact bound
  · rw [directory]
    exact frames.directory
  · rw [words]
    exact frames.writes

/-- The walk of a directory whose frames were in use and are not the kernel's finds the
same frames. -/
theorem Frames.same_space (frames : Frames before m) (used : before.Used pd)
    (notKernel : ¬ KernelTable before pd)
    (tables : ∀ table, Table before pd table → before.Used table ∧ ¬ KernelTable before table) :
    spaceFrames m (pd * frameSize) = spaceFrames before (pd * frameSize) := by
  have same : ∀ f, before.Used f → ¬ KernelTable before f → ∀ j,
      m.words f j = before.words f j := by
    intro f inUse apart j
    by_contra changed
    rcases frames.writes f j changed with free | kernel
    · exact free inUse
    · exact apart kernel
  apply space_frames_congr
  · intro i _
    exact same pd used notKernel i
  · intro table own j _
    obtain ⟨inUse, apart⟩ := tables table own
    exact same table inUse apart j

end Rules

end CassiOS.Memory.NewSpace
