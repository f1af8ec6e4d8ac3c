import CassiOS.Memory.Ownership

/-!
# Bookkeeping of an address space

`Owns before m pd extra` says that the frames marked since `before` are those the walk of
`pd` finds together with the `extra` ones, each once. Allocating a frame, mapping a page
and filling a frame keep it.
-/

namespace CassiOS.Memory.Owned

open scoped List
open CassiOS.Memory.Physical
open CassiOS.Memory.Paging
open CassiOS.Memory.Ownership

set_option autoImplicit false

/-- The page tables behind the user entries of `pd` are frames in use, a different one for
each entry. -/
structure Tables (m : MemoryState) (pd : Nat) : Prop where
  directory : m.Used pd
  used : ∀ i, i < userEntries → present (m.words pd i) = true →
    m.Used (frameOf (m.words pd i)) ∧ frameOf (m.words pd i) ≠ pd
  apart : ∀ i k, i < userEntries → k < userEntries → present (m.words pd i) = true →
    present (m.words pd k) = true → frameOf (m.words pd i) = frameOf (m.words pd k) → i = k

structure Owns (before m : MemoryState) (pd : Nat) (extra : List Nat) : Prop where
  once : (extra ++ spaceFrames m (pd * frameSize)).Nodup
  held : ∀ frame, m.Used frame ↔
    before.Used frame ∨ frame * frameSize ∈ extra ++ spaceFrames m (pd * frameSize)
  new : ∀ frame, before.Used frame →
    frame * frameSize ∉ extra ++ spaceFrames m (pd * frameSize)
  bound : ∀ frame, frame * frameSize ∈ extra ++ spaceFrames m (pd * frameSize) →
    frame < frameCount

section Rules

variable {before m next : MemoryState} {pd : Nat} {extra extra' : List Nat}

theorem Owns.space_once (owns : Owns before m pd extra) :
    (spaceFrames m (pd * frameSize)).Nodup := (List.nodup_append'.1 owns.once).2.1

theorem Owns.used_directory (owns : Owns before m pd extra) : m.Used pd :=
  (owns.held pd).2 (.inr (List.mem_append_right _ (directory_mem m pd)))

theorem Owns.used_table (owns : Owns before m pd extra) {table : Nat} (own : Table m pd table) :
    m.Used table := (owns.held table).2 (.inr (List.mem_append_right _ (table_mem own)))

theorem Owns.tables (owns : Owns before m pd extra) : Tables m pd where
  directory := owns.used_directory
  used i user here := ⟨owns.used_table ⟨i, user, here, rfl⟩,
    table_not_directory owns.space_once ⟨i, user, here, rfl⟩⟩
  apart _ _ first second here there same :=
    tables_apart owns.space_once first second here there same

/-- The books stay balanced when the newly marked frames are the newly found ones. -/
theorem owns_of_perm (added : List Nat) (owns : Owns before m pd extra)
    (frames : ∀ address ∈ added, ∃ frame, address = frame * frameSize ∧ frame < frameCount ∧
      ¬ m.Used frame)
    (once : added.Nodup)
    (used : ∀ frame, next.Used frame ↔ m.Used frame ∨ frame * frameSize ∈ added)
    (perm : extra' ++ spaceFrames next (pd * frameSize) ~
      added ++ (extra ++ spaceFrames m (pd * frameSize))) : Owns before next pd extra' := by
  have members : ∀ address, address ∈ extra' ++ spaceFrames next (pd * frameSize) ↔
      address ∈ added ∨ address ∈ extra ++ spaceFrames m (pd * frameSize) := by
    intro address
    rw [perm.mem_iff, List.mem_append]
  have clear : ∀ frame, frame * frameSize ∈ added → frame < frameCount ∧ ¬ m.Used frame := by
    intro frame member
    obtain ⟨other, same, bound, unused⟩ := frames _ member
    rw [frame_address_injective same]
    exact ⟨bound, unused⟩
  constructor
  · rw [perm.nodup_iff, List.nodup_append']
    refine ⟨once, owns.once, ?_⟩
    intro address fresh old
    obtain ⟨frame, rfl, _, unused⟩ := frames _ fresh
    exact unused ((owns.held frame).2 (.inr old))
  · intro frame
    rw [used, owns.held, members, or_assoc, or_comm (a := frame * frameSize ∈ added)]
  · intro frame already
    rw [members, not_or]
    refine ⟨fun fresh => ?_, owns.new frame already⟩
    exact (clear frame fresh).2 ((owns.held frame).2 (.inl already))
  · intro frame member
    rcases (members _).1 member with fresh | old
    · exact (clear frame fresh).1
    · exact owns.bound frame old

theorem owns_take (owns : Owns before m pd extra) {frame : Nat} (bound : frame < frameCount)
    (clear : ¬ m.Used frame) : Owns before (m.mark frame) pd (frame * frameSize :: extra) := by
  have same : spaceFrames (m.mark frame) (pd * frameSize) = spaceFrames m (pd * frameSize) := rfl
  apply owns_of_perm [frame * frameSize] owns
  · intro address member
    exact ⟨frame, List.mem_singleton.1 member, bound, clear⟩
  · exact List.nodup_singleton _
  · intro f
    rw [MemoryState.used_mark _ _ bound, List.mem_singleton]
    constructor
    · rintro (used | rfl)
      · exact .inl used
      · exact .inr rfl
    · rintro (used | here)
      · exact .inl used
      · exact .inr (frame_address_injective here)
  · rw [same]
    exact List.Perm.refl _

theorem owns_fill (owns : Owns before m pd extra) {frame : Nat} (content : Nat → Nat)
    (other : frame ≠ pd) (notTable : ¬ Table m pd frame) :
    Owns before (m.fillFrame frame content) pd extra := by
  have same : spaceFrames (m.fillFrame frame content) (pd * frameSize) =
      spaceFrames m (pd * frameSize) := by
    apply space_frames_congr
    · intro i _
      rw [MemoryState.words_fill_frame, if_neg other.symm]
    · intro table own j _
      rw [MemoryState.words_fill_frame, if_neg]
      rintro rfl
      exact notTable own
  constructor
  · rw [same]
    exact owns.once
  · rw [same]
    exact owns.held
  · rw [same]
    exact owns.new
  · rw [same]
    exact owns.bound

end Rules

section Entries

variable {m next : MemoryState} {pd virtualAddr entry : Nat}

theorem page_entry_absent (absent : present (m.words pd (virtualAddr / tableSpan)) = false) :
    pageEntry m pd virtualAddr = 0 := by
  unfold pageEntry translation
  rw [if_neg fun table => absurd (absent.symm.trans table) Bool.noConfusion]

theorem page_entry_present (table : present (m.words pd (virtualAddr / tableSpan)) = true) :
    pageEntry m pd virtualAddr =
      m.words (frameOf (m.words pd (virtualAddr / tableSpan))) (virtualAddr / frameSize % 1024) := by
  unfold pageEntry translation
  rw [if_pos table]

theorem table_after_map (once : (spaceFrames m (pd * frameSize)).Nodup)
    (user : virtualAddr / tableSpan < userEntries) (pdUsed : m.Used pd)
    (outcome : MapOutcome m pd virtualAddr entry next) {table : Nat} (own : Table next pd table) :
    Table m pd table ∨ ¬ m.Used table := by
  obtain ⟨i, low, here, rfl⟩ := own
  cases outcome with
  | existing behind =>
      have other := table_not_directory once ⟨_, user, behind, rfl⟩
      rw [MemoryState.words_set_word, if_neg fun same => other same.1.symm] at here ⊢
      exact .inl ⟨i, low, here, rfl⟩
  | fresh new absent positive bound clear before =>
      have other : pd ≠ new := fun same => clear (same ▸ pdUsed)
      rw [MemoryState.words_set_word, if_neg fun same => other same.1, MemoryState.words_set_word]
        at here ⊢
      split at here
      · next same =>
        right
        rw [if_pos same, frame_of_make_entry, (frame_address positive).2]
        exact clear
      · next different =>
        rw [MemoryState.words_fill_frame, if_neg other, MemoryState.words_mark] at here
        rw [if_neg different, MemoryState.words_fill_frame, if_neg other, MemoryState.words_mark]
        exact .inl ⟨i, low, here, rfl⟩
  | starved absent full => exact .inl ⟨i, low, here, rfl⟩

theorem page_number (a : Nat) :
    a / frameSize = a / tableSpan * 1024 + a / frameSize % 1024 := by
  unfold frameSize tableSpan
  omega

theorem page_entry_map_other (tables : Tables m pd)
    (user : virtualAddr / tableSpan < userEntries)
    (outcome : MapOutcome m pd virtualAddr entry next) {other : Nat}
    (otherUser : other / tableSpan < userEntries)
    (different : other / frameSize ≠ virtualAddr / frameSize) :
    pageEntry next pd other = pageEntry m pd other := by
  have indices : other / tableSpan = virtualAddr / tableSpan →
      other / frameSize % 1024 ≠ virtualAddr / frameSize % 1024 := by
    intro entries pages
    apply different
    rw [page_number other, page_number virtualAddr, entries, pages]
  cases outcome with
  | existing table =>
      have apart := (tables.used _ user table).2
      have directory : ∀ i, (m.setWord (frameOf (m.words pd (virtualAddr / tableSpan)))
          (virtualAddr / frameSize % 1024) entry).words pd i = m.words pd i := by
        intro i
        rw [MemoryState.words_set_word, if_neg fun same => apart same.1.symm]
      unfold pageEntry translation
      simp only [directory]
      split
      · next behind =>
        rw [MemoryState.words_set_word, if_neg]
        rintro ⟨same, pages⟩
        exact indices (tables.apart _ _ otherUser user behind table same) pages
      · rfl
  | fresh new absent positive bound clear before =>
      have apart : pd ≠ new := fun same => clear (same ▸ tables.directory)
      have number := (frame_address positive).2
      by_cases here : other / tableSpan = virtualAddr / tableSpan
      · have zero : pageEntry m pd other = 0 := page_entry_absent (by rw [here, absent])
        rw [zero]
        unfold pageEntry translation
        have linked : ((((m.mark new).fillFrame new fun _ => 0).setWord pd (virtualAddr / tableSpan)
            (makeEntry (new * frameSize) userFlags)).setWord new
              (virtualAddr / frameSize % 1024) entry).words pd (other / tableSpan) =
                makeEntry (new * frameSize) userFlags := by
          rw [MemoryState.words_set_word, if_neg fun same => apart same.1,
            MemoryState.words_set_word, if_pos ⟨rfl, here⟩]
        simp only [linked]
        rw [if_pos (present_make_entry _), frame_of_make_entry, number, MemoryState.words_set_word,
          if_neg fun same => indices here same.2, MemoryState.words_set_word,
          if_neg fun same => apart same.1.symm, MemoryState.words_fill_frame, if_pos rfl]
      · have kept : ((((m.mark new).fillFrame new fun _ => 0).setWord pd (virtualAddr / tableSpan)
            (makeEntry (new * frameSize) userFlags)).setWord new
              (virtualAddr / frameSize % 1024) entry).words pd (other / tableSpan) =
                m.words pd (other / tableSpan) := by
          rw [MemoryState.words_set_word, if_neg fun same => apart same.1,
            MemoryState.words_set_word, if_neg fun same => here same.2,
            MemoryState.words_fill_frame, if_neg apart, MemoryState.words_mark]
        unfold pageEntry translation
        simp only [kept]
        split
        · next behind =>
          obtain ⟨used, notDirectory⟩ := tables.used _ otherUser behind
          have notNew : frameOf (m.words pd (other / tableSpan)) ≠ new :=
            fun same => clear (same ▸ used)
          rw [MemoryState.words_set_word, if_neg fun same => notNew same.1,
            MemoryState.words_set_word, if_neg fun same => notDirectory same.1,
            MemoryState.words_fill_frame, if_neg notNew, MemoryState.words_mark]
        · rfl
  | starved absent full => rfl

theorem page_entry_fill {frame : Nat} (content : Nat → Nat) (other : frame ≠ pd)
    (notTable : ¬ Table m pd frame) (user : virtualAddr / tableSpan < userEntries) :
    pageEntry (m.fillFrame frame content) pd virtualAddr = pageEntry m pd virtualAddr := by
  have directory : (m.fillFrame frame content).words pd (virtualAddr / tableSpan) =
      m.words pd (virtualAddr / tableSpan) := by
    rw [MemoryState.words_fill_frame, if_neg other.symm]
  unfold pageEntry translation
  simp only [directory]
  split
  · next behind =>
    rw [MemoryState.words_fill_frame, if_neg]
    rintro rfl
    exact notTable ⟨_, user, behind, rfl⟩
  · rfl

end Entries

section Mapping

variable {before m next : MemoryState} {pd virtualAddr entry : Nat} {extra : List Nat}

/-- Mapping a page keeps the books when the page takes over the pending frame. -/
theorem owns_map (pending : List Nat) (owns : Owns before m pd (pending ++ extra))
    (user : virtualAddr / tableSpan < userEntries)
    (outcome : MapOutcome m pd virtualAddr entry next)
    (replaced : pageFrame entry = pending ++ pageFrame (pageEntry m pd virtualAddr))
    (mapped : present (m.words pd (virtualAddr / tableSpan)) = true ∨ ¬ Exhausted m ∨
      pending = []) : Owns before next pd extra := by
  have once := owns.space_once
  cases outcome with
  | existing table =>
      have change := @space_frames_existing m pd virtualAddr entry once user table
      apply owns_of_perm [] owns
      · exact fun address member => absurd member List.not_mem_nil
      · exact List.nodup_nil
      · intro frame
        rw [MemoryState.used_set_word]
        simp only [List.not_mem_nil, or_false]
      · rw [replaced] at change
        rw [List.perm_iff_count] at change ⊢
        intro address
        have counts := change address
        simp only [List.count_append, List.count_nil] at counts ⊢
        omega
  | fresh table absent positive bound clear lower =>
      have notTable : ¬ Table m pd table := fun own => clear (owns.used_table own)
      have other : table ≠ pd := fun same => clear (same ▸ owns.used_directory)
      have change := @space_frames_fresh m pd virtualAddr entry table once notTable other user
        positive absent
      rw [page_entry_absent absent, page_frame_zero, List.append_nil] at replaced
      apply owns_of_perm [table * frameSize] owns
      · exact fun address member => ⟨table, List.mem_singleton.1 member, bound, clear⟩
      · exact List.nodup_singleton _
      · intro frame
        rw [MemoryState.used_set_word, MemoryState.used_set_word, MemoryState.used_fill_frame,
          MemoryState.used_mark _ _ bound, List.mem_singleton]
        exact or_congr_right ⟨fun same => by rw [same], frame_address_injective⟩
      · rw [replaced] at change
        rw [List.perm_iff_count] at change ⊢
        intro address
        have counts := change address
        simp only [List.count_append] at counts ⊢
        omega
  | starved absent full =>
      rcases mapped with table | notFull | none
      · exact absurd (absent.symm.trans table) Bool.noConfusion
      · exact absurd full notFull
      · rw [none, List.nil_append] at owns
        exact owns

end Mapping

end CassiOS.Memory.Owned
