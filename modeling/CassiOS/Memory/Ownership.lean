import CassiOS.Memory.Paging
import CassiOS.Support.Collecting

/-!
# Frames of an address space

`destroyAddressSpace` finds the frames to free in the directory and page tables. What it
finds changes with one mapping by the page that was replaced, the page that was mapped and
the page table that was allocated, and with nothing else.
-/

namespace CassiOS.Memory.Ownership

open scoped List
open CassiOS.Memory.Physical
open CassiOS.Memory.Paging
open CassiOS.Support.Collecting

set_option autoImplicit false

section Tables

variable {m m' : MemoryState} {pd : Nat}

/-- Frame `table` is a page table of a user entry of `pd`. -/
def Table (m : MemoryState) (pd table : Nat) : Prop :=
  ∃ i, i < userEntries ∧ present (m.words pd i) = true ∧ frameOf (m.words pd i) = table

theorem entry_frames_absent {i : Nat} (absent : present (m.words pd i) = false) :
    entryFrames m pd i = [] := by
  unfold entryFrames
  rw [if_neg fun table => absurd (absent.symm.trans table) Bool.noConfusion]

theorem entry_frames_present {i : Nat} (table : present (m.words pd i) = true) :
    entryFrames m pd i =
      tableFrames m (frameOf (m.words pd i)) ++ [frameOf (m.words pd i) * frameSize] := by
  unfold entryFrames
  rw [if_pos table]

theorem table_frames_congr {table : Nat}
    (same : ∀ j, j < 1024 → m'.words table j = m.words table j) :
    tableFrames m' table = tableFrames m table := by
  unfold tableFrames
  apply List.flatMap_congr
  intro j inside
  rw [same j (List.mem_range.1 inside)]

theorem entry_frames_congr {i : Nat} (entry : m'.words pd i = m.words pd i)
    (same : present (m.words pd i) = true → ∀ j, j < 1024 →
      m'.words (frameOf (m.words pd i)) j = m.words (frameOf (m.words pd i)) j) :
    entryFrames m' pd i = entryFrames m pd i := by
  cases table : present (m.words pd i) with
  | false =>
      rw [entry_frames_absent table, entry_frames_absent (by rw [entry, table])]
  | true =>
      rw [entry_frames_present table, entry_frames_present (by rw [entry, table]), entry,
        table_frames_congr (same table)]

theorem space_frames_eq (m : MemoryState) (pd : Nat) :
    spaceFrames m (pd * frameSize) =
      (List.range userEntries).flatMap (entryFrames m pd) ++ [pd * frameSize] := by
  unfold spaceFrames
  rw [frame_of_address]

/-- The walk reads the user entries of the directory and their page tables. -/
theorem space_frames_congr (directory : ∀ i, i < userEntries → m'.words pd i = m.words pd i)
    (tables : ∀ table, Table m pd table → ∀ j, j < 1024 → m'.words table j = m.words table j) :
    spaceFrames m' (pd * frameSize) = spaceFrames m (pd * frameSize) := by
  have entries : (List.range userEntries).flatMap (entryFrames m' pd) =
      (List.range userEntries).flatMap (entryFrames m pd) := by
    apply List.flatMap_congr
    intro i inside
    have low := List.mem_range.1 inside
    exact entry_frames_congr (directory i low) fun table => tables _ ⟨i, low, table, rfl⟩
  rw [space_frames_eq, space_frames_eq, entries]

theorem directory_mem (m : MemoryState) (pd : Nat) :
    pd * frameSize ∈ spaceFrames m (pd * frameSize) := by
  rw [space_frames_eq]
  exact List.mem_append_right _ (List.mem_singleton.2 rfl)

theorem table_mem_entry {i : Nat} (table : present (m.words pd i) = true) :
    frameOf (m.words pd i) * frameSize ∈ entryFrames m pd i := by
  rw [entry_frames_present table]
  exact List.mem_append_right _ (List.mem_singleton.2 rfl)

theorem table_mem {table : Nat} (own : Table m pd table) :
    table * frameSize ∈ spaceFrames m (pd * frameSize) := by
  obtain ⟨i, low, entry, rfl⟩ := own
  rw [space_frames_eq]
  apply List.mem_append_left
  exact List.mem_flatMap.2 ⟨i, List.mem_range.2 low, table_mem_entry entry⟩

theorem space_frames_aligned {address : Nat} (member : address ∈ spaceFrames m (pd * frameSize)) :
    ∃ frame, address = frame * frameSize := by
  rw [space_frames_eq, List.mem_append] at member
  rcases member with inside | last
  · obtain ⟨i, _, found⟩ := List.mem_flatMap.1 inside
    unfold entryFrames at found
    simp only at found
    split at found
    · rcases List.mem_append.1 found with page | table
      · obtain ⟨j, _, here⟩ := List.mem_flatMap.1 page
        unfold pageFrame at here
        simp only at here
        split at here
        · exact ⟨_, List.mem_singleton.1 here⟩
        · exact absurd here List.not_mem_nil
      · exact ⟨_, List.mem_singleton.1 table⟩
    · exact absurd found List.not_mem_nil
  · exact ⟨pd, List.mem_singleton.1 last⟩

/-- When no frame is found twice, each table belongs to one entry, and none is the directory. -/
theorem tables_apart (once : (spaceFrames m (pd * frameSize)).Nodup) {i k : Nat}
    (first : i < userEntries) (second : k < userEntries)
    (here : present (m.words pd i) = true) (there : present (m.words pd k) = true)
    (same : frameOf (m.words pd i) = frameOf (m.words pd k)) : i = k := by
  rw [space_frames_eq] at once
  apply flat_map_unique (List.nodup_append'.1 once).1 (List.mem_range.2 first)
    (List.mem_range.2 second) (table_mem_entry here)
  rw [same]
  exact table_mem_entry there

theorem table_not_directory (once : (spaceFrames m (pd * frameSize)).Nodup) {table : Nat}
    (own : Table m pd table) : table ≠ pd := by
  rintro rfl
  obtain ⟨i, low, entry, same⟩ := own
  rw [space_frames_eq] at once
  apply (List.nodup_append'.1 once).2.2 _ (List.mem_singleton.2 rfl)
  apply List.mem_flatMap.2
  refine ⟨i, List.mem_range.2 low, ?_⟩
  have found := table_mem_entry entry
  rw [same] at found
  exact found

end Tables

section Mapping

variable {m next : MemoryState} {pd virtualAddr entry : Nat}

/-- The page-table entry at a user address of `pd`. -/
def pageEntry (m : MemoryState) (pd virtualAddr : Nat) : Nat :=
  translation m (m.words pd) virtualAddr

theorem page_frame_zero : pageFrame 0 = [] := rfl

theorem table_frames_set {table j : Nat} (inside : j < 1024) :
    pageFrame (m.words table j) ++ tableFrames (m.setWord table j entry) table ~
      pageFrame entry ++ tableFrames m table := by
  unfold tableFrames
  apply flat_map_change List.nodup_range (List.mem_range.2 inside)
  · intro k _ other
    rw [MemoryState.words_set_word, if_neg fun same => other same.2]
  · rw [MemoryState.words_set_word, if_pos ⟨rfl, rfl⟩]
    exact List.perm_append_comm

theorem table_frames_empty {table : Nat} (empty : ∀ j, j < 1024 → m.words table j = 0) :
    tableFrames m table = [] := by
  unfold tableFrames
  apply List.flatMap_eq_nil_iff.2
  intro j inside
  rw [empty j (List.mem_range.1 inside)]
  exact page_frame_zero

theorem page_index_lt (virtualAddr : Nat) : virtualAddr / frameSize % 1024 < 1024 :=
  Nat.mod_lt _ (by decide)

theorem space_frames_existing (once : (spaceFrames m (pd * frameSize)).Nodup)
    (user : virtualAddr / tableSpan < userEntries)
    (table : present (m.words pd (virtualAddr / tableSpan)) = true) :
    pageFrame (pageEntry m pd virtualAddr) ++
        spaceFrames (m.setWord (frameOf (m.words pd (virtualAddr / tableSpan)))
          (virtualAddr / frameSize % 1024) entry) (pd * frameSize) ~
      pageFrame entry ++ spaceFrames m (pd * frameSize) := by
  have own : Table m pd (frameOf (m.words pd (virtualAddr / tableSpan))) := ⟨_, user, table, rfl⟩
  have other := table_not_directory once own
  have directory : ∀ i, (m.setWord (frameOf (m.words pd (virtualAddr / tableSpan)))
      (virtualAddr / frameSize % 1024) entry).words pd i = m.words pd i := by
    intro i
    rw [MemoryState.words_set_word, if_neg fun same => other same.1.symm]
  have old : pageEntry m pd virtualAddr =
      m.words (frameOf (m.words pd (virtualAddr / tableSpan))) (virtualAddr / frameSize % 1024) := by
    unfold pageEntry translation
    rw [if_pos table]
  rw [space_frames_eq, space_frames_eq, ← List.append_assoc, ← List.append_assoc, old]
  apply List.Perm.append_right
  apply flat_map_change List.nodup_range (List.mem_range.2 user)
  · intro k inside different
    apply entry_frames_congr (directory k)
    intro behind j _
    rw [MemoryState.words_set_word, if_neg]
    intro same
    exact different (tables_apart once (List.mem_range.1 inside) user behind table same.1)
  · rw [entry_frames_present table, entry_frames_present (by rw [directory, table]), directory,
      ← List.append_assoc, ← List.append_assoc]
    exact (table_frames_set (page_index_lt virtualAddr)).append_right _

theorem space_frames_fresh {table : Nat} (once : (spaceFrames m (pd * frameSize)).Nodup)
    (new : ¬ Table m pd table) (other : table ≠ pd)
    (user : virtualAddr / tableSpan < userEntries) (positive : 0 < table)
    (absent : present (m.words pd (virtualAddr / tableSpan)) = false) :
    spaceFrames ((((m.mark table).fillFrame table fun _ => 0).setWord pd (virtualAddr / tableSpan)
        (makeEntry (table * frameSize) userFlags)).setWord table
          (virtualAddr / frameSize % 1024) entry) (pd * frameSize) ~
      (pageFrame entry ++ [table * frameSize]) ++ spaceFrames m (pd * frameSize) := by
  let linked := ((m.mark table).fillFrame table fun _ => 0).setWord pd (virtualAddr / tableSpan)
    (makeEntry (table * frameSize) userFlags)
  have number := (frame_address positive).2
  have entries : ∀ i, (linked.setWord table (virtualAddr / frameSize % 1024) entry).words pd i =
      if i = virtualAddr / tableSpan then makeEntry (table * frameSize) userFlags
      else m.words pd i := by
    intro i
    rw [MemoryState.words_set_word, if_neg fun same => other same.1.symm,
      MemoryState.words_set_word]
    by_cases here : i = virtualAddr / tableSpan
    · rw [if_pos ⟨rfl, here⟩, if_pos here]
    · rw [if_neg fun same => here same.2, if_neg here, MemoryState.words_fill_frame,
        if_neg fun same => other same.symm, MemoryState.words_mark]
  have pages : tableFrames (linked.setWord table (virtualAddr / frameSize % 1024) entry) table ~
      pageFrame entry := by
    have empty : ∀ j, linked.words table j = 0 := by
      intro j
      rw [MemoryState.words_set_word, if_neg fun same => other same.1,
        MemoryState.words_fill_frame, if_pos rfl]
    have set := @table_frames_set linked entry table _ (page_index_lt virtualAddr)
    rw [empty, page_frame_zero, List.nil_append, table_frames_empty fun j _ => empty j,
      List.append_nil] at set
    exact set
  have others : ∀ k ∈ List.range userEntries, k ≠ virtualAddr / tableSpan →
      entryFrames (linked.setWord table (virtualAddr / frameSize % 1024) entry) pd k =
        entryFrames m pd k := by
    intro k inside different
    apply entry_frames_congr
    · rw [entries, if_neg different]
    · intro behind j _
      have own : Table m pd (frameOf (m.words pd k)) := ⟨k, List.mem_range.1 inside, behind, rfl⟩
      have apart : frameOf (m.words pd k) ≠ table := fun same => new (same ▸ own)
      rw [MemoryState.words_set_word, if_neg fun same => apart same.1, MemoryState.words_set_word,
        if_neg fun same => table_not_directory once own same.1, MemoryState.words_fill_frame,
        if_neg apart, MemoryState.words_mark]
  have here : [] ++ entryFrames (linked.setWord table (virtualAddr / frameSize % 1024) entry) pd
      (virtualAddr / tableSpan) ~
        (pageFrame entry ++ [table * frameSize]) ++ entryFrames m pd (virtualAddr / tableSpan) := by
    rw [entry_frames_absent absent, List.nil_append, List.append_nil,
      entry_frames_present (by rw [entries, if_pos rfl, present_make_entry]), entries, if_pos rfl,
      frame_of_make_entry, number]
    exact pages.append_right _
  have change := flat_map_change List.nodup_range (List.mem_range.2 user) others here
  rw [space_frames_eq, space_frames_eq, ← List.append_assoc]
  apply List.Perm.append_right
  rw [List.nil_append] at change
  exact change

end Mapping

end CassiOS.Memory.Ownership
