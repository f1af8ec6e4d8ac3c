import CassiOS.Memory.Owned

/-!
# Mapping pages of an address space

`Space m pd` says that the page tables behind the user entries of `pd` are frames in use, a
different one for each entry. Then a mapped page shows up at its own address only, and the
frames a list of pages takes are one for each page and one for each missing page table.
-/

namespace CassiOS.Memory.UserSpace

open CassiOS.Memory.Physical
open CassiOS.Memory.Paging
open CassiOS.Memory.Ownership
open CassiOS.Memory.Owned

set_option autoImplicit false

structure Space (m : MemoryState) (pd : Nat) : Prop extends Tables m pd where
  zero : m.Used 0
  flags : ∀ i, i < userEntries → present (m.words pd i) = true → m.words pd i % 8 = 7

section Rules

variable {m next : MemoryState} {pd virtualAddr entry frame : Nat}

theorem space_of_empty (zero : m.Used 0) (directory : m.Used pd)
    (empty : ∀ i, i < userEntries → present (m.words pd i) = false) : Space m pd := by
  have none : ∀ i, i < userEntries → ¬ present (m.words pd i) = true := by
    intro i low here
    exact Bool.noConfusion ((empty i low).symm.trans here)
  refine ⟨⟨directory, ?_, ?_⟩, zero, ?_⟩
  · exact fun i low here => absurd here (none i low)
  · exact fun i _ low _ here => absurd here (none i low)
  · exact fun i low here => absurd here (none i low)

theorem space_mark (space : Space m pd) (bound : frame < frameCount) : Space (m.mark frame) pd where
  zero := (MemoryState.used_mark _ _ bound 0).2 (.inl space.zero)
  directory := (MemoryState.used_mark _ _ bound pd).2 (.inl space.directory)
  flags := space.flags
  used i user here :=
    ⟨(MemoryState.used_mark _ _ bound _).2 (.inl (space.used i user here).1),
      (space.used i user here).2⟩
  apart := space.apart

/-- The directory after a page was mapped: a missing table was added, or nothing. -/
theorem directory_after_map (tables : Tables m pd) (user : virtualAddr / tableSpan < userEntries)
    (outcome : MapOutcome m pd virtualAddr entry next) :
    (∀ i, next.words pd i = m.words pd i) ∨
      ∃ table, present (m.words pd (virtualAddr / tableSpan)) = false ∧ 0 < table ∧
        ¬ m.Used table ∧ next.Used table ∧
        (∀ i, next.words pd i = if i = virtualAddr / tableSpan then
          makeEntry (table * frameSize) userFlags else m.words pd i) ∧
        (∀ j, j ≠ virtualAddr / frameSize % 1024 → next.words table j = 0) ∧
        table < frameCount := by
  cases outcome with
  | existing table =>
      left
      intro i
      rw [MemoryState.words_set_word,
        if_neg fun same => (tables.used _ user table).2 same.1.symm]
  | fresh table absent positive bound clear before =>
      right
      have other : pd ≠ table := fun same => clear (same ▸ tables.directory)
      refine ⟨table, absent, positive, clear, (MemoryState.used_mark _ _ bound _).2 (.inr rfl),
        ?_, ?_, bound⟩
      · intro i
        rw [MemoryState.words_set_word, if_neg fun same => other same.1,
          MemoryState.words_set_word]
        by_cases here : i = virtualAddr / tableSpan
        · rw [if_pos ⟨rfl, here⟩, if_pos here]
        · rw [if_neg fun same => here same.2, if_neg here, MemoryState.words_fill_frame,
            if_neg other, MemoryState.words_mark]
      · intro j different
        rw [MemoryState.words_set_word, if_neg fun same => different same.2,
          MemoryState.words_set_word, if_neg fun same => other same.1.symm,
          MemoryState.words_fill_frame, if_pos rfl]
  | starved absent full => exact .inl fun _ => rfl

theorem space_map (space : Space m pd) (user : virtualAddr / tableSpan < userEntries)
    (outcome : MapOutcome m pd virtualAddr entry next) : Space next pd := by
  have grows : ∀ f, m.Used f → next.Used f := fun f => map_keeps_used outcome
  rcases directory_after_map space.toTables user outcome with
    same | ⟨table, absent, positive, clear, used, linked, _⟩
  · refine ⟨⟨grows pd space.directory, ?_, ?_⟩, grows 0 space.zero, ?_⟩
    · intro i low
      rw [same]
      exact fun here => ⟨grows _ (space.used i low here).1, (space.used i low here).2⟩
    · intro i k low low'
      rw [same, same]
      exact space.apart i k low low'
    · intro i low
      rw [same]
      exact space.flags i low
  · have number : frameOf (makeEntry (table * frameSize) userFlags) = table := by
      rw [frame_of_make_entry, (frame_address positive).2]
    -- the new table was free, the others were not
    have old : ∀ i, i < userEntries → present (m.words pd i) = true →
        frameOf (m.words pd i) ≠ table := fun i low here same =>
      clear (same ▸ (space.used i low here).1)
    refine ⟨⟨grows pd space.directory, ?_, ?_⟩, grows 0 space.zero, ?_⟩
    · intro i low
      rw [linked]
      split
      · rw [number]
        exact fun _ => ⟨used, fun same => clear (same ▸ space.directory)⟩
      · exact fun here => ⟨grows _ (space.used i low here).1, (space.used i low here).2⟩
    · intro i k low low'
      rw [linked, linked]
      split
      · next first =>
        split
        · next second => exact fun _ _ _ => first.trans second.symm
        · rw [number]
          exact fun _ there same => absurd same.symm (old k low' there)
      · split
        · rw [number]
          exact fun here _ same => absurd same (old i low here)
        · exact space.apart i k low low'
    · intro i low
      rw [linked]
      split
      · exact fun _ => make_entry_user _
      · exact space.flags i low

/-- A frame in use that is neither the directory nor one of its page tables. -/
structure Plain (m : MemoryState) (pd frame : Nat) : Prop where
  used : m.Used frame
  notDirectory : frame ≠ pd
  notTable : ∀ i, i < userEntries → present (m.words pd i) = true → frameOf (m.words pd i) ≠ frame

/-- Mapping a page writes the directory and its page tables only. -/
theorem plain_map (tables : Tables m pd) (user : virtualAddr / tableSpan < userEntries)
    (outcome : MapOutcome m pd virtualAddr entry next) (plain : Plain m pd frame) :
    Plain next pd frame ∧ next.words frame = m.words frame := by
  have behind : ∀ i, i < userEntries → present (next.words pd i) = true →
      frameOf (next.words pd i) ≠ frame := by
    intro i low here
    rcases directory_after_map tables user outcome with same | ⟨table, _, positive, clear, _, linked, _⟩
    · rw [same] at here ⊢
      exact plain.notTable i low here
    · rw [linked] at here ⊢
      split at here
      · next added =>
        rw [if_pos added, frame_of_make_entry, (frame_address positive).2]
        exact fun same => clear (same ▸ plain.used)
      · next old =>
        rw [if_neg old]
        exact plain.notTable i low here
  refine ⟨⟨map_keeps_used outcome plain.used, plain.notDirectory, behind⟩, ?_⟩
  funext j
  cases outcome with
  | existing table =>
      rw [MemoryState.words_set_word,
        if_neg fun same => plain.notTable _ user table same.1.symm]
  | fresh table absent positive bound clear before =>
      have other : frame ≠ table := fun same => clear (same ▸ plain.used)
      rw [MemoryState.words_set_word, if_neg fun same => other same.1,
        MemoryState.words_set_word, if_neg fun same => plain.notDirectory same.1,
        MemoryState.words_fill_frame, if_neg other, MemoryState.words_mark]
  | starved absent full => rfl

theorem plain_mark (plain : Plain m pd frame) {taken : Nat} (bound : taken < frameCount) :
    Plain (m.mark taken) pd frame :=
  ⟨(MemoryState.used_mark _ _ bound _).2 (.inl plain.used), plain.notDirectory, plain.notTable⟩

theorem plain_taken (tables : Tables m pd) (bound : frame < frameCount) (clear : ¬ m.Used frame) :
    Plain (m.mark frame) pd frame where
  used := (MemoryState.used_mark _ _ bound _).2 (.inr rfl)
  notDirectory same := clear (same ▸ tables.directory)
  notTable i low here same := clear (same ▸ (tables.used i low here).1)

theorem fill_directory (plain : Plain m pd frame) (content : Nat → Nat) (i : Nat) :
    (m.fillFrame frame content).words pd i = m.words pd i := by
  rw [MemoryState.words_fill_frame, if_neg plain.notDirectory.symm]

theorem space_fill (space : Space m pd) (plain : Plain m pd frame) (content : Nat → Nat) :
    Space (m.fillFrame frame content) pd := by
  have same := fill_directory plain content
  refine ⟨⟨space.directory, ?_, ?_⟩, space.zero, ?_⟩
  · intro i low
    rw [same]
    exact space.used i low
  · intro i k low low'
    rw [same, same]
    exact space.apart i k low low'
  · intro i low
    rw [same]
    exact space.flags i low

theorem plain_fill (plain : Plain m pd frame) (content : Nat → Nat) {other : Nat}
    (also : Plain m pd other) : Plain (m.fillFrame frame content) pd other := by
  refine ⟨also.used, also.notDirectory, ?_⟩
  intro i low
  rw [fill_directory plain]
  exact also.notTable i low

theorem entry_fill (plain : Plain m pd frame) (content : Nat → Nat)
    (user : virtualAddr / tableSpan < userEntries) :
    pageEntry (m.fillFrame frame content) pd virtualAddr = pageEntry m pd virtualAddr := by
  apply page_entry_fill content plain.notDirectory _ user
  rintro ⟨i, low, here, same⟩
  exact plain.notTable i low here same

theorem entry_mapped (tables : Tables m pd) (user : virtualAddr / tableSpan < userEntries)
    (outcome : MapOutcome m pd virtualAddr entry next)
    (served : present (m.words pd (virtualAddr / tableSpan)) = true ∨ ¬ Exhausted m) :
    pageEntry next pd virtualAddr = entry := by
  cases outcome with
  | existing table =>
      have other := (tables.used _ user table).2
      have linked : (m.setWord (frameOf (m.words pd (virtualAddr / tableSpan)))
          (virtualAddr / frameSize % 1024) entry).words pd (virtualAddr / tableSpan) =
            m.words pd (virtualAddr / tableSpan) := by
        rw [MemoryState.words_set_word, if_neg fun same => other same.1.symm]
      rw [page_entry_present (by rw [linked]; exact table), linked, MemoryState.words_set_word,
        if_pos ⟨rfl, rfl⟩]
  | fresh table absent positive bound clear before =>
      have other : pd ≠ table := fun same => clear (same ▸ tables.directory)
      have linked : ((((m.mark table).fillFrame table fun _ => 0).setWord pd
          (virtualAddr / tableSpan) (makeEntry (table * frameSize) userFlags)).setWord table
            (virtualAddr / frameSize % 1024) entry).words pd (virtualAddr / tableSpan) =
              makeEntry (table * frameSize) userFlags := by
        rw [MemoryState.words_set_word, if_neg fun same => other same.1,
          MemoryState.words_set_word, if_pos ⟨rfl, rfl⟩]
      rw [page_entry_present (by rw [linked]; exact present_make_entry _), linked,
        frame_of_make_entry, (frame_address positive).2, MemoryState.words_set_word,
        if_pos ⟨rfl, rfl⟩]
  | starved absent full =>
      rcases served with table | notFull
      · exact absurd (absent.symm.trans table) Bool.noConfusion
      · exact absurd full notFull

end Rules

section DirectMap

/-- The frames whose address does not wrap when `KERNEL_VBASE` is added. -/
def directFrames : Nat := 0x40000

/-- The direct map, through which page tables and new pages are written, reaches the
directory, its page tables and every free frame. -/
structure DirectSpace (m : MemoryState) (pd : Nat) : Prop extends Space m pd where
  directoryReached : pd < directFrames
  tablesReached : ∀ i, i < userEntries → present (m.words pd i) = true →
    frameOf (m.words pd i) < directFrames
  freeReached : ∀ frame, frame < frameCount → ¬ m.Used frame → frame < directFrames

variable {m next : MemoryState} {pd virtualAddr entry frame : Nat}

theorem direct_mark (direct : DirectSpace m pd) (bound : frame < frameCount) :
    DirectSpace (m.mark frame) pd where
  toSpace := space_mark direct.toSpace bound
  directoryReached := direct.directoryReached
  tablesReached := direct.tablesReached
  freeReached other low clear := direct.freeReached other low fun used =>
    clear ((MemoryState.used_mark _ _ bound other).2 (.inl used))

/-- The page tables after a page was mapped are those before and perhaps one more, which was
a free frame. -/
theorem table_after_map (tables : Tables m pd) (user : virtualAddr / tableSpan < userEntries)
    (outcome : MapOutcome m pd virtualAddr entry next) {i : Nat}
    (here : present (next.words pd i) = true) :
    present (m.words pd i) = true ∧ next.words pd i = m.words pd i ∨
      frameOf (next.words pd i) < frameCount ∧ ¬ m.Used (frameOf (next.words pd i)) := by
  rcases directory_after_map tables user outcome with
    same | ⟨table, _, positive, clear, _, linked, _, bound⟩
  · rw [same] at here ⊢
    exact .inl ⟨here, rfl⟩
  · rw [linked] at here ⊢
    split at here
    · next added =>
      right
      rw [if_pos added, frame_of_make_entry, (frame_address positive).2]
      exact ⟨bound, clear⟩
    · next old =>
      rw [if_neg old]
      exact .inl ⟨here, rfl⟩

theorem direct_map (direct : DirectSpace m pd) (user : virtualAddr / tableSpan < userEntries)
    (outcome : MapOutcome m pd virtualAddr entry next) : DirectSpace next pd where
  toSpace := space_map direct.toSpace user outcome
  directoryReached := direct.directoryReached
  tablesReached i low here := by
    rcases table_after_map direct.toTables user outcome here with ⟨before, same⟩ | ⟨bound, clear⟩
    · rw [same]
      exact direct.tablesReached i low before
    · exact direct.freeReached _ bound clear
  freeReached other low clear := direct.freeReached other low fun used =>
    clear (map_keeps_used outcome used)

end DirectMap

section Entries

variable {m : MemoryState} {pd a : Nat}

theorem table_of_user_entry (flags : pageEntry m pd a % 8 = 7) :
    present (m.words pd (a / tableSpan)) = true := by
  by_contra absent
  rw [page_entry_absent (Bool.not_eq_true _ ▸ absent)] at flags
  exact absurd flags (by decide)

theorem page_entry_congr {b : Nat} (same : a / frameSize = b / frameSize) :
    pageEntry m pd a = pageEntry m pd b := by
  have table : a / tableSpan = b / tableSpan := by
    unfold frameSize at same
    unfold tableSpan
    omega
  unfold pageEntry translation
  rw [table, same]

end Entries

section Demand

/-- The page tables a list of page addresses needs beside those that are there. -/
def missingTables (tables : Nat → Bool) (pages : List Nat) : Nat :=
  ((pages.map (· / tableSpan)).toFinset.filter fun i => tables i = false).card

/-- One frame for each page and one for each missing page table. -/
def frameDemand (tables : Nat → Bool) (pages : List Nat) : Nat :=
  pages.length + missingTables tables pages

variable {tables : Nat → Bool} {addr : Nat} {rest : List Nat}

theorem missing_tables_le (tables : Nat → Bool) (pages : List Nat) :
    missingTables tables pages ≤ pages.length := by
  have distinct := List.toFinset_card_le (pages.map (· / tableSpan))
  rw [List.length_map] at distinct
  exact (Finset.card_filter_le _ _).trans distinct

theorem missing_tables_served (table : tables (addr / tableSpan) = true) :
    missingTables tables (addr :: rest) = missingTables tables rest := by
  unfold missingTables
  rw [List.map_cons, List.toFinset_cons, Finset.filter_insert,
    if_neg fun absent => absurd (absent.symm.trans table) Bool.noConfusion]

theorem missing_tables_added (absent : tables (addr / tableSpan) = false) :
    missingTables tables (addr :: rest) =
      missingTables (fun i => decide (i = addr / tableSpan) || tables i) rest + 1 := by
  unfold missingTables
  rw [← Finset.card_insert_of_notMem (a := addr / tableSpan) (by simp)]
  apply congrArg
  ext i
  simp only [List.map_cons, List.toFinset_cons, Finset.mem_filter, Finset.mem_insert,
    Bool.or_eq_false_iff, decide_eq_false_iff_not]
  by_cases here : i = addr / tableSpan
  · simp only [here, absent, true_or, and_self]
  · simp only [here, false_or, not_false_eq_true, true_and]

end Demand

section Counting

variable {m : MemoryState}

theorem free_frames_length_le (frames : List Nat) (once : frames.Nodup)
    (clear : ∀ frame ∈ frames, frame < frameCount ∧ ¬ m.Used frame) :
    frames.length ≤ getFreeFrames m.pmm := by
  induction frames generalizing m with
  | nil => exact Nat.zero_le _
  | cons frame rest ih =>
      obtain ⟨bound, unused⟩ := clear frame List.mem_cons_self
      obtain ⟨new, others⟩ := List.nodup_cons.1 once
      have later := ih (m := m.mark frame) others (by
        intro other member
        obtain ⟨low, free⟩ := clear other (List.mem_cons_of_mem _ member)
        refine ⟨low, fun used => ?_⟩
        rcases (MemoryState.used_mark _ _ bound other).1 used with already | rfl
        · exact free already
        · exact new member)
      have taken := free_frames_mark bound unused
      rw [List.length_cons]
      omega

theorem free_frames_le_length (frames : List Nat)
    (all : ∀ frame, frame < frameCount → ¬ m.Used frame → frame ∈ frames) :
    getFreeFrames m.pmm ≤ frames.length := by
  have inside : (Finset.range (8 * bitmapSize)).filter (fun frame => ¬ m.Used frame) ⊆
      frames.toFinset := by
    intro frame member
    obtain ⟨low, clear⟩ := Finset.mem_filter.1 member
    exact List.mem_toFinset.2 (all frame (Finset.mem_range.1 low) clear)
  unfold getFreeFrames
  rw [count_clear_eq, Nat.count_eq_card_filter_range]
  exact (Finset.card_le_card inside).trans (List.toFinset_card_le frames)

end Counting

section NewPages

variable {m next : MemoryState} {pd virtualAddr frame : Nat}

def hasTable (m : MemoryState) (pd i : Nat) : Bool := present (m.words pd i)

structure Mapped (m next : MemoryState) (pd virtualAddr frame : Nat) : Prop where
  space : Space next pd
  kept : ∀ f, m.Used f → next.Used f
  taken : next.Used frame
  entry : pageEntry next pd virtualAddr = makeEntry (frame * frameSize) userFlags
  kernel : ∀ i, userEntries ≤ i → next.words pd i = m.words pd i
  plain : Plain next pd frame
  data : ∀ f, Plain m pd f → Plain next pd f ∧ next.words f = m.words f
  others : ∀ other, other / tableSpan < userEntries → other / frameSize ≠ virtualAddr / frameSize →
    pageEntry next pd other = pageEntry m pd other
  demand : ∀ pages, getFreeFrames next.pmm + frameDemand (hasTable m pd) (virtualAddr :: pages) =
    getFreeFrames m.pmm + frameDemand (hasTable next pd) pages

/-- A page that finds its table takes its share of the free frames; else the last one went to
the page. -/
theorem map_demand (bound : frame < frameCount) (clear : ¬ m.Used frame) {entry : Nat}
    (outcome : MapOutcome (m.mark frame) pd virtualAddr entry next) (pdUsed : m.Used pd)
    (other : present (m.words pd (virtualAddr / tableSpan)) = true →
      pd ≠ frameOf (m.words pd (virtualAddr / tableSpan))) :
    ((hasTable m pd (virtualAddr / tableSpan) = true ∨ ¬ Exhausted (m.mark frame)) ∧
        ∀ pages, getFreeFrames next.pmm + frameDemand (hasTable m pd) (virtualAddr :: pages) =
          getFreeFrames m.pmm + frameDemand (hasTable next pd) pages) ∨
      (hasTable m pd (virtualAddr / tableSpan) = false ∧ getFreeFrames m.pmm = 1 ∧
        next = m.mark frame) := by
  have taken := free_frames_mark bound clear
  rcases map_budget outcome ((MemoryState.used_mark _ _ bound pd).2 (.inl pdUsed)) other with
    ⟨table, free, after⟩ | ⟨absent, some, free, after⟩ | ⟨absent, none, stays⟩
  · refine .inl ⟨.inl table, ?_⟩
    intro pages
    have same : hasTable next pd = hasTable m pd := funext after
    unfold frameDemand
    rw [same, missing_tables_served table, free, List.length_cons]
    omega
  · refine .inl ⟨.inr fun full => some (exhausted_iff.1 full), ?_⟩
    intro pages
    have added : hasTable next pd =
        fun i => decide (i = virtualAddr / tableSpan) || hasTable m pd i := funext after
    unfold frameDemand
    rw [added, missing_tables_added absent, free, List.length_cons]
    omega
  · exact .inr ⟨absent, by omega, stays⟩

/-- What mapping a newly allocated frame does: it is mapped, or it was the last one and a page
table was missing. -/
theorem map_new_page (space : Space m pd) (user : virtualAddr / tableSpan < userEntries)
    (bound : frame < frameCount) (clear : ¬ m.Used frame)
    (outcome : MapOutcome (m.mark frame) pd virtualAddr
      (makeEntry (frame * frameSize) userFlags) next) :
    Mapped m next pd virtualAddr frame ∨
      (hasTable m pd (virtualAddr / tableSpan) = false ∧ getFreeFrames m.pmm = 1 ∧
        next = m.mark frame) := by
  have marked := space_mark space bound
  rcases map_demand bound clear outcome space.directory
      (fun table => (space.used _ user table).2.symm) with ⟨served, demand⟩ | starved
  · left
    refine ⟨space_map marked user outcome, ?_, ?_, entry_mapped marked.toTables user outcome served, ?_,
      (plain_map marked.toTables user outcome (plain_taken space.toTables bound clear)).1, ?_, ?_,
      demand⟩
    · intro f used
      exact map_keeps_used outcome ((MemoryState.used_mark _ _ bound f).2 (.inl used))
    · exact map_keeps_used outcome ((MemoryState.used_mark _ _ bound frame).2 (.inr rfl))
    · intro i high
      rcases directory_after_map marked.toTables user outcome with
        same | ⟨_, _, _, _, _, linked, _⟩
      · exact same i
      · rw [linked, if_neg (Nat.ne_of_gt (user.trans_le high)), MemoryState.words_mark]
    · intro f plain
      have kept := plain_map marked.toTables user outcome (plain_mark plain bound)
      rw [MemoryState.words_mark] at kept
      exact kept
    · intro other otherUser different
      exact page_entry_map_other marked.toTables user outcome otherUser different
  · exact .inr starved

end NewPages

end CassiOS.Memory.UserSpace
