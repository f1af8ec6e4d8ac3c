import CassiOS.Kernel.FrameOwnership
import CassiOS.Kernel.NewProcess
import CassiOS.Memory.UserSpace

/-!
# Taking a half-built address space back

`destroyAddressSpace` frees what it finds in the page tables. While each page of a new
address space is a user page that was not mapped before and finds its page table, that is all
that was allocated (`Clean`); after the first page that is not, a frame is never found again
(`Lost`).
-/

namespace CassiOS.Kernel.ExecCleanup

open scoped List
open CassiOS.Memory.Physical
open CassiOS.Memory.Paging
open CassiOS.Memory.Ownership
open CassiOS.Memory.Owned
open CassiOS.Memory.NewSpace
open CassiOS.Memory.UserSpace
open CassiOS.Kernel.ElfLoader
open CassiOS.Kernel.ProcessMemory
open CassiOS.Kernel.NewProcess
open CassiOS.Kernel.FrameOwnership
open CassiOS.Kernel.LoaderSafety (place_pages_cases place_pages_exhausted)

set_option autoImplicit false

section Found

variable {before m next : MemoryState} {pd virtualAddr entry : Nat}

theorem mem_space_frames {address : Nat} :
    address ∈ spaceFrames m (pd * frameSize) ↔ address = pd * frameSize ∨
      ∃ i, i < userEntries ∧ present (m.words pd i) = true ∧
        (address = frameOf (m.words pd i) * frameSize ∨
          ∃ j, j < 1024 ∧ address ∈ pageFrame (m.words (frameOf (m.words pd i)) j)) := by
  rw [space_frames_eq, List.mem_append, List.mem_singleton, or_comm]
  apply or_congr_right
  rw [List.mem_flatMap]
  constructor
  · rintro ⟨i, inside, found⟩
    cases here : present (m.words pd i) with
    | false =>
        rw [entry_frames_absent here] at found
        exact absurd found List.not_mem_nil
    | true =>
        rw [entry_frames_present here, List.mem_append, List.mem_singleton] at found
        refine ⟨i, List.mem_range.1 inside, here, ?_⟩
        rcases found with page | table
        · obtain ⟨j, low, shown⟩ := List.mem_flatMap.1 page
          exact .inr ⟨j, List.mem_range.1 low, shown⟩
        · exact .inl table
  · rintro ⟨i, low, here, found⟩
    refine ⟨i, List.mem_range.2 low, ?_⟩
    rw [entry_frames_present here, List.mem_append, List.mem_singleton]
    rcases found with table | ⟨j, inside, shown⟩
    · exact .inr table
    · exact .inl (List.mem_flatMap.2 ⟨j, List.mem_range.2 inside, shown⟩)

/-- Mapping a page lets the walk find the page and a new page table, and nothing else. -/
theorem found_after_map (extension : Extends before m pd)
    (outcome : MapOutcome m pd virtualAddr entry next) {address : Nat}
    (member : address ∈ spaceFrames next (pd * frameSize)) :
    address ∈ spaceFrames m (pd * frameSize) ∨ address ∈ pageFrame entry ∨
      ∃ table, ¬ m.Used table ∧ address = table * frameSize := by
  cases outcome with
  | existing table =>
      have other := (extension.tables _ table).1
      rcases mem_space_frames.1 member with rfl | ⟨i, low, here, found⟩
      · exact .inl (directory_mem m pd)
      · have same : ∀ k, (m.setWord (frameOf (m.words pd (virtualAddr / tableSpan)))
            (virtualAddr / frameSize % 1024) entry).words pd k = m.words pd k := by
          intro k
          rw [MemoryState.words_set_word, if_neg fun hit => other hit.1.symm]
        rw [same] at here found
        rcases found with table | ⟨j, inside, shown⟩
        · exact .inl (mem_space_frames.2 (.inr ⟨i, low, here, .inl table⟩))
        · rw [MemoryState.words_set_word] at shown
          split at shown
          · exact .inr (.inl shown)
          · exact .inl (mem_space_frames.2 (.inr ⟨i, low, here, .inr ⟨j, inside, shown⟩⟩))
  | fresh table absent positive bound clear lower =>
      have number := (frame_address positive).2
      have other : pd ≠ table := fun same => clear (same ▸ extension.own.used)
      have entries : ∀ i, ((((m.mark table).fillFrame table fun _ => 0).setWord pd
          (virtualAddr / tableSpan) (makeEntry (table * frameSize) userFlags)).setWord table
            (virtualAddr / frameSize % 1024) entry).words pd i =
          if i = virtualAddr / tableSpan then makeEntry (table * frameSize) userFlags
          else m.words pd i := by
        intro i
        rw [MemoryState.words_set_word, if_neg fun same => other same.1,
          MemoryState.words_set_word]
        by_cases here : i = virtualAddr / tableSpan
        · rw [if_pos ⟨rfl, here⟩, if_pos here]
        · rw [if_neg fun same => here same.2, if_neg here, MemoryState.words_fill_frame,
            if_neg other, MemoryState.words_mark]
      rcases mem_space_frames.1 member with rfl | ⟨i, low, here, found⟩
      · exact .inl (directory_mem m pd)
      · rw [entries] at here found
        split at here
        · next same =>
          -- the new table
          rw [if_pos same, frame_of_make_entry, number] at found
          rcases found with rfl | ⟨j, _, shown⟩
          · exact .inr (.inr ⟨table, clear, rfl⟩)
          · rw [MemoryState.words_set_word] at shown
            split at shown
            · exact .inr (.inl shown)
            · rw [MemoryState.words_set_word, if_neg fun hit => other hit.1.symm,
                MemoryState.words_fill_frame, if_pos rfl, page_frame_zero] at shown
              exact absurd shown List.not_mem_nil
        · next different =>
          rw [if_neg different] at found
          have own : Table m pd (frameOf (m.words pd i)) := ⟨i, low, here, rfl⟩
          have apart : frameOf (m.words pd i) ≠ table := fun same =>
            clear (same ▸ (extension.table_new own).used)
          rcases found with old | ⟨j, inside, shown⟩
          · exact .inl (mem_space_frames.2 (.inr ⟨i, low, here, .inl old⟩))
          · rw [MemoryState.words_set_word, if_neg fun hit => apart hit.1,
              MemoryState.words_set_word, if_neg fun hit => (extension.tables i here).1 hit.1,
              MemoryState.words_fill_frame, if_neg apart, MemoryState.words_mark] at shown
            exact .inl (mem_space_frames.2 (.inr ⟨i, low, here, .inr ⟨j, inside, shown⟩⟩))
  | starved absent full => exact .inl member

end Found

section Leaks

variable {before m next : MemoryState} {pd virtualAddr frame g : Nat}

/-- Frame `g` was allocated since `before`, and the walk of `pd` does not find it. -/
structure Lost (before m : MemoryState) (pd g : Nat) : Prop where
  unused : ¬ before.Used g
  used : m.Used g
  missed : g * frameSize ∉ spaceFrames m (pd * frameSize)

theorem page_frame_entry {address : Nat}
    (member : address ∈ pageFrame (makeEntry (frame * frameSize) userFlags))
    (positive : 0 < frame) : address = frame * frameSize := by
  unfold pageFrame at member
  rw [frame_of_make_entry, (frame_address positive).2] at member
  dsimp only at member
  split at member
  · exact List.mem_singleton.1 member
  · exact absurd member List.not_mem_nil

theorem lost_new_page (extension : Extends before m pd) (lost : Lost before m pd g)
    (positive : 0 < frame) (bound : frame < frameCount) (clear : ¬ m.Used frame)
    (outcome : MapOutcome (m.mark frame) pd virtualAddr
      (makeEntry (frame * frameSize) userFlags) next) : Lost before next pd g := by
  have usedMarked : (m.mark frame).Used g := (MemoryState.used_mark _ _ bound g).2 (.inl lost.used)
  refine ⟨lost.unused, map_keeps_used outcome usedMarked, ?_⟩
  intro member
  rcases found_after_map (extends_take extension bound) outcome member with
    old | page | ⟨table, unused, same⟩
  · exact lost.missed old
  · have same := frame_address_injective (page_frame_entry page positive)
    exact clear (same ▸ lost.used)
  · exact unused (frame_address_injective same ▸ usedMarked)

theorem space_frames_fill (content : Nat → Nat) (other : frame ≠ pd)
    (notTable : ∀ table, Table m pd table → table ≠ frame) :
    spaceFrames (m.fillFrame frame content) (pd * frameSize) = spaceFrames m (pd * frameSize) := by
  apply space_frames_congr
  · intro i _
    rw [MemoryState.words_fill_frame, if_neg other.symm]
  · intro table own j _
    rw [MemoryState.words_fill_frame, if_neg (notTable table own)]

theorem lost_fill (lost : Lost before m pd g) (content : Nat → Nat) (other : frame ≠ pd)
    (notTable : ∀ table, Table m pd table → table ≠ frame) :
    Lost before (m.fillFrame frame content) pd g := by
  refine ⟨lost.unused, lost.used, ?_⟩
  rw [space_frames_fill content other notTable]
  exact lost.missed

theorem lost_place_pages (reserved : Reserved before) (extension : Extends before m pd)
    (lost : Lost before m pd g) (pages : List Page) :
    Lost before (placePages (pd * frameSize) pages m).2 pd g := by
  induction pages generalizing m with
  | nil => exact lost
  | cons page rest ih =>
      have zeroUsed := Extends.zero_used reserved extension
      rcases place_pages_cases pd zeroUsed page rest with
        ⟨_, run⟩ | ⟨frame, next, bound, clear, outcome, run⟩
      · rw [run]
        exact lost
      · have positive : 0 < frame := by
          rcases Nat.eq_zero_or_pos frame with rfl | positive
          · exact absurd zeroUsed clear
          · exact positive
        obtain ⟨mapped, unused, other, notTable⟩ :=
          extends_new_page extension positive bound clear outcome
        rw [run]
        apply ih (extends_fill mapped page.content unused other notTable)
        exact lost_fill (lost_new_page extension lost positive bound clear outcome) page.content
          other notTable

end Leaks

section Pages

variable {before m next : MemoryState} {pd virtualAddr frame : Nat} {seen : List Nat}

/-- The pages at the addresses `seen` were mapped, and everything that was allocated is found;
nothing that was in use is changed. -/
structure Clean (before m : MemoryState) (pd : Nat) (seen : List Nat) : Prop where
  owns : Owns before m pd []
  extension : Extends before m pd
  kernel : ∀ i, userEntries ≤ i → m.words pd i = before.kernelDirectory i
  contents : ∀ f, before.Used f → m.words f = before.words f
  pages : ∀ a, a / tableSpan < userEntries →
    (pageFrame (pageEntry m pd a) = [] ↔ ∀ b ∈ seen, b / frameSize ≠ a / frameSize)

/-- A user page that was not mapped before, with frames for it and for its page table. -/
def Fits (tables : Nat → Bool) (seen : List Nat) (free addr : Nat) : Prop :=
  addr / tableSpan < userEntries ∧ (∀ b ∈ seen, b / frameSize ≠ addr / frameSize) ∧
    frameDemand tables [addr] ≤ free

theorem frame_demand_single (tables : Nat → Bool) (addr : Nat) :
    frameDemand tables [addr] = if tables (addr / tableSpan) = true then 1 else 2 := by
  unfold frameDemand missingTables
  cases table : tables (addr / tableSpan) with
  | true => simp [Finset.filter_singleton, table]
  | false => simp [Finset.filter_singleton, table]

theorem served_iff (bound : frame < frameCount) (clear : ¬ m.Used frame) :
    frameDemand (hasTable m pd) [virtualAddr] ≤ getFreeFrames m.pmm ↔
      hasTable m pd (virtualAddr / tableSpan) = true ∨ ¬ Exhausted (m.mark frame) := by
  have taken := free_frames_mark bound clear
  rw [frame_demand_single, exhausted_iff]
  split
  · next table =>
    exact ⟨fun _ => .inl table, fun _ => by omega⟩
  · next absent =>
    constructor
    · exact fun enough => .inr (by omega)
    · rintro (table | some)
      · exact absurd table absent
      · omega

theorem owned_plain (owns : Owns before m pd []) {f : Nat} (used : before.Used f) :
    Plain m pd f := by
  have new := owns.new f used
  rw [List.nil_append] at new
  refine ⟨(owns.held f).2 (.inl used), ?_, ?_⟩
  · rintro rfl
    exact new (directory_mem m f)
  · rintro i low here rfl
    exact new (table_mem ⟨i, low, here, rfl⟩)

theorem clean_new_page (ready : Ready before) (clean : Clean before m pd seen)
    (positive : 0 < frame) (bound : frame < frameCount) (clear : ¬ m.Used frame)
    (outcome : MapOutcome (m.mark frame) pd virtualAddr
      (makeEntry (frame * frameSize) userFlags) next)
    (fits : Fits (hasTable m pd) seen (getFreeFrames m.pmm) virtualAddr) :
    Clean before next pd (virtualAddr :: seen) := by
  obtain ⟨user, unseen, enough⟩ := fits
  have served := (served_iff bound clear).1 enough
  have marked := (owns_take clean.owns bound clear).tables
  obtain ⟨owns, _, _, others⟩ := owns_new_page ready clean.owns bound clear user outcome served
    ((clean.pages _ user).2 unseen)
  have entry : pageEntry next pd virtualAddr = makeEntry (frame * frameSize) userFlags :=
    entry_mapped marked user outcome served
  constructor
  · exact owns
  · exact (extends_new_page clean.extension positive bound clear outcome).1
  · intro i high
    rcases directory_after_map marked user outcome with same | ⟨_, _, _, _, _, linked, _⟩
    · rw [same]
      exact clean.kernel i high
    · rw [linked, if_neg (Nat.ne_of_gt (user.trans_le high))]
      exact clean.kernel i high
  · intro f used
    rw [(plain_map marked user outcome (plain_mark (owned_plain clean.owns used) bound)).2]
    exact clean.contents f used
  · intro a inside
    by_cases here : a / frameSize = virtualAddr / frameSize
    · rw [page_entry_congr here, entry, page_frame_of_free ready clean.owns clear]
      refine ⟨fun impossible => absurd impossible (List.cons_ne_nil _ _), ?_⟩
      exact fun none => absurd here.symm (none virtualAddr List.mem_cons_self)
    · rw [others a inside here, clean.pages a inside, List.forall_mem_cons]
      exact ⟨fun none => ⟨fun same => here same.symm, none⟩, fun all => all.2⟩

theorem clean_fill (clean : Clean before m pd seen) (content : Nat → Nat)
    (unused : ¬ before.Used frame) (other : frame ≠ pd)
    (notTable : ∀ table, Table m pd table → table ≠ frame) :
    Clean before (m.fillFrame frame content) pd seen := by
  have notOwn : ¬ Table m pd frame := fun own => notTable frame own rfl
  constructor
  · exact owns_fill clean.owns content other notOwn
  · exact extends_fill clean.extension content unused other notTable
  · intro i high
    rw [MemoryState.words_fill_frame, if_neg other.symm]
    exact clean.kernel i high
  · intro f used
    funext j
    rw [MemoryState.words_fill_frame, if_neg (fun same : f = frame => unused (same ▸ used)),
      clean.contents f used]
  · intro a user
    rw [page_entry_fill content other notOwn user]
    exact clean.pages a user

theorem lost_of_same_space (clean : Clean before m pd seen) (clear : ¬ m.Used frame)
    (used : next.Used frame)
    (same : spaceFrames next (pd * frameSize) = spaceFrames m (pd * frameSize)) :
    Lost before next pd frame := by
  refine ⟨fun already => clear ((clean.owns.held frame).2 (.inl already)), used, ?_⟩
  rw [same]
  exact fun found => clear ((clean.owns.held frame).2 (.inr (List.mem_append_right [] found)))

/-- A page of the kernel's half goes into a table that the walk does not read. -/
theorem kernel_page_lost (reserved : Reserved before) (clean : Clean before m pd seen)
    (bound : frame < frameCount) (clear : ¬ m.Used frame) (high : userEntries ≤ virtualAddr / tableSpan)
    {entry : Nat} (outcome : MapOutcome (m.mark frame) pd virtualAddr entry next) :
    Lost before next pd frame := by
  have taken : (m.mark frame).Used frame := (MemoryState.used_mark _ _ bound frame).2 (.inr rfl)
  have own : ∀ {table}, Table m pd table → m.Used table ∧ ¬ before.Used table := by
    intro table own
    refine ⟨clean.owns.used_table own, fun used => ?_⟩
    exact clean.owns.new table used (List.mem_append_right _ (table_mem own))
  apply lost_of_same_space clean clear (map_keeps_used outcome taken)
  cases outcome with
  | existing table =>
      rw [MemoryState.words_mark, clean.kernel _ high] at table
      have kernel : before.Used (frameOf (before.kernelDirectory (virtualAddr / tableSpan))) :=
        reserved.tables _ ⟨_, high, table, rfl⟩
      rw [MemoryState.words_mark, clean.kernel _ high]
      apply space_frames_congr
      · intro i _
        rw [MemoryState.words_set_word, if_neg, MemoryState.words_mark]
        exact fun same => clean.extension.own.unused (same.1 ▸ kernel)
      · intro t behind j _
        rw [MemoryState.words_set_word, if_neg, MemoryState.words_mark]
        exact fun same => (own behind).2 (same.1 ▸ kernel)
  | fresh table absent positive low unused lower =>
      have new : ¬ m.Used table := fun used =>
        unused ((MemoryState.used_mark _ _ bound table).2 (.inl used))
      have other : pd ≠ table := fun same => new (same ▸ clean.owns.used_directory)
      apply space_frames_congr
      · intro i user
        have different : i ≠ virtualAddr / tableSpan := Nat.ne_of_lt (user.trans_le high)
        rw [MemoryState.words_set_word, if_neg (fun same => other same.1),
          MemoryState.words_set_word, if_neg (fun same => different same.2),
          MemoryState.words_fill_frame, if_neg other, MemoryState.words_mark,
          MemoryState.words_mark]
      · intro t behind j _
        have apart : t ≠ table := fun same => new (same ▸ (own behind).1)
        have notDirectory : t ≠ pd := table_not_directory clean.owns.space_once behind
        rw [MemoryState.words_set_word, if_neg (fun same => apart same.1),
          MemoryState.words_set_word, if_neg (fun same => notDirectory same.1),
          MemoryState.words_fill_frame, if_neg apart, MemoryState.words_mark,
          MemoryState.words_mark]
  | starved absent full => rfl

theorem replaced_page_lost (clean : Clean before m pd seen) (positive : 0 < frame)
    (bound : frame < frameCount) (clear : ¬ m.Used frame)
    (user : virtualAddr / tableSpan < userEntries)
    (mapped : pageFrame (pageEntry m pd virtualAddr) ≠ [])
    (outcome : MapOutcome (m.mark frame) pd virtualAddr
      (makeEntry (frame * frameSize) userFlags) next) :
    ∃ g, Lost before next pd g := by
  have table : present (m.words pd (virtualAddr / tableSpan)) = true := by
    by_contra absent
    rw [page_entry_absent (Bool.not_eq_true _ ▸ absent), page_frame_zero] at mapped
    exact mapped rfl
  have old : ∃ g, pageFrame (pageEntry m pd virtualAddr) = [g * frameSize] := by
    unfold pageFrame at mapped ⊢
    dsimp only at mapped ⊢
    split at mapped
    · next freed => exact ⟨_, if_pos freed⟩
    · exact absurd rfl mapped
  obtain ⟨g, here⟩ := old
  have found : g * frameSize ∈ spaceFrames m (pd * frameSize) := by
    apply mem_space_frames.2
    refine .inr ⟨_, user, table, .inr ⟨_, page_index_lt virtualAddr, ?_⟩⟩
    rw [page_entry_present table] at here
    rw [here]
    exact List.mem_singleton.2 rfl
  have used : m.Used g := (clean.owns.held g).2 (.inr (List.mem_append_right [] found))
  refine ⟨g, fun already => clean.owns.new g already (List.mem_append_right [] found), ?_, ?_⟩
  · exact map_keeps_used outcome ((MemoryState.used_mark _ _ bound g).2 (.inl used))
  · have once := (owns_take clean.owns bound clear).space_once
    have noEntry : g * frameSize ∉ pageFrame (makeEntry (frame * frameSize) userFlags) := by
      intro page
      have same := frame_address_injective (page_frame_entry page positive)
      exact clear (same ▸ used)
    cases outcome with
    | existing _ =>
        have change := @space_frames_existing (m.mark frame) pd virtualAddr
          (makeEntry (frame * frameSize) userFlags) once user table
        have marked : pageEntry (m.mark frame) pd virtualAddr = pageEntry m pd virtualAddr := rfl
        rw [marked, here] at change
        have counts := change.count_eq (g * frameSize)
        have single := List.nodup_iff_count_le_one.1 once (g * frameSize)
        rw [List.count_append, List.count_append, List.count_singleton_self,
          List.count_eq_zero.2 noEntry] at counts
        apply List.count_eq_zero.1
        omega
    | fresh _ absent => exact absurd (absent.symm.trans table) Bool.noConfusion
    | starved absent => exact absurd (absent.symm.trans table) Bool.noConfusion

theorem unfit_page_lost (reserved : Reserved before) (clean : Clean before m pd seen)
    (positive : 0 < frame) (bound : frame < frameCount) (clear : ¬ m.Used frame)
    (outcome : MapOutcome (m.mark frame) pd virtualAddr
      (makeEntry (frame * frameSize) userFlags) next)
    (unfit : ¬ Fits (hasTable m pd) seen (getFreeFrames m.pmm) virtualAddr) :
    ∃ g, Lost before next pd g := by
  rcases Nat.lt_or_ge (virtualAddr / tableSpan) userEntries with user | high
  · by_cases mapped : pageFrame (pageEntry m pd virtualAddr) = []
    · -- the last free frame went to a page without a table
      have starved : ¬ (hasTable m pd (virtualAddr / tableSpan) = true ∨
          ¬ Exhausted (m.mark frame)) := by
        intro served
        exact unfit ⟨user, (clean.pages _ user).1 mapped, (served_iff bound clear).2 served⟩
      rw [not_or, not_not] at starved
      have stays := map_starved outcome starved.1 starved.2
      refine ⟨frame, lost_of_same_space clean clear ?_ ?_⟩
      · rw [stays]
        exact (MemoryState.used_mark _ _ bound frame).2 (.inr rfl)
      · rw [stays]
        rfl
    · exact replaced_page_lost clean positive bound clear user mapped outcome
  · exact ⟨frame, kernel_page_lost reserved clean bound clear high outcome⟩

end Pages

section Prefixes

variable {tables tables' : Nat → Bool} {seen : List Nat} {free free' addr : Nat} {rest : List Nat}

/-- Each page that a frame is left for fits: `addresses` are mapped in order, and `free`
frames are left for them and their page tables. -/
def Undoable (tables : Nat → Bool) (seen : List Nat) (free : Nat) (addresses : List Nat) : Prop :=
  ∀ placed addr rest, addresses = placed ++ addr :: rest → frameDemand tables placed < free →
    addr / tableSpan < userEntries ∧
      (∀ b ∈ seen ++ placed, b / frameSize ≠ addr / frameSize) ∧
      frameDemand tables (placed ++ [addr]) ≤ free

theorem undoable_nil : Undoable tables seen free [] := by
  intro placed addr rest split
  exact absurd (congrArg List.length split) (by simp)

theorem undoable_none {addresses : List Nat} : Undoable tables seen 0 addresses :=
  fun _ _ _ _ impossible => absurd impossible (Nat.not_lt_zero _)

theorem frame_demand_nil : frameDemand tables [] = 0 := rfl

theorem undoable_first (undoable : Undoable tables seen free (addr :: rest)) (some : free ≠ 0) :
    Fits tables seen free addr := by
  have first := undoable [] addr rest rfl (Nat.pos_of_ne_zero some)
  rw [List.append_nil, List.nil_append] at first
  exact first

theorem undoable_cons (fits : Fits tables seen free addr)
    (demand : ∀ pages, free' + frameDemand tables (addr :: pages) =
      free + frameDemand tables' pages) :
    Undoable tables seen free (addr :: rest) ↔ Undoable tables' (addr :: seen) free' rest := by
  constructor
  · intro undoable placed next later split less
    have here := demand placed
    have after := demand (placed ++ [next])
    obtain ⟨user, unseen, enough⟩ := undoable (addr :: placed) next later
      (by rw [split, List.cons_append]) (by omega)
    refine ⟨user, ?_, ?_⟩
    · intro b member
      apply unseen
      simp only [List.mem_append, List.mem_cons] at member ⊢
      rcases member with (rfl | old) | new
      · exact .inr (.inl rfl)
      · exact .inl old
      · exact .inr (.inr new)
    · rw [List.cons_append] at enough
      omega
  · intro undoable placed next later split less
    cases placed with
    | nil =>
        obtain ⟨rfl, _⟩ := List.cons.inj split
        rw [List.append_nil, List.nil_append]
        exact fits
    | cons first placed =>
        obtain ⟨rfl, same⟩ := List.cons.inj split
        have here := demand placed
        have after := demand (placed ++ [next])
        obtain ⟨user, unseen, enough⟩ := undoable placed next later same (by omega)
        refine ⟨user, ?_, ?_⟩
        · intro b member
          apply unseen
          simp only [List.mem_append, List.mem_cons] at member ⊢
          rcases member with old | rfl | new
          · exact .inl (.inr old)
          · exact .inl (.inl rfl)
          · exact .inr new
        · rw [List.cons_append]
          omega

theorem frame_demand_append_le (tables : Nat → Bool) (first second : List Nat) :
    frameDemand tables first ≤ frameDemand tables (first ++ second) := by
  unfold frameDemand missingTables
  rw [List.length_append, List.map_append, List.toFinset_append]
  have more : (first.map (· / tableSpan)).toFinset ⊆
      (first.map (· / tableSpan)).toFinset ∪ (second.map (· / tableSpan)).toFinset :=
    Finset.subset_union_left
  have wider := Finset.card_le_card
    (Finset.filter_subset_filter (fun i => tables i = false) more)
  omega

/-- One more page plays a part only when a frame is left for it. -/
theorem undoable_concat {addresses : List Nat} :
    Undoable tables seen free (addresses ++ [addr]) ↔
      Undoable tables seen free addresses ∧ (frameDemand tables addresses < free →
        addr / tableSpan < userEntries ∧
          (∀ b ∈ seen ++ addresses, b / frameSize ≠ addr / frameSize) ∧
          frameDemand tables (addresses ++ [addr]) ≤ free) := by
  constructor
  · intro undoable
    refine ⟨?_, fun less => undoable addresses addr [] rfl less⟩
    intro placed next later split less
    exact undoable placed next (later ++ [addr]) (by rw [split, List.append_assoc]; rfl) less
  · rintro ⟨undoable, last⟩ placed next later split less
    rcases List.eq_nil_or_concat later with rfl | ⟨init, end', rfl⟩
    · obtain ⟨rfl, same⟩ := List.append_inj' split rfl
      obtain rfl := List.cons.inj same |>.1
      exact last less
    · rw [List.concat_eq_append, ← List.cons_append, ← List.append_assoc] at split
      obtain ⟨same, _⟩ := List.append_inj' split rfl
      exact undoable placed next init same less

end Prefixes

section Runs

variable {before m : MemoryState} {pd : Nat} {seen : List Nat}

/-- How many frames placing pages takes; when they run out none is left. -/
theorem place_pages_budget (reserved : Reserved before) (extension : Extends before m pd)
    (pages : List Page) :
    (frameDemand (hasTable m pd) (pages.map Page.virtualAddr) ≤ getFreeFrames m.pmm →
        (placePages (pd * frameSize) pages m).1 = true ∧
        ∀ more, getFreeFrames (placePages (pd * frameSize) pages m).2.pmm +
          frameDemand (hasTable m pd) (pages.map Page.virtualAddr ++ more) =
            getFreeFrames m.pmm +
              frameDemand (hasTable (placePages (pd * frameSize) pages m).2 pd) more) ∧
      (getFreeFrames m.pmm < frameDemand (hasTable m pd) (pages.map Page.virtualAddr) →
        Exhausted (placePages (pd * frameSize) pages m).2) := by
  induction pages generalizing m with
  | nil =>
      refine ⟨fun _ => ⟨rfl, fun _ => rfl⟩, fun short => ?_⟩
      exact absurd short (Nat.not_lt_zero _)
  | cons page rest ih =>
      have zeroUsed := Extends.zero_used reserved extension
      rcases place_page_cases zeroUsed (pd * frameSize) page with
        ⟨frame, positive, bound, clear, _, run⟩ | ⟨full, run⟩
      · have zeroMarked := (MemoryState.used_mark _ _ bound 0).2 (.inl zeroUsed)
        have outcome := map_user_page_outcome zeroMarked pd page.virtualAddr (frame * frameSize)
          userFlags
        generalize mapUserPage (pd * frameSize) page.virtualAddr (frame * frameSize) userFlags
          (m.mark frame) = next at outcome run
        obtain ⟨mapped, unused, other, notTable⟩ :=
          extends_new_page extension positive bound clear outcome
        have filled := extends_fill mapped page.content unused other notTable
        have placed : placePages (pd * frameSize) (page :: rest) m =
            placePages (pd * frameSize) rest (next.fillFrame frame page.content) := by
          rw [placePages, run]
        have tables : hasTable (next.fillFrame frame page.content) pd = hasTable next pd := by
          funext i
          unfold hasTable
          rw [MemoryState.words_fill_frame, if_neg other.symm]
        obtain ⟨served, short⟩ := ih filled
        rw [tables, MemoryState.pmm_fill_frame] at served short
        rw [placed, List.map_cons]
        rcases map_demand bound clear outcome extension.own.used
            (fun table => (extension.tables _ table).1.symm) with ⟨_, demand⟩ | ⟨absent, last, stays⟩
        · have budget := demand (rest.map Page.virtualAddr)
          constructor
          · intro enough
            obtain ⟨done, count⟩ := served (by omega)
            refine ⟨done, fun more => ?_⟩
            have here := demand (rest.map Page.virtualAddr ++ more)
            have after := count more
            rw [List.cons_append]
            omega
          · exact fun few => short (by omega)
        · have single := frame_demand_append_le (hasTable m pd) [page.virtualAddr]
            (rest.map Page.virtualAddr)
          rw [frame_demand_single, if_neg (by rw [absent]; exact Bool.false_ne_true),
            List.singleton_append] at single
          refine ⟨fun enough => absurd enough (by omega), fun _ => ?_⟩
          have full : Exhausted (m.mark frame) := by
            apply exhausted_iff.2
            have taken := free_frames_mark bound clear
            omega
          have zeroFilled : ((m.mark frame).fillFrame frame page.content).Used 0 := zeroMarked
          rw [stays, place_pages_exhausted zeroFilled full]
          exact full
      · have none := exhausted_iff.1 full
        have placed : placePages (pd * frameSize) (page :: rest) m = (false, m) := by
          rw [placePages, run]
        rw [placed, List.map_cons]
        refine ⟨fun enough => ?_, fun _ => full⟩
        unfold frameDemand at enough
        rw [List.length_cons] at enough
        omega

theorem page_clean_or_lost (ready : Ready before) (clean : Clean before m pd seen)
    {virtualAddr frame : Nat} {next : MemoryState} (positive : 0 < frame)
    (bound : frame < frameCount) (clear : ¬ m.Used frame)
    (outcome : MapOutcome (m.mark frame) pd virtualAddr
      (makeEntry (frame * frameSize) userFlags) next) :
    (Fits (hasTable m pd) seen (getFreeFrames m.pmm) virtualAddr ∧
        Clean before next pd (virtualAddr :: seen) ∧
        ∀ pages, getFreeFrames next.pmm + frameDemand (hasTable m pd) (virtualAddr :: pages) =
          getFreeFrames m.pmm + frameDemand (hasTable next pd) pages) ∨
      (¬ Fits (hasTable m pd) seen (getFreeFrames m.pmm) virtualAddr ∧
        ∃ g, Lost before next pd g) := by
  by_cases fits : Fits (hasTable m pd) seen (getFreeFrames m.pmm) virtualAddr
  · left
    refine ⟨fits, clean_new_page ready clean positive bound clear outcome fits, ?_⟩
    rcases map_demand bound clear outcome clean.owns.used_directory
        (fun table => (clean.owns.tables.used _ fits.1 table).2.symm) with
      ⟨_, demand⟩ | ⟨absent, last, _⟩
    · exact demand
    · have enough := fits.2.2
      rw [frame_demand_single, if_neg (by rw [absent]; exact Bool.false_ne_true)] at enough
      omega
  · exact .inr ⟨fits, unfit_page_lost (reserved_of_booted ready.toBooted) clean positive bound
      clear outcome fits⟩

/-- Placing pages in order keeps the address space clean as long as they fit. -/
theorem place_pages_clean_or_lost (ready : Ready before) (clean : Clean before m pd seen)
    (pages : List Page) :
    (Undoable (hasTable m pd) seen (getFreeFrames m.pmm) (pages.map Page.virtualAddr) ∧
        ∃ seen', Clean before (placePages (pd * frameSize) pages m).2 pd seen' ∧
          (frameDemand (hasTable m pd) (pages.map Page.virtualAddr) ≤ getFreeFrames m.pmm →
            ∀ b, b ∈ seen' ↔ b ∈ seen ++ pages.map Page.virtualAddr)) ∨
      (¬ Undoable (hasTable m pd) seen (getFreeFrames m.pmm) (pages.map Page.virtualAddr) ∧
        ∃ g, Lost before (placePages (pd * frameSize) pages m).2 pd g) := by
  induction pages generalizing m seen with
  | nil =>
      left
      refine ⟨undoable_nil, seen, clean, fun _ b => ?_⟩
      rw [List.map_nil, List.append_nil]
  | cons page rest ih =>
      have reserved := reserved_of_booted ready.toBooted
      have zeroUsed := Extends.zero_used reserved clean.extension
      rw [List.map_cons]
      rcases place_page_cases zeroUsed (pd * frameSize) page with
        ⟨frame, positive, bound, clear, _, run⟩ | ⟨full, run⟩
      · have zeroMarked := (MemoryState.used_mark _ _ bound 0).2 (.inl zeroUsed)
        have outcome := map_user_page_outcome zeroMarked pd page.virtualAddr (frame * frameSize)
          userFlags
        generalize mapUserPage (pd * frameSize) page.virtualAddr (frame * frameSize) userFlags
          (m.mark frame) = next at outcome run
        obtain ⟨mapped, unused, other, notTable⟩ :=
          extends_new_page clean.extension positive bound clear outcome
        have placed : placePages (pd * frameSize) (page :: rest) m =
            placePages (pd * frameSize) rest (next.fillFrame frame page.content) := by
          rw [placePages, run]
        have some : getFreeFrames m.pmm ≠ 0 := by
          rw [free_frames_mark bound clear]
          exact Nat.succ_ne_zero _
        rw [placed]
        rcases page_clean_or_lost ready clean positive bound clear outcome with
          ⟨fits, cleanNext, demand⟩ | ⟨unfit, g, lost⟩
        · have filled := clean_fill cleanNext page.content unused other notTable
          have tables : hasTable (next.fillFrame frame page.content) pd = hasTable next pd := by
            funext i
            unfold hasTable
            rw [MemoryState.words_fill_frame, if_neg other.symm]
          have rests := ih filled
          rw [tables, MemoryState.pmm_fill_frame] at rests
          rw [undoable_cons fits demand]
          rcases rests with ⟨undoable, seen', final, members⟩ | lost
          · refine .inl ⟨undoable, seen', final, fun enough b => ?_⟩
            have budget := demand (rest.map Page.virtualAddr)
            rw [members (by omega) b]
            simp only [List.mem_append, List.mem_cons]
            rw [or_assoc, or_left_comm]
          · exact .inr lost
        · right
          refine ⟨fun undoable => unfit (undoable_first undoable some), g, ?_⟩
          exact lost_place_pages reserved (extends_fill mapped page.content unused other notTable)
            (lost_fill lost page.content other notTable) rest
      · have placed : placePages (pd * frameSize) (page :: rest) m = (false, m) := by
          rw [placePages, run]
        left
        rw [placed, exhausted_iff.1 full]
        refine ⟨undoable_none, seen, clean, fun enough => ?_⟩
        unfold frameDemand at enough
        rw [List.length_cons] at enough
        omega

end Runs

section Restoring

variable {before m : MemoryState} {pd : Nat} {seen : List Nat}

def Existing (m : MemoryState) (pd : Nat) : Prop :=
  m.Used pd ∧ ∀ i, present (m.words pd i) = true → m.Used (frameOf (m.words pd i))

/-- The same frames are in use, and nothing in them has changed: no address space maps
anything else, and no page holds anything else. -/
structure Restored (before after : MemoryState) : Prop where
  bitmap : ∀ frame, after.Used frame ↔ before.Used frame
  contents : ∀ frame, before.Used frame → after.words frame = before.words frame
  spaces : ∀ pd, Existing before pd → ∀ a,
    translation after (after.words pd) a = translation before (before.words pd) a
  kernel : ∀ a, userEntries ≤ a / tableSpan →
    translation after after.kernelDirectory a = translation before before.kernelDirectory a

theorem restored_of_contents (reserved : Reserved before)
    (bitmap : ∀ frame, m.Used frame ↔ before.Used frame)
    (contents : ∀ frame, before.Used frame → m.words frame = before.words frame)
    (directory : m.kernelDirectory = before.kernelDirectory) : Restored before m := by
  refine ⟨bitmap, contents, ?_, ?_⟩
  · intro pd existing a
    unfold translation
    rw [contents pd existing.1]
    dsimp only
    split
    · next table => rw [contents _ (existing.2 _ table)]
    · rfl
  · intro a high
    unfold translation
    rw [directory]
    dsimp only
    split
    · next table => rw [contents _ (reserved.tables _ ⟨_, high, table, rfl⟩)]
    · rfl

theorem used_destroyed (extension : Extends before m pd) (frame : Nat) :
    (destroyAddressSpace (pd * frameSize) m).Used frame ↔
      m.Used frame ∧ frame * frameSize ∉ spaceFrames m (pd * frameSize) := by
  unfold destroyAddressSpace
  rw [used_free_frames]
  · apply and_congr_right
    intro _
    constructor
    · exact fun apart member => apart _ member (frame_of_address frame)
    · intro missed address member same
      obtain ⟨f, rfl, _⟩ := extension.found member
      rw [frame_of_address] at same
      exact missed (same ▸ member)
  · intro address member
    obtain ⟨f, rfl, new⟩ := extension.found member
    rw [frame_of_address]
    exact new.bound

theorem clean_restored (ready : Ready before) (clean : Clean before m pd seen) :
    Restored before (destroyAddressSpace (pd * frameSize) m) := by
  obtain ⟨words, directory⟩ := @free_frames_words m (spaceFrames m (pd * frameSize))
  apply restored_of_contents (reserved_of_booted ready.toBooted)
  · intro frame
    have new := clean.owns.new frame
    rw [used_destroyed clean.extension, clean.owns.held]
    rw [List.nil_append] at new ⊢
    constructor
    · rintro ⟨already | found, missed⟩
      · exact already
      · exact absurd found missed
    · exact fun already => ⟨.inl already, new already⟩
  · intro frame used
    unfold destroyAddressSpace
    rw [words]
    exact clean.contents frame used
  · unfold destroyAddressSpace
    rw [directory]
    exact clean.extension.directory

theorem lost_not_restored (extension : Extends before m pd) {g : Nat} (lost : Lost before m pd g) :
    ¬ Restored before (destroyAddressSpace (pd * frameSize) m) := by
  intro restored
  exact lost.unused ((restored.bitmap g).1
    ((used_destroyed extension g).2 ⟨lost.used, lost.missed⟩))

theorem free_taken {frame : Nat} (bound : frame < frameCount) (clear : ¬ m.Used frame) :
    freeFrames (m.mark frame) [frame * frameSize] = m := by
  have bitmap : markFree (markUsed m.pmm.bitmap frame) (frame * frameSize / frameSize) =
      m.pmm.bitmap := by
    rw [frame_of_address]
    apply bitmap_ext
    intro other
    rw [used_mark_free _ _ _ bound, used_mark_used _ _ _ bound]
    constructor
    · rintro ⟨used | same, apart⟩
      · exact used
      · exact absurd same apart
    · exact fun used => ⟨.inl used, fun same => clear (same ▸ used)⟩
  unfold freeFrames MemoryState.mark
  rw [List.foldl_cons, List.foldl_nil]
  unfold freeFrame
  dsimp only
  rw [bitmap]

end Restoring

section Spawning

variable {before m : MemoryState} {pd : Nat} {seen : List Nat}

/-- The ends of `spawn` on the side of the memory, when the heap has room for the process. -/
inductive SpawnOutcome (m : MemoryState) (pd : Nat) : Option UserProcess × MemoryState → Prop
  | noStack (full : Exhausted m) : SpawnOutcome m pd (none, m)
  | noKernelStack (frame : Nat) (next : MemoryState) (positive : 0 < frame)
      (bound : frame < frameCount) (clear : ¬ m.Used frame)
      (outcome : MapOutcome (m.mark frame) pd userStackPage
        (makeEntry (frame * frameSize) userFlags) next) (full : Exhausted next) :
      SpawnOutcome m pd (none, next)
  | spawned (frame stack : Nat) (next : MemoryState) (p : UserProcess) (positive : 0 < frame)
      (bound : frame < frameCount) (clear : ¬ m.Used frame)
      (outcome : MapOutcome (m.mark frame) pd userStackPage
        (makeEntry (frame * frameSize) userFlags) next)
      (stackBound : stack < frameCount) (stackClear : ¬ next.Used stack)
      (directory : p.pageDirectory = pd * frameSize) :
      SpawnOutcome m pd (some p, next.mark stack)

theorem spawn_outcome (zeroUsed : m.Used 0) (heapStart : Nat) :
    SpawnOutcome m pd (spawn (pd * frameSize) heapStart true m) := by
  unfold spawn
  rcases take_frame_cases zeroUsed with ⟨frame, positive, bound, clear, _, run⟩ | ⟨full, run⟩
  · have zeroMarked := (MemoryState.used_mark _ _ bound 0).2 (.inl zeroUsed)
    have outcome := map_user_page_outcome zeroMarked pd userStackPage (frame * frameSize) userFlags
    have zeroNext := map_keeps_used outcome zeroMarked
    rw [run]
    simp only [if_neg (frame_address positive).1]
    generalize mapUserPage (pd * frameSize) userStackPage (frame * frameSize) userFlags
      (m.mark frame) = next at outcome zeroNext ⊢
    rcases take_frame_cases zeroNext with
      ⟨stack, stackPositive, stackBound, stackClear, _, stackRun⟩ | ⟨full, stackRun⟩
    · rw [stackRun]
      simp only [if_neg (frame_address stackPositive).1, if_true]
      exact .spawned frame stack next _ positive bound clear outcome stackBound stackClear rfl
    · rw [stackRun]
      simp only [if_true]
      exact .noKernelStack frame next positive bound clear outcome full
  · rw [run]
    simp only [if_true]
    exact .noStack full

/-- `spawn` succeeds when there are frames for the stack page, its page table and the kernel
stack. -/
theorem spawn_some_iff (extension : Extends before m pd)
    {answer : Option UserProcess × MemoryState} (outcome : SpawnOutcome m pd answer) :
    answer.1.isSome ↔
      frameDemand (hasTable m pd) [userStackPage] < getFreeFrames m.pmm := by
  have budget : ∀ {frame : Nat} {next : MemoryState}, frame < frameCount → ¬ m.Used frame →
      MapOutcome (m.mark frame) pd userStackPage (makeEntry (frame * frameSize) userFlags) next →
      (¬ Exhausted next ↔
        frameDemand (hasTable m pd) [userStackPage] < getFreeFrames m.pmm) := by
    intro frame next bound clear mapped
    rw [exhausted_iff]
    rcases map_demand bound clear mapped extension.own.used
        (fun table => (extension.tables _ table).1.symm) with ⟨_, demand⟩ | ⟨absent, last, stays⟩
    · have here := demand []
      rw [frame_demand_nil] at here
      omega
    · have taken := free_frames_mark bound clear
      rw [stays, last, frame_demand_single, if_neg (by rw [absent]; exact Bool.false_ne_true)]
      omega
  cases outcome with
  | noStack full =>
      have none := exhausted_iff.1 full
      rw [none]
      exact ⟨fun impossible => Bool.noConfusion impossible,
        fun less => absurd less (Nat.not_lt_zero _)⟩
  | noKernelStack frame next positive bound clear mapped full =>
      exact ⟨fun impossible => Bool.noConfusion impossible,
        fun less => absurd full ((budget bound clear mapped).2 less)⟩
  | spawned frame stack next p positive bound clear mapped stackBound stackClear _ =>
      have some : ¬ Exhausted next := fun full => stackClear (full stack stackBound)
      exact ⟨fun _ => (budget bound clear mapped).1 some, fun _ => rfl⟩

/-- A failed `spawn` can be undone when the stack page fits, or no frame was left for it. -/
theorem spawn_clean_or_lost (ready : Ready before) (clean : Clean before m pd seen)
    {after : MemoryState} (outcome : SpawnOutcome m pd (none, after)) :
    Extends before after pd ∧
      (((getFreeFrames m.pmm ≠ 0 →
          Fits (hasTable m pd) seen (getFreeFrames m.pmm) userStackPage) ∧
          ∃ seen', Clean before after pd seen') ∨
        (¬ (getFreeFrames m.pmm ≠ 0 →
          Fits (hasTable m pd) seen (getFreeFrames m.pmm) userStackPage) ∧
          ∃ g, Lost before after pd g)) := by
  have mapped : ∀ {frame : Nat} {next : MemoryState}, 0 < frame → frame < frameCount →
      ¬ m.Used frame →
      MapOutcome (m.mark frame) pd userStackPage (makeEntry (frame * frameSize) userFlags) next →
      Extends before next pd ∧
        (((getFreeFrames m.pmm ≠ 0 →
            Fits (hasTable m pd) seen (getFreeFrames m.pmm) userStackPage) ∧
            ∃ seen', Clean before next pd seen') ∨
          (¬ (getFreeFrames m.pmm ≠ 0 →
            Fits (hasTable m pd) seen (getFreeFrames m.pmm) userStackPage) ∧
            ∃ g, Lost before next pd g)) := by
    intro frame next positive bound clear mapped
    have some : getFreeFrames m.pmm ≠ 0 := by
      rw [free_frames_mark bound clear]
      exact Nat.succ_ne_zero _
    refine ⟨(extends_new_page clean.extension positive bound clear mapped).1, ?_⟩
    rcases page_clean_or_lost ready clean positive bound clear mapped with
      ⟨fits, cleanNext, _⟩ | ⟨unfit, lost⟩
    · exact .inl ⟨fun _ => fits, _, cleanNext⟩
    · exact .inr ⟨fun fits => unfit (fits some), lost⟩
  cases outcome with
  | noStack full =>
      exact ⟨clean.extension, .inl ⟨fun some => absurd (exhausted_iff.1 full) some, _, clean⟩⟩
  | noKernelStack frame next positive bound clear outcome full =>
      exact mapped positive bound clear outcome

theorem spawn_lost (extension : Extends before m pd) {g : Nat} (lost : Lost before m pd g)
    {after : MemoryState} (outcome : SpawnOutcome m pd (none, after)) :
    Extends before after pd ∧ Lost before after pd g := by
  cases outcome with
  | noStack full => exact ⟨extension, lost⟩
  | noKernelStack frame next positive bound clear outcome full =>
      exact ⟨(extends_new_page extension positive bound clear outcome).1,
        lost_new_page extension lost positive bound clear outcome⟩

theorem fill_frame_self (m : MemoryState) (frame : Nat) :
    m.fillFrame frame (m.words frame) = m := by
  have same : (fun f => if f = frame then m.words frame else m.words f) = m.words := by
    funext f
    split
    · next here => rw [here]
    · rfl
  unfold MemoryState.fillFrame
  rw [same]

theorem kept_mark (kept : LoaderSafety.Kept before m pd) {frame : Nat} (bound : frame < frameCount) :
    LoaderSafety.Kept before (m.mark frame) pd := by
  have grows : ∀ f, m.Used f → (m.mark frame).Used f := fun f used =>
    (MemoryState.used_mark _ _ bound f).2 (.inl used)
  refine ⟨fun f used => grows f (kept.grows f used), kept.directory, ?_, ?_⟩
  · intro f j changed
    rcases kept.writes f j changed with own | ⟨unused, used⟩
    · exact .inl own
    · exact .inr ⟨unused, grows f used⟩
  · intro i low here
    exact ⟨(kept.tables i low here).1, grows _ (kept.tables i low here).2⟩

theorem spawn_kernel (target : LoaderSafety.Target before pd) {p : UserProcess}
    {after : MemoryState} (outcome : SpawnOutcome m pd (some p, after)) :
    (LoaderSafety.Kept before m pd → LoaderSafety.Kept before after pd) ∧
      (LoaderSafety.Overwritten before m pd → LoaderSafety.Overwritten before after pd) := by
  cases outcome with
  | spawned frame stack next p positive bound clear outcome stackBound stackClear _ =>
      constructor
      · intro kept
        have mapped : LoaderSafety.Kept before (next.fillFrame frame (next.words frame)) pd :=
          LoaderSafety.kept_user_page target kept (fun _ => by decide) bound clear outcome
        rw [fill_frame_self] at mapped
        exact kept_mark mapped stackBound
      · rintro ⟨f, j, used, outside, was, taken, now⟩
        have marked := (MemoryState.used_mark m frame bound f).2 (.inl taken)
        obtain ⟨still, here⟩ := LoaderSafety.map_keeps_entry outcome (make_entry_user _) marked now
        exact ⟨f, j, used, outside, was,
          (MemoryState.used_mark next stack stackBound f).2 (.inl still), here⟩

end Spawning

end CassiOS.Kernel.ExecCleanup
