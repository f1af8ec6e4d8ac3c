import CassiOS.Kernel.FailedExec
import CassiOS.Support.LowestFirst

/-!
# The frames that starting a module takes

How many frames the parts of `ProcessMemory.loadModule` take. `allocFrame` hands out the
lowest frame that is free, so the count says which frames they are. Only frames in use are
written.
-/

namespace CassiOS.Kernel.BootFrames

open CassiOS.Support.LowestFirst
open CassiOS.Support.Words
open CassiOS.Memory.Physical
open CassiOS.Memory.Paging
open CassiOS.Memory.NewSpace
open CassiOS.Memory.UserSpace
open CassiOS.Kernel.ElfLoader
open CassiOS.Kernel.ProcessMemory
open CassiOS.Kernel.NewProcess
open CassiOS.Kernel.LoaderSafety (place_pages_exhausted user_entries_of_user)
open CassiOS.Kernel.ExecCleanup (place_pages_budget free_taken frame_demand_single
  frame_demand_nil frame_demand_append_le)
open CassiOS.Kernel.FailedExec (spaceTables startPages imageAccepted load_success
  start_pages_accepted)

set_option autoImplicit false

section Taking

variable {start : Nat → Prop} [DecidablePred start] {m next : MemoryState} {n : Nat}

theorem mark_filled (filled : Filled frameCount start m.Used n) {frame : Nat}
    (bound : frame < frameCount) (clear : ¬ m.Used frame)
    (below : ∀ other, other < frame → m.Used other) :
    Filled frameCount start (m.mark frame).Used (n + 1) :=
  filled.take bound clear below fun f _ => MemoryState.used_mark m frame bound f

/-- A page takes a frame for its table when there is none. -/
theorem map_filled {pd virtualAddr entry : Nat} (filled : Filled frameCount start m.Used n)
    (outcome : MapOutcome m pd virtualAddr entry next) :
    Filled frameCount start next.Used
      (n + if hasTable m pd (virtualAddr / tableSpan) = true then 0 else 1) := by
  cases outcome with
  | existing table =>
      rw [if_pos (show hasTable m pd (virtualAddr / tableSpan) = true from table)]
      exact filled
  | fresh table absent positive bound clear before =>
      rw [if_neg (show ¬ hasTable m pd (virtualAddr / tableSpan) = true by
        unfold hasTable
        rw [absent]
        exact Bool.false_ne_true)]
      exact mark_filled filled bound clear before
  | starved absent full => exact filled.full full (Nat.le_add_right n _)

end Taking

section Writing

variable {before m next after : MemoryState} {pd : Nat}

structure Quiet (m next : MemoryState) : Prop where
  grows : ∀ f, m.Used f → next.Used f
  unused : ∀ f, ¬ next.Used f → next.words f = m.words f

theorem quiet_refl (m : MemoryState) : Quiet m m := ⟨fun _ used => used, fun _ _ => rfl⟩

theorem Quiet.trans (first : Quiet m next) (second : Quiet next after) : Quiet m after where
  grows f used := second.grows f (first.grows f used)
  unused f unused :=
    (second.unused f unused).trans (first.unused f (mt (second.grows f) unused))

theorem quiet_mark {frame : Nat} (bound : frame < frameCount) : Quiet m (m.mark frame) where
  grows f used := (MemoryState.used_mark m frame bound f).2 (Or.inl used)
  unused _ _ := rfl

theorem quiet_fill {frame : Nat} (used : m.Used frame) (content : Nat → Nat) :
    Quiet m (m.fillFrame frame content) where
  grows _ used := used
  unused f unused := by
    funext j
    rw [MemoryState.words_fill_frame, if_neg]
    intro same
    exact unused (same ▸ used)

theorem quiet_set {frame : Nat} (used : m.Used frame) (index value : Nat) :
    Quiet m (m.setWord frame index value) where
  grows _ used := used
  unused f unused := by
    funext j
    rw [MemoryState.words_set_word, if_neg]
    intro same
    exact unused (same.1 ▸ used)

theorem quiet_map {virtualAddr entry : Nat} (reserved : Reserved before)
    (extension : Extends before m pd) (outcome : MapOutcome m pd virtualAddr entry next) :
    Quiet m next := by
  cases outcome with
  | existing table =>
      apply quiet_set
      rcases (extension.tables _ table).2 with new | ⟨_, kernel⟩
      · exact new.used
      · exact extension.grows _ (reserved.tables _ kernel)
  | fresh table absent positive bound clear before =>
      have taken : (m.mark table).Used table :=
        (MemoryState.used_mark m table bound table).2 (Or.inr rfl)
      have directory : (m.mark table).Used pd :=
        (MemoryState.used_mark m table bound pd).2 (Or.inl extension.own.used)
      apply Quiet.trans (quiet_mark bound)
      apply Quiet.trans (quiet_fill taken fun _ => 0)
      apply Quiet.trans (quiet_set (m := (m.mark table).fillFrame table fun _ => 0) directory
        (virtualAddr / tableSpan) (makeEntry (table * frameSize) userFlags))
      exact quiet_set (m := ((m.mark table).fillFrame table fun _ => 0).setWord pd
        (virtualAddr / tableSpan) (makeEntry (table * frameSize) userFlags)) taken
        (virtualAddr / frameSize % 1024) entry
  | starved absent full => exact quiet_refl m

end Writing

section Loading

variable {start : Nat → Prop} [DecidablePred start] {before m : MemoryState} {pd n : Nat}

theorem create_filled (filled : Filled frameCount start m.Used n) (zero : m.Used 0) :
    Filled frameCount start (createAddressSpace m).2.Used (n + 1) ∧
      Quiet m (createAddressSpace m).2 := by
  rcases create_address_space_cases zero with ⟨frame, _, bound, clear, below, run⟩ | ⟨full, run⟩
  · rw [run]
    refine ⟨mark_filled filled bound clear below, ?_⟩
    exact (quiet_mark bound).trans
      (quiet_fill ((MemoryState.used_mark m frame bound frame).2 (Or.inr rfl)) _)
  · rw [run]
    exact ⟨filled.full full (Nat.le_succ n), quiet_refl m⟩

theorem map_takes {m next : MemoryState} {pd virtualAddr entry : Nat}
    (outcome : MapOutcome m pd virtualAddr entry next) (pdUsed : m.Used pd)
    (other : present (m.words pd (virtualAddr / tableSpan)) = true →
      pd ≠ frameOf (m.words pd (virtualAddr / tableSpan))) :
    (∀ pages, frameDemand (hasTable m pd) (virtualAddr :: pages) =
      1 + (if hasTable m pd (virtualAddr / tableSpan) = true then 0 else 1) +
        frameDemand (hasTable next pd) pages) ∨ Exhausted next := by
  rcases map_budget outcome pdUsed other with
    ⟨table, _, tables⟩ | ⟨absent, _, _, tables⟩ | ⟨_, none, same⟩
  · left
    intro pages
    have served : hasTable m pd (virtualAddr / tableSpan) = true := table
    have equal : hasTable next pd = hasTable m pd := funext tables
    unfold frameDemand
    rw [if_pos served, equal, missing_tables_served served, List.length_cons]
    omega
  · left
    intro pages
    have missing : hasTable m pd (virtualAddr / tableSpan) = false := absent
    have added : hasTable next pd =
        fun i => decide (i = virtualAddr / tableSpan) || hasTable m pd i := funext tables
    unfold frameDemand
    rw [if_neg (by rw [missing]; exact Bool.false_ne_true), added, missing_tables_added missing,
      List.length_cons]
    omega
  · right
    rw [same]
    exact exhausted_iff.2 none

theorem place_pages_step (reserved : Reserved before) (extension : Extends before m pd)
    (page : Page) (rest : List Page) :
    (Exhausted m ∧ (placePages (pd * frameSize) (page :: rest) m).2 = m) ∨
      ∃ frame next, frame < frameCount ∧ ¬ m.Used frame ∧
        (∀ other, other < frame → m.Used other) ∧
        MapOutcome (m.mark frame) pd page.virtualAddr (makeEntry (frame * frameSize) userFlags)
          next ∧
        Extends before (next.fillFrame frame page.content) pd ∧ frame ≠ pd ∧ next.Used frame ∧
        placePages (pd * frameSize) (page :: rest) m =
          placePages (pd * frameSize) rest (next.fillFrame frame page.content) := by
  have zeroUsed := Extends.zero_used reserved extension
  rcases place_page_cases zeroUsed (pd * frameSize) page with
    ⟨frame, positive, bound, clear, below, run⟩ | ⟨full, run⟩
  · right
    have zeroMarked := (MemoryState.used_mark _ _ bound 0).2 (Or.inl zeroUsed)
    have outcome := map_user_page_outcome zeroMarked pd page.virtualAddr (frame * frameSize)
      userFlags
    have taken := map_keeps_used outcome ((MemoryState.used_mark _ _ bound frame).2 (Or.inr rfl))
    obtain ⟨mapped, unused, other, notTable⟩ :=
      extends_new_page extension positive bound clear outcome
    refine ⟨frame, _, bound, clear, below, outcome,
      extends_fill mapped page.content unused other notTable, other, taken, ?_⟩
    rw [placePages, run]
  · left
    refine ⟨full, ?_⟩
    rw [placePages, run]

/-- Placing pages takes a frame for each page and for each missing page table. -/
theorem place_filled (reserved : Reserved before) (extension : Extends before m pd)
    (filled : Filled frameCount start m.Used n) (pages : List Page) :
    Filled frameCount start (placePages (pd * frameSize) pages m).2.Used
        (n + frameDemand (hasTable m pd) (pages.map Page.virtualAddr)) ∧
      Quiet m (placePages (pd * frameSize) pages m).2 := by
  induction pages generalizing m n with
  | nil => exact ⟨filled, quiet_refl m⟩
  | cons page rest ih =>
      rcases place_pages_step reserved extension page rest with
        ⟨full, stays⟩ | ⟨frame, next, bound, clear, below, outcome, extended, other, taken, run⟩
      · rw [stays]
        exact ⟨filled.full full (Nat.le_add_right n _), quiet_refl m⟩
      · have marked := map_filled (mark_filled filled bound clear below) outcome
        have written := (quiet_mark bound).trans
          (quiet_map reserved (extends_take extension bound) outcome)
        have quiet := written.trans (quiet_fill taken page.content)
        have onward := ih extended marked
        have tables : hasTable (next.fillFrame frame page.content) pd = hasTable next pd := by
          funext i
          unfold hasTable
          rw [MemoryState.words_fill_frame, if_neg other.symm]
        rw [run]
        refine ⟨?_, quiet.trans onward.2⟩
        have directory : (m.mark frame).Used pd :=
          (MemoryState.used_mark _ _ bound pd).2 (Or.inl extension.own.used)
        rcases map_takes outcome directory
            (fun table => (extension.tables _ table).1.symm) with demand | full
        · have here := demand (rest.map Page.virtualAddr)
          have count := onward.1
          rw [tables, Nat.add_assoc, Nat.add_assoc, ← Nat.add_assoc 1, ← here] at count
          exact count
        · have zeroNext := Extends.zero_used reserved extended
          rw [place_pages_exhausted zeroNext full]
          apply Filled.full marked full
          have single := frame_demand_append_le (hasTable m pd) [page.virtualAddr]
            (rest.map Page.virtualAddr)
          rw [frame_demand_single, List.singleton_append] at single
          rw [List.map_cons]
          change n + 1 + (if hasTable m pd _ = true then 0 else 1) ≤ _
          split at single
          · next table => rw [if_pos table]; omega
          · next table => rw [if_neg table]; omega

/-- The frames that `spawn` takes, and the memory it leaves. -/
inductive SpawnFrames (m : MemoryState) (pd heapStart : Nat) : Prop
  | noStack (full : Exhausted m)
      (run : ∀ process, (spawn (pd * frameSize) heapStart process m).2 = m) :
      SpawnFrames m pd heapStart
  | noKernelStack (frame : Nat) (next : MemoryState) (bound : frame < frameCount)
      (clear : ¬ m.Used frame) (below : ∀ other, other < frame → m.Used other)
      (outcome : MapOutcome (m.mark frame) pd userStackPage
        (makeEntry (frame * frameSize) userFlags) next) (full : Exhausted next)
      (run : ∀ process, (spawn (pd * frameSize) heapStart process m).2 = next) :
      SpawnFrames m pd heapStart
  | taken (frame stack : Nat) (next : MemoryState) (bound : frame < frameCount)
      (clear : ¬ m.Used frame) (below : ∀ other, other < frame → m.Used other)
      (outcome : MapOutcome (m.mark frame) pd userStackPage
        (makeEntry (frame * frameSize) userFlags) next) (stackBound : stack < frameCount)
      (stackClear : ¬ next.Used stack) (stackBelow : ∀ other, other < stack → next.Used other)
      (run : (spawn (pd * frameSize) heapStart true m).2 = next.mark stack)
      (undone : (spawn (pd * frameSize) heapStart false m).2 = next) :
      SpawnFrames m pd heapStart

theorem spawn_frames (reserved : Reserved before) (extension : Extends before m pd)
    (heapStart : Nat) : SpawnFrames m pd heapStart := by
  have zeroUsed := Extends.zero_used reserved extension
  rcases take_frame_cases zeroUsed with ⟨frame, positive, bound, clear, below, run⟩ | ⟨full, run⟩
  · have zeroMarked := (MemoryState.used_mark _ _ bound 0).2 (Or.inl zeroUsed)
    have outcome := map_user_page_outcome zeroMarked pd userStackPage (frame * frameSize) userFlags
    rcases take_frame_cases (map_keeps_used outcome zeroMarked) with
      ⟨stack, stackPositive, stackBound, stackClear, stackBelow, stackRun⟩ | ⟨full, stackRun⟩
    · refine .taken frame stack _ bound clear below outcome stackBound stackClear stackBelow ?_ ?_
      · unfold spawn
        rw [run]
        simp only [if_neg (frame_address positive).1]
        rw [stackRun]
        simp only [if_neg (frame_address stackPositive).1, if_true]
      · unfold spawn
        rw [run]
        simp only [if_neg (frame_address positive).1]
        rw [stackRun]
        simp only [if_neg (frame_address stackPositive).1, Bool.false_eq_true, if_false]
        exact free_taken stackBound stackClear
    · refine .noKernelStack frame _ bound clear below outcome full fun process => ?_
      unfold spawn
      rw [run]
      simp only [if_neg (frame_address positive).1]
      rw [stackRun]
      simp only [if_true]
  · refine .noStack full fun process => ?_
    unfold spawn
    rw [run]
    simp only [if_true]

/-- `spawn` takes a frame for the stack page, its table if there is none, and the kernel stack,
which is given back when there is no process object. -/
theorem spawn_filled (reserved : Reserved before) (extension : Extends before m pd)
    (filled : Filled frameCount start m.Used n) (heapStart : Nat) :
    Filled frameCount start (spawn (pd * frameSize) heapStart true m).2.Used
        (n + frameDemand (hasTable m pd) [userStackPage] + 1) ∧
      ∀ process, Quiet m (spawn (pd * frameSize) heapStart process m).2 ∧
        ∀ f, (spawn (pd * frameSize) heapStart process m).2.Used f →
          (spawn (pd * frameSize) heapStart true m).2.Used f := by
  have mapped : ∀ {frame next}, frame < frameCount → ¬ m.Used frame →
      (∀ other, other < frame → m.Used other) →
      MapOutcome (m.mark frame) pd userStackPage (makeEntry (frame * frameSize) userFlags) next →
      Filled frameCount start next.Used (n + frameDemand (hasTable m pd) [userStackPage]) ∧
        Quiet m next := by
    intro frame next bound clear below outcome
    refine ⟨?_, (quiet_mark bound).trans
      (quiet_map reserved (extends_take extension bound) outcome)⟩
    have marked := map_filled (mark_filled filled bound clear below) outcome
    rw [Nat.add_assoc] at marked
    rw [frame_demand_single]
    change Filled _ _ _
      (n + (1 + if hasTable m pd (userStackPage / tableSpan) = true then 0 else 1)) at marked
    split
    · next table =>
      rw [if_pos table] at marked
      exact marked
    · next table =>
      rw [if_neg table] at marked
      exact marked
  cases spawn_frames reserved extension heapStart with
  | noStack full run =>
      simp only [run]
      refine ⟨filled.full full ?_, fun _ => ⟨quiet_refl m, fun _ used => used⟩⟩
      rw [Nat.add_assoc]
      exact Nat.le_add_right n _
  | noKernelStack frame next bound clear below outcome full run =>
      obtain ⟨marked, quiet⟩ := mapped bound clear below outcome
      simp only [run]
      exact ⟨marked.full full (Nat.le_succ _), fun _ => ⟨quiet, fun _ used => used⟩⟩
  | taken frame stack next bound clear below outcome stackBound stackClear stackBelow run undone =>
      obtain ⟨marked, quiet⟩ := mapped bound clear below outcome
      rw [run]
      refine ⟨mark_filled marked stackBound stackClear stackBelow, fun process => ?_⟩
      cases process with
      | true =>
          rw [run]
          exact ⟨quiet.trans (quiet_mark stackBound), fun _ used => used⟩
      | false =>
          rw [undone]
          exact ⟨quiet, (quiet_mark stackBound).grows⟩

end Loading

section Modules

variable (elfData : Nat → UInt8) (elfSize : Nat)

/-- The memory when `ElfLoader::load` has returned. -/
def loadedModule (m : MemoryState) : MemoryState :=
  if (createAddressSpace m).1 = 0 then m
  else (load elfData elfSize (createAddressSpace m).1 (createAddressSpace m).2).2

/-- A directory, a frame for each page of the image and one for each page table. -/
def loadDemand (m : MemoryState) : Nat :=
  1 + frameDemand (spaceTables m) ((elfPages elfData elfSize).map Page.virtualAddr)

/-- The stack page and the kernel stack besides, unless the image is refused. -/
def startDemand (m : MemoryState) : Nat :=
  1 + frameDemand (spaceTables m) (startPages elfData elfSize) +
    if imageAccepted elfData elfSize then 1 else 0

variable {elfData elfSize} {start : Nat → Prop} [DecidablePred start] {m : MemoryState} {n : Nat}

theorem create_made (reserved : Reserved m) :
    (∃ pd made, 0 < pd ∧ createAddressSpace m = (pd * frameSize, made) ∧ Extends m made pd ∧
        hasTable made pd = spaceTables m) ∨
      (Exhausted m ∧ createAddressSpace m = (0, m)) := by
  rcases create_address_space_cases reserved.zero with ⟨frame, positive, _, _, _, run⟩ | none
  · left
    have nonzero := (frame_address positive).1
    obtain ⟨pd, _, same, extension⟩ := create_extends reserved run nonzero
    have equal : frame = pd := frame_address_injective same
    rw [← equal] at extension
    refine ⟨frame, _, positive, run, extension, ?_⟩
    funext i
    unfold hasTable spaceTables
    rw [MemoryState.words_fill_frame, if_pos rfl]
    rcases Nat.lt_or_ge i userEntries with low | high
    · rw [if_pos low, decide_eq_false (Nat.not_le.2 low)]
      rfl
    · rw [if_neg (Nat.not_lt.2 high), decide_eq_true high, Bool.true_and]
  · exact Or.inr none

theorem load_filled (reserved : Reserved m) (filled : Filled frameCount start m.Used n) :
    Filled frameCount start (loadedModule elfData elfSize m).Used
        (n + loadDemand elfData elfSize m) ∧
      Quiet m (loadedModule elfData elfSize m) := by
  have directory := create_filled filled reserved.zero
  unfold loadedModule loadDemand
  rcases create_made reserved with ⟨pd, made, positive, created, extension, tables⟩ | ⟨full, run⟩
  · rw [created] at directory ⊢
    rw [if_neg (frame_address positive).1, (load_pages _ made).1, ← Nat.add_assoc, ← tables]
    have placed := place_filled reserved extension directory.1 (elfPages elfData elfSize)
    exact ⟨placed.1, directory.2.trans placed.2⟩
  · rw [run, if_pos rfl]
    exact ⟨filled.full full (Nat.le_add_right n _), quiet_refl m⟩

/-- The frames that the module takes while there is room for its process object; nothing else
is taken when there is none. -/
theorem module_filled (reserved : Reserved m) (filled : Filled frameCount start m.Used n) :
    Filled frameCount start (loadModule elfData elfSize true m).2.Used
        (n + startDemand elfData elfSize m) ∧
      ∀ process, Quiet m (loadModule elfData elfSize process m).2 ∧
        ∀ f, (loadModule elfData elfSize process m).2.Used f →
          (loadModule elfData elfSize true m).2.Used f := by
  have directory := create_filled filled reserved.zero
  unfold loadModule startDemand
  rcases create_made reserved with ⟨pd, made, positive, created, extension, tables⟩ | ⟨full, run⟩
  · rw [created] at directory ⊢
    have placed := place_filled reserved extension directory.1 (elfPages elfData elfSize)
    have quiet := directory.2.trans placed.2
    have budget := place_pages_budget reserved extension (elfPages elfData elfSize)
    have extended := place_pages_extends reserved extension (elfPages elfData elfSize)
    have success := @load_success elfData elfSize (pd * frameSize) made
    have pages := (@load_pages elfData elfSize (pd * frameSize) made).1
    have longer := frame_demand_append_le (spaceTables m)
      ((elfPages elfData elfSize).map Page.virtualAddr) [userStackPage]
    simp only [if_neg (frame_address positive).1]
    rcases loading : load elfData elfSize (pd * frameSize) made with ⟨elf, loaded⟩
    rw [loading] at success pages
    dsimp only at success pages ⊢
    subst pages
    rw [success]
    rw [tables] at placed budget
    cases accepted : imageAccepted elfData elfSize with
    | false =>
        have refused : startPages elfData elfSize =
            (elfPages elfData elfSize).map Page.virtualAddr := by
          unfold startPages
          rw [accepted]
          exact List.append_nil _
        simp only [Bool.false_and, Bool.not_false, if_true, Bool.false_eq_true, if_false]
        rw [refused, Nat.add_zero, ← Nat.add_assoc]
        exact ⟨placed.1, fun _ => ⟨quiet, fun _ used => used⟩⟩
    | true =>
        rw [start_pages_accepted accepted]
        simp only [Bool.true_and, if_true]
        rcases Nat.lt_or_ge (getFreeFrames made.pmm) (frameDemand (spaceTables m)
          ((elfPages elfData elfSize).map Page.virtualAddr)) with few | enough
        · have exhausted := budget.2 few
          have none : ∀ process, (spawn (pd * frameSize) elf.heapStart process (placePages
              (pd * frameSize) (elfPages elfData elfSize) made).2).2 =
                (placePages (pd * frameSize) (elfPages elfData elfSize) made).2 := by
            cases spawn_frames reserved extended elf.heapStart with
            | noStack _ run => exact run
            | noKernelStack frame next bound clear => exact absurd (exhausted frame bound) clear
            | taken frame stack next bound clear => exact absurd (exhausted frame bound) clear
          have all := placed.1.full exhausted (k := n + (1 + frameDemand (spaceTables m)
            ((elfPages elfData elfSize).map Page.virtualAddr ++ [userStackPage]) + 1)) (by omega)
          cases (placePages (pd * frameSize) (elfPages elfData elfSize) made).1 with
          | false =>
              simp only [Bool.not_false, if_true]
              exact ⟨all, fun _ => ⟨quiet, fun _ used => used⟩⟩
          | true =>
              simp only [Bool.not_true, Bool.false_eq_true, if_false, none]
              exact ⟨all, fun _ => ⟨quiet, fun _ used => used⟩⟩
        · obtain ⟨done, count⟩ := budget.1 enough
          have stack := count [userStackPage]
          have none := count []
          rw [List.append_nil, frame_demand_nil] at none
          have spawned := spawn_filled reserved extended placed.1 elf.heapStart
          rw [done]
          simp only [Bool.not_true, Bool.false_eq_true, if_false]
          have total : n + (1 + frameDemand (spaceTables m)
                ((elfPages elfData elfSize).map Page.virtualAddr ++ [userStackPage]) + 1) =
              n + 1 +
                  frameDemand (spaceTables m) ((elfPages elfData elfSize).map Page.virtualAddr) +
                frameDemand (hasTable (placePages (pd * frameSize) (elfPages elfData elfSize)
                  made).2 pd) [userStackPage] + 1 := by omega
          rw [total]
          exact ⟨spawned.1, fun process => ⟨quiet.trans (spawned.2 process).1,
            (spawned.2 process).2⟩⟩
  · rw [run]
    simp only [if_true]
    refine ⟨filled.full full ?_, fun _ => ⟨quiet_refl m, fun _ used => used⟩⟩
    exact Nat.le_add_right n _

end Modules

section UserImages

variable {before m next : MemoryState} {pd : Nat}

def KeepsUsed (before m : MemoryState) : Prop := ∀ f, before.Used f → m.words f = before.words f

theorem KeepsUsed.fill (kept : KeepsUsed before m) {frame : Nat} (unused : ¬ before.Used frame)
    (content : Nat → Nat) : KeepsUsed before (m.fillFrame frame content) := by
  intro f used
  have words : (m.fillFrame frame content).words f = m.words f := by
    funext j
    rw [MemoryState.words_fill_frame, if_neg]
    intro same
    exact unused (same ▸ used)
  exact words.trans (kept f used)

theorem KeepsUsed.set (kept : KeepsUsed before m) {frame : Nat} (unused : ¬ before.Used frame)
    (index value : Nat) : KeepsUsed before (m.setWord frame index value) := by
  intro f used
  have words : (m.setWord frame index value).words f = m.words f := by
    funext j
    rw [MemoryState.words_set_word, if_neg]
    intro same
    exact unused (same.1 ▸ used)
  exact words.trans (kept f used)

theorem KeepsUsed.map (kept : KeepsUsed before m) (extension : Extends before m pd)
    {virtualAddr entry : Nat} (user : virtualAddr < kernelVbase)
    (outcome : MapOutcome m pd virtualAddr entry next) : KeepsUsed before next := by
  cases outcome with
  | existing table =>
      apply kept.set
      rcases (extension.tables _ table).2 with new | ⟨high, _⟩
      · exact new.unused
      · exact absurd high (Nat.not_le.2 (user_entries_of_user (Nat.not_le.2 user)))
  | fresh table absent positive bound clear below =>
      have unused : ¬ before.Used table := fun used => clear (extension.grows table used)
      have marked : KeepsUsed before (m.mark table) := kept
      have linked := (marked.fill unused fun _ => 0).set extension.own.unused
        (virtualAddr / tableSpan) (makeEntry (table * frameSize) userFlags)
      exact linked.set unused _ entry
  | starved absent full => exact kept

theorem place_keeps (reserved : Reserved before) (extension : Extends before m pd)
    (kept : KeepsUsed before m) (pages : List Page)
    (user : ∀ page ∈ pages, page.virtualAddr < kernelVbase) :
    KeepsUsed before (placePages (pd * frameSize) pages m).2 := by
  induction pages generalizing m with
  | nil => exact kept
  | cons page rest ih =>
      rcases place_pages_step reserved extension page rest with
        ⟨_, stays⟩ | ⟨frame, next, bound, clear, _, outcome, extended, _, _, run⟩
      · rw [stays]
        exact kept
      · have marked : KeepsUsed before (m.mark frame) := kept
        have unused : ¬ before.Used frame := fun used => clear (extension.grows frame used)
        have mapped := marked.map (extends_take extension bound) (user page List.mem_cons_self)
          outcome
        rw [run]
        exact ih extended (mapped.fill unused page.content) fun later member =>
          user later (List.mem_cons_of_mem page member)

theorem spawn_keeps (reserved : Reserved before) (extension : Extends before m pd)
    (kept : KeepsUsed before m) (heapStart : Nat) (process : Bool) :
    KeepsUsed before (spawn (pd * frameSize) heapStart process m).2 := by
  have mapped : ∀ {frame next}, frame < frameCount →
      MapOutcome (m.mark frame) pd userStackPage (makeEntry (frame * frameSize) userFlags) next →
      KeepsUsed before next := by
    intro frame next bound outcome
    have marked : KeepsUsed before (m.mark frame) := kept
    exact marked.map (extends_take extension bound) (by decide) outcome
  cases spawn_frames reserved extension heapStart with
  | noStack full run =>
      rw [run]
      exact kept
  | noKernelStack frame next bound clear below outcome full run =>
      rw [run]
      exact mapped bound outcome
  | taken frame stack next bound clear below outcome stackBound stackClear stackBelow run undone =>
      have kept : KeepsUsed before next := mapped bound outcome
      cases process with
      | true =>
          rw [run]
          exact kept
      | false =>
          rw [undone]
          exact kept

variable {elfData : Nat → UInt8} {elfSize : Nat}

theorem create_keeps (reserved : Reserved m) : KeepsUsed m (createAddressSpace m).2 := by
  have same : KeepsUsed m m := fun _ _ => rfl
  rcases create_address_space_cases reserved.zero with ⟨frame, _, bound, clear, _, run⟩ | ⟨_, run⟩
  · have marked : KeepsUsed m (m.mark frame) := same
    rw [run]
    exact marked.fill clear _
  · rw [run]
    exact same

/-- An image of user pages leaves the frames in use alone while it is loaded. -/
theorem load_keeps (reserved : Reserved m)
    (user : ∀ page ∈ elfPages elfData elfSize, page.virtualAddr < kernelVbase) :
    KeepsUsed m (loadedModule elfData elfSize m) := by
  have directory := create_keeps reserved
  unfold loadedModule
  rcases create_made reserved with ⟨pd, made, positive, created, extension, _⟩ | ⟨_, run⟩
  · rw [created] at directory ⊢
    rw [if_neg (frame_address positive).1, (load_pages _ made).1]
    exact place_keeps reserved extension directory _ user
  · rw [run, if_pos rfl]
    exact fun _ _ => rfl

theorem module_keeps (reserved : Reserved m) (process : Bool)
    (user : ∀ page ∈ elfPages elfData elfSize, page.virtualAddr < kernelVbase) :
    KeepsUsed m (loadModule elfData elfSize process m).2 := by
  have directory := create_keeps reserved
  unfold loadModule
  rcases create_made reserved with ⟨pd, made, positive, created, extension, _⟩ | ⟨_, run⟩
  · have extended := place_pages_extends reserved extension (elfPages elfData elfSize)
    have pages := (@load_pages elfData elfSize (pd * frameSize) made).1
    rw [created] at directory ⊢
    have placed := place_keeps reserved extension directory _ user
    simp only [if_neg (frame_address positive).1]
    rcases loading : load elfData elfSize (pd * frameSize) made with ⟨elf, loaded⟩
    rw [loading] at pages
    dsimp only at pages ⊢
    subst pages
    split
    · exact placed
    · exact spawn_keeps reserved extended placed elf.heapStart process
  · rw [run]
    simp only [if_true]
    exact fun _ _ => rfl

theorem create_directory (reserved : Reserved m) :
    (createAddressSpace m).2.kernelDirectory = m.kernelDirectory := by
  rcases create_made reserved with ⟨pd, made, _, created, extension, _⟩ | ⟨_, run⟩
  · rw [created]
    exact extension.directory
  · rw [run]

theorem loaded_directory (reserved : Reserved m) :
    (loadedModule elfData elfSize m).kernelDirectory = m.kernelDirectory := by
  unfold loadedModule
  rcases create_made reserved with ⟨pd, made, positive, created, extension, _⟩ | ⟨_, run⟩
  · rw [created, if_neg (frame_address positive).1, (load_pages _ made).1]
    exact (place_pages_extends reserved extension (elfPages elfData elfSize)).directory
  · rw [run, if_pos rfl]

end UserImages

end CassiOS.Kernel.BootFrames
