import CassiOS.Kernel.LoaderSafety
import CassiOS.Kernel.ProcessMemory
import CassiOS.Memory.Owned

/-!
# Frames over the life of a process

`destroy` infers the frames of a process from its page tables. They are the frames that
were allocated for it as long as no mapping replaces a page of its own or brings in a
frame of someone else, and every allocated page finds a page table.
-/

namespace CassiOS.Kernel.FrameOwnership

open CassiOS.Support.Words
open CassiOS.Support.TransitionSystem
open CassiOS.Memory.Physical
open CassiOS.Memory.Paging
open CassiOS.Memory.Ownership
open CassiOS.Memory.Owned
open CassiOS.Kernel.ElfLoader
open CassiOS.Kernel.ProcessMemory
open CassiOS.Kernel.LoaderSafety
  (place_pages_cases place_pages_exhausted place_pages_keep_used)

set_option autoImplicit false

section Specification

/-- The machine before the process exists. `KernelHeap::init` has taken the first 256 free
frames, so none below `deviceLimit` is left, and the top of a kernel stack does not wrap. -/
structure Ready (m : MemoryState) : Prop extends Booted m where
  low : ∀ frame, frame < 256 → m.Used frame
  top : m.Used 0x3FFFF

/-- What the exit of a process gives back, against what was allocated since `before`. -/
structure Balanced (before : MemoryState) (s : Life) : Prop where
  frames : ∀ address ∈ destroyedFrames s.process s.memory,
    ∃ frame, address = frame * frameSize ∧ frame < frameCount
  once : (destroyedFrames s.process s.memory).Nodup
  handed : ∀ frame, frame * frameSize ∈ destroyedFrames s.process s.memory ↔
    s.memory.Used frame ∧ ¬ before.Used frame
  restored : ∀ frame, (destroy s.process s.memory).Used frame ↔ before.Used frame

/-- No two pages of the image coincide, and all lie below the stack page. -/
def SafeImage (elfData : Nat → UInt8) (elfSize : Nat) : Prop :=
  ((elfPages elfData elfSize).map Page.virtualAddr).Nodup ∧
    ∀ page ∈ elfPages elfData elfSize, page.virtualAddr < userStackPage

/-- While `free` frames last, no heap page replaces a page of the process, and each finds
its page table. -/
def safeHeap (entries : Nat → Nat) : (free : Nat) → (tables : Nat → Bool) → List Nat → Bool
  | _, _, [] => true
  | free, tables, addr :: rest =>
      if free = 0 then true
      else if pageFrame (entries addr) ≠ [] then false
      else if tables (addr / tableSpan) then safeHeap entries (free - 1) tables rest
      else if free = 1 then false
      else safeHeap entries (free - 2)
        (fun i => decide (i = addr / tableSpan) || tables i) rest

/-- Each device page that is mapped stands for the frame that was there before: none, when
it is device memory and the page was not mapped. -/
def safeDevice (entries : Nat → Nat) :
    (free : Nat) → (tables : Nat → Bool) → List (Nat × Nat) → Bool
  | _, _, [] => true
  | free, tables, (virt, physical) :: rest =>
      if tables (virt / tableSpan) then
        decide (pageFrame (makeEntry physical userFlags) = pageFrame (entries virt)) &&
          safeDevice entries free tables rest
      else if free = 0 then safeDevice entries free tables rest
      else
        decide (pageFrame (makeEntry physical userFlags) = pageFrame (entries virt)) &&
          safeDevice entries (free - 1)
            (fun i => decide (i = virt / tableSpan) || tables i) rest

def tablesOf (m : MemoryState) (pd i : Nat) : Bool := present (m.words pd i)

/-- The condition under which a call keeps the books. -/
def Safe (s : Life) : Call → Prop
  | .sbrk increment => ∀ newBreak, acceptedBreak increment s.process = some newBreak →
      safeHeap (pageEntry s.memory (s.process.pageDirectory / frameSize))
        (getFreeFrames s.memory.pmm)
        (tablesOf s.memory (s.process.pageDirectory / frameSize))
        (heapPages s.process.heapBreak newBreak) = true
  | .mapDevice physical virt pages => deviceAccepted physical virt pages s.process = true →
      safeDevice (pageEntry s.memory (s.process.pageDirectory / frameSize))
        (getFreeFrames s.memory.pmm)
        (tablesOf s.memory (s.process.pageDirectory / frameSize))
        (devicePages physical virt pages) = true

end Specification

section Pages

variable {before m next : MemoryState} {pd virtualAddr frame : Nat} {extra : List Nat}

theorem low_used (ready : Ready before) (owns : Owns before m pd extra) {frame : Nat}
    (low : frame < 256) : m.Used frame := (owns.held frame).2 (.inl (ready.low frame low))

theorem page_frame_of_free (ready : Ready before) (owns : Owns before m pd extra)
    (clear : ¬ m.Used frame) :
    pageFrame (makeEntry (frame * frameSize) userFlags) = [frame * frameSize] := by
  have high : 256 ≤ frame := by
    by_contra low
    exact clear (low_used ready owns (Nat.not_le.1 low))
  unfold pageFrame
  rw [frame_of_make_entry, (frame_address (by omega)).2, if_pos]
  refine ⟨present_make_entry _, ?_⟩
  unfold deviceLimit frameSize
  omega

/-- A page over none, mapped to a new frame, takes the frame into the books. -/
theorem owns_new_page (ready : Ready before) (owns : Owns before m pd extra)
    (bound : frame < frameCount) (clear : ¬ m.Used frame)
    (user : virtualAddr / tableSpan < userEntries)
    (outcome : MapOutcome (m.mark frame) pd virtualAddr
      (makeEntry (frame * frameSize) userFlags) next)
    (mapped : present (m.words pd (virtualAddr / tableSpan)) = true ∨ ¬ Exhausted (m.mark frame))
    (unmapped : pageFrame (pageEntry m pd virtualAddr) = []) :
    Owns before next pd extra ∧ frame ≠ pd ∧ ¬ Table next pd frame ∧
      ∀ other, other / tableSpan < userEntries → other / frameSize ≠ virtualAddr / frameSize →
        pageEntry next pd other = pageEntry m pd other := by
  have taken := owns_take owns bound clear
  have used : (m.mark frame).Used frame := (MemoryState.used_mark _ _ bound _).2 (.inr rfl)
  refine ⟨?_, fun same => clear (same ▸ owns.used_directory), ?_, ?_⟩
  · apply owns_map [frame * frameSize] taken user outcome
    · change _ = [frame * frameSize] ++ pageFrame (pageEntry m pd virtualAddr)
      rw [unmapped, List.append_nil]
      exact page_frame_of_free ready owns clear
    · rcases mapped with table | notFull
      · exact .inl table
      · exact .inr (.inl notFull)
  · intro own
    rcases table_after_map taken.space_once user taken.used_directory outcome own with old | new
    · exact clear (owns.used_table old)
    · exact new used
  · intro other otherUser different
    exact page_entry_map_other taken.tables user outcome otherUser different

theorem map_starved {entry : Nat} (outcome : MapOutcome m pd virtualAddr entry next)
    (absent : ¬ present (m.words pd (virtualAddr / tableSpan)) = true) (full : Exhausted m) :
    next = m := by
  cases outcome with
  | existing table => exact absurd table absent
  | fresh table _ _ bound clear => exact absurd (full table bound) clear
  | starved => rfl

theorem place_pages_owned (ready : Ready before) (owns : Owns before m pd extra)
    (pages : List Page) (user : ∀ page ∈ pages, page.virtualAddr / tableSpan < userEntries)
    (apart : pages.Pairwise fun a b => a.virtualAddr / frameSize ≠ b.virtualAddr / frameSize)
    (unmapped : ∀ page ∈ pages, pageFrame (pageEntry m pd page.virtualAddr) = [])
    (notFull : ¬ Exhausted (placePages (pd * frameSize) pages m).2) :
    Owns before (placePages (pd * frameSize) pages m).2 pd extra ∧
      ∀ other, other / tableSpan < userEntries →
        (∀ page ∈ pages, other / frameSize ≠ page.virtualAddr / frameSize) →
        pageEntry (placePages (pd * frameSize) pages m).2 pd other = pageEntry m pd other := by
  induction pages generalizing m with
  | nil => exact ⟨owns, fun _ _ _ => rfl⟩
  | cons page rest ih =>
      have zeroUsed := low_used ready owns (by decide : 0 < 256)
      rcases place_pages_cases pd zeroUsed page rest with
        ⟨full, run⟩ | ⟨frame, next, bound, clear, outcome, run⟩
      · rw [run] at notFull
        exact absurd full notFull
      · rw [run] at notFull ⊢
        have pageUser := user page List.mem_cons_self
        have mapped : present (m.words pd (page.virtualAddr / tableSpan)) = true ∨
            ¬ Exhausted (m.mark frame) := by
          by_contra starved
          rw [not_or, not_not] at starved
          have stays := map_starved outcome starved.1 starved.2
          have zeroMarked := (MemoryState.used_mark _ _ bound 0).2 (.inl zeroUsed)
          have full : Exhausted ((m.mark frame).fillFrame frame page.content) := starved.2
          have zeroFilled := (MemoryState.used_fill_frame _ frame page.content 0).2 zeroMarked
          apply notFull
          rw [stays, place_pages_exhausted zeroFilled full]
          exact full
        obtain ⟨owned, other, notTable, entries⟩ := owns_new_page ready owns bound clear pageUser
          outcome mapped (unmapped page List.mem_cons_self)
        have filled := owns_fill owned page.content other notTable
        obtain ⟨first, others⟩ := List.pairwise_cons.1 apart
        have settled : ∀ a, a / tableSpan < userEntries →
            a / frameSize ≠ page.virtualAddr / frameSize →
            pageEntry (next.fillFrame frame page.content) pd a = pageEntry m pd a := by
          intro a inside different
          rw [page_entry_fill page.content other notTable inside, entries a inside different]
        obtain ⟨final, kept⟩ := ih filled (fun p member => user p (List.mem_cons_of_mem _ member))
          others (by
            intro p member
            rw [settled _ (user p (List.mem_cons_of_mem _ member)) (first p member).symm]
            exact unmapped p (List.mem_cons_of_mem _ member)) notFull
        refine ⟨final, ?_⟩
        intro a inside different
        rw [kept a inside fun p member => different p (List.mem_cons_of_mem _ member),
          settled a inside (different page List.mem_cons_self)]

end Pages

section Creation

variable {before m : MemoryState}

structure Alive (before : MemoryState) (s : Life) : Prop where
  directory : ∃ pd, 0 < pd ∧ s.process.pageDirectory = pd * frameSize ∧
    Owns before s.memory pd [kernelStackFrame s.process]
  stack : s.process.kernelEsp ≠ 0
  stackFrame : ∃ frame, kernelStackFrame s.process = frame * frameSize

theorem owns_create (booted : Booted m) {pdPhysical : Nat} {made : MemoryState}
    (created : createAddressSpace m = (pdPhysical, made)) (nonzero : pdPhysical ≠ 0) :
    ∃ pd, 0 < pd ∧ pdPhysical = pd * frameSize ∧ Owns m made pd [] ∧
      ∀ a, a / tableSpan < userEntries → pageEntry made pd a = 0 := by
  rcases create_address_space_cases booted.zeroUsed with
    ⟨frame, positive, bound, clear, _, run⟩ | ⟨_, run⟩
  · rw [created] at run
    obtain ⟨rfl, rfl⟩ := Prod.mk.inj run
    have entry : ∀ i, i < userEntries → ((m.mark frame).fillFrame frame fun i =>
        if i < userEntries then 0 else m.kernelDirectory i).words frame i = 0 := by
      intro i low
      rw [MemoryState.words_fill_frame, if_pos rfl, if_pos low]
    have absent : ∀ i, i < userEntries → present (((m.mark frame).fillFrame frame fun i =>
        if i < userEntries then 0 else m.kernelDirectory i).words frame i) = false := by
      intro i low
      rw [entry i low]
      rfl
    have found : spaceFrames ((m.mark frame).fillFrame frame fun i =>
        if i < userEntries then 0 else m.kernelDirectory i) (frame * frameSize) =
          [frame * frameSize] := by
      have none : (List.range userEntries).flatMap (entryFrames ((m.mark frame).fillFrame frame
          fun i => if i < userEntries then 0 else m.kernelDirectory i) frame) = [] := by
        apply List.flatMap_eq_nil_iff.2
        intro i inside
        exact entry_frames_absent (absent i (List.mem_range.1 inside))
      rw [space_frames_eq, none, List.nil_append]
    have used := MemoryState.used_mark m frame bound
    refine ⟨frame, positive, rfl, ?_, fun a inside => page_entry_absent (absent _ inside)⟩
    constructor
    · rw [found]
      exact List.nodup_singleton _
    · intro f
      rw [found, MemoryState.used_fill_frame, used, List.nil_append, List.mem_singleton]
      exact or_congr_right ⟨fun same => by rw [same], frame_address_injective⟩
    · intro f already
      rw [found, List.nil_append, List.mem_singleton]
      intro same
      exact clear (frame_address_injective same ▸ already)
    · intro f
      rw [found, List.nil_append, List.mem_singleton]
      intro same
      rw [frame_address_injective same]
      exact bound
  · rw [created] at run
    exact absurd (Prod.mk.inj run).1 nonzero

theorem spawn_cases (zeroUsed : m.Used 0) {pd heapStart : Nat} {process : Bool} {p : UserProcess}
    {after : MemoryState}
    (spawned : spawn (pd * frameSize) heapStart process m = (some p, after)) :
    ∃ frame next stack, frame < frameCount ∧ ¬ m.Used frame ∧
      MapOutcome (m.mark frame) pd userStackPage (makeEntry (frame * frameSize) userFlags) next ∧
      stack < frameCount ∧ ¬ next.Used stack ∧ after = next.mark stack ∧
      p = ⟨pd * frameSize, u32 (stack * frameSize + kernelVbase + frameSize), heapStart,
        heapStart⟩ := by
  unfold spawn at spawned
  rcases take_frame_cases zeroUsed with ⟨frame, positive, bound, clear, _, run⟩ | ⟨_, run⟩
  · have nonzero := (frame_address positive).1
    have zeroMarked := (MemoryState.used_mark _ _ bound 0).2 (.inl zeroUsed)
    have outcome := map_user_page_outcome zeroMarked pd userStackPage (frame * frameSize) userFlags
    have zeroNext := map_keeps_used outcome zeroMarked
    rw [run] at spawned
    simp only [if_neg nonzero] at spawned
    rcases take_frame_cases zeroNext with
      ⟨stack, stackPositive, stackBound, stackClear, _, stackRun⟩ | ⟨_, stackRun⟩
    · rw [stackRun] at spawned
      simp only [if_neg (frame_address stackPositive).1] at spawned
      cases process with
      | true =>
          obtain ⟨same, rfl⟩ := Prod.mk.inj spawned
          exact ⟨frame, _, stack, bound, clear, outcome, stackBound, stackClear, rfl,
            (Option.some.inj same).symm⟩
      | false => exact absurd (Prod.mk.inj spawned).1 nofun
    · rw [stackRun] at spawned
      exact absurd (Prod.mk.inj spawned).1 nofun
  · rw [run] at spawned
    exact absurd (Prod.mk.inj spawned).1 nofun

theorem user_page {a : Nat} (low : a ≤ userStackPage) : a / tableSpan < userEntries := by
  unfold userStackPage at low
  unfold tableSpan userEntries
  omega

theorem stack_address {stack : Nat} (low : stack < 0x3FFFF) (p : UserProcess)
    (top : p.kernelEsp = u32 (stack * frameSize + kernelVbase + frameSize)) :
    p.kernelEsp ≠ 0 ∧ kernelStackFrame p = stack * frameSize := by
  unfold kernelStackFrame
  rw [top]
  unfold u32 frameSize kernelVbase
  omega

/-- A process that `exec` creates owns what was allocated for it. -/
theorem exec_alive (ready : Ready m) {elfData : Nat → UInt8} {elfSize : Nat}
    (safe : SafeImage elfData elfSize) {process : Bool} {p : UserProcess} {after : MemoryState}
    (started : exec elfData elfSize process m = (some p, after)) : Alive m ⟨p, after⟩ := by
  unfold exec at started
  rcases created : createAddressSpace m with ⟨pdPhysical, made⟩
  rw [created] at started
  dsimp only at started
  split at started
  · exact absurd (Prod.mk.inj started).1 nofun
  · next nonzero =>
    obtain ⟨pd, positive, rfl, owns, empty⟩ := owns_create ready.toBooted created nonzero
    rcases loaded : load elfData elfSize (pd * frameSize) made with ⟨elf, filled⟩
    rw [loaded] at started
    dsimp only at started
    split at started
    · exact absurd (Prod.mk.inj started).1 nofun
    · rcases spawned : spawn (pd * frameSize) elf.heapStart process filled with ⟨_ | child, final⟩
      · rw [spawned] at started
        exact absurd (Prod.mk.inj started).1 nofun
      · rw [spawned] at started
        obtain ⟨same, rfl⟩ := Prod.mk.inj started
        obtain rfl := Option.some.inj same
        have pages := (@load_pages elfData elfSize (pd * frameSize) made).1
        rw [loaded] at pages
        dsimp only at pages
        subst pages
        have zeroMade := low_used ready owns (by decide : 0 < 256)
        have zeroFilled := @place_pages_keep_used _ pd zeroMade (elfPages elfData elfSize) 0 zeroMade
        obtain ⟨frame, next, stack, bound, clear, outcome, stackBound, stackClear, rfl, rfl⟩ :=
          spawn_cases zeroFilled spawned
        have below : ∀ page ∈ elfPages elfData elfSize,
            page.virtualAddr / frameSize ≠ userStackPage / frameSize := by
          intro page member
          have low := safe.2 page member
          unfold userStackPage at low ⊢
          unfold frameSize
          omega
        have apart : (elfPages elfData elfSize).Pairwise fun a b =>
            a.virtualAddr / frameSize ≠ b.virtualAddr / frameSize := by
          apply (List.pairwise_map.1 safe.1).imp_of_mem
          intro a b first second different same
          have alignedA := (elf_pages_small a first).2
          have alignedB := (elf_pages_small b second).2
          unfold frameSize at same alignedA alignedB
          omega
        have notFull : ¬ Exhausted (placePages (pd * frameSize) (elfPages elfData elfSize) made).2 :=
          fun full => clear (full frame bound)
        obtain ⟨owned, kept⟩ := place_pages_owned ready owns (elfPages elfData elfSize)
          (fun page member => user_page (safe.2 page member).le) apart (by
            intro page member
            rw [empty _ (user_page (safe.2 page member).le)]
            exact page_frame_zero) notFull
        have mapped : present ((placePages (pd * frameSize) (elfPages elfData elfSize) made).2.words
            pd (userStackPage / tableSpan)) = true ∨
              ¬ Exhausted (MemoryState.mark
                (placePages (pd * frameSize) (elfPages elfData elfSize) made).2 frame) := by
          by_contra starved
          rw [not_or, not_not] at starved
          rw [map_starved outcome starved.1 starved.2] at stackClear
          exact stackClear (starved.2 stack stackBound)
        obtain ⟨grown, _, _, _⟩ := owns_new_page ready owned bound clear (user_page le_rfl) outcome
          mapped (by
            rw [kept _ (user_page le_rfl) fun page member => (below page member).symm,
              empty _ (user_page le_rfl)]
            exact page_frame_zero)
        have stackLow : stack < 0x3FFFF := by
          have unused : ¬ m.Used stack := fun used => stackClear ((grown.held stack).2 (.inl used))
          have reached := ready.direct stack stackBound unused
          have notTop : stack ≠ 0x3FFFF := fun same => unused (same ▸ ready.top)
          omega
        obtain ⟨top, address⟩ := stack_address stackLow ⟨pd * frameSize,
          u32 (stack * frameSize + kernelVbase + frameSize), elf.heapStart, elf.heapStart⟩ rfl
        have books := owns_take grown stackBound stackClear
        refine ⟨⟨pd, positive, rfl, ?_⟩, top, stack, address⟩
        rw [address]
        exact books

end Creation

section Calls

variable {before m : MemoryState} {pd : Nat} {extra : List Nat}

theorem own_table (owns : Owns before m pd extra) {i : Nat} (user : i < userEntries)
    (table : present (m.words pd i) = true) : pd ≠ frameOf (m.words pd i) :=
  (table_not_directory owns.space_once ⟨i, user, table, rfl⟩).symm

theorem grow_heap_owned (ready : Ready before) (owns : Owns before m pd extra) (pages : List Nat)
    (user : ∀ a ∈ pages, a / tableSpan < userEntries)
    (apart : pages.Pairwise fun a b => a / frameSize ≠ b / frameSize)
    (entries : Nat → Nat) (same : ∀ a ∈ pages, entries a = pageEntry m pd a)
    (tables : Nat → Bool) (behind : ∀ i, tables i = present (m.words pd i))
    (safe : safeHeap entries (getFreeFrames m.pmm) tables pages = true) :
    Owns before (growHeap (pd * frameSize) pages m).2 pd extra := by
  induction pages generalizing m tables with
  | nil => exact owns
  | cons addr rest ih =>
      have zeroUsed := low_used ready owns (by decide : 0 < 256)
      have addrUser := user addr List.mem_cons_self
      unfold growHeap
      rcases take_frame_cases zeroUsed with ⟨frame, positive, bound, clear, _, run⟩ | ⟨_, run⟩
      · have zeroMarked := (MemoryState.used_mark _ _ bound 0).2 (.inl zeroUsed)
        have pdMarked := (MemoryState.used_mark _ _ bound pd).2 (.inl owns.used_directory)
        have outcome := map_user_page_outcome zeroMarked pd addr (frame * frameSize) userFlags
        have taken := free_frames_mark bound clear
        rw [run]
        simp only [if_neg (frame_address positive).1]
        unfold safeHeap at safe
        rw [if_neg (by omega), same addr List.mem_cons_self, behind] at safe
        by_cases unmapped : pageFrame (pageEntry m pd addr) = []
        · rw [if_neg (not_not.2 unmapped)] at safe
          obtain ⟨first, others⟩ := List.pairwise_cons.1 apart
          have rest : ∀ tables',
              (∀ i, tables' i = present ((mapUserPage (pd * frameSize) addr (frame * frameSize)
                userFlags (m.mark frame)).words pd i)) →
              (present (m.words pd (addr / tableSpan)) = true ∨ ¬ Exhausted (m.mark frame)) →
              safeHeap entries (getFreeFrames (mapUserPage (pd * frameSize) addr
                (frame * frameSize) userFlags (m.mark frame)).pmm) tables' rest = true →
              Owns before (growHeap (pd * frameSize) rest (mapUserPage (pd * frameSize) addr
                (frame * frameSize) userFlags (m.mark frame))).2 pd extra := by
            intro tables' behind' mapped safe'
            obtain ⟨owned, _, _, kept⟩ := owns_new_page ready owns bound clear addrUser outcome
              mapped unmapped
            apply ih owned (fun a member => user a (List.mem_cons_of_mem _ member)) others _ tables'
              behind' safe'
            intro a member
            rw [same a (List.mem_cons_of_mem _ member)]
            exact (kept a (user a (List.mem_cons_of_mem _ member)) (first a member).symm).symm
          rcases map_budget outcome pdMarked (own_table owns addrUser) with
            ⟨table, free, after⟩ | ⟨absent, some, free, after⟩ | ⟨absent, none, _⟩
          · rw [MemoryState.words_mark] at table
            rw [if_pos table] at safe
            apply rest tables _ (.inl table)
            · rw [free, show getFreeFrames (m.mark frame).pmm = getFreeFrames m.pmm - 1 by omega]
              exact safe
            · intro i
              rw [after, behind, MemoryState.words_mark]
          · rw [MemoryState.words_mark] at absent
            rw [if_neg fun table => absurd (absent.symm.trans table) Bool.noConfusion,
              if_neg (by omega)] at safe
            apply rest _ _ (.inr fun full => some (exhausted_iff.1 full))
            · rw [free, show getFreeFrames (m.mark frame).pmm - 1 = getFreeFrames m.pmm - 2 by
                omega]
              exact safe
            · intro i
              rw [after, behind, MemoryState.words_mark]
          · rw [MemoryState.words_mark] at absent
            rw [if_neg fun table => absurd (absent.symm.trans table) Bool.noConfusion,
              if_pos (by omega)] at safe
            exact absurd safe Bool.false_ne_true
        · rw [if_pos unmapped] at safe
          exact absurd safe Bool.false_ne_true
      · rw [run]
        exact owns

theorem map_device_pages_owned (ready : Ready before) (owns : Owns before m pd extra)
    (pages : List (Nat × Nat)) (user : ∀ page ∈ pages, page.1 / tableSpan < userEntries)
    (apart : pages.Pairwise fun a b => a.1 / frameSize ≠ b.1 / frameSize)
    (entries : Nat → Nat) (same : ∀ page ∈ pages, entries page.1 = pageEntry m pd page.1)
    (tables : Nat → Bool) (behind : ∀ i, tables i = present (m.words pd i))
    (safe : safeDevice entries (getFreeFrames m.pmm) tables pages = true) :
    Owns before (mapDevicePages (pd * frameSize) pages m) pd extra := by
  induction pages generalizing m tables with
  | nil => exact owns
  | cons page rest ih =>
      obtain ⟨virt, physical⟩ := page
      have zeroUsed := low_used ready owns (by decide : 0 < 256)
      have virtUser := user _ List.mem_cons_self
      have restUser := fun p member => user p (List.mem_cons_of_mem _ member)
      have outcome := map_user_page_outcome zeroUsed pd virt physical userFlags
      have here := same _ List.mem_cons_self
      obtain ⟨first, others⟩ := List.pairwise_cons.1 apart
      change Owns before (mapDevicePages (pd * frameSize) rest
        (mapUserPage (pd * frameSize) virt physical userFlags m)) pd extra
      have settled : ∀ page ∈ rest, entries page.1 =
          pageEntry (mapUserPage (pd * frameSize) virt physical userFlags m) pd page.1 := by
        intro page member
        rw [same page (List.mem_cons_of_mem _ member)]
        exact (page_entry_map_other owns.tables virtUser outcome (restUser page member)
          (first page member).symm).symm
      have keeps : decide (pageFrame (makeEntry physical userFlags) = pageFrame (entries virt)) =
          true → Owns before (mapUserPage (pd * frameSize) virt physical userFlags m) pd extra := by
        intro replaced
        apply owns_map [] owns virtUser outcome _ (.inr (.inr rfl))
        rw [List.nil_append, ← here]
        exact of_decide_eq_true replaced
      unfold safeDevice at safe
      rw [behind] at safe
      rcases map_budget outcome owns.used_directory (own_table owns virtUser) with
        ⟨table, free, after⟩ | ⟨absent, some, free, after⟩ | ⟨absent, none, stays⟩
      · rw [if_pos table, Bool.and_eq_true] at safe
        apply ih (keeps safe.1) restUser others settled tables
        · intro i
          rw [after, behind]
        · rw [free]
          exact safe.2
      · rw [if_neg fun table => absurd (absent.symm.trans table) Bool.noConfusion, if_neg some,
          Bool.and_eq_true] at safe
        apply ih (keeps safe.1) restUser others settled
          (fun i => decide (i = virt / tableSpan) || tables i)
        · intro i
          rw [after, behind]
        · rw [free]
          exact safe.2
      · rw [if_neg fun table => absurd (absent.symm.trans table) Bool.noConfusion, if_pos none]
          at safe
        rw [stays] at settled ⊢
        exact ih owns restUser others settled tables behind safe

end Calls

section Life

variable {before : MemoryState} {s s' : Life}

theorem heap_pages_range {oldBreak newBreak : Nat} (a : Nat)
    (member : a ∈ heapPages oldBreak newBreak) : a < newBreak := by
  obtain ⟨i, inside, rfl⟩ := List.mem_map.1 member
  have low := List.mem_range.1 inside
  unfold frameSize at low ⊢
  omega

theorem heap_pages_apart (oldBreak newBreak : Nat) :
    (heapPages oldBreak newBreak).Pairwise fun a b => a / frameSize ≠ b / frameSize := by
  unfold heapPages
  rw [List.pairwise_map]
  apply List.Pairwise.imp _ List.pairwise_lt_range
  intro i j order
  unfold frameSize
  omega

theorem accepted_break_checked {increment newBreak : Nat} {p : UserProcess}
    (accepted : acceptedBreak increment p = some newBreak) :
    p.heapBreak ≠ 0 ∧ increment ≠ 0 ∧ p.heapBreak ≤ u32 (p.heapBreak + increment) ∧
      newBreak = u32 (p.heapBreak + increment + frameSize - 1) / frameSize * frameSize ∧
      p.heapBreak ≤ newBreak ∧ newBreak ≤ userStackPage := by
  unfold acceptedBreak at accepted
  dsimp only at accepted
  split at accepted
  · cases accepted
  · next started =>
    split at accepted
    · cases accepted
    · next some =>
      split at accepted
      · cases accepted
      · next sum =>
        split at accepted
        · cases accepted
        · next rounded =>
          split at accepted
          · cases accepted
          · next top =>
            obtain rfl := Option.some.inj accepted
            exact ⟨started, some, Nat.le_of_not_lt sum, rfl, Nat.le_of_not_lt rounded,
              Nat.le_of_not_lt top⟩

theorem accepted_break_le {increment newBreak : Nat} {p : UserProcess}
    (accepted : acceptedBreak increment p = some newBreak) : newBreak ≤ userStackPage :=
  (accepted_break_checked accepted).2.2.2.2.2

theorem device_pages_range {physical virt pages : Nat} {p : UserProcess}
    (accepted : deviceAccepted physical virt pages p = true) :
    virt + pages * 0x1000 ≤ kernelVbase := by
  unfold deviceAccepted at accepted
  simp only [Bool.and_eq_true, Bool.not_eq_true', Bool.or_eq_false_iff, decide_eq_false_iff_not,
    beq_eq_false_iff_ne] at accepted
  obtain ⟨⟨⟨_, some, few⟩, _⟩, wraps, top⟩ := accepted
  unfold u32 kernelVbase at *
  omega

theorem device_pages_range_mem {physical virt pages : Nat}
    (low : virt + pages * 0x1000 ≤ kernelVbase) :
    ∀ page ∈ devicePages physical virt pages, page.1 / tableSpan < userEntries := by
  intro page member
  obtain ⟨i, inside, rfl⟩ := List.mem_map.1 member
  have few := List.mem_range.1 inside
  unfold kernelVbase at low
  unfold u32 tableSpan userEntries
  dsimp only
  omega

theorem device_pages_apart {physical virt pages : Nat}
    (low : virt + pages * 0x1000 ≤ kernelVbase) :
    (devicePages physical virt pages).Pairwise fun a b =>
      a.1 / frameSize ≠ b.1 / frameSize := by
  unfold devicePages
  rw [List.pairwise_map]
  apply List.pairwise_lt_range.imp_of_mem
  intro i j first second order
  have few := List.mem_range.1 second
  unfold kernelVbase at low
  unfold u32 frameSize
  omega

theorem sbrk_outcome (increment : Nat) (p : UserProcess) (m : MemoryState) :
    (sbrk increment p m).2.1.pageDirectory = p.pageDirectory ∧
      (sbrk increment p m).2.1.kernelEsp = p.kernelEsp ∧
      ((sbrk increment p m).2.2 = m ∨ ∃ newBreak, acceptedBreak increment p = some newBreak ∧
        (sbrk increment p m).2.2 =
          (growHeap p.pageDirectory (heapPages p.heapBreak newBreak) m).2) := by
  unfold sbrk
  rcases accepted : acceptedBreak increment p with _ | newBreak
  · exact ⟨rfl, rfl, .inl rfl⟩
  · dsimp only
    rcases run : growHeap p.pageDirectory (heapPages p.heapBreak newBreak) m with ⟨_ | _, after⟩
    · exact ⟨rfl, rfl, .inr ⟨newBreak, rfl, by rw [run]⟩⟩
    · exact ⟨rfl, rfl, .inr ⟨newBreak, rfl, by rw [run]⟩⟩

theorem alive_step (ready : Ready before) (alive : Alive before s) {call : Call}
    (safe : Safe s call) (next : step s call = some s') : Alive before s' := by
  obtain ⟨⟨pd, positive, directory, owns⟩, stack, frame⟩ := alive
  obtain rfl : perform s call = s' := Option.some.inj next
  have number := (frame_address positive).2
  cases call with
  | sbrk increment =>
      unfold Safe at safe
      rw [directory, number] at safe
      obtain ⟨sameDirectory, sameStack, memory⟩ := sbrk_outcome increment s.process s.memory
      have sameFrame : kernelStackFrame (perform s (.sbrk increment)).process =
          kernelStackFrame s.process := by
        unfold kernelStackFrame
        rw [show (perform s (.sbrk increment)).process.kernelEsp = s.process.kernelEsp from
          sameStack]
      have owned : Owns before (sbrk increment s.process s.memory).2.2 pd
          [kernelStackFrame s.process] := by
        rcases memory with same | ⟨newBreak, accepted, same⟩
        · rw [same]
          exact owns
        · have top := accepted_break_le accepted
          rw [same, directory]
          exact grow_heap_owned ready owns (heapPages s.process.heapBreak newBreak)
            (fun a member => user_page ((heap_pages_range a member).le.trans top))
            (heap_pages_apart _ _) _ (fun _ _ => rfl) _ (fun _ => rfl) (safe newBreak accepted)
      refine ⟨⟨pd, positive, sameDirectory.trans directory, ?_⟩, ?_, ?_⟩
      · rw [sameFrame]
        exact owned
      · exact fun none => stack (sameStack.symm.trans none)
      · rw [sameFrame]
        exact frame
  | mapDevice physical virt pages =>
      unfold Safe at safe
      rw [directory, number] at safe
      refine ⟨⟨pd, positive, directory, ?_⟩, stack, frame⟩
      unfold perform mapDevice
      dsimp only
      split
      · next accepted =>
        have low := device_pages_range accepted
        rw [directory]
        exact map_device_pages_owned ready owns (devicePages physical virt pages)
          (device_pages_range_mem low) (device_pages_apart low) _ (fun _ _ => rfl) _
          (fun _ => rfl) (safe accepted)
      · exact owns

theorem balanced_of_alive (alive : Alive before s) : Balanced before s := by
  obtain ⟨⟨pd, positive, directory, owns⟩, stack, stackFrame, address⟩ := alive
  have nonzero := (frame_address positive).1
  have list : destroyedFrames s.process s.memory =
      spaceFrames s.memory (pd * frameSize) ++ [kernelStackFrame s.process] := by
    unfold destroyedFrames
    rw [if_neg stack, directory, if_neg nonzero]
  have members : ∀ a, a ∈ destroyedFrames s.process s.memory ↔
      a ∈ [kernelStackFrame s.process] ++ spaceFrames s.memory (pd * frameSize) := by
    intro a
    rw [list]
    exact List.perm_append_comm.mem_iff
  have frames : ∀ a ∈ destroyedFrames s.process s.memory,
      ∃ frame, a = frame * frameSize ∧ frame < frameCount := by
    intro a member
    have found := (members a).1 member
    have aligned : ∃ frame, a = frame * frameSize := by
      rcases List.mem_append.1 found with top | space
      · exact ⟨stackFrame, (List.mem_singleton.1 top).trans address⟩
      · exact space_frames_aligned space
    obtain ⟨frame, rfl⟩ := aligned
    exact ⟨frame, rfl, owns.bound frame found⟩
  constructor
  · exact frames
  · rw [list, List.perm_append_comm.nodup_iff]
    exact owns.once
  · intro frame
    rw [members, owns.held]
    constructor
    · intro found
      exact ⟨.inr found, fun already => owns.new frame already found⟩
    · rintro ⟨already | found, unused⟩
      · exact absurd already unused
      · exact found
  · intro frame
    rw [destroy_eq, used_free_frames]
    · rw [owns.held]
      constructor
      · rintro ⟨already | found, freed⟩
        · exact already
        · exact absurd (frame_of_address frame) (freed _ ((members _).2 found))
      · intro already
        refine ⟨.inl already, ?_⟩
        intro a member same
        obtain ⟨other, rfl, _⟩ := frames a member
        rw [frame_of_address] at same
        rw [same] at member
        exact owns.new frame already ((members _).1 member)
    · intro a member
      obtain ⟨other, rfl, bound⟩ := frames a member
      rw [frame_of_address]
      exact bound

/-- A process that `exec` creates from a safe image, and whose calls are safe, gives back
at its exit exactly the frames that were allocated for it. -/
theorem frames_balance (ready : Ready before) {elfData : Nat → UInt8} {elfSize : Nat}
    (image : SafeImage elfData elfSize) {process : Bool} {p : UserProcess} {after : MemoryState}
    (started : exec elfData elfSize process before = (some p, after))
    (run : Run step Safe ⟨p, after⟩ s) : Balanced before s := by
  apply balanced_of_alive
  apply run.invariant (Alive before) (exec_alive ready image started)
  intro s call s' alive safe next
  exact alive_step ready alive safe next

end Life

section Examples

open CassiOS.Kernel.LoaderSafety

theorem ready_small_machine : Ready smallMachine where
  toBooted := booted_small_machine
  low := fun _ low => used_small_machine (by omega)
  top := used_small_machine (by decide)

/-- The process that the one-page image gives on the small machine. -/
def smallProcess : UserProcess := ⟨256 * frameSize, 0xC0106000, 0x08001000, 0x08001000⟩

def smallLife : Life := ⟨smallProcess, (exec (onePageImage 0x08) 84 true smallMachine).2⟩

theorem small_process_started :
    exec (onePageImage 0x08) 84 true smallMachine = (some smallProcess, smallLife.memory) := by
  have process : (exec (onePageImage 0x08) 84 true smallMachine).1 = some smallProcess := by
    decide +kernel
  exact Prod.ext process rfl

theorem safe_one_page : SafeImage (onePageImage 0x08) 84 := by
  have addresses := one_page_address.2
  constructor
  · rw [addresses]
    exact List.nodup_singleton _
  · intro page member
    have listed := List.mem_map_of_mem (f := Page.virtualAddr) member
    rw [addresses, List.mem_singleton] at listed
    rw [listed]
    decide

theorem safe_small_sbrk : Safe smallLife (.sbrk 4096) := by
  intro newBreak accepted
  have value : acceptedBreak 4096 smallProcess = some 0x08002000 := by decide
  obtain rfl := Option.some.inj (value.symm.trans accepted)
  have pages : heapPages smallLife.process.heapBreak 0x08002000 = [0x08001000] := by decide
  have unmapped : pageFrame (pageEntry smallLife.memory
      (smallLife.process.pageDirectory / frameSize) 0x08001000) = [] := by decide +kernel
  have table : tablesOf smallLife.memory (smallLife.process.pageDirectory / frameSize)
      (0x08001000 / tableSpan) = true := by decide +kernel
  rw [pages, safeHeap, unmapped, table]
  simp only [ne_eq, not_true_eq_false, if_false, if_true, safeHeap, ite_self]

/-- The small process grows its heap by a page. -/
theorem small_process_balances : Balanced smallMachine (perform smallLife (.sbrk 4096)) :=
  frames_balance ready_small_machine safe_one_page small_process_started
    (.step .start safe_small_sbrk rfl)

/-- The small process maps physical address `0x400000`, which was never free: its exit
makes that frame allocatable. -/
theorem mapped_frame_freed_at_exit :
    Ready smallMachine ∧
      exec (onePageImage 0x08) 84 true smallMachine = (some smallProcess, smallLife.memory) ∧
      deviceAccepted 0x400000 0x08001000 1 smallProcess = true ∧
      ¬ Balanced smallMachine (perform smallLife (.mapDevice 0x400000 0x08001000 1)) := by
  refine ⟨ready_small_machine, small_process_started, by decide, ?_⟩
  intro balanced
  have freed : ¬ (destroy (perform smallLife (.mapDevice 0x400000 0x08001000 1)).process
      (perform smallLife (.mapDevice 0x400000 0x08001000 1)).memory).Used 1024 := by
    decide +kernel
  exact freed ((balanced.restored 1024).2 (used_small_machine (by decide)))

end Examples

end CassiOS.Kernel.FrameOwnership
