import CassiOS.Kernel.ExecCleanup
import CassiOS.Kernel.Outcomes

/-!
# Failed program starts

`exec` takes an address space back with `destroyAddressSpace`, whatever it failed at. That
restores the state exactly when each page for which a frame was left is a user page of its
own with a page table behind it.
-/

namespace CassiOS.Kernel.FailedExec

open CassiOS.Support.Words
open CassiOS.Memory.Physical
open CassiOS.Memory.Paging
open CassiOS.Memory.Ownership
open CassiOS.Memory.Owned
open CassiOS.Memory.NewSpace
open CassiOS.Memory.UserSpace
open CassiOS.Kernel.State hiding kernelVbase
open CassiOS.Kernel.ProcessManager (freshProcess)
open CassiOS.Kernel.Outcomes (started)
open CassiOS.Kernel.ElfLoader
open CassiOS.Kernel.ProcessMemory (UserProcess userStackPage)
open CassiOS.Kernel.NewProcess
open CassiOS.Kernel.FrameOwnership
open CassiOS.Kernel.ExecCleanup

set_option autoImplicit false

section Images

variable (elfData : Nat → UInt8) (elfSize : Nat)

/-- The header lies in the file, and so do the bytes of its segment. -/
def headerAccepted (offset : Nat) : Bool :=
  !decide (elfSize < u32 (offset + programHeaderSize)) &&
    (decide ((programHeader elfData offset).p_type ≠ ptLoad) ||
      segmentInFile elfSize (programHeader elfData offset))

/-- The loader finds nothing wrong with the file. -/
def imageAccepted : Bool :=
  validHeader elfData elfSize && (List.range (load16 elfData 44)).all fun i =>
    headerAccepted elfData elfSize (u32 (load32 elfData 28 + i * load16 elfData 42))

variable {elfData elfSize}

theorem load_segments_success (pdPhysical phoff phentsize left i highestEnd : Nat)
    (m : MemoryState) :
    (loadSegments elfData elfSize pdPhysical phoff phentsize left i highestEnd m).1.isSome =
      (((List.range' i left).all fun i =>
          headerAccepted elfData elfSize (u32 (phoff + i * phentsize))) &&
        (placePages pdPhysical (acceptedPages elfData elfSize phoff phentsize left i) m).1) := by
  induction left generalizing i highestEnd m with
  | zero => rfl
  | succ left ih =>
      rw [List.range'_succ, List.all_cons]
      unfold loadSegments acceptedPages headerAccepted
      dsimp only
      by_cases outside : elfSize < u32 (u32 (phoff + i * phentsize) + programHeaderSize)
      · rw [if_pos outside, decide_eq_true outside]
        simp
      · rw [if_neg outside, if_neg outside, decide_eq_false outside]
        by_cases other : (programHeader elfData (u32 (phoff + i * phentsize))).p_type ≠ ptLoad
        · rw [if_pos other, if_pos other, decide_eq_true other, ih]
          simp [headerAccepted]
        · rw [if_neg other, if_neg other, decide_eq_false other]
          cases inFile : segmentInFile elfSize
              (programHeader elfData (u32 (phoff + i * phentsize))) with
          | false => simp
          | true =>
              simp only [Bool.not_true, Bool.false_eq_true, if_false, Bool.not_false, Bool.false_or,
                Bool.true_and]
              rw [place_pages_append]
              rcases placePages pdPhysical (segmentPages elfData elfSize
                (programHeader elfData (u32 (phoff + i * phentsize)))) m with ⟨_ | _, after⟩
              · simp
              · exact ih _ _ _

/-- Loading succeeds when the file is accepted and each page gets a frame. -/
theorem load_success (pdPhysical : Nat) (m : MemoryState) :
    (load elfData elfSize pdPhysical m).1.success =
      (imageAccepted elfData elfSize &&
        (placePages pdPhysical (elfPages elfData elfSize) m).1) := by
  have segments := @load_segments_success elfData elfSize pdPhysical (load32 elfData 28)
    (load16 elfData 42) (load16 elfData 44) 0 0 m
  unfold load elfPages imageAccepted
  cases valid : validHeader elfData elfSize with
  | false => rfl
  | true =>
      simp only [Bool.not_true, Bool.false_eq_true, if_false, Bool.true_and]
      rw [List.range_eq_range', ← segments]
      rcases loadSegments elfData elfSize pdPhysical _ _ _ 0 0 m with ⟨_ | top, after⟩
      · rfl
      · rfl

end Images

section Memory

variable {elfData : Nat → UInt8} {elfSize : Nat} {m : MemoryState}

/-- The page tables of a new address space are the kernel's. -/
def spaceTables (m : MemoryState) (i : Nat) : Bool :=
  decide (userEntries ≤ i) && present (m.kernelDirectory i)

/-- The pages of the image in the loader's order, and the stack page behind them unless the
image is refused. -/
def startPages (elfData : Nat → UInt8) (elfSize : Nat) : List Nat :=
  (elfPages elfData elfSize).map Page.virtualAddr ++
    if imageAccepted elfData elfSize then [userStackPage] else []

theorem create_clean (ready : Ready m) (some : getFreeFrames m.pmm ≠ 0) :
    ∃ pd made, 0 < pd ∧ createAddressSpace m = (pd * frameSize, made) ∧ Clean m made pd [] ∧
      hasTable made pd = spaceTables m ∧ getFreeFrames m.pmm = getFreeFrames made.pmm + 1 := by
  rcases create_address_space_cases ready.zeroUsed with
    ⟨frame, positive, bound, clear, _, run⟩ | ⟨full, _⟩
  · obtain ⟨nonzero, number⟩ := frame_address positive
    obtain ⟨pd, _, same, owns, empty⟩ := owns_create ready.toBooted run nonzero
    obtain ⟨pd', _, same', extension⟩ :=
      create_extends (reserved_of_booted ready.toBooted) run nonzero
    obtain rfl := frame_address_injective same
    obtain rfl := frame_address_injective same'
    refine ⟨_, _, positive, run, ⟨owns, extension, ?_, ?_, ?_⟩, ?_, ?_⟩
    · intro i high
      rw [MemoryState.words_fill_frame, if_pos rfl, if_neg (Nat.not_lt.2 high)]
    · intro f used
      funext j
      rw [MemoryState.words_fill_frame, if_neg (fun same : f = frame => clear (same ▸ used)),
        MemoryState.words_mark]
    · intro a user
      rw [empty a user, page_frame_zero]
      exact ⟨fun _ _ member => absurd member List.not_mem_nil, fun _ => rfl⟩
    · funext i
      unfold hasTable spaceTables
      rw [MemoryState.words_fill_frame, if_pos rfl]
      rcases Nat.lt_or_ge i userEntries with low | high
      · rw [if_pos low, decide_eq_false (Nat.not_le.2 low)]
        rfl
      · rw [if_neg (Nat.not_lt.2 high), decide_eq_true high, Bool.true_and]
    · rw [MemoryState.pmm_fill_frame]
      exact free_frames_mark bound clear
  · exact absurd (exhausted_iff.1 full) some

/-- The ends of `exec` once its image is in a kernel buffer and a directory was allocated, when
the heap has room for the process. -/
inductive ExecOutcome (elfData : Nat → UInt8) (elfSize : Nat) (made : MemoryState) (pd : Nat) :
    Option UserProcess × MemoryState → Prop
  | refused (failed : (imageAccepted elfData elfSize &&
        (placePages (pd * frameSize) (elfPages elfData elfSize) made).1) = false) :
      ExecOutcome elfData elfSize made pd (none, destroyAddressSpace (pd * frameSize)
        (placePages (pd * frameSize) (elfPages elfData elfSize) made).2)
  | unspawned (after : MemoryState) (accepted : imageAccepted elfData elfSize = true)
      (placed : (placePages (pd * frameSize) (elfPages elfData elfSize) made).1 = true)
      (outcome : SpawnOutcome (placePages (pd * frameSize) (elfPages elfData elfSize) made).2 pd
        (none, after)) :
      ExecOutcome elfData elfSize made pd (none, destroyAddressSpace (pd * frameSize) after)
  | spawned (child : UserProcess) (after : MemoryState)
      (accepted : imageAccepted elfData elfSize = true)
      (placed : (placePages (pd * frameSize) (elfPages elfData elfSize) made).1 = true)
      (outcome : SpawnOutcome (placePages (pd * frameSize) (elfPages elfData elfSize) made).2 pd
        (some child, after)) :
      ExecOutcome elfData elfSize made pd (some child, after)

theorem exec_exhausted (ready : Ready m) (none : getFreeFrames m.pmm = 0) :
    ProcessMemory.exec elfData elfSize true m = (.none, m) := by
  unfold ProcessMemory.exec
  rcases create_address_space_cases ready.zeroUsed with ⟨frame, _, bound, clear, _⟩ | ⟨_, run⟩
  · exact absurd (exhausted_iff.2 none frame bound) clear
  · rw [run]
    rfl

theorem exec_outcome (ready : Ready m) {pd : Nat} {made : MemoryState} (positive : 0 < pd)
    (created : createAddressSpace m = (pd * frameSize, made)) (clean : Clean m made pd []) :
    ExecOutcome elfData elfSize made pd (ProcessMemory.exec elfData elfSize true m) := by
  have reserved := reserved_of_booted ready.toBooted
  have success := @load_success elfData elfSize (pd * frameSize) made
  have pages := (@load_pages elfData elfSize (pd * frameSize) made).1
  have zeroPlaced := Extends.zero_used reserved
    (place_pages_extends reserved clean.extension (elfPages elfData elfSize))
  unfold ProcessMemory.exec
  rw [created]
  dsimp only
  rw [if_neg (frame_address positive).1]
  rcases loading : load elfData elfSize (pd * frameSize) made with ⟨elf, filled⟩
  rw [loading] at success pages
  dsimp only at success pages ⊢
  subst pages
  rw [success]
  cases loaded : (imageAccepted elfData elfSize &&
      (placePages (pd * frameSize) (elfPages elfData elfSize) made).1) with
  | false =>
      simp only [Bool.not_false, if_true]
      exact .refused loaded
  | true =>
      rw [Bool.and_eq_true] at loaded
      simp only [Bool.not_true, Bool.false_eq_true, if_false]
      have outcome := @spawn_outcome _ pd zeroPlaced elf.heapStart
      generalize ProcessMemory.spawn (pd * frameSize) elf.heapStart true
        (placePages (pd * frameSize) (elfPages elfData elfSize) made).2 = answer at outcome ⊢
      rcases answer with ⟨_ | child, after⟩
      · exact .unspawned after loaded.1 loaded.2 outcome
      · exact .spawned child after loaded.1 loaded.2 outcome

/-- A start gets as far as its process when the image is accepted and there is a frame for the
directory, each page, each missing page table and the kernel stack. -/
def Starts (elfData : Nat → UInt8) (elfSize : Nat) (m : MemoryState) : Prop :=
  imageAccepted elfData elfSize = true ∧
    frameDemand (spaceTables m) (startPages elfData elfSize) + 2 ≤ getFreeFrames m.pmm

theorem start_pages_accepted (accepted : imageAccepted elfData elfSize = true) :
    startPages elfData elfSize =
      (elfPages elfData elfSize).map Page.virtualAddr ++ [userStackPage] := by
  unfold startPages
  rw [if_pos accepted]

theorem stack_budget {pd : Nat} {made : MemoryState} (ready : Ready m)
    (clean : Clean m made pd []) :
    let placed := (placePages (pd * frameSize) (elfPages elfData elfSize) made).2
    let pages := (elfPages elfData elfSize).map Page.virtualAddr
    (frameDemand (hasTable made pd) pages ≤ getFreeFrames made.pmm ∧
        getFreeFrames placed.pmm + frameDemand (hasTable made pd) pages = getFreeFrames made.pmm ∧
        getFreeFrames placed.pmm + frameDemand (hasTable made pd) (pages ++ [userStackPage]) =
          getFreeFrames made.pmm + frameDemand (hasTable placed pd) [userStackPage]) ∨
      (getFreeFrames made.pmm < frameDemand (hasTable made pd) pages ∧
        getFreeFrames placed.pmm = 0) := by
  intro placed pages
  obtain ⟨served, short⟩ := place_pages_budget (reserved_of_booted ready.toBooted)
    clean.extension (elfPages elfData elfSize)
  rcases Nat.lt_or_ge (getFreeFrames made.pmm) (frameDemand (hasTable made pd)
    ((elfPages elfData elfSize).map Page.virtualAddr)) with few | enough
  · exact .inr ⟨few, exhausted_iff.1 (short few)⟩
  · obtain ⟨_, count⟩ := served enough
    refine .inl ⟨enough, ?_, count [userStackPage]⟩
    have none := count []
    rw [List.append_nil, frame_demand_nil, Nat.add_zero] at none
    exact none

theorem exec_some_iff (ready : Ready m) :
    (ProcessMemory.exec elfData elfSize true m).1.isSome ↔ Starts elfData elfSize m := by
  by_cases none : getFreeFrames m.pmm = 0
  · rw [exec_exhausted ready none]
    refine ⟨fun impossible => Bool.noConfusion impossible, fun starts => ?_⟩
    have enough := starts.2
    omega
  · obtain ⟨pd, made, positive, created, clean, tables, free⟩ := create_clean ready none
    have outcome := @exec_outcome elfData elfSize m ready pd made positive created clean
    have budget := @stack_budget elfData elfSize m pd made ready clean
    have placing := (place_pages_budget (reserved_of_booted ready.toBooted) clean.extension
      (elfPages elfData elfSize)).1
    have extension := place_pages_extends (reserved_of_booted ready.toBooted) clean.extension
      (elfPages elfData elfSize)
    have longer := frame_demand_append_le (hasTable made pd)
      ((elfPages elfData elfSize).map Page.virtualAddr) [userStackPage]
    unfold Starts
    rw [← tables]
    dsimp only at budget
    generalize ProcessMemory.exec elfData elfSize true m = answer at outcome
    cases outcome with
    | refused failed =>
        refine ⟨fun impossible => Bool.noConfusion impossible, ?_⟩
        rintro ⟨accepted, enough⟩
        rw [start_pages_accepted accepted] at enough
        rw [accepted, Bool.true_and] at failed
        rw [(placing (by omega)).1] at failed
        exact Bool.noConfusion failed
    | unspawned after accepted placed outcome =>
        have spawned := spawn_some_iff extension outcome
        refine ⟨fun impossible => Bool.noConfusion impossible, ?_⟩
        rintro ⟨_, enough⟩
        rw [start_pages_accepted accepted] at enough
        exact Bool.noConfusion (spawned.2 (by omega))
    | spawned child after accepted placed outcome =>
        have left := (spawn_some_iff extension outcome).1 rfl
        refine ⟨fun _ => ⟨accepted, ?_⟩, fun _ => rfl⟩
        rw [start_pages_accepted accepted]
        omega

/-- A failed start is undone exactly when every page that gets a frame fits. -/
theorem exec_restored_iff (ready : Ready m) (some : getFreeFrames m.pmm ≠ 0)
    (failed : (ProcessMemory.exec elfData elfSize true m).1 = none) :
    Restored m (ProcessMemory.exec elfData elfSize true m).2 ↔
      Undoable (spaceTables m) [] (getFreeFrames m.pmm - 1) (startPages elfData elfSize) := by
  obtain ⟨pd, made, positive, created, clean, tables, free⟩ := create_clean ready some
  have outcome := @exec_outcome elfData elfSize m ready pd made positive created clean
  have budget := @stack_budget elfData elfSize m pd made ready clean
  have reserved := reserved_of_booted ready.toBooted
  have placing := (place_pages_budget reserved clean.extension (elfPages elfData elfSize)).1
  have extension := place_pages_extends reserved clean.extension (elfPages elfData elfSize)
  have placed := place_pages_clean_or_lost ready clean (elfPages elfData elfSize)
  have left : getFreeFrames m.pmm - 1 = getFreeFrames made.pmm := by omega
  rw [← tables, left]
  dsimp only at budget
  generalize ProcessMemory.exec elfData elfSize true m = answer at outcome failed ⊢
  cases outcome with
  | refused loading =>
      have pages : Undoable (hasTable made pd) [] (getFreeFrames made.pmm)
          (startPages elfData elfSize) ↔ Undoable (hasTable made pd) []
            (getFreeFrames made.pmm) ((elfPages elfData elfSize).map Page.virtualAddr) := by
        cases accepted : imageAccepted elfData elfSize with
        | false =>
            unfold startPages
            rw [accepted, if_neg Bool.false_ne_true, List.append_nil]
        | true =>
            rw [accepted, Bool.true_and] at loading
            rw [start_pages_accepted accepted, undoable_concat]
            refine ⟨And.left, fun undoable => ⟨undoable, fun less => ?_⟩⟩
            rw [(placing less.le).1] at loading
            exact Bool.noConfusion loading
      rw [pages]
      rcases placed with ⟨undoable, seen, final, _⟩ | ⟨stuck, g, lost⟩
      · exact ⟨fun _ => undoable, fun _ => clean_restored ready final⟩
      · exact ⟨fun restored => absurd restored (lost_not_restored extension lost),
          fun undoable => absurd undoable stuck⟩
  | unspawned after accepted done outcome =>
      rw [start_pages_accepted accepted, undoable_concat]
      rcases placed with ⟨undoable, seen, final, members⟩ | ⟨stuck, g, lost⟩
      · obtain ⟨extended, result⟩ := spawn_clean_or_lost ready final outcome
        have stack : (getFreeFrames
              (placePages (pd * frameSize) (elfPages elfData elfSize) made).2.pmm ≠ 0 →
            Fits (hasTable (placePages (pd * frameSize) (elfPages elfData elfSize) made).2 pd) seen
              (getFreeFrames (placePages (pd * frameSize) (elfPages elfData elfSize) made).2.pmm)
              userStackPage) ↔
            (frameDemand (hasTable made pd) ((elfPages elfData elfSize).map Page.virtualAddr) <
              getFreeFrames made.pmm →
            userStackPage / tableSpan < userEntries ∧
              (∀ b ∈ [] ++ (elfPages elfData elfSize).map Page.virtualAddr,
                b / frameSize ≠ userStackPage / frameSize) ∧
              frameDemand (hasTable made pd)
                ((elfPages elfData elfSize).map Page.virtualAddr ++ [userStackPage]) ≤
                  getFreeFrames made.pmm) := by
          rcases budget with ⟨enough, none, count⟩ | ⟨few, none⟩
          · have same := members enough
            unfold Fits
            simp only [same]
            constructor
            · intro fits less
              obtain ⟨user, unseen, served⟩ := fits (by omega)
              exact ⟨user, unseen, by omega⟩
            · intro fits nonzero
              obtain ⟨user, unseen, served⟩ := fits (by omega)
              exact ⟨user, unseen, by omega⟩
          · exact ⟨fun _ less => absurd less (by omega), fun _ nonzero => absurd none nonzero⟩
        rw [← stack]
        rcases result with ⟨fits, seen', cleaned⟩ | ⟨unfit, g, lost⟩
        · exact ⟨fun _ => ⟨undoable, fits⟩, fun _ => clean_restored ready cleaned⟩
        · exact ⟨fun restored => absurd restored (lost_not_restored extended lost),
            fun both => absurd both.2 unfit⟩
      · obtain ⟨extended, still⟩ := spawn_lost extension lost outcome
        exact ⟨fun restored => absurd restored (lost_not_restored extended still),
          fun both => absurd both.1 stuck⟩
  | spawned => exact absurd failed nofun

end Memory

section Kernel

open CassiOS.Kernel.LoaderSafety (reachesKernel target_of_create kept_refl place_pages_reach
  kept_words kept_kernel_entry)

variable {elfData : Nat → UInt8} {elfSize : Nat} {m : MemoryState}

/-- A directory was added: all frames in use hold what they held, and it has the kernel's
half. -/
structure SpaceAdded (before after : MemoryState) (pd : Nat) : Prop where
  contents : ∀ f, before.Used f → after.words f = before.words f
  half : ∀ i, userEntries ≤ i → after.words pd i = before.kernelDirectory i

/-- While the frames last, the pages that reach the kernel are those at kernel addresses. -/
theorem reaches_kernel_served {pages : List Nat} {tables : Nat → Bool} {free : Nat}
    (enough : frameDemand tables pages ≤ free) :
    reachesKernel free tables pages = pages.any fun a => decide (kernelVbase ≤ a) := by
  induction pages generalizing tables free with
  | nil => rfl
  | cons addr rest ih =>
      unfold frameDemand at enough
      rw [List.length_cons] at enough
      rw [reachesKernel, if_neg (by omega), List.any_cons]
      cases table : tables (addr / tableSpan) with
      | true =>
          rw [missing_tables_served table] at enough
          rw [if_pos rfl, ih (by unfold frameDemand; omega)]
      | false =>
          rw [missing_tables_added table] at enough
          rw [if_neg Bool.false_ne_true, if_neg (by omega), ih (by unfold frameDemand; omega)]

theorem used_created (zeroUsed : m.Used 0) {pd : Nat} {made : MemoryState}
    (created : createAddressSpace m = (pd * frameSize, made)) {f : Nat} (used : made.Used f) :
    m.Used f ∨ f = pd := by
  rcases create_address_space_cases zeroUsed with ⟨frame, _, bound, _, _, run⟩ | ⟨_, run⟩
  · obtain ⟨same, rfl⟩ := Prod.mk.inj (created.symm.trans run)
    rw [frame_address_injective same]
    exact (MemoryState.used_mark m frame bound f).1 used
  · obtain ⟨_, rfl⟩ := Prod.mk.inj (created.symm.trans run)
    exact .inl used

/-- A process is started beside the others exactly when its image has no page at a kernel
address. -/
theorem exec_space_added_iff (ready : Ready m) {p : UserProcess} {after : MemoryState}
    (run : ProcessMemory.exec elfData elfSize true m = (some p, after)) :
    SpaceAdded m after (p.pageDirectory / frameSize) ↔
      ∀ page ∈ elfPages elfData elfSize, page.virtualAddr < kernelVbase := by
  have some : getFreeFrames m.pmm ≠ 0 := by
    intro none
    rw [exec_exhausted ready none] at run
    cases (Prod.mk.inj run).1
  obtain ⟨pd, made, positive, created, clean, tables, free⟩ := create_clean ready some
  obtain ⟨_, target⟩ := target_of_create ready.toBooted created (frame_address positive).1
  rw [frame_of_address] at target
  have outcome := @exec_outcome elfData elfSize m ready pd made positive created clean
  rw [run] at outcome
  cases outcome with
  | spawned _ _ accepted placed spawned =>
      have directory : p.pageDirectory / frameSize = pd := by
        cases spawned with
        | spawned _ _ _ _ _ _ _ _ _ _ own => rw [own, frame_of_address]
      have left : getFreeFrames
          (placePages (pd * frameSize) (elfPages elfData elfSize) made).2.pmm ≠ 0 := by
        cases spawned with
        | spawned _ _ _ _ _ bound clear => exact fun none => clear (exhausted_iff.2 none _ bound)
      have enough : frameDemand (hasTable made pd) ((elfPages elfData elfSize).map
          Page.virtualAddr) ≤ getFreeFrames made.pmm := by
        rcases @stack_budget elfData elfSize m pd made ready clean with ⟨enough, _⟩ | ⟨_, none⟩
        · exact enough
        · exact absurd none left
      obtain ⟨keeps, overwrites⟩ := place_pages_reach target (kept_refl target)
        (elfPages elfData elfSize) (hasTable made pd) fun _ => rfl
      obtain ⟨kept, overwritten⟩ := spawn_kernel target spawned
      rw [reaches_kernel_served enough] at keeps overwrites
      rw [directory]
      constructor
      · intro added page member
        by_contra high
        obtain ⟨f, j, used, outside, was, _, now⟩ := overwritten (overwrites (by
          simp only [List.any_eq_true, List.mem_map, decide_eq_true_eq]
          exact ⟨_, ⟨page, member, rfl⟩, Nat.not_lt.1 high⟩))
        rcases used_created ready.zeroUsed created used with old | rfl
        · rw [added.contents f old, ← clean.contents f old] at now
          exact was now
        · rw [added.half j (outside rfl), ← clean.kernel j (outside rfl)] at now
          exact was now
      · intro below
        have whole := kept (keeps (by
          simp only [List.any_eq_false, List.mem_map, decide_eq_true_eq]
          rintro a ⟨page, member, rfl⟩
          exact Nat.not_le.2 (below page member)))
        constructor
        · intro f used
          have other : f ≠ pd := fun same => clean.extension.own.unused (same ▸ used)
          rw [← clean.contents f used]
          funext j
          exact kept_words whole (clean.extension.grows f used) fun same => absurd same other
        · intro i high
          rw [kept_kernel_entry target whole high, clean.extension.directory]

end Kernel

section Handler

/-- Processes, frames and page tables, and the live pointers of the kernel heap. -/
structure Host where
  kernel : KernelState
  memory : MemoryState
  heap : List Nat

/-- `pointer` is what the heap answers: 0 when it has no room. -/
def operatorNew (pointer : Nat) (s : Host) : Option Host :=
  if pointer = 0 then none else some { s with heap := pointer :: s.heap }

def operatorDelete (pointer : Nat) (s : Host) : Host := { s with heap := s.heap.erase pointer }

/-- `ProcessManager::create`. `none`: `new` does not look at what `operator new` answers, and
the constructor writes through the null pointer before it is tested. -/
def create (esp cs ds pageDirectory process : Nat) (s : Host) : Option (Option Ref × Host) :=
  match operatorNew process s with
  | none => none
  | some s =>
      let (kernel, proc) := ProcessManager.create s.kernel esp cs ds pageDirectory true
      some (proc, { s with kernel := kernel })

/-- `ProcessManager::spawn`; the initial interrupt frame of a process is 19 words. -/
def spawn (pdPhysical heapStart userCS userDS process : Nat) (s : Host) :
    Option (Option Ref × Host) :=
  let (userStackFrame, m) := takeFrame s.memory
  if userStackFrame = 0 then some (none, { s with memory := m })
  else
    let m := mapUserPage pdPhysical userStackPage userStackFrame userFlags m
    let (kernelStackFrame, m) := takeFrame m
    if kernelStackFrame = 0 then some (none, { s with memory := m })
    else
      let kernelStackTop := u32 (kernelStackFrame + kernelVbase + frameSize)
      match create (u32 (kernelStackTop + 4294967296 - 76)) userCS userDS pdPhysical process
          { s with memory := m } with
      | none => none
      | some (none, s) => some (none, { s with memory := freeFrames s.memory [kernelStackFrame] })
      | some (some proc, s) =>
          some (some proc, { s with kernel := s.kernel.modify proc fun p =>
            { p with kernelEsp := kernelStackTop, heapBase := heapStart, heapBreak := heapStart } })

/-- `SyscallHandler::exec`; `elfData` is the image as copied from the caller, and the heap
answers with `buffer` and `process`. -/
def exec (elfPtr elfSize : Nat) (elfData : Nat → UInt8) (buffer process : Nat) (s : Host) :
    Option (Nat × Host) :=
  if elfPtr = 0 ∨ elfSize = 0 then some (0, s)
  else
    match operatorNew buffer s with
    | none => some (0, s)
    | some s =>
        let (pdPhysical, m) := createAddressSpace s.memory
        if pdPhysical = 0 then some (0, operatorDelete buffer { s with memory := m })
        else
          let (elf, m) := load elfData elfSize pdPhysical m
          let s := operatorDelete buffer { s with memory := m }
          if !elf.success then
            some (0, { s with memory := destroyAddressSpace pdPhysical s.memory })
          else
            let caller := s.kernel.table s.kernel.current
            match spawn pdPhysical elf.heapStart caller.cs caller.ds process s with
            | none => none
            | some (none, s) =>
                some (0, { s with memory := destroyAddressSpace pdPhysical s.memory })
            | some (some child, s) => some ((s.kernel.table child).pid, s)

end Handler

section Specification

/-- Nothing is left of a call: not in the process list, nor in the frames and address spaces,
nor in the kernel heap. -/
structure Untouched (before after : Host) : Prop where
  kernel : after.kernel = before.kernel
  memory : Restored before.memory after.memory
  heap : after.heap = before.heap

/-- One ready process with a PID of its own was appended, in an address space that was added. -/
structure Appended (before after : Host) (pid : Nat) : Prop where
  new : ∀ r ∈ before.kernel.processes, (before.kernel.table r).pid ≠ pid
  added : ∃ child, after.kernel.processes = before.kernel.processes ++ [child] ∧
    (after.kernel.table child).pid = pid ∧ (after.kernel.table child).state = .ready ∧
    SpaceAdded before.memory after.memory ((after.kernel.table child).pageDirectory / frameSize)
  others : ∀ r ∈ before.kernel.processes, after.kernel.table r = before.kernel.table r

/-- A call returns: with 0 it has changed nothing, and with a PID it has started it. -/
def Atomic (s : Host) (answer : Option (Nat × Host)) : Prop :=
  ∃ pid after, answer = some (pid, after) ∧ (pid = 0 → Untouched s after) ∧
    (pid ≠ 0 → Appended s after pid)

end Specification

section Calls

variable {elfPtr elfSize : Nat} {elfData : Nat → UInt8} {buffer process : Nat} {s : Host}

/-- The record of a new process, with what `spawn` fills in. -/
def newProcess (k : KernelState) (p : UserProcess) : Process :=
  { freshProcess k.nextPid (u32 (p.kernelEsp + 4294967296 - 76)) (k.table k.current).cs
      (k.table k.current).ds p.pageDirectory with
    kernelEsp := p.kernelEsp
    heapBase := p.heapBase
    heapBreak := p.heapBreak }

theorem spawn_eq (pdPhysical heapStart : Nat) :
    spawn pdPhysical heapStart (s.kernel.table s.kernel.current).cs
        (s.kernel.table s.kernel.current).ds process s =
      match ProcessMemory.spawn pdPhysical heapStart true s.memory with
      | (none, m) => some (none, { s with memory := m })
      | (some p, m) => if process = 0 then none
          else some (some s.kernel.nextRef,
            ⟨started s.kernel (newProcess s.kernel p), m, process :: s.heap⟩) := by
  unfold spawn ProcessMemory.spawn
  rcases takeFrame s.memory with ⟨userStackFrame, m⟩
  dsimp only
  split
  · rfl
  · rcases takeFrame (mapUserPage pdPhysical userStackPage userStackFrame userFlags m)
      with ⟨kernelStackFrame, m⟩
    dsimp only
    split
    · rfl
    · unfold create operatorNew
      rw [if_pos rfl]
      by_cases none : process = 0
      · rw [if_pos none]
        dsimp only
        rw [if_pos none]
      · rw [if_neg none]
        simp only [ProcessManager.create, if_true, KernelState.modify, started, if_neg none,
          Option.some.injEq, Prod.mk.injEq, true_and, Host.mk.injEq, KernelState.mk.injEq, and_true]
        funext q
        by_cases new : q = s.kernel.nextRef
        · simp only [new, if_true]
          rfl
        · simp only [new, if_false]

theorem operator_delete_new (pointer : Nat) (kernel : KernelState) (memory : MemoryState) :
    operatorDelete pointer ⟨kernel, memory, pointer :: s.heap⟩ = ⟨kernel, memory, s.heap⟩ := by
  unfold operatorDelete
  rw [List.erase_cons_head]

/-- `exec` does to the frames what the memory side says. When that starts a process, so does
`exec`, unless the heap has no room for it. -/
theorem exec_eq (pointer : elfPtr ≠ 0) (size : elfSize ≠ 0) (room : buffer ≠ 0) :
    exec elfPtr elfSize elfData buffer process s =
      match ProcessMemory.exec elfData elfSize true s.memory with
      | (none, m) => some (0, { s with memory := m })
      | (some p, m) => if process = 0 then none
          else some (s.kernel.nextPid,
            ⟨started s.kernel (newProcess s.kernel p), m, process :: s.heap⟩) := by
  unfold exec ProcessMemory.exec
  rw [if_neg (not_or.2 ⟨pointer, size⟩)]
  unfold operatorNew
  rw [if_neg room]
  dsimp only
  rcases createAddressSpace s.memory with ⟨pdPhysical, made⟩
  dsimp only
  by_cases none : pdPhysical = 0
  · rw [if_pos none, if_pos none, operator_delete_new]
  · rw [if_neg none, if_neg none]
    rcases load elfData elfSize pdPhysical made with ⟨elf, filled⟩
    dsimp only
    rw [operator_delete_new]
    dsimp only
    by_cases failed : (!elf.success) = true
    · rw [if_pos failed, if_pos failed]
    · rw [if_neg failed, if_neg failed]
      have spawned := @spawn_eq process ⟨s.kernel, filled, s.heap⟩ pdPhysical elf.heapStart
      dsimp only at spawned
      rw [spawned]
      rcases ProcessMemory.spawn pdPhysical elf.heapStart true filled with ⟨_ | p, after⟩
      · rfl
      · dsimp only
        by_cases refused : process = 0
        · rw [if_pos refused, if_pos refused]
        · have own : (started s.kernel (newProcess s.kernel p)).table s.kernel.nextRef =
              newProcess s.kernel p := if_pos rfl
          rw [if_neg refused, if_neg refused]
          dsimp only
          rw [own]
          rfl

theorem exec_refused (refused : elfPtr = 0 ∨ elfSize = 0 ∨ buffer = 0) :
    exec elfPtr elfSize elfData buffer process s = some (0, s) := by
  unfold exec
  split
  · rfl
  · next given =>
    have room : buffer = 0 := by
      rcases refused with pointer | size | room
      · exact absurd (.inl pointer) given
      · exact absurd (.inr size) given
      · exact room
    unfold operatorNew
    rw [if_pos room]

theorem restored_refl (reserved : Reserved s.memory) : Restored s.memory s.memory :=
  restored_of_contents reserved (fun _ => Iff.rfl) (fun _ _ => rfl) rfl

theorem atomic_some {pid : Nat} {after : Host} :
    Atomic s (some (pid, after)) ↔
      (pid = 0 → Untouched s after) ∧ (pid ≠ 0 → Appended s after pid) := by
  constructor
  · rintro ⟨_, _, same, both⟩
    obtain ⟨rfl, rfl⟩ := Prod.mk.inj (Option.some.inj same)
    exact both
  · exact fun both => ⟨pid, after, rfl, both⟩

theorem appended_iff (fresh : ∀ r ∈ s.kernel.processes, r < s.kernel.nextRef) (p : UserProcess)
    (m : MemoryState) (heap : List Nat) :
    Atomic s (some (s.kernel.nextPid, ⟨started s.kernel (newProcess s.kernel p), m, heap⟩)) ↔
      s.kernel.nextPid ≠ 0 ∧
        (∀ r ∈ s.kernel.processes, (s.kernel.table r).pid ≠ s.kernel.nextPid) ∧
        SpaceAdded s.memory m (p.pageDirectory / frameSize) := by
  have own : (started s.kernel (newProcess s.kernel p)).table s.kernel.nextRef =
      newProcess s.kernel p := if_pos rfl
  rw [atomic_some]
  constructor
  · intro atomic
    by_cases zero : s.kernel.nextPid = 0
    · -- a process with PID 0 was started
      have same := congrArg KernelState.processes (atomic.1 zero).kernel
      exact absurd (congrArg List.length same) (by simp [started])
    · obtain ⟨new, ⟨child, list, _, _, space⟩, _⟩ := atomic.2 zero
      obtain rfl : s.kernel.nextRef = child := by simpa [started] using list
      dsimp only at space
      rw [own] at space
      exact ⟨zero, new, space⟩
  · rintro ⟨nonzero, new, space⟩
    refine ⟨fun zero => absurd zero nonzero, fun _ => ⟨new, ?_, ?_⟩⟩
    · refine ⟨s.kernel.nextRef, rfl, ?_⟩
      dsimp only
      rw [own]
      exact ⟨rfl, rfl, space⟩
    · intro r member
      exact if_neg (Nat.ne_of_lt (fresh r member))

/-- A call that fails after it has a directory returns 0 and leaves what the memory side leaves. -/
theorem exec_failed (ready : Ready s.memory) (pointer : elfPtr ≠ 0) (size : elfSize ≠ 0)
    (room : buffer ≠ 0) (some : getFreeFrames s.memory.pmm ≠ 0)
    (stopped : ¬ Starts elfData elfSize s.memory) :
    Atomic s (exec elfPtr elfSize elfData buffer process s) ↔
      Undoable (spaceTables s.memory) [] (getFreeFrames s.memory.pmm - 1)
        (startPages elfData elfSize) := by
  have starts := @exec_some_iff elfData elfSize s.memory ready
  have restored := @exec_restored_iff elfData elfSize s.memory ready some
  rw [exec_eq pointer size room]
  generalize ProcessMemory.exec elfData elfSize true s.memory = answer at starts restored ⊢
  rcases answer with ⟨_ | child, after⟩
  · rw [← restored rfl]
    dsimp only
    rw [atomic_some]
    exact ⟨fun atomic => (atomic.1 rfl).memory, fun undone => ⟨fun _ => ⟨rfl, undone, rfl⟩,
      fun impossible => absurd rfl impossible⟩⟩
  · exact absurd (starts.1 rfl) stopped

theorem exec_begun (ready : Ready s.memory)
    (fresh : ∀ r ∈ s.kernel.processes, r < s.kernel.nextRef) (pointer : elfPtr ≠ 0)
    (size : elfSize ≠ 0) (room : buffer ≠ 0) (begun : Starts elfData elfSize s.memory) :
    Atomic s (exec elfPtr elfSize elfData buffer process s) ↔
      process ≠ 0 ∧ s.kernel.nextPid ≠ 0 ∧
        (∀ r ∈ s.kernel.processes, (s.kernel.table r).pid ≠ s.kernel.nextPid) ∧
        ∀ page ∈ elfPages elfData elfSize, page.virtualAddr < kernelVbase := by
  have starts := @exec_some_iff elfData elfSize s.memory ready
  rw [exec_eq pointer size room]
  rcases run : ProcessMemory.exec elfData elfSize true s.memory with ⟨_ | child, after⟩
  · rw [run] at starts
    exact Bool.noConfusion (starts.2 begun)
  · dsimp only
    by_cases refused : process = 0
    · rw [if_pos refused]
      refine ⟨?_, fun both => absurd refused both.1⟩
      rintro ⟨_, _, impossible, _⟩
      cases impossible
    · rw [if_neg refused, appended_iff fresh, exec_space_added_iff ready run]
      exact ⟨fun both => ⟨refused, both⟩, And.right⟩

end Calls

section Examples

open CassiOS.Kernel.LoaderSafety

/-- The small machine with the kernel task and nothing else. -/
def smallHost : Host := ⟨System.bare 0 fun _ _ => 0, smallMachine, []⟩

/-- An executable with pages from `0x08000000` on; `size` is the second byte of their size. -/
def pagesImage (size : UInt8) : Nat → UInt8
  | 72 => 0
  | 73 => size
  | i => onePageImage 0x08 i

theorem small_machine_free : getFreeFrames smallMachine.pmm = 8 := by
  apply Nat.le_antisymm
  · apply free_frames_le_length (m := smallMachine) (List.range' 256 8)
    intro frame _ clear
    by_contra outside
    rw [List.mem_range'_1] at outside
    exact clear (used_small_machine (by omega))
  · apply free_frames_length_le (m := smallMachine) (List.range' 256 8) List.nodup_range'
    intro frame member
    rw [List.mem_range'_1] at member
    refine ⟨?_, clear_small_machine frame member.1 member.2⟩
    unfold frameCount bitmapSize
    omega

theorem small_refs : ∀ r ∈ smallHost.kernel.processes, r < smallHost.kernel.nextRef := by
  decide

theorem one_page_start :
    imageAccepted (onePageImage 0x08) 84 = true ∧
      (elfPages (onePageImage 0x08) 84).map Page.virtualAddr = [0x08000000] ∧
      frameDemand (spaceTables smallMachine) (startPages (onePageImage 0x08) 84) = 4 := by
  decide +kernel

theorem undoable_of_take {tables : Nat → Bool} {free : Nat} {addresses : List Nat}
    (each : ∀ k < addresses.length, ∀ addr ∈ addresses[k]?,
      frameDemand tables (addresses.take k) < free →
        addr / tableSpan < userEntries ∧
          (∀ b ∈ addresses.take k, b / frameSize ≠ addr / frameSize) ∧
          frameDemand tables (addresses.take (k + 1)) ≤ free) :
    Undoable tables [] free addresses := by
  intro placed addr rest split less
  have here := each placed.length (by simp [split]) addr (by simp [split])
  have first : addresses.take placed.length = placed := by simp [split]
  have second : addresses.take (placed.length + 1) = placed ++ [addr] := by
    simp [split, List.take_append]
  rw [first, second] at here
  exact here less

/-- Six pages and their table take the seven frames that the directory leaves. -/
theorem six_pages :
    frameDemand (spaceTables smallMachine) (startPages (pagesImage 0x60) 84) = 9 ∧
      Undoable (spaceTables smallMachine) [] 7 (startPages (pagesImage 0x60) 84) := by
  have pages : startPages (pagesImage 0x60) 84 = [0x08000000, 0x08001000, 0x08002000, 0x08003000,
      0x08004000, 0x08005000, 0xBFFFF000] := by decide +kernel
  rw [pages]
  exact ⟨by decide +kernel, undoable_of_take (by decide +kernel)⟩

theorem five_pages :
    startPages (pagesImage 0x50) 84 = [0x08000000, 0x08001000, 0x08002000, 0x08003000,
      0x08004000] ++ [0xBFFFF000] ∧
    frameDemand (spaceTables smallMachine)
      [0x08000000, 0x08001000, 0x08002000, 0x08003000, 0x08004000] = 6 ∧
    frameDemand (spaceTables smallMachine) ([0x08000000, 0x08001000, 0x08002000, 0x08003000,
      0x08004000] ++ [0xBFFFF000]) = 8 := by
  decide +kernel

end Examples

end CassiOS.Kernel.FailedExec
