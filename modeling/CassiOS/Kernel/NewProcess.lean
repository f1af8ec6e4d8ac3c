import CassiOS.Kernel.LoaderSafety
import CassiOS.Kernel.ProcessMemory
import CassiOS.Memory.NewSpace

/-!
# Starting a process beside others

Whatever the image, a process that is started owns only frames that were free, and starting
it changes no frame in use but the kernel's page tables.
-/

namespace CassiOS.Kernel.NewProcess

open CassiOS.Support.Words
open CassiOS.Memory.Physical
open CassiOS.Memory.Paging
open CassiOS.Memory.Ownership
open CassiOS.Memory.NewSpace
open CassiOS.Kernel.ElfLoader
open CassiOS.Kernel.ProcessMemory
open CassiOS.Kernel.LoaderSafety (place_pages_cases)

set_option autoImplicit false

structure Reserved (m : MemoryState) : Prop where
  zero : m.Used 0
  tables : ∀ frame, KernelTable m frame → m.Used frame

/-- The frames a process would give back were allocated between the two states. -/
structure Owner (before m : MemoryState) (p : UserProcess) : Prop where
  directory : ∃ pd, 0 < pd ∧ p.pageDirectory = pd * frameSize
  frames : ∀ address ∈ destroyedFrames p m,
    ∃ frame, address = frame * frameSize ∧ New before m frame

section Building

variable {before m : MemoryState} {pd : Nat}

theorem reserved_of_booted (booted : Booted before) : Reserved before where
  zero := booted.zeroUsed
  tables := by
    rintro frame ⟨i, high, here, rfl⟩
    exact booted.tables i high here

theorem Extends.zero_used (reserved : Reserved before) (extension : Extends before m pd) :
    m.Used 0 := extension.grows 0 reserved.zero

theorem create_extends (reserved : Reserved before) {pdPhysical : Nat} {made : MemoryState}
    (created : createAddressSpace before = (pdPhysical, made)) (nonzero : pdPhysical ≠ 0) :
    ∃ pd, 0 < pd ∧ pdPhysical = pd * frameSize ∧ Extends before made pd := by
  rcases create_address_space_cases reserved.zero with
    ⟨frame, positive, bound, clear, _, run⟩ | ⟨_, run⟩
  · rw [created] at run
    obtain ⟨rfl, rfl⟩ := Prod.mk.inj run
    have used := MemoryState.used_mark before frame bound
    have user : ∀ i, i < userEntries → present (((before.mark frame).fillFrame frame fun i =>
        if i < userEntries then 0 else before.kernelDirectory i).words frame i) = false := by
      intro i low
      rw [MemoryState.words_fill_frame, if_pos rfl, if_pos low]
      rfl
    refine ⟨frame, positive, rfl, ?_⟩
    constructor
    · refine ⟨fun f already => (used f).2 (.inl already), rfl, ?_⟩
      intro f j
      rw [MemoryState.words_fill_frame]
      split
      · next same =>
        rw [same]
        exact fun _ => .inl clear
      · exact fun changed => absurd rfl changed
    · exact ⟨bound, clear, (used frame).2 (.inr rfl)⟩
    · intro i here
      rcases Nat.lt_or_ge i userEntries with low | high
      · exact absurd ((user i low).symm.trans here) Bool.noConfusion
      · rw [MemoryState.words_fill_frame, if_pos rfl, if_neg (Nat.not_lt.2 high)] at here ⊢
        have kernel : KernelTable before (frameOf (before.kernelDirectory i)) := ⟨i, high, here, rfl⟩
        exact ⟨fun same => clear (same ▸ reserved.tables _ kernel), .inr ⟨high, kernel⟩⟩
    · rintro table ⟨i, low, here, _⟩
      exact absurd ((user i low).symm.trans here) Bool.noConfusion
  · rw [created] at run
    exact absurd (Prod.mk.inj run).1 nonzero

theorem extends_new_page (extension : Extends before m pd) {frame virtualAddr : Nat}
    {next : MemoryState} (positive : 0 < frame) (bound : frame < frameCount)
    (clear : ¬ m.Used frame)
    (outcome : MapOutcome (m.mark frame) pd virtualAddr
      (makeEntry (frame * frameSize) userFlags) next) :
    Extends before next pd ∧ ¬ before.Used frame ∧ frame ≠ pd ∧
      ∀ table, Table next pd table → table ≠ frame := by
  have unused : ¬ before.Used frame := fun used => clear (extension.grows frame used)
  have taken := extends_take extension bound
  have used : (m.mark frame).Used frame := (MemoryState.used_mark _ _ bound frame).2 (.inr rfl)
  have page : New before (m.mark frame) (frameOf (makeEntry (frame * frameSize) userFlags)) := by
    rw [frame_of_make_entry, (frame_address positive).2]
    exact ⟨bound, unused, used⟩
  refine ⟨extends_map taken outcome page, unused,
    fun same => clear (same ▸ extension.own.used), ?_⟩
  apply not_table_after_map taken outcome used
  intro table own same
  exact clear (same ▸ (extension.table_new own).used)

theorem place_pages_extends (reserved : Reserved before) (extension : Extends before m pd)
    (pages : List Page) : Extends before (placePages (pd * frameSize) pages m).2 pd := by
  induction pages generalizing m with
  | nil => exact extension
  | cons page rest ih =>
      have zeroUsed := Extends.zero_used reserved extension
      rcases place_pages_cases pd zeroUsed page rest with
        ⟨_, run⟩ | ⟨frame, next, bound, clear, outcome, run⟩
      · rw [run]
        exact extension
      · rw [run]
        have positive : 0 < frame := by
          rcases Nat.eq_zero_or_pos frame with rfl | positive
          · exact absurd zeroUsed clear
          · exact positive
        obtain ⟨mapped, unused, other, notTable⟩ :=
          extends_new_page extension positive bound clear outcome
        exact ih (extends_fill mapped page.content unused other notTable)

end Building

section Starting

variable {before m : MemoryState} {pd : Nat}

theorem kernel_stack_frame {stack : Nat} (bound : stack < frameCount) (p : UserProcess)
    (top : p.kernelEsp = u32 (stack * frameSize + kernelVbase + frameSize)) :
    kernelStackFrame p = stack * frameSize := by
  unfold kernelStackFrame
  rw [top]
  unfold frameCount bitmapSize at bound
  unfold u32 frameSize kernelVbase
  omega

/-- What `spawn` leaves, whether it gets its process or not. -/
theorem spawn_extends (reserved : Reserved before) (extension : Extends before m pd)
    (positive : 0 < pd) (heapStart : Nat) (process : Bool) :
    Frames before (spawn (pd * frameSize) heapStart process m).2 ∧
      (∀ address ∈ spaceFrames (spawn (pd * frameSize) heapStart process m).2 (pd * frameSize),
        ∃ frame, address = frame * frameSize ∧ frame < frameCount ∧ ¬ before.Used frame) ∧
      ∀ p, (spawn (pd * frameSize) heapStart process m).1 = some p →
        Owner before (spawn (pd * frameSize) heapStart process m).2 p := by
  have plain : ∀ {m}, Extends before m pd → ∀ address ∈ spaceFrames m (pd * frameSize),
      ∃ frame, address = frame * frameSize ∧ frame < frameCount ∧ ¬ before.Used frame := by
    intro m extension address member
    obtain ⟨frame, same, new⟩ := extension.found member
    exact ⟨frame, same, new.bound, new.unused⟩
  have zeroUsed := Extends.zero_used reserved extension
  unfold spawn
  rcases take_frame_cases zeroUsed with ⟨frame, framePositive, bound, clear, _, run⟩ | ⟨_, run⟩
  · have zeroMarked := (MemoryState.used_mark _ _ bound 0).2 (.inl zeroUsed)
    have outcome := map_user_page_outcome zeroMarked pd userStackPage (frame * frameSize) userFlags
    obtain ⟨mapped, _, _, _⟩ := extends_new_page extension framePositive bound clear outcome
    rw [run]
    simp only [if_neg (frame_address framePositive).1]
    generalize mapUserPage (pd * frameSize) userStackPage (frame * frameSize) userFlags
      (m.mark frame) = next at mapped
    rcases take_frame_cases (Extends.zero_used reserved mapped) with
      ⟨stack, stackPositive, stackBound, stackClear, _, stackRun⟩ | ⟨_, stackRun⟩
    · rw [stackRun]
      simp only [if_neg (frame_address stackPositive).1]
      have taken := extends_take mapped stackBound
      have stackUnused : ¬ before.Used stack := fun used => stackClear (mapped.grows stack used)
      cases process with
      | true =>
          refine ⟨taken.toFrames, plain taken, ?_⟩
          intro p same
          obtain rfl := Option.some.inj same
          refine ⟨⟨pd, positive, rfl⟩, ?_⟩
          intro address member
          unfold destroyedFrames at member
          dsimp only at member
          rw [if_neg (frame_address positive).1, List.mem_append] at member
          rcases member with space | top
          · exact taken.found space
          · split at top
            · exact absurd top List.not_mem_nil
            · refine ⟨stack, ?_, stackBound, stackUnused,
                (MemoryState.used_mark _ _ stackBound stack).2 (.inr rfl)⟩
              rw [List.mem_singleton.1 top]
              exact kernel_stack_frame stackBound _ rfl
      | false =>
          simp only [Bool.false_eq_true, if_false]
          refine ⟨taken.toFrames.freed _ ?_, ?_, fun _ => nofun⟩
          · intro address member
            exact ⟨stack, List.mem_singleton.1 member, stackBound, stackUnused⟩
          · rw [space_frames_free]
            exact plain taken
    · rw [stackRun]
      simp only [if_true]
      exact ⟨mapped.toFrames, plain mapped, fun _ => nofun⟩
  · rw [run]
    simp only [if_true]
    exact ⟨extension.toFrames, plain extension, fun _ => nofun⟩

theorem load_module_frames (reserved : Reserved before) (elfData : Nat → UInt8) (elfSize : Nat)
    (process : Bool) :
    Frames before (loadModule elfData elfSize process before).2 ∧
      ((createAddressSpace before).1 ≠ 0 →
        ∀ address ∈ spaceFrames (loadModule elfData elfSize process before).2
            (createAddressSpace before).1,
          ∃ frame, address = frame * frameSize ∧ frame < frameCount ∧ ¬ before.Used frame) ∧
      ∀ p, (loadModule elfData elfSize process before).1 = some p →
        Owner before (loadModule elfData elfSize process before).2 p := by
  unfold loadModule
  rcases created : createAddressSpace before with ⟨pdPhysical, made⟩
  dsimp only
  by_cases zero : pdPhysical = 0
  · simp only [if_pos zero]
    rcases create_address_space_cases reserved.zero with
      ⟨frame, positive, _, _, _, run⟩ | ⟨_, run⟩
    · rw [created] at run
      exact absurd ((Prod.mk.inj run).1.symm.trans zero) (frame_address positive).1
    · rw [created] at run
      obtain ⟨_, rfl⟩ := Prod.mk.inj run
      exact ⟨frames_refl _, fun nonzero => absurd zero nonzero, fun _ => nofun⟩
  · simp only [if_neg zero]
    obtain ⟨pd, positive, rfl, extension⟩ := create_extends reserved created zero
    have pages := (@load_pages elfData elfSize (pd * frameSize) made).1
    have placed := place_pages_extends reserved extension (elfPages elfData elfSize)
    rw [← pages] at placed
    generalize load elfData elfSize (pd * frameSize) made = loaded at placed
    obtain ⟨elf, filled⟩ := loaded
    dsimp only at placed ⊢
    by_cases failed : (!elf.success) = true
    · simp only [if_pos failed]
      refine ⟨placed.toFrames, fun _ address member => ?_, fun _ => nofun⟩
      obtain ⟨frame, same, new⟩ := placed.found member
      exact ⟨frame, same, new.bound, new.unused⟩
    · simp only [if_neg failed]
      obtain ⟨frames, space, owner⟩ := spawn_extends reserved placed positive elf.heapStart process
      exact ⟨frames, fun _ => space, owner⟩

/-- `exec` changes no frame in use, and its process owns only frames that were free. -/
theorem exec_frames (reserved : Reserved before) (elfData : Nat → UInt8) (elfSize : Nat)
    (process : Bool) :
    Frames before (exec elfData elfSize process before).2 ∧
      ∀ p, (exec elfData elfSize process before).1 = some p →
        Owner before (exec elfData elfSize process before).2 p := by
  obtain ⟨frames, space, owner⟩ := load_module_frames reserved elfData elfSize process
  rw [exec_eq]
  generalize loadModule elfData elfSize process before = loaded at frames space owner
  obtain ⟨_ | child, after⟩ := loaded
  · dsimp only at frames space owner ⊢
    refine ⟨?_, fun _ => nofun⟩
    split
    · exact frames
    · next nonzero =>
      unfold destroyAddressSpace
      exact frames.freed _ (space nonzero)
  · exact ⟨frames, owner⟩

end Starting

end CassiOS.Kernel.NewProcess
