import CassiOS.Kernel.ActiveDirectory

/-!
# The frames of different processes

In every run, whatever runs after a process that exits: the page directories, page tables,
program frames and kernel stacks of two live processes are different frames, all of them in
use, and the process that runs has its own directory loaded.
-/

namespace CassiOS.Kernel.FramesApart

open CassiOS.Support.TransitionSystem
open CassiOS.Memory.Physical (frameSize frame_of_address frame_address_injective)
open CassiOS.Memory.Paging
open CassiOS.Memory.Ownership
open CassiOS.Memory.NewSpace
open CassiOS.Kernel.State
open CassiOS.Kernel.ProcessManager hiding frameSize
open CassiOS.Kernel.Scheduler
open CassiOS.Kernel.System
open CassiOS.Kernel.ProcessStates
open CassiOS.Kernel.Directories
open CassiOS.Kernel.NewProcess
open CassiOS.Kernel.MemorySystem
open CassiOS.Kernel.Exit
open CassiOS.Kernel.ActiveDirectory (Mapped SuccessorMapped mapped_step mapped_boot
  destroyed_frames_free survivor_spaces user_process_congr)
open CassiOS.Kernel.ProcessMemory (UserProcess destroyedFrames)

set_option autoImplicit false

section Specification

/-- No process is created once `nextPid` has wrapped around. -/
def Admits (s : Machine) (action : MemorySystem.Action) : Prop :=
  FreshPid s.kernel (kernelAction s.memory action)

def frames (s : Machine) (r : Ref) : List Nat :=
  destroyedFrames (userProcess (s.kernel.table r)) s.memory

/-- What the programs of a machine hold of its memory; `base` is the memory before the
first was loaded. -/
structure Housed (base : MemoryState) (s : Machine) : Prop where
  held : ∀ r ∈ s.kernel.processes, r ≠ kernelTask → ∀ address ∈ frames s r,
    ∃ frame, address = frame * frameSize ∧ New base s.memory frame
  apart : ∀ r ∈ s.kernel.processes, ∀ q ∈ s.kernel.processes, r ≠ kernelTask → q ≠ kernelTask →
    r ≠ q → ∀ address ∈ frames s r, address ∉ frames s q
  directory : ∀ r ∈ s.kernel.processes, r ≠ kernelTask →
    (s.kernel.table r).pageDirectory ∈ frames s r
  loaded : s.kernel.current ≠ kernelTask →
    s.kernel.cr3 = (s.kernel.table s.kernel.current).pageDirectory

end Specification

section Exit

variable {base m : MemoryState} {s : Machine}

theorem used_after_destroy {p : UserProcess} (owner : Owner base m p) (frame : Nat) :
    (freeFrames m (destroyedFrames p m)).Used frame ↔
      m.Used frame ∧ frame * frameSize ∉ destroyedFrames p m := by
  rw [used_free_frames]
  · apply and_congr_right'
    constructor
    · intro others member
      exact others _ member (frame_of_address frame)
    · intro absent address member same
      obtain ⟨other, rfl, _⟩ := owner.frames address member
      rw [frame_of_address] at same
      exact absent (same ▸ member)
  · intro address member
    obtain ⟨other, rfl, new⟩ := owner.frames address member
    rw [frame_of_address]
    exact new.bound

theorem owner_after_destroy {p q : UserProcess} (gone : Owner base m p) (owner : Owner base m q)
    (apart : ∀ address ∈ destroyedFrames q m, address ∉ destroyedFrames p m) :
    Owner base (freeFrames m (destroyedFrames p m)) q where
  directory := owner.directory
  frames := by
    intro address found
    rw [destroyed_frames_free] at found
    obtain ⟨frame, rfl, new⟩ := owner.frames address found
    exact ⟨frame, rfl, new.bound, new.unused,
      (used_after_destroy gone frame).2 ⟨new.used, apart _ found⟩⟩

theorem destroy_memory_exit (mapped : Mapped base s.kernel.cr3 s)
    (user : s.kernel.current ≠ kernelTask) :
    destroyMemory s.kernel (s.kernel.table s.kernel.current).pid s.memory =
      freeFrames s.memory (frames s s.kernel.current) := by
  have registered := mapped.sound.stable.registered
  unfold destroyMemory
  rw [registered.pid _ registered.current, if_neg (show s.kernel.current ≠ 0 from user),
    registered.get_of_mem registered.current]
  exact ProcessMemory.destroy_eq _ _

theorem exit_keeps_spaces {k k' : KernelState} (exit : ExitOutcome k k') {r : Ref}
    (inside : r ∈ k.processes) (other : r ≠ k.current) :
    (k'.table r).pageDirectory = (k.table r).pageDirectory ∧
      (k'.table r).kernelEsp = (k.table r).kernelEsp := by
  rw [exit.table r inside other]
  split
  · exact ⟨rfl, rfl⟩
  · exact survivor_spaces _ _ _

/-- The kernel task has no directory; after it `cr3` stays as it was. -/
theorem active_exit {k : KernelState} {kernelPd : Nat} (active : Active kernelPd k)
    (registered : ProcessTable.Registered k) (user : k.current ≠ kernelTask)
    (exit : ExitOutcome k (exitCurrent k).1) :
    Active (exitCurrent k).1.cr3 (exitCurrent k).1 where
  kernel := by
    rw [(exit_keeps_spaces exit registered.kernel_task_mem (Ne.symm user)).1]
    exact active.kernel
  users := by
    intro r member other
    rw [exit.processes] at member
    obtain ⟨apart, inside⟩ := registered.nodup.mem_erase_iff.mp member
    rw [(exit_keeps_spaces exit inside apart).1]
    exact active.users r inside other
  running := by
    intro other
    apply ActiveDirectory.exit_cr3
    rw [(exit_keeps_spaces exit exit.next_mem exit.next_other).1]
    exact active.users _ exit.next_mem other
  live := .inl rfl

/-- The frames of a process that exits go and those of the others stay. -/
theorem mapped_after_exit (mapped : Mapped base s.kernel.cr3 s)
    (user : s.kernel.current ≠ kernelTask) :
    Mapped base (exitCurrent s.kernel).1.cr3 ⟨(exitCurrent s.kernel).1,
      destroyMemory s.kernel (s.kernel.table s.kernel.current).pid s.memory⟩ := by
  have registered := mapped.sound.stable.registered
  have exit := exit_outcome mapped.sound.stable user
  have own := mapped.held _ registered.current user
  have known : ∀ r ∈ (exitCurrent s.kernel).1.processes,
      r ∈ s.kernel.processes ∧ r ≠ s.kernel.current := by
    intro r member
    rw [exit.processes] at member
    exact (registered.nodup.mem_erase_iff.mp member).symm
  have kept : ∀ r ∈ (exitCurrent s.kernel).1.processes,
      destroyedFrames (userProcess ((exitCurrent s.kernel).1.table r))
        (freeFrames s.memory (frames s s.kernel.current)) = frames s r := by
    intro r member
    obtain ⟨inside, other⟩ := known r member
    have spaces := exit_keeps_spaces exit inside other
    rw [destroyed_frames_free, user_process_congr spaces.1 spaces.2]
    rfl
  rw [destroy_memory_exit mapped user]
  constructor
  · exact sound_of_exit mapped.sound user exit
  · exact active_exit mapped.active registered user exit
  · intro frame used
    refine (used_after_destroy own frame).2 ⟨mapped.grows frame used, ?_⟩
    intro member
    obtain ⟨other, same, new⟩ := own.frames _ member
    rw [frame_address_injective same] at used
    exact new.unused used
  · exact mapped.directory
  · intro r member other
    obtain ⟨inside, apart⟩ := known r member
    have spaces := exit_keeps_spaces exit inside apart
    have held := owner_after_destroy own (mapped.held r inside other)
      (mapped.apart r inside _ registered.current other user apart)
    exact ActiveDirectory.Owner.congr spaces.1 spaces.2 held
  · intro r memberR q memberQ userR userQ different
    dsimp only
    rw [kept r memberR, kept q memberQ]
    exact mapped.apart r (known r memberR).1 q (known q memberQ).1 userR userQ different

end Exit

section Runs

variable {base : MemoryState} {s s' : Machine}

theorem mapped_any {kernelPd : Nat} (mapped : Mapped base kernelPd s) :
    Mapped base s.kernel.cr3 s where
  sound := mapped.sound
  active :=
    ⟨mapped.active.kernel, mapped.active.users, mapped.active.running, .inl rfl⟩
  grows := mapped.grows
  directory := mapped.directory
  held := mapped.held
  apart := mapped.apart

theorem mapped_after_step (reserved : Reserved base) (mapped : Mapped base s.kernel.cr3 s)
    {action : MemorySystem.Action} (admits : Admits s action)
    (next : MemorySystem.step s action = some s') : Mapped base s'.kernel.cr3 s' := by
  by_cases leaves : ∃ esp, action = .syscall esp .exit
  · obtain ⟨esp, rfl⟩ := leaves
    unfold MemorySystem.step at next
    rw [if_pos (show answered (.syscall esp .exit) = true from rfl)] at next
    obtain ⟨k', kernel, rfl⟩ := Option.map_eq_some_iff.mp next
    unfold kernelAction System.step at kernel
    dsimp only at kernel
    split at kernel
    · next possible =>
      obtain rfl := Option.some.inj kernel
      exact mapped_after_exit mapped possible.1
    · cases kernel
  · have goes : SuccessorMapped s.kernel action := by
      unfold SuccessorMapped
      split
      · next esp => exact absurd ⟨esp, rfl⟩ leaves
      · trivial
    exact mapped_any (mapped_step reserved mapped ⟨admits, goes⟩ next)

theorem mapped_of_run (booted : Booted base) {kernelPd : Nat} {bytes : Nat → Nat → UInt8}
    {modules : List Module} (few : modules.length < 4294967296)
    (run : Run MemorySystem.step Admits (boot kernelPd bytes base modules) s) :
    Mapped base s.kernel.cr3 s := by
  have reserved := reserved_of_booted booted
  apply run.invariant fun s => Mapped base s.kernel.cr3 s
  · have mapped : Mapped base kernelPd (boot kernelPd bytes base modules) :=
      mapped_boot reserved bytes few
    exact mapped_any mapped
  · intro s action s' mapped admits next
    exact mapped_after_step reserved mapped admits next

theorem housed_of_mapped (mapped : Mapped base s.kernel.cr3 s) : Housed base s where
  held r member user := (mapped.held r member user).frames
  apart := mapped.apart
  directory := by
    intro r member user
    obtain ⟨pd, positive, same⟩ := (mapped.held r member user).directory
    have own := ActiveDirectory.space_mem_destroyed positive same (directory_mem s.memory pd)
    rw [← show (s.kernel.table r).pageDirectory = pd * frameSize from same] at own
    exact own
  loaded := mapped.active.running

end Runs

section Examples

open CassiOS.Kernel.ActiveDirectory (widerMachine booted_wider_machine)
open CassiOS.Kernel.LoaderSafety

def programs : List Module := List.replicate 3 ⟨onePageImage 0x08, 84, true⟩

def threePrograms : Machine := boot (2 * frameSize) (fun _ _ => 0) widerMachine programs

/-- The first program gets its turn and waits for a message, with buffers at 4096 and 8192. -/
def firstWaits : List MemorySystem.Action :=
  List.replicate 10 (.irq Irq.irqOffset kernelVbase) ++
    [.syscall kernelVbase (.receive 4096 8192 16)]

/-- So does the second, and the third exits. -/
def thirdExits : List MemorySystem.Action :=
  firstWaits ++ [.syscall kernelVbase (.receive 4096 0 0), .syscall kernelVbase .exit]

theorem third_exits_result :
    (path MemorySystem.step threePrograms thirdExits).map
      (fun s => (s.kernel.processes, s.kernel.current, s.kernel.cr3)) =
        some ([kernelTask, 1, 2], kernelTask, 268 * frameSize) := by
  decide +kernel

end Examples

end CassiOS.Kernel.FramesApart
