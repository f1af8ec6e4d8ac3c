import CassiOS.Kernel.Directories
import CassiOS.Kernel.MemorySystem
import CassiOS.Kernel.NewProcess

/-!
# The active page directory

In every run, the frame `cr3` points to stays in use as long as a process that exits is
followed by one with a page directory of its own: `exitCurrent` does not load a directory
for the kernel task, after it has freed the one in use.
-/

namespace CassiOS.Kernel.ActiveDirectory

open CassiOS.Support.Words
open CassiOS.Support.TransitionSystem
open CassiOS.Memory.Physical (frameSize frameCount isFrameUsed frame_of_address
  frame_address_injective)
open CassiOS.Memory.Paging
open CassiOS.Memory.Ownership
open CassiOS.Memory.NewSpace
open CassiOS.Kernel.State
open CassiOS.Kernel.ProcessManager hiding frameSize
open CassiOS.Kernel.Scheduler
open CassiOS.Kernel.Syscall
open CassiOS.Kernel.System
open CassiOS.Kernel.ProcessTable
open CassiOS.Kernel.Invariant
open CassiOS.Kernel.Outcomes
open CassiOS.Kernel.Exit
open CassiOS.Kernel.ProcessStates
open CassiOS.Kernel.Directories
open CassiOS.Kernel.NewProcess
open CassiOS.Kernel.MemorySystem
open CassiOS.Kernel.ProcessMemory (UserProcess destroyedFrames)

set_option autoImplicit false

section Specification

/-- `cr3` is the kernel's page directory or that of a live process, and its frame is in use. -/
def DirectoryLive (kernelPd : Nat) (s : Machine) : Prop :=
  (s.kernel.cr3 = kernelPd ∨ ∃ r ∈ s.kernel.processes, r ≠ kernelTask ∧
    s.kernel.cr3 = (s.kernel.table r).pageDirectory) ∧
      s.memory.Used (s.kernel.cr3 / frameSize)

/-- A process exits only when the one that runs next has a page directory. -/
def SuccessorMapped (k : KernelState) : MemorySystem.Action → Prop
  | .syscall _ .exit => (k.table (successor k k.current)).pageDirectory ≠ 0
  | _ => True

def Admits (s : Machine) (action : MemorySystem.Action) : Prop :=
  FreshPid s.kernel (kernelAction s.memory action) ∧ SuccessorMapped s.kernel action

end Specification

section Kernel

variable {k k' : KernelState} {kernelPd : Nat}

theorem spawn_process (k : KernelState) (loading : Loading) (userCS userDS : Nat)
    (userStack : loading.userStackFrame ≠ 0) (kernelStack : loading.kernelStackFrame ≠ 0)
    (process : loading.process = true) :
    (((ProcessManager.spawn k loading userCS userDS).1.table k.nextRef).pageDirectory =
        loading.pdPhysical) ∧
      ((ProcessManager.spawn k loading userCS userDS).1.table k.nextRef).kernelEsp =
        u32 (loading.kernelStackFrame + kernelVbase + frameSize) := by
  unfold ProcessManager.spawn create
  rw [if_neg userStack, if_neg kernelStack, process]
  simp only [if_true, KernelState.table_modify_self]
  exact ⟨rfl, rfl⟩

structure IsStarted (k : KernelState) (loading : Loading) (proc : Process) : Prop
    extends IsNew k proc where
  directory : proc.pageDirectory = loading.pdPhysical
  stack : proc.kernelEsp = u32 (loading.kernelStackFrame + kernelVbase + frameSize)

theorem spawn_started (k : KernelState) {loading : Loading} (created : Created loading)
    (userCS userDS : Nat) : ∃ proc, IsStarted k loading proc ∧
      ProcessManager.spawn k loading userCS userDS = (started k proc, some k.nextRef) := by
  obtain ⟨_, _, userStack, kernelStack, process⟩ := created
  have fields := spawn_process k loading userCS userDS userStack kernelStack process
  rcases spawn_cases k loading userCS userDS with ⟨missing, _⟩ | ⟨_, proc, new, spawned⟩
  · exact absurd ⟨userStack, kernelStack, process⟩ missing
  · have own : (started k proc).table k.nextRef = proc := if_pos rfl
    rw [spawned, own] at fields
    exact ⟨proc, ⟨new, fields.1, fields.2⟩, spawned⟩

theorem exec_cases (k : KernelState) (elfPtr elfSize : Nat) (loading : Loading) :
    (Starts elfPtr elfSize loading ∧ ∃ proc, IsStarted k loading proc ∧
        (exec k elfPtr elfSize loading).1 = started k proc) ∨
      (¬ Starts elfPtr elfSize loading ∧ (exec k elfPtr elfSize loading).1 = k) := by
  by_cases starts : Starts elfPtr elfSize loading
  · left
    refine ⟨starts, ?_⟩
    obtain ⟨pointer, size, buffer, pd, success, userStack, kernelStack, process⟩ := starts
    obtain ⟨proc, new, spawned⟩ := spawn_started k
      ⟨pd, success, userStack, kernelStack, process⟩ (k.table k.current).cs (k.table k.current).ds
    refine ⟨proc, new, ?_⟩
    unfold exec
    rw [if_neg (not_or.2 ⟨pointer, size⟩), buffer, success, if_neg pd]
    dsimp only
    rw [spawned]
    rfl
  · right
    refine ⟨starts, ?_⟩
    have outcome := exec_outcome k elfPtr elfSize loading
    generalize exec k elfPtr elfSize loading = answer at outcome ⊢
    cases outcome with
    | failed missing => rfl
    | child proc begun new => exact absurd begun starts

theorem load_module_started (k : KernelState) (loading : Loading) :
    (Created loading ∧ ∃ proc, IsStarted k loading proc ∧
        loadModule k loading = started k proc) ∨
      (¬ Created loading ∧ loadModule k loading = k) := by
  by_cases created : Created loading
  · left
    refine ⟨created, ?_⟩
    obtain ⟨proc, new, spawned⟩ := spawn_started k created userCS userDS
    refine ⟨proc, new, ?_⟩
    unfold loadModule
    rw [if_neg created.1, created.2.1, spawned]
    rfl
  · right
    refine ⟨created, ?_⟩
    unfold loadModule
    by_cases pd : loading.pdPhysical = 0
    · rw [if_pos pd]
    rw [if_neg pd]
    cases success : loading.success with
    | false => rfl
    | true =>
        rcases spawn_cases k loading userCS userDS with ⟨_, spawned⟩ | ⟨allocated, _, _, _⟩
        · rw [spawned]
          rfl
        · exact absurd ⟨pd, success, allocated⟩ created

theorem same_spaces_started (registered : Registered k) (proc : Process) {r : Ref}
    (member : r ∈ k.processes) : (started k proc).table r = k.table r :=
  if_neg (Nat.ne_of_lt (registered.created r member))

theorem active_started (registered : Registered k) (active : Active kernelPd k) {proc : Process}
    (mapped : proc.pageDirectory ≠ 0) : Active kernelPd (started k proc) := by
  have own : (started k proc).table k.nextRef = proc := if_pos rfl
  have old : ∀ r ∈ k.processes, (started k proc).table r = k.table r :=
    fun r member => same_spaces_started registered proc member
  constructor
  · rw [old _ registered.kernel_task_mem]
    exact active.kernel
  · intro r member user
    rcases List.mem_append.mp member with known | fresh
    · rw [old r known]
      exact active.users r known user
    · rw [List.mem_singleton.mp fresh, own]
      exact mapped
  · intro user
    change k.cr3 = ((started k proc).table k.current).pageDirectory
    rw [old _ registered.current]
    exact active.running user
  · rcases active.live with kernel | ⟨r, member, user, loaded⟩
    · exact .inl kernel
    · refine .inr ⟨r, List.mem_append_left _ member, user, ?_⟩
      rw [old r member]
      exact loaded

/-- The directory of the process that runs next is loaded when it has one. -/
theorem exit_cr3 (k : KernelState)
    (mapped : ((exitCurrent k).1.table (exitCurrent k).1.current).pageDirectory ≠ 0) :
    (exitCurrent k).1.cr3 =
      ((exitCurrent k).1.table (exitCurrent k).1.current).pageDirectory := by
  unfold exitCurrent at mapped ⊢
  dsimp only at mapped ⊢
  split
  · rfl
  · next unmapped =>
    rw [if_neg unmapped] at mapped
    exact absurd mapped unmapped

end Kernel

section Invariant

variable {base m m' : MemoryState} {kernelPd : Nat} {s : Machine} {k' : KernelState}

/-- The processes own disjoint sets of frames that are in use and were free at boot. -/
structure Mapped (base : MemoryState) (kernelPd : Nat) (s : Machine) : Prop where
  sound : Sound s.kernel
  active : Active kernelPd s.kernel
  grows : ∀ frame, base.Used frame → s.memory.Used frame
  directory : s.memory.kernelDirectory = base.kernelDirectory
  held : ∀ r ∈ s.kernel.processes, r ≠ kernelTask →
    Owner base s.memory (userProcess (s.kernel.table r))
  apart : ∀ r ∈ s.kernel.processes, ∀ q ∈ s.kernel.processes, r ≠ kernelTask → q ≠ kernelTask →
    r ≠ q → ∀ address ∈ destroyedFrames (userProcess (s.kernel.table r)) s.memory,
      address ∉ destroyedFrames (userProcess (s.kernel.table q)) s.memory

theorem destroyed_frames_congr {p p' : UserProcess}
    (directory : p'.pageDirectory = p.pageDirectory) (stack : p'.kernelEsp = p.kernelEsp)
    (m : MemoryState) : destroyedFrames p' m = destroyedFrames p m := by
  unfold destroyedFrames ProcessMemory.kernelStackFrame
  rw [directory, stack]

theorem space_mem_destroyed {p : UserProcess} {pd : Nat} (positive : 0 < pd)
    (directory : p.pageDirectory = pd * frameSize) {address : Nat}
    (member : address ∈ spaceFrames m (pd * frameSize)) : address ∈ destroyedFrames p m := by
  unfold destroyedFrames
  rw [directory, if_neg (frame_address positive).1]
  exact List.mem_append_left _ member

theorem reserved_of_mapped (reserved : Reserved base) (mapped : Mapped base kernelPd s) :
    Reserved s.memory where
  zero := mapped.grows 0 reserved.zero
  tables := by
    rintro frame ⟨i, high, here, rfl⟩
    rw [mapped.directory] at here ⊢
    exact mapped.grows _ (reserved.tables _ ⟨i, high, here, rfl⟩)

theorem not_kernel_table (reserved : Reserved base)
    (directory : m.kernelDirectory = base.kernelDirectory) {frame : Nat}
    (new : New base m frame) : ¬ KernelTable m frame := by
  rintro ⟨i, high, here, rfl⟩
  rw [directory] at here new
  exact new.unused (reserved.tables _ ⟨i, high, here, rfl⟩)

theorem Owner.new_frame {p : UserProcess} (owner : Owner base m p) {frame : Nat}
    (member : frame * frameSize ∈ destroyedFrames p m) : New base m frame := by
  obtain ⟨other, same, new⟩ := owner.frames _ member
  rw [frame_address_injective same]
  exact new

theorem Owner.same_frames (reserved : Reserved base)
    (directory : m.kernelDirectory = base.kernelDirectory) {p : UserProcess}
    (owner : Owner base m p) (frames : Frames m m') :
    destroyedFrames p m' = destroyedFrames p m := by
  obtain ⟨pd, positive, same⟩ := owner.directory
  have found : ∀ {frame}, frame * frameSize ∈ spaceFrames m (pd * frameSize) →
      m.Used frame ∧ ¬ KernelTable m frame := by
    intro frame member
    have new := Owner.new_frame owner (space_mem_destroyed positive same member)
    exact ⟨new.used, not_kernel_table reserved directory new⟩
  obtain ⟨used, notKernel⟩ := found (directory_mem m pd)
  have space := frames.same_space used notKernel fun table own => found (table_mem own)
  unfold destroyedFrames
  rw [same, space]

theorem Owner.after (reserved : Reserved base)
    (directory : m.kernelDirectory = base.kernelDirectory) {p : UserProcess}
    (owner : Owner base m p) (frames : Frames m m') : Owner base m' p where
  directory := owner.directory
  frames := by
    intro address member
    rw [Owner.same_frames reserved directory owner frames] at member
    obtain ⟨frame, same, new⟩ := owner.frames address member
    exact ⟨frame, same, new.mono frames.grows⟩

theorem user_process_congr {p p' : Process} (directory : p'.pageDirectory = p.pageDirectory)
    (stack : p'.kernelEsp = p.kernelEsp) (m : MemoryState) :
    destroyedFrames (userProcess p') m = destroyedFrames (userProcess p) m :=
  destroyed_frames_congr directory stack m

theorem Owner.congr {p p' : Process} (directory : p'.pageDirectory = p.pageDirectory)
    (stack : p'.kernelEsp = p.kernelEsp) (owner : Owner base m (userProcess p)) :
    Owner base m (userProcess p') where
  directory := by
    obtain ⟨pd, positive, same⟩ := owner.directory
    exact ⟨pd, positive, directory.trans same⟩
  frames := by
    rw [user_process_congr directory stack]
    exact owner.frames

/-- No process starts or ends, and memory changes only elsewhere. -/
theorem mapped_kept (reserved : Reserved base) (mapped : Mapped base kernelPd s)
    (sound : Sound k') (kept : Directories.Kept kernelPd s.kernel k')
    (frames : Frames s.memory m') : Mapped base kernelPd ⟨k', m'⟩ := by
  have spaces := kept.spaces
  have same : ∀ r ∈ s.kernel.processes, r ≠ kernelTask →
      destroyedFrames (userProcess (k'.table r)) m' =
        destroyedFrames (userProcess (s.kernel.table r)) s.memory := by
    intro r member user
    rw [user_process_congr (spaces.directory r) (spaces.stack r)]
    exact Owner.same_frames reserved mapped.directory (mapped.held r member user) frames
  constructor
  · exact sound
  · exact kept.active
  · exact fun frame used => frames.grows frame (mapped.grows frame used)
  · exact frames.directory.trans mapped.directory
  · intro r member user
    rw [spaces.processes] at member
    exact Owner.congr (spaces.directory r) (spaces.stack r)
      (Owner.after reserved mapped.directory (mapped.held r member user) frames)
  · intro r memberR q memberQ userR userQ different
    rw [spaces.processes] at memberR memberQ
    dsimp only
    rw [same r memberR userR, same q memberQ userQ]
    exact mapped.apart r memberR q memberQ userR userQ different

theorem mapped_started (reserved : Reserved base) (mapped : Mapped base kernelPd s)
    {proc : Process} (sound : Sound (started s.kernel proc)) (frames : Frames s.memory m')
    (owner : Owner s.memory m' (userProcess proc)) :
    Mapped base kernelPd ⟨started s.kernel proc, m'⟩ := by
  have registered := mapped.sound.stable.registered
  have own : (started s.kernel proc).table s.kernel.nextRef = proc := if_pos rfl
  have old : ∀ r ∈ s.kernel.processes, (started s.kernel proc).table r = s.kernel.table r :=
    fun r member => same_spaces_started registered proc member
  have same : ∀ r ∈ s.kernel.processes, r ≠ kernelTask →
      destroyedFrames (userProcess ((started s.kernel proc).table r)) m' =
        destroyedFrames (userProcess (s.kernel.table r)) s.memory := by
    intro r member user
    rw [old r member]
    exact Owner.same_frames reserved mapped.directory (mapped.held r member user) frames
  have foreign : ∀ r ∈ s.kernel.processes, r ≠ kernelTask →
      ∀ address ∈ destroyedFrames (userProcess (s.kernel.table r)) s.memory,
        address ∉ destroyedFrames (userProcess proc) m' := by
    intro r member user address here there
    obtain ⟨frame, rfl, held⟩ := (mapped.held r member user).frames address here
    exact (Owner.new_frame owner there).unused held.used
  constructor
  · exact sound
  · obtain ⟨pd, positive, directory⟩ := owner.directory
    apply active_started registered mapped.active
    intro zero
    exact (frame_address positive).1 (directory.symm.trans zero)
  · exact fun frame used => frames.grows frame (mapped.grows frame used)
  · exact frames.directory.trans mapped.directory
  · intro r member user
    rcases List.mem_append.mp member with known | fresh
    · dsimp only
      rw [old r known]
      exact Owner.after reserved mapped.directory (mapped.held r known user) frames
    · dsimp only
      rw [List.mem_singleton.mp fresh, own]
      refine ⟨owner.directory, ?_⟩
      intro address inside
      obtain ⟨frame, at_, new⟩ := owner.frames address inside
      exact ⟨frame, at_, new.bound, fun used => new.unused (mapped.grows frame used), new.used⟩
  · intro r memberR q memberQ userR userQ different address
    dsimp only
    rcases List.mem_append.mp memberR with knownR | freshR
    · rw [same r knownR userR]
      rcases List.mem_append.mp memberQ with knownQ | freshQ
      · rw [same q knownQ userQ]
        exact mapped.apart r knownR q knownQ userR userQ different address
      · rw [List.mem_singleton.mp freshQ, own]
        exact foreign r knownR userR address
    · rcases List.mem_append.mp memberQ with knownQ | freshQ
      · rw [List.mem_singleton.mp freshR, own, same q knownQ userQ]
        exact fun here there => foreign q knownQ userQ address there here
      · exact absurd ((List.mem_singleton.mp freshR).trans (List.mem_singleton.mp freshQ).symm)
          different

end Invariant

section Steps

variable {base m' : MemoryState} {kernelPd : Nat} {s s' : Machine}

theorem destroyed_frames_free (p : UserProcess) (m : MemoryState) (addresses : List Nat) :
    destroyedFrames p (freeFrames m addresses) = destroyedFrames p m := by
  unfold destroyedFrames
  rw [space_frames_free]

theorem survivor_spaces (k : KernelState) (p r : Ref) :
    (survivor k p r).pageDirectory = (k.table r).pageDirectory ∧
      (survivor k p r).kernelEsp = (k.table r).kernelEsp := by
  unfold survivor
  split
  · exact ⟨rfl, rfl⟩
  · split
    · exact ⟨rfl, rfl⟩
    · exact ⟨rfl, rfl⟩

/-- The frames of a process that exits go, those of the others stay, and the directory of
the process that runs next is loaded. -/
theorem mapped_exit (mapped : Mapped base kernelPd s) (user : s.kernel.current ≠ kernelTask)
    (successor : (s.kernel.table (successor s.kernel s.kernel.current)).pageDirectory ≠ 0) :
    Mapped base kernelPd ⟨(exitCurrent s.kernel).1,
      destroyMemory s.kernel (s.kernel.table s.kernel.current).pid s.memory⟩ := by
  have registered := mapped.sound.stable.registered
  have exit := exit_outcome mapped.sound.stable user
  have nextIs : (exitCurrent s.kernel).1.current =
      Scheduler.successor s.kernel s.kernel.current := rfl
  have sound := sound_of_exit mapped.sound user exit
  let dying := userProcess (s.kernel.table s.kernel.current)
  have memory : destroyMemory s.kernel (s.kernel.table s.kernel.current).pid s.memory =
      freeFrames s.memory (destroyedFrames dying s.memory) := by
    unfold destroyMemory
    rw [registered.pid _ registered.current, if_neg (show s.kernel.current ≠ 0 from user),
      registered.get_of_mem registered.current]
    exact ProcessMemory.destroy_eq _ _
  have own := mapped.held _ registered.current user
  have freed : ∀ frame, (freeFrames s.memory (destroyedFrames dying s.memory)).Used frame ↔
      s.memory.Used frame ∧ frame * frameSize ∉ destroyedFrames dying s.memory := by
    intro frame
    rw [used_free_frames]
    · apply and_congr_right'
      constructor
      · intro others member
        exact others _ member (frame_of_address frame)
      · intro absent address member same
        obtain ⟨other, rfl, _⟩ := own.frames address member
        rw [frame_of_address] at same
        exact absent (same ▸ member)
    · intro address member
      obtain ⟨other, rfl, new⟩ := own.frames address member
      rw [frame_of_address]
      exact new.bound
  have known : ∀ r ∈ (exitCurrent s.kernel).1.processes,
      r ∈ s.kernel.processes ∧ r ≠ s.kernel.current := by
    intro r member
    rw [exit.processes] at member
    obtain ⟨other, inside⟩ := registered.nodup.mem_erase_iff.mp member
    exact ⟨inside, other⟩
  have spaces : ∀ r, r ∈ s.kernel.processes → r ≠ s.kernel.current →
      ((exitCurrent s.kernel).1.table r).pageDirectory = (s.kernel.table r).pageDirectory ∧
        ((exitCurrent s.kernel).1.table r).kernelEsp = (s.kernel.table r).kernelEsp := by
    intro r inside other
    rw [exit.table r inside other]
    split
    · exact ⟨rfl, rfl⟩
    · exact survivor_spaces _ _ _
  have nextDirectory := (spaces _ exit.next_mem exit.next_other).1
  have nextMapped : ((exitCurrent s.kernel).1.table
      (exitCurrent s.kernel).1.current).pageDirectory ≠ 0 := by
    rw [nextDirectory, nextIs]
    exact successor
  have nextUser : (exitCurrent s.kernel).1.current ≠ kernelTask := by
    intro kernel
    rw [nextDirectory, kernel] at nextMapped
    exact nextMapped mapped.active.kernel
  rw [memory]
  constructor
  · exact sound
  · constructor
    · rw [(spaces _ registered.kernel_task_mem (Ne.symm user)).1]
      exact mapped.active.kernel
    · intro r member other
      obtain ⟨inside, apart⟩ := known r member
      rw [(spaces r inside apart).1]
      exact mapped.active.users r inside other
    · exact fun _ => exit_cr3 s.kernel nextMapped
    · exact .inr ⟨_, sound.stable.registered.current, nextUser, exit_cr3 s.kernel nextMapped⟩
  · intro frame used
    refine (freed frame).2 ⟨mapped.grows frame used, ?_⟩
    exact fun member => (Owner.new_frame own member).unused used
  · exact mapped.directory
  · intro r member other
    obtain ⟨inside, apart⟩ := known r member
    apply Owner.congr (spaces r inside apart).1 (spaces r inside apart).2
    have held := mapped.held r inside other
    refine ⟨held.directory, ?_⟩
    intro address found
    rw [destroyed_frames_free] at found
    obtain ⟨frame, rfl, new⟩ := held.frames address found
    refine ⟨frame, rfl, new.bound, new.unused, (freed frame).2 ⟨new.used, ?_⟩⟩
    exact mapped.apart r inside _ registered.current other user apart _ found
  · intro r memberR q memberQ userR userQ different
    obtain ⟨insideR, apartR⟩ := known r memberR
    obtain ⟨insideQ, apartQ⟩ := known q memberQ
    dsimp only
    rw [destroyed_frames_free, destroyed_frames_free,
      user_process_congr (spaces r insideR apartR).1 (spaces r insideR apartR).2,
      user_process_congr (spaces q insideQ apartQ).1 (spaces q insideQ apartQ).2]
    exact mapped.apart r insideR q insideQ userR userQ different

/-- The new process of the kernel is the one whose frames were allocated. -/
theorem owner_of_created {before after : MemoryState} {proc : Process} {k : KernelState}
    {l : Loading} (new : IsStarted k l proc) {heapStart : Nat}
    (owner : Owner before after ⟨l.pdPhysical,
      u32 (l.kernelStackFrame + kernelVbase + frameSize), heapStart, heapStart⟩) :
    Owner before after (userProcess proc) where
  directory := by
    obtain ⟨pd, positive, same⟩ := owner.directory
    exact ⟨pd, positive, new.directory.trans same⟩
  frames := by
    have same : destroyedFrames (userProcess proc) after = destroyedFrames ⟨l.pdPhysical,
        u32 (l.kernelStackFrame + kernelVbase + frameSize), heapStart, heapStart⟩ after :=
      destroyed_frames_congr new.directory new.stack after
    rw [same]
    exact owner.frames

theorem mapped_exec (reserved : Reserved base) (mapped : Mapped base kernelPd s)
    (elfPtr elfSize : Nat) (elfData : Nat → UInt8) (buffer process : Bool) (esp : Nat)
    (sound : Sound (exec s.kernel elfPtr elfSize
      (loading elfData elfSize buffer process s.memory)).1) :
    Mapped base kernelPd ⟨(exec s.kernel elfPtr elfSize
        (loading elfData elfSize buffer process s.memory)).1,
      memoryAfter s.kernel s.memory (.exec esp elfPtr elfSize elfData buffer process)⟩ := by
  obtain ⟨frames, owner⟩ := exec_frames (reserved_of_mapped reserved mapped) elfData elfSize process
  have after : Frames s.memory
      (memoryAfter s.kernel s.memory (.exec esp elfPtr elfSize elfData buffer process)) := by
    unfold memoryAfter
    dsimp only
    split
    · exact frames_refl _
    · split
      · exact frames_refl _
      · exact frames
  rcases exec_cases s.kernel elfPtr elfSize (loading elfData elfSize buffer process s.memory) with
    ⟨starts, proc, new, same⟩ | ⟨_, same⟩
  · rw [same] at sound ⊢
    have buffered : buffer = true := starts.2.2.1
    have memory : memoryAfter s.kernel s.memory
        (.exec esp elfPtr elfSize elfData buffer process) =
          (ProcessMemory.exec elfData elfSize process s.memory).2 := by
      unfold memoryAfter
      dsimp only
      rw [if_neg (not_or.2 ⟨starts.1, starts.2.1⟩), buffered]
      rfl
    apply mapped_started reserved mapped sound after
    rw [memory]
    rcases load_module_loading elfData elfSize buffer process s.memory with
      ⟨_, created⟩ | ⟨missing, _⟩
    · have started : (ProcessMemory.exec elfData elfSize process s.memory).1 =
          (ProcessMemory.loadModule elfData elfSize process s.memory).1 := by
        rw [ProcessMemory.exec_eq]
        generalize ProcessMemory.loadModule elfData elfSize process s.memory = answer at created ⊢
        obtain ⟨child, left⟩ := answer
        dsimp only at created
        rw [created]
      exact owner_of_created new (owner _ (started.trans created))
    · exact absurd ⟨starts.2.2.2.1, starts.2.2.2.2.1, starts.2.2.2.2.2⟩ missing
  · rw [same] at sound ⊢
    exact mapped_kept reserved mapped sound ((Unswitched.refl _).kept mapped.active) after

theorem memory_kept {action : MemorySystem.Action} (answer : answered action = true)
    (ordinary : Ordinary (kernelAction s.memory action)) :
    memoryAfter s.kernel s.memory action = s.memory := by
  cases action with
  | user bytes => rfl
  | irq number esp => rfl
  | exec esp elfPtr elfSize elfData buffer process => exact absurd ordinary id
  | syscall esp call =>
      cases call with
      | exit => exact absurd ordinary id
      | exec elfPtr elfSize loading => exact absurd answer Bool.false_ne_true
      | _ => rfl

theorem mapped_step (reserved : Reserved base) (mapped : Mapped base kernelPd s)
    {action : MemorySystem.Action} (admits : Admits s action)
    (next : MemorySystem.step s action = some s') : Mapped base kernelPd s' := by
  obtain ⟨fresh, successorMapped⟩ := admits
  unfold MemorySystem.step at next
  by_cases answer : answered action = true
  · rw [if_pos answer] at next
    obtain ⟨k', kernel, rfl⟩ := Option.map_eq_some_iff.mp next
    have sound := sound_step mapped.sound fresh kernel
    by_cases ordinary : Ordinary (kernelAction s.memory action)
    · rw [memory_kept answer ordinary]
      exact mapped_kept reserved mapped sound
        (kept_step mapped.sound mapped.active ordinary kernel) (frames_refl _)
    · cases action with
      | user bytes => exact absurd trivial ordinary
      | irq number esp => exact absurd trivial ordinary
      | exec esp elfPtr elfSize elfData buffer process =>
          unfold kernelAction System.step at kernel
          dsimp only at kernel
          split at kernel
          · obtain rfl := Option.some.inj kernel
            have before := (sound_exec mapped.sound (exec_outcome s.kernel elfPtr elfSize
              (loading elfData elfSize buffer process s.memory)) fresh).1
            have execed := mapped_exec reserved mapped elfPtr elfSize elfData buffer process esp
              before
            exact mapped_kept reserved execed sound
              ((unswitched_return_value _).kept execed.active) (frames_refl _)
          · cases kernel
      | syscall esp call =>
          cases call with
          | exit =>
              unfold kernelAction System.step at kernel
              dsimp only at kernel
              split at kernel
              · next possible =>
                obtain rfl := Option.some.inj kernel
                exact mapped_exit mapped possible.1 successorMapped
              · cases kernel
          | exec elfPtr elfSize loading => exact absurd answer Bool.false_ne_true
          | _ => exact absurd trivial ordinary
  · rw [if_neg answer] at next
    cases next

end Steps

section Boot

variable {base : MemoryState} {kernelPd : Nat} {s : Machine}

theorem mapped_bare (kernelPd : Nat) (bytes : Nat → Nat → UInt8) :
    Mapped base kernelPd ⟨bare kernelPd bytes, base⟩ := by
  have only : ∀ {r}, r ∈ (bare kernelPd bytes).processes → r ≠ kernelTask → False :=
    fun member user => user (List.mem_singleton.mp member)
  constructor
  · exact sound_bare kernelPd bytes
  · exact ⟨rfl, fun r member user => (only member user).elim, fun user => absurd rfl user,
      .inl rfl⟩
  · exact fun frame used => used
  · rfl
  · exact fun r member user => (only member user).elim
  · exact fun r member _ _ user => (only member user).elim

theorem mapped_module (reserved : Reserved base) (mapped : Mapped base kernelPd s)
    (room : s.kernel.nextRef < 4294967296) (module : Module) :
    Mapped base kernelPd (bootModule s module) ∧
      (bootModule s module).kernel.nextRef ≤ s.kernel.nextRef + 1 := by
  obtain ⟨elfData, elfSize, process⟩ := module
  obtain ⟨frames, _, owner⟩ := load_module_frames (reserved_of_mapped reserved mapped) elfData
    elfSize process
  unfold bootModule
  dsimp only
  rcases load_module_started s.kernel (loading elfData elfSize true process s.memory) with
    ⟨created, proc, new, same⟩ | ⟨_, same⟩
  · rw [same]
    refine ⟨?_, Nat.le_refl _⟩
    apply mapped_started reserved mapped (sound_started mapped.sound new.toIsNew room) frames
    rcases load_module_loading elfData elfSize true process s.memory with
      ⟨_, made⟩ | ⟨missing, _⟩
    · exact owner_of_created new (owner _ made)
    · exact absurd created missing
  · rw [same]
    exact ⟨mapped_kept reserved mapped mapped.sound ((Unswitched.refl _).kept mapped.active) frames,
      Nat.le_succ _⟩

theorem mapped_boot (reserved : Reserved base) (bytes : Nat → Nat → UInt8)
    {modules : List Module} (few : modules.length < 4294967296) :
    Mapped base kernelPd (boot kernelPd bytes base modules) := by
  have loaded (modules : List Module) (s : Machine) (mapped : Mapped base kernelPd s)
      (room : s.kernel.nextRef + modules.length ≤ 4294967296) :
      Mapped base kernelPd (modules.foldl bootModule s) := by
    induction modules generalizing s with
    | nil => exact mapped
    | cons module rest ih =>
        rw [List.length_cons] at room
        obtain ⟨kept, next⟩ := mapped_module reserved mapped (by omega) module
        rw [List.foldl_cons]
        exact ih _ kept (by omega)
  apply loaded modules _ (mapped_bare kernelPd bytes)
  change 1 + modules.length ≤ 4294967296
  omega

theorem directory_live {kernelFrame : Nat} (used : base.Used kernelFrame)
    (mapped : Mapped base (kernelFrame * frameSize) s) :
    DirectoryLive (kernelFrame * frameSize) s := by
  refine ⟨mapped.active.live, ?_⟩
  rcases mapped.active.live with kernel | ⟨r, member, user, loaded⟩
  · rw [kernel, frame_of_address]
    exact mapped.grows _ used
  · have owner := mapped.held r member user
    obtain ⟨pd, positive, same⟩ := owner.directory
    have own := space_mem_destroyed positive same (directory_mem s.memory pd)
    rw [loaded, show (s.kernel.table r).pageDirectory = pd * frameSize from same, frame_of_address]
    exact (Owner.new_frame owner own).used

end Boot

section Examples

open CassiOS.Memory.Physical (bitSet Used)
open CassiOS.Kernel.LoaderSafety

/-- One program; the kernel's page directory is frame 2. -/
def oneProgram : Machine :=
  boot (2 * frameSize) (fun _ _ => 0) smallMachine [⟨onePageImage 0x08, 84, true⟩]

def timerTicks : List MemorySystem.Action := List.replicate 10 (.irq Irq.irqOffset kernelVbase)

theorem exited_result :
    (path MemorySystem.step oneProgram (timerTicks ++ [.syscall kernelVbase .exit])).map
      (fun s => (s.kernel.processes, s.kernel.cr3, isFrameUsed s.memory.pmm s.kernel.cr3)) =
        some ([kernelTask], 256 * frameSize, false) := by
  decide +kernel

/-- Frames 256 to 279 are free. -/
def widerMachine : MemoryState :=
  { smallMachine with
    pmm := { smallMachine.pmm with bitmap := fun i => if 32 ≤ i ∧ i < 35 then 0 else 255 } }

theorem used_wider_machine {frame : Nat} (other : ¬ (32 ≤ frame / 8 ∧ frame / 8 < 35)) :
    widerMachine.Used frame := by
  have byte : widerMachine.pmm.bitmap (frame / 8) = 255 := if_neg other
  have bits : ∀ bit, bit < 8 → bitSet (255 : BitVec 8) bit = true := by decide
  unfold MemoryState.Used Used
  rw [byte]
  exact bits _ (Nat.mod_lt _ (by decide))

theorem booted_wider_machine : Booted widerMachine where
  zeroUsed := used_wider_machine (by decide)
  direct := by
    intro frame _ clear
    by_contra high
    exact clear (used_wider_machine (by omega))
  tables := by
    intro i _ table
    have entry : i = userEntries := by
      by_contra other
      rw [show widerMachine.kernelDirectory i = 0 from if_neg other] at table
      exact absurd table (by decide)
    rw [entry]
    exact used_wider_machine (by decide)
  supervisor := booted_small_machine.supervisor

/-- The kernel's page directory is frame 2. -/
def twoPrograms : Machine :=
  boot (2 * frameSize) (fun _ _ => 0) widerMachine (List.replicate 2 ⟨onePageImage 0x08, 84, true⟩)

theorem first_runs_result :
    (path MemorySystem.step twoPrograms timerTicks).map (fun s =>
      ((s.kernel.table (successor s.kernel s.kernel.current)).pageDirectory,
        (MemorySystem.step s (.syscall kernelVbase .exit)).map fun t =>
          (t.kernel.processes, t.kernel.cr3))) =
      some (262 * frameSize, some ([kernelTask, 2], 262 * frameSize)) := by
  decide +kernel

end Examples

end CassiOS.Kernel.ActiveDirectory
