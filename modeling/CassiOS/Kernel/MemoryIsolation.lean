import CassiOS.Kernel.DeliveryOrders
import CassiOS.Kernel.FramesApart
import CassiOS.Kernel.IrqDelivery
import CassiOS.Kernel.RoundRobin

/-!
# What the kernel writes into a program's memory

A byte of a program's memory changes by the program's own instructions, or in a buffer that
the program names in a call: during the call, or while the program is blocked in it. This
holds in every run and for every interleaving of the other programs, of the timer, of
interrupts, and of programs that start and exit. `Confined` is what one step leaves alone of
one program; every part of a handler is shown to keep it.
-/

namespace CassiOS.Kernel.MemoryIsolation

open CassiOS.Support.Words
open CassiOS.Support.TransitionSystem
open CassiOS.Memory.Physical (frameSize)
open CassiOS.Memory.Paging
open CassiOS.Kernel.State
open CassiOS.Kernel.ProcessManager hiding frameSize
open CassiOS.Kernel.Scheduler
open CassiOS.Kernel.Irq
open CassiOS.Kernel.Syscall
open CassiOS.Kernel.System
open CassiOS.Kernel.ProcessTable
open CassiOS.Kernel.Invariant
open CassiOS.Kernel.Outcomes
open CassiOS.Kernel.Exit
open CassiOS.Kernel.ProcessStates
open CassiOS.Kernel.Directories
open CassiOS.Kernel.DeliveryOrders (Within)
open CassiOS.Kernel.IrqDelivery (handler_fields)
open CassiOS.Kernel.MemorySystem (Machine kernelAction)
open CassiOS.Kernel.FramesApart (Housed)

set_option autoImplicit false

section Specification

def InBuffers (msgPtr dataPtr dataLen a : Nat) : Prop :=
  Within msgPtr 24 a ∨ dataPtr ≠ 0 ∧ Within dataPtr dataLen a

/-- What a blocked process waits to have written. -/
def Awaits (p : Process) (a : Nat) : Prop :=
  (p.state = .sendBlocked ∨ p.state = .receiveBlocked) ∧ InBuffers p.msgPtr p.dataPtr p.dataLen a

def Names : Call → Nat → Prop
  | .send _ msg dataPtr dataLen _ => InBuffers msg dataPtr dataLen
  | .receive msg dataPtr dataCapacity => InBuffers msg dataPtr dataCapacity
  | _ => fun _ => False

/-- What program `p` allows a step to write. -/
def Touches (p : Ref) (k : KernelState) : System.Action → Nat → Prop
  | .user _ => fun _ => k.current = p
  | .syscall _ call => fun a => k.current = p ∧ Names call a
  | .irq _ _ => fun _ => False

/-- The memory of `p` outside of what it awaits and of `allowed` is the same, and it awaits
no more than that. -/
structure Confined (allowed : Nat → Prop) (p : Ref) (k k' : KernelState) : Prop where
  directory : (k'.table p).pageDirectory = (k.table p).pageDirectory
  awaits : ∀ a, Awaits (k'.table p) a → Awaits (k.table p) a ∨ allowed a
  memory : ∀ a, ¬ Awaits (k.table p) a → ¬ allowed a →
    k'.memory (k.table p).pageDirectory a = k.memory (k.table p).pageDirectory a

/-- Live programs have page directories of their own, and the one that runs has its own
loaded. -/
structure Placed (k : KernelState) : Prop where
  active : Active k.cr3 k
  apart : ∀ r ∈ k.processes, ∀ q ∈ k.processes, r ≠ kernelTask → q ≠ kernelTask → r ≠ q →
    (k.table r).pageDirectory ≠ (k.table q).pageDirectory

/-- Calls name addresses below `KERNEL_VBASE`. The kernel writes to any address it is
given, and what lies above is the kernel's own memory, which is not part of the model. -/
def UserBuffers : MemorySystem.Action → Prop
  | .syscall _ call => ∀ a, a < 4294967296 → Names call a → a < kernelVbase
  | _ => True

def Admits (s : Machine) (action : MemorySystem.Action) : Prop :=
  FramesApart.Admits s action ∧ UserBuffers action

/-- If `p` runs, it executes no instruction of its own that may write, it does not exit, and
no call of it names `a`. -/
def Spares (p : Ref) (a : Nat) (s : Machine) : MemorySystem.Action → Prop
  | .user _ => s.kernel.current ≠ p
  | .syscall _ call => s.kernel.current = p → call ≠ .exit ∧ ¬ Names call a
  | _ => True

/-- The byte that `p` reads at `a`. -/
def byteOf (p : Ref) (s : Machine) (a : Nat) : UInt8 :=
  s.kernel.memory (s.kernel.table p).pageDirectory a

end Specification

section Records

variable {q q' : Process} {a : Nat}

theorem not_awaits (sends : q.state ≠ .sendBlocked) (receives : q.state ≠ .receiveBlocked) :
    ¬ Awaits q a := fun waits => waits.1.elim sends receives

theorem awaits_of_fields (state : q'.state = q.state) (msgPtr : q'.msgPtr = q.msgPtr)
    (dataPtr : q'.dataPtr = q.dataPtr) (dataLen : q'.dataLen = q.dataLen) :
    Awaits q' a ↔ Awaits q a := by
  unfold Awaits
  rw [state, msgPtr, dataPtr, dataLen]

theorem within_mono {ptr len len' : Nat} (inside : Within ptr len a) (longer : len ≤ len') :
    Within ptr len' a := Nat.lt_of_lt_of_le inside longer

/-- Only the saved stack pointer and the scheduling state change, the latter to `running`
or `ready` if at all. -/
theorem awaits_of_scheduled {sp : Nat} {state : ProcessState}
    (next : state = .running ∨ state = .ready ∨ state = q.state)
    (waits : Awaits { q with esp := sp, state := state } a) : Awaits q a := by
  rcases next with rfl | rfl | rfl
  · exact absurd waits (not_awaits nofun nofun)
  · exact absurd waits (not_awaits nofun nofun)
  · exact waits

end Records

namespace Confined

variable {allowed allowed' : Nat → Prop} {p : Ref} {k k' k'' : KernelState}

theorem refl (k : KernelState) : Confined allowed p k k :=
  ⟨rfl, fun _ waits => .inl waits, fun _ _ _ => rfl⟩

theorem trans (first : Confined allowed p k k') (second : Confined allowed p k' k'') :
    Confined allowed p k k'' where
  directory := second.directory.trans first.directory
  awaits a waits := by
    rcases second.awaits a waits with before | granted
    · exact first.awaits a before
    · exact .inr granted
  memory a quiet denied := by
    have later : ¬ Awaits (k'.table p) a := fun waits => (first.awaits a waits).elim quiet denied
    have kept := second.memory a later denied
    rw [first.directory] at kept
    exact kept.trans (first.memory a quiet denied)

theorem weaken (confined : Confined allowed p k k') (wider : ∀ a, allowed a → allowed' a) :
    Confined allowed' p k k' where
  directory := confined.directory
  awaits a waits := (confined.awaits a waits).imp_right (wider a)
  memory a quiet denied := confined.memory a quiet fun granted => denied (wider a granted)

theorem of_fields (table : k'.table = k.table) (memory : k'.memory = k.memory) :
    Confined allowed p k k' := by
  constructor
  · rw [table]
  · rw [table]
    exact fun _ waits => .inl waits
  · rw [memory]
    exact fun _ _ _ => rfl

theorem of_record (memory : k'.memory = k.memory)
    (directory : (k'.table p).pageDirectory = (k.table p).pageDirectory)
    (awaits : ∀ a, Awaits (k'.table p) a → Awaits (k.table p) a ∨ allowed a) :
    Confined allowed p k k' :=
  ⟨directory, awaits, fun _ _ _ => by rw [memory]⟩

theorem modify (r : Ref) {f : Process → Process}
    (directory : (f (k.table r)).pageDirectory = (k.table r).pageDirectory)
    (awaits : r = p → ∀ a, Awaits (f (k.table r)) a → Awaits (k.table r) a ∨ allowed a) :
    Confined allowed p k (k.modify r f) := by
  have memory : (k.modify r f).memory = k.memory := rfl
  apply of_record memory (k.modify_keeps r p f Process.pageDirectory directory)
  intro a waits
  rw [KernelState.table_modify] at waits
  split at waits
  · next same =>
    subst same
    exact awaits rfl a waits
  · exact .inl waits

/-- The record changes in none of the fields that matter. -/
theorem modify_same (r : Ref) {f : Process → Process}
    (same : ∀ q : Process, (f q).pageDirectory = q.pageDirectory ∧ (f q).state = q.state ∧
      (f q).msgPtr = q.msgPtr ∧ (f q).dataPtr = q.dataPtr ∧ (f q).dataLen = q.dataLen) :
    Confined allowed p k (k.modify r f) := by
  obtain ⟨directory, state, msgPtr, dataPtr, dataLen⟩ := same (k.table r)
  apply modify r directory
  intro _ a waits
  exact .inl ((awaits_of_fields state msgPtr dataPtr dataLen).1 waits)

/-- The process is then not blocked in `send` or `receive`. -/
theorem modify_idle (r : Ref) {f : Process → Process}
    (directory : (f (k.table r)).pageDirectory = (k.table r).pageDirectory)
    (sends : (f (k.table r)).state ≠ .sendBlocked)
    (receives : (f (k.table r)).state ≠ .receiveBlocked) : Confined allowed p k (k.modify r f) :=
  modify r directory fun _ _ waits => absurd waits (not_awaits sends receives)

/-- A copy that lies in what `p` awaits or allows, if it goes into the memory of `p`. -/
theorem write (space dst len : Nat) (bytes : Nat → UInt8)
    (inside : space = (k.table p).pageDirectory → ∀ a, Within dst len a →
      Awaits (k.table p) a ∨ allowed a) :
    Confined allowed p k { k with memory := writeBytes k.memory space dst len bytes } where
  directory := rfl
  awaits _ waits := .inl waits
  memory a quiet denied := by
    apply if_neg
    rintro ⟨own, within⟩
    exact (inside own.symm a within).elim quiet denied

theorem record (confined : Confined allowed p k k') (event : Event) :
    Confined allowed p k (k'.record event) := confined.trans (of_fields rfl rfl)

/-- A message for a blocked process goes into the buffers it awaits it in. -/
theorem deliver {target : Ref} (own : spaceOf k target = (k.table p).pageDirectory → target = p)
    (blocked : (k.table target).state = .sendBlocked ∨ (k.table target).state = .receiveBlocked)
    (msg : Message) (dataPtr dataLen eax : Nat) :
    Confined allowed p k (Syscall.deliver k target msg dataPtr dataLen eax) := by
  have message : Confined allowed p k
      (copyMessageToProcess k target (k.table target).msgPtr msg) := by
    apply write
    intro same a within
    rw [← own same]
    exact .inl ⟨blocked, .inl within⟩
  have bulk : Confined allowed p k (copyBulk
      (copyMessageToProcess k target (k.table target).msgPtr msg) target dataPtr dataLen) := by
    apply message.trans
    unfold copyBulk
    split
    · next both =>
      apply write
      intro same a within
      rw [← own same]
      exact .inl ⟨blocked, .inr ⟨both.2.2.1, within_mono within (Nat.min_le_right _ _)⟩⟩
    · exact refl _
  exact bulk.trans (modify_idle target rfl nofun nofun)

theorem returnValue (k : KernelState) (eax : Nat) :
    Confined allowed p k (Syscall.returnValue k eax) :=
  modify_same _ fun _ => ⟨rfl, rfl, rfl, rfl, rfl⟩

theorem switchTo (k : KernelState) (next current : Ref) (esp : Nat) :
    Confined allowed p k (Scheduler.switchTo k next current esp).1 := by
  obtain ⟨sp, state, record, next⟩ := @record_switch_to k next current esp p
  apply of_record
  · obtain ⟨cr3, same⟩ := switch_to_eq k _ current esp
    rw [same]
  · rw [record]
  · rw [record]
    exact fun a waits => .inl (awaits_of_scheduled (next.imp_right .inr) waits)

theorem reschedule (k : KernelState) (esp : Nat) :
    Confined allowed p k (Scheduler.reschedule k esp).1 := by
  unfold Scheduler.reschedule
  split
  · exact refl k
  · have reset : Confined allowed p k { k with tickCount := 0 } := of_fields rfl rfl
    exact reset.trans (switchTo _ _ _ esp)

theorem blockOrReturn (k : KernelState) (esp : Nat) (result : Int) :
    Confined allowed p k (Syscall.blockOrReturn k esp result).1 := by
  unfold Syscall.blockOrReturn
  split
  · exact reschedule k esp
  · exact returnValue k _

theorem runHandler (k : KernelState) (line esp : Nat) :
    Confined allowed p k (Irq.runHandler k line esp).1 := by
  obtain ⟨_, _, memory, records⟩ := handler_fields k line esp
  obtain ⟨sp, state, record, next⟩ := records p
  apply of_record memory
  · rw [record]
  · rw [record]
    exact fun a waits => .inl (awaits_of_scheduled next waits)

theorem waitpid (k : KernelState) (pid : Nat) :
    Confined allowed p k (Syscall.waitpid k pid).1 := by
  unfold Syscall.waitpid
  dsimp only
  split
  · exact refl k
  · split
    · exact refl k
    · exact modify_idle _ rfl nofun nofun

end Confined

section Targets

variable {k k' : KernelState} {p target : Ref}

theorem Placed.of_spaces (placed : Placed k) (spaces : SameSpaces k k')
    (active : Active k.cr3 k') : Placed k' where
  active := ⟨active.kernel, active.users, active.running, .inl rfl⟩
  apart := by
    intro r memberR q memberQ userR userQ different
    rw [spaces.processes] at memberR memberQ
    rw [spaces.directory, spaces.directory]
    exact placed.apart r memberR q memberQ userR userQ different

variable (placed : Placed k) (member : p ∈ k.processes) (user : p ≠ kernelTask)
include placed member user

theorem space_own (live : target ∈ k.processes) (program : target ≠ kernelTask)
    (same : spaceOf k target = (k.table p).pageDirectory) : target = p := by
  by_contra other
  unfold spaceOf at same
  rw [if_pos (placed.active.users target live program)] at same
  exact placed.apart target live p member program user other same

theorem loaded_own (runs : k.current ≠ kernelTask) (current : k.current ∈ k.processes)
    (same : k.cr3 = (k.table p).pageDirectory) : k.current = p := by
  by_contra other
  rw [placed.active.running runs] at same
  exact placed.apart _ current p member runs user other same

end Targets

theorem blocked_user {k : KernelState} (stable : Stable k) {target : Ref}
    (live : target ∈ k.processes)
    (blocked : (k.table target).state = .sendBlocked ∨ (k.table target).state = .receiveBlocked) :
    target ≠ kernelTask := by
  intro kernel
  rcases (stable.admissible target live).idle kernel with ready | running
  · rw [ready] at blocked
    exact blocked.elim nofun nofun
  · rw [running] at blocked
    exact blocked.elim nofun nofun

section Calls

variable {allowed : Nat → Prop} {p : Ref} {k : KernelState}

structure Calling (p : Ref) (k : KernelState) : Prop where
  sound : Sound k
  placed : Placed k
  member : p ∈ k.processes
  user : p ≠ kernelTask
  runs : k.current ≠ kernelTask

variable (calling : Calling p k)
include calling

/-- The caller runs, so it awaits nothing yet. -/
theorem confined_caller {f : Process → Process}
    (directory : ∀ q : Process, (f q).pageDirectory = q.pageDirectory)
    (state : ∀ q : Process, (f q).state = q.state) :
    Confined allowed p k (k.modify k.current f) := by
  have running := calling.sound.running
  apply Confined.modify_idle _ (directory _)
  · rw [state, running]
    exact nofun
  · rw [state, running]
    exact nofun

/-- A write to the space that is loaded goes into a buffer of `p` when `p` is the caller. -/
theorem loaded_buffer {k' : KernelState} (table : (k'.table p).pageDirectory =
      (k.table p).pageDirectory) (cr3 : k'.cr3 = k.cr3) (dst len : Nat) (bytes : Nat → UInt8)
    (inside : k.current = p → ∀ a, Within dst len a → allowed a) :
    Confined allowed p k' { k' with memory := writeBytes k'.memory k'.cr3 dst len bytes } := by
  apply Confined.write
  intro same a within
  have registered := calling.sound.stable.registered
  rw [table, cr3] at same
  have own := loaded_own calling.placed calling.member calling.user calling.runs
    registered.current same
  exact .inr (inside own a within)

theorem confined_send (targetPid msg dataPtr dataLen : Nat) (node : Bool)
    (names : k.current = p → ∀ a, InBuffers msg dataPtr dataLen a → allowed a) :
    Confined allowed p k (Syscall.send k targetPid msg dataPtr dataLen node).1 := by
  have registered := calling.sound.stable.registered
  have stored : Confined allowed p k
      (k.modify k.current (outgoing (readMessage k msg) msg dataPtr dataLen)) :=
    confined_caller calling (fun _ => rfl) fun _ => rfl
  -- the caller awaits the answer where it has put its own message and data
  have blocks : ∀ {k' : KernelState}, Confined allowed p k k' →
      ((k'.table k.current).msgPtr = msg ∧ (k'.table k.current).dataPtr = dataPtr ∧
        (k'.table k.current).dataLen = dataLen) →
      Confined allowed p k (k'.modify k.current (block .sendBlocked)) := by
    intro k' confined buffers
    apply confined.trans
    apply Confined.modify _ rfl
    intro caller a waits
    have inside : InBuffers (k'.table k.current).msgPtr (k'.table k.current).dataPtr
        (k'.table k.current).dataLen a := waits.2
    rw [buffers.1, buffers.2.1, buffers.2.2] at inside
    exact .inr (names caller a inside)
  unfold Syscall.send
  dsimp only
  split
  · exact .refl k
  · next target found =>
    have live := registered.get_eq_some.mp found
    split
    · exact .refl k
    · next other =>
      have kept : (k.modify k.current
          (outgoing (readMessage k msg) msg dataPtr dataLen)).table target = k.table target :=
        KernelState.table_modify_of_ne _ _ _ _ other
      split
      · next waits =>
        rw [kept] at waits
        have program := blocked_user calling.sound.stable (live.1 ▸ live.2) (.inr waits)
        have own : spaceOf (k.modify k.current (outgoing (readMessage k msg) msg dataPtr dataLen))
            target = ((k.modify k.current (outgoing (readMessage k msg) msg dataPtr
              dataLen)).table p).pageDirectory → target = p := by
          intro same
          rw [stored.directory] at same
          unfold spaceOf at same
          rw [kept] at same
          exact space_own calling.placed calling.member calling.user (live.1 ▸ live.2) program same
        have delivered := stored.trans (Confined.deliver own (by rw [kept]; exact .inr waits)
          (readMessage k msg) dataPtr dataLen (k.table k.current).pid)
        apply blocks ((delivered.record _).record _)
        obtain ⟨memory, same⟩ := deliver_eq (k.modify k.current
          (outgoing (readMessage k msg) msg dataPtr dataLen)) target (readMessage k msg) dataPtr
            dataLen (k.table k.current).pid
        have caller : (Syscall.deliver (k.modify k.current
            (outgoing (readMessage k msg) msg dataPtr dataLen)) target (readMessage k msg) dataPtr
              dataLen (k.table k.current).pid).table k.current =
            outgoing (readMessage k msg) msg dataPtr dataLen (k.table k.current) := by
          rw [same]
          exact (KernelState.table_modify_of_ne _ _ _ _ (Ne.symm other)).trans
            (KernelState.table_modify_self _ _ _)
        refine ⟨?_, ?_, ?_⟩ <;> exact congrArg _ caller
      · split
        · exact stored
        · next pushed queued =>
          unfold sendQueuePush at queued
          split at queued
          · cases queued
            rw [KernelState.modify_const]
            have appended := stored.trans (Confined.modify_same target
              (f := appendSender (k.table k.current).pid) fun _ => ⟨rfl, rfl, rfl, rfl, rfl⟩)
            apply blocks (appended.record _)
            have caller : ((k.modify k.current (outgoing (readMessage k msg) msg dataPtr
                dataLen)).modify target (appendSender (k.table k.current).pid)).table k.current =
                outgoing (readMessage k msg) msg dataPtr dataLen (k.table k.current) :=
              (KernelState.table_modify_of_ne _ _ _ _ (Ne.symm other)).trans
                (KernelState.table_modify_self _ _ _)
            refine ⟨?_, ?_, ?_⟩ <;> exact congrArg _ caller
          · cases queued

theorem confined_reply (targetPid msg dataPtr dataLen : Nat) :
    Confined allowed p k (Syscall.reply k targetPid msg dataPtr dataLen).1 := by
  have registered := calling.sound.stable.registered
  unfold Syscall.reply
  split
  · exact .refl k
  · next target found =>
    have live := registered.get_eq_some.mp found
    split
    · exact .refl k
    · next waits =>
      have blocked : (k.table target).state = .sendBlocked := not_not.1 waits
      have program := blocked_user calling.sound.stable (live.1 ▸ live.2) (.inl blocked)
      have own := space_own calling.placed calling.member calling.user (live.1 ▸ live.2) program
      exact (Confined.deliver own (.inl blocked) (readMessage k msg) dataPtr dataLen 0).record _

theorem confined_notify (targetPid msg dataPtr dataLen : Nat) (node data : Bool) :
    Confined allowed p k (Syscall.notify k targetPid msg dataPtr dataLen node data).1 := by
  have registered := calling.sound.stable.registered
  unfold Syscall.notify
  dsimp only
  split
  · exact .refl k
  · next target found =>
    have live := registered.get_eq_some.mp found
    split
    · exact .refl k
    · split
      · next waits =>
        have program := blocked_user calling.sound.stable (live.1 ▸ live.2) (.inr waits)
        have own := space_own calling.placed calling.member calling.user (live.1 ▸ live.2) program
        have delivered : Confined allowed p k (Syscall.deliver k target (readMessage k msg) dataPtr
            dataLen 0) := Confined.deliver own (.inr waits) (readMessage k msg) dataPtr dataLen 0
        exact (delivered.record _).record _
      · split
        · exact .refl k
        · next pushed queued =>
          rcases notify_push_cases (k.table target) (k.table k.current).pid (readMessage k msg)
            (readBytes k.memory k.cr3 dataPtr) dataPtr dataLen node data with
            full | ⟨added, _, _, stored⟩
          · cases full.symm.trans queued
          · cases stored.symm.trans queued
            rw [KernelState.modify_const]
            have appended : Confined allowed p k (k.modify target (appendNotify added)) :=
              Confined.modify_same target fun _ => ⟨rfl, rfl, rfl, rfl, rfl⟩
            exact appended.record _

/-- The caller may be given a message where it has said so. -/
theorem confined_message {k' : KernelState} {msg : Nat} (confined : Confined allowed p k k')
    (cr3 : k'.cr3 = k.cr3) (names : k.current = p → ∀ a, Within msg 24 a → allowed a)
    (words : Message) : Confined allowed p k (writeMessage k' msg words) :=
  confined.trans (loaded_buffer calling confined.directory cr3 msg 24 _ names)

theorem confined_bulk {k' : KernelState} {dataPtr len dataCapacity : Nat}
    (confined : Confined allowed p k k') (cr3 : k'.cr3 = k.cr3) (fits : len ≤ dataCapacity)
    (names : k.current = p → ∀ a, Within dataPtr dataCapacity a → allowed a)
    (bytes : Nat → UInt8) : Confined allowed p k
      { k' with memory := writeBytes k'.memory k'.cr3 dataPtr len bytes } := by
  apply confined.trans
  exact loaded_buffer calling confined.directory cr3 dataPtr len bytes
    fun caller a within => names caller a (within_mono within fits)

theorem confined_notified {k' : KernelState} {msg dataPtr dataCapacity : Nat}
    (confined : Confined allowed p k k') (cr3 : k'.cr3 = k.cr3)
    (names : k.current = p → ∀ a, InBuffers msg dataPtr dataCapacity a → allowed a)
    (node : NotifyNode) : Confined allowed p k (receiveNotified k' msg dataPtr dataCapacity node
      (dropNotify (k'.table k'.current))) := by
  have taken := confined.trans (Confined.modify_same k'.current (f := dropNotify)
    fun _ => ⟨rfl, rfl, rfl, rfl, rfl⟩)
  have written := confined_message calling taken cr3
    (fun caller a within => names caller a (.inl within)) node.msg
  unfold receiveNotified
  dsimp only
  rw [KernelState.modify_const]
  apply Confined.record
  split
  · next both =>
    exact confined_bulk calling written cr3 (Nat.min_le_right _ _)
      (fun caller a within => names caller a (.inr ⟨both.2.1, within⟩)) node.data
  · exact written

theorem confined_queued {k' : KernelState} {msg dataPtr dataCapacity : Nat}
    (confined : Confined allowed p k k') (cr3 : k'.cr3 = k.cr3)
    (names : k.current = p → ∀ a, InBuffers msg dataPtr dataCapacity a → allowed a) :
    Confined allowed p k (receiveQueued k' msg dataPtr dataCapacity).1 := by
  have taken := confined.trans (Confined.modify_same k'.current (f := dropSender)
    fun _ => ⟨rfl, rfl, rfl, rfl, rfl⟩)
  have written := confined_message calling taken cr3
    (fun caller a within => names caller a (.inl within))
  unfold receiveQueued sendQueuePop
  dsimp only
  rw [KernelState.modify_const]
  split
  · exact taken
  · apply Confined.record
    split
    · next both =>
      exact confined_bulk calling (written _) cr3 (Nat.min_le_right _ _)
        (fun caller a within => names caller a (.inr ⟨both.2.2.1, within⟩)) _
    · exact written _

theorem confined_receive (msg dataPtr dataCapacity : Nat)
    (names : k.current = p → ∀ a, InBuffers msg dataPtr dataCapacity a → allowed a) :
    Confined allowed p k (Syscall.receive k msg dataPtr dataCapacity).1 := by
  have asked : Confined allowed p k (k.modify k.current (receiveBuffer dataPtr dataCapacity)) :=
    confined_caller calling (fun _ => rfl) fun _ => rfl
  unfold Syscall.receive deliverPending
  dsimp only
  cases (List.range irqLines).find? (pendingFor
      (k.modify k.current (receiveBuffer dataPtr dataCapacity))
      ((k.modify k.current (receiveBuffer dataPtr dataCapacity)).table k.current).pid) with
  | some line =>
      have cleared : Confined allowed p k
          (setPending (k.modify k.current (receiveBuffer dataPtr dataCapacity)) line false) :=
        asked.trans (.of_fields rfl rfl)
      exact confined_message calling cleared rfl
        (fun caller a within => names caller a (.inl within)) (irqMessage line)
  | none =>
      dsimp only
      split
      · next node popped found =>
        have dropped : popped = dropNotify
            ((k.modify k.current (receiveBuffer dataPtr dataCapacity)).table k.current) := by
          unfold notifyPop at found
          split at found
          · cases found
          · exact (Prod.mk.inj (Option.some.inj found)).2.symm
        rw [dropped]
        exact confined_notified calling asked rfl names node
      · split
        · exact confined_queued calling asked rfl names
        · apply asked.trans
          apply Confined.modify _ rfl
          intro caller a waits
          have inside := waits.2
          rw [KernelState.table_modify_self] at inside
          exact .inr (names caller a inside)

theorem confined_exec (elfPtr elfSize : Nat) (loading : Loading) :
    Confined allowed p k (Syscall.exec k elfPtr elfSize loading).1 := by
  have outcome := exec_outcome k elfPtr elfSize loading
  generalize Syscall.exec k elfPtr elfSize loading = answer at outcome
  cases outcome with
  | failed missing => exact .refl k
  | child proc starts new =>
      have old : (started k proc).table p = k.table p :=
        if_neg (Nat.ne_of_lt (calling.sound.stable.registered.created p calling.member))
      have memory : (started k proc).memory = k.memory := rfl
      apply Confined.of_record memory
      · rw [old]
      · rw [old]
        exact fun a waits => .inl waits

theorem memory_exit : (exitCurrent k).1.memory = k.memory := by
  have registered := calling.sound.stable.registered
  obtain ⟨table, destroyed, _⟩ := destroy_spec registered registered.current calling.runs
  obtain ⟨cr3, same⟩ := RoundRobin.exit_current_eq k
  rw [same, registered.pid _ registered.current, destroyed]
  rfl

theorem confined_exit (other : p ≠ k.current) : Confined allowed p k (exitCurrent k).1 := by
  have exit := exit_outcome calling.sound.stable calling.runs
  have record := exit.table p calling.member other
  apply Confined.of_record (memory_exit calling)
  · exact (FramesApart.exit_keeps_spaces exit calling.member other).1
  · intro a waits
    rw [record] at waits
    split at waits
    · exact absurd waits (not_awaits nofun nofun)
    · unfold survivor at waits
      split at waits
      · exact absurd waits (not_awaits nofun nofun)
      · split at waits
        · exact absurd waits (not_awaits nofun nofun)
        · exact .inl waits

end Calls

section Steps

variable {p : Ref} {k k' : KernelState}

theorem confined_forward {allowed : Nat → Prop} (stable : Stable k) (placed : Placed k)
    (member : p ∈ k.processes) (user : p ≠ kernelTask) (irq : Nat) :
    Confined allowed p k (forward k irq) := by
  unfold forward
  split
  · split
    · exact .refl k
    · next target found =>
      have live := stable.registered.get_eq_some.mp found
      split
      · next waits =>
        have program := blocked_user stable (live.1 ▸ live.2) (.inr waits)
        have message : Confined allowed p k
            (copyMessageToProcess k target (k.table target).msgPtr (irqMessage irq)) := by
          apply Confined.write
          intro same a within
          rw [← space_own placed member user (live.1 ▸ live.2) program same]
          exact .inl ⟨.inr waits, .inl within⟩
        exact message.trans (.modify_idle target rfl nofun nofun)
      · exact .of_fields rfl rfl
  · exact .refl k

theorem confined_call {esp : Nat} {call : Call} (calling : Calling p k)
    (stays : call = .exit → p ≠ k.current) :
    Confined (Touches p k (.syscall esp call)) p k (handleSyscall k esp call).1 := by
  cases call with
  | send targetPid msg dataPtr dataLen node =>
      exact (confined_send calling targetPid msg dataPtr dataLen node
        fun caller a inside => ⟨caller, inside⟩).trans (.blockOrReturn _ esp _)
  | receive msg dataPtr dataCapacity =>
      have received : Confined (Touches p k (.syscall esp (.receive msg dataPtr dataCapacity))) p k
          (receive k msg dataPtr dataCapacity).1 :=
        confined_receive calling msg dataPtr dataCapacity fun caller a inside => ⟨caller, inside⟩
      rw [handle_receive]
      split
      · exact received.trans (.returnValue _ 0)
      · exact received.trans (.blockOrReturn _ esp _)
  | reply targetPid msg dataPtr dataLen =>
      exact (confined_reply calling targetPid msg dataPtr dataLen).trans (.returnValue _ _)
  | notify targetPid msg dataPtr dataLen node data =>
      exact (confined_notify calling targetPid msg dataPtr dataLen node data).trans
        (.returnValue _ _)
  | irqRegister irq =>
      have registered : Confined (Touches p k (.syscall esp (.irqRegister irq))) p k
          (registerForward k (irq % 256) (k.table k.current).pid).1 := by
        unfold registerForward
        split
        · exact .refl k
        · exact .of_fields rfl rfl
      exact registered.trans (.returnValue _ _)
  | exec elfPtr elfSize loading =>
      exact (confined_exec calling elfPtr elfSize loading).trans (.returnValue _ _)
  | waitpid pid =>
      exact (Confined.waitpid k pid).trans (.blockOrReturn _ esp _)
  | exit => exact confined_exit calling (stays rfl)

theorem confined_step (sound : Sound k) (placed : Placed k) {action : System.Action}
    (next : System.step k action = some k') (member : p ∈ k.processes) (user : p ≠ kernelTask)
    (stays : ∀ esp, action = .syscall esp .exit → p ≠ k.current) :
    Confined (Touches p k action) p k k' := by
  cases stepped next with
  | user bytes runs =>
      refine ⟨rfl, fun _ waits => .inl waits, ?_⟩
      intro a _ denied
      apply if_neg
      intro same
      exact denied (loaded_own placed member user runs sound.stable.registered.current same.symm)
  | irq number esp high =>
      have handled := sound_run_handler sound (lineOf number) esp
      obtain ⟨spaces, active⟩ := kept_run_handler sound placed.active (lineOf number) esp
      have first : Confined (Touches p k (.irq number esp)) p k
          (runHandler k (lineOf number) esp).1 := .runHandler k (lineOf number) esp
      apply first.trans
      apply confined_forward handled.stable (placed.of_spaces spaces active) _ user
      rw [spaces.processes]
      exact member
  | syscall esp call runs high =>
      apply confined_call ⟨sound, placed, member, user, runs⟩
      rintro rfl
      exact stays esp rfl

theorem member_step (sound : Sound k) (placed : Placed k) {action : System.Action}
    (next : System.step k action = some k') (member : p ∈ k.processes)
    (stays : ∀ esp, action = .syscall esp .exit → p ≠ k.current) : p ∈ k'.processes := by
  by_cases ordinary : Ordinary action
  · rw [(kept_step sound placed.active ordinary next).spaces.processes]
    exact member
  · cases stepped next with
    | user bytes runs => exact absurd trivial ordinary
    | irq number esp high => exact absurd trivial ordinary
    | syscall esp call runs high =>
        cases call with
        | exec elfPtr elfSize loading =>
            have outcome := exec_outcome k elfPtr elfSize loading
            unfold handleSyscall
            dsimp only
            generalize Syscall.exec k elfPtr elfSize loading = answer at outcome
            cases outcome with
            | failed missing => exact member
            | child proc starts new => exact List.mem_append_left _ member
        | exit =>
            have exit := exit_outcome sound.stable runs
            change p ∈ (exitCurrent k).1.processes
            rw [exit.processes]
            exact (List.mem_erase_of_ne (stays esp rfl)).2 member
        | _ => exact absurd trivial ordinary

end Steps

section Runs

variable {base : MemoryState} {p : Ref} {a : Nat} {s s' t : Machine}

theorem placed_of_mapped (mapped : ActiveDirectory.Mapped base s.kernel.cr3 s) :
    Placed s.kernel where
  active := mapped.active
  apart := by
    intro r memberR q memberQ userR userQ different same
    have housed := FramesApart.housed_of_mapped mapped
    have own := housed.directory r memberR userR
    rw [same] at own
    exact housed.apart q memberQ r memberR userQ userR (Ne.symm different) _
      (housed.directory q memberQ userQ) own

/-- What is left of a step that spares `a` of what `p` allows. -/
theorem not_touches {action : MemorySystem.Action} (spares : Spares p a s action) :
    ¬ Touches p s.kernel (kernelAction s.memory action) a := by
  cases action with
  | user bytes => exact spares
  | irq number esp => exact id
  | exec esp elfPtr elfSize elfData buffer process => exact fun touched => touched.2
  | syscall esp call =>
      rintro ⟨caller, named⟩
      exact (spares caller).2 named

theorem spares_stays {action : MemorySystem.Action} (spares : Spares p a s action) (esp : Nat)
    (leaves : kernelAction s.memory action = .syscall esp .exit) : p ≠ s.kernel.current := by
  cases action with
  | user bytes => cases leaves
  | irq number esp => cases leaves
  | exec esp elfPtr elfSize elfData buffer process => cases leaves
  | syscall esp call =>
      cases leaves
      exact fun caller => (spares caller.symm).1 rfl

/-- A byte of a program that its own steps spare stays as it is, unless the program awaits it. -/
structure Spared (base : MemoryState) (p : Ref) (a : Nat) (s t : Machine) : Prop where
  mapped : ActiveDirectory.Mapped base t.kernel.cr3 t
  member : p ∈ t.kernel.processes
  quiet : ¬ Awaits (t.kernel.table p) a
  byte : byteOf p t a = byteOf p s a

theorem spared_step (reserved : NewProcess.Reserved base) (user : p ≠ kernelTask)
    (spared : Spared base p a s t) {action : MemorySystem.Action}
    (admits : Admits t action) (spares : Spares p a t action) {t' : Machine}
    (next : MemorySystem.step t action = some t') : Spared base p a s t' := by
  have mapped' := FramesApart.mapped_after_step reserved spared.mapped admits.1 next
  have placed := placed_of_mapped spared.mapped
  have sound := spared.mapped.sound
  have stays := spares_stays spares
  unfold MemorySystem.step at next
  split at next
  · obtain ⟨k', kernel, rfl⟩ := Option.map_eq_some_iff.mp next
    have confined := confined_step sound placed kernel spared.member user stays
    have denied := not_touches spares
    refine ⟨mapped', member_step sound placed kernel spared.member stays, ?_, ?_⟩
    · exact fun waits => (confined.awaits a waits).elim spared.quiet denied
    · have kept := confined.memory a spared.quiet denied
      rw [← confined.directory] at kept
      have before : byteOf p t a = t.kernel.memory (k'.table p).pageDirectory a := by
        unfold byteOf
        rw [confined.directory]
      exact kept.trans (before.symm.trans spared.byte)
  · cases next

/-- In every run, from any state the machine reaches: a byte of a program's memory below
`KERNEL_VBASE` that the program does not write and does not name in a call is the same, whatever
the others do. Above it lie the kernel's own data, which the model keeps elsewhere. -/
theorem byte_belongs_to_its_program (booted : Booted base) {kernelPd : Nat}
    {bytes : Nat → Nat → UInt8} {modules : List MemorySystem.Module}
    (few : modules.length < 4294967296)
    (reached : Run MemorySystem.step Admits (MemorySystem.boot kernelPd bytes base modules) s)
    (member : p ∈ s.kernel.processes) (user : p ≠ kernelTask) (_address : a < kernelVbase)
    (quiet : ¬ Awaits (s.kernel.table p) a)
    (run : Run MemorySystem.step (fun s action => Admits s action ∧ Spares p a s action) s t) :
    byteOf p t a = byteOf p s a := by
  have reserved := NewProcess.reserved_of_booted booted
  have mapped := FramesApart.mapped_of_run booted few (reached.weaken fun _ _ admits => admits.1)
  have spared : Spared base p a s t := by
    apply run.invariant (Spared base p a s) ⟨mapped, member, quiet, rfl⟩
    intro t action t' spared admits next
    exact spared_step reserved user spared admits.1 admits.2 next
  exact spared.byte

end Runs

section Examples

open CassiOS.Kernel.ActiveDirectory (booted_wider_machine)
open CassiOS.Kernel.FramesApart (programs threePrograms firstWaits)

/-- What the second program sends goes to the buffers at 4096 and 8192. -/
def secondSends : List MemorySystem.Action :=
  [.syscall kernelVbase (.send 1 4096 8192 16 true)]

theorem first_waits_result :
    (path MemorySystem.step threePrograms firstWaits).map (fun s =>
      (s.kernel.current, decide (1 ∈ s.kernel.processes), (s.kernel.table 1).msgPtr,
        (s.kernel.table 1).dataPtr, (s.kernel.table 1).dataLen)) =
          some (2, true, 4096, 8192, 16) := by
  decide +kernel

theorem second_sends_result :
    ((path MemorySystem.step threePrograms firstWaits).bind
      fun s => path MemorySystem.step s secondSends).map
        (fun s => s.kernel.current) = some 3 := by
  decide +kernel

theorem low_buffers {a : Nat} (address : a < 4294967296) (inside : InBuffers 4096 8192 16 a) :
    a < 8208 := by
  unfold InBuffers Within u32 at inside
  omega

/-- The first program's byte at 20000 is the same before the message and after it. -/
theorem message_leaves_other_bytes : ∃ s t : Machine,
    path MemorySystem.step s secondSends = some t ∧ byteOf 1 t 20000 = byteOf 1 s 20000 := by
  obtain ⟨t, both, _⟩ := Option.map_eq_some_iff.mp second_sends_result
  obtain ⟨s, first, second⟩ := Option.bind_eq_some_iff.mp both
  obtain ⟨s', again, result⟩ := Option.map_eq_some_iff.mp first_waits_result
  obtain rfl : s = s' := Option.some.inj (first.symm.trans again)
  simp only [Prod.mk.injEq, decide_eq_true_eq] at result
  obtain ⟨_, live, msgPtr, dataPtr, dataLen⟩ := result
  have low : ∀ a, a < 4294967296 → InBuffers 4096 8192 16 a → a < kernelVbase :=
    fun a address inside => Nat.lt_trans (low_buffers address inside) (by decide)
  have reached : Run MemorySystem.step Admits threePrograms s := by
    apply run_of_path _ first
    intro s action member
    rcases List.mem_append.mp member with tick | call
    · rw [List.eq_of_mem_replicate tick]
      exact ⟨trivial, trivial⟩
    · rw [List.mem_singleton.mp call]
      exact ⟨trivial, low⟩
  have onward : Run MemorySystem.step
      (fun s action => Admits s action ∧ Spares 1 20000 s action) s t := by
    apply run_of_path _ second
    intro s action member
    obtain rfl := List.mem_singleton.mp member
    refine ⟨⟨trivial, low⟩, fun _ => ⟨nofun, fun named => ?_⟩⟩
    exact absurd (low_buffers (by decide) named) (by decide)
  refine ⟨s, t, second, byte_belongs_to_its_program booted_wider_machine
    (show programs.length < 4294967296 by decide) reached live (by decide) (by decide) ?_ onward⟩
  rintro ⟨_, inside⟩
  rw [msgPtr, dataPtr, dataLen] at inside
  exact absurd (low_buffers (by decide) inside) (by decide)

end Examples

end CassiOS.Kernel.MemoryIsolation
