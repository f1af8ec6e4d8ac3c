import CassiOS.Kernel.CallEffects
import CassiOS.Kernel.ProcessStates
import CassiOS.Kernel.ProcessList

/-!
# Round-robin scheduling

The process list is a ring in which the turn goes from the current process to the next ready
one. New processes join it at the tail, those that exit leave it, and a process that waits is
never passed over; so while it waits no other one is dispatched twice.
-/

namespace CassiOS.Kernel.RoundRobin

open CassiOS.Support.Words
open CassiOS.Support.Turns
open CassiOS.Kernel.State
open CassiOS.Kernel.ProcessManager
open CassiOS.Kernel.Scheduler
open CassiOS.Kernel.Irq
open CassiOS.Kernel.Syscall
open CassiOS.Kernel.System
open CassiOS.Kernel.Invariant
open CassiOS.Kernel.Outcomes
open CassiOS.Kernel.CallEffects
open CassiOS.Kernel.ProcessTable (find_next_ready_cases)
open CassiOS.Kernel.ProcessStates
open CassiOS.Kernel.ProcessList

set_option autoImplicit false

section Specification

/-- A step of the kernel, or the end of a process that does not run. -/
inductive Move
  | act (action : Action)
  | destroy (pid : Nat)

def move (k : KernelState) : Move → Option KernelState
  | .act action => step k action
  | .destroy pid => if get k pid = some k.current then none else some (destroy k pid)

/-- What `destroy` does to the links of the process list. -/
def unlinked (k : KernelState) (list : LinkedList Ref) (pid : Nat) : Option (LinkedList Ref) :=
  if pid = 0 then some list
  else match get k pid with
  | none => some list
  | some p => (list.remove p).map Prod.fst

/-- The links after a move; a process has been created when `nextRef` has moved on. -/
def relink (k : KernelState) (list : LinkedList Ref) : Move → Option (LinkedList Ref)
  | .act (.syscall _ (.exec elfPtr elfSize loading)) =>
      if (exec k elfPtr elfSize loading).1.nextRef = k.nextRef then some list
      else some (list.pushBack k.nextRef)
  | .act (.syscall _ .exit) => unlinked k list (k.table k.current).pid
  | .act _ => some list
  | .destroy pid => unlinked k list pid

/-- The kernel task is the head of the list and never blocks; it is ready when it does not
run. PIDs may repeat. -/
structure Listed (k : KernelState) : Prop where
  head : ∃ rest, k.processes = kernelTask :: rest
  nodup : k.processes.Nodup
  current : k.current ∈ k.processes
  created : ∀ r ∈ k.processes, r < k.nextRef
  live : ∀ r ∈ k.processes, (k.table r).state ≠ .empty
  kernelPid : (k.table kernelTask).pid = 0
  idle : (k.table kernelTask).state = .ready ∨
    (k.table kernelTask).state = .running ∧ k.current = kernelTask

/-- Some moves, with the links of the process list after each of them. -/
structure History (n : Nat) (states : Nat → KernelState) (lists : Nat → LinkedList Ref)
    (moves : Nat → Move) : Prop where
  listed : Listed (states 0)
  linked : Represents (lists 0) (states 0).processes
  moved : ∀ i, i < n → move (states i) (moves i) = some (states (i + 1))
  relinked : ∀ i, i < n → relink (states i) (lists i) (moves i) = some (lists (i + 1))

/-- `p` is ready and does not run. -/
structure Waits (p : Ref) (k : KernelState) : Prop where
  member : p ∈ k.processes
  ready : (k.table p).state = .ready
  other : k.current ≠ p

def Dispatched (q : Ref) (k k' : KernelState) : Prop := k.current ≠ q ∧ k'.current = q

/-- `next` is the first ready process behind `current` in cyclic order, or `current` when no
other is ready. -/
def FirstReady (k : KernelState) (current next : Ref) : Prop :=
  ∃ before after, k.processes = before ++ current :: after ∧
    ((∃ passed rest, after ++ before = passed ++ next :: rest ∧
        (k.table next).state = .ready ∧ ∀ r ∈ passed, (k.table r).state ≠ .ready) ∨
      (next = current ∧ ∀ r ∈ after ++ before, (k.table r).state ≠ .ready))

end Specification

/-! ## What leaves the ring alone -/

def IsCurrent (k : KernelState) (r : Ref) : Prop := r = k.current

/-- A process that was ready or running is what it was; a blocked one may be ready. -/
def Woken (p p' : Process) : Prop :=
  p'.state = p.state ∨ p.state ≠ .running ∧ p'.state = .ready

/-- Nothing happens to the process list, and nothing but wake-ups to the processes that are
not `free`. -/
structure Steady (free : Ref → Prop) (k k' : KernelState) : Prop where
  processes : k'.processes = k.processes
  current : k'.current = k.current
  nextRef : k'.nextRef = k.nextRef
  pid : ∀ r, (k'.table r).pid = (k.table r).pid
  live : ∀ r, (k.table r).state ≠ .empty → (k'.table r).state ≠ .empty
  woken : ∀ r, ¬ free r → Woken (k.table r) (k'.table r)

namespace Steady

variable {free : Ref → Prop} {k k' k'' : KernelState}

theorem of_fields (table : k'.table = k.table) (processes : k'.processes = k.processes)
    (current : k'.current = k.current) (nextRef : k'.nextRef = k.nextRef) : Steady free k k' := by
  refine ⟨processes, current, nextRef, ?_, ?_, ?_⟩
  · exact fun r => by rw [table]
  · exact fun r => by rw [table]; exact id
  · exact fun r _ => .inl (by rw [table])

theorem refl (k : KernelState) : Steady free k k := of_fields rfl rfl rfl rfl

theorem trans (first : Steady free k k') (second : Steady free k' k'') : Steady free k k'' := by
  refine ⟨second.processes.trans first.processes, second.current.trans first.current,
    second.nextRef.trans first.nextRef, fun r => (second.pid r).trans (first.pid r),
    fun r live => second.live r (first.live r live), ?_⟩
  intro r fixed
  rcases first.woken r fixed with same | ⟨stopped, ready⟩
  · have later := second.woken r fixed
    unfold Woken at later ⊢
    rwa [same] at later
  · rcases second.woken r fixed with same | ⟨_, ready'⟩
    · exact .inr ⟨stopped, same.trans ready⟩
    · exact .inr ⟨stopped, ready'⟩

theorem weaken {free' : Ref → Prop} (steady : Steady free k k') (wider : ∀ r, free r → free' r) :
    Steady free' k k' :=
  ⟨steady.processes, steady.current, steady.nextRef, steady.pid, steady.live,
    fun r fixed => steady.woken r fun inside => fixed (wider r inside)⟩

theorem modify {r : Ref} {f : Process → Process} (pid : (f (k.table r)).pid = (k.table r).pid)
    (live : (f (k.table r)).state ≠ .empty ∨ (f (k.table r)).state = (k.table r).state)
    (woken : ¬ free r → Woken (k.table r) (f (k.table r))) : Steady free k (k.modify r f) := by
  refine ⟨rfl, rfl, rfl, fun q => k.modify_keeps r q f Process.pid pid, ?_, ?_⟩
  · intro q old
    by_cases same : q = r
    · subst same
      rw [KernelState.table_modify_self]
      rcases live with always | kept
      · exact always
      · rwa [kept]
    · rwa [KernelState.table_modify_of_ne _ _ _ _ same]
  · intro q fixed
    by_cases same : q = r
    · subst same
      rw [KernelState.table_modify_self]
      exact woken fixed
    · rw [KernelState.table_modify_of_ne _ _ _ _ same]
      exact .inl rfl

theorem modify_keep {r : Ref} {f : Process → Process} (pid : ∀ p : Process, (f p).pid = p.pid)
    (state : ∀ p : Process, (f p).state = p.state) : Steady free k (k.modify r f) :=
  modify (pid _) (.inr (state _)) fun _ => .inl (state _)

theorem modify_free {r : Ref} {f : Process → Process} (caller : free r)
    (pid : ∀ p : Process, (f p).pid = p.pid) (live : ∀ p : Process, (f p).state ≠ .empty) :
    Steady free k (k.modify r f) :=
  modify (pid _) (.inl (live _)) fun fixed => absurd caller fixed

theorem record (steady : Steady free k k') (event : Event) : Steady free k (k'.record event) :=
  steady.trans (of_fields rfl rfl rfl rfl)

theorem waking (free : Ref → Prop) : Waking (Steady free) where
  refl := refl
  trans := trans
  fields table processes current nextRef _ := of_fields table processes current nextRef
  keep := modify_keep
  wake := by
    intro k table woken
    refine ⟨rfl, rfl, rfl, ?_, ?_, ?_⟩
    · intro r
      rcases woken r with same | ⟨_, pid, _⟩
      · exact congrArg Process.pid same
      · exact pid
    · intro r live
      change (table r).state ≠ .empty
      rcases woken r with same | ⟨_, _, ready⟩
      · rwa [same]
      · rw [ready]
        exact nofun
    · intro r _
      rcases woken r with same | ⟨stopped, _, ready⟩
      · exact .inl (congrArg Process.state same)
      · exact .inr ⟨stopped, ready⟩

theorem blocking {caller : Ref} (runs : free caller) : Blocking caller (Steady free) where
  toWaking := waking free
  block := by
    intro k f pid blocked
    apply modify_free runs pid
    intro p
    rcases blocked p with state | state
    · rw [state]
      exact nofun
    · rw [state]
      exact nofun

theorem receiveQueued (k : KernelState) (msg dataPtr dataCapacity : Nat) :
    Steady free k (Syscall.receiveQueued k msg dataPtr dataCapacity).1 := by
  have dropped : Steady free k (k.modify k.current dropSender) :=
    modify_keep (fun _ => rfl) fun _ => rfl
  unfold Syscall.receiveQueued sendQueuePop
  simp only [KernelState.modify_const]
  split
  · exact dropped
  · split <;> exact dropped.trans (of_fields rfl rfl rfl rfl)

theorem receiveNotified (k : KernelState) (msg dataPtr dataCapacity : Nat) {node : NotifyNode}
    {popped : Process} (found : notifyPop (k.table k.current) = some (node, popped)) :
    Steady free k (Syscall.receiveNotified k msg dataPtr dataCapacity node popped) := by
  obtain ⟨memory, shape⟩ := receive_notified_eq k msg dataPtr dataCapacity node popped
  have taken : popped = dropNotify (k.table k.current) := by
    unfold notifyPop at found
    split at found
    · cases found
    · cases found
      rfl
  have dropped : Steady free k (k.modify k.current dropNotify) :=
    modify_keep (fun _ => rfl) fun _ => rfl
  rw [shape, taken, KernelState.modify_const]
  apply record
  exact dropped.trans (of_fields rfl rfl rfl rfl)

theorem registerForward (k : KernelState) (irq pid : Nat) :
    Steady free k (Irq.registerForward k irq pid).1 := by
  unfold Irq.registerForward
  split
  · exact .refl k
  · exact of_fields rfl rfl rfl rfl

theorem receive (caller : free k.current) (msg dataPtr dataCapacity : Nat) :
    Steady free k (Syscall.receive k msg dataPtr dataCapacity).1 := by
  have asked : Steady free k (k.modify k.current (receiveBuffer dataPtr dataCapacity)) :=
    modify_keep (fun _ => rfl) fun _ => rfl
  unfold Syscall.receive
  dsimp only
  rcases deliver_pending_cases (k.modify k.current (receiveBuffer dataPtr dataCapacity))
    ((k.modify k.current (receiveBuffer dataPtr dataCapacity)).table k.current).pid msg with
    ⟨_, same⟩ | ⟨irq, memory, _, _, _, same⟩
  · rw [same]
    dsimp only
    split
    · next node popped found =>
      exact asked.trans (receiveNotified _ msg dataPtr dataCapacity found)
    · split
      · exact asked.trans (receiveQueued _ msg dataPtr dataCapacity)
      · exact asked.trans (modify_free caller (fun _ => rfl) fun _ => nofun)
  · rw [same]
    exact asked.trans (of_fields rfl rfl rfl rfl)

theorem forward (k : KernelState) (irq : Nat) : Steady free k (Irq.forward k irq) := by
  unfold Irq.forward
  split
  · split
    · exact .refl k
    · next target _ =>
      split
      · next waits =>
        have copied : Steady free k (copyMessageToProcess k target (k.table target).msgPtr
            (irqMessage irq)) := of_fields rfl rfl rfl rfl
        refine copied.trans (modify rfl (.inl nofun) fun _ => .inr ⟨?_, rfl⟩)
        exact fun runs => ProcessState.noConfusion (waits.symm.trans runs)
      · exact of_fields rfl rfl rfl rfl
  · exact .refl k

theorem ready (steady : Steady free k k') {r : Ref} (fixed : ¬ free r)
    (waits : (k.table r).state = .ready) : (k'.table r).state = .ready := by
  rcases steady.woken r fixed with same | ⟨_, woken⟩
  · exact same.trans waits
  · exact woken

theorem listed_of_idle (steady : Steady free k k') (listed : Listed k)
    (idle : (k'.table kernelTask).state = .ready ∨
      (k'.table kernelTask).state = .running ∧ k'.current = kernelTask) : Listed k' := by
  refine ⟨?_, ?_, ?_, ?_, ?_, (steady.pid kernelTask).trans listed.kernelPid, idle⟩
  · rw [steady.processes]
    exact listed.head
  · rw [steady.processes]
    exact listed.nodup
  · rw [steady.processes, steady.current]
    exact listed.current
  · rw [steady.processes, steady.nextRef]
    exact listed.created
  · intro r member
    rw [steady.processes] at member
    exact steady.live r (listed.live r member)

theorem listed (steady : Steady free k k') (fixed : ¬ free kernelTask) (listed : Listed k) :
    Listed k' := by
  apply steady.listed_of_idle listed
  rw [steady.current]
  rcases listed.idle with waits | ⟨runs, here⟩
  · exact .inl (steady.ready fixed waits)
  · rcases steady.woken kernelTask fixed with same | ⟨stopped, _⟩
    · exact .inr ⟨same.trans runs, here⟩
    · exact absurd runs stopped

end Steady

/-! ## What turns it -/

/-- `next` comes behind the current process, and no ready one between them. -/
def Turn (k : KernelState) (next : Ref) : Prop :=
  ∃ passed rest, behind k.processes k.current = passed ++ next :: rest ∧
    ∀ r ∈ passed, (k.table r).state ≠ .ready

inductive Shape (k k' : KernelState) : Prop
  | stays (processes : k'.processes = k.processes) (current : k'.current = k.current)
      (nextRef : k'.nextRef = k.nextRef)
  | turns (next : Ref) (turn : Turn k next) (processes : k'.processes = k.processes)
      (current : k'.current = next) (nextRef : k'.nextRef = k.nextRef)
  | starts (processes : k'.processes = k.processes ++ [k.nextRef])
      (current : k'.current = k.current) (nextRef : k'.nextRef = k.nextRef + 1)
  | ends (gone : Ref) (other : gone ≠ k.current)
      (processes : k'.processes = k.processes.erase gone) (current : k'.current = k.current)
      (nextRef : k'.nextRef = k.nextRef)
  | exits (next gone : Ref) (turn : Turn k next) (other : gone ≠ next)
      (processes : k'.processes = k.processes.erase gone) (current : k'.current = next)
      (nextRef : k'.nextRef = k.nextRef)

section Decisions

variable {k k' : KernelState}

theorem find_cases (k : KernelState) (current : Ref) :
    (∃ passed rest, candidates k.processes current = passed ++ findNextReady k current :: rest ∧
        (k.table (findNextReady k current)).state = .ready ∧
          ∀ r ∈ passed, (k.table r).state ≠ .ready) ∨
      (findNextReady k current = current ∧
        ∀ r ∈ candidates k.processes current, (k.table r).state ≠ .ready) := by
  unfold Scheduler.findNextReady
  cases found : (candidates k.processes current).find? fun r => (k.table r).state = .ready with
  | none =>
      right
      refine ⟨rfl, ?_⟩
      intro r member ready
      simpa [ready] using List.find?_eq_none.1 found r member
  | some next =>
      left
      obtain ⟨ready, passed, rest, shape, unready⟩ := List.find?_eq_some_iff_append.1 found
      refine ⟨passed, rest, shape, by simpa using ready, ?_⟩
      intro r member
      simpa using unready r member

/-- The search of the scheduler finds the first ready process behind `current`. -/
theorem first_ready (nodup : k.processes.Nodup) {current : Ref}
    (member : current ∈ k.processes) :
    FirstReady k current (Scheduler.findNextReady k current) := by
  obtain ⟨before, after, shape, _, _, order⟩ := split_at nodup member
  have cases := find_cases k current
  rw [show candidates k.processes current = after ++ before from order] at cases
  exact ⟨before, after, shape, cases⟩

/-- What the search finds after changes that only concern the current process. -/
theorem turn_of_find (listed : Listed k) (steady : Steady (IsCurrent k) k k') :
    Scheduler.findNextReady k' k'.current = k'.current ∨
      Turn k (Scheduler.findNextReady k' k'.current) := by
  rcases find_cases k' k'.current with ⟨passed, rest, shape, _, unready⟩ | ⟨same, _⟩
  · right
    refine ⟨passed, rest, ?_, ?_⟩
    · rw [← shape, steady.processes, steady.current]
      rfl
    · intro r member ready
      have inside : r ∈ behind k.processes k.current := by
        have order : candidates k'.processes k'.current = behind k.processes k.current := by
          rw [steady.processes, steady.current]
          rfl
        rw [← order, shape]
        exact List.mem_append_left _ member
      have other := ((mem_behind listed.nodup listed.current).1 inside).2
      exact unready r member (steady.ready other ready)
  · exact .inl same

theorem find_mem (listed : Listed k) :
    Scheduler.findNextReady k k.current ∈ k.processes := by
  rcases find_next_ready_cases listed.nodup listed.current with same | ⟨member, _⟩
  · rw [same]
    exact listed.current
  · exact member

theorem listed_switch (listed : Listed k) {next : Ref} (esp : Nat) (member : next ∈ k.processes)
    (kernel : next ≠ kernelTask → (k.table kernelTask).state = .ready) :
    Listed (switchTo k next k.current esp).1 := by
  obtain ⟨processes, current, _, nextRef, _, _, _⟩ := switch_to_fields (k := k) next k.current esp
  refine ⟨?_, ?_, ?_, ?_, ?_, ?_, ?_⟩
  · rw [processes]
    exact listed.head
  · rw [processes]
    exact listed.nodup
  · rw [processes, current]
    exact member
  · rw [processes, nextRef]
    exact listed.created
  · intro r inside
    rw [processes] at inside
    obtain ⟨sp, state, record, kept⟩ := @record_switch_to k next k.current esp r
    rw [record]
    rcases kept with running | same
    · exact fun empty => ProcessState.noConfusion (running.symm.trans empty)
    · exact fun empty => listed.live r inside (same.symm.trans empty)
  · obtain ⟨sp, state, record, _⟩ := @record_switch_to k next k.current esp kernelTask
    rw [record]
    exact listed.kernelPid
  · rw [current]
    by_cases chosen : next = kernelTask
    · right
      refine ⟨?_, chosen⟩
      rw [table_switch_to, switched, if_pos chosen.symm]
      rfl
    · left
      rw [state_switch_to esp (Ne.symm chosen)]
      exact kernel chosen

theorem switch_shape (esp : Nat) {next : Ref} (processes : k'.processes = k.processes)
    (current : k'.current = k.current) (nextRef : k'.nextRef = k.nextRef)
    (turned : next = k'.current ∨ Turn k next) : Shape k (switchTo k' next k'.current esp).1 := by
  obtain ⟨processes', current', _, nextRef', _, _, _⟩ :=
    switch_to_fields (k := k') next k'.current esp
  rcases turned with same | turn
  · exact .stays (processes'.trans processes) (current'.trans (same.trans current))
      (nextRef'.trans nextRef)
  · exact .turns next turn (processes'.trans processes) current' (nextRef'.trans nextRef)

theorem Shape.steady {free : Ref → Prop} {k'' : KernelState} (shape : Shape k k')
    (steady : Steady free k' k'') : Shape k k'' := by
  obtain ⟨processes', current', nextRef', _, _, _⟩ := steady
  cases shape with
  | stays processes current nextRef =>
      exact .stays (processes'.trans processes) (current'.trans current) (nextRef'.trans nextRef)
  | turns next turn processes current nextRef =>
      exact .turns next turn (processes'.trans processes) (current'.trans current)
        (nextRef'.trans nextRef)
  | starts processes current nextRef =>
      exact .starts (processes'.trans processes) (current'.trans current)
        (nextRef'.trans nextRef)
  | ends gone other processes current nextRef =>
      exact .ends gone other (processes'.trans processes) (current'.trans current)
        (nextRef'.trans nextRef)
  | exits next gone turn other processes current nextRef =>
      exact .exits next gone turn other (processes'.trans processes) (current'.trans current)
        (nextRef'.trans nextRef)

theorem shape_of_steady {free : Ref → Prop} (steady : Steady free k k') : Shape k k' :=
  .stays steady.processes steady.current steady.nextRef

theorem kernel_ready (listed : Listed k) (user : k.current ≠ kernelTask) :
    (k.table kernelTask).state = .ready := by
  rcases listed.idle with ready | ⟨_, here⟩
  · exact ready
  · exact absurd here user

theorem reschedule_shape (listed : Listed k) (user : k.current ≠ kernelTask)
    (steady : Steady (IsCurrent k) k k') (esp : Nat) :
    Shape k (reschedule k' esp).1 ∧ Listed (reschedule k' esp).1 := by
  have listed' := steady.listed (Ne.symm user) listed
  unfold reschedule
  split
  · exact ⟨shape_of_steady steady, listed'⟩
  · have reset : Steady (IsCurrent k) k { k' with tickCount := 0 } :=
      steady.trans (.of_fields rfl rfl rfl rfl)
    have user' : k'.current ≠ kernelTask := by rwa [steady.current]
    constructor
    · exact switch_shape esp reset.processes reset.current reset.nextRef
        (turn_of_find listed steady)
    · apply listed_switch (reset.listed (Ne.symm user) listed)
      · exact find_mem (k := k') listed'
      · intro _
        exact kernel_ready (k := k') listed' user'

theorem state_demote (p : Process) : (demote p).state = p.state ∨
    p.state = .running ∧ (demote p).state = .ready := by
  unfold demote
  split
  · next runs => exact .inr ⟨runs, rfl⟩
  · exact .inl rfl

theorem steady_demote {free : Ref → Prop} (caller : free k.current) :
    Steady free k (k.modify k.current demote) := by
  apply Steady.modify
  · unfold demote
    split <;> rfl
  · rcases state_demote (k.table k.current) with same | ⟨_, ready⟩
    · exact .inr same
    · left
      rw [ready]
      exact nofun
  · exact fun fixed => absurd caller fixed

/-- The kernel task is ready once the current process has been demoted. -/
theorem kernel_demoted (listed : Listed k) :
    ((k.modify k.current demote).table kernelTask).state = .ready := by
  by_cases here : kernelTask = k.current
  · rw [← here, KernelState.table_modify_self]
    rcases state_demote (k.table kernelTask) with same | ⟨_, ready⟩
    · rcases listed.idle with ready | ⟨runs, _⟩
      · exact same.trans ready
      · unfold demote
        rw [if_pos runs]
    · exact ready
  · rw [KernelState.table_modify_of_ne _ _ _ _ here]
    exact kernel_ready listed (Ne.symm here)

theorem schedule_shape (listed : Listed k) (steady : Steady (fun _ => False) k k') (esp : Nat) :
    Shape k (schedule k' esp).1 ∧ Listed (schedule k' esp).1 := by
  have listed' := steady.listed id listed
  have counted : ∀ tickCount, Steady (IsCurrent k) k { k' with tickCount := tickCount } :=
    fun tickCount => (steady.weaken nofun).trans (.of_fields rfl rfl rfl rfl)
  rcases schedule_cases k' esp with ⟨tickCount, same⟩ | switched
  · rw [same]
    have kept := (counted tickCount).listed_of_idle listed listed'.idle
    exact ⟨shape_of_steady (counted tickCount), kept⟩
  · rw [switched]
    have reset := (counted 0).listed_of_idle listed listed'.idle
    have demoted : Steady (IsCurrent k) k (k'.modify k'.current demote) :=
      (steady.weaken nofun).trans (steady_demote steady.current)
    have both : Steady (IsCurrent k) k
        ({ k' with tickCount := 0 }.modify k'.current demote) :=
      (counted 0).trans (steady_demote (k := { k' with tickCount := 0 }) steady.current)
    constructor
    · exact switch_shape esp both.processes both.current both.nextRef
        (turn_of_find listed demoted)
    · apply listed_switch (both.listed_of_idle listed (.inl (kernel_demoted reset)))
      · have kept := demoted.listed_of_idle listed (.inl (kernel_demoted listed'))
        exact find_mem (k := k'.modify k'.current demote) kept
      · intro _
        exact kernel_demoted reset

theorem answer_shape (listed : Listed k) (user : k.current ≠ kernelTask)
    (steady : Steady (IsCurrent k) k k') (esp : Nat) (result : Int) :
    Shape k (blockOrReturn k' esp result).1 ∧ Listed (blockOrReturn k' esp result).1 := by
  unfold blockOrReturn
  split
  · exact reschedule_shape listed user steady esp
  · have returned := steady.trans ((Steady.waking _).returnValue k' (asU32 result))
    exact ⟨shape_of_steady returned, returned.listed (Ne.symm user) listed⟩

theorem started_shape (listed : Listed k) {proc : Process} (new : IsNew k proc) :
    Shape k (started k proc) ∧ Listed (started k proc) := by
  refine ⟨.starts rfl rfl rfl, ?_⟩
  obtain ⟨rest, shape⟩ := listed.head
  have older : kernelTask < k.nextRef := by
    apply listed.created
    rw [shape]
    exact List.mem_cons_self
  have record : ∀ r, r < k.nextRef → (started k proc).table r = k.table r :=
    fun r old => if_neg old.ne
  refine ⟨⟨rest ++ [k.nextRef], ?_⟩, ?_, ?_, ?_, ?_, ?_, ?_⟩
  · change k.processes ++ [k.nextRef] = _
    rw [shape, List.cons_append]
  · exact nodup_concat listed.nodup fun member => (listed.created _ member).false
  · exact List.mem_append_left _ listed.current
  · intro r member
    rcases List.mem_append.1 member with old | last
    · exact Nat.lt_succ_of_lt (listed.created r old)
    · rw [List.mem_singleton.1 last]
      exact Nat.lt_succ_self _
  · intro r member
    rcases List.mem_append.1 member with old | last
    · rw [record r (listed.created r old)]
      exact listed.live r old
    · rw [List.mem_singleton.1 last, table_started_new, new.state]
      exact nofun
  · rw [record _ older]
    exact listed.kernelPid
  · rw [record _ older]
    exact listed.idle

theorem exec_shape (listed : Listed k) (elfPtr elfSize eax : Nat) (loading : Loading) :
    Shape k (returnValue (exec k elfPtr elfSize loading).1 eax) ∧
      Listed (returnValue (exec k elfPtr elfSize loading).1 eax) := by
  have outcome := exec_outcome k elfPtr elfSize loading
  generalize exec k elfPtr elfSize loading = answer at outcome
  have returned : ∀ k : KernelState, Steady (fun _ => False) k (returnValue k eax) :=
    fun k => (Steady.waking _).returnValue k eax
  cases outcome with
  | failed missing => exact ⟨shape_of_steady (returned k), (returned k).listed id listed⟩
  | child proc starts new =>
      obtain ⟨shape, listed'⟩ := started_shape listed new
      exact ⟨shape.steady (returned _), (returned _).listed id listed'⟩

/-- Taking a process other than the kernel task and the current one out of the list. -/
theorem listed_erase (listed : Listed k) {gone : Ref} (kernel : gone ≠ kernelTask)
    (other : gone ≠ k.current) : Listed { k with processes := k.processes.erase gone } := by
  obtain ⟨rest, shape⟩ := listed.head
  refine ⟨⟨rest.erase gone, ?_⟩, listed.nodup.erase gone, ?_, ?_, ?_, listed.kernelPid,
    listed.idle⟩
  · change k.processes.erase gone = _
    rw [shape, List.erase_cons_tail (by simpa using kernel.symm)]
  · exact (List.mem_erase_of_ne other.symm).2 listed.current
  · exact fun r member => listed.created r (List.mem_of_mem_erase member)
  · exact fun r member => listed.live r (List.mem_of_mem_erase member)

theorem get_mem {pid : Nat} {r : Ref} (found : get k pid = some r) :
    r ∈ k.processes ∧ (k.table r).pid = pid := by
  have selected := List.find?_some found
  simp only [decide_eq_true_eq] at selected
  exact ⟨List.mem_of_find?_eq_some found, selected.1⟩

theorem gone_not_kernel (listed : Listed k) {pid : Nat} (nonzero : pid ≠ 0) {gone : Ref}
    (found : get k pid = some gone) : gone ≠ kernelTask := by
  intro same
  have named := (get_mem found).2
  rw [same, listed.kernelPid] at named
  exact nonzero named.symm

theorem destroy_shape (listed : Listed k) {pid : Nat} (other : get k pid ≠ some k.current) :
    Shape k (destroy k pid) ∧ Listed (destroy k pid) := by
  rcases (Steady.waking fun _ => False).destroy k pid with
    ⟨same, _⟩ | ⟨gone, k', nonzero, found, steady, same⟩
  · rw [same]
    exact ⟨.stays rfl rfl rfl, listed⟩
  · have apart : gone ≠ k.current := fun same => other (same ▸ found)
    have kernel := gone_not_kernel listed nonzero found
    rw [same]
    constructor
    · exact .ends gone apart (congrArg (List.erase · gone) steady.processes) steady.current
        steady.nextRef
    · apply listed_erase (steady.listed id listed) kernel
      rwa [steady.current]

/-- A process that exits always finds another one, at the latest the kernel task. -/
theorem exit_turn (listed : Listed k) (user : k.current ≠ kernelTask) :
    successor k k.current = Scheduler.findNextReady k k.current ∧
      Scheduler.findNextReady k k.current ≠ k.current ∧
      Turn k (Scheduler.findNextReady k k.current) := by
  have kernel : kernelTask ∈ behind k.processes k.current := by
    obtain ⟨rest, shape⟩ := listed.head
    apply (mem_behind listed.nodup listed.current).2
    exact ⟨by rw [shape]; exact List.mem_cons_self, Ne.symm user⟩
  rcases find_cases k k.current with ⟨passed, rest, shape, _, unready⟩ | ⟨_, unready⟩
  · have member : Scheduler.findNextReady k k.current ∈ behind k.processes k.current := by
      rw [show behind k.processes k.current = candidates k.processes k.current from rfl, shape]
      exact List.mem_append_right _ List.mem_cons_self
    have other := ((mem_behind listed.nodup listed.current).1 member).2
    exact ⟨if_neg other, other, passed, rest, shape, unready⟩
  · exact absurd (kernel_ready listed user) (unready kernelTask kernel)

/-- Whatever process has the PID of the one that exits, it is not the one to run next. -/
theorem gone_other (listed : Listed k) (user : k.current ≠ kernelTask) {gone : Ref}
    (found : get k (k.table k.current).pid = some gone) (kernel : gone ≠ kernelTask) :
    gone ≠ Scheduler.findNextReady k k.current := by
  obtain ⟨before, after, shape, absent, _, order⟩ := split_at listed.nodup listed.current
  by_cases self : gone = k.current
  · rw [self]
    exact (exit_turn listed user).2.1.symm
  -- another one with that PID stands before the current process
  have earlier : gone ∈ before := by
    unfold ProcessManager.get at found
    rw [shape, List.find?_append] at found
    cases first : before.find? fun r =>
        decide ((k.table r).pid = (k.table k.current).pid ∧ (k.table r).state ≠ .empty) with
    | some r =>
        rw [first] at found
        obtain rfl : r = gone := Option.some.inj found
        exact List.mem_of_find?_eq_some first
    | none =>
        have live := listed.live k.current listed.current
        rw [first, List.find?_cons_of_pos (by simpa using live)] at found
        exact absurd (Option.some.inj found).symm self
  obtain ⟨rest, head⟩ := listed.head
  obtain ⟨front, rfl⟩ : ∃ front, before = kernelTask :: front := by
    cases before with
    | nil => exact absurd earlier List.not_mem_nil
    | cons first front =>
        rw [head, List.cons_append, List.cons.injEq] at shape
        exact ⟨front, by rw [shape.1]⟩
  have nodup := listed.nodup
  rw [shape] at nodup
  have disjoint := (List.nodup_append.1 nodup).2.2
  unfold Scheduler.findNextReady
  rw [show candidates k.processes k.current = after ++ kernelTask :: front from order,
    List.find?_append]
  cases later : after.find? fun r => decide ((k.table r).state = .ready) with
  | some r =>
      intro same
      have member := List.mem_cons_of_mem k.current (List.mem_of_find?_eq_some later)
      exact disjoint gone earlier r member same
  | none =>
      rw [List.find?_cons_of_pos (by simpa using kernel_ready listed user)]
      exact kernel

theorem exit_current_eq (k : KernelState) : ∃ cr3, (exitCurrent k).1 =
    { (destroy k (k.table k.current).pid).modify (successor k k.current) setRunning with
      cr3 := cr3, current := successor k k.current, tickCount := 0 } := by
  unfold exitCurrent
  dsimp only
  split <;> exact ⟨_, rfl⟩

theorem listed_resume (listed : Listed k) (ready : (k.table kernelTask).state = .ready)
    {next : Ref} (member : next ∈ k.processes) (cr3 : Nat) :
    Listed { k.modify next setRunning with cr3 := cr3, current := next, tickCount := 0 } := by
  refine ⟨listed.head, listed.nodup, member, listed.created, ?_, ?_, ?_⟩
  · intro r inside
    change ((k.modify next setRunning).table r).state ≠ .empty
    rw [KernelState.table_modify]
    split
    · exact nofun
    · exact listed.live r inside
  · exact (k.modify_keeps next kernelTask setRunning Process.pid rfl).trans listed.kernelPid
  · by_cases chosen : next = kernelTask
    · right
      refine ⟨?_, chosen⟩
      change ((k.modify next setRunning).table kernelTask).state = .running
      rw [chosen, KernelState.table_modify_self]
      rfl
    · left
      change ((k.modify next setRunning).table kernelTask).state = .ready
      rw [KernelState.table_modify_of_ne _ _ _ _ (Ne.symm chosen)]
      exact ready

theorem exit_shape (listed : Listed k) (user : k.current ≠ kernelTask) :
    Shape k (exitCurrent k).1 ∧ Listed (exitCurrent k).1 := by
  obtain ⟨cr3, same⟩ := exit_current_eq k
  obtain ⟨next, other, turn⟩ := exit_turn listed user
  rw [same, next]
  rcases (Steady.waking fun _ => False).destroy k (k.table k.current).pid with
    ⟨kept, _⟩ | ⟨gone, k', nonzero, found, steady, destroyed⟩
  · rw [kept]
    constructor
    · exact .turns _ turn rfl rfl rfl
    · exact listed_resume listed (kernel_ready listed user) (find_mem listed) cr3
  · have kernel := gone_not_kernel listed nonzero found
    have apart := gone_other listed user found kernel
    have listed' := steady.listed id listed
    have member : Scheduler.findNextReady k k.current ∈ k'.processes := by
      rw [steady.processes]
      exact find_mem listed
    have resumed := listed_resume listed' (steady.ready id (kernel_ready listed user)) member cr3
    rw [destroyed]
    constructor
    · exact .exits _ gone turn apart (congrArg (List.erase · gone) steady.processes) rfl
        steady.nextRef
    · exact listed_erase resumed kernel apart

theorem call_shape (listed : Listed k) (user : k.current ≠ kernelTask) (esp : Nat) (call : Call) :
    Shape k (handleSyscall k esp call).1 ∧ Listed (handleSyscall k esp call).1 := by
  have caller : IsCurrent k k.current := rfl
  have blocking := Steady.blocking caller
  have returned : ∀ {k' : KernelState} (eax : Nat), Steady (IsCurrent k) k k' →
      Shape k (returnValue k' eax) ∧ Listed (returnValue k' eax) := by
    intro k' eax steady
    have whole := steady.trans (blocking.toWaking.returnValue k' eax)
    exact ⟨shape_of_steady whole, whole.listed (Ne.symm user) listed⟩
  cases call with
  | send targetPid msg dataPtr dataLen node =>
      have sent := blocking.send rfl targetPid msg dataPtr dataLen node
      rw [handle_send]
      exact answer_shape listed user sent esp _
  | receive msg dataPtr dataCapacity =>
      have received := Steady.receive caller msg dataPtr dataCapacity
      rw [handle_receive]
      split
      · exact returned 0 received
      · exact answer_shape listed user received esp _
  | reply targetPid msg dataPtr dataLen =>
      have replied : Steady (IsCurrent k) k (reply k targetPid msg dataPtr dataLen).1 :=
        blocking.toWaking.reply k targetPid msg dataPtr dataLen
      exact returned _ replied
  | notify targetPid msg dataPtr dataLen node data =>
      have notified : Steady (IsCurrent k) k (notify k targetPid msg dataPtr dataLen node data).1 :=
        blocking.toWaking.notify k targetPid msg dataPtr dataLen node data
      exact returned _ notified
  | irqRegister irq =>
      have registered : Steady (IsCurrent k) k
          (registerForward k (irq % 256) (k.table k.current).pid).1 := .registerForward k _ _
      exact returned _ registered
  | exec elfPtr elfSize loading => exact exec_shape listed elfPtr elfSize _ loading
  | waitpid pid =>
      have waits := blocking.waitpid rfl pid
      exact answer_shape listed user waits esp _
  | exit => exact exit_shape listed user

theorem irq_shape (listed : Listed k) (number esp : Nat) :
    Shape k (handleIrq k number esp).1 ∧ Listed (handleIrq k number esp).1 := by
  have handled : Shape k (runHandler k (lineOf number) esp).1 ∧
      Listed (runHandler k (lineOf number) esp).1 := by
    unfold runHandler
    split
    · have ticked : Steady (fun _ => False) k { k with ticks := u32 (k.ticks + 1) } :=
        .of_fields rfl rfl rfl rfl
      exact schedule_shape listed ticked esp
    · exact ⟨.stays rfl rfl rfl, listed⟩
  rw [handle_irq_forward]
  have forwarded : Steady (fun _ => False) (runHandler k (lineOf number) esp).1
    (forward (runHandler k (lineOf number) esp).1 (lineOf number)) := .forward _ _
  exact ⟨handled.1.steady forwarded, forwarded.listed id handled.2⟩

theorem step_shape (listed : Listed k) {action : Action} (next : step k action = some k') :
    Shape k k' ∧ Listed k' := by
  cases stepped next with
  | user bytes _ =>
      have ran : Steady (fun _ => False) k (runUser k bytes) := .of_fields rfl rfl rfl rfl
      exact ⟨shape_of_steady ran, ran.listed id listed⟩
  | irq number esp _ => exact irq_shape listed number esp
  | syscall esp call user _ => exact call_shape listed user esp call

theorem move_shape (listed : Listed k) {m : Move} (next : move k m = some k') :
    Shape k k' ∧ Listed k' := by
  cases m with
  | act action => exact step_shape listed next
  | destroy pid =>
      unfold move at next
      dsimp only at next
      split at next
      · cases next
      · next other =>
        cases next
        exact destroy_shape listed other

end Decisions

/-! ## Runs -/

/-- The processes in the order of their turns; `used` are the identities given out so far. -/
def roster (k : KernelState) : Roster Ref := ⟨k.processes, k.current, { r | r < k.nextRef }⟩

section Runs

variable {k k' : KernelState} {p q : Ref}

theorem waiting_of_waits (listed : Listed k) (waits : Waits p k) : Waiting p (roster k) :=
  ⟨⟨listed.nodup, listed.current, listed.created⟩, waits.member, waits.other⟩

theorem Turn.unpassed {next : Ref} (waits : Waits p k) (turn : Turn k next) :
    ∃ passed rest, behind k.processes k.current = passed ++ next :: rest ∧ p ∉ passed := by
  obtain ⟨passed, rest, shape, unready⟩ := turn
  exact ⟨passed, rest, shape, fun before => unready p before waits.ready⟩

/-- A move during which `p` waits is made of steps of the roster. -/
theorem roster_steps (listed : Listed k) (shape : Shape k k') (waits : Waits p k)
    (waits' : Waits p k') : Relation.ReflTransGen (Step p) (roster k) (roster k') := by
  have survives : ∀ {gone : Ref}, k'.processes = k.processes.erase gone → gone ≠ p := by
    intro gone processes same
    have member := waits'.member
    rw [processes, same] at member
    exact listed.nodup.not_mem_erase member
  have turned : ∀ {next : Ref}, Turn k next → k'.current = next →
      Step p (roster k) ⟨k.processes, next, { r | r < k.nextRef }⟩ := by
    intro next turn current
    obtain ⟨passed, rest, split, unpassed⟩ := turn.unpassed waits
    exact .turn split unpassed (current ▸ waits'.other)
  cases shape with
  | stays processes current nextRef =>
      have same : roster k' = roster k := by
        unfold roster
        rw [processes, current, nextRef]
      rw [same]
  | turns next turn processes current nextRef =>
      have reached : roster k' = ⟨k.processes, next, { r | r < k.nextRef }⟩ := by
        unfold roster
        rw [processes, current, nextRef]
      rw [reached]
      exact .single (turned turn current)
  | starts processes current nextRef =>
      have grown : { r | r < k.nextRef + 1 } = insert k.nextRef { r | r < k.nextRef } := by
        ext r
        simp only [Set.mem_insert_iff, Set.mem_ofPred_eq]
        omega
      have reached : roster k' =
          ⟨k.processes ++ [k.nextRef], k.current, insert k.nextRef { r | r < k.nextRef }⟩ := by
        unfold roster
        rw [processes, current, nextRef, grown]
      rw [reached]
      exact .single (.join (Nat.lt_irrefl k.nextRef))
  | ends gone other processes current nextRef =>
      have reached : roster k' =
          ⟨k.processes.erase gone, k.current, { r | r < k.nextRef }⟩ := by
        unfold roster
        rw [processes, current, nextRef]
      rw [reached]
      exact .single (.leave other (survives processes))
  | exits next gone turn other processes current nextRef =>
      have reached : roster k' =
          ⟨k.processes.erase gone, next, { r | r < k.nextRef }⟩ := by
        unfold roster
        rw [processes, current, nextRef]
      rw [reached]
      have moved := turned turn current
      exact (Relation.ReflTransGen.single moved).tail (.leave other (survives processes))

/-- While `p` waits, it is dispatched or a process ahead of it. -/
theorem dispatched_ahead (shape : Shape k k') (waits : Waits p k)
    (dispatched : Dispatched q k k') : q = p ∨ q ∈ ahead k.processes k.current p := by
  obtain ⟨other, here⟩ := dispatched
  have turned : ∀ next, Turn k next → next = p ∨ next ∈ ahead k.processes k.current p := by
    intro next turn
    obtain ⟨passed, rest, shape, unpassed⟩ := turn.unpassed waits
    by_cases own : next = p
    · exact .inl own
    · exact .inr (turn_mem_ahead shape unpassed own)
  cases shape with
  | stays processes current nextRef => exact absurd (current.symm.trans here) other
  | starts processes current nextRef => exact absurd (current.symm.trans here) other
  | ends gone apart processes current nextRef => exact absurd (current.symm.trans here) other
  | turns next turn processes current nextRef =>
      rw [← here, current]
      exact turned next turn
  | exits next gone turn apart processes current nextRef =>
      rw [← here, current]
      exact turned next turn

/-- `destroy` is an unlinking of the same process. -/
theorem unlinked_represents {list : LinkedList Ref} (represents : Represents list k.processes)
    (pid : Nat) :
    ∃ list', unlinked k list pid = some list' ∧ Represents list' (destroy k pid).processes := by
  unfold unlinked
  rcases (Steady.waking fun _ => False).destroy k pid with
    ⟨same, zero | missing⟩ | ⟨gone, k', nonzero, found, steady, same⟩
  · rw [if_pos zero, same]
    exact ⟨list, rfl, represents⟩
  · rw [missing, same]
    split <;> exact ⟨list, rfl, represents⟩
  · rw [if_neg nonzero, found, same]
    obtain ⟨list', removed, represents'⟩ := remove_represents represents (get_mem found).1
    have erased : Represents list' (k'.processes.erase gone) := by
      rw [steady.processes]
      exact represents'
    refine ⟨list', ?_, erased⟩
    dsimp only
    rw [removed]
    rfl

theorem processes_schedule (k : KernelState) (esp : Nat) :
    (schedule k esp).1.processes = k.processes := by
  rcases schedule_cases k esp with ⟨tickCount, same⟩ | switched
  · rw [same]
  · rw [switched]
    exact (switch_to_fields _ _ esp).1

theorem processes_answer (k : KernelState) (esp : Nat) (result : Int) :
    (blockOrReturn k esp result).1.processes = k.processes := by
  unfold blockOrReturn reschedule
  split
  · split
    · rfl
    · exact (switch_to_fields _ _ esp).1
  · rfl

/-- Interrupts and the calls that neither create nor end a process leave the list alone. -/
theorem processes_irq (k : KernelState) (number esp : Nat) :
    (handleIrq k number esp).1.processes = k.processes := by
  have forwarded : Steady (fun _ => False) (runHandler k (lineOf number) esp).1
    (forward (runHandler k (lineOf number) esp).1 (lineOf number)) := .forward _ _
  rw [handle_irq_forward, forwarded.processes]
  unfold runHandler
  split
  · exact processes_schedule _ esp
  · rfl

theorem processes_call (k : KernelState) (esp : Nat) {call : Call}
    (starts : ∀ elfPtr elfSize loading, call ≠ .exec elfPtr elfSize loading)
    (ends : call ≠ .exit) : (handleSyscall k esp call).1.processes = k.processes := by
  have caller : IsCurrent k k.current := rfl
  have blocking := Steady.blocking caller
  cases call with
  | send targetPid msg dataPtr dataLen node =>
      rw [handle_send, processes_answer]
      exact (blocking.send rfl targetPid msg dataPtr dataLen node).processes
  | receive msg dataPtr dataCapacity =>
      have received := Steady.receive caller msg dataPtr dataCapacity
      rw [handle_receive]
      split
      · exact received.processes
      · rw [processes_answer, received.processes]
  | reply targetPid msg dataPtr dataLen =>
      have replied : Steady (IsCurrent k) k _ :=
        blocking.toWaking.reply k targetPid msg dataPtr dataLen
      exact replied.processes
  | notify targetPid msg dataPtr dataLen node data =>
      have notified : Steady (IsCurrent k) k _ :=
        blocking.toWaking.notify k targetPid msg dataPtr dataLen node data
      exact notified.processes
  | irqRegister irq =>
      have registered : Steady (IsCurrent k) k _ :=
        .registerForward k (irq % 256) (k.table k.current).pid
      exact registered.processes
  | exec elfPtr elfSize loading => exact absurd rfl (starts elfPtr elfSize loading)
  | waitpid pid => exact (processes_answer _ esp _).trans (blocking.waitpid rfl pid).processes
  | exit => exact absurd rfl ends

/-- A program start that fails leaves `nextRef` alone; another one appends the new process. -/
theorem exec_relinks {list : LinkedList Ref} (listed : Listed k)
    (represents : Represents list k.processes) (elfPtr elfSize : Nat) (loading : Loading) :
    ∃ list', relink k list (.act (.syscall 0 (.exec elfPtr elfSize loading))) = some list' ∧
      Represents list' (exec k elfPtr elfSize loading).1.processes := by
  unfold relink
  dsimp only
  have outcome := exec_outcome k elfPtr elfSize loading
  generalize exec k elfPtr elfSize loading = answer at outcome
  cases outcome with
  | failed missing => exact ⟨list, if_pos rfl, represents⟩
  | child proc starts new =>
      refine ⟨list.pushBack k.nextRef, if_neg (Nat.succ_ne_self k.nextRef), ?_⟩
      exact push_back_represents represents fun old => (listed.created _ old).false

theorem relink_represents {list : LinkedList Ref} (listed : Listed k) {m : Move}
    (represents : Represents list k.processes) (next : move k m = some k') :
    ∃ list', relink k list m = some list' ∧ Represents list' k'.processes := by
  have kept : k'.processes = k.processes →
      ∃ list', some list = some list' ∧ Represents list' k'.processes := by
    intro same
    rw [same]
    exact ⟨list, rfl, represents⟩
  cases m with
  | destroy pid =>
      unfold move at next
      dsimp only at next
      split at next
      · cases next
      · cases next
        exact unlinked_represents represents pid
  | act action =>
      unfold move System.step at next
      cases action with
      | user bytes =>
          dsimp only at next
          split at next
          · cases next
            exact kept rfl
          · cases next
      | irq number esp =>
          dsimp only at next
          split at next
          · cases next
            exact kept (processes_irq k number esp)
          · cases next
      | syscall esp call =>
          dsimp only at next
          split at next
          · cases next
            cases call with
            | exec elfPtr elfSize loading =>
                exact exec_relinks listed represents elfPtr elfSize loading
            | exit =>
                obtain ⟨cr3, same⟩ := exit_current_eq k
                have processes : (exitCurrent k).1.processes =
                    (destroy k (k.table k.current).pid).processes := by rw [same]; rfl
                have gone := unlinked_represents represents (k.table k.current).pid
                rw [← processes] at gone
                exact gone
            | send _ _ _ _ _ => exact kept (processes_call k esp nofun nofun)
            | receive _ _ _ => exact kept (processes_call k esp nofun nofun)
            | reply _ _ _ _ => exact kept (processes_call k esp nofun nofun)
            | notify _ _ _ _ _ _ => exact kept (processes_call k esp nofun nofun)
            | irqRegister _ => exact kept (processes_call k esp nofun nofun)
            | waitpid _ => exact kept (processes_call k esp nofun nofun)
          · cases next

end Runs

section Histories

variable {n : Nat} {states : Nat → KernelState} {lists : Nat → LinkedList Ref} {moves : Nat → Move}

theorem history_at (history : History n states lists moves) {i : Nat} (inside : i ≤ n) :
    Listed (states i) ∧ Represents (lists i) (states i).processes := by
  induction i with
  | zero => exact ⟨history.listed, history.linked⟩
  | succ i ih =>
      obtain ⟨listed, linked⟩ := ih (Nat.le_of_succ_le inside)
      have moved := history.moved i inside
      refine ⟨(move_shape listed moved).2, ?_⟩
      obtain ⟨list, same, represents⟩ := relink_represents listed linked moved
      rw [history.relinked i inside] at same
      exact Option.some.inj same ▸ represents

theorem listed_bare (cr3 : Nat) (memory : Nat → Nat → UInt8) : Listed (bare cr3 memory) := by
  refine ⟨⟨[], rfl⟩, List.nodup_singleton _, List.mem_singleton_self _, ?_, ?_, rfl,
    .inr ⟨rfl, rfl⟩⟩
  · intro r member
    rw [List.mem_singleton.1 member]
    exact Nat.zero_lt_one
  · exact fun r _ => nofun

theorem listed_boot (cr3 : Nat) (memory : Nat → Nat → UInt8) (modules : List Loading) :
    Listed (boot cr3 memory modules) := by
  have loaded : ∀ k, Listed k → Listed (modules.foldl loadModule k) := by
    induction modules with
    | nil => exact fun k listed => listed
    | cons loading rest ih =>
        intro k listed
        apply ih
        rcases load_module_cases k loading with same | ⟨proc, new, started⟩
        · rwa [same]
        · rw [started]
          exact (started_shape listed new).2
  exact loaded _ (listed_bare cr3 memory)

/-- The search always ends at the first ready process, and while a process waits no other one
is dispatched twice, nor one that has run since. -/
theorem bounded_overtaking (history : History n states lists moves) :
    (∀ i, i ≤ n → Represents (lists i) (states i).processes ∧
        (states i).current ∈ (states i).processes) ∧
      (∀ list k current fuel, Represents list k.processes → current ∈ k.processes →
        k.processes.length ≤ fuel →
          findNextReady list k.table current fuel = some (Scheduler.findNextReady k current) ∧
            FirstReady k current (Scheduler.findNextReady k current)) ∧
      ∀ p i j, i ≤ j → j < n → (∀ l, i ≤ l → l ≤ j → Waits p (states l)) →
        ∀ q, Dispatched q (states j) (states (j + 1)) →
          (∀ l, i ≤ l → l ≤ j → (states l).current ≠ q) ∧
            ∀ l, i ≤ l → l < j → ¬ Dispatched q (states l) (states (l + 1)) := by
  refine ⟨?_, ?_, ?_⟩
  · intro i inside
    obtain ⟨listed, represents⟩ := history_at history inside
    exact ⟨represents, listed.current⟩
  · intro list k current fuel represents member enough
    exact ⟨find_next_ready_walk represents member enough, first_ready represents.nodup member⟩
  · intro p i j order inside waits q dispatched
    have notRun : ∀ l, i ≤ l → l ≤ j → (states l).current ≠ q := by
      intro l low high same
      have steps : ∀ m, l ≤ m → m < j →
          Relation.ReflTransGen (Step p) (roster (states m)) (roster (states (m + 1))) := by
        intro m from_l to_j
        have listed := (history_at history (by omega : m ≤ n)).1
        exact roster_steps listed (move_shape listed (history.moved m (by omega))).1
          (waits m (by omega) (by omega)) (waits (m + 1) (by omega) (by omega))
      have listed := (history_at history (by omega : l ≤ n)).1
      have start := waiting_of_waits listed (waits l low high)
      have past : Past p (roster (states l)).current (roster (states j)) :=
        (past_since start high steps).1
      have now := (history_at history inside.le).1
      rcases dispatched_ahead (move_shape now (history.moved j inside)).1
        (waits j order le_rfl) dispatched with own | before
      · exact (waits l low high).other (same.trans own)
      · subst same
        exact past.notAhead before
    refine ⟨notRun, ?_⟩
    intro l low high first
    exact notRun (l + 1) (by omega) high first.2

/-- The kernel task and three programs; the first of them runs. -/
def rotating : KernelState :=
  { bare 0x1000 (fun _ _ => 0) with
    table := fun r =>
      { freshProcess r 0xC0001000 0x1B 0x23 0x1000 with
        state := if r = 1 then .running else .ready }
    processes := [kernelTask, 1, 2, 3]
    current := 1
    nextPid := 4
    nextRef := 4
    timeSlice := 1 }

/-- A time slice ends, the second program exits, and another time slice ends. -/
def rotatingMoves : Nat → Move
  | 1 => .act (.syscall 0xC0000F00 .exit)
  | _ => .act (.irq 0x20 0xC0000F00)

def rotatingStates : Nat → KernelState
  | 0 => rotating
  | i + 1 => (move (rotatingStates i) (rotatingMoves i)).getD rotating

def rotatingLists : Nat → LinkedList Ref
  | 0 => ⟨some kernelTask, some 3, 4, fun r => if r < 3 then some (r + 1) else none⟩
  | i + 1 => (relink (rotatingStates i) (rotatingLists i) (rotatingMoves i)).getD
      (rotatingLists i)

theorem rotating_history : History 3 rotatingStates rotatingLists rotatingMoves where
  listed := by
    refine ⟨⟨[1, 2, 3], rfl⟩, by decide, by decide, by decide, by decide, rfl, .inl rfl⟩
  linked := ⟨⟨rfl, rfl, rfl, rfl, rfl⟩, rfl, rfl, by decide⟩
  moved i inside := by
    have possible : ∀ i, i < 3 →
        (move (rotatingStates i) (rotatingMoves i)).isSome = true := by
      decide +kernel
    obtain ⟨next, moved⟩ := Option.isSome_iff_exists.1 (possible i inside)
    have follows : rotatingStates (i + 1) =
        (move (rotatingStates i) (rotatingMoves i)).getD rotating := rfl
    rw [follows, moved, Option.getD_some]
  relinked i inside := by
    have possible : ∀ i, i < 3 →
        (relink (rotatingStates i) (rotatingLists i) (rotatingMoves i)).isSome = true := by
      decide +kernel
    obtain ⟨next, relinked⟩ := Option.isSome_iff_exists.1 (possible i inside)
    have follows : rotatingLists (i + 1) =
        (relink (rotatingStates i) (rotatingLists i) (rotatingMoves i)).getD
          (rotatingLists i) := rfl
    rw [follows, relinked, Option.getD_some]

/-- While the kernel task waits, the third program has its first turn. -/
theorem third_program_first_turn :
    findNextReady (rotatingLists 0) rotating.table 1 4 = some 2 ∧
      ∀ l, 0 ≤ l → l ≤ 1 → (rotatingStates l).current ≠ 3 := by
  obtain ⟨_, search, turns⟩ := bounded_overtaking rotating_history
  constructor
  · exact (search (rotatingLists 0) rotating 1 4 rotating_history.linked (by decide)
      (by decide)).1
  · refine (turns 0 0 1 (by decide) (by decide) ?_ 3 ?_).1
    · intro l _ high
      have all : ∀ l, l < 2 → kernelTask ∈ (rotatingStates l).processes ∧
          ((rotatingStates l).table 0).state = .ready ∧ (rotatingStates l).current ≠ 0 := by
        decide +kernel
      obtain ⟨member, ready, other⟩ := all l (Nat.lt_succ_of_le high)
      exact ⟨member, ready, other⟩
    · exact ⟨by decide +kernel, by decide +kernel⟩

end Histories

end CassiOS.Kernel.RoundRobin
