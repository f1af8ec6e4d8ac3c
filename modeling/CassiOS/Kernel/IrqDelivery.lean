import CassiOS.Kernel.CallEffects
import CassiOS.Support.Latch

/-!
# Interrupts for a process

While a line stays registered to one process, the line's pending flag and the process that
waits for a message make up a latched signal: an interrupt is delivered at once or kept for
the process's next `receive`.
-/

namespace CassiOS.Kernel.IrqDelivery

open CassiOS.Support.Words
open CassiOS.Support.Latch (Signal Label)
open CassiOS.Kernel.State
open CassiOS.Kernel.ProcessManager
open CassiOS.Kernel.Scheduler
open CassiOS.Kernel.Irq
open CassiOS.Kernel.Syscall
open CassiOS.Kernel.System
open CassiOS.Kernel.Invariant
open CassiOS.Kernel.Outcomes
open CassiOS.Kernel.CallEffects

set_option autoImplicit false

section Specification

/-- Line `irq` is registered to the live process `p`, and no other process has its PID. -/
structure RegisteredTo (irq : Nat) (p : Ref) (k : KernelState) : Prop where
  line : irq < irqLines
  pid : k.forwardPid irq = (k.table p).pid
  nonzero : (k.table p).pid ≠ 0
  member : p ∈ k.processes
  live : (k.table p).state ≠ .empty
  unique : ∀ r ∈ k.processes, (k.table r).pid = (k.table p).pid → r = p
  caller : (k.table k.current).pid = (k.table p).pid → k.current = p
  created : p ≠ k.nextRef
  idle : k.current = p → ∃ r ∈ k.processes, r ≠ p ∧ (k.table r).state = .ready

/-- The action is an interrupt of line `irq`. -/
def Interrupts (irq : Nat) : Action → Prop
  | .irq number _ => lineOf number = irq
  | _ => False

/-- The handler finds `p` waiting and writes the notification to its buffer. -/
def DeliversDirectly (irq : Nat) (p : Ref) (k : KernelState) : Action → Prop
  | .irq number esp =>
      lineOf number = irq ∧ ((runHandler k irq esp).1.table p).state = .receiveBlocked
  | _ => False

/-- The line is the first one that is pending for `p`, which calls `receive`. -/
def DeliversPending (irq : Nat) (p : Ref) (k : KernelState) : Action → Prop
  | .syscall _ (.receive _ _ _) =>
      k.current = p ∧ (List.range irqLines).find? (pendingFor k (k.table p).pid) = some irq
  | _ => False

/-- A notification of line `irq` reaches `p`. -/
def Delivers (irq : Nat) (p : Ref) (k : KernelState) (action : Action) : Prop :=
  DeliversDirectly irq p k action ∨ DeliversPending irq p k action

/-- The buffer of the `receive` call that gets a notification, and its address space. -/
def buffer (p : Ref) (k : KernelState) : Action → Nat × Nat
  | .irq number esp =>
      let handled := (runHandler k (lineOf number) esp).1
      (spaceOf handled p, (handled.table p).msgPtr)
  | .syscall _ (.receive msg _ _) => (k.cr3, msg)
  | _ => (0, 0)

/-- The notification was written to a buffer of `p`, whose `receive` returns 0. -/
structure Notified (irq : Nat) (p : Ref) (place : Nat × Nat) (k k' : KernelState) : Prop where
  message : k'.memory = writeBytes k.memory place.1 place.2 24 (messageBytes (irqMessage irq))
  result : (k'.table p).frameEax = 0

/-- The call hands a message of its caller to a process that waits for one. -/
def HandsOver : Action → Prop
  | .syscall _ (.send _ _ _ _ _) => True
  | .syscall _ (.notify _ _ _ _ _ _) => True
  | _ => False

/-- `p` returns from `receive` and no message of a process was handed to it: it waited and is
woken, or calls `receive` and nothing leaves its queues. -/
inductive Hears (p : Ref) (k k' : KernelState) : Action → Prop
  | woken (action : Action) (waited : (k.table p).state = .receiveBlocked)
      (ready : (k'.table p).state = .ready) (kernel : ¬ HandsOver action) : Hears p k k' action
  | returned (esp msg dataPtr dataCapacity : Nat) (caller : k.current = p)
      (returns : (k'.table p).state ≠ .receiveBlocked)
      (notifications : (k'.table p).notifyQueue = (k.table p).notifyQueue)
      (senders : (k'.table p).sendQueue = (k.table p).sendQueue) :
      Hears p k k' (.syscall esp (.receive msg dataPtr dataCapacity))

def HoldsAt (k : KernelState) (place : Nat × Nat) (words : Message) : Prop :=
  place.2 < 4294967296 ∧ ∀ i : Fin 24, k.memory place.1 (u32 (place.2 + i)) = words i

/-- Some steps during which line `irq` stays registered to `p`; at first it is not pending. -/
structure History (irq : Nat) (p : Ref) (n : Nat) (states : Nat → KernelState)
    (actions : Nat → Action) : Prop where
  step : ∀ i, i < n → step (states i) (actions i) = some (states (i + 1))
  registered : ∀ i, i ≤ n → RegisteredTo irq p (states i)
  clear : (states 0).pendingIrq irq = false

end Specification

/-- Nothing is said to `p` about line `irq`, and `p` does not begin to wait. -/
structure Calm (irq : Nat) (p : Ref) (k k' : KernelState) : Prop where
  pending : k'.pendingIrq irq = k.pendingIrq irq
  waiting : (k'.table p).state = .receiveBlocked → (k.table p).state = .receiveBlocked

namespace Calm

variable {irq : Nat} {p : Ref} {k k' k'' : KernelState}

theorem refl (k : KernelState) : Calm irq p k k := ⟨rfl, id⟩

theorem trans (first : Calm irq p k k') (second : Calm irq p k' k'') : Calm irq p k k'' :=
  ⟨second.pending.trans first.pending, fun waits => first.waiting (second.waiting waits)⟩

theorem of_fields (pending : k'.pendingIrq = k.pendingIrq) (table : k'.table = k.table) :
    Calm irq p k k' := by
  constructor
  · rw [pending]
  · rw [table]
    exact id

theorem modify (r : Ref) (f : Process → Process)
    (waits : ∀ q : Process, (f q).state = .receiveBlocked → q.state = .receiveBlocked) :
    Calm irq p k (k.modify r f) := by
  refine ⟨rfl, ?_⟩
  rw [KernelState.table_modify]
  split
  · exact waits _
  · exact id

theorem waking (irq : Nat) (p : Ref) : Waking (Calm irq p) where
  refl := refl
  trans := trans
  fields := fun table _ _ _ pending => of_fields pending table
  keep := by
    intro k r f _ state
    exact modify r f fun q waits => (state q).symm.trans waits
  wake := by
    intro k table woken
    refine ⟨rfl, ?_⟩
    rcases woken p with same | ⟨_, _, ready⟩
    · exact fun waits => (congrArg Process.state same).symm.trans waits
    · exact fun waits => absurd (ready.symm.trans waits) (by decide)

theorem blocking (irq : Nat) (p caller : Ref) : Blocking caller (Calm irq p) where
  toWaking := waking irq p
  block := by
    intro k f _ blocks
    apply modify
    intro q waits
    rcases blocks q with sends | exits
    · exact absurd (sends.symm.trans waits) (by decide)
    · exact absurd (exits.symm.trans waits) (by decide)

theorem returnValue (k : KernelState) (eax : Nat) : Calm irq p k (Syscall.returnValue k eax) :=
  (waking irq p).returnValue k eax

theorem switchTo (k : KernelState) (next current : Ref) (esp : Nat) :
    Calm irq p k (Scheduler.switchTo k next current esp).1 := by
  obtain ⟨cr3, same⟩ := switch_to_eq k next current esp
  refine ⟨by rw [same], ?_⟩
  obtain ⟨sp, state, record, unchanged⟩ := @record_switch_to k next current esp p
  rw [record]
  rcases unchanged with running | kept
  · exact fun waits => absurd (running.symm.trans waits) (by decide)
  · exact fun waits => kept.symm.trans waits

theorem reschedule (k : KernelState) (esp : Nat) :
    Calm irq p k (Scheduler.reschedule k esp).1 := by
  unfold Scheduler.reschedule
  split
  · exact .refl k
  · have reset : Calm irq p k { k with tickCount := 0 } := of_fields rfl rfl
    exact reset.trans (switchTo _ _ _ esp)

theorem schedule (k : KernelState) (esp : Nat) : Calm irq p k (Scheduler.schedule k esp).1 := by
  rcases schedule_cases k esp with ⟨tickCount, same⟩ | switched
  · rw [same]
    exact .of_fields rfl rfl
  · rw [switched]
    have demoted : Calm irq p { k with tickCount := 0 }
        ({ k with tickCount := 0 }.modify k.current demote) := by
      apply modify
      intro q
      unfold demote
      split
      · exact nofun
      · exact id
    have reset : Calm irq p k { k with tickCount := 0 } := of_fields rfl rfl
    exact (reset.trans demoted).trans (switchTo _ _ _ esp)

theorem runHandler (k : KernelState) (line esp : Nat) :
    Calm irq p k (Irq.runHandler k line esp).1 := by
  unfold Irq.runHandler
  split
  · have ticked : Calm irq p k { k with ticks := u32 (k.ticks + 1) } := of_fields rfl rfl
    exact ticked.trans (schedule _ esp)
  · exact .refl k

theorem blockOrReturn (k : KernelState) (esp : Nat) (result : Int) :
    Calm irq p k (Syscall.blockOrReturn k esp result).1 := by
  unfold Syscall.blockOrReturn
  split
  · exact reschedule k esp
  · exact returnValue k _

theorem started (k : KernelState) {proc : Process} (new : IsNew k proc) :
    Calm irq p k (Outcomes.started k proc) := by
  refine ⟨rfl, ?_⟩
  unfold Outcomes.started
  dsimp only
  split
  · exact fun waits => absurd (new.state.symm.trans waits) (by decide)
  · exact id

theorem exec (k : KernelState) (elfPtr elfSize : Nat) (loading : Loading) :
    Calm irq p k (Syscall.exec k elfPtr elfSize loading).1 := by
  have outcome := exec_outcome k elfPtr elfSize loading
  generalize Syscall.exec k elfPtr elfSize loading = answer at outcome
  cases outcome with
  | failed missing => exact .refl k
  | child proc starts new => exact started k new

theorem destroy (k : KernelState) (pid : Nat) : Calm irq p k (ProcessManager.destroy k pid) := by
  rcases (waking irq p).destroy k pid with ⟨same, _⟩ | ⟨gone, k', _, _, calm, same⟩
  · rw [same]
    exact .refl k
  · rw [same]
    exact calm.trans (.of_fields rfl rfl)

theorem exitCurrent (k : KernelState) : Calm irq p k (Scheduler.exitCurrent k).1 := by
  have gone : Calm irq p k ((ProcessManager.destroy k (k.table k.current).pid).modify
      (successor k k.current) setRunning) :=
    (destroy k _).trans (modify _ setRunning nofun)
  unfold Scheduler.exitCurrent
  dsimp only
  split
  · exact gone.trans (.of_fields rfl rfl)
  · exact gone.trans (.of_fields rfl rfl)

theorem step (calm : Calm irq p k k') :
    Support.Latch.Step ⟨k.pendingIrq irq, decide ((k.table p).state = .receiveBlocked)⟩ .other
      ⟨k'.pendingIrq irq, decide ((k'.table p).state = .receiveBlocked)⟩ := by
  rw [calm.pending]
  apply Support.Latch.Step.other
  rw [decide_eq_true_eq, decide_eq_true_eq]
  exact fun waits => .inl (calm.waiting waits)

end Calm

section Steps

variable {irq : Nat} {p : Ref} {k k' : KernelState}

theorem receive_scan (k : KernelState) (msg dataPtr dataCapacity : Nat) :
    (∃ line, (List.range irqLines).find? (pendingFor k (k.table k.current).pid) = some line ∧
        receive k msg dataPtr dataCapacity =
          (writeMessage (setPending (k.modify k.current (receiveBuffer dataPtr dataCapacity)) line
            false) msg (irqMessage line), -2)) ∨
      ((List.range irqLines).find? (pendingFor k (k.table k.current).pid) = none ∧
        (receive k msg dataPtr dataCapacity).1.pendingIrq = k.pendingIrq ∧
        ∀ r, r ≠ k.current → (receive k msg dataPtr dataCapacity).1.table r = k.table r) := by
  let asked := k.modify k.current (receiveBuffer dataPtr dataCapacity)
  have others : ∀ r, r ≠ k.current → asked.table r = k.table r :=
    fun r => KernelState.table_modify_of_ne k _ r _
  unfold receive deliverPending
  simp only [KernelState.table_modify_self]
  rw [show pendingFor (k.modify k.current (receiveBuffer dataPtr dataCapacity))
    (receiveBuffer dataPtr dataCapacity (k.table k.current)).pid =
      pendingFor k (k.table k.current).pid from rfl]
  cases (List.range irqLines).find? (pendingFor k (k.table k.current).pid) with
  | some line => exact .inl ⟨line, rfl, rfl⟩
  | none =>
      refine .inr ⟨rfl, ?_⟩
      dsimp only
      split
      · next node popped _ =>
        obtain ⟨memory, same⟩ := receive_notified_eq asked msg dataPtr dataCapacity node popped
        rw [same]
        refine ⟨rfl, ?_⟩
        intro r other
        exact (KernelState.table_modify_of_ne asked _ r (fun _ => popped) other).trans
          (others r other)
      · split
        · obtain ⟨table, _, pending⟩ := table_receive_queued asked msg dataPtr dataCapacity
          rw [table, pending]
          refine ⟨rfl, ?_⟩
          intro r other
          exact (KernelState.table_modify_of_ne asked _ r _ other).trans (others r other)
        · refine ⟨rfl, ?_⟩
          intro r other
          exact (KernelState.table_modify_of_ne asked _ r _ other).trans (others r other)

def signal (irq : Nat) (p : Ref) (k : KernelState) : Signal :=
  ⟨k.pendingIrq irq, decide ((k.table p).state = .receiveBlocked)⟩

def label (irq : Nat) (p : Ref) (k : KernelState) : Action → Label
  | .irq number esp =>
      if lineOf number = irq then
        if ((runHandler k irq esp).1.table p).state = .receiveBlocked then .direct else .flagged
      else .other
  | .syscall _ (.receive _ _ _) =>
      if k.current = p ∧
          (List.range irqLines).find? (pendingFor k (k.table p).pid) = some irq then .taken
      else .other
  | _ => .other

theorem label_irq (number esp : Nat) :
    label irq p k (.irq number esp) =
      if lineOf number = irq then
        if ((runHandler k irq esp).1.table p).state = .receiveBlocked then .direct else .flagged
      else .other := rfl

theorem label_receive (esp msg dataPtr dataCapacity : Nat) :
    label irq p k (.syscall esp (.receive msg dataPtr dataCapacity)) =
      if k.current = p ∧
          (List.range irqLines).find? (pendingFor k (k.table p).pid) = some irq then .taken
      else .other := rfl

theorem label_direct {action : Action} :
    label irq p k action = .direct ↔ DeliversDirectly irq p k action := by
  cases action with
  | user bytes => exact iff_of_false nofun id
  | syscall esp call =>
      cases call with
      | receive msg dataPtr dataCapacity =>
          rw [label_receive]
          split
          · exact iff_of_false nofun id
          · exact iff_of_false nofun id
      | _ => exact iff_of_false nofun id
  | irq number esp =>
      rw [label_irq]
      split
      · next same =>
        split
        · next waits => exact iff_of_true rfl ⟨same, waits⟩
        · next busy => exact iff_of_false nofun fun both => busy both.2
      · next other => exact iff_of_false nofun fun both => other both.1

theorem label_taken {action : Action} :
    label irq p k action = .taken ↔ DeliversPending irq p k action := by
  cases action with
  | user bytes => exact iff_of_false nofun id
  | syscall esp call =>
      cases call with
      | receive msg dataPtr dataCapacity =>
          rw [label_receive]
          split
          · next first => exact iff_of_true rfl first
          · next other => exact iff_of_false nofun other
      | _ => exact iff_of_false nofun id
  | irq number esp =>
      rw [label_irq]
      split
      · split
        · exact iff_of_false nofun id
        · exact iff_of_false nofun id
      · exact iff_of_false nofun id

theorem label_raised {action : Action} :
    Support.Latch.Raised (label irq p k action) ↔ Interrupts irq action := by
  unfold Support.Latch.Raised
  cases action with
  | user bytes => exact iff_of_false nofun id
  | syscall esp call =>
      cases call with
      | receive msg dataPtr dataCapacity =>
          rw [label_receive]
          split
          · exact iff_of_false nofun id
          · exact iff_of_false nofun id
      | _ => exact iff_of_false nofun id
  | irq number esp =>
      rw [label_irq]
      split
      · next same =>
        split
        · exact iff_of_true (.inl rfl) same
        · exact iff_of_true (.inr rfl) same
      · next other => exact iff_of_false nofun other

theorem label_heard {action : Action} :
    Support.Latch.Heard (label irq p k action) ↔ Delivers irq p k action :=
  or_congr label_direct label_taken

theorem handler_fields (k : KernelState) (line esp : Nat) :
    (runHandler k line esp).1.processes = k.processes ∧
      (runHandler k line esp).1.forwardPid = k.forwardPid ∧
      (runHandler k line esp).1.memory = k.memory ∧
      ∀ r, ∃ sp state, (runHandler k line esp).1.table r =
          { k.table r with esp := sp, state := state } ∧
        (state = .running ∨ state = .ready ∨ state = (k.table r).state) := by
  unfold runHandler
  split
  · let ticked := { k with ticks := u32 (k.ticks + 1) }
    have fields : (schedule ticked esp).1.processes = k.processes ∧
        (schedule ticked esp).1.forwardPid = k.forwardPid ∧
        (schedule ticked esp).1.memory = k.memory := by
      rcases schedule_cases ticked esp with ⟨tickCount, same⟩ | switched
      · rw [same]
        exact ⟨rfl, rfl, rfl⟩
      · obtain ⟨cr3, same⟩ := switch_to_eq ({ ticked with tickCount := 0 }.modify ticked.current
          demote) (findNextReady (ticked.modify ticked.current demote) ticked.current)
            ticked.current esp
        rw [switched, same]
        exact ⟨rfl, rfl, rfl⟩
    exact ⟨fields.1, fields.2.1, fields.2.2, record_schedule ticked esp⟩
  · exact ⟨rfl, rfl, rfl, fun r => ⟨_, _, rfl, .inr (.inr rfl)⟩⟩

/-- The process a line is registered to is found, also after its in-kernel handler has run. -/
theorem get_registered (registered : RegisteredTo irq p k) (line esp : Nat) :
    let handled := (runHandler k line esp).1
    ProcessManager.get handled (handled.forwardPid irq) = some p := by
  intro handled
  obtain ⟨processes, forwardPid, _, records⟩ := handler_fields k line esp
  have pid : ∀ r, (handled.table r).pid = (k.table r).pid := by
    intro r
    obtain ⟨sp, state, record, _⟩ := records r
    rw [show handled.table r = _ from record]
  have live : (handled.table p).state ≠ .empty := by
    obtain ⟨sp, state, record, changed⟩ := records p
    rw [show handled.table p = _ from record]
    rcases changed with running | ready | same
    · exact fun empty => absurd (running.symm.trans empty) (by decide)
    · exact fun empty => absurd (ready.symm.trans empty) (by decide)
    · exact fun empty => registered.live (same.symm.trans empty)
  rw [show handled.forwardPid = k.forwardPid from forwardPid, registered.pid]
  unfold ProcessManager.get
  rw [show handled.processes = k.processes from processes]
  cases found : k.processes.find?
      (fun r => (handled.table r).pid = (k.table p).pid ∧ (handled.table r).state ≠ .empty) with
  | none =>
      have missed := List.find?_eq_none.1 found p registered.member
      exact absurd (decide_eq_true ⟨pid p, live⟩) missed
  | some r =>
      have selected := List.find?_some found
      simp only [decide_eq_true_eq] at selected
      rw [registered.unique r (List.mem_of_find?_eq_some found) ((pid r).symm.trans selected.1)]

/-- An interrupt of the line is delivered to a waiting process and kept for another. -/
theorem step_interrupt (registered : RegisteredTo irq p k) (esp : Nat) :
    Support.Latch.Step (signal irq p k)
      (if ((runHandler k irq esp).1.table p).state = .receiveBlocked then .direct else .flagged)
      (signal irq p (forward (runHandler k irq esp).1 irq)) := by
  have calm : Calm irq p k (runHandler k irq esp).1 := Calm.runHandler k irq esp
  have found := get_registered registered irq esp
  dsimp only at found
  have registration : irq < irqLines ∧ (runHandler k irq esp).1.forwardPid irq ≠ 0 := by
    rw [(handler_fields k irq esp).2.1, registered.pid]
    exact ⟨registered.line, registered.nonzero⟩
  unfold forward
  rw [if_pos registration, found]
  dsimp only
  unfold signal
  split
  · next waits =>
    rw [decide_eq_true (calm.waiting waits), KernelState.table_modify_self]
    have kept : ((copyMessageToProcess (runHandler k irq esp).1 p
        ((runHandler k irq esp).1.table p).msgPtr (irqMessage irq)).modify p fun q =>
          { q with frameEax := 0, state := .ready }).pendingIrq irq = k.pendingIrq irq :=
      calm.pending
    rw [kept]
    exact .direct _
  · next busy =>
    have pending : (setPending (runHandler k irq esp).1 irq true).pendingIrq irq = true := if_pos rfl
    have same : (setPending (runHandler k irq esp).1 irq true).table p =
        (runHandler k irq esp).1.table p := rfl
    rw [pending, same, decide_eq_false busy]
    exact .flagged _ _

/-- Interrupts of other lines tell the process nothing about this one. -/
theorem calm_forward (k : KernelState) {line : Nat} (other : line ≠ irq) :
    Calm irq p k (forward k line) := by
  unfold forward
  split
  · split
    · exact .refl k
    · next target _ =>
      dsimp only
      split
      · have written : Calm irq p k (copyMessageToProcess k target (k.table target).msgPtr
            (irqMessage line)) := .of_fields rfl rfl
        exact written.trans (.modify target _ nofun)
      · exact ⟨if_neg other.symm, id⟩
  · exact .refl k

/-- After `receive` the answer is stored, or another process runs. -/
theorem calm_answer (k : KernelState) (esp msg dataPtr dataCapacity : Nat) :
    Calm irq p (receive k msg dataPtr dataCapacity).1
      (handleSyscall k esp (.receive msg dataPtr dataCapacity)).1 := by
  unfold handleSyscall
  dsimp only
  split
  · exact .returnValue _ 0
  · exact .blockOrReturn _ esp _

theorem pending_found {line pid : Nat}
    (found : (List.range irqLines).find? (pendingFor k pid) = some line) :
    k.forwardPid line = pid ∧ k.pendingIrq line = true := by
  have selected := List.find?_some found
  simp only [pendingFor, Bool.and_eq_true, decide_eq_true_eq] at selected
  exact selected

/-- Another process takes none of this line's interrupts. -/
theorem calm_receive (registered : RegisteredTo irq p k) (other : k.current ≠ p)
    (msg dataPtr dataCapacity : Nat) : Calm irq p k (receive k msg dataPtr dataCapacity).1 := by
  have different : (k.table k.current).pid ≠ (k.table p).pid := fun same =>
    other (registered.caller same)
  rcases receive_scan k msg dataPtr dataCapacity with ⟨line, found, run⟩ | ⟨_, pending, others⟩
  · rw [run]
    have elsewhere : irq ≠ line := by
      rintro rfl
      exact different ((pending_found found).1.symm.trans registered.pid)
    have asked : Calm irq p k (k.modify k.current (receiveBuffer dataPtr dataCapacity)) :=
      .modify _ _ fun _ => id
    exact asked.trans ⟨if_neg elsewhere, id⟩
  · refine ⟨by rw [pending], ?_⟩
    rw [others p other.symm]
    exact id

/-- The process itself takes the interrupt when its line is the first one pending. -/
theorem step_receive (registered : RegisteredTo irq p k) (current : k.current = p)
    (esp msg dataPtr dataCapacity : Nat) :
    Support.Latch.Step (signal irq p k)
      (label irq p k (.syscall esp (.receive msg dataPtr dataCapacity)))
      (signal irq p (handleSyscall k esp (.receive msg dataPtr dataCapacity)).1) := by
  have answer : Calm irq p (receive k msg dataPtr dataCapacity).1
      (handleSyscall k esp (.receive msg dataPtr dataCapacity)).1 :=
    calm_answer k esp msg dataPtr dataCapacity
  rw [label_receive]
  rcases receive_scan k msg dataPtr dataCapacity with ⟨line, found, run⟩ | ⟨none, pending, _⟩
  · rw [run] at answer
    rw [current] at found answer
    by_cases same : line = irq
    · subst same
      rw [if_pos ⟨current, found⟩]
      have taken := answer.pending.trans (if_pos rfl)
      unfold signal
      rw [(pending_found found).2, taken]
      exact .taken _ _
    · rw [if_neg fun both => same (Option.some.inj (found.symm.trans both.2))]
      have asked : Calm irq p k (k.modify p (receiveBuffer dataPtr dataCapacity)) :=
        .modify _ _ fun _ => id
      have scanned : Calm irq p (k.modify p (receiveBuffer dataPtr dataCapacity))
          (writeMessage (setPending (k.modify p (receiveBuffer dataPtr dataCapacity)) line false)
            msg (irqMessage line)) := ⟨if_neg (Ne.symm same), id⟩
      exact ((asked.trans scanned).trans answer).step
  · rw [current] at none
    rw [if_neg fun both => Option.some_ne_none _ (both.2.symm.trans none)]
    have missed := List.find?_eq_none.1 none irq (List.mem_range.2 registered.line)
    have down : k.pendingIrq irq = false := by
      rw [pendingFor, registered.pid, decide_eq_true rfl, Bool.true_and, Bool.not_eq_true] at missed
      exact missed
    unfold signal
    rw [answer.pending, pending, down]
    exact .other _ _ _ fun _ => .inr rfl

theorem calm_register_forward (k : KernelState) (line pid : Nat) :
    Calm irq p k (registerForward k line pid).1 := by
  unfold registerForward
  split
  · exact .refl k
  · exact .of_fields rfl rfl

theorem call_signal (registered : RegisteredTo irq p k) (esp : Nat) (call : Call) :
    Support.Latch.Step (signal irq p k) (label irq p k (.syscall esp call))
      (signal irq p (handleSyscall k esp call).1) := by
  cases call with
  | receive msg dataPtr dataCapacity =>
      by_cases current : k.current = p
      · exact step_receive registered current esp msg dataPtr dataCapacity
      · rw [label_receive, if_neg fun both => current both.1]
        exact ((calm_receive registered current msg dataPtr dataCapacity).trans
          (calm_answer k esp msg dataPtr dataCapacity)).step
  | send targetPid msg dataPtr dataLen node =>
      have sent : Calm irq p k (send k targetPid msg dataPtr dataLen node).1 :=
        (Calm.blocking irq p _).send rfl targetPid msg dataPtr dataLen node
      exact (sent.trans (.blockOrReturn _ esp _)).step
  | reply targetPid msg dataPtr dataLen =>
      have replied : Calm irq p k (reply k targetPid msg dataPtr dataLen).1 :=
        (Calm.waking irq p).reply k targetPid msg dataPtr dataLen
      exact (replied.trans (.returnValue _ _)).step
  | notify targetPid msg dataPtr dataLen node data =>
      have notified : Calm irq p k (notify k targetPid msg dataPtr dataLen node data).1 :=
        (Calm.waking irq p).notify k targetPid msg dataPtr dataLen node data
      exact (notified.trans (.returnValue _ _)).step
  | irqRegister line =>
      exact ((calm_register_forward k _ _).trans (Calm.returnValue _ _)).step
  | exec elfPtr elfSize loading =>
      exact ((Calm.exec k elfPtr elfSize loading).trans (Calm.returnValue _ _)).step
  | waitpid pid =>
      have waited : Calm irq p k (waitpid k pid).1 :=
        (Calm.blocking irq p _).waitpid rfl pid
      exact (waited.trans (.blockOrReturn _ esp _)).step
  | exit => exact (Calm.exitCurrent k).step

theorem step_signal {action : Action} (registered : RegisteredTo irq p k)
    (next : step k action = some k') :
    Support.Latch.Step (signal irq p k) (label irq p k action) (signal irq p k') := by
  cases stepped next with
  | user bytes _ => exact Calm.step (.of_fields rfl rfl)
  | irq number esp _ =>
      rw [label_irq]
      split
      · next same =>
        rw [same]
        exact step_interrupt registered esp
      · next other =>
        exact ((Calm.runHandler k _ esp).trans (calm_forward _ other)).step
  | syscall esp call _ _ => exact call_signal registered esp call

theorem notified_of_delivers {action : Action} (registered : RegisteredTo irq p k)
    (next : step k action = some k') (delivers : Delivers irq p k action) :
    Notified irq p (buffer p k action) k k' := by
  cases stepped next with
  | user bytes _ => rcases delivers with impossible | impossible <;> exact impossible.elim
  | irq number esp _ =>
      obtain ⟨rfl, waits⟩ := delivers.resolve_right id
      have found := get_registered registered (lineOf number) esp
      dsimp only at found
      have registration : lineOf number < irqLines ∧
          (runHandler k (lineOf number) esp).1.forwardPid (lineOf number) ≠ 0 := by
        rw [(handler_fields k _ esp).2.1, registered.pid]
        exact ⟨registered.line, registered.nonzero⟩
      unfold forward
      rw [if_pos registration, found]
      dsimp only
      rw [if_pos waits]
      constructor
      · have memory := (handler_fields k (lineOf number) esp).2.2.1
        unfold buffer copyMessageToProcess KernelState.modify
        dsimp only
        rw [memory]
      · rw [KernelState.table_modify_self]
  | syscall esp call _ _ =>
      rcases delivers with impossible | pending
      · exact impossible.elim
      · cases call with
        | receive msg dataPtr dataCapacity =>
            obtain ⟨current, first⟩ := pending
            rcases receive_scan k msg dataPtr dataCapacity with
              ⟨line, found, run⟩ | ⟨none, _, _⟩
            · rw [current] at found
              obtain rfl : irq = line := Option.some.inj (first.symm.trans found)
              rw [handle_receive, run, if_pos (.inl rfl)]
              refine ⟨rfl, ?_⟩
              apply frame_eax_return_value
              exact current
            · rw [current] at none
              exact absurd (first.symm.trans none) (Option.some_ne_none _)
        | _ => exact pending.elim

end Steps

section Converse

variable {irq : Nat} {p : Ref} {k k' : KernelState}

theorem record_block_or_return (k : KernelState) (esp : Nat) (result : Int) (r : Ref) :
    ∃ sp state eax, (blockOrReturn k esp result).1.table r =
      { k.table r with esp := sp, state := state, frameEax := eax } ∧
        (state = .running ∨ state = (k.table r).state) := by
  unfold blockOrReturn
  split
  · obtain ⟨sp, state, record, changed⟩ := record_reschedule k esp r
    exact ⟨sp, state, _, record, changed⟩
  · unfold returnValue
    rw [KernelState.table_modify]
    split
    · exact ⟨_, _, _, rfl, .inr rfl⟩
    · exact ⟨_, _, _, rfl, .inr rfl⟩

theorem record_receive_answer (k : KernelState) (esp msg dataPtr dataCapacity : Nat) (r : Ref) :
    ∃ sp state eax, (handleSyscall k esp (.receive msg dataPtr dataCapacity)).1.table r =
      { (receive k msg dataPtr dataCapacity).1.table r with
          esp := sp, state := state, frameEax := eax } ∧
        (state = .running ∨ state = ((receive k msg dataPtr dataCapacity).1.table r).state) := by
  rw [handle_receive]
  split
  · unfold returnValue
    rw [KernelState.table_modify]
    split
    · exact ⟨_, _, _, rfl, .inr rfl⟩
    · exact ⟨_, _, _, rfl, .inr rfl⟩
  · exact record_block_or_return _ esp _ r

theorem mem_candidates {processes : List Ref} {current r : Ref} (member : r ∈ processes)
    (other : r ≠ current) : r ∈ candidates processes current := by
  unfold candidates
  rw [← List.takeWhile_append_dropWhile (p := (· ≠ current)) (l := processes),
    List.mem_append] at member
  rw [List.mem_append]
  rcases member with before | behind
  · exact .inr before
  · left
    rcases shape : processes.dropWhile (· ≠ current) with _ | ⟨head, tail⟩
    · rw [shape] at behind
      cases behind
    · have first : head = current := by
        have stops := List.head?_dropWhile_not (· ≠ current) processes
        rw [shape] at stops
        exact not_not.1 (of_decide_eq_false stops)
      rw [shape] at behind
      exact (List.mem_cons.1 behind).resolve_left fun same => other (same.trans first)

theorem waits_reschedule (caller : k.current = p) (waits : (k.table p).state = .receiveBlocked)
    (idle : ∃ r ∈ k.processes, r ≠ p ∧ (k.table r).state = .ready) (esp : Nat) :
    ((reschedule k esp).1.table p).state = .receiveBlocked := by
  obtain ⟨r, member, other, ready⟩ := idle
  unfold reschedule
  split
  · exact waits
  · have next : findNextReady k p ≠ p := by
      obtain ⟨s, found⟩ := Option.isSome_iff_exists.1 (List.find?_isSome
        (p := fun q => decide ((k.table q).state = .ready)) |>.2
          ⟨r, mem_candidates member other, decide_eq_true ready⟩)
      unfold findNextReady
      rw [found, Option.getD_some]
      rintro rfl
      have chosen := List.find?_some found
      rw [decide_eq_true_eq, waits] at chosen
      cases chosen
    subst caller
    rw [state_switch_to (k := { k with tickCount := 0 }) esp next.symm]
    exact waits

/-- What `receive` does to its caller when no line is pending for it. -/
inductive Fetches (k : KernelState) (msg dataPtr dataCapacity : Nat) : Prop
  | notification (node : NotifyNode) (rest : List NotifyNode)
      (queue : (k.table k.current).notifyQueue = node :: rest)
      (record : (receive k msg dataPtr dataCapacity).1.table k.current =
        dropNotify (receiveBuffer dataPtr dataCapacity (k.table k.current)))
  | sender (pid : Nat) (rest : List Nat) (queue : (k.table k.current).sendQueue = pid :: rest)
      (record : (receive k msg dataPtr dataCapacity).1.table k.current =
        dropSender (receiveBuffer dataPtr dataCapacity (k.table k.current)))
  | waits (blocks : receive k msg dataPtr dataCapacity =
      ((k.modify k.current (receiveBuffer dataPtr dataCapacity)).modify k.current
        (waitForMessage msg), 0))

theorem receive_fetches (msg dataPtr dataCapacity : Nat)
    (none : (List.range irqLines).find? (pendingFor k (k.table k.current).pid) = .none) :
    Fetches k msg dataPtr dataCapacity := by
  let asked := k.modify k.current (receiveBuffer dataPtr dataCapacity)
  have own : asked.table k.current = receiveBuffer dataPtr dataCapacity (k.table k.current) :=
    KernelState.table_modify_self ..
  have run : receive k msg dataPtr dataCapacity =
      (notifyPop (asked.table k.current)).elim
        (if (asked.table k.current).sendQueue ≠ [] then
          receiveQueued asked msg dataPtr dataCapacity
        else (asked.modify k.current (waitForMessage msg), 0))
        fun found => (receiveNotified asked msg dataPtr dataCapacity found.1 found.2, -3) := by
    have scan : (List.range irqLines).find?
        (pendingFor asked (asked.table k.current).pid) = .none := by
      rw [own]
      exact none
    unfold receive deliverPending
    dsimp only
    rewrite [scan]
    dsimp only
    split
    · next node popped found =>
      rewrite [show notifyPop (asked.table k.current) = some (node, popped) from found]
      rfl
    · next found =>
      rewrite [show notifyPop (asked.table k.current) = .none from found]
      rfl
  have notifications : (asked.table k.current).notifyQueue = (k.table k.current).notifyQueue := by
    rw [own]
    rfl
  have senders : (asked.table k.current).sendQueue = (k.table k.current).sendQueue := by
    rw [own]
    rfl
  unfold notifyPop at run
  rw [notifications, senders] at run
  rcases queued : (k.table k.current).notifyQueue with _ | ⟨node, rest⟩
  · rw [queued] at run
    dsimp only [Option.elim] at run
    rcases waiting : (k.table k.current).sendQueue with _ | ⟨pid, rest⟩
    · rw [waiting, if_neg (not_not.2 rfl)] at run
      exact .waits run
    · rw [waiting, if_pos (List.cons_ne_nil _ _)] at run
      refine .sender pid rest waiting ?_
      rw [run, (table_receive_queued asked msg dataPtr dataCapacity).1]
      exact (KernelState.table_modify_self asked k.current dropSender).trans (congrArg _ own)
  · rw [queued] at run
    dsimp only [Option.elim] at run
    refine .notification node rest queued ?_
    obtain ⟨memory, same⟩ := receive_notified_eq asked msg dataPtr dataCapacity node
      (dropNotify (asked.table k.current))
    rw [run, same]
    exact (KernelState.table_modify_self asked k.current _).trans (congrArg _ own)

/-- The caller of `receive` returns without a message from its queues only when a line was
pending for it. -/
theorem pending_of_returned (registered : RegisteredTo irq p k) (caller : k.current = p)
    {esp msg dataPtr dataCapacity : Nat} {after : KernelState}
    (run : after = (handleSyscall k esp (.receive msg dataPtr dataCapacity)).1)
    (returns : (after.table p).state ≠ .receiveBlocked)
    (notifications : (after.table p).notifyQueue = (k.table p).notifyQueue)
    (senders : (after.table p).sendQueue = (k.table p).sendQueue) :
    ∃ line, (List.range irqLines).find? (pendingFor k (k.table p).pid) = some line := by
  by_contra nothing
  have none : (List.range irqLines).find? (pendingFor k (k.table k.current).pid) = .none := by
    rw [caller]
    exact Option.eq_none_iff_forall_ne_some.2 fun line found => nothing ⟨line, found⟩
  obtain ⟨sp, state, eax, record, _⟩ := record_receive_answer k esp msg dataPtr dataCapacity p
  rw [← run] at record
  cases receive_fetches msg dataPtr dataCapacity none with
  | notification node rest queue fetched =>
      rw [caller] at queue fetched
      rw [record, fetched] at notifications
      have shorter := congrArg List.length notifications
      simp [dropNotify, receiveBuffer, queue] at shorter
  | sender pid rest queue fetched =>
      rw [caller] at queue fetched
      rw [record, fetched] at senders
      have shorter := congrArg List.length senders
      simp [dropSender, receiveBuffer, queue] at shorter
  | waits blocks =>
      rw [caller] at blocks
      let waiting := (k.modify p (receiveBuffer dataPtr dataCapacity)).modify p (waitForMessage msg)
      have rescheduled : after = (reschedule waiting esp).1 := by
        rw [run, handle_receive, blocks]
        rfl
      have own : waiting.table p =
          waitForMessage msg (receiveBuffer dataPtr dataCapacity (k.table p)) := by
        rw [KernelState.table_modify_self, KernelState.table_modify_self]
      obtain ⟨r, member, other, ready⟩ := registered.idle caller
      have still : (waiting.table r).state = .ready := by
        rw [KernelState.table_modify_of_ne _ _ _ _ other,
          KernelState.table_modify_of_ne _ _ _ _ other]
        exact ready
      apply returns
      rw [rescheduled]
      exact waits_reschedule (k := waiting) caller (by rw [own]; rfl) ⟨r, member, other, still⟩ esp

/-! A process that waits for a message is not woken by anything else. -/

theorem waits_reply (waits : (k.table p).state = .receiveBlocked)
    (targetPid msg dataPtr dataLen : Nat) :
    ((reply k targetPid msg dataPtr dataLen).1.table p).state = .receiveBlocked := by
  unfold reply
  split
  · exact waits
  · next target _ =>
    split
    · exact waits
    · next blocked =>
      have other : p ≠ target := by
        rintro rfl
        exact absurd (waits.symm.trans (not_not.1 blocked)) (by decide)
      obtain ⟨memory, same⟩ := deliver_eq k target (readMessage k msg) dataPtr dataLen 0
      dsimp only
      rw [same]
      change ((k.modify target (setResult 0)).table p).state = .receiveBlocked
      rw [KernelState.table_modify_of_ne _ _ _ _ other]
      exact waits

theorem waits_wake_sender (waits : (k.table p).state = .receiveBlocked) (senderPid : Nat) :
    ((wakeSender k senderPid).table p).state = .receiveBlocked := by
  unfold wakeSender
  split
  · next sender _ =>
    split
    · next blocked =>
      have other : p ≠ sender := by
        rintro rfl
        exact absurd (waits.symm.trans blocked) (by decide)
      rw [KernelState.table_modify_of_ne _ _ _ _ other]
      exact waits
    · exact waits
  · exact waits

theorem waits_wake_senders (queue : List Nat) (waits : (k.table p).state = .receiveBlocked) :
    ((queue.foldl wakeSender k).table p).state = .receiveBlocked := by
  induction queue generalizing k with
  | nil => exact waits
  | cons senderPid rest ih => exact ih (waits_wake_sender waits senderPid)

theorem waits_wake_waiters (waits : (k.table p).state = .receiveBlocked) (pid : Nat) :
    ((wakeWaiters k pid).table p).state = .receiveBlocked := by
  unfold wakeWaiters
  dsimp only
  rw [if_neg fun blocked => absurd (waits.symm.trans blocked.2.1) (by decide)]
  exact waits

theorem waits_destroy (waits : (k.table p).state = .receiveBlocked) (pid : Nat) :
    ((destroy k pid).table p).state = .receiveBlocked := by
  unfold destroy
  split
  · exact waits
  · split
    · exact waits
    · next gone _ =>
      have emptied : ∀ {k : KernelState} (f : Process → Process),
          (∀ q : Process, (f q).state = q.state) → (k.table p).state = .receiveBlocked →
            ((k.modify gone f).table p).state = .receiveBlocked := fun f keeps still =>
        (KernelState.modify_keeps _ _ _ f Process.state (keeps _)).trans still
      have senders := waits_wake_senders (k.table gone).sendQueue waits
      have waiters := waits_wake_waiters
        (emptied (fun q => { q with sendQueue := [] }) (fun _ => rfl) senders) pid
      exact emptied (fun q => { q with notifyQueue := [], pageDirectory := 0, kernelEsp := 0 })
        (fun _ => rfl) waiters

/-- Whatever its caller does next, a process that has not become ready by then does not. -/
theorem not_ready_answer {result : Int} {esp : Nat} (busy : (k.table p).state ≠ .ready) :
    ((blockOrReturn k esp result).1.table p).state ≠ .ready := by
  obtain ⟨sp, state, eax, record, changed⟩ := record_block_or_return k esp result p
  rw [record]
  rcases changed with rfl | rfl
  · exact ProcessState.noConfusion
  · exact busy

theorem not_ready_return {eax : Nat} (busy : (k.table p).state ≠ .ready) :
    ((returnValue k eax).table p).state ≠ .ready := by
  unfold returnValue
  rw [KernelState.modify_keeps _ _ _ _ Process.state rfl]
  exact busy

theorem not_ready_receive (waits : (k.table p).state = .receiveBlocked)
    (esp msg dataPtr dataCapacity : Nat) :
    ((handleSyscall k esp (.receive msg dataPtr dataCapacity)).1.table p).state ≠ .ready := by
  have kept : ((receive k msg dataPtr dataCapacity).1.table p).state = .receiveBlocked := by
    rcases receive_scan k msg dataPtr dataCapacity with ⟨line, _, run⟩ | ⟨none, _, others⟩
    · rw [run]
      exact (KernelState.modify_keeps _ _ _ (receiveBuffer dataPtr dataCapacity)
        Process.state rfl).trans waits
    · by_cases caller : p = k.current
      · subst caller
        cases receive_fetches msg dataPtr dataCapacity none with
        | notification node rest queue fetched =>
            rw [fetched]
            exact waits
        | sender pid rest queue fetched =>
            rw [fetched]
            exact waits
        | waits blocks =>
            rw [blocks]
            dsimp only
            rw [KernelState.table_modify_self]
            rfl
      · rw [others p caller]
        exact waits
  obtain ⟨sp, state, eax, record, changed⟩ := record_receive_answer k esp msg dataPtr dataCapacity p
  rw [record]
  rcases changed with rfl | rfl
  · exact ProcessState.noConfusion
  · rw [kept]
    decide

theorem not_ready_exit (waits : (k.table p).state = .receiveBlocked) :
    ((exitCurrent k).1.table p).state ≠ .ready := by
  have gone := waits_destroy waits (k.table k.current).pid
  have after : ∀ r, (((ProcessManager.destroy k (k.table k.current).pid).modify r
      setRunning).table p).state ≠ .ready := by
    intro r
    rw [KernelState.table_modify]
    split
    · exact nofun
    · rw [gone]
      decide
  unfold exitCurrent
  dsimp only
  split
  · exact after _
  · exact after _

theorem not_ready_handler (waits : (k.table p).state = .receiveBlocked) (line esp : Nat) :
    ((runHandler k line esp).1.table p).state ≠ .ready := by
  unfold runHandler
  split
  · let ticked := { k with ticks := u32 (k.ticks + 1) }
    change ((schedule ticked esp).1.table p).state ≠ .ready
    rcases schedule_cases ticked esp with ⟨tickCount, same⟩ | switched
    · rw [same]
      exact fun ready => absurd (waits.symm.trans ready) (by decide)
    · rw [switched]
      obtain ⟨sp, state, record, changed⟩ := @record_switch_to
        ({ ticked with tickCount := 0 }.modify ticked.current demote)
        (findNextReady (ticked.modify ticked.current demote) ticked.current) ticked.current esp p
      have kept : (({ ticked with tickCount := 0 }.modify ticked.current demote).table p).state =
          .receiveBlocked := by
        rw [KernelState.table_modify]
        split
        · unfold demote
          rw [if_neg fun running => absurd (waits.symm.trans running) (by decide)]
          exact waits
        · exact waits
      rw [record]
      rcases changed with rfl | rfl
      · exact ProcessState.noConfusion
      · rw [kept]
        decide
  · exact fun ready => absurd (waits.symm.trans ready) (by decide)

/-- A call that hands over no message wakes nobody who waits for one. -/
theorem not_ready_call (created : p ≠ k.nextRef) (waits : (k.table p).state = .receiveBlocked)
    {esp : Nat} {call : Call} (kernel : ¬ HandsOver (.syscall esp call)) :
    ((handleSyscall k esp call).1.table p).state ≠ .ready := by
  have busy : (k.table p).state ≠ .ready := by
    rw [waits]
    decide
  cases call with
  | send => exact absurd trivial kernel
  | notify => exact absurd trivial kernel
  | receive msg dataPtr dataCapacity =>
      exact not_ready_receive waits esp msg dataPtr dataCapacity
  | reply targetPid msg dataPtr dataLen =>
      refine not_ready_return (k := (reply k targetPid msg dataPtr dataLen).1) ?_
      rw [waits_reply waits targetPid msg dataPtr dataLen]
      decide
  | irqRegister line =>
      refine not_ready_return (k := (registerForward k (line % 256) (k.table k.current).pid).1) ?_
      unfold registerForward
      split
      · exact busy
      · exact busy
  | exec elfPtr elfSize loading =>
      refine not_ready_return (k := (Syscall.exec k elfPtr elfSize loading).1) ?_
      have outcome := exec_outcome k elfPtr elfSize loading
      generalize Syscall.exec k elfPtr elfSize loading = answer at outcome ⊢
      cases outcome with
      | failed missing => exact busy
      | child proc starts new =>
          unfold Outcomes.started
          dsimp only
          rw [if_neg created]
          exact busy
  | waitpid pid =>
      refine not_ready_answer (k := (waitpid k pid).1) ?_
      unfold waitpid
      dsimp only
      split
      · exact busy
      · split
        · exact busy
        · dsimp only
          rw [KernelState.table_modify]
          split
          · exact ProcessState.noConfusion
          · exact busy
  | exit => exact not_ready_exit waits

/-- A process that waits for a message becomes ready when another process hands it one, or when
an interrupt does. -/
theorem interrupt_of_woken (created : p ≠ k.nextRef) {action : Action}
    (waits : (k.table p).state = .receiveBlocked) (next : step k action = some k')
    (ready : (k'.table p).state = .ready) (kernel : ¬ HandsOver action) :
    ∃ number esp, action = .irq number esp ∧
      k' = forward (runHandler k (lineOf number) esp).1 (lineOf number) := by
  cases stepped next with
  | user bytes _ =>
      rw [show (runUser k bytes).table = k.table from rfl, waits] at ready
      cases ready
  | irq number esp _ => exact ⟨number, esp, rfl, rfl⟩
  | syscall esp call _ _ => exact absurd ready (not_ready_call created waits kernel)

theorem line_of_message {line : Nat} (inside : irq < irqLines) (below : line < irqLines)
    (same : irqMessage line = irqMessage irq) : line = irq := by
  have byte : UInt8.ofNat line = UInt8.ofNat irq := congrFun same 4
  have numbers := congrArg UInt8.toNat byte
  unfold irqLines at inside below
  simp only [UInt8.toNat_ofNat'] at numbers
  omega

theorem holds_written {memory : Nat → Nat → UInt8} {space dst : Nat} {words words' : Message}
    (after : k'.memory = writeBytes memory space dst 24 (messageBytes words))
    (holds : HoldsAt k' (space, dst) words') : words = words' := by
  obtain ⟨word, held⟩ := holds
  dsimp only at word held
  funext i
  have here : u32 (u32 (dst + i) + 4294967296 - dst) = i := by
    unfold u32
    omega
  rw [← held i, after]
  unfold writeBytes
  rw [here, if_pos ⟨rfl, i.isLt⟩]
  exact congrArg words (Fin.ext (Nat.mod_eq_of_lt i.isLt)).symm

/-- A process that an interrupt makes ready was waiting, and has the line's message. -/
theorem forward_wakes {line : Nat} (busy : (k.table p).state ≠ .ready)
    (ready : ((forward k line).table p).state = .ready) :
    line < irqLines ∧ (k.table p).state = .receiveBlocked ∧
      (forward k line).memory = writeBytes k.memory (spaceOf k p) (k.table p).msgPtr 24
        (messageBytes (irqMessage line)) := by
  unfold forward at ready ⊢
  split at ready
  · next registration =>
    rw [if_pos registration]
    split at ready
    · exact absurd ready busy
    · next target found =>
      dsimp only at ready ⊢
      split at ready
      · next asleep =>
        rw [if_pos asleep]
        by_cases own : p = target
        · subst own
          exact ⟨registration.1, asleep, rfl⟩
        · rw [KernelState.table_modify_of_ne _ _ _ _ own] at ready
          exact absurd ready busy
      · exact absurd ready busy
  · exact absurd ready busy

/-- The line whose message a call of `receive` returns with was the first one pending. -/
theorem pending_of_hears (registered : RegisteredTo irq p k) (caller : k.current = p)
    {esp msg dataPtr dataCapacity : Nat} {after : KernelState}
    (run : after = (handleSyscall k esp (.receive msg dataPtr dataCapacity)).1)
    (returns : (after.table p).state ≠ .receiveBlocked)
    (notifications : (after.table p).notifyQueue = (k.table p).notifyQueue)
    (senders : (after.table p).sendQueue = (k.table p).sendQueue)
    (message : HoldsAt after (k.cr3, msg) (irqMessage irq)) :
    (List.range irqLines).find? (pendingFor k (k.table p).pid) = some irq := by
  obtain ⟨line, found⟩ := pending_of_returned registered caller run returns notifications senders
  rcases receive_scan k msg dataPtr dataCapacity with ⟨line', found', answer⟩ | ⟨none, _, _⟩
  · rw [caller, found] at found'
    obtain rfl := Option.some.inj found'
    have memory : after.memory =
        writeBytes k.memory k.cr3 msg 24 (messageBytes (irqMessage line)) := by
      rw [run, handle_receive, answer, if_pos (.inl rfl)]
      rfl
    have below := List.mem_range.1 (List.mem_of_find?_eq_some found)
    rw [found, line_of_message registered.line below (holds_written memory message)]
  · rw [caller, found] at none
    cases none

/-- A notification of the line that `p` hears is delivered in that step. -/
theorem delivers_of_hears {action : Action} (registered : RegisteredTo irq p k)
    (next : step k action = some k') (hears : Hears p k k' action)
    (message : HoldsAt k' (buffer p k action) (irqMessage irq)) : Delivers irq p k action := by
  cases hears with
  | woken _ waits ready kernel =>
      obtain ⟨number, esp, rfl, after⟩ :=
        interrupt_of_woken registered.created waits next ready kernel
      have busy := not_ready_handler waits (lineOf number) esp
      rw [after] at ready
      obtain ⟨below, asleep, memory⟩ := forward_wakes busy ready
      rw [← after] at memory
      have place : buffer p k (.irq number esp) =
          (spaceOf (runHandler k (lineOf number) esp).1 p,
            ((runHandler k (lineOf number) esp).1.table p).msgPtr) := rfl
      rw [place] at message
      have same := line_of_message registered.line below (holds_written memory message)
      exact .inl ⟨same, same ▸ asleep⟩
  | returned esp msg dataPtr dataCapacity caller returns notifications senders =>
      cases stepped next
      exact .inr ⟨caller, pending_of_hears registered caller rfl returns notifications senders
        message⟩

end Converse

section Registration

variable {irq : Nat} {p : Ref} {k : KernelState}

/-- In a sound state a line with the PID of a process in the list is registered to it. -/
theorem registered_of_sound (sound : Sound k) (line : irq < irqLines) (member : p ∈ k.processes)
    (user : p ≠ kernelTask) (pid : k.forwardPid irq = (k.table p).pid) : RegisteredTo irq p k := by
  have registered := sound.stable.registered
  have own : ∀ r ∈ k.processes, (k.table r).pid = (k.table p).pid → r = p := by
    intro r inside same
    rw [registered.pid r inside, registered.pid p member] at same
    exact same
  refine ⟨line, pid, ?_, member, registered.live p member, own, own _ registered.current,
    (registered.created p member).ne, ?_⟩
  · rw [registered.pid p member]
    exact user
  · rintro rfl
    have task := sound.stable.admissible _ registered.kernel_task_mem
    refine ⟨kernelTask, registered.kernel_task_mem, user.symm, ?_⟩
    exact (task.idle rfl).resolve_right (task.stopped user.symm)

end Registration

section Histories

variable {irq : Nat} {p : Ref} {n : Nat} {states : Nat → KernelState} {actions : Nat → Action}

theorem history_trace (history : History irq p n states actions) :
    Support.Latch.Trace n (fun i => signal irq p (states i))
      (fun i => label irq p (states i) (actions i)) where
  step i inside := step_signal (history.registered i inside.le) (history.step i inside)
  clear := history.clear

/-- Process 1 runs, and line 5 is registered to it. -/
def driver : KernelState :=
  { System.bare 0x1000 (fun _ _ => 0) with
    table := fun r =>
      if r = 1 then { freshProcess 1 0xC0001000 0x1B 0x23 0x1000 with state := .running }
      else freshProcess 0 0xC0000000 0x08 0x10 0
    processes := [kernelTask, 1]
    current := 1
    nextPid := 2
    nextRef := 2
    forwardPid := fun line => if line = 5 then 1 else 0 }

/-- An interrupt, two calls of `receive`, and another interrupt. -/
def driverActions : Nat → Action
  | 0 => .irq 0x25 0xC0000F00
  | 1 => .syscall 0xC0000F00 (.receive 0x9000000 0 0)
  | 2 => .syscall 0xC0000F00 (.receive 0x9000000 0 0)
  | _ => .irq 0x25 0xC0000E00

def driverStates : Nat → KernelState
  | 0 => driver
  | i + 1 => (step (driverStates i) (driverActions i)).getD (driverStates i)

theorem driver_history : History 5 1 4 driverStates driverActions where
  step i inside := by
    have possible : ∀ i, i < 4 → (step (driverStates i) (driverActions i)).isSome = true := by
      decide +kernel
    obtain ⟨next, stepped⟩ := Option.isSome_iff_exists.1 (possible i inside)
    have follows : driverStates (i + 1) =
        (step (driverStates i) (driverActions i)).getD (driverStates i) := rfl
    rw [follows, stepped, Option.getD_some]
  registered i inside := by
    have all : ∀ i, i < 5 → let k := driverStates i
        (k.forwardPid 5 = (k.table 1).pid ∧ (k.table 1).pid ≠ 0 ∧ 1 ∈ k.processes ∧
          (k.table 1).state ≠ .empty) ∧
          (∀ r ∈ k.processes, (k.table r).pid = (k.table 1).pid → r = 1) ∧
            ((k.table k.current).pid = (k.table 1).pid → k.current = 1) ∧ 1 ≠ k.nextRef ∧
              (k.current = 1 → ∃ r ∈ k.processes, r ≠ 1 ∧ (k.table r).state = .ready) := by
      decide +kernel
    obtain ⟨⟨pid, nonzero, member, live⟩, unique, caller, created, idle⟩ :=
      all i (Nat.lt_succ_of_le inside)
    exact ⟨by decide, pid, nonzero, member, live, unique, caller, created, idle⟩
  clear := rfl

end Histories

end CassiOS.Kernel.IrqDelivery
