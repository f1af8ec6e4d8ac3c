import CassiOS.Kernel.Delivery
import CassiOS.Kernel.DeliveryOrders

/-!
# The log is what the programs see

An event of the log stands for what a program can see of its call: the words in its message
buffer and the value that `send`, `notify` or `receive` returns.
-/

namespace CassiOS.Kernel.MessageLog

open CassiOS.Support.Words
open CassiOS.Kernel.State
open CassiOS.Kernel.ProcessManager
open CassiOS.Kernel.Scheduler
open CassiOS.Kernel.Irq
open CassiOS.Kernel.Syscall
open CassiOS.Kernel.System
open CassiOS.Kernel.ProcessTable
open CassiOS.Kernel.Invariant
open CassiOS.Kernel.Outcomes
open CassiOS.Kernel.ProcessStates
open CassiOS.Kernel.IpcStep
open CassiOS.Kernel.Delivery
open CassiOS.Kernel.DeliveryOrders

set_option autoImplicit false

variable {k k' : KernelState} {action : Action}

section Specification

/-- What a process passes to `receive`, and the space in which its pointers are followed. -/
structure Buffers where
  space : Nat
  msg : Nat
  dataPtr : Nat
  capacity : Nat

/-- The message buffer holds the six words, where bulk data were not put over them. -/
def Holds (k : KernelState) (b : Buffers) (words : Message) : Prop :=
  b.msg < 4294967296 → ∀ i : Fin 24, ¬ Within b.dataPtr b.capacity (u32 (b.msg + i)) →
    k.memory b.space (u32 (b.msg + i)) = words i

def waitingBuffers (k : KernelState) (r : Ref) : Buffers :=
  ⟨spaceOf k r, (k.table r).msgPtr, (k.table r).dataPtr, (k.table r).dataLen⟩

/-- A `receive` of process `r` returns: it waited in the call, or makes it in this step. -/
inductive Returns (k k' : KernelState) (r : Ref) : Buffers → Action → Prop
  | waited (action : Action) (waiting : (k.table r).state = .receiveBlocked)
      (woken : (k'.table r).state ≠ .receiveBlocked) :
      Returns k k' r (waitingBuffers k r) action
  | called (esp msg dataPtr capacity : Nat) (caller : k.current = r)
      (runs : (k'.table r).state ≠ .receiveBlocked) :
      Returns k k' r ⟨k.cr3, msg, dataPtr, capacity⟩
        (.syscall esp (.receive msg dataPtr capacity))

/-- It is an interrupt that `r` hears of. -/
def Interrupted (k : KernelState) (r : Ref) : Action → Prop
  | .irq _ _ => True
  | _ => ∃ line, line < irqLines ∧ pendingFor k (k.table r).pid line = true

/-- A blocking send was accepted when its caller waits, a notification when `notify`
returns 0. -/
def Accepted (k k' : KernelState) : Action → Prop
  | .syscall _ (.send _ _ _ _ _) => (k'.table k.current).state = .sendBlocked
  | .syscall _ (.notify _ _ _ _ _ _) => (k'.table k.current).frameEax = 0
  | _ => False

inductive Happens (k k' : KernelState) : Action → Event → Prop
  | sent (esp target msg dataPtr dataLen : Nat) (node : Bool) (words : Message)
      (read : ∀ i : Fin 24, words i = k.memory k.cr3 (u32 (msg + i)))
      (accepted : Accepted k k' (.syscall esp (.send target msg dataPtr dataLen node))) :
      Happens k k' (.syscall esp (.send target msg dataPtr dataLen node))
        (.sent (k.table k.current).pid target words)
  | notified (esp target msg dataPtr dataLen : Nat) (node data : Bool) (words : Message)
      (read : ∀ i : Fin 24, words i = k.memory k.cr3 (u32 (msg + i)))
      (accepted : Accepted k k' (.syscall esp (.notify target msg dataPtr dataLen node data))) :
      Happens k k' (.syscall esp (.notify target msg dataPtr dataLen node data))
        (.notified (k.table k.current).pid target words)
  /-- `receive` takes the PIDs -2 and -3 for interrupts and notifications. -/
  | received (action : Action) (r : Ref) (b : Buffers) (sender : Nat) (words : Message)
      (live : r ∈ k.processes) (returns : Returns k k' r b action)
      (process : ¬ Interrupted k r action) (holds : Holds k' b words)
      (value : (k'.table r).frameEax = sender ∨
        (asI32 sender = -2 ∨ asI32 sender = -3) ∧ (k'.table r).frameEax = 0) :
      Happens k k' action (.received (k.table r).pid sender words)
  | heard (action : Action) (r : Ref) (b : Buffers) (sender : Nat) (words : Message)
      (live : r ∈ k.processes) (returns : Returns k k' r b action)
      (process : ¬ Interrupted k r action) (holds : Holds k' b words)
      (value : (k'.table r).frameEax = 0) :
      Happens k k' action (.heard (k.table r).pid sender words)
  | replied (esp target msg dataPtr dataLen : Nat) (value : (k'.table k.current).frameEax = 0) :
      Happens k k' (.syscall esp (.reply target msg dataPtr dataLen))
        (.replied (k.table k.current).pid target)

def leaves : Event → Bool
  | .sent _ _ _ => true
  | .notified _ _ _ => true
  | _ => false

def arrivesAt (pid : Nat) : Event → Bool
  | .received r _ _ => r = pid
  | .heard r _ _ => r = pid
  | _ => false

/-- The events of one step: each one happens, and nothing else does. -/
structure Observed (k k' : KernelState) (action : Action) (events : List Event) : Prop where
  log : k'.log = events ++ k.log
  happens : ∀ event ∈ events, Happens k k' action event
  accepted : Accepted k k' action → ∃ event ∈ events, leaves event
  returned : ∀ r ∈ k.processes, ∀ b, Returns k k' r b action → ¬ Interrupted k r action →
    ∃ event ∈ events, arrivesAt (k.table r).pid event
  leavesOnce : (events.filter leaves).length ≤ 1
  arrivesOnce : ∀ pid, (events.filter (arrivesAt pid)).length ≤ 1

end Specification

section Buffers

theorem bulk_length_le (dataPtr dataLen dst capacity : Nat) :
    bulkLength dataPtr dataLen dst capacity ≤ capacity := by
  unfold bulkLength
  split <;> omega

theorem holds_written {b : Buffers} {words : Message} {before : Nat → Nat → UInt8} {len : Nat}
    {bytes : Nat → UInt8} (short : len ≤ b.capacity)
    (after : k'.memory = writeBytes (writeBytes before b.space b.msg 24 (messageBytes words))
      b.space b.dataPtr len bytes) : Holds k' b words := by
  intro pointer i outside
  have here : u32 (u32 (b.msg + i) + 4294967296 - b.msg) = i := by
    unfold u32
    omega
  rw [after]
  unfold writeBytes
  rw [if_neg fun inside => outside (Nat.lt_of_lt_of_le inside.2 short), here,
    if_pos ⟨rfl, i.isLt⟩]
  exact congrArg words (Fin.ext (Nat.mod_eq_of_lt i.isLt))

/-- A delivery fills the buffers of the process that waits, whatever is stored of the caller. -/
theorem holds_delivered {stored : KernelState} {target : Ref} {words : Message}
    {dataPtr dataLen eax : Nat} (record : stored.table target = k.table target)
    (cr3 : stored.cr3 = k.cr3)
    (memory : k'.memory = (deliver stored target words dataPtr dataLen eax).memory) :
    Holds k' (waitingBuffers k target) words := by
  have space : spaceOf stored target = spaceOf k target := by
    unfold spaceOf
    rw [record, cr3]
  apply holds_written (bulk_length_le dataPtr dataLen _ _)
  rw [memory, memory_deliver, record, space]
  rfl

end Buffers

section Calls

variable {r target : Ref} {esp targetPid msg dataPtr dataLen capacity : Nat}

theorem send_given (found : get k targetPid = some target) (other : target ≠ k.current)
    (waiting : (k.table target).state = .receiveBlocked) (node : Bool) (esp : Nat) :
    let after := (handleSyscall k esp (.send targetPid msg dataPtr dataLen node)).1
    Holds after (waitingBuffers k target) (readMessage k msg) ∧
      (after.table target).frameEax = (k.table k.current).pid := by
  intro after
  let stored := k.modify k.current (outgoing (readMessage k msg) msg dataPtr dataLen)
  obtain ⟨event, event', run⟩ :=
    @send_waiting k msg dataPtr dataLen _ _ found other waiting node
  let sent := (((deliver stored target (readMessage k msg) dataPtr dataLen
    (k.table k.current).pid).record event).record event').modify k.current (block .sendBlocked)
  have blocks : after = (reschedule sent esp).1 := by
    unfold after
    rw [handle_send, run, blockOrReturn, if_pos rfl]
  obtain ⟨sp, state, record, _⟩ := record_reschedule sent esp target
  have kept : stored.table target = k.table target :=
    KernelState.table_modify_of_ne _ _ _ _ other
  have memory : after.memory = (deliver stored target (readMessage k msg) dataPtr dataLen
      (k.table k.current).pid).memory := by
    rw [blocks, memory_reschedule]
    rfl
  refine ⟨holds_delivered kept rfl memory, ?_⟩
  rw [blocks, record]
  change (sent.table target).frameEax = _
  unfold sent
  rw [KernelState.table_modify_of_ne _ _ _ _ other]
  exact frame_eax_deliver _ _ _ _ _ _

theorem notify_given (found : get k targetPid = some target) (other : target ≠ k.current)
    (waiting : (k.table target).state = .receiveBlocked) (node data : Bool) (esp : Nat) :
    let after := (handleSyscall k esp (.notify targetPid msg dataPtr dataLen node data)).1
    Holds after (waitingBuffers k target) (readMessage k msg) ∧
      (after.table target).frameEax = 0 := by
  intro after
  obtain ⟨event, event', run⟩ :=
    @notify_waiting k msg dataPtr dataLen _ _ found other waiting node data
  let given := deliver k target (readMessage k msg) dataPtr dataLen 0
  have returns : after = returnValue ((given.record event).record event') 0 := by
    unfold after
    rw [handle_notify, run]
    rfl
  have caller : ((given.record event).record event').current = k.current := by
    obtain ⟨memory, same⟩ := deliver_eq k target (readMessage k msg) dataPtr dataLen 0
    change given.current = _
    unfold given
    rw [same]
    rfl
  have memory : after.memory = given.memory := by
    rw [returns]
    rfl
  refine ⟨holds_delivered rfl rfl memory, ?_⟩
  rw [returns, returnValue, caller, KernelState.table_modify_of_ne _ _ _ _ other]
  exact frame_eax_deliver _ _ _ _ _ _

/-- A process keeps waiting unless the step is what it waits for. -/
theorem returns_awaited (sound : Sound k) (live : r ∈ k.processes) {b : Buffers}
    (returns : Returns k k' r b action) (next : step k action = some k')
    (other : ∀ esp msg dataPtr capacity, action ≠ .syscall esp (.receive msg dataPtr capacity)) :
    Awaited k r action ∧ (k.table r).state = .receiveBlocked := by
  cases returns with
  | waited _ waiting woken =>
      refine ⟨?_, waiting⟩
      rcases state_step sound live (.inr (.inl waiting)) next with same | awaited
      · exact absurd (same.trans waiting) woken
      · exact awaited
  | called esp msg dataPtr capacity _ _ => exact absurd rfl (other esp msg dataPtr capacity)

theorem not_interrupted (sound : Sound k) (live : r ∈ k.processes)
    (waiting : (k.table r).state = .receiveBlocked) (esp : Nat) (call : Call) :
    ¬ Interrupted k r (.syscall esp call) := by
  rintro ⟨line, inside, pends⟩
  obtain ⟨_, _, none⟩ := (sound.stable.admissible r live).receiver waiting
  simp only [pendingFor, sound.stable.registered.pid r live, Bool.and_eq_true,
    decide_eq_true_eq] at pends
  rw [none line inside pends.1] at pends
  exact Bool.false_ne_true pends.2

theorem waiting_not_current (sound : Sound k) (waiting : (k.table r).state = .receiveBlocked) :
    r ≠ k.current :=
  Blocked.not_current (.inr (.inl waiting)) sound

theorem observed_nothing (log : k'.log = k.log) (refused : ¬ Accepted k k' action)
    (waits : ∀ r ∈ k.processes, ∀ b, Returns k k' r b action → Interrupted k r action) :
    Observed k k' action [] where
  log := log
  happens := fun _ inside => absurd inside List.not_mem_nil
  accepted := fun accepted => absurd accepted refused
  returned := fun r live b returns process => absurd (waits r live b returns) process
  leavesOnce := Nat.zero_le 1
  arrivesOnce := fun _ => Nat.zero_le 1

theorem observed_one {event : Event} (log : k'.log = event :: k.log)
    (happens : Happens k k' action event) (accepted : Accepted k k' action → leaves event)
    (returned : ∀ r ∈ k.processes, ∀ b, Returns k k' r b action → ¬ Interrupted k r action →
      arrivesAt (k.table r).pid event) : Observed k k' action [event] where
  log := log
  happens := fun _ inside => List.mem_singleton.mp inside ▸ happens
  accepted := fun taken => ⟨event, List.mem_singleton_self _, accepted taken⟩
  returned := fun r live b returns process =>
    ⟨event, List.mem_singleton_self _, returned r live b returns process⟩
  leavesOnce := List.length_filter_le leaves [event]
  arrivesOnce := fun pid => List.length_filter_le (arrivesAt pid) [event]

theorem observed_both {arrival departure : Event} (log : k'.log = arrival :: departure :: k.log)
    (arrives : Happens k k' action arrival) (departs : Happens k k' action departure)
    (left : leaves departure = true) (apart : leaves arrival = false)
    (elsewhere : ∀ pid, arrivesAt pid departure = false)
    (returned : ∀ r ∈ k.processes, ∀ b, Returns k k' r b action → ¬ Interrupted k r action →
      arrivesAt (k.table r).pid arrival) : Observed k k' action [arrival, departure] where
  log := log
  happens := List.forall_mem_cons.mpr ⟨arrives, List.forall_mem_singleton.mpr departs⟩
  accepted := fun _ => ⟨departure, by simp, left⟩
  returned := fun r live b returns process =>
    ⟨arrival, List.mem_cons_self, returned r live b returns process⟩
  leavesOnce := by simp [apart, left]
  arrivesOnce := fun pid => by
    rw [List.filter_cons]
    split <;> simp [elsewhere pid]

/-! ## Sending -/

theorem observed_send (sound : Sound k) (user : k.current ≠ kernelTask) (node : Bool) :
    let call := Call.send targetPid msg dataPtr dataLen node
    ∃ events, Observed k (handleSyscall k esp call).1 (.syscall esp call) events := by
  intro call
  have registered := sound.stable.registered
  have caller : (k.table k.current).pid = k.current := registered.pid _ registered.current
  have outcome := send_outcome registered targetPid msg dataPtr dataLen node
  have handled := handled_send sound user outcome
  have after := same_block_or_return handled user esp
  have still : ∀ r, (k.table r).state = .receiveBlocked →
      ((send k targetPid msg dataPtr dataLen node).1.table r).state = (k.table r).state →
      ((handleSyscall k esp call).1.table r).state = .receiveBlocked :=
    fun r waiting same =>
      (state_block_or_return handled user esp (.inr (.inl waiting)) same).trans waiting
  have given : targetPid ∈ k.processes → targetPid ≠ k.current →
      (k.table targetPid).state = .receiveBlocked → _ := fun live other waiting =>
    @send_given k targetPid targetPid msg dataPtr dataLen (registered.get_of_mem live) other waiting
      node esp
  have accepted := after.sending k.current
  have idle : (k.table k.current).state ≠ .sendBlocked := not_sending_of_running sound.running
  have sent (blocked : Accepted k (handleSyscall k esp call).1 (.syscall esp call)) :
      Happens k (handleSyscall k esp call).1 (.syscall esp call)
        (.sent k.current targetPid (readMessage k msg)) := by
    have event := Happens.sent esp targetPid msg dataPtr dataLen node (readMessage k msg)
      (fun _ => rfl) blocked
    rwa [caller] at event
  unfold call at still sent ⊢
  rw [handle_send] at given still sent ⊢
  generalize send k targetPid msg dataPtr dataLen node = answer at *
  cases outcome with
  | refused =>
      refine ⟨[], observed_nothing after.log (fun blocked => idle (accepted.mp blocked)) ?_⟩
      rintro r _ b ⟨_, waiting, woken⟩
      exact absurd (still r waiting rfl) woken
  | queueFull =>
      have kept := fun r => k.modify_keeps k.current r
        (outgoing (readMessage k msg) msg dataPtr dataLen) Process.state rfl
      refine ⟨[], observed_nothing after.log (fun blocked => ?_) ?_⟩
      · exact idle ((kept k.current).symm.trans (accepted.mp blocked))
      · rintro r _ b ⟨_, waiting, woken⟩
        exact absurd (still r waiting (kept r)) woken
  | direct memory live other waiting =>
      have blocked := accepted.mpr (by
        rw [sentDirect, KernelState.table_modify_self]
        rfl)
      obtain ⟨holds, value⟩ := given live other waiting
      have ready : ((sentDirect k targetPid (readMessage k msg) msg dataPtr dataLen memory).table
          targetPid).state ≠ .receiveBlocked := by
        simp [sentDirect, KernelState.record, withMemory, other, setResult]
      have received := Happens.received _ targetPid _ _ _ live
        (.waited _ waiting fun blocks => ready (block_or_return_state _ esp 0 _ blocks))
        (not_interrupted sound live waiting esp (.send targetPid msg dataPtr dataLen node)) holds
        (.inl value)
      rw [caller, registered.pid _ live] at received
      refine ⟨_, observed_both after.log received (sent blocked) rfl rfl (fun _ => rfl) ?_⟩
      rintro r inList b ⟨_, waits, woken⟩ _
      by_cases same : r = targetPid
      · rw [same, registered.pid _ live]
        exact decide_eq_true rfl
      · exact absurd (still r waits ((sent_direct_other _ _ _ _ _ _
          (waiting_not_current sound waits)).2 same)) woken
  | queued live other busy =>
      have blocked := accepted.mpr (by
        rw [sentQueued, KernelState.table_modify_self]
        rfl)
      refine ⟨_, observed_one after.log (sent blocked) (fun _ => rfl) ?_⟩
      rintro r _ b ⟨_, waits, woken⟩ _
      exact absurd (still r waits (sent_queued_other _ _ _ _ _
        (waiting_not_current sound waits)).2) woken

theorem observed_notify (sound : Sound k) (node data : Bool) :
    let call := Call.notify targetPid msg dataPtr dataLen node data
    ∃ events, Observed k (handleSyscall k esp call).1 (.syscall esp call) events := by
  intro call
  have registered := sound.stable.registered
  have caller : (k.table k.current).pid = k.current := registered.pid _ registered.current
  have outcome := notify_outcome registered targetPid msg dataPtr dataLen node data
  have given : targetPid ∈ k.processes → targetPid ≠ k.current →
      (k.table targetPid).state = .receiveBlocked → _ := fun live other waiting =>
    @notify_given k targetPid targetPid msg dataPtr dataLen (registered.get_of_mem live) other
      waiting node data esp
  have notified (returns : Accepted k (handleSyscall k esp call).1 (.syscall esp call)) :
      Happens k (handleSyscall k esp call).1 (.syscall esp call)
        (.notified k.current targetPid (readMessage k msg)) := by
    have event := Happens.notified esp targetPid msg dataPtr dataLen node data
      (readMessage k msg) (fun _ => rfl) returns
    rwa [caller] at event
  unfold call at notified ⊢
  rw [handle_notify] at given notified ⊢
  generalize notify k targetPid msg dataPtr dataLen node data = answer at *
  have still (r : Ref) (waiting : (k.table r).state = .receiveBlocked)
      (same : (answer.1.table r).state = (k.table r).state) :
      ((returnValue answer.1 (asU32 answer.2)).table r).state = .receiveBlocked := by
    rw [state_return_value, same, waiting]
  cases outcome with
  | refused =>
      refine ⟨[], observed_nothing rfl (fun returns => ?_) ?_⟩
      · have value : asU32 (-1) = 0 :=
          (frame_eax_return_value (k := k) rfl _).symm.trans returns
        exact absurd value (by decide)
      · rintro r _ b ⟨_, waiting, woken⟩
        exact absurd (still r waiting rfl) woken
  | direct memory live other waiting =>
      have returns : Accepted k (returnValue (notifiedDirect k targetPid (readMessage k msg)
          memory) (asU32 0)) (.syscall esp (.notify targetPid msg dataPtr dataLen node data)) :=
        frame_eax_return_value (k := notifiedDirect k targetPid (readMessage k msg) memory) rfl _
      obtain ⟨holds, value⟩ := given live other waiting
      have heard := Happens.heard _ targetPid _ k.current _ live
        (.waited _ waiting (by
          rw [state_return_value]
          simp [notifiedDirect, KernelState.record, withMemory, setResult]))
        (not_interrupted sound live waiting esp (.notify targetPid msg dataPtr dataLen node data))
        holds value
      rw [registered.pid _ live] at heard
      refine ⟨_, observed_both rfl heard (notified returns) rfl rfl (fun _ => rfl) ?_⟩
      rintro r inList b ⟨_, waits, woken⟩ _
      by_cases same : r = targetPid
      · rw [same, registered.pid _ live]
        exact decide_eq_true rfl
      · exact absurd (still r waits (by
          simp [notifiedDirect, KernelState.record, withMemory, same])) woken
  | queued pushed live other busy sender words =>
      rw [← words] at notified
      have returns : Accepted k (returnValue (notifiedQueued k targetPid pushed) (asU32 0))
          (.syscall esp (.notify targetPid msg dataPtr dataLen node data)) :=
        frame_eax_return_value (k := notifiedQueued k targetPid pushed) rfl _
      refine ⟨_, observed_one rfl (notified returns) (fun _ => rfl) ?_⟩
      rintro r _ b ⟨_, waits, woken⟩ _
      exact absurd (still r waits (k.modify_keeps targetPid r (appendNotify pushed)
        Process.state rfl)) woken

/-! ## Receiving -/

/-- Nobody else returns from `receive` while one process calls it. -/
theorem returns_called (sound : Sound k) (live : r ∈ k.processes) {b : Buffers}
    (next : step k (.syscall esp (.receive msg dataPtr capacity)) = some k')
    (returns : Returns k k' r b (.syscall esp (.receive msg dataPtr capacity))) :
    k.current = r ∧ (k'.table r).state ≠ .receiveBlocked := by
  cases returns with
  | waited _ waiting woken =>
      rcases state_step sound live (.inr (.inl waiting)) next with same | awaited
      · exact absurd (same.trans waiting) woken
      · cases awaited
  | called _ _ _ _ caller runs => exact ⟨caller, runs⟩

theorem receive_interrupted (pends : ∃ line, line < irqLines ∧
      pendingFor k (k.table k.current).pid line = true) :
    ∃ filled, receive k msg dataPtr capacity = (filled, -2) ∧ filled.log = k.log := by
  unfold receive
  simp only [KernelState.table_modify_self]
  rcases deliver_pending_cases (k.modify k.current (receiveBuffer dataPtr capacity))
    (receiveBuffer dataPtr capacity (k.table k.current)).pid msg with
      ⟨none, _⟩ | ⟨irq, memory, _, _, _, scanned⟩
  · obtain ⟨line, inside, pends⟩ := pends
    simp only [pendingFor, Bool.and_eq_true, decide_eq_true_eq] at pends
    exact absurd ((none line inside pends.1).symm.trans pends.2) Bool.false_ne_true
  · rw [scanned]
    exact ⟨_, rfl, rfl⟩

theorem observed_fetched (sound : Sound k) {filled : KernelState} {value : Nat} {event : Event}
    (next : step k (.syscall esp (.receive msg dataPtr capacity)) =
      some (returnValue filled value))
    (log : filled.log = event :: k.log) (arrives : arrivesAt (k.table k.current).pid event = true)
    (happens : Happens k (returnValue filled value)
      (.syscall esp (.receive msg dataPtr capacity)) event) :
    Observed k (returnValue filled value) (.syscall esp (.receive msg dataPtr capacity))
      [event] := by
  refine observed_one log happens (fun taken => absurd taken id) ?_
  intro r inList b returns _
  rw [← (returns_called sound inList next returns).1]
  exact arrives

def receiveValue (result : Int) : Nat := if result = -2 ∨ result = -3 then 0 else asU32 result

theorem receive_returns {filled : KernelState} {result : Int}
    (next : step k (.syscall esp (.receive msg dataPtr capacity)) = some k')
    (answer : receive k msg dataPtr capacity = (filled, result)) (nonzero : result ≠ 0) :
    k' = returnValue filled (receiveValue result) := by
  cases stepped next
  rw [handle_receive, answer]
  unfold receiveValue
  dsimp only
  split
  · rfl
  · rw [blockOrReturn, if_neg nonzero]

section Quiet

variable (sound : Sound k)
  (next : step k (.syscall esp (.receive msg dataPtr capacity)) = some k')
  (quiet : ∀ irq, irq < irqLines → pendingFor k (k.table k.current).pid irq = false)
include sound next quiet

omit sound next in
theorem not_interrupted_call :
    ¬ Interrupted k k.current (.syscall esp (.receive msg dataPtr capacity)) := by
  rintro ⟨line, inside, pends⟩
  exact Bool.false_ne_true ((quiet line inside).symm.trans pends)

omit quiet in
/-- The caller of a `receive` that returns still runs. -/
theorem runs_on {filled : KernelState} {result : Int}
    (answer : receive k msg dataPtr capacity = (filled, result)) (nonzero : result ≠ 0) :
    filled.current = k.current ∧ ∀ value,
      ((returnValue filled value).table k.current).state ≠ .receiveBlocked := by
  have user : k.current ≠ kernelTask := by
    cases stepped next with
    | syscall _ _ user _ => exact user
  have handled := handled_receive sound user
    (receive_outcome sound.stable.registered msg dataPtr capacity)
  rw [answer] at handled
  refine ⟨handled.current, fun value => ?_⟩
  have running := handled.running nonzero
  rw [handled.current] at running
  rw [state_return_value, running]
  decide

theorem observed_heard {node : NotifyNode} {rest : List NotifyNode}
    (queue : (k.table k.current).notifyQueue = node :: rest) :
    ∃ events, Observed k k' (.syscall esp (.receive msg dataPtr capacity)) events := by
  have run := receive_quiet quiet msg dataPtr capacity
  rw [queue] at run
  dsimp only at run
  have nonzero : (-3 : Int) ≠ 0 := by decide
  have after := receive_returns next run nonzero
  obtain ⟨current, runs⟩ := runs_on sound next run nonzero
  subst after
  obtain ⟨memory, logged⟩ := receive_notified_eq
    (k.modify k.current (receiveBuffer dataPtr capacity)) msg dataPtr capacity node
    (dropNotify ((k.modify k.current (receiveBuffer dataPtr capacity)).table k.current))
  obtain ⟨written, _⟩ := memory_receive_notified
    (k.modify k.current (receiveBuffer dataPtr capacity)) msg dataPtr capacity node
    (dropNotify ((k.modify k.current (receiveBuffer dataPtr capacity)).table k.current))
  have owner : (dropNotify ((k.modify k.current (receiveBuffer dataPtr capacity)).table
      k.current)).pid = (k.table k.current).pid := by
    rw [KernelState.table_modify_self]
    rfl
  have log := congrArg KernelState.log logged
  rw [owner] at log
  have holds : Holds (returnValue (receiveNotified
      (k.modify k.current (receiveBuffer dataPtr capacity)) msg dataPtr capacity node
      (dropNotify ((k.modify k.current (receiveBuffer dataPtr capacity)).table k.current)))
      (receiveValue (-3))) ⟨k.cr3, msg, dataPtr, capacity⟩ node.msg := by
    have short : (if 0 < node.dataLen ∧ dataPtr ≠ 0 ∧ 0 < capacity then
        min node.dataLen capacity else 0) ≤ capacity := by
      split
      · exact Nat.min_le_right _ _
      · exact Nat.zero_le _
    exact holds_written short written
  exact ⟨_, observed_fetched sound next log (decide_eq_true rfl)
    (.heard _ k.current _ _ _ sound.stable.registered.current
      (.called esp msg dataPtr capacity rfl (runs _)) (not_interrupted_call quiet) holds
      (frame_eax_return_value current _))⟩

theorem observed_received (delivers : Delivers k) {sender : Nat} {rest : List Nat}
    (noNotification : (k.table k.current).notifyQueue = [])
    (queue : (k.table k.current).sendQueue = sender :: rest) :
    ∃ events, Observed k k' (.syscall esp (.receive msg dataPtr capacity)) events := by
  have registered := sound.stable.registered
  obtain ⟨member, sending, _⟩ := delivers.queued _ registered.current sender
    (by rw [queue]; exact List.mem_cons_self)
  have other : sender ≠ k.current := fun same => not_sending_of_running sound.running (same ▸ sending)
  have run := receive_quiet quiet msg dataPtr capacity
  rw [noNotification] at run
  dsimp only at run
  rw [if_pos (by rw [queue]; exact List.cons_ne_nil _ _)] at run
  let ready := k.modify k.current (receiveBuffer dataPtr capacity)
  have first : Registered ready := registered.modify rfl (registered.live _ registered.current)
  have popped : Registered (ready.modify ready.current dropSender) :=
    first.modify rfl (first.live _ first.current)
  have waiting : (ready.table ready.current).sendQueue = sender :: rest :=
    (congrArg Process.sendQueue (KernelState.table_modify_self _ _ _)).trans queue
  have found : ProcessManager.get (ready.modify ready.current dropSender) sender = some sender :=
    popped.get_of_mem member
  obtain ⟨written, _, _⟩ := memory_receive_queued (k := ready)
    (by rw [waiting]; rfl) found other msg dataPtr capacity
  have bounds := (sound.stable.admissible _ registered.current).senders sender
    (by rw [queue]; exact List.mem_cons_self)
  have queued : ∃ filled, receiveQueued ready msg dataPtr capacity = (filled, asI32 sender) ∧
      filled.log = .received (k.table k.current).pid sender (ready.table sender).msg :: k.log := by
    have owner : ((ready.modify ready.current dropSender).table ready.current).pid =
        (k.table k.current).pid := by
      rw [KernelState.modify_keeps _ _ _ _ Process.pid rfl]
      exact KernelState.modify_keeps _ _ _ _ Process.pid rfl
    rcases receive_queued_cases popped msg dataPtr capacity waiting with
      ⟨gone, _⟩ | ⟨_, memory, received⟩
    · exact absurd member gone
    · rw [owner, KernelState.modify_keeps _ _ _ _ Process.msg rfl] at received
      exact ⟨_, received, rfl⟩
  obtain ⟨filled, received, log⟩ := queued
  have answer := run.trans received
  have nonzero := as_i32_ne_zero bounds.1 bounds.2
  have after := receive_returns next answer nonzero
  obtain ⟨current, runs⟩ := runs_on sound next answer nonzero
  subst after
  rw [received] at written
  have holds : Holds (returnValue filled (receiveValue (asI32 sender)))
      ⟨k.cr3, msg, dataPtr, capacity⟩ (ready.table sender).msg :=
    holds_written (bulk_length_le _ _ _ _) written
  have value : receiveValue (asI32 sender) = sender ∨
      (asI32 sender = -2 ∨ asI32 sender = -3) ∧ receiveValue (asI32 sender) = 0 := by
    unfold receiveValue
    by_cases taken : asI32 sender = -2 ∨ asI32 sender = -3
    · exact .inr ⟨taken, if_pos taken⟩
    · rw [if_neg taken]
      exact .inl (as_u32_as_i32 bounds.2)
  refine ⟨_, observed_fetched sound next log (decide_eq_true rfl)
    (.received _ k.current _ _ _ registered.current (.called esp msg dataPtr capacity rfl (runs _))
      (not_interrupted_call quiet) holds ?_)⟩
  rw [frame_eax_return_value current]
  exact value

theorem receive_blocks (noNotification : (k.table k.current).notifyQueue = [])
    (noSender : (k.table k.current).sendQueue = []) :
    (k'.table k.current).state = .receiveBlocked := by
  have run := receive_quiet quiet msg dataPtr capacity
  rw [noNotification] at run
  dsimp only at run
  rw [if_neg (by rw [noSender]; exact not_not_intro rfl)] at run
  cases stepped next with
  | syscall _ _ user _ =>
      have handled := handled_receive sound user
        (receive_outcome sound.stable.registered msg dataPtr capacity)
      rw [run] at handled
      have waits : ∀ p, ((waitForMessage msg) p).state = .receiveBlocked := fun _ => rfl
      rw [handle_receive, run]
      dsimp only
      rw [if_neg (by decide), blockOrReturn, if_pos rfl]
      have caller := congrArg Process.state (KernelState.table_modify_self
        (k.modify k.current (receiveBuffer dataPtr capacity)) k.current (waitForMessage msg))
      rw [state_reschedule handled.stable user esp (by rw [caller, waits]; decide)]
      exact caller.trans (waits _)

end Quiet

theorem observed_receive (sound : Sound k) (delivers : Delivers k)
    (next : step k (.syscall esp (.receive msg dataPtr capacity)) = some k') :
    ∃ events, Observed k k' (.syscall esp (.receive msg dataPtr capacity)) events := by
  have registered := sound.stable.registered
  have member := registered.current
  have only := fun r live b => returns_called (r := r) (b := b) sound live next
  by_cases pends : ∃ line, line < irqLines ∧ pendingFor k (k.table k.current).pid line = true
  · obtain ⟨filled, answer, log⟩ := receive_interrupted pends
    have after := receive_returns next answer (by decide)
    refine ⟨[], observed_nothing (after ▸ log) id ?_⟩
    intro r live b returns
    rw [← (only r live b returns).1]
    exact pends
  have quiet : ∀ irq, irq < irqLines → pendingFor k (k.table k.current).pid irq = false :=
    fun irq inside => Bool.eq_false_iff.mpr fun pending => pends ⟨irq, inside, pending⟩
  cases notes : (k.table k.current).notifyQueue with
  | cons node rest => exact observed_heard sound next quiet notes
  | nil =>
      cases senders : (k.table k.current).sendQueue with
      | cons sender rest => exact observed_received sound next quiet delivers notes senders
      | nil =>
          have waits := receive_blocks sound next quiet notes senders
          obtain ⟨k₁, change, same⟩ := ipc_step sound next
          have log : k₁.log = k.log := by
            cases change with
            | none => rfl
            | heard _ _ _ _ head => cases notes.symm.trans head
            | senderGone _ _ _ _ head => cases senders.symm.trans head
            | received _ _ _ _ head => cases senders.symm.trans head
          refine ⟨[], observed_nothing (same.log.trans log) id ?_⟩
          intro r live b returns
          obtain ⟨rfl, runs⟩ := only r live b returns
          exact absurd waits runs

end Calls

section Steps

/-- A step without `send`, `notify` or `receive`. -/
theorem observed_quiet (sound : Sound k) (next : step k action = some k')
    (log : k'.log = k.log) (refused : ¬ Accepted k k' action)
    (silent : ∀ r, Awaited k r action → (k.table r).state = .receiveBlocked →
      Interrupted k r action)
    (other : ∀ esp msg dataPtr capacity, action ≠ .syscall esp (.receive msg dataPtr capacity)) :
    Observed k k' action [] := by
  refine observed_nothing log refused ?_
  intro r live b returns
  obtain ⟨awaited, waiting⟩ := returns_awaited sound live returns next other
  exact silent r awaited waiting

theorem waiting_not_sending {r : Ref} (waiting : (k.table r).state = .receiveBlocked)
    (sending : (k.table r).state = .sendBlocked) : False :=
  ProcessState.noConfusion (waiting.symm.trans sending)

theorem observed_reply (sound : Sound k) {esp targetPid msg dataPtr dataLen : Nat} :
    let call := Call.reply targetPid msg dataPtr dataLen
    ∃ events, Observed k (handleSyscall k esp call).1 (.syscall esp call) events := by
  intro call
  have registered := sound.stable.registered
  have caller : (k.table k.current).pid = k.current := registered.pid _ registered.current
  have outcome := reply_outcome registered targetPid msg dataPtr dataLen
  change ∃ events, Observed k (returnValue (reply k targetPid msg dataPtr dataLen).1
    (asU32 (reply k targetPid msg dataPtr dataLen).2))
    (.syscall esp (.reply targetPid msg dataPtr dataLen)) events
  generalize reply k targetPid msg dataPtr dataLen = answer at *
  have still (r : Ref) (waiting : (k.table r).state = .receiveBlocked) :
      ((returnValue answer.1 (asU32 answer.2)).table r).state = .receiveBlocked := by
    rw [state_return_value]
    rcases state_reply (r := r) outcome with same | ⟨_, sending⟩
    · exact same.trans waiting
    · exact (waiting_not_sending waiting sending).elim
  cases outcome with
  | refused _ =>
      refine ⟨[], observed_nothing rfl id ?_⟩
      rintro r _ b ⟨_, waiting, woken⟩
      exact absurd (still r waiting) woken
  | answered memory live sending =>
      have replied := Happens.replied (k := k) esp targetPid msg dataPtr dataLen
        (frame_eax_return_value (k := (withMemory (k.modify targetPid (setResult 0))
          memory).record (.replied k.current targetPid)) rfl (asU32 0))
      rw [caller] at replied
      refine ⟨_, observed_one rfl replied (fun taken => absurd taken id) ?_⟩
      rintro r _ b ⟨_, waiting, woken⟩
      exact absurd (still r waiting) woken

theorem observed_step (sound : Sound k) (delivers : Delivers k)
    (next : step k action = some k') : ∃ events, Observed k k' action events := by
  obtain ⟨k₁, change, same⟩ := ipc_step sound next
  cases stepped next with
  | user bytes _ =>
      refine ⟨[], observed_quiet sound next rfl id ?_ nofun⟩
      intro r awaited
      cases awaited
  | irq number esp _ =>
      refine ⟨[], observed_quiet sound next ?_ id (fun _ _ _ => trivial) nofun⟩
      cases change
      exact same.log
  | syscall esp call user _ =>
      cases call with
      | send targetPid msg dataPtr dataLen node => exact observed_send sound user node
      | receive msg dataPtr capacity => exact observed_receive sound delivers next
      | reply targetPid msg dataPtr dataLen => exact observed_reply sound
      | notify targetPid msg dataPtr dataLen node data => exact observed_notify sound node data
      | irqRegister irq =>
          refine ⟨[], observed_quiet sound next ?_ id ?_ nofun⟩
          · cases change
            exact same.log
          · intro r awaited
            cases awaited
      | exec elfPtr elfSize loading =>
          refine ⟨[], observed_quiet sound next ?_ id ?_ nofun⟩
          · cases change <;> exact same.log
          · intro r awaited
            cases awaited
      | waitpid pid =>
          refine ⟨[], observed_quiet sound next ?_ id ?_ nofun⟩
          · cases change
            exact same.log
          · intro r awaited
            cases awaited
      | exit =>
          refine ⟨[], observed_quiet sound next ?_ id ?_ nofun⟩
          · cases change with
            | none _ notExit => exact absurd rfl (notExit esp)
            | exited _ exit => exact same.log.trans exit.log
          · intro r awaited waiting
            cases awaited with
            | receiverExit _ sending _ => exact (waiting_not_sending waiting sending).elim
            | processExit _ waits _ =>
                exact ProcessState.noConfusion (waiting.symm.trans waits)

end Steps

end CassiOS.Kernel.MessageLog
