import CassiOS.Kernel.PreemptionInvariant
import CassiOS.Kernel.SchedulingSafety

/-!
# No lost wake-up

With interrupts between the steps of the handlers, no process is left in state `Running`
without being the current one and none sleeps on a message, provided that no time slice
ends where a handler relies on its last look or store. Without this condition there is a
run in which a process is left behind.
-/

namespace CassiOS.Kernel.PreemptionSafety

open CassiOS.Support.Words
open CassiOS.Support.Preemption
open CassiOS.Support.TransitionSystem
open CassiOS.Kernel.State
open CassiOS.Kernel.ProcessManager
open CassiOS.Kernel.Scheduler
open CassiOS.Kernel.Irq
open CassiOS.Kernel.System
open CassiOS.Kernel.ProcessTable
open CassiOS.Kernel.Invariant
open CassiOS.Kernel.Outcomes
open CassiOS.Kernel.Exit
open CassiOS.Kernel.ProcessStates
open CassiOS.Kernel.SchedulingSafety
open CassiOS.Kernel.History
open CassiOS.Kernel.Preemption
open CassiOS.Kernel.PreemptionInvariant

set_option autoImplicit false

variable {k k' : KernelState} {me : Ref}

/-- The handler of `me`, about to go on in `k`, does no harm. -/
abbrev SafeAt (me : Ref) (handler : Steps) (k : KernelState) : Prop :=
  Safe KernelState.current Settled NoLostWakeup Quiet me handler k

abbrev RestsAt (me : Ref) (handler : Steps) : Prop :=
  Rests KernelState.current Settled NoLostWakeup Quiet me handler

/-! ## Single steps -/

section Rules

variable {act : KernelState → KernelState} {next : KernelState → Steps} {rest : Steps}

theorem rests_first
    (onward : ∀ k, Settled k → k.current = me → SafeAt me (next k) (act k) ∧
      (act k).current = me) : RestsAt me (first act next) :=
  fun k settled own _ => ⟨(onward k settled own).1, Or.inl (onward k settled own).2⟩

theorem rests_look (onward : ∀ k, Settled k → k.current = me → SafeAt me (next k) k) :
    RestsAt me (look next) :=
  rests_first fun k settled own => ⟨onward k settled own, own⟩

theorem safe_relying (now : NoLostWakeup k)
    (onward : ∀ k', Quiet k k' → SafeAt me (next k') (act k') ∧ (act k').current = me) :
    SafeAt me (.relying act next) k :=
  ⟨now, fun k' quiet => ⟨(onward k' quiet).1, Or.inl (onward k' quiet).2⟩⟩

/-- A step that keeps the invariant, in front of a handler that needs nothing else. -/
theorem safe_store (settled : Settled k) (own : k.current = me)
    (kept : ∀ k', Quiet k k' → Settled k' → k'.current = me →
      Settled (act k') ∧ (act k').current = me ∧ SafeAt me rest (act k')) :
    SafeAt me (store act rest) k :=
  safe_relying settled.holds fun k' quiet => by
    obtain ⟨_, stays, safe⟩ := kept k' quiet (quiet.settled settled)
      (quiet.current.trans own)
    exact ⟨safe, stays⟩

theorem safe_look_again (settled : Settled k) (own : k.current = me)
    (onward : ∀ k', Quiet k k' → Settled k' → k'.current = me → SafeAt me (next k') k') :
    SafeAt me (lookAgain next) k :=
  safe_relying settled.holds fun k' quiet =>
    ⟨onward k' quiet (quiet.settled settled) (quiet.current.trans own),
      quiet.current.trans own⟩

theorem rests_returning (eax : Nat) : RestsAt me (returning eax) :=
  rests_first fun k settled own =>
    ⟨settled.keep k.current (fun _ => ⟨rfl, rfl, rfl, rfl⟩) settled.live_current, own⟩

theorem safe_returning (settled : Settled k) (eax : Nat) : SafeAt me (returning eax) k :=
  safe_of_rests settled (rests_returning eax)

end Rules

theorem safe_switching (core : Core k) (own : k.current = me) (user : me ≠ kernelTask)
    (stopped : (k.table me).state ≠ .running) (esp : Nat) : SafeAt me (switching esp) k := by
  refine ⟨core.holds, fun k' quiet => ⟨?_, Or.inr rfl⟩⟩
  change Settled (reschedule k' esp).1
  have core' := quiet.core core
  have own' : k'.current = me := quiet.current.trans own
  rw [reschedule_eq core'.registered (own' ▸ user)]
  have counted : Core { k' with tickCount := 0 } := by
    refine Quiet.core ?_ core'
    exact ⟨rfl, rfl, rfl, rfl, rfl, fun _ => Or.inl rfl⟩
  refine counted.switch ?_ ?_ esp
  · change (k'.table k'.current).state ≠ .running
    rw [own']
    rcases quiet.table me with same | ⟨_, woken⟩
    · rw [same]
      exact stopped
    · rw [woken]
      exact nofun
  · rcases find_next_ready_cases core'.registered.nodup core'.registered.current with
      same | ⟨member, _⟩
    · rw [same]
      exact core'.registered.current
    · exact member

theorem safe_blocking (settled : Settled k) (own : k.current = me) (user : me ≠ kernelTask)
    {state : ProcessState} (live : state ≠ .empty) (stopped : state ≠ .running)
    (receiver : state = .receiveBlocked → (k.table me).sendQueue = [] ∧
      (k.table me).notifyQueue = [])
    (sender : state = .sendBlocked → ¬ Answered (k.table me).pid k.log) (esp : Nat) :
    SafeAt me (store (fun k => k.modify me (Syscall.block state)) (switching esp)) k := by
  refine safe_relying settled.holds fun k' quiet => ?_
  have settled' := quiet.settled settled
  have own' : k'.current = me := quiet.current.trans own
  have same : k'.table me = k.table me := quiet.table_eq (by
    rw [← own, settled.running]
    exact nofun)
  subst own'
  have core := settled'.block live stopped (by rw [same]; exact receiver)
    (by rw [same, quiet.log]; exact sender)
  refine ⟨safe_switching core rfl user ?_ esp, rfl⟩
  change ((k'.modify k'.current (Syscall.block state)).table k'.current).state ≠ .running
  rw [KernelState.table_modify_self]
  exact stopped

/-! ## Deliveries -/

theorem settled_with_memory (settled : Settled k) (memory : Nat → Nat → UInt8) :
    Settled (withMemory k memory) := (Quiet.with_memory k memory).settled settled

theorem copy_bulk_eq (k : KernelState) (target : Ref) (dataPtr dataLen : Nat) :
    ∃ memory, Syscall.copyBulk k target dataPtr dataLen = withMemory k memory := by
  unfold Syscall.copyBulk
  split
  · exact copy_data_to_process_eq k target _ _ _
  · exact ⟨k.memory, rfl⟩

/-- The stores of a delivery up to the process that receives it keep the invariant. -/
theorem safe_delivering {target : Ref} {words : KernelState → Message}
    {dataPtr dataLen eax : Nat} {rest : Steps} (settled : Settled k) (own : k.current = me)
    (member : target ∈ k.processes)
    (onward : ∀ k', Settled k' → k'.current = me → target ∈ k'.processes →
      SafeAt me rest k') :
    SafeAt me (delivering target words dataPtr dataLen eax rest) k := by
  refine safe_store settled own fun k₁ quiet₁ settled₁ own₁ => ?_
  obtain ⟨memory₁, same₁⟩ := copy_message_to_process_eq k₁ target
    (k₁.table target).msgPtr (words k₁)
  have copied := settled_with_memory settled₁ memory₁
  rw [same₁]
  refine ⟨copied, own₁, safe_store copied own₁ fun k₂ quiet₂ settled₂ own₂ => ?_⟩
  obtain ⟨memory₂, same₂⟩ := copy_bulk_eq k₂ target dataPtr dataLen
  have bulk := settled_with_memory settled₂ memory₂
  rw [same₂]
  refine ⟨bulk, own₂, safe_store bulk own₂ fun k₃ quiet₃ settled₃ own₃ => ?_⟩
  have member₃ : target ∈ k₃.processes := by
    rw [quiet₃.processes]
    change target ∈ k₂.processes
    rw [quiet₂.processes]
    change target ∈ k₁.processes
    rw [quiet₁.processes]
    exact member
  have marked : Settled (k₃.modify target (setEax eax)) :=
    settled₃.keep target (fun _ => ⟨rfl, rfl, rfl, rfl⟩)
      (settled₃.core.registered.live target member₃)
  exact ⟨marked, own₃, onward _ marked own₃ member₃⟩

/-! ## The log -/

theorem answered_of_sent {s sender target : Nat} {msg : Message} {log : List Event}
    (answered : Answered s (.sent sender target msg :: log)) :
    sender ≠ s ∧ Answered s log := by
  obtain ⟨addressee, shape⟩ := answered
  by_cases own : sender = s
  · rw [currentSend, if_pos own] at shape
    cases shape
  · rw [currentSend, if_neg own] at shape
    exact ⟨own, addressee, shape⟩

theorem answered_of_received {s receiver sender : Nat} {msg : Message} {log : List Event}
    (answered : Answered s (.received receiver sender msg :: log)) : Answered s log := by
  obtain ⟨addressee, shape⟩ := answered
  rw [currentSend] at shape
  split at shape
  · cases shape
  · exact ⟨addressee, shape⟩

theorem answered_of_replied {s replier target : Nat} {log : List Event} (other : target ≠ s)
    (answered : Answered s (.replied replier target :: log)) : Answered s log := by
  obtain ⟨addressee, shape⟩ := answered
  rw [currentSend, if_neg other] at shape
  exact ⟨addressee, shape⟩

theorem settled_sent (settled : Settled k) (sender target : Nat) (msg : Message) :
    Settled (k.record (.sent sender target msg)) :=
  settled.record fun _ _ _ answered => (answered_of_sent answered).2

theorem settled_received (settled : Settled k) (receiver sender : Nat) (msg : Message) :
    Settled (k.record (.received receiver sender msg)) :=
  settled.record fun _ _ _ answered => answered_of_received answered

theorem settled_notified (settled : Settled k) (sender target : Nat) (msg : Message) :
    Settled (k.record (.notified sender target msg)) :=
  settled.record fun _ _ _ answered => answered

theorem settled_heard (settled : Settled k) (receiver sender : Nat) (msg : Message) :
    Settled (k.record (.heard receiver sender msg)) :=
  settled.record fun _ _ _ answered => answered

theorem settled_replied (settled : Settled k) {target : Ref} (member : target ∈ k.processes)
    (ready : (k.table target).state = .ready) (replier : Nat) :
    Settled (k.record (.replied replier (k.table target).pid)) := by
  refine settled.record fun r known sending answered => answered_of_replied ?_ answered
  intro same
  have registered := settled.core.registered
  rw [registered.pid target member, registered.pid r known] at same
  rw [← same, ready] at sending
  cases sending

/-! ## Handlers -/

theorem safe_block_sender (user : me ≠ kernelTask) (settled : Settled k)
    (own : k.current = me)
    (unanswered : ¬ Answered (k.table me).pid k.log) (esp : Nat) :
    SafeAt me (blockSender me esp) k := by
  refine safe_blocking settled own user ?_ ?_ ?_ (fun _ => unanswered) esp
  · exact nofun
  · exact nofun
  · exact nofun

theorem safe_send_direct {target : Ref} {senderPid : Nat} (user : me ≠ kernelTask)
    (settled : Settled k)
    (own : k.current = me) (member : target ∈ k.processes) (other : target ≠ me)
    (pid : senderPid = me) (dataPtr dataLen esp : Nat) :
    SafeAt me (sendDirect me target senderPid dataPtr dataLen esp) k := by
  refine safe_delivering settled own member fun k₁ settled₁ own₁ member₁ => ?_
  refine safe_store settled₁ own₁ fun k₂ quiet₂ settled₂ own₂ => ?_
  have ready : Settled (k₂.modify target makeReady) :=
    settled₂.make_ready (by rw [own₂]; exact other)
  have recorded := settled_received (settled_sent ready senderPid (k₂.table target).pid
    (k₂.table me).msg) (k₂.table target).pid senderPid (k₂.table me).msg
  refine ⟨recorded, own₂, safe_block_sender user recorded own₂ ?_ esp⟩
  intro answered
  have self : senderPid = ((k₂.modify target makeReady).table me).pid := by
    rw [pid]
    exact (ready.core.registered.pid me (own₂ ▸ ready.core.registered.current)).symm
  exact (answered_of_sent (answered_of_received answered)).1 self

theorem safe_send_queued {target : Ref} {senderPid : Nat} (user : me ≠ kernelTask)
    (settled : Settled k)
    (own : k.current = me) (member : target ∈ k.processes)
    (busy : (k.table target).state ≠ .receiveBlocked)
    (pid : senderPid = me) (esp : Nat) (node : Bool) :
    SafeAt me (sendQueued me target senderPid esp node) k := by
  refine safe_relying settled.holds fun k' quiet => ?_
  have settled' := quiet.settled settled
  have own' := quiet.current.trans own
  have registered := settled'.core.registered
  cases node with
  | false => exact ⟨safe_returning settled' _, own'⟩
  | true =>
      have bounds : senderPid ≠ 0 ∧ senderPid < 4294967296 := by
        have created := registered.created _ registered.current
        have bound := registered.bound
        rw [own'] at created
        rw [pid]
        exact ⟨user, Nat.lt_of_lt_of_le created bound⟩
      have member' : target ∈ k'.processes := quiet.processes ▸ member
      have pushed : Settled (k'.modify target (appendSender senderPid)) := by
        refine settled'.enqueue member' ?_ (fun _ => rfl) (fun _ => rfl) fun s inQueue => ?_
        · rw [quiet.table_eq busy]
          exact busy
        · rcases List.mem_append.mp inQueue with old | new
          · exact (settled'.core.fits target member').queued s old
          · exact List.mem_singleton.mp new ▸ bounds
      have recorded := settled_sent pushed senderPid (k'.table target).pid (k'.table me).msg
      refine ⟨safe_block_sender user recorded own' ?_ esp, own'⟩
      intro answered
      have self : senderPid = ((k'.modify target (appendSender senderPid)).table me).pid := by
        refine pid.trans ?_
        exact (pushed.core.registered.pid me (own' ▸ pushed.core.registered.current)).symm
      exact (answered_of_sent answered).1 self

theorem rests_send (user : me ≠ kernelTask) (esp targetPid msg dataPtr dataLen : Nat) (node : Bool) :
    RestsAt me (send esp targetPid msg dataPtr dataLen node) := by
  refine rests_look fun k settled own => ?_
  have registered := settled.core.registered
  have pid : (k.table k.current).pid = me := by
    rw [registered.pid _ registered.current]
    exact own
  dsimp only
  cases found : get k targetPid with
  | none => exact safe_returning settled _
  | some target =>
      obtain ⟨rfl, member⟩ := registered.get_eq_some.mp found
      dsimp only
      by_cases self : target = k.current
      · rw [if_pos self]
        exact safe_returning settled _
      · rw [own] at self pid
        rw [own, if_neg self]
        refine safe_store settled own fun k₁ quiet₁ settled₁ own₁ => ?_
        have noted : Settled (k₁.modify me
            (Syscall.outgoing (readMessage k₁ msg) msg dataPtr dataLen)) :=
          settled₁.keep me (fun _ => ⟨rfl, rfl, rfl, rfl⟩) (by
            rw [← own₁]
            exact settled₁.live_current)
        refine ⟨noted, own₁, safe_look_again noted own₁ fun k₂ quiet₂ settled₂ own₂ => ?_⟩
        have member₂ : target ∈ k₂.processes := by
          rw [quiet₂.processes]
          exact quiet₁.processes ▸ member
        by_cases waiting : (k₂.table target).state = .receiveBlocked
        · rw [if_pos waiting]
          exact safe_send_direct user settled₂ own₂ member₂ self pid dataPtr dataLen esp
        · rw [if_neg waiting]
          exact safe_send_queued user settled₂ own₂ member₂ waiting pid esp node

theorem rests_receive_result {result : Int} (settled : Settled k) (nonzero : result ≠ 0)
    (esp : Nat) : SafeAt me (receiveResult esp result) k := by
  unfold receiveResult
  rw [if_neg nonzero]
  split <;> exact safe_returning settled _

theorem copy_queued_eq (k : KernelState) (sender : Ref) (dataPtr dataCapacity : Nat) :
    ∃ memory, copyQueued sender dataPtr dataCapacity k = withMemory k memory := by
  unfold copyQueued
  split
  · exact copy_data_from_process_eq k sender _ _ _
  · exact ⟨k.memory, rfl⟩

theorem safe_receive_queued (settled : Settled k) (own : k.current = me)
    (queue : (k.table me).sendQueue ≠ []) (esp msg dataPtr dataCapacity : Nat) :
    SafeAt me (receiveQueued esp msg dataPtr dataCapacity) k := by
  refine safe_relying settled.holds fun k₁ quiet₁ => ?_
  have settled₁ := quiet₁.settled settled
  have own₁ := quiet₁.current.trans own
  have same : k₁.table me = k.table me := quiet₁.table_eq (by
    rw [← own, settled.running]
    exact nofun)
  have fits := settled₁.core.fits _ settled₁.core.registered.current
  have popped : Settled (k₁.modify k₁.current dropSender) := by
    refine settled₁.enqueue settled₁.core.registered.current ?_ (fun _ => rfl)
      (fun _ => rfl) fun s inQueue => fits.queued s (List.mem_of_mem_tail inQueue)
    rw [settled₁.running]
    exact nofun
  have nonzero : asI32 ((k₁.table k₁.current).sendQueue.headD 0) ≠ 0 := by
    rw [own₁, same]
    rw [own₁, same] at fits
    cases shape : (k.table me).sendQueue with
    | nil => exact absurd shape queue
    | cons senderPid rest =>
        have bounds := fits.queued senderPid (by rw [shape]; exact List.mem_cons_self)
        exact as_i32_ne_zero bounds.1 bounds.2
  generalize (k₁.table k₁.current).sendQueue.headD 0 = senderPid at nonzero
  refine ⟨safe_of_rests popped (rests_look fun k₂ settled₂ own₂ => ?_), own₁⟩
  cases get k₂ senderPid with
  | none => exact safe_returning settled₂ _
  | some sender =>
      refine safe_store settled₂ own₂ fun k₃ quiet₃ settled₃ own₃ => ?_
      obtain ⟨memory, written⟩ := write_message_eq k₃ msg (k₃.table sender).msg
      have message := settled_with_memory settled₃ memory
      rw [written]
      refine ⟨message, own₃, safe_store message own₃ fun k₄ quiet₄ settled₄ own₄ => ?_⟩
      obtain ⟨bulk, copied⟩ := copy_queued_eq k₄ sender dataPtr dataCapacity
      rw [copied]
      have received := settled_received (settled_with_memory settled₄ bulk)
        (k₄.table k₂.current).pid senderPid (k₄.table sender).msg
      exact ⟨received, own₄, rests_receive_result received nonzero esp⟩

theorem safe_receive_waiting (user : me ≠ kernelTask) (settled : Settled k) (own : k.current = me)
    (empty : (k.table me).sendQueue = [] ∧ (k.table me).notifyQueue = [])
    (esp msg : Nat) : SafeAt me (receiveWaiting me esp msg) k := by
  refine safe_store settled own fun k₁ quiet₁ settled₁ own₁ => ?_
  have same : k₁.table me = k.table me := quiet₁.table_eq (by
    rw [← own, settled.running]
    exact nofun)
  have noted : Settled (k₁.modify me fun p => { p with msgPtr := msg }) :=
    settled₁.keep me (fun _ => ⟨rfl, rfl, rfl, rfl⟩) (by
      rw [← own₁]
      exact settled₁.live_current)
  refine ⟨noted, own₁, safe_blocking noted own₁ user ?_ ?_ (fun _ => ?_) ?_ esp⟩
  · exact nofun
  · exact nofun
  · rw [KernelState.table_modify_self, same]
    exact empty
  · exact nofun

theorem rests_receive (user : me ≠ kernelTask) (esp msg dataPtr dataCapacity : Nat) :
    RestsAt me (receive esp msg dataPtr dataCapacity) := by
  refine rests_first fun k settled own => ⟨?_, own⟩
  have noted : Settled (k.modify k.current (Syscall.receiveBuffer dataPtr dataCapacity)) :=
    settled.keep _ (fun _ => ⟨rfl, rfl, rfl, rfl⟩) settled.live_current
  refine safe_of_rests noted (rests_first fun k₁ settled₁ own₁ => ?_)
  have pending : Settled (deliverPending k₁ (k₁.table k₁.current).pid msg).1 ∧
      (deliverPending k₁ (k₁.table k₁.current).pid msg).1.current = k₁.current := by
    rcases deliver_pending_cases k₁ (k₁.table k₁.current).pid msg with
      ⟨_, none⟩ | ⟨irq, memory, _, _, _, found⟩
    · rw [none]
      exact ⟨settled₁, rfl⟩
    · rw [found]
      refine ⟨Quiet.settled ?_ settled₁, rfl⟩
      exact ⟨rfl, rfl, rfl, rfl, rfl, fun _ => Or.inl rfl⟩
  refine ⟨?_, pending.2.trans own₁⟩
  split
  · exact safe_returning pending.1 _
  · refine safe_of_rests pending.1 (rests_first fun k₂ settled₂ own₂ => ?_)
    cases queue : (k₂.table k₂.current).notifyQueue with
    | nil =>
        have popped : popNotified msg dataPtr dataCapacity k₂ = k₂ := by
          rw [popNotified, notifyPop, queue]
        rw [popped, if_neg fun apart => apart rfl]
        refine ⟨safe_look_again settled₂ own₂ fun k₃ quiet₃ settled₃ own₃ => ?_, own₂⟩
        rw [own₂] at queue
        have same : k₃.table me = k₂.table me := quiet₃.table_eq (by
          rw [← own₂, settled₂.running]
          simp)
        rw [own₃]
        by_cases senders : (k₃.table me).sendQueue ≠ []
        · rw [if_pos senders]
          exact safe_receive_queued settled₃ own₃ senders esp msg dataPtr dataCapacity
        · rw [if_neg senders]
          refine safe_receive_waiting user settled₃ own₃ ⟨not_not.mp senders, ?_⟩ esp msg
          rw [same, queue]
    | cons node rest =>
        rw [if_pos (List.cons_ne_nil _ _)]
        have shape : popNotified msg dataPtr dataCapacity k₂ =
            Syscall.receiveNotified k₂ msg dataPtr dataCapacity node
              (dropNotify (k₂.table k₂.current)) := by
          rw [popNotified, notifyPop, queue]
        obtain ⟨memory, heard⟩ := receive_notified_eq k₂ msg dataPtr dataCapacity node
          (dropNotify (k₂.table k₂.current))
        rw [shape, heard, KernelState.modify_const]
        have fits := settled₂.core.fits _ settled₂.core.registered.current
        have popped : Settled (k₂.modify k₂.current dropNotify) := by
          refine settled₂.enqueue settled₂.core.registered.current ?_ (fun _ => rfl)
            (fun _ => rfl) fits.queued
          rw [settled₂.running]
          simp
        have recorded := settled_heard (settled_with_memory popped memory)
          (dropNotify (k₂.table k₂.current)).pid node.senderPid node.msg
        exact ⟨safe_returning recorded _, own₂⟩

theorem rests_reply (targetPid msg dataPtr dataLen : Nat) :
    RestsAt me (reply targetPid msg dataPtr dataLen) := by
  refine rests_look fun k settled own => ?_
  have registered := settled.core.registered
  cases found : get k targetPid with
  | none => exact safe_returning settled _
  | some target =>
      obtain ⟨rfl, member⟩ := registered.get_eq_some.mp found
      dsimp only
      by_cases idle : (k.table target).state ≠ .sendBlocked
      · rw [if_pos idle]
        exact safe_returning settled _
      · rw [if_neg idle]
        have other : target ≠ me := by
          rintro rfl
          rw [← own, settled.running] at idle
          exact idle nofun
        refine safe_look_again settled own fun k₁ quiet₁ settled₁ own₁ => ?_
        refine safe_delivering settled₁ own₁ (quiet₁.processes ▸ member)
          fun k₂ settled₂ own₂ member₂ => ?_
        refine safe_store settled₂ own₂ fun k₃ quiet₃ settled₃ own₃ => ?_
        have ready : Settled (k₃.modify target makeReady) :=
          settled₃.make_ready (own₃ ▸ other)
        have state : ((k₃.modify target makeReady).table target).state = .ready := by
          rw [KernelState.table_modify_self]
          rfl
        have pid : ((k₃.modify target makeReady).table target).pid =
            (k₃.table target).pid := by
          rw [KernelState.table_modify_self]
          rfl
        have replied := settled_replied ready (quiet₃.processes ▸ member₂) state
          (k.table k.current).pid
        rw [pid] at replied
        exact ⟨replied, own₃, safe_returning replied _⟩

theorem safe_notify_direct {target : Ref} {words : KernelState → Message} {temp : Message}
    {senderPid dataPtr dataLen : Nat} (settled : Settled k) (own : k.current = me)
    (member : target ∈ k.processes) (other : target ≠ me) :
    SafeAt me (delivering target words dataPtr dataLen 0 <|
      store (fun k =>
        ((k.modify target makeReady).record
          (.notified senderPid (k.table target).pid temp)).record
          (.heard (k.table target).pid senderPid temp)) <|
      returning 0) k := by
  refine safe_delivering settled own member fun k₁ settled₁ own₁ member₁ => ?_
  refine safe_store settled₁ own₁ fun k₂ quiet₂ settled₂ own₂ => ?_
  have ready : Settled (k₂.modify target makeReady) := settled₂.make_ready (own₂ ▸ other)
  have recorded := settled_heard (settled_notified ready senderPid (k₂.table target).pid temp)
    (k₂.table target).pid senderPid temp
  exact ⟨recorded, own₂, safe_returning recorded _⟩

theorem rests_notify (targetPid msg dataPtr dataLen : Nat) (node data : Bool) :
    RestsAt me (notify targetPid msg dataPtr dataLen node data) := by
  refine rests_look fun k settled own => ?_
  have registered := settled.core.registered
  cases found : get k targetPid with
  | none => exact safe_returning settled _
  | some target =>
      obtain ⟨rfl, member⟩ := registered.get_eq_some.mp found
      dsimp only
      by_cases self : target = k.current
      · rw [if_pos self]
        exact safe_returning settled _
      · rw [if_neg self]
        refine safe_look_again settled own fun k₁ quiet₁ settled₁ own₁ => ?_
        refine safe_look_again settled₁ own₁ fun k₂ quiet₂ settled₂ own₂ => ?_
        have member₂ : target ∈ k₂.processes := by
          rw [quiet₂.processes]
          exact quiet₁.processes ▸ member
        by_cases waiting : (k₂.table target).state = .receiveBlocked
        · rw [if_pos waiting]
          exact safe_notify_direct settled₂ own₂ member₂ (own ▸ self)
        · rw [if_neg waiting]
          refine safe_relying settled₂.holds fun k₃ quiet₃ => ?_
          have settled₃ := quiet₃.settled settled₂
          have own₃ := quiet₃.current.trans own₂
          have busy : (k₃.table target).state ≠ .receiveBlocked := by
            rw [quiet₃.table_eq waiting]
            exact waiting
          have member₃ : target ∈ k₃.processes := quiet₃.processes ▸ member₂
          rcases notify_push_cases (k₃.table target) (k.table k.current).pid
            (readMessage k₁ msg) (readBytes k₃.memory k₃.cr3 dataPtr) dataPtr dataLen node
            data with failed | ⟨pushed, _, _, appended⟩
          · rw [failed]
            exact ⟨safe_returning settled₃ _, own₃⟩
          · rw [appended]
            dsimp only
            rw [KernelState.modify_const]
            have queued : Settled (k₃.modify target (appendNotify pushed)) :=
              settled₃.enqueue member₃ busy (fun _ => rfl) (fun _ => rfl)
                (settled₃.core.fits target member₃).queued
            have recorded := settled_notified queued (k.table k.current).pid
              (k₃.table target).pid (readMessage k₁ msg)
            exact ⟨safe_returning recorded _, own₃⟩

theorem rests_irq_register (irq : Nat) : RestsAt me (irqRegister irq) := by
  refine rests_first fun k settled own => ?_
  have kept : Quiet k (registerForward k (irq % 256) (k.table k.current).pid).1 := by
    unfold registerForward
    split <;> exact ⟨rfl, rfl, rfl, rfl, rfl, fun _ => Or.inl rfl⟩
  exact ⟨safe_returning (kept.settled settled) _, kept.current.trans own⟩

theorem next_ref_small (registered : Registered k) (nonzero : k.nextPid ≠ 0) :
    k.nextRef < 4294967296 := by
  have bound := registered.bound
  have nextPid := registered.nextPid
  rcases Nat.lt_or_eq_of_le bound with small | full
  · exact small
  · rw [full] at nextPid
    exact absurd nextPid nonzero

/-- An object that is not in the list belongs to the process that makes it. -/
structure Unlisted (proc : Ref) (k : KernelState) : Prop where
  absent : proc ∉ k.processes
  created : proc < k.nextRef

theorem Unlisted.kept {proc : Ref} (unlisted : Unlisted proc k) (quiet : Quiet k k') :
    Unlisted proc k' :=
  ⟨quiet.processes ▸ unlisted.absent, quiet.nextRef ▸ unlisted.created⟩

theorem settled_take_pid (settled : Settled k) (fresh : k.nextRef < 4294967296) :
    Settled (takePid k.nextPid k) ∧ Unlisted k.nextRef (takePid k.nextPid k) := by
  have registered := settled.core.registered
  refine ⟨⟨⟨⟨registered.head, registered.nodup, registered.pid, registered.live,
    registered.current, fun r member => Nat.lt_succ_of_lt (registered.created r member), fresh,
    ?_⟩, settled.core.fits⟩, settled.running⟩, fun member => ?_, Nat.lt_succ_self _⟩
  · change u32 (k.nextPid + 1) = (k.nextRef + 1) % 4294967296
    rw [registered.nextPid, u32, Nat.mod_add_mod]
  · exact Nat.lt_irrefl _ (registered.created _ member)

theorem settled_push_back (settled : Settled k) {proc : Ref} (unlisted : Unlisted proc k)
    (pid : (k.table proc).pid = proc) (state : (k.table proc).state = .ready)
    (sendQueue : (k.table proc).sendQueue = []) : Settled (pushBack proc k) := by
  have registered := settled.core.registered
  have cases_mem {r : Ref} (member : r ∈ (pushBack proc k).processes) :
      r ∈ k.processes ∨ r = proc := by
    simpa [pushBack] using member
  obtain ⟨rest, shape⟩ := registered.head
  refine ⟨⟨⟨⟨rest ++ [proc], ?_⟩, ?_, ?_, ?_, List.mem_append_left _ registered.current, ?_,
    registered.bound, registered.nextPid⟩, ?_⟩, settled.running⟩
  · change k.processes ++ [proc] = _
    rw [shape]
    rfl
  · refine List.nodup_append.mpr ⟨registered.nodup, List.nodup_singleton _, ?_⟩
    intro r member q last
    rw [List.mem_singleton.mp last]
    exact fun same => unlisted.absent (same ▸ member)
  · intro r member
    rcases cases_mem member with known | rfl
    · exact registered.pid r known
    · exact pid
  · intro r member
    rcases cases_mem member with known | rfl
    · exact registered.live r known
    · change (k.table r).state ≠ .empty
      rw [state]
      exact nofun
  · intro r member
    rcases cases_mem member with known | rfl
    · exact registered.created r known
    · exact unlisted.created
  · intro r member
    rcases cases_mem member with known | rfl
    · exact settled.core.fits r known
    · change Fits k.current k.log r (k.table r)
      refine ⟨?_, ?_, ?_, ?_⟩
      · simp [state]
      · simp [state]
      · simp [state]
      · simp [sendQueue]

theorem set_up_keeps (kernelEsp heapStart : Nat) (p : Process) :
    (setUp kernelEsp heapStart p).pid = p.pid ∧ (setUp kernelEsp heapStart p).state = p.state ∧
      (setUp kernelEsp heapStart p).sendQueue = p.sendQueue ∧
      (setUp kernelEsp heapStart p).notifyQueue = p.notifyQueue := ⟨rfl, rfl, rfl, rfl⟩

theorem safe_set_up {proc : Ref} (settled : Settled k) (own : k.current = me)
    (member : proc ∈ k.processes) (kernelEsp heapStart : Nat) :
    SafeAt me (store (fun k => k.modify proc (setUp kernelEsp heapStart)) <|
      lookAgain fun k => returning (k.table proc).pid) k := by
  refine safe_store settled own fun k₁ quiet₁ settled₁ own₁ => ?_
  have ready : Settled (k₁.modify proc (setUp kernelEsp heapStart)) :=
    settled₁.keep _ (set_up_keeps kernelEsp heapStart)
      (settled₁.core.registered.live _ (quiet₁.processes ▸ member))
  exact ⟨ready, own₁, safe_look_again ready own₁ fun k₂ _ settled₂ _ =>
    safe_returning settled₂ _⟩

theorem rests_create_process (loading : Loading) : RestsAt me (createProcess loading) := by
  intro k settled own demand
  have registered := settled.core.registered
  have fresh := next_ref_small registered (bne_iff_ne.mp demand)
  refine ⟨safe_relying settled.holds fun k₁ quiet₁ => ?_, .inl own⟩
  have settled₁ := quiet₁.settled settled
  have own₁ := quiet₁.current.trans own
  obtain ⟨taken, unlisted⟩ := settled_take_pid settled₁ (quiet₁.nextRef ▸ fresh)
  rw [quiet₁.nextPid] at taken unlisted
  refine ⟨?_, own₁⟩
  refine safe_store taken own₁ fun k₂ quiet₂ settled₂ own₂ => ?_
  have unlisted₂ := unlisted.kept quiet₂
  have named := Settled.modify_unlisted settled₂ unlisted₂.absent (setPid k.nextPid)
  refine ⟨named, own₂, safe_store named own₂ fun k₃ quiet₃ settled₃ own₃ => ?_⟩
  have unlisted₃ : Unlisted k₁.nextRef k₃ :=
    .kept (k := k₂.modify k₁.nextRef (setPid k.nextPid))
      ⟨unlisted₂.absent, unlisted₂.created⟩ quiet₃
  have pid : (k₃.table k₁.nextRef).pid = k₁.nextRef := by
    rw [quiet₃.same_pid, KernelState.table_modify_self, quiet₁.nextRef]
    exact registered.nextPid.trans (Nat.mod_eq_of_lt fresh)
  have filled := fun new => Settled.modify_unlisted settled₃ unlisted₃.absent new
  refine ⟨filled _, own₃, safe_store (filled _) own₃ fun k₄ quiet₄ settled₄ own₄ => ?_⟩
  have record := quiet₄.table_eq (r := k₁.nextRef) (by
    rw [KernelState.table_modify_self]
    exact nofun)
  rw [KernelState.table_modify_self] at record
  have listed := settled_push_back settled₄
    (.kept (k := k₃.modify k₁.nextRef _) ⟨unlisted₃.absent, unlisted₃.created⟩ quiet₄)
    (by rw [record]; exact pid) (by rw [record]; rfl) (by rw [record]; rfl)
  exact ⟨listed, own₄, safe_set_up listed own₄
    (List.mem_append_right _ (List.mem_singleton_self _)) _ _⟩

theorem rests_exec (elfPtr elfSize : Nat) (loading : Loading) :
    RestsAt me (exec elfPtr elfSize loading) := by
  unfold exec
  repeat' split
  iterate 7 exact rests_returning _
  exact rests_create_process loading

theorem rests_waitpid (user : me ≠ kernelTask) (esp pid : Nat) :
    RestsAt me (waitpid esp pid) := by
  refine rests_look fun k settled own => ?_
  cases get k pid with
  | none => exact safe_returning settled _
  | some target =>
      dsimp only
      by_cases self : target = k.current
      · rw [if_pos self]
        exact safe_returning settled _
      · rw [if_neg self, own]
        refine safe_store settled own fun k₁ quiet₁ settled₁ own₁ => ?_
        have noted : Settled (k₁.modify me fun p => { p with waitPid := pid }) :=
          settled₁.keep me (fun _ => ⟨rfl, rfl, rfl, rfl⟩) (by
            rw [← own₁]
            exact settled₁.live_current)
        refine ⟨noted, own₁, safe_blocking noted own₁ user ?_ ?_ ?_ ?_ esp⟩ <;> exact nofun

/-- `destroy` takes the caller off the list; nobody runs until the next process is
resumed. -/
theorem core_destroyed (user : me ≠ kernelTask) (settled : Settled k) (own : k.current = me)
    {next : Ref} (member : next ∈ k.processes) (other : next ≠ me) :
    Core { destroy k me with current := next } ∧
      ∀ r ∈ (destroy k me).processes, ((destroy k me).table r).state ≠ .running := by
  have registered := settled.core.registered
  have live : me ∈ k.processes := own ▸ registered.current
  obtain ⟨table, destroyed, survivors⟩ := destroy_spec registered live user
  rw [destroyed]
  have mem_iff (r : Ref) : r ∈ k.processes.erase me ↔ r ≠ me ∧ r ∈ k.processes :=
    registered.nodup.mem_erase_iff
  have stopped : ∀ r ∈ k.processes.erase me, (table r).state ≠ .running := by
    intro r inside
    obtain ⟨apart, known⟩ := (mem_iff r).mp inside
    rw [survivors r known apart]
    rcases (survivor_keeps (k := k) me r).2.2.2.2.2 with same | ready
    · rw [same]
      exact fun running => apart (((settled.core.fits r known).running running).trans own)
    · rw [ready]
      exact nofun
  refine ⟨⟨⟨?_, ?_, ?_, ?_, ?_, ?_, registered.bound, registered.nextPid⟩, ?_⟩, stopped⟩
  · obtain ⟨rest, shape⟩ := registered.head
    refine ⟨rest.erase me, ?_⟩
    change k.processes.erase me = _
    rw [shape, List.erase_cons_tail]
    simpa using Ne.symm user
  · exact registered.nodup.erase _
  · intro r inside
    obtain ⟨apart, known⟩ := (mem_iff r).mp inside
    change (table r).pid = r
    rw [survivors r known apart, (survivor_keeps me r).1]
    exact registered.pid r known
  · intro r inside
    obtain ⟨apart, known⟩ := (mem_iff r).mp inside
    change (table r).state ≠ .empty
    rw [survivors r known apart]
    rcases (survivor_keeps (k := k) me r).2.2.2.2.2 with same | ready
    · rw [same]
      exact registered.live r known
    · rw [ready]
      exact nofun
  · exact (mem_iff next).mpr ⟨other, member⟩
  · intro r inside
    exact registered.created r ((mem_iff r).mp inside).2
  · intro r inside
    obtain ⟨apart, known⟩ := (mem_iff r).mp inside
    have fits := settled.core.fits r known
    obtain ⟨pid, sendQueue, notifyQueue, _, _, state⟩ := survivor_keeps (k := k) me r
    change Fits next k.log r (table r)
    have idle := stopped r inside
    rw [survivors r known apart] at idle ⊢
    refine ⟨fun running => absurd running idle, ?_, ?_, ?_⟩
    · rw [sendQueue, notifyQueue]
      rcases state with same | ready
      · rw [same]
        exact fits.receiver
      · rw [ready]
        exact nofun
    · rw [pid]
      rcases state with same | ready
      · rw [same]
        exact fits.sender
      · rw [ready]
        exact nofun
    · rw [sendQueue]
      exact fits.queued

theorem settled_resume {next : Ref} (core : Core { k with current := next }) :
    Settled (resume next k) := by
  have settled := core.run_next
  refine Quiet.settled ?_ settled
  unfold resume
  dsimp only
  split <;> exact ⟨rfl, rfl, rfl, rfl, rfl, fun _ => Or.inl rfl⟩

theorem successor_spec (registered : Registered k) (user : k.current ≠ kernelTask) :
    successor k k.current ∈ k.processes ∧ successor k k.current ≠ k.current := by
  unfold successor
  rcases find_next_ready_cases registered.nodup registered.current with
    same | ⟨member, other, _⟩
  · rw [if_pos same, registered.get_head_eq]
    exact ⟨registered.kernel_task_mem, Ne.symm user⟩
  · rw [if_neg other]
    exact ⟨member, other⟩

theorem rests_exit (user : me ≠ kernelTask) : RestsAt me exit := by
  refine rests_look fun k settled own => ?_
  have registered := settled.core.registered
  have pid : (k.table k.current).pid = me := by
    rw [registered.pid _ registered.current]
    exact own
  obtain ⟨member, other⟩ := successor_spec registered (own ▸ user)
  rw [own] at other
  dsimp only
  rw [pid, own]
  rw [own] at member
  refine safe_relying settled.holds fun k₁ quiet₁ => ?_
  have settled₁ := quiet₁.settled settled
  have own₁ := quiet₁.current.trans own
  obtain ⟨core, stopped⟩ := core_destroyed user settled₁ own₁ (quiet₁.processes ▸ member) other
  have same : (destroy k₁ me).current = me := by
    obtain ⟨table, destroyed, _⟩ := destroy_spec settled₁.core.registered
      (own₁ ▸ settled₁.core.registered.current) user
    rw [destroyed]
    exact own₁
  refine ⟨⟨⟨fun r inside running => absurd running (stopped r inside), core.holds.receivers,
    core.holds.senders⟩, fun k₂ quiet₂ => ⟨?_, Or.inr rfl⟩⟩, same⟩
  refine settled_resume (Quiet.core ?_ core)
  exact ⟨quiet₂.processes, rfl, quiet₂.nextPid, quiet₂.nextRef, quiet₂.log, quiet₂.table⟩

theorem rests_handler (user : me ≠ kernelTask) (esp : Nat) (call : Syscall.Call) :
    RestsAt me (handler esp call) := by
  cases call with
  | send targetPid msg dataPtr dataLen node =>
      exact rests_send user esp targetPid msg dataPtr dataLen node
  | receive msg dataPtr dataCapacity => exact rests_receive user esp msg dataPtr dataCapacity
  | reply targetPid msg dataPtr dataLen => exact rests_reply targetPid msg dataPtr dataLen
  | notify targetPid msg dataPtr dataLen node data =>
      exact rests_notify targetPid msg dataPtr dataLen node data
  | irqRegister irq => exact rests_irq_register irq
  | exec elfPtr elfSize loading => exact rests_exec elfPtr elfSize loading
  | waitpid pid => exact rests_waitpid user esp pid
  | exit => exact rests_exit user

/-! ## Runs -/

abbrev SecureMachine (s : Machine) : Prop :=
  Secure KernelState.current Settled NoLostWakeup Quiet s

theorem secure_step {s s' : Machine} {action : Preemption.Action} (secure : SecureMachine s)
    (undisturbed : Undisturbed s action) (next : Preemption.step s action = some s') :
    SecureMachine s' := by
  cases action with
  | user bytes =>
      cases idle : active s with
      | finish =>
          rw [Preemption.step, idle] at next
          dsimp only at next
          split at next
          · obtain rfl := Option.some.inj next
            refine secure.preempted (by
              rw [show s.active KernelState.current = .finish from idle]
              exact id) fun settled => ?_
            refine Quiet.settled ?_ settled
            exact ⟨rfl, rfl, rfl, rfl, rfl, fun _ => Or.inl rfl⟩
          · cases next
      | plain demand act rest =>
          rw [Preemption.step, idle] at next
          cases next
      | relying act rest =>
          rw [Preemption.step, idle] at next
          cases next
  | enter esp call =>
      cases idle : active s with
      | finish =>
          rw [Preemption.step, idle] at next
          dsimp only at next
          split at next
          · next possible =>
            obtain rfl := Option.some.inj next
            exact secure.entered idle (rests_handler possible.1 esp call)
          · cases next
      | plain demand act rest =>
          rw [Preemption.step, idle] at next
          cases next
      | relying act rest =>
          rw [Preemption.step, idle] at next
          cases next
  | advance => exact secure.advanced Quiet.refl undisturbed next
  | irq number esp =>
      rw [Preemption.step] at next
      split at next
      · obtain rfl := Option.some.inj next
        by_cases ends : EndsSlice s.state number
        · exact secure.preempted (undisturbed ends) fun settled =>
            settled_handle_irq settled number esp
        · have quiet := quiet_handle_irq ends esp
          exact secure.interrupted quiet quiet.current Quiet.trans quiet.settled quiet.holds
      · cases next

theorem settled_of_sound {k : KernelState} (sound : Invariant.Sound k)
    (silent : ∀ r ∈ k.processes, (k.table r).state ≠ .sendBlocked) : Settled k where
  core := ⟨sound.stable.registered, fun r member =>
    have old := sound.stable.admissible r member
    ⟨fun running => not_imp_not.mp (old.stopped ·) running,
      fun waiting => ⟨(old.receiver waiting).1, (old.receiver waiting).2.1⟩,
      fun sending => absurd sending (silent r member), old.senders⟩⟩
  running := sound.running

theorem secure_of_reaches {s : Machine} (reached : Preemption.Reaches Undisturbed s) :
    SecureMachine s := by
  obtain ⟨cr3, memory, modules, few, run⟩ := reached
  refine run.invariant SecureMachine ?_ fun _ _ _ secure admitted next =>
    secure_step secure admitted next
  have silent_bare : ∀ r ∈ (bare cr3 memory).processes,
      ((bare cr3 memory).table r).state ≠ .sendBlocked := fun _ _ => nofun
  have silent_started : ∀ k proc, Invariant.Sound k → k.nextRef < 4294967296 → IsNew k proc →
      (∀ r ∈ k.processes, (k.table r).state ≠ .sendBlocked) →
      ∀ r ∈ (started k proc).processes, ((started k proc).table r).state ≠ .sendBlocked := by
    intro k proc sound _ new silent r member
    rcases mem_started member with known | rfl
    · rw [table_started_of_mem sound.stable.registered proc known]
      exact silent r known
    · rw [table_started_new, new.state]
      exact nofun
  obtain ⟨sound, silent⟩ := boot_induction
    (fun k => ∀ r ∈ k.processes, (k.table r).state ≠ .sendBlocked) silent_bare
    silent_started few
  exact ⟨settled_of_sound sound silent, fun _ _ => trivial⟩

def tick : Preemption.Action := .irq irqOffset kernelVbase

/-- Process 1 waits for a message; ticks arrive in the middle of its system call and while
process 2 sends to it. -/
def wokenInTime : List Preemption.Action :=
  List.replicate 10 tick ++
    [.enter kernelVbase (.receive 4096 0 0), .advance, .advance, .advance, tick, .advance,
      .advance, tick, .advance, .advance,
      .enter kernelVbase (.send 1 4096 0 0 true), .advance, .advance, tick, .advance]

theorem woken_in_time_result :
    (admittedPath Preemption.step Undisturbed ⟨twoPrograms, fun _ => .finish⟩ wokenInTime).map
        (fun s => (s.state.current, (s.state.table 1).state)) = some (2, .receiveBlocked) := by
  decide +kernel

/-- Process 1 is preempted after its blocked state is stored and before it is switched
away. Process 2 receives its message and replies, and process 1 goes on. -/
def repliedTooEarly : List Preemption.Action :=
  List.replicate 10 tick ++
    (.enter kernelVbase (.send 2 4096 0 0 true) :: List.replicate 5 .advance) ++
    List.replicate 10 tick ++
    (.enter kernelVbase (.receive 4096 0 0) :: List.replicate 9 .advance) ++
    (.enter kernelVbase (.reply 1 4096 0 0) :: List.replicate 7 .advance) ++
    List.replicate 20 tick ++ [.advance]

theorem replied_too_early_result :
    (path Preemption.step ⟨twoPrograms, fun _ => .finish⟩ repliedTooEarly).map
        (fun s => ((s.state.current, s.state.processes), (s.state.table 1).state)) =
      some ((2, [0, 1, 2]), .running) := by
  decide +kernel

end CassiOS.Kernel.PreemptionSafety
