import CassiOS.Kernel.Exit

/-!
# Process states over whole runs

Every step from a sound state leads to a sound state as long as no process gets the PID
of the kernel task; a blocked process leaves its state only by the event it waits for.
-/

namespace CassiOS.Kernel.ProcessStates

open CassiOS.Support.Words
open CassiOS.Support.TransitionSystem
open CassiOS.Kernel.State
open CassiOS.Kernel.ProcessManager
open CassiOS.Kernel.Scheduler
open CassiOS.Kernel.Irq
open CassiOS.Kernel.Syscall
open CassiOS.Kernel.System
open CassiOS.Kernel.ProcessTable
open CassiOS.Kernel.Invariant
open CassiOS.Kernel.Outcomes
open CassiOS.Kernel.Exit

set_option autoImplicit false

variable {k : KernelState}

/-! ## Start of the kernel -/

theorem mem_started {proc : Process} {r : Ref} (member : r ∈ (started k proc).processes) :
    r ∈ k.processes ∨ r = k.nextRef := by
  simpa [started] using member

theorem table_started_of_mem (registered : Registered k) (proc : Process) {r : Ref}
    (member : r ∈ k.processes) : (started k proc).table r = k.table r :=
  if_neg (Nat.ne_of_lt (registered.created r member))

theorem table_started_new (proc : Process) : (started k proc).table k.nextRef = proc := if_pos rfl

theorem registered_started (registered : Registered k) {proc : Process} (new : IsNew k proc)
    (fresh : k.nextRef < 4294967296) : Registered (started k proc) := by
  have old {r : Ref} (member : r ∈ k.processes) := table_started_of_mem registered proc member
  have own : (started k proc).table k.nextRef = proc := table_started_new proc
  obtain ⟨rest, shape⟩ := registered.head
  refine ⟨⟨rest ++ [k.nextRef], ?_⟩, ?_, ?_, ?_, ?_, ?_, ?_, ?_⟩
  · change k.processes ++ [k.nextRef] = _
    rw [shape]
    rfl
  · refine List.nodup_append.mpr ⟨registered.nodup, List.nodup_singleton _, ?_⟩
    intro r member q last
    rw [List.mem_singleton] at last
    exact last ▸ Nat.ne_of_lt (registered.created r member)
  · intro r member
    rcases mem_started member with known | rfl
    · rw [old known]
      exact registered.pid r known
    · rw [own, new.pid, registered.nextPid, Nat.mod_eq_of_lt fresh]
  · intro r member
    rcases mem_started member with known | rfl
    · rw [old known]
      exact registered.live r known
    · rw [own, new.state]
      decide
  · exact List.mem_append_left _ registered.current
  · intro r member
    rcases mem_started member with known | rfl
    · exact Nat.lt_succ_of_lt (registered.created r known)
    · exact Nat.lt_succ_self _
  · exact fresh
  · change u32 (k.nextPid + 1) = (k.nextRef + 1) % 4294967296
    rw [registered.nextPid, u32, Nat.mod_add_mod]

theorem stable_started (stable : Stable k) {proc : Process} (new : IsNew k proc)
    (fresh : k.nextRef < 4294967296) : Stable (started k proc) := by
  refine ⟨registered_started stable.registered new fresh, ?_⟩
  intro r member
  rcases mem_started member with known | rfl
  · rw [table_started_of_mem stable.registered proc known]
    have fits := stable.admissible r known
    exact ⟨fits.stopped, fits.idle, fits.receiver,
      fun waiting => List.mem_append_left _ (fits.waiter waiting), fits.senders⟩
  · rw [table_started_new]
    refine ⟨fun _ => ?_, fun _ => Or.inl new.state, ?_, ?_, ?_⟩
    · simp [new.state]
    · simp [new.state]
    · simp [new.state]
    · simp [new.sendQueue]

theorem sound_started (sound : Sound k) {proc : Process} (new : IsNew k proc)
    (fresh : k.nextRef < 4294967296) : Sound (started k proc) := by
  refine ⟨stable_started sound.stable new fresh, ?_⟩
  have old : (started k proc).table k.current = k.table k.current :=
    if_neg (Nat.ne_of_lt (sound.stable.registered.created _ sound.stable.registered.current))
  change ((started k proc).table k.current).state = .running
  rw [old]
  exact sound.running

theorem sound_bare (cr3 : Nat) (memory : Nat → Nat → UInt8) : Sound (bare cr3 memory) := by
  refine ⟨⟨⟨⟨[], rfl⟩, List.nodup_singleton _, ?_, ?_, List.mem_singleton_self _, ?_,
    show 1 ≤ 4294967296 by decide, rfl⟩, ?_⟩, rfl⟩
  · intro r member
    exact (List.mem_singleton.mp member).symm
  · intro r member
    exact ProcessState.noConfusion
  · intro r member
    rw [List.mem_singleton.mp member]
    exact Nat.zero_lt_one
  · intro r member
    refine ⟨fun other => absurd (List.mem_singleton.mp member) other, fun _ => Or.inr rfl,
      nofun, nofun, nofun⟩

theorem load_module_cases (k : KernelState) (loading : Loading) :
    loadModule k loading = k ∨ ∃ proc, IsNew k proc ∧ loadModule k loading = started k proc := by
  unfold loadModule
  by_cases pd : loading.pdPhysical = 0
  · exact Or.inl (if_pos pd)
  rw [if_neg pd]
  cases loading.success with
  | false => exact Or.inl rfl
  | true =>
      rcases spawn_cases k loading userCS userDS with ⟨_, spawned⟩ | ⟨_, proc, new, spawned⟩
      · exact Or.inl (by rw [spawned]; rfl)
      · exact Or.inr ⟨proc, new, by rw [spawned]; rfl⟩

/-- What holds of the bare kernel and is kept by every new process holds at boot. -/
theorem boot_induction (Inv : KernelState → Prop) {cr3 : Nat} {memory : Nat → Nat → UInt8}
    (first : Inv (bare cr3 memory))
    (kept : ∀ k proc, Sound k → k.nextRef < 4294967296 → IsNew k proc → Inv k →
      Inv (started k proc))
    {modules : List Loading} (few : modules.length < 4294967296) :
    Sound (boot cr3 memory modules) ∧ Inv (boot cr3 memory modules) := by
  have loaded (modules : List Loading) (k : KernelState) (sound : Sound k) (inv : Inv k)
      (room : k.nextRef + modules.length ≤ 4294967296) :
      Sound (modules.foldl loadModule k) ∧ Inv (modules.foldl loadModule k) := by
    induction modules generalizing k with
    | nil => exact ⟨sound, inv⟩
    | cons loading rest ih =>
        rw [List.length_cons] at room
        rcases load_module_cases k loading with same | ⟨proc, new, loaded⟩
        · rw [List.foldl_cons, same]
          exact ih k sound inv (by omega)
        · rw [List.foldl_cons, loaded]
          refine ih _ (sound_started sound new (by omega))
            (kept k proc sound (by omega) new inv) ?_
          change k.nextRef + 1 + rest.length ≤ 4294967296
          omega
  refine loaded modules _ (sound_bare cr3 memory) first ?_
  change 1 + modules.length ≤ 4294967296
  omega

theorem sound_boot (cr3 : Nat) (memory : Nat → Nat → UInt8) (modules : List Loading)
    (few : modules.length < 4294967296) : Sound (boot cr3 memory modules) :=
  (boot_induction (fun _ => True) trivial (fun _ _ _ _ _ _ => trivial) few).1

/-! ## System calls -/

theorem keeps_outgoing (msg : Message) (msgPtr dataPtr dataLen : Nat) :
    KeepsRole (outgoing msg msgPtr dataPtr dataLen) :=
  ⟨fun _ => rfl, fun _ => rfl, fun _ => rfl, fun _ => rfl, fun _ => rfl⟩

theorem keeps_receive_buffer (dataPtr dataCapacity : Nat) :
    KeepsRole (receiveBuffer dataPtr dataCapacity) :=
  ⟨fun _ => rfl, fun _ => rfl, fun _ => rfl, fun _ => rfl, fun _ => rfl⟩

/-- What a handler leaves behind: a caller that blocked, or one that still runs. -/
structure Handled (k : KernelState) (answer : KernelState × Int) : Prop where
  stable : Stable answer.1
  current : answer.1.current = k.current
  blocked : answer.2 = 0 → (answer.1.table answer.1.current).state ≠ .running
  running : answer.2 ≠ 0 → (answer.1.table answer.1.current).state = .running

theorem handled_of_sound {k' : KernelState} (kept : Sound k') (current : k'.current = k.current)
    {result : Int} (returns : result ≠ 0) : Handled k (k', result) :=
  ⟨kept.stable, current, fun zero => absurd zero returns, fun _ => kept.running⟩

theorem as_i32_ne_zero {pid : Nat} (nonzero : pid ≠ 0) (small : pid < 4294967296) :
    asI32 pid ≠ 0 := by
  unfold asI32
  split <;> omega

section Handlers

variable (sound : Sound k)
include sound

theorem stable_outgoing (msg : Message) (msgPtr dataPtr dataLen : Nat) :
    Stable (k.modify k.current (outgoing msg msgPtr dataPtr dataLen)) :=
  sound.stable.keep sound.stable.registered.current (keeps_outgoing msg msgPtr dataPtr dataLen)

theorem caller_pid_bounds (user : k.current ≠ kernelTask) :
    k.current ≠ 0 ∧ k.current < 4294967296 :=
  ⟨user, Nat.lt_of_lt_of_le
    (sound.stable.registered.created _ sound.stable.registered.current)
    sound.stable.registered.bound⟩

theorem handled_send (user : k.current ≠ kernelTask) {targetPid msg dataPtr dataLen : Nat}
    {answer : KernelState × Int}
    (outcome : SendOutcome k targetPid msg dataPtr dataLen answer) : Handled k answer := by
  have first := stable_outgoing sound (readMessage k msg) msg dataPtr dataLen
  cases outcome with
  | refused => exact handled_of_sound (k := k) sound rfl (by decide)
  | direct memory live other waiting =>
      have ready := (first.make_ready (f := setResult k.current) live rfl rfl rfl)
      have recorded := ((ready.with_memory memory).record
        (.sent k.current targetPid (readMessage k msg))).record
          (.received targetPid k.current (readMessage k msg))
      refine ⟨recorded.block_current user rfl (by simp [block]) (by simp [block])
        (by simp [block]) rfl, rfl, fun _ => ?_, fun nonzero => absurd rfl nonzero⟩
      simp [sentDirect, block, KernelState.record, withMemory]
  | queueFull =>
      refine handled_of_sound (k := k) ⟨first, ?_⟩ rfl (by decide)
      rw [KernelState.current_modify, KernelState.table_modify_self]
      exact sound.running
  | queued live other busy =>
      have pushed := first.requeue (f := appendSender k.current) live rfl rfl rfl (by
          rw [KernelState.table_modify_of_ne _ _ _ _ other]
          exact busy) (fun s queued => by
        rcases List.mem_append.mp queued with old | new
        · exact (first.admissible targetPid live).senders s old
        · rw [List.mem_singleton.mp new]
          exact caller_pid_bounds sound user)
      have recorded := pushed.record (.sent k.current targetPid (readMessage k msg))
      refine ⟨recorded.block_current user rfl (by simp [block]) (by simp [block])
        (by simp [block]) rfl, rfl, fun _ => ?_, fun nonzero => absurd rfl nonzero⟩
      simp [sentQueued, block, KernelState.record]

theorem sound_receive_buffer (dataPtr dataCapacity : Nat) :
    Sound (k.modify k.current (receiveBuffer dataPtr dataCapacity)) :=
  ⟨sound.stable.keep sound.stable.registered.current
      (keeps_receive_buffer dataPtr dataCapacity), by
    rw [KernelState.current_modify, KernelState.table_modify_self]
    exact sound.running⟩

theorem sound_drop {f : Process → Process} (pid : ∀ p, (f p).pid = p.pid)
    (state : ∀ p, (f p).state = p.state) (waitPid : ∀ p, (f p).waitPid = p.waitPid)
    (fewer : ∀ p, ∀ s ∈ (f p).sendQueue, s ∈ p.sendQueue) :
    Sound (k.modify k.current f) := by
  have running := sound.running
  refine ⟨sound.stable.requeue sound.stable.registered.current (pid _) (state _) (waitPid _)
    (by rw [running]; decide) (fun s queued =>
      (sound.stable.admissible _ sound.stable.registered.current).senders s
        (fewer _ s queued)), ?_⟩
  rw [KernelState.current_modify, KernelState.table_modify_self, state]
  exact running

theorem handled_receive (user : k.current ≠ kernelTask) {msg dataPtr dataCapacity : Nat}
    {answer : KernelState × Int}
    (outcome : ReceiveOutcome k msg dataPtr dataCapacity answer) : Handled k answer := by
  have first := sound_receive_buffer sound dataPtr dataCapacity
  cases outcome with
  | interrupt irq memory line owner pending =>
      exact handled_of_sound (k := k)
        ⟨(first.stable.set_pending irq false nofun).with_memory memory, first.running⟩ rfl
        (by decide)
  | notification node rest memory none head =>
      have dropped := sound_drop (f := dropNotify) first (fun _ => rfl) (fun _ => rfl)
        (fun _ => rfl) (fun _ _ inside => inside)
      exact handled_of_sound (k := k)
        ⟨(dropped.stable.with_memory memory).record _, dropped.running⟩ rfl (by decide)
  | senderGone senderPid rest head noNotification gone =>
      have dropped := sound_drop (f := dropSender) first (fun _ => rfl) (fun _ => rfl)
        (fun _ => rfl) (fun _ _ inside => List.mem_of_mem_tail inside)
      exact handled_of_sound (k := k) dropped rfl (by decide)
  | sender senderPid rest memory head noNotification live =>
      have dropped := sound_drop (f := dropSender) first (fun _ => rfl) (fun _ => rfl)
        (fun _ => rfl) (fun _ _ inside => List.mem_of_mem_tail inside)
      obtain ⟨nonzero, small⟩ := (sound.stable.admissible _
        sound.stable.registered.current).senders senderPid (by rw [head]; exact .head _)
      exact handled_of_sound (k := k)
        ⟨(dropped.stable.with_memory memory).record _, dropped.running⟩ rfl
        (as_i32_ne_zero nonzero small)
  | waits none noNotification noSender =>
      refine ⟨first.stable.block_current user rfl (by simp [waitForMessage]) (fun _ => ?_)
        (by simp [waitForMessage]) rfl, rfl, fun _ => ?_, fun nonzero => absurd rfl nonzero⟩
      · simp only [waitForMessage, KernelState.current_modify, KernelState.table_modify_self]
        exact ⟨noSender, noNotification, none⟩
      · simp [waitForMessage]

theorem handled_waitpid (user : k.current ≠ kernelTask) {pid : Nat} {answer : KernelState × Int}
    (outcome : WaitOutcome k pid answer) : Handled k answer := by
  cases outcome with
  | refused => exact handled_of_sound (k := k) sound rfl (by decide)
  | waits live other =>
      refine ⟨sound.stable.block_current user rfl (by simp [waitFor]) (by simp [waitFor])
        (fun _ => live) rfl, rfl, fun _ => ?_, fun nonzero => absurd rfl nonzero⟩
      simp [waitFor]

theorem sound_return_value (eax : Nat) : Sound (returnValue k eax) := by
  refine ⟨sound.stable.keep sound.stable.registered.current
    ⟨fun _ => rfl, fun _ => rfl, fun _ => rfl, fun _ => rfl, fun _ => rfl⟩, ?_⟩
  change ((k.modify k.current _).table k.current).state = .running
  rw [KernelState.table_modify_self]
  exact sound.running

theorem sound_reply {targetPid : Nat} {answer : KernelState × Int}
    (outcome : ReplyOutcome k targetPid answer) :
    Sound answer.1 ∧ answer.1.current = k.current := by
  cases outcome with
  | refused notWaiting => exact ⟨sound, rfl⟩
  | answered memory live waiting =>
      have ready := sound.stable.make_ready (f := setResult 0) live rfl rfl rfl
      refine ⟨⟨(ready.with_memory memory).record _, ?_⟩, rfl⟩
      change ((k.modify targetPid (setResult 0)).table k.current).state = .running
      rw [KernelState.table_modify_of_ne]
      · exact sound.running
      · intro self
        rw [← self, sound.running] at waiting
        cases waiting

theorem sound_notify {targetPid msg : Nat} {answer : KernelState × Int}
    (outcome : NotifyOutcome k targetPid msg answer) :
    Sound answer.1 ∧ answer.1.current = k.current := by
  cases outcome with
  | refused => exact ⟨sound, rfl⟩
  | direct memory live other waiting =>
      have ready := sound.stable.make_ready (f := setResult 0) live rfl rfl rfl
      refine ⟨⟨((ready.with_memory memory).record _).record _, ?_⟩, rfl⟩
      change ((k.modify targetPid (setResult 0)).table k.current).state = .running
      rw [KernelState.table_modify_of_ne _ _ _ _ (Ne.symm other)]
      exact sound.running
  | queued node live other busy sender words =>
      have pushed := sound.stable.requeue (f := appendNotify node) live rfl rfl rfl busy
        (sound.stable.admissible targetPid live).senders
      refine ⟨⟨pushed.record _, ?_⟩, rfl⟩
      change ((k.modify targetPid (appendNotify node)).table k.current).state = .running
      rw [KernelState.table_modify_of_ne _ _ _ _ (Ne.symm other)]
      exact sound.running

theorem sound_register_forward (irq : Nat) :
    Sound (registerForward k irq (k.table k.current).pid).1 ∧
      (registerForward k irq (k.table k.current).pid).1.current = k.current := by
  have callerPid : (k.table k.current).pid = k.current :=
    sound.stable.registered.pid _ sound.stable.registered.current
  have registered := sound.stable.registered
  unfold registerForward
  by_cases outside : irqLines ≤ irq
  · rw [if_pos outside]
    exact ⟨sound, rfl⟩
  · rw [if_neg outside, callerPid]
    refine ⟨⟨⟨⟨registered.head, registered.nodup, registered.pid, registered.live,
      registered.current, registered.created, registered.bound, registered.nextPid⟩,
      fun r member => ?_⟩, sound.running⟩, rfl⟩
    have old := sound.stable.admissible r member
    refine ⟨old.stopped, old.idle, fun waiting => ?_, old.waiter, old.senders⟩
    obtain ⟨noSender, noNotification, none⟩ := old.receiver waiting
    refine ⟨noSender, noNotification, fun line bound owner => ?_⟩
    change (if line = irq then k.current else k.forwardPid line) = r at owner
    by_cases same : line = irq
    · -- the caller itself is running, so it is not the waiting process
      rw [if_pos same] at owner
      have running := sound.running
      rw [owner] at running
      exact absurd (running.symm.trans waiting) (by decide)
    · rw [if_neg same] at owner
      exact none line bound owner

theorem sound_exec {elfPtr elfSize : Nat} {loading : Loading} {answer : KernelState × Nat}
    (outcome : ExecOutcome k elfPtr elfSize loading answer)
    (fresh : Starts elfPtr elfSize loading → k.nextPid ≠ 0) :
    Sound answer.1 ∧ answer.1.current = k.current := by
  cases outcome with
  | failed missing => exact ⟨sound, rfl⟩
  | child proc starts new =>
      have nonzero := fresh starts
      rw [sound.stable.registered.nextPid] at nonzero
      have bound := sound.stable.registered.bound
      exact ⟨sound_started sound new (by omega), rfl⟩

end Handlers

theorem sound_block_or_return (user : k.current ≠ kernelTask)
    {answer : KernelState × Int} (handled : Handled k answer) (esp : Nat) :
    Sound (blockOrReturn answer.1 esp answer.2).1 := by
  have caller : answer.1.current ≠ kernelTask := by
    rw [handled.current]
    exact user
  unfold blockOrReturn
  by_cases zero : answer.2 = 0
  · rw [if_pos zero]
    exact handled.stable.reschedule caller (handled.blocked zero) esp
  · rw [if_neg zero]
    exact sound_return_value ⟨handled.stable, handled.running zero⟩ _

theorem sound_handle_syscall (sound : Sound k) (user : k.current ≠ kernelTask) (esp : Nat)
    (call : Call) (fresh : FreshPid k (.syscall esp call)) :
    Sound (handleSyscall k esp call).1 := by
  have registered := sound.stable.registered
  cases call with
  | send targetPid msg dataPtr dataLen node =>
      have handled := handled_send sound user
        (send_outcome registered targetPid msg dataPtr dataLen node)
      exact sound_block_or_return user handled esp
  | receive msg dataPtr dataCapacity =>
      have handled := handled_receive sound user
        (receive_outcome registered msg dataPtr dataCapacity)
      unfold handleSyscall
      dsimp only
      by_cases delivered : (receive k msg dataPtr dataCapacity).2 = -2 ∨
          (receive k msg dataPtr dataCapacity).2 = -3
      · rw [if_pos delivered]
        exact sound_return_value ⟨handled.stable, handled.running (by omega)⟩ 0
      · rw [if_neg delivered]
        exact sound_block_or_return user handled esp
  | reply targetPid msg dataPtr dataLen =>
      obtain ⟨kept, _⟩ := sound_reply sound
        (reply_outcome registered targetPid msg dataPtr dataLen)
      exact sound_return_value kept _
  | notify targetPid msg dataPtr dataLen node data =>
      obtain ⟨kept, _⟩ := sound_notify sound
        (notify_outcome registered targetPid msg dataPtr dataLen node data)
      exact sound_return_value kept _
  | irqRegister irq =>
      obtain ⟨kept, _⟩ := sound_register_forward sound (irq % 256)
      exact sound_return_value kept _
  | exec elfPtr elfSize loading =>
      obtain ⟨kept, _⟩ := sound_exec sound (exec_outcome k elfPtr elfSize loading) fresh
      exact sound_return_value kept _
  | waitpid pid =>
      exact sound_block_or_return user
        (handled_waitpid sound user (waitpid_outcome registered pid)) esp
  | exit => exact sound_of_exit sound user (exit_outcome sound.stable user)

/-! ## Interrupts -/

theorem sound_forward (sound : Sound k) {irq : Nat} {k' : KernelState}
    (outcome : ForwardOutcome k irq k') : Sound k' := by
  cases outcome with
  | ignored => exact sound
  | delivered memory live waiting =>
      have ready := sound.stable.make_ready (f := setResult 0) live rfl rfl rfl
      refine ⟨ready.with_memory memory, ?_⟩
      change ((k.modify (k.forwardPid irq) (setResult 0)).table k.current).state = .running
      rw [KernelState.table_modify_of_ne]
      · exact sound.running
      · intro self
        rw [← self, sound.running] at waiting
        cases waiting
  | pending line live busy =>
      exact ⟨sound.stable.set_pending irq true fun _ r _ owner => owner ▸ busy, sound.running⟩

theorem sound_run_handler (sound : Sound k) (irq esp : Nat) :
    Sound (runHandler k irq esp).1 := by
  unfold runHandler
  by_cases timer : irq = 0
  · rw [if_pos timer]
    have ticked := sound.with_ticks (u32 (k.ticks + 1))
    exact ticked.schedule esp
  · rw [if_neg timer]
    exact sound

theorem sound_step (sound : Sound k) {action : Action} (fresh : FreshPid k action)
    {k' : KernelState} (next : step k action = some k') : Sound k' := by
  cases stepped next with
  | user bytes _ =>
      exact ⟨sound.stable.with_memory (runUser k bytes).memory, sound.running⟩
  | syscall esp call user _ =>
      exact sound_handle_syscall sound user esp call fresh
  | irq number esp _ =>
      have handled := sound_run_handler sound (lineOf number) esp
      exact sound_forward handled (forward_outcome handled.stable.registered _)

theorem sound_of_reaches (reached : Reaches FreshPid k) : Sound k := by
  obtain ⟨cr3, memory, modules, few, run⟩ := reached
  exact run.invariant Sound (sound_boot cr3 memory modules few)
    fun _ _ _ sound fresh next => sound_step sound fresh next

/-! ## What ends a wait -/

def Blocked (p : Process) : Prop :=
  p.state = .sendBlocked ∨ p.state = .receiveBlocked ∨ p.state = .waitBlocked

/-- The actions that are the event process `r` waits for. -/
inductive Awaited (k : KernelState) (r : Ref) : Action → Prop
  | reply (esp pid msg dataPtr dataLen : Nat) (named : (k.table r).pid = pid)
      (sending : (k.table r).state = .sendBlocked) :
      Awaited k r (.syscall esp (.reply pid msg dataPtr dataLen))
  | receiverExit (esp : Nat) (sending : (k.table r).state = .sendBlocked)
      (queued : (k.table r).pid ∈ (k.table k.current).sendQueue) :
      Awaited k r (.syscall esp .exit)
  | message (esp pid msg dataPtr dataLen : Nat) (node : Bool)
      (named : (k.table r).pid = pid) (waiting : (k.table r).state = .receiveBlocked) :
      Awaited k r (.syscall esp (.send pid msg dataPtr dataLen node))
  | notification (esp pid msg dataPtr dataLen : Nat) (node data : Bool)
      (named : (k.table r).pid = pid) (waiting : (k.table r).state = .receiveBlocked) :
      Awaited k r (.syscall esp (.notify pid msg dataPtr dataLen node data))
  | interrupt (number esp : Nat) (waiting : (k.table r).state = .receiveBlocked)
      (owner : k.forwardPid (lineOf number) = (k.table r).pid) :
      Awaited k r (.irq number esp)
  | processExit (esp : Nat) (waiting : (k.table r).state = .waitBlocked)
      (target : (k.table r).waitPid = (k.table k.current).pid) :
      Awaited k r (.syscall esp .exit)

section Waits

variable {r : Ref}

theorem Blocked.not_ready {p q : Process} (blocked : Blocked p) (same : q.state = p.state) :
    q.state ≠ .ready := by
  rw [same]
  rcases blocked with state | state | state <;> simp [state]

theorem Blocked.not_current (blocked : Blocked (k.table r)) (sound : Sound k) :
    r ≠ k.current := by
  intro self
  have running := sound.running
  rw [← self] at running
  rcases blocked with state | state | state <;> simp [state] at running

theorem state_block_or_return {answer : KernelState × Int} (handled : Handled k answer)
    (user : k.current ≠ kernelTask) (esp : Nat) (blocked : Blocked (k.table r))
    (same : (answer.1.table r).state = (k.table r).state) :
    ((blockOrReturn answer.1 esp answer.2).1.table r).state = (k.table r).state := by
  unfold blockOrReturn
  by_cases zero : answer.2 = 0
  · rw [if_pos zero, state_reschedule handled.stable (handled.current ▸ user) esp
      (blocked.not_ready same), same]
  · rw [if_neg zero, ← same]
    exact answer.1.modify_keeps _ _ (fun p => { p with frameEax := asU32 answer.2 })
      Process.state rfl

theorem state_send {targetPid msg dataPtr dataLen : Nat} {answer : KernelState × Int}
    (outcome : SendOutcome k targetPid msg dataPtr dataLen answer) (other : r ≠ k.current) :
    (answer.1.table r).state = (k.table r).state ∨
      (r = targetPid ∧ (k.table r).state = .receiveBlocked) := by
  cases outcome with
  | refused => exact Or.inl rfl
  | direct memory live apart waiting =>
      by_cases target : r = targetPid
      · exact Or.inr ⟨target, target ▸ waiting⟩
      · simp [sentDirect, KernelState.record, withMemory, other, target]
  | queueFull =>
      exact Or.inl (k.modify_keeps _ _ (outgoing _ _ _ _) Process.state rfl)
  | queued live apart busy =>
      by_cases target : r = targetPid
      · subst target
        simp [sentQueued, KernelState.record, appendSender, other]
      · simp [sentQueued, KernelState.record, other, target]

theorem state_receive {msg dataPtr dataCapacity : Nat} {answer : KernelState × Int}
    (outcome : ReceiveOutcome k msg dataPtr dataCapacity answer) (other : r ≠ k.current) :
    (answer.1.table r).state = (k.table r).state := by
  cases outcome <;> simp [KernelState.record, withMemory, setPending, other]

theorem state_waitpid {pid : Nat} {answer : KernelState × Int}
    (outcome : WaitOutcome k pid answer) (other : r ≠ k.current) :
    (answer.1.table r).state = (k.table r).state := by
  cases outcome <;> simp [other]

theorem state_return_value (k : KernelState) (eax : Nat) :
    ((returnValue k eax).table r).state = (k.table r).state :=
  k.modify_keeps _ _ (fun p => { p with frameEax := eax }) Process.state rfl

theorem table_register_forward (k : KernelState) (irq pid : Nat) :
    (registerForward k irq pid).1.table = k.table := by
  unfold registerForward
  split <;> rfl

theorem state_reply {targetPid : Nat} {answer : KernelState × Int}
    (outcome : ReplyOutcome k targetPid answer) :
    (answer.1.table r).state = (k.table r).state ∨
      (r = targetPid ∧ (k.table r).state = .sendBlocked) := by
  cases outcome with
  | refused _ => exact Or.inl rfl
  | answered memory live waiting =>
      by_cases target : r = targetPid
      · exact Or.inr ⟨target, target ▸ waiting⟩
      · simp [KernelState.record, withMemory, target]

theorem state_notify {targetPid msg : Nat} {answer : KernelState × Int}
    (outcome : NotifyOutcome k targetPid msg answer) :
    (answer.1.table r).state = (k.table r).state ∨
      (r = targetPid ∧ (k.table r).state = .receiveBlocked) := by
  cases outcome with
  | refused => exact Or.inl rfl
  | direct memory live other waiting =>
      by_cases target : r = targetPid
      · exact Or.inr ⟨target, target ▸ waiting⟩
      · simp [notifiedDirect, KernelState.record, withMemory, target]
  | queued node live other busy sender words =>
      exact Or.inl (KernelState.modify_keeps _ _ _ _ Process.state rfl)

theorem state_exec {elfPtr elfSize : Nat} {loading : Loading} {answer : KernelState × Nat}
    (outcome : ExecOutcome k elfPtr elfSize loading answer) (registered : Registered k)
    (member : r ∈ k.processes) : (answer.1.table r).state = (k.table r).state := by
  cases outcome with
  | failed _ => rfl
  | child proc _ new =>
      have old : (started k proc).table r = k.table r :=
        if_neg (Nat.ne_of_lt (registered.created r member))
      rw [old]

theorem state_forward {irq : Nat} {k' : KernelState} (outcome : ForwardOutcome k irq k') :
    (k'.table r).state = (k.table r).state ∨
      (k.forwardPid irq = r ∧ (k.table r).state = .receiveBlocked) := by
  cases outcome with
  | ignored => exact Or.inl rfl
  | delivered memory live waiting =>
      by_cases target : r = k.forwardPid irq
      · exact Or.inr ⟨target.symm, target ▸ waiting⟩
      · simp [withMemory, target]
  | pending line live busy => exact Or.inl rfl

theorem fields_run_handler (k : KernelState) (irq esp : Nat) :
    (runHandler k irq esp).1.forwardPid = k.forwardPid := by
  unfold runHandler
  by_cases timer : irq = 0
  · rw [if_pos timer]
    unfold PitTimer.handleInterrupt
    rcases schedule_cases { k with ticks := u32 (k.ticks + 1) } esp with
      ⟨tickCount, same⟩ | switched
    · rw [same]
    · rw [switched, (switch_to_fields _ _ _).2.2.2.2.1]
      rfl
  · rw [if_neg timer]

theorem state_run_handler (sound : Sound k) (irq esp : Nat) (blocked : Blocked (k.table r)) :
    ((runHandler k irq esp).1.table r).state = (k.table r).state := by
  unfold runHandler
  by_cases timer : irq = 0
  · rw [if_pos timer]
    have ticked := sound.with_ticks (u32 (k.ticks + 1))
    exact state_schedule ticked esp (blocked.not_current sound) (blocked.not_ready rfl)
  · rw [if_neg timer]

theorem state_exit {k' : KernelState} (exit : ExitOutcome k k') (member : r ∈ k.processes)
    (other : r ≠ k.current) (blocked : Blocked (k.table r)) :
    (k'.table r).state = (k.table r).state ∨
      ((k.table r).state = .sendBlocked ∧ r ∈ (k.table k.current).sendQueue) ∨
      ((k.table r).state = .waitBlocked ∧ (k.table r).waitPid = k.current) := by
  have chosen : r ≠ k'.current := fun same =>
    blocked.not_ready rfl (same ▸ exit.next_ready)
  rw [exit.table r member other, if_neg chosen]
  unfold survivor
  by_cases queued : r ∈ (k.table k.current).sendQueue ∧ (k.table r).state = .sendBlocked
  · exact Or.inr (Or.inl queued.symm)
  · rw [if_neg queued]
    by_cases waits : (k.table r).state = .waitBlocked ∧ (k.table r).waitPid = k.current
    · exact Or.inr (Or.inr waits)
    · exact Or.inl (by rw [if_neg waits])

/-- A blocked process keeps its state unless the step is the event it waits for. -/
theorem state_step (sound : Sound k) (member : r ∈ k.processes)
    (blocked : Blocked (k.table r)) {action : Action} {k' : KernelState}
    (next : step k action = some k') :
    (k'.table r).state = (k.table r).state ∨ Awaited k r action := by
  have registered := sound.stable.registered
  have other := blocked.not_current sound
  have pid : (k.table r).pid = r := registered.pid r member
  have callerPid : (k.table k.current).pid = k.current := registered.pid _ registered.current
  cases stepped next with
  | user bytes _ =>
      exact Or.inl rfl
  | irq number esp _ =>
      have handled := sound_run_handler sound (lineOf number) esp
      have same := state_run_handler (r := r) sound (lineOf number) esp blocked
      rcases state_forward (r := r)
        (forward_outcome handled.stable.registered (lineOf number)) with
        kept | ⟨owner, waiting⟩
      · exact Or.inl (kept.trans same)
      · refine Or.inr (.interrupt number esp (same ▸ waiting) ?_)
        rw [pid, ← owner, fields_run_handler]
  | syscall esp call user _ =>
      cases call with
      | send targetPid msg dataPtr dataLen node =>
          have outcome := send_outcome registered targetPid msg dataPtr dataLen node
          rcases state_send (r := r) outcome other with same | ⟨rfl, waiting⟩
          · exact Or.inl (state_block_or_return (handled_send sound user outcome) user esp
              blocked same)
          · exact Or.inr (.message esp r msg dataPtr dataLen node pid waiting)
      | receive msg dataPtr dataCapacity =>
          left
          have outcome := receive_outcome registered msg dataPtr dataCapacity
          have same := state_receive (r := r) outcome other
          unfold handleSyscall
          dsimp only
          by_cases delivered : (receive k msg dataPtr dataCapacity).2 = -2 ∨
              (receive k msg dataPtr dataCapacity).2 = -3
          · rw [if_pos delivered, state_return_value, same]
          · rw [if_neg delivered]
            exact state_block_or_return (handled_receive sound user outcome) user esp
              blocked same
      | reply targetPid msg dataPtr dataLen =>
          rcases state_reply (r := r)
            (reply_outcome registered targetPid msg dataPtr dataLen) with
            same | ⟨rfl, sending⟩
          · exact Or.inl ((state_return_value _ _).trans same)
          · exact Or.inr (.reply esp r msg dataPtr dataLen pid sending)
      | notify targetPid msg dataPtr dataLen node data =>
          rcases state_notify (r := r)
            (notify_outcome registered targetPid msg dataPtr dataLen node data) with
            same | ⟨rfl, waiting⟩
          · exact Or.inl ((state_return_value _ _).trans same)
          · exact Or.inr (.notification esp r msg dataPtr dataLen node data pid waiting)
      | irqRegister irq =>
          have same := table_register_forward k (irq % 256) (k.table k.current).pid
          exact Or.inl ((state_return_value _ _).trans
            (congrArg (fun table => (table r).state) same))
      | exec elfPtr elfSize loading =>
          exact Or.inl ((state_return_value _ _).trans
            (state_exec (exec_outcome k elfPtr elfSize loading) registered member))
      | waitpid pid =>
          have outcome := waitpid_outcome registered pid
          exact Or.inl (state_block_or_return (handled_waitpid sound user outcome) user esp
            blocked (state_waitpid outcome other))
      | exit =>
          rcases state_exit (exit_outcome sound.stable user) member other blocked with
            same | ⟨sending, queued⟩ | ⟨waiting, target⟩
          · exact Or.inl same
          · exact Or.inr (.receiverExit esp sending (pid.symm ▸ queued))
          · exact Or.inr (.processExit esp waiting (target.trans callerPid.symm))

end Waits

end CassiOS.Kernel.ProcessStates
