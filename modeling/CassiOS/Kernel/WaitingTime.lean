import CassiOS.Kernel.RoundRobin
import CassiOS.Support.TurnOrder

/-!
# How long a ready process waits

In every run, a process that is ready gets its turn before the timer has ticked for one time
slice of the running process, one of each process between the two in the list, and one of
each process that is created meanwhile. While it waits, `ticks left` falls with every tick
and never rises but when a process is created.
-/

namespace CassiOS.Kernel.WaitingTime

open CassiOS.Support.Words
open CassiOS.Support.TransitionSystem
open CassiOS.Support.Turns
open CassiOS.Support.TurnOrder
open CassiOS.Kernel.State
open CassiOS.Kernel.ProcessManager
open CassiOS.Kernel.Scheduler
open CassiOS.Kernel.Irq
open CassiOS.Kernel.Syscall
open CassiOS.Kernel.System
open CassiOS.Kernel.Invariant
open CassiOS.Kernel.Outcomes
open CassiOS.Kernel.ProcessStates
open CassiOS.Kernel.RoundRobin hiding History

set_option autoImplicit false

section Specification

/-- The timer is on line 0. -/
def tick : Action → Nat
  | .irq number _ => if lineOf number = 0 then 1 else 0
  | _ => 0

/-- A run during which `p` is ready and does not run, and the number of ticks in it. -/
inductive Waited (p : Ref) (k : KernelState) : KernelState → Nat → Prop
  | start (waits : Waits p k) : Waited p k k 0
  | step {k' k'' : KernelState} {action : Action} {ticks : Nat} (before : Waited p k k' ticks)
      (next : step k' action = some k'') (waits : Waits p k'') :
      Waited p k k'' (ticks + tick action)

/-- The processes that have their turn before `p`. -/
def aheadOf (p : Ref) (k : KernelState) : List Ref := ahead k.processes k.current p

structure Ticking (k : KernelState) : Prop where
  slice : k.timeSlice = defaultTimeSlice
  early : k.tickCount < defaultTimeSlice

/-- The ticks after which `p` has its turn at the latest, when nobody joins. -/
def ticksLeft (p : Ref) (k : KernelState) : Nat :=
  defaultTimeSlice * (aheadOf p k).length + (defaultTimeSlice - k.tickCount)

/-- The time slice goes on, or another process begins one. -/
inductive Paced (k k' : KernelState) (ticks : Nat) : Prop
  | goesOn (current : k'.current = k.current) (count : k'.tickCount = k.tickCount + ticks)
  | switches (current : k'.current ≠ k.current) (count : k'.tickCount = 0)

end Specification

section Clock

variable {k k' : KernelState}

def clock (k : KernelState) : Nat × Nat := (k.tickCount, k.timeSlice)

theorem clock_deliver (k : KernelState) (target : Ref) (msg : Message)
    (dataPtr dataLen eax : Nat) : clock (deliver k target msg dataPtr dataLen eax) = clock k := by
  obtain ⟨memory, same⟩ := deliver_eq k target msg dataPtr dataLen eax
  rw [same]
  rfl

theorem clock_send (k : KernelState) (targetPid msg dataPtr dataLen : Nat) (node : Bool) :
    clock (send k targetPid msg dataPtr dataLen node).1 = clock k := by
  unfold send
  dsimp only
  split
  · rfl
  · split
    · rfl
    · split
      · exact clock_deliver _ _ (readMessage k msg) dataPtr dataLen (k.table k.current).pid
      · split <;> rfl

theorem clock_receive (k : KernelState) (msg dataPtr dataCapacity : Nat) :
    clock (receive k msg dataPtr dataCapacity).1 = clock k := by
  unfold receive
  dsimp only
  rcases deliver_pending_cases (k.modify k.current (receiveBuffer dataPtr dataCapacity))
    ((k.modify k.current (receiveBuffer dataPtr dataCapacity)).table k.current).pid msg with
    ⟨_, same⟩ | ⟨irq, memory, _, _, _, same⟩
  · rw [same]
    dsimp only
    split
    · next node popped _ =>
      obtain ⟨memory, same⟩ := receive_notified_eq
        (k.modify k.current (receiveBuffer dataPtr dataCapacity)) msg dataPtr dataCapacity node
          popped
      rw [same]
      rfl
    · split
      · unfold receiveQueued
        dsimp only
        split
        · rfl
        · split <;> rfl
      · rfl
  · rw [same]
    rfl

theorem clock_reply (k : KernelState) (targetPid msg dataPtr dataLen : Nat) :
    clock (reply k targetPid msg dataPtr dataLen).1 = clock k := by
  unfold reply
  split
  · rfl
  · split
    · rfl
    · exact clock_deliver k _ (readMessage k msg) dataPtr dataLen 0

theorem clock_notify (k : KernelState) (targetPid msg dataPtr dataLen : Nat) (node data : Bool) :
    clock (notify k targetPid msg dataPtr dataLen node data).1 = clock k := by
  unfold notify
  dsimp only
  split
  · rfl
  · split
    · rfl
    · split
      · exact clock_deliver k _ (readMessage k msg) dataPtr dataLen 0
      · split <;> rfl

theorem clock_waitpid (k : KernelState) (pid : Nat) : clock (waitpid k pid).1 = clock k := by
  unfold waitpid
  dsimp only
  split
  · rfl
  · split <;> rfl

theorem clock_exec (k : KernelState) (elfPtr elfSize : Nat) (loading : Loading) :
    clock (exec k elfPtr elfSize loading).1 = clock k ∧
      (exec k elfPtr elfSize loading).1.current = k.current := by
  have outcome := exec_outcome k elfPtr elfSize loading
  generalize exec k elfPtr elfSize loading = answer at outcome
  cases outcome <;> exact ⟨rfl, rfl⟩

theorem clock_forward (k : KernelState) (irq : Nat) :
    clock (forward k irq) = clock k ∧ (forward k irq).current = k.current := by
  unfold forward
  split
  · split
    · exact ⟨rfl, rfl⟩
    · split <;> exact ⟨rfl, rfl⟩
  · exact ⟨rfl, rfl⟩

theorem clock_wake_senders (queue : List Nat) (k : KernelState) :
    clock (queue.foldl wakeSender k) = clock k := by
  induction queue generalizing k with
  | nil => rfl
  | cons senderPid rest ih =>
      rw [List.foldl_cons, ih]
      unfold wakeSender
      split
      · split <;> rfl
      · rfl

theorem clock_destroy (k : KernelState) (pid : Nat) : clock (destroy k pid) = clock k := by
  unfold destroy
  split
  · rfl
  · split
    · rfl
    · exact clock_wake_senders _ k

theorem clock_exit (k : KernelState) :
    clock (exitCurrent k).1 = (0, k.timeSlice) ∧
      (exitCurrent k).1.current = successor k k.current := by
  obtain ⟨cr3, same⟩ := exit_current_eq k
  have slice : (destroy k (k.table k.current).pid).timeSlice = k.timeSlice :=
    congrArg Prod.snd (clock_destroy k _)
  rw [same]
  exact ⟨Prod.ext rfl slice, rfl⟩

theorem clock_switch_to (k : KernelState) (next current : Ref) (esp : Nat) :
    clock (switchTo k next current esp).1 = clock k := by
  obtain ⟨cr3, same⟩ := switch_to_eq k next current esp
  rw [same]
  rfl

/-- A scheduling decision restarts the slice, and without one it goes on. -/
theorem clock_reschedule (k : KernelState) (esp : Nat) :
    clock (reschedule k esp).1 = clock k ∨ clock (reschedule k esp).1 = (0, k.timeSlice) := by
  unfold reschedule
  split
  · exact .inl rfl
  · exact .inr (clock_switch_to _ _ _ _)

theorem clock_answer (k : KernelState) (esp : Nat) (result : Int) :
    clock (blockOrReturn k esp result).1 = clock k ∨
      clock (blockOrReturn k esp result).1 = (0, k.timeSlice) := by
  unfold blockOrReturn
  split
  · exact clock_reschedule k esp
  · exact .inl rfl

end Clock

section Ticking

variable {k k' : KernelState}

theorem Ticking.of_clock (ticking : Ticking k)
    (same : clock k' = clock k ∨ clock k' = (0, k.timeSlice)) : Ticking k' := by
  rcases same with kept | reset
  · obtain ⟨count, slice⟩ := Prod.mk.inj kept
    exact ⟨slice.trans ticking.slice, count ▸ ticking.early⟩
  · obtain ⟨count, slice⟩ := Prod.mk.inj reset
    exact ⟨slice.trans ticking.slice, count ▸ Nat.zero_lt_of_lt ticking.early⟩

theorem ticking_schedule (ticking : Ticking k) (esp : Nat) : Ticking (schedule k esp).1 := by
  unfold schedule
  split
  · exact ticking
  · dsimp only
    split
    · next early => exact ⟨ticking.slice, ticking.slice ▸ early⟩
    · exact ticking.of_clock (.inr (clock_switch_to _ _ _ _))

theorem ticking_call (ticking : Ticking k) (esp : Nat) (call : Call) :
    Ticking (handleSyscall k esp call).1 := by
  have answered : ∀ {k' : KernelState} {result : Int}, clock k' = clock k →
      Ticking (blockOrReturn k' esp result).1 :=
    fun same => (ticking.of_clock (.inl same)).of_clock (clock_answer _ esp _)
  cases call with
  | send targetPid msg dataPtr dataLen node => exact answered (clock_send k _ _ _ _ node)
  | receive msg dataPtr dataCapacity =>
      have same := clock_receive k msg dataPtr dataCapacity
      rw [handle_receive]
      split
      · exact ticking.of_clock (.inl same)
      · exact answered same
  | reply targetPid msg dataPtr dataLen => exact ticking.of_clock (.inl (clock_reply k _ _ _ _))
  | notify targetPid msg dataPtr dataLen node data =>
      exact ticking.of_clock (.inl (clock_notify k _ _ _ _ node data))
  | irqRegister irq =>
      apply ticking.of_clock (.inl _)
      change clock (registerForward k (irq % 256) (k.table k.current).pid).1 = clock k
      unfold registerForward
      split <;> rfl
  | exec elfPtr elfSize loading =>
      exact ticking.of_clock (.inl (clock_exec k elfPtr elfSize loading).1)
  | waitpid pid => exact answered (clock_waitpid k pid)
  | exit => exact ticking.of_clock (.inr (clock_exit k).1)

theorem ticking_step (ticking : Ticking k) {action : Action} (next : step k action = some k') :
    Ticking k' := by
  cases stepped next with
  | user bytes _ => exact ticking.of_clock (.inl rfl)
  | syscall esp call _ _ => exact ticking_call ticking esp call
  | irq number esp _ =>
      apply Ticking.of_clock _ (.inl (clock_forward _ _).1)
      unfold runHandler
      split
      · have ticked : Ticking { k with ticks := u32 (k.ticks + 1) } := ticking.of_clock (.inl rfl)
        exact ticking_schedule ticked esp
      · exact ticking

end Ticking

section Waiting

variable {k k' : KernelState} {p : Ref}

theorem two_processes (waits : Waits p k) (current : k.current ∈ k.processes) :
    ¬ getProcessCount k ≤ 1 := by
  have pair : [k.current, p].Nodup := by simpa using waits.other
  have inside : [k.current, p] ⊆ k.processes := by
    intro r member
    rcases List.mem_cons.1 member with rfl | last
    · exact current
    · rw [List.mem_singleton.1 last]
      exact waits.member
  exact Nat.not_le.2 (List.subperm_of_subset pair inside).length_le

/-- Another process is found as long as `p` waits. -/
theorem find_other (listed : Listed k) (waits : Waits p k) :
    findNextReady k k.current ≠ k.current :=
  (ProcessTable.find_next_ready_spec listed.nodup listed.current waits.member
    (Ne.symm waits.other) waits.ready).2.1

theorem waits_steady (waits : Waits p k) (steady : Steady (IsCurrent k) k k') : Waits p k' where
  member := by
    rw [steady.processes]
    exact waits.member
  ready := steady.ready (fun same => waits.other same.symm) waits.ready
  other := by
    rw [steady.current]
    exact waits.other

theorem answer_pace (listed : Listed k) (user : k.current ≠ kernelTask) (waits : Waits p k)
    (steady : Steady (IsCurrent k) k k') (same : clock k' = clock k) (esp : Nat) (result : Int) :
    Paced k (blockOrReturn k' esp result).1 0 := by
  have listed' := steady.listed (Ne.symm user) listed
  have waits' := waits_steady waits steady
  unfold blockOrReturn
  split
  · unfold reschedule
    rw [if_neg (two_processes waits' listed'.current)]
    apply Paced.switches
    · rw [(switch_to_fields _ _ esp).2.1, ← steady.current]
      exact find_other listed' waits'
    · exact congrArg Prod.fst (clock_switch_to { k' with tickCount := 0 } _ _ esp)
  · exact .goesOn steady.current (congrArg Prod.fst same)

theorem call_pace (listed : Listed k) (user : k.current ≠ kernelTask) (waits : Waits p k)
    (esp : Nat) (call : Call) : Paced k (handleSyscall k esp call).1 0 := by
  have caller : IsCurrent k k.current := rfl
  have blocking := Steady.blocking caller
  cases call with
  | send targetPid msg dataPtr dataLen node =>
      exact answer_pace listed user waits (blocking.send rfl targetPid msg dataPtr dataLen node)
        (clock_send k _ _ _ _ node) esp _
  | receive msg dataPtr dataCapacity =>
      have received := Steady.receive caller msg dataPtr dataCapacity
      have same := clock_receive k msg dataPtr dataCapacity
      rw [handle_receive]
      split
      · exact .goesOn received.current (congrArg Prod.fst same)
      · exact answer_pace listed user waits received same esp _
  | reply targetPid msg dataPtr dataLen =>
      have replied := blocking.toWaking.reply k targetPid msg dataPtr dataLen
      exact .goesOn replied.current (congrArg Prod.fst (clock_reply k _ _ _ _))
  | notify targetPid msg dataPtr dataLen node data =>
      have notified := blocking.toWaking.notify k targetPid msg dataPtr dataLen node data
      exact .goesOn notified.current (congrArg Prod.fst (clock_notify k _ _ _ _ node data))
  | irqRegister irq =>
      apply Paced.goesOn
      · change (registerForward k (irq % 256) (k.table k.current).pid).1.current = k.current
        unfold registerForward
        split <;> rfl
      · change (registerForward k (irq % 256) (k.table k.current).pid).1.tickCount = k.tickCount
        unfold registerForward
        split <;> rfl
  | exec elfPtr elfSize loading =>
      obtain ⟨same, current⟩ := clock_exec k elfPtr elfSize loading
      exact .goesOn current (congrArg Prod.fst same)
  | waitpid pid =>
      exact answer_pace listed user waits (blocking.waitpid rfl pid) (clock_waitpid k pid) esp _
  | exit =>
      obtain ⟨reset, current⟩ := clock_exit k
      apply Paced.switches
      · change (exitCurrent k).1.current ≠ k.current
        rw [current, successor, if_neg (find_other listed waits)]
        exact find_other listed waits
      · exact congrArg Prod.fst reset

theorem schedule_pace (listed : Listed k) (ticking : Ticking k) (waits : Waits p k) (esp : Nat) :
    Paced k (schedule k esp).1 1 := by
  have counted : u32 (k.tickCount + 1) = k.tickCount + 1 := by
    have early := ticking.early
    unfold defaultTimeSlice at early
    unfold u32
    omega
  unfold schedule
  rw [if_neg (two_processes waits listed.current)]
  dsimp only
  split
  · exact .goesOn rfl counted
  · have demoted : Steady (IsCurrent k) k (k.modify k.current demote) := steady_demote rfl
    have waits' := waits_steady waits demoted
    apply Paced.switches
    · rw [(switch_to_fields _ _ esp).2.1]
      exact (ProcessTable.find_next_ready_spec (k := k.modify k.current demote) listed.nodup
        listed.current waits'.member (Ne.symm waits.other) waits'.ready).2.1
    · exact congrArg Prod.fst (clock_switch_to _ _ _ esp)

theorem handler_pace (listed : Listed k) (ticking : Ticking k) (waits : Waits p k)
    (line esp : Nat) : Paced k (runHandler k line esp).1 (if line = 0 then 1 else 0) := by
  unfold runHandler
  split
  · have ticked : Steady (IsCurrent k) k { k with ticks := u32 (k.ticks + 1) } :=
      .of_fields rfl rfl rfl rfl
    have listed' := ticked.listed_of_idle listed listed.idle
    have paced := schedule_pace listed' (ticking.of_clock (.inl rfl)) (waits_steady waits ticked)
      esp
    cases paced with
    | goesOn current count => exact .goesOn current count
    | switches current count => exact .switches current count
  · exact .goesOn rfl rfl

theorem step_pace (listed : Listed k) (ticking : Ticking k) (waits : Waits p k)
    {action : Action} (next : step k action = some k') : Paced k k' (tick action) := by
  cases stepped next with
  | user bytes _ => exact .goesOn rfl rfl
  | syscall esp call user _ => exact call_pace listed user waits esp call
  | irq number esp _ =>
      obtain ⟨same, stays⟩ := clock_forward (runHandler k (lineOf number) esp).1 (lineOf number)
      have kept := congrArg Prod.fst same
      cases handler_pace listed ticking waits (lineOf number) esp with
      | goesOn current count => exact .goesOn (stays.trans current) (kept.trans count)
      | switches current count =>
          exact .switches (fun same => current (stays.symm.trans same)) (kept.trans count)

theorem ahead_step (listed : Listed k) (shape : Shape k k') (waits : Waits p k)
    (waits' : Waits p k') :
    k'.current ≠ k.current ∧ (aheadOf p k').length + 1 ≤ (aheadOf p k).length ∧
        k'.nextRef = k.nextRef ∨
      k'.current = k.current ∧
        (aheadOf p k').length + k.nextRef ≤ (aheadOf p k).length + k'.nextRef := by
  have apart : p ≠ k.current := Ne.symm waits.other
  have turned : ∀ {next : Ref}, Turn k next → k'.current = next →
      next ≠ k.current ∧ next ∈ k.processes ∧
        (ahead k.processes next p).length + 1 ≤ (aheadOf p k).length := by
    intro next turn current
    obtain ⟨passed, rest, split, unpassed⟩ := turn.unpassed waits
    have inside : next ∈ behind k.processes k.current := by
      rw [split]
      exact List.mem_append_right _ List.mem_cons_self
    obtain ⟨member, other⟩ := (mem_behind listed.nodup listed.current).1 inside
    exact ⟨other, member, length_ahead_turn listed.nodup listed.current waits.member apart split
      unpassed (current ▸ waits'.other)⟩
  have survives : ∀ {gone : Ref}, k'.processes = k.processes.erase gone → gone ≠ p := by
    intro gone processes same
    have member := waits'.member
    rw [processes, same] at member
    exact listed.nodup.not_mem_erase member
  cases shape with
  | stays processes current nextRef =>
      right
      unfold aheadOf
      rw [processes, current, nextRef]
      exact ⟨rfl, Nat.le_refl _⟩
  | turns next turn processes current nextRef =>
      left
      obtain ⟨other, _, shorter⟩ := turned turn current
      unfold aheadOf at shorter ⊢
      rw [processes, current]
      exact ⟨other, shorter, nextRef⟩
  | starts processes current nextRef =>
      right
      have new : k.nextRef ∉ k.processes :=
        fun old => Nat.lt_irrefl _ (listed.created _ old)
      have longer := length_ahead_join (p := p) listed.nodup listed.current new
      unfold aheadOf
      rw [processes, current, nextRef]
      exact ⟨rfl, by omega⟩
  | ends gone other processes current nextRef =>
      right
      have shorter := length_ahead_leave listed.nodup listed.current other (survives processes)
      unfold aheadOf
      rw [processes, current, nextRef]
      exact ⟨rfl, by omega⟩
  | exits next gone turn other processes current nextRef =>
      left
      obtain ⟨apart, member, shorter⟩ := turned turn current
      have left := length_ahead_leave listed.nodup member other (survives processes)
      unfold aheadOf at shorter ⊢
      rw [processes, current]
      exact ⟨apart, by omega, nextRef⟩

/-- A tick brings the turn of `p` nearer; only a new process may put it off. -/
theorem ticks_left_step (listed : Listed k) (ticking : Ticking k) (waits : Waits p k)
    (waits' : Waits p k') {action : Action} (next : step k action = some k') :
    ticksLeft p k' + tick action + defaultTimeSlice * k.nextRef ≤
      ticksLeft p k + defaultTimeSlice * k'.nextRef := by
  have early := ticking.early
  have early' := (ticking_step ticking next).early
  have one : tick action ≤ 1 := by
    unfold tick
    split
    · split <;> omega
    · omega
  have moved := ahead_step listed (step_shape listed next).1 waits waits'
  unfold ticksLeft defaultTimeSlice at *
  cases step_pace listed ticking waits next with
  | goesOn current count =>
      rcases moved with ⟨moves, _⟩ | ⟨_, longer⟩
      · exact absurd current moves
      · omega
  | switches current count =>
      rcases moved with ⟨_, shorter, nextRef⟩ | ⟨stays, _⟩
      · omega
      · exact absurd stays current

end Waiting

section Runs

variable {k k' : KernelState} {p : Ref} {ticks : Nat}

theorem Waited.waits (waited : Waited p k k' ticks) : Waits p k ∧ Waits p k' := by
  induction waited with
  | start waits => exact ⟨waits, waits⟩
  | step before next waits ih => exact ⟨ih.1, waits⟩

/-- The run lemma: ticks passed and ticks left together grow with new processes only. -/
theorem ticks_left_run (listed : Listed k) (ticking : Ticking k)
    (waited : Waited p k k' ticks) : Listed k' ∧ Ticking k' ∧
      ticksLeft p k' + ticks + defaultTimeSlice * k.nextRef ≤
        ticksLeft p k + defaultTimeSlice * k'.nextRef := by
  induction waited with
  | start waits => exact ⟨listed, ticking, Nat.le_refl _⟩
  | step before next waits ih =>
      obtain ⟨listed', ticking', bound⟩ := ih
      have stepped := ticks_left_step listed' ticking' before.waits.2 waits next
      exact ⟨(step_shape listed' next).2, ticking_step ticking' next, by omega⟩

theorem ticking_boot (cr3 : Nat) (memory : Nat → Nat → UInt8) (modules : List Loading) :
    Ticking (boot cr3 memory modules) := by
  have loaded : ∀ k, Ticking k → Ticking (modules.foldl loadModule k) := by
    induction modules with
    | nil => exact fun k ticking => ticking
    | cons loading rest ih =>
        intro k ticking
        apply ih
        rcases load_module_cases k loading with same | ⟨proc, _, started⟩
        · rwa [same]
        · rw [started]
          exact ticking.of_clock (.inl rfl)
  exact loaded _ ⟨rfl, Nat.zero_lt_succ _⟩

end Runs

section Examples

def twoPrograms : KernelState :=
  boot 0x1000 (fun _ _ => 0) (List.replicate 2 ⟨true, 0x2000, true, 0, 0, 0x3000, 0x4000, true⟩)

def timerTick : Action := .irq irqOffset kernelVbase

def tickStates : Nat → KernelState
  | 0 => twoPrograms
  | i + 1 => (step (tickStates i) timerTick).getD twoPrograms

/-- The second program waits through the slice of the kernel task and that of the first. -/
theorem second_waits {i : Nat} (inside : i < 20) : Waited 2 twoPrograms (tickStates i) i := by
  have possible : ∀ i, i < 20 → (step (tickStates i) timerTick).isSome = true := by
    decide +kernel
  have waits : ∀ i, i < 20 → 2 ∈ (tickStates i).processes ∧
      ((tickStates i).table 2).state = .ready ∧ (tickStates i).current ≠ 2 := by
    decide +kernel
  have waits' : ∀ i, i < 20 → Waits 2 (tickStates i) := fun i below =>
    ⟨(waits i below).1, (waits i below).2.1, (waits i below).2.2⟩
  induction i with
  | zero => exact .start (waits' 0 inside)
  | succ i ih =>
      obtain ⟨next, stepped⟩ := Option.isSome_iff_exists.1 (possible i (by omega))
      have follows : tickStates (i + 1) = next := by
        rw [tickStates, stepped, Option.getD_some]
      exact .step (ih (by omega)) (follows ▸ stepped) (waits' (i + 1) inside)

end Examples

end CassiOS.Kernel.WaitingTime
