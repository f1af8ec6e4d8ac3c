import CassiOS.Kernel.Outcomes
import CassiOS.Support.Preemption

/-!
# System calls with interrupts in between

Vector 0x80 is a trap gate, so interrupts stay enabled in the handlers of
`core/syscall.cpp`. Here each handler is the sequence of its looks and stores, with room
for an interrupt before every one of them; `run_handler` says that without interrupts
the sequence does what `handleSyscall` does in one step. A look at another process or at
a queue and the stores that depend on it form a chain of `relying` steps, and so do the
store of a blocked state and the context switch.

The context switch itself, `destroy` and the insertion into the process list are one step
each, in the middle of such a chain.
-/

namespace CassiOS.Kernel.Preemption

open CassiOS.Support.Words
open CassiOS.Support.Preemption
open CassiOS.Support.TransitionSystem
open CassiOS.Support.Preemption.Handler
open CassiOS.Kernel.State
open CassiOS.Kernel.ProcessManager
open CassiOS.Kernel.Scheduler
open CassiOS.Kernel.Irq
open CassiOS.Kernel.System
open CassiOS.Kernel.Outcomes

set_option autoImplicit false

abbrev Steps : Type := Handler KernelState

/-- A step that demands nothing. -/
def first (act : KernelState → KernelState) (rest : KernelState → Steps) : Steps :=
  .plain (fun _ => true) act rest

def look (rest : KernelState → Steps) : Steps := first id rest

def lookAgain (rest : KernelState → Steps) : Steps := .relying id rest

def store (act : KernelState → KernelState) (rest : Steps) : Steps := .relying act fun _ => rest

/-- `frame->eax` is written and the call returns. -/
def returning (eax : Nat) : Steps :=
  first (fun k => Syscall.returnValue k eax) fun _ => .finish

def switching (esp : Nat) : Steps := store (fun k => (reschedule k esp).1) .finish

def failing : Steps := returning (asU32 (-1))

/-! ## The handlers -/

def setEax (eax : Nat) (p : Process) : Process := { p with frameEax := eax }

def makeReady (p : Process) : Process := { p with state := .ready }

/-- The message, the bulk data and the result of a call for a process that waits. -/
def delivering (target : Ref) (words : KernelState → Message) (dataPtr dataLen eax : Nat)
    (rest : Steps) : Steps :=
  store (fun k => copyMessageToProcess k target (k.table target).msgPtr (words k)) <|
  store (fun k => Syscall.copyBulk k target dataPtr dataLen) <|
  store (fun k => k.modify target (setEax eax)) rest

def blockSender (sender : Ref) (esp : Nat) : Steps :=
  store (fun k => k.modify sender (Syscall.block .sendBlocked)) (switching esp)

def sendDirect (sender target : Ref) (senderPid dataPtr dataLen esp : Nat) : Steps :=
  delivering target (fun k => (k.table sender).msg) dataPtr dataLen senderPid <|
  store (fun k =>
    ((k.modify target makeReady).record
      (.sent senderPid (k.table target).pid (k.table sender).msg)).record
      (.received (k.table target).pid senderPid (k.table sender).msg)) <|
  blockSender sender esp

def sendQueued (sender target : Ref) (senderPid esp : Nat) (node : Bool) : Steps :=
  .relying (fun k =>
      if node then (k.modify target (appendSender senderPid)).record
        (.sent senderPid (k.table target).pid (k.table sender).msg)
      else k)
    fun _ => if node then blockSender sender esp else failing

def send (esp targetPid msg dataPtr dataLen : Nat) (node : Bool) : Steps :=
  look fun k =>
    let sender := k.current
    let senderPid := (k.table sender).pid
    match get k targetPid with
    | none => failing
    | some target =>
        if target = sender then failing
        else
          store (fun k => k.modify sender
            (Syscall.outgoing (readMessage k msg) msg dataPtr dataLen)) <|
          lookAgain fun k =>
            if (k.table target).state = .receiveBlocked then
              sendDirect sender target senderPid dataPtr dataLen esp
            else sendQueued sender target senderPid esp node

/-- A result of 0 means that the caller blocks. -/
def receiveResult (esp : Nat) (result : Int) : Steps :=
  if result = -2 ∨ result = -3 then returning 0
  else if result = 0 then switching esp
  else returning (asU32 result)

def copyQueued (sender : Ref) (dataPtr dataCapacity : Nat) (k : KernelState) : KernelState :=
  if Syscall.bothBuffers (k.table sender).dataPtr (k.table sender).dataLen
      dataPtr dataCapacity then
    copyDataFromProcess k sender dataPtr (k.table sender).dataPtr
      (min (k.table sender).dataLen dataCapacity)
  else k

def receiveQueued (esp msg dataPtr dataCapacity : Nat) : Steps :=
  .relying (fun k => k.modify k.current dropSender) fun k =>
    let senderPid := (k.table k.current).sendQueue.headD 0
    look fun k =>
      match get k senderPid with
      | none => failing
      | some sender =>
          let receiver := k.current
          store (fun k => writeMessage k msg (k.table sender).msg) <|
          store (fun k =>
            (copyQueued sender dataPtr dataCapacity k).record
              (.received (k.table receiver).pid senderPid (k.table sender).msg)) <|
          receiveResult esp (asI32 senderPid)

def receiveWaiting (receiver : Ref) (esp msg : Nat) : Steps :=
  store (fun k => k.modify receiver fun p => { p with msgPtr := msg }) <|
  store (fun k => k.modify receiver (Syscall.block .receiveBlocked)) <|
  switching esp

/-- `notifyPop` with the copies to the receiver. -/
def popNotified (msg dataPtr dataCapacity : Nat) (k : KernelState) : KernelState :=
  match notifyPop (k.table k.current) with
  | some (node, popped) => Syscall.receiveNotified k msg dataPtr dataCapacity node popped
  | none => k

def receive (esp msg dataPtr dataCapacity : Nat) : Steps :=
  first (fun k => k.modify k.current (Syscall.receiveBuffer dataPtr dataCapacity)) fun _ =>
  first (fun k => (deliverPending k (k.table k.current).pid msg).1) fun k =>
    if (deliverPending k (k.table k.current).pid msg).2 then returning 0
    else
      first (popNotified msg dataPtr dataCapacity) fun k =>
        if (k.table k.current).notifyQueue ≠ [] then returning 0
        else
          lookAgain fun k =>
            if (k.table k.current).sendQueue ≠ [] then
              receiveQueued esp msg dataPtr dataCapacity
            else receiveWaiting k.current esp msg

def reply (targetPid msg dataPtr dataLen : Nat) : Steps :=
  look fun k =>
    match get k targetPid with
    | none => failing
    | some target =>
        if (k.table target).state ≠ .sendBlocked then failing
        else
          let replierPid := (k.table k.current).pid
          lookAgain fun k =>
            let replyBuf := readMessage k msg
            delivering target (fun _ => replyBuf) dataPtr dataLen 0 <|
            store (fun k =>
              (k.modify target makeReady).record (.replied replierPid (k.table target).pid)) <|
            returning 0

def notify (targetPid msg dataPtr dataLen : Nat) (node data : Bool) : Steps :=
  look fun k =>
    let sender := k.current
    let senderPid := (k.table sender).pid
    match get k targetPid with
    | none => failing
    | some target =>
        if target = sender then failing
        else
          lookAgain fun k =>
            let temp := readMessage k msg
            lookAgain fun k =>
              if (k.table target).state = .receiveBlocked then
                delivering target (fun _ => temp) dataPtr dataLen 0 <|
                store (fun k =>
                  ((k.modify target makeReady).record
                    (.notified senderPid (k.table target).pid temp)).record
                    (.heard (k.table target).pid senderPid temp)) <|
                returning 0
              else
                .relying (fun k =>
                    match notifyPush (k.table target) senderPid temp
                      (readBytes k.memory k.cr3 dataPtr) dataPtr dataLen node data with
                    | some pushed => (k.modify target fun _ => pushed).record
                        (.notified senderPid (k.table target).pid temp)
                    | none => k)
                  fun k =>
                    match notifyPush (k.table target) senderPid temp
                      (readBytes k.memory k.cr3 dataPtr) dataPtr dataLen node data with
                    | some _ => returning 0
                    | none => failing

def irqRegister (irq : Nat) : Steps :=
  first (fun k => (registerForward k (irq % 256) (k.table k.current).pid).1) fun k =>
    returning (asU32 (registerForward k (irq % 256) (k.table k.current).pid).2)

/-- `nextPid++`, whose load has given `pid`. The new object is named here: nobody else knows
of it before it is in the list. -/
def takePid (pid : Nat) (k : KernelState) : KernelState :=
  { k with nextPid := u32 (pid + 1), nextRef := k.nextRef + 1 }

def setPid (pid : Nat) (p : Process) : Process := { p with pid := pid }

def pushBack (proc : Ref) (k : KernelState) : KernelState :=
  { k with processes := k.processes ++ [proc] }

def setUp (kernelEsp heapStart : Nat) (p : Process) : Process :=
  { p with kernelEsp := kernelEsp, heapBase := heapStart, heapBreak := heapStart }

/-- `create` from the load of `nextPid` on, and the end of `spawn`. The load demands that
`nextPid` has not wrapped around to the kernel task's PID. -/
def createProcess (loading : Loading) : Steps :=
  .plain (fun k => k.nextPid != 0) id fun k =>
    let kernelStackTop := u32 (loading.kernelStackFrame + kernelVbase + frameSize)
    let caller := k.table k.current
    let pid := k.nextPid
    .relying (takePid pid) fun k =>
      let proc := k.nextRef
      store (fun k => k.modify proc (setPid pid)) <|
      store (fun k => k.modify proc fun p =>
        freshProcess p.pid (u32 (kernelStackTop + 4294967296 - 76)) caller.cs caller.ds
          loading.pdPhysical) <|
      store (pushBack proc) <|
      store (fun k => k.modify proc (setUp kernelStackTop loading.heapStart)) <|
      lookAgain fun k => returning (k.table proc).pid

def exec (elfPtr elfSize : Nat) (loading : Loading) : Steps :=
  if elfPtr = 0 ∨ elfSize = 0 then returning 0
  else if !loading.buffer then returning 0
  else if loading.pdPhysical = 0 then returning 0
  else if !loading.success then returning 0
  else if loading.userStackFrame = 0 then returning 0
  else if loading.kernelStackFrame = 0 then returning 0
  else if !loading.process then returning 0
  else createProcess loading

def waitpid (esp pid : Nat) : Steps :=
  look fun k =>
    let caller := k.current
    match get k pid with
    | none => failing
    | some target =>
        if target = caller then failing
        else
          store (fun k => k.modify caller fun p => { p with waitPid := pid }) <|
          store (fun k => k.modify caller (Syscall.block .waitBlocked)) <|
          switching esp

/-- The end of `exitCurrent`, after `destroy`. -/
def resume (next : Ref) (k : KernelState) : KernelState :=
  let k := k.modify next setRunning
  let k :=
    if (k.table next).pageDirectory ≠ 0 then { k with cr3 := (k.table next).pageDirectory }
    else k
  { k with current := next, tickCount := 0 }

def exit : Steps :=
  look fun k =>
    let dying := k.current
    let next := successor k dying
    let pid := (k.table dying).pid
    store (fun k => destroy k pid) <|
    store (resume next) .finish

def handler (esp : Nat) : Syscall.Call → Steps
  | .send targetPid msg dataPtr dataLen node => send esp targetPid msg dataPtr dataLen node
  | .receive msg dataPtr dataCapacity => receive esp msg dataPtr dataCapacity
  | .reply targetPid msg dataPtr dataLen => reply targetPid msg dataPtr dataLen
  | .notify targetPid msg dataPtr dataLen node data =>
      notify targetPid msg dataPtr dataLen node data
  | .irqRegister irq => irqRegister irq
  | .exec elfPtr elfSize loading => exec elfPtr elfSize loading
  | .waitpid pid => waitpid esp pid
  | .exit => exit

/-! ## Without interrupts -/

section Run

variable (k : KernelState) (act : KernelState → KernelState) (next : KernelState → Steps)

@[simp] theorem run_first : (first act next).run k = (next k).run (act k) := rfl

@[simp] theorem run_look : (look next).run k = (next k).run k := rfl

@[simp] theorem run_look_again : (lookAgain next).run k = (next k).run k := rfl

@[simp] theorem run_store (rest : Steps) : (store act rest).run k = rest.run (act k) := rfl

@[simp] theorem run_relying : (Handler.relying act next).run k = (next k).run (act k) := rfl

@[simp] theorem run_returning (eax : Nat) :
    (returning eax).run k = Syscall.returnValue k eax := rfl

@[simp] theorem run_failing : failing.run k = Syscall.returnValue k (asU32 (-1)) := rfl

@[simp] theorem run_switching (esp : Nat) : (switching esp).run k = (reschedule k esp).1 := rfl

theorem modify_modify (r : Ref) (f g : Process → Process) :
    (k.modify r f).modify r g = k.modify r fun p => g (f p) := by
  simp only [KernelState.modify, KernelState.mk.injEq, and_true]
  funext q
  by_cases same : q = r
  · simp only [if_pos same]
  · simp only [if_neg same]

theorem block_or_return_zero (esp : Nat) :
    (Syscall.blockOrReturn k esp 0).1 = (reschedule k esp).1 := by
  rw [Syscall.blockOrReturn, if_pos rfl]

theorem block_or_return_failed (esp : Nat) :
    (Syscall.blockOrReturn k esp (-1)).1 = Syscall.returnValue k (asU32 (-1)) := by
  rw [Syscall.blockOrReturn, if_neg (by decide)]

@[simp] theorem table_copy_bulk (target : Ref) (dataPtr dataLen : Nat) :
    (Syscall.copyBulk k target dataPtr dataLen).table = k.table := by
  unfold Syscall.copyBulk
  split <;> rfl

theorem table_copy_queued (sender : Ref) (dataPtr dataCapacity : Nat) :
    (copyQueued sender dataPtr dataCapacity k).table = k.table := by
  unfold copyQueued
  split <;> rfl

@[simp] theorem table_copy_message (target : Ref) (dst : Nat) (msg : Message) :
    (copyMessageToProcess k target dst msg).table = k.table := rfl

/-- The state before the last store of a delivery. -/
def delivered (k : KernelState) (target : Ref) (words : Message) (dataPtr dataLen eax : Nat) :
    KernelState :=
  (Syscall.copyBulk (copyMessageToProcess k target (k.table target).msgPtr words) target
    dataPtr dataLen).modify target (setEax eax)

theorem delivered_ready (target : Ref) (words : Message) (dataPtr dataLen eax : Nat) :
    (delivered k target words dataPtr dataLen eax).modify target makeReady =
      Syscall.deliver k target words dataPtr dataLen eax := modify_modify _ _ _ _

theorem delivered_keeps {α : Type} (field : Process → α)
    (keeps : ∀ eax p, field (setEax eax p) = field p)
    (target r : Ref) (words : Message) (dataPtr dataLen eax : Nat) :
    field ((delivered k target words dataPtr dataLen eax).table r) = field (k.table r) := by
  rw [delivered, KernelState.modify_keeps _ _ _ _ field (keeps _ _), table_copy_bulk,
    table_copy_message]

theorem deliver_keeps_pid (target r : Ref) (words : Message) (dataPtr dataLen eax : Nat) :
    ((Syscall.deliver k target words dataPtr dataLen eax).table r).pid = (k.table r).pid := by
  rw [← delivered_ready, KernelState.modify_keeps _ _ _ _ Process.pid rfl,
    delivered_keeps k Process.pid (fun _ _ => rfl)]

theorem current_deliver (target : Ref) (words : Message) (dataPtr dataLen eax : Nat) :
    (Syscall.deliver k target words dataPtr dataLen eax).current = k.current := by
  unfold Syscall.deliver Syscall.copyBulk
  dsimp only
  split <;> rfl

@[simp] theorem run_delivering (target : Ref) (words : KernelState → Message)
    (dataPtr dataLen eax : Nat) (rest : Steps) :
    (delivering target words dataPtr dataLen eax rest).run k =
      rest.run (delivered k target (words k) dataPtr dataLen eax) := rfl

theorem run_send_direct (sender target : Ref) (senderPid dataPtr dataLen esp : Nat) :
    (sendDirect sender target senderPid dataPtr dataLen esp).run k =
      (reschedule ((((Syscall.deliver k target (k.table sender).msg dataPtr dataLen
        senderPid).record (.sent senderPid (k.table target).pid (k.table sender).msg)).record
        (.received (k.table target).pid senderPid (k.table sender).msg)).modify sender
          (Syscall.block .sendBlocked)) esp).1 := by
  simp only [sendDirect, run_delivering, blockSender, run_store, run_switching,
    delivered_ready, delivered_keeps k Process.pid (fun _ _ => rfl),
    delivered_keeps k Process.msg (fun _ _ => rfl)]

theorem run_send (esp targetPid msg dataPtr dataLen : Nat) (node : Bool) :
    (send esp targetPid msg dataPtr dataLen node).run k =
      (Syscall.handleSyscall k esp (.send targetPid msg dataPtr dataLen node)).1 := by
  simp only [send, run_look, Syscall.handleSyscall, Syscall.send]
  cases get k targetPid with
  | none => exact (block_or_return_failed k esp).symm
  | some target =>
      dsimp only
      by_cases self : target = k.current
      · rw [if_pos self, if_pos self]
        exact (block_or_return_failed k esp).symm
      · simp only [if_neg self, run_store, run_look_again]
        have words : ((k.modify k.current (Syscall.outgoing (readMessage k msg) msg dataPtr
            dataLen)).table k.current).msg = readMessage k msg := by
          rw [KernelState.table_modify_self]
          rfl
        generalize k.modify k.current (Syscall.outgoing (readMessage k msg) msg dataPtr
          dataLen) = noted at words ⊢
        by_cases waiting : (noted.table target).state = .receiveBlocked
        · rw [if_pos waiting, if_pos waiting, run_send_direct, words,
            deliver_keeps_pid noted target target]
          exact (block_or_return_zero _ esp).symm
        · rw [if_neg waiting, if_neg waiting]
          cases node with
          | false => exact (block_or_return_failed noted esp).symm
          | true =>
              simp only [sendQueued, run_relying, if_true, sendQueuePush, blockSender,
                run_store, run_switching, words, KernelState.modify_const,
                block_or_return_zero, KernelState.table_modify_self]
              rfl

theorem run_receive_result (esp : Nat) (result : Int) :
    (receiveResult esp result).run k =
      (if result = -2 ∨ result = -3 then (Syscall.returnValue k 0, esp)
        else Syscall.blockOrReturn k esp result).1 := by
  unfold receiveResult
  by_cases delivered : result = -2 ∨ result = -3
  · rw [if_pos delivered, if_pos delivered]
    rfl
  · rw [if_neg delivered, if_neg delivered, Syscall.blockOrReturn]
    by_cases zero : result = 0
    · rw [if_pos zero, if_pos zero]
      rfl
    · rw [if_neg zero, if_neg zero]
      rfl

/-- What `handleSyscall` makes of the answer of `receive`. -/
def finishReceive (esp : Nat) (answer : KernelState × Int) : KernelState :=
  (if answer.2 = -2 ∨ answer.2 = -3 then (Syscall.returnValue answer.1 0, esp)
    else Syscall.blockOrReturn answer.1 esp answer.2).1

theorem receive_queued_eq {msg dataPtr dataCapacity : Nat} {sender : Ref}
    (found : get (k.modify k.current dropSender)
      ((k.table k.current).sendQueue.headD 0) = some sender) :
    Syscall.receiveQueued k msg dataPtr dataCapacity =
      ((copyQueued sender dataPtr dataCapacity (writeMessage (k.modify k.current dropSender) msg
          ((k.modify k.current dropSender).table sender).msg)).record
        (.received ((k.modify k.current dropSender).table k.current).pid
          ((k.table k.current).sendQueue.headD 0)
          ((k.modify k.current dropSender).table sender).msg),
        asI32 ((k.table k.current).sendQueue.headD 0)) := by
  have table := table_copy_queued (writeMessage (k.modify k.current dropSender) msg
    ((k.modify k.current dropSender).table sender).msg) sender dataPtr dataCapacity
  unfold Syscall.receiveQueued
  simp only [sendQueuePop, KernelState.modify_const, found]
  unfold copyQueued at table ⊢
  rw [table]
  rfl

theorem run_receive_queued (esp msg dataPtr dataCapacity : Nat) :
    (receiveQueued esp msg dataPtr dataCapacity).run k =
      finishReceive esp (Syscall.receiveQueued k msg dataPtr dataCapacity) := by
  simp only [receiveQueued, run_relying, run_look]
  cases found : get (k.modify k.current dropSender)
      ((k.table k.current).sendQueue.headD 0) with
  | none =>
      simp only [Syscall.receiveQueued, sendQueuePop, KernelState.modify_const, found]
      rfl
  | some sender =>
      rw [receive_queued_eq k found]
      simp only [run_store, run_receive_result]
      rfl

theorem run_receive (esp msg dataPtr dataCapacity : Nat) :
    (receive esp msg dataPtr dataCapacity).run k =
      (Syscall.handleSyscall k esp (.receive msg dataPtr dataCapacity)).1 := by
  change _ = finishReceive esp (Syscall.receive k msg dataPtr dataCapacity)
  simp only [receive, run_first, Syscall.receive]
  obtain ⟨noted, shape, current⟩ : ∃ noted,
      k.modify k.current (Syscall.receiveBuffer dataPtr dataCapacity) = noted ∧
        k.current = noted.current := ⟨_, rfl, rfl⟩
  rw [shape, current]
  rcases deliver_pending_cases noted (noted.table noted.current).pid msg with
    ⟨_, none⟩ | ⟨irq, memory, _, _, _, delivered⟩
  · rw [none]
    rw [if_neg (show ¬ (noted, false).2 = true from Bool.false_ne_true), run_first]
    cases queue : (noted.table noted.current).notifyQueue with
    | nil =>
        have popped : popNotified msg dataPtr dataCapacity noted = noted := by
          rw [popNotified, notifyPop, queue]
        rw [popped, if_neg fun apart => apart rfl, run_look_again]
        simp only [notifyPop, queue]
        by_cases senders : (noted.table noted.current).sendQueue ≠ []
        · rw [if_pos senders, if_pos senders, run_receive_queued]
        · rw [if_neg senders, if_neg senders, finishReceive,
            if_neg (show ¬ ((0 : Int) = -2 ∨ (0 : Int) = -3) by decide)]
          simp only [receiveWaiting, run_store, run_switching, modify_modify,
            block_or_return_zero]
          rfl
    | cons node rest =>
        have popped : popNotified msg dataPtr dataCapacity noted =
            Syscall.receiveNotified noted msg dataPtr dataCapacity node
              (dropNotify (noted.table noted.current)) := by
          rw [popNotified, notifyPop, queue]
        rw [popped, if_pos (List.cons_ne_nil _ _)]
        simp only [notifyPop, queue]
        rfl
  · rw [delivered]
    rfl

theorem run_reply (esp targetPid msg dataPtr dataLen : Nat) :
    (reply targetPid msg dataPtr dataLen).run k =
      (Syscall.handleSyscall k esp (.reply targetPid msg dataPtr dataLen)).1 := by
  simp only [reply, run_look, Syscall.handleSyscall, Syscall.reply]
  cases get k targetPid with
  | none => rfl
  | some target =>
      dsimp only
      by_cases idle : (k.table target).state ≠ .sendBlocked
      · rw [if_pos idle, if_pos idle]
        rfl
      · rw [if_neg idle, if_neg idle]
        simp only [run_look_again, run_delivering, run_store, run_returning,
          delivered_ready, delivered_keeps k Process.pid (fun _ _ => rfl),
          deliver_keeps_pid, current_deliver]
        rfl

theorem run_notify (esp targetPid msg dataPtr dataLen : Nat) (node data : Bool) :
    (notify targetPid msg dataPtr dataLen node data).run k =
      (Syscall.handleSyscall k esp (.notify targetPid msg dataPtr dataLen node data)).1 := by
  simp only [notify, run_look, Syscall.handleSyscall, Syscall.notify]
  cases get k targetPid with
  | none => rfl
  | some target =>
      dsimp only
      by_cases self : target = k.current
      · rw [if_pos self, if_pos self]
        rfl
      · rw [if_neg self, if_neg self]
        simp only [run_look_again]
        by_cases waiting : (k.table target).state = .receiveBlocked
        · rw [if_pos waiting, if_pos waiting]
          simp only [run_delivering, run_store, run_returning, delivered_ready,
            delivered_keeps k Process.pid (fun _ _ => rfl), deliver_keeps_pid]
          rfl
        · rw [if_neg waiting, if_neg waiting, run_relying]
          cases pushed : notifyPush (k.table target) (k.table k.current).pid
            (readMessage k msg) (readBytes k.memory k.cr3 dataPtr) dataPtr dataLen node data with
          | none => rfl
          | some proc =>
              have pid : proc.pid = (k.table target).pid := by
                rcases notify_push_cases (k.table target) (k.table k.current).pid
                  (readMessage k msg) (readBytes k.memory k.cr3 dataPtr) dataPtr dataLen node
                  data with failed | ⟨queued, _, _, appended⟩
                · rw [failed] at pushed
                  cases pushed
                · rw [appended] at pushed
                  cases pushed
                  rfl
              simp only [KernelState.table_modify_self, pid]
              rfl

/-- The stores of `create` amount to one new record. -/
theorem made_eq (pid : Nat) (new : Process → Process) :
    pushBack k.nextRef (((takePid pid k).modify k.nextRef (setPid pid)).modify k.nextRef new) =
      { k with
        table := fun q => if q = k.nextRef then new (setPid pid (k.table q)) else k.table q
        processes := k.processes ++ [k.nextRef]
        nextPid := u32 (pid + 1)
        nextRef := k.nextRef + 1 } := by
  rw [modify_modify]
  rfl

theorem run_create_process (loading : Loading) :
    let kernelStackTop := u32 (loading.kernelStackFrame + kernelVbase + frameSize)
    let caller := k.table k.current
    let made := (create k (u32 (kernelStackTop + 4294967296 - 76)) caller.cs caller.ds
      loading.pdPhysical true).1.modify k.nextRef (setUp kernelStackTop loading.heapStart)
    (createProcess loading).run k = Syscall.returnValue made (made.table k.nextRef).pid := by
  intro kernelStackTop caller made
  have same : (pushBack k.nextRef (((takePid k.nextPid k).modify k.nextRef
      (setPid k.nextPid)).modify k.nextRef fun p => freshProcess p.pid
        (u32 (kernelStackTop + 4294967296 - 76)) caller.cs caller.ds
        loading.pdPhysical)).modify k.nextRef (setUp kernelStackTop loading.heapStart) = made := by
    rw [made_eq]
    rfl
  rw [← same]
  rfl

theorem run_exec (esp elfPtr elfSize : Nat) (loading : Loading) :
    (exec elfPtr elfSize loading).run k =
      (Syscall.handleSyscall k esp (.exec elfPtr elfSize loading)).1 := by
  simp only [exec, Syscall.handleSyscall, Syscall.exec]
  by_cases arguments : elfPtr = 0 ∨ elfSize = 0
  · rw [if_pos arguments, if_pos arguments]
    rfl
  rw [if_neg arguments, if_neg arguments]
  by_cases noBuffer : (!loading.buffer) = true
  · rw [if_pos noBuffer, if_pos noBuffer]
    rfl
  rw [if_neg noBuffer, if_neg noBuffer]
  by_cases noSpace : loading.pdPhysical = 0
  · rw [if_pos noSpace, if_pos noSpace]
    rfl
  rw [if_neg noSpace, if_neg noSpace]
  by_cases rejected : (!loading.success) = true
  · rw [if_pos rejected, if_pos rejected]
    rfl
  rw [if_neg rejected, if_neg rejected]
  unfold spawn
  by_cases noStack : loading.userStackFrame = 0
  · simp only [if_pos noStack]
    rfl
  by_cases noKernelStack : loading.kernelStackFrame = 0
  · simp only [if_neg noStack, if_pos noKernelStack]
    rfl
  simp only [if_neg noStack, if_neg noKernelStack]
  cases loading.process with
  | false => rfl
  | true =>
      change (createProcess loading).run k = _
      rw [run_create_process]
      rfl

theorem run_waitpid (esp pid : Nat) :
    (waitpid esp pid).run k = (Syscall.handleSyscall k esp (.waitpid pid)).1 := by
  simp only [waitpid, run_look, Syscall.handleSyscall, Syscall.waitpid]
  cases get k pid with
  | none => exact (block_or_return_failed k esp).symm
  | some target =>
      dsimp only
      by_cases self : target = k.current
      · rw [if_pos self, if_pos self]
        exact (block_or_return_failed k esp).symm
      · rw [if_neg self, if_neg self]
        simp only [run_store, run_switching, modify_modify, block_or_return_zero]
        rfl

theorem run_handler (esp : Nat) (call : Syscall.Call) :
    (handler esp call).run k = (Syscall.handleSyscall k esp call).1 := by
  cases call with
  | send targetPid msg dataPtr dataLen node => exact run_send k esp targetPid msg dataPtr dataLen node
  | receive msg dataPtr dataCapacity => exact run_receive k esp msg dataPtr dataCapacity
  | reply targetPid msg dataPtr dataLen => exact run_reply k esp targetPid msg dataPtr dataLen
  | notify targetPid msg dataPtr dataLen node data =>
      exact run_notify k esp targetPid msg dataPtr dataLen node data
  | irqRegister irq => rfl
  | exec elfPtr elfSize loading => exact run_exec k esp elfPtr elfSize loading
  | waitpid pid => exact run_waitpid k esp pid
  | exit => rfl

end Run

/-! ## The system -/

/-- The kernel and how far each process is in its handler; outside of it the process is
in user mode, or idles when it is the kernel task. -/
abbrev Machine : Type := Config KernelState Ref

def active (s : Machine) : Steps := s.active KernelState.current

inductive Action
  /-- The running program replaces the contents of its address space. -/
  | user (bytes : Nat → UInt8)
  /-- The running program makes a system call. -/
  | enter (esp : Nat) (call : Syscall.Call)
  /-- The handler of the running process takes one step. -/
  | advance
  | irq (number esp : Nat)

def step (s : Machine) : Action → Option Machine
  | .user bytes =>
      match active s with
      | .finish =>
          if s.state.current ≠ kernelTask then some { s with state := runUser s.state bytes }
          else none
      | _ => none
  | .enter esp call =>
      match active s with
      | .finish =>
          if s.state.current ≠ kernelTask ∧ kernelVbase ≤ esp then
            some (s.enter KernelState.current (handler esp call))
          else none
      | _ => none
  | .advance => s.advance KernelState.current
  | .irq number esp =>
      if kernelVbase ≤ esp then some { s with state := (handleIrq s.state number esp).1 }
      else none

def EndsSlice (k : KernelState) (number : Nat) : Prop :=
  lineOf number = 0 ∧ 1 < getProcessCount k ∧ k.timeSlice ≤ u32 (k.tickCount + 1)

/-- No time slice ends where the running handler relies on the step before, and no process
is created once `nextPid` has wrapped around. -/
def Undisturbed (s : Machine) : Action → Prop
  | .advance => (active s).Demands s.state
  | .irq number _ => EndsSlice s.state number → ¬ (active s).Relies
  | _ => True

instance (s : Machine) (action : Action) : Decidable (Undisturbed s action) :=
  match action with
  | .advance => inferInstanceAs (Decidable ((active s).Demands s.state))
  | .irq number _ => inferInstanceAs (Decidable
      (lineOf number = 0 ∧ 1 < getProcessCount s.state ∧
        s.state.timeSlice ≤ u32 (s.state.tickCount + 1) → ¬ (active s).Relies))
  | .user _ => isTrue trivial
  | .enter _ _ => isTrue trivial

/-- The states of every run from the end of `start()`. -/
def Reaches (admits : Machine → Action → Prop) (s : Machine) : Prop :=
  ∃ cr3 memory modules, modules.length < 4294967296 ∧
    Run step admits ⟨boot cr3 memory modules, fun _ => .finish⟩ s

end CassiOS.Kernel.Preemption
