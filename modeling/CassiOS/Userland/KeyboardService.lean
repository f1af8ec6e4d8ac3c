import CassiOS.Support.TransitionSystem
import CassiOS.Userland.Messages

/-!
# The keyboard service

`Keyboard` and the service loop of `userspace/drivers/kbd`. A client that asks for a key when
there is none is put into the slot `pendingReader` and gets its reply with the next key. The
slot has room for one client: the service remembers all of them as long as no client asks
while another one is in the slot.
-/

namespace CassiOS.Userland.KeyboardService

open CassiOS.Support.TransitionSystem
open CassiOS.Userland.Messages

set_option autoImplicit false

section Keys

namespace KeyCode

def delete : UInt8 := 0x7F
def leftArrow : UInt8 := 0x8C
def rightArrow : UInt8 := 0x8D

end KeyCode

namespace ScanCode

def leftCtrl : UInt8 := 0x1D
def leftShift : UInt8 := 0x2A
def rightShift : UInt8 := 0x36
def leftAlt : UInt8 := 0x38
def capsLock : UInt8 := 0x3A
def numLock : UInt8 := 0x45

end ScanCode

/-- `scancode_table`: the key codes of the scancodes from 0, with 0 for none. -/
def scancodeTable : List UInt8 :=
  [0x00, 0x1B, 0x31, 0x32, 0x33, 0x34, 0x35, 0x36, 0x37, 0x38, 0x39, 0x30, 0x2D, 0x3D, 0x08, 0x09,
   0x71, 0x77, 0x65, 0x72, 0x74, 0x79, 0x75, 0x69, 0x6F, 0x70, 0x5B, 0x5D, 0x0D, 0x00, 0x61, 0x73,
   0x64, 0x66, 0x67, 0x68, 0x6A, 0x6B, 0x6C, 0x3B, 0x27, 0x60, 0x00, 0x5C, 0x7A, 0x78, 0x63, 0x76,
   0x62, 0x6E, 0x6D, 0x2C, 0x2E, 0x2F, 0x00, 0x00, 0x00, 0x20, 0x00, 0x80, 0x81, 0x82, 0x83, 0x84,
   0x85, 0x86, 0x87, 0x88, 0x89, 0x00, 0x00, 0x00, 0x00, 0x00, 0x00, 0x00, 0x00, 0x00, 0x00, 0x00,
   0x00, 0x00, 0x00, 0x00, 0x00, 0x00, 0x00, 0x8A, 0x8B]

def isLetter (key : UInt8) : Prop := 0x61 ≤ key ∧ key ≤ 0x7A

instance (key : UInt8) : Decidable (isLetter key) :=
  inferInstanceAs (Decidable (0x61 ≤ key ∧ key ≤ 0x7A))

/-- The cases of the switch in `resolveShift`. -/
def shiftedKeys : List (UInt8 × UInt8) :=
  [(0x31, 0x21), (0x32, 0x40), (0x33, 0x23), (0x34, 0x24), (0x35, 0x25), (0x36, 0x5E), (0x37, 0x26),
   (0x38, 0x2A), (0x39, 0x28), (0x30, 0x29), (0x2D, 0x5F), (0x3D, 0x2B), (0x5B, 0x7B), (0x5D, 0x7D),
   (0x5C, 0x7C), (0x3B, 0x3A), (0x27, 0x22), (0x60, 0x7E), (0x2C, 0x3C), (0x2E, 0x3E), (0x2F, 0x3F)]

def resolveShift (key : UInt8) : UInt8 :=
  if isLetter key then key - 0x20 else (shiftedKeys.lookup key).getD key

end Keys

section Keyboard

def keyboardBufferSize : Nat := 256

structure Keyboard where
  shiftHeld : Bool
  ctrlHeld : Bool
  altHeld : Bool
  capsLockOn : Bool
  e0Pending : Bool
  ring : Nat → UInt8
  ringHead : Nat
  ringTail : Nat

namespace Keyboard

def construct (ring : Nat → UInt8) : Keyboard :=
  ⟨false, false, false, false, false, ring, 0, 0⟩

/-- A key goes into the ring unless it is full. -/
def store (k : Keyboard) (ch : UInt8) : Keyboard :=
  if ch ≠ 0 then
    let next := (k.ringHead + 1) % keyboardBufferSize
    if next ≠ k.ringTail then
      { k with ring := fun i => if i = k.ringHead then ch else k.ring i, ringHead := next }
    else k
  else k

def extendedKey (scancode : UInt8) : UInt8 :=
  if scancode = 0x4B then KeyCode.leftArrow
  else if scancode = 0x4D then KeyCode.rightArrow
  else if scancode = 0x53 then KeyCode.delete
  else 0

def resolved (k : Keyboard) (key : UInt8) : UInt8 :=
  if (if isLetter key then k.shiftHeld != k.capsLockOn else k.shiftHeld) then resolveShift key
  else key

def handleScancode (k : Keyboard) (raw : UInt8) : Keyboard :=
  if raw = 0xE0 then { k with e0Pending := true }
  else
    let released : Bool := raw &&& 0x80 ≠ 0
    let scancode := raw &&& 0x7F
    if k.e0Pending then
      let k := { k with e0Pending := false }
      if released then k else k.store (extendedKey scancode)
    else if scancode = ScanCode.leftShift ∨ scancode = ScanCode.rightShift then
      { k with shiftHeld := !released }
    else if scancode = ScanCode.leftCtrl then { k with ctrlHeld := !released }
    else if scancode = ScanCode.leftAlt then { k with altHeld := !released }
    else if scancode = ScanCode.capsLock then
      if released then k else { k with capsLockOn := !k.capsLockOn }
    else if scancode = ScanCode.numLock then k
    else if released then k
    else
      match scancodeTable[scancode.toNat]? with
      | none => k
      | some key => if key ≠ 0 then k.store (k.resolved key) else k

def readBuffer (k : Keyboard) : UInt8 × Keyboard :=
  if k.ringHead = k.ringTail then (0, k)
  else (k.ring k.ringTail, { k with ringTail := (k.ringTail + 1) % keyboardBufferSize })

def bufferCount (k : Keyboard) : Nat :=
  (k.ringHead + keyboardBufferSize - k.ringTail) % keyboardBufferSize

end Keyboard

end Keyboard

section Loop

/-- A message that `receive` returns, with the scancodes that the controller gives while an
IRQ is handled. -/
structure Received where
  sender : UInt32
  type : UInt32
  scancodes : List UInt8

structure Reply where
  recipient : UInt32
  msg : Message
deriving DecidableEq

structure Service where
  keyboard : Keyboard
  pendingReader : UInt32

/-- `ipc::Message reply = {}; reply.arg1 = key`. -/
def keyReply (key : UInt8) : Message := { Message.zero with arg1 := key.toUInt32 }

def Service.drain (s : Service) (scancodes : List UInt8) : Service :=
  { s with keyboard := scancodes.foldl Keyboard.handleScancode s.keyboard }

/-- One round of the loop in `_start`. -/
def Service.handle (s : Service) (r : Received) : Service × Option Reply :=
  if r.type = MessageType.irqNotify then
    let s := s.drain r.scancodes
    if s.pendingReader ≠ 0 ∧ 0 < s.keyboard.bufferCount then
      let (key, keyboard) := s.keyboard.readBuffer
      (⟨keyboard, 0⟩, some ⟨s.pendingReader, keyReply key⟩)
    else (s, none)
  else if r.type = MessageType.kbdRead then
    if isSender r.sender then
      if 0 < s.keyboard.bufferCount then
        let (key, keyboard) := s.keyboard.readBuffer
        ({ s with keyboard := keyboard }, some ⟨r.sender, keyReply key⟩)
      else ({ s with pendingReader := r.sender }, none)
    else (s, none)
  else if isSender r.sender then (s, some ⟨r.sender, Message.zero⟩)
  else (s, none)

end Loop

section Readers

/-- The service and the clients that wait for a key: those whose request has been received
and not been answered. -/
structure System where
  service : Service
  waiting : List UInt32

def start (ring : Nat → UInt8) : System := ⟨⟨Keyboard.construct ring, 0⟩, []⟩

def asks (r : Received) : Prop := r.type = MessageType.kbdRead ∧ isSender r.sender

instance (r : Received) : Decidable (asks r) :=
  inferInstanceAs (Decidable (r.type = MessageType.kbdRead ∧ isSender r.sender))

def answered (waiting : List UInt32) : Option Reply → List UInt32
  | none => waiting
  | some reply => waiting.filter fun client => client ≠ reply.recipient

def System.step (s : System) (r : Received) : System :=
  let handled := s.service.handle r
  let waiting := if asks r then s.waiting ++ [r.sender] else s.waiting
  ⟨handled.1, answered waiting handled.2⟩

def step (s : System) (r : Received) : Option System := some (s.step r)

def SlotFree (s : System) (r : Received) : Prop :=
  asks r → s.service.pendingReader = 0 ∨ s.service.pendingReader = r.sender

instance (s : System) (r : Received) : Decidable (SlotFree s r) :=
  inferInstanceAs (Decidable (asks r → _ ∨ _))

/-- Every waiting client is the pending one, and gets a reply as soon as a key comes. -/
structure Remembered (s : System) : Prop where
  recorded : ∀ client ∈ s.waiting, s.service.pendingReader = client
  served : ∀ client ∈ s.waiting, ∀ r : Received, r.type = MessageType.irqNotify →
    0 < (s.service.drain r.scancodes).keyboard.bufferCount →
    ∃ msg, (s.service.handle r).2 = some ⟨client, msg⟩

/-- Every waiting client is the pending one, and then there is no key. -/
structure OneSlot (s : System) : Prop where
  recorded : ∀ client ∈ s.waiting, s.service.pendingReader = client
  named : s.service.pendingReader ≠ 0 → s.service.keyboard.bufferCount = 0
  client : ∀ client ∈ s.waiting, client ≠ 0

variable {s : System} {r : Received}

theorem handle_irq {service : Service} (irq : r.type = MessageType.irqNotify)
    (pending : service.pendingReader ≠ 0)
    (key : 0 < (service.drain r.scancodes).keyboard.bufferCount) :
    service.handle r =
      (⟨(service.drain r.scancodes).keyboard.readBuffer.2, 0⟩,
        some ⟨service.pendingReader,
          keyReply (service.drain r.scancodes).keyboard.readBuffer.1⟩) := by
  unfold Service.handle
  rw [if_pos irq]
  exact if_pos ⟨pending, key⟩

theorem remembered_of_slot (slot : OneSlot s) : Remembered s where
  recorded := slot.recorded
  served client member r irq key := by
    have here := slot.recorded client member
    have pending : s.service.pendingReader ≠ 0 := by
      rw [here]
      exact slot.client client member
    rw [handle_irq irq pending key, here]
    exact ⟨_, rfl⟩

theorem slot_start (ring : Nat → UInt8) : OneSlot (start ring) :=
  ⟨nofun, fun absent => absurd rfl absent, nofun⟩

theorem answered_all {waiting : List UInt32} {reply : Reply}
    (all : ∀ client ∈ waiting, client = reply.recipient) : answered waiting (some reply) = [] := by
  apply List.filter_eq_nil_iff.2
  intro client member
  simpa using all client member

theorem mem_answered {waiting : List UInt32} {reply : Option Reply} {client : UInt32}
    (member : client ∈ answered waiting reply) : client ∈ waiting := by
  cases reply with
  | none => exact member
  | some reply => exact (List.mem_filter.1 member).1

theorem OneSlot.nobody (slot : OneSlot s) (empty : s.service.pendingReader = 0) :
    s.waiting = [] := by
  apply List.eq_nil_iff_forall_not_mem.2
  intro client member
  exact slot.client client member ((slot.recorded client member).symm.trans empty)

theorem slot_irq (slot : OneSlot s) (irq : r.type = MessageType.irqNotify) :
    OneSlot (s.step r) := by
  have quiet : ¬ asks r := by
    rintro ⟨read, _⟩
    rw [irq] at read
    exact absurd read (by decide)
  unfold System.step
  rw [if_neg quiet]
  by_cases woken : s.service.pendingReader ≠ 0 ∧
      0 < (s.service.drain r.scancodes).keyboard.bufferCount
  · have nobody : answered s.waiting (some ⟨s.service.pendingReader,
        keyReply (s.service.drain r.scancodes).keyboard.readBuffer.1⟩) = [] :=
      answered_all fun client member => (slot.recorded client member).symm
    rw [handle_irq irq woken.1 woken.2]
    dsimp only
    rw [nobody]
    exact ⟨nofun, fun absent => absurd rfl absent, nofun⟩
  · have handled : s.service.handle r = (s.service.drain r.scancodes, none) := by
      unfold Service.handle
      rw [if_pos irq]
      exact if_neg woken
    rw [handled]
    refine ⟨slot.recorded, fun pending => ?_, slot.client⟩
    exact Nat.eq_zero_of_not_pos fun key => woken ⟨pending, key⟩

theorem slot_read (slot : OneSlot s) (read : r.type = MessageType.kbdRead)
    (free : SlotFree s r) : OneSlot (s.step r) := by
  have other : ¬ r.type = MessageType.irqNotify := by
    rw [read]
    decide
  unfold System.step Service.handle
  rw [if_neg other, if_pos read]
  by_cases sender : isSender r.sender
  · have asked : asks r := ⟨read, sender⟩
    rw [if_pos asked, if_pos sender]
    by_cases key : 0 < s.service.keyboard.bufferCount
    · -- a key is there only while the slot is empty
      have empty : s.service.pendingReader = 0 := by
        by_contra pending
        exact absurd (slot.named pending) (Nat.ne_of_gt key)
      have nobody : answered [r.sender]
          (some ⟨r.sender, keyReply s.service.keyboard.readBuffer.1⟩) = [] :=
        answered_all fun client member => List.mem_singleton.1 member
      rw [if_pos key, slot.nobody empty]
      dsimp only
      rw [List.nil_append, nobody]
      exact ⟨nofun, fun pending => absurd empty pending, nofun⟩
    · rw [if_neg key]
      have all : ∀ client ∈ s.waiting ++ [r.sender], client = r.sender := by
        intro client member
        rcases List.mem_append.1 member with old | new
        · rcases free asked with empty | same
          · rw [slot.nobody empty] at old
            cases old
          · exact (slot.recorded client old).symm.trans same
        · exact List.mem_singleton.1 new
      constructor
      · exact fun client member => (all client member).symm
      · exact fun _ => Nat.eq_zero_of_not_pos key
      · intro client member
        rw [all client member]
        exact sender_ne_zero sender
  · have quiet : ¬ asks r := fun asked => sender asked.2
    rw [if_neg quiet, if_neg sender]
    exact slot

theorem slot_other (slot : OneSlot s) (irq : ¬ r.type = MessageType.irqNotify)
    (read : ¬ r.type = MessageType.kbdRead) : OneSlot (s.step r) := by
  have quiet : ¬ asks r := fun asked => read asked.1
  unfold System.step Service.handle
  rw [if_neg irq, if_neg read, if_neg quiet]
  by_cases sender : isSender r.sender
  · have kept : ∀ client ∈ answered s.waiting (some ⟨r.sender, Message.zero⟩),
        client ∈ s.waiting := fun _ member => mem_answered member
    rw [if_pos sender]
    exact ⟨fun client member => slot.recorded client (kept client member), slot.named,
      fun client member => slot.client client (kept client member)⟩
  · rw [if_neg sender]
    exact slot

theorem slot_step (slot : OneSlot s) (free : SlotFree s r) : OneSlot (s.step r) := by
  by_cases irq : r.type = MessageType.irqNotify
  · exact slot_irq slot irq
  by_cases read : r.type = MessageType.kbdRead
  · exact slot_read slot read free
  · exact slot_other slot irq read

/-- As long as no client asks while another one is pending, no reader is forgotten. -/
theorem readers_are_remembered {ring : Nat → UInt8} (run : Run step SlotFree (start ring) s) :
    Remembered s := by
  apply remembered_of_slot
  apply run.invariant OneSlot (slot_start ring)
  intro s r s' slot free next
  obtain rfl : s.step r = s' := Option.some.inj next
  exact slot_step slot free

/-- Client 5 asks, and an IRQ without a key follows. -/
theorem one_reader_is_remembered :
    ∃ s, path step (start fun _ => 0)
        [⟨5, MessageType.kbdRead, []⟩, ⟨0, MessageType.irqNotify, []⟩] = some s ∧
      s.waiting = [5] ∧ Remembered s :=
  ⟨_, rfl, rfl, readers_are_remembered (.step (.step .start (by decide) rfl) (by decide) rfl)⟩

/-- Client 6 asks while client 5 is pending: the next key goes to client 6, and client 5 waits
without being recorded. -/
theorem second_reader_overwrites :
    let first := ((start fun _ => 0).step ⟨5, MessageType.kbdRead, []⟩).step
      ⟨6, MessageType.kbdRead, []⟩
    let second := first.step ⟨0, MessageType.irqNotify, [0x1E]⟩
    5 ∈ first.waiting ∧ first.service.pendingReader = 6 ∧
      second.waiting = [5] ∧ second.service.pendingReader = 0 := by
  decide

end Readers

end CassiOS.Userland.KeyboardService
