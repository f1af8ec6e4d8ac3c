import CassiOS.Support.RingBuffer
import CassiOS.Userland.KeyboardService

/-!
# Keys arrive in order

The characters that the keyboard service replies with are those that its ring has accepted,
oldest first. A character of the keyboard is dropped only when 255 others are unread.
-/

namespace CassiOS.Userland.KeyOrder

open CassiOS.Support.RingBuffer
open CassiOS.Userland.Messages
open CassiOS.Userland.KeyboardService

set_option autoImplicit false

section Reference

/-- The character that `handleScancode` puts into the ring. -/
def accepted (k : Keyboard) (raw : UInt8) : Option UInt8 :=
  let k' := k.handleScancode raw
  if k'.ringHead = k.ringHead then none else some (k'.ring k.ringHead)

def extendedKeys : List (UInt8 × UInt8) :=
  [(0x4B, KeyCode.leftArrow), (0x4D, KeyCode.rightArrow), (0x53, KeyCode.delete)]

/-- The character of a key of the table: Shift and Caps Lock reverse each other for letters, only
Shift counts for the others. -/
def character (shift caps : Bool) (key : UInt8) : UInt8 :=
  if isLetter key then if shift != caps then key - 0x20 else key
  else if shift then (shiftedKeys.lookup key).getD key else key

/-- The character of a scancode by the tables and the modifiers; a prefix byte, a release, a
modifier and a code without a key have none. -/
def translated (k : Keyboard) (raw : UInt8) : Option UInt8 :=
  if 0x80 ≤ raw then none
  else if k.e0Pending then extendedKeys.lookup raw
  else scancodeTable[raw.toNat]?.bind fun key =>
    if key = 0 then none else some (character k.shiftHeld k.capsLockOn key)

def drained (k : Keyboard) (scancodes : List UInt8) : Keyboard :=
  scancodes.foldl Keyboard.handleScancode k

/-- The characters that are accepted while scancodes are drained. -/
def acceptedFrom : Keyboard → List UInt8 → List UInt8
  | _, [] => []
  | k, raw :: rest => (accepted k raw).toList ++ acceptedFrom (k.handleScancode raw) rest

/-- The service with all characters that were accepted and all that were replied with. -/
structure Trace where
  service : Service
  accepted : List UInt8
  replied : List UInt8

def repliedKeys (r : Received) (reply : Option Reply) : List UInt8 :=
  if r.type = MessageType.irqNotify ∨ r.type = MessageType.kbdRead then
    reply.toList.map fun reply => reply.msg.arg1.toUInt8
  else []

def Trace.step (t : Trace) (r : Received) : Trace where
  service := (t.service.handle r).1
  accepted := t.accepted ++
    if r.type = MessageType.irqNotify then acceptedFrom t.service.keyboard r.scancodes else []
  replied := t.replied ++ repliedKeys r (t.service.handle r).2

def start (ring : Nat → UInt8) : Trace := ⟨⟨Keyboard.construct ring, 0⟩, [], []⟩

def run (ring : Nat → UInt8) (received : List Received) : Trace :=
  received.foldl Trace.step (start ring)

/-- What holds between two rounds, and while any scancodes are drained in the next one. -/
structure InOrder (t : Trace) : Prop where
  inOrder : t.replied <+: t.accepted
  count : ∀ scancodes, t.replied.length + (drained t.service.keyboard scancodes).bufferCount =
    t.accepted.length + (acceptedFrom t.service.keyboard scancodes).length
  keys : ∀ scancodes raw ch, accepted (drained t.service.keyboard scancodes) raw = some ch →
    translated (drained t.service.keyboard scancodes) raw = some ch
  dropped : ∀ scancodes raw, (translated (drained t.service.keyboard scancodes) raw).isSome →
    accepted (drained t.service.keyboard scancodes) raw = none →
      t.accepted.length + (acceptedFrom t.service.keyboard scancodes).length =
        t.replied.length + 255
  pending : t.service.pendingReader ≠ 0 →
    t.service.keyboard.ringHead = t.service.keyboard.ringTail

end Reference

section Ring

def withRing (k : Keyboard) (ring : Nat → UInt8) (head tail : Nat) : Keyboard :=
  { k with ring := ring, ringHead := head, ringTail := tail }

theorem store_nothing (k : Keyboard) : k.store 0 = k := if_neg (not_not.2 rfl)

/-- An action that changes the modifiers and has the character `ch` for the ring, or 0 for none;
neither depends on what the ring holds. -/
def Acts (ch : UInt8) (act : (Nat → UInt8) → Nat → Nat → Keyboard) : Prop :=
  ∃ m : Keyboard, ∀ ring head tail, act ring head tail = (withRing m ring head tail).store ch

theorem acts_quiet (m : Keyboard) : Acts 0 (withRing m) :=
  ⟨m, fun _ _ _ => (store_nothing _).symm⟩

theorem acts_store (m : Keyboard) (ch : UInt8) :
    Acts ch fun ring head tail => (withRing m ring head tail).store ch :=
  ⟨m, fun _ _ _ => rfl⟩

theorem acts_ite {c : Prop} {ch : UInt8} {act act' : (Nat → UInt8) → Nat → Nat → Keyboard}
    {decides : (Nat → UInt8) → Nat → Nat → Decidable c} (yes : c → Acts ch act)
    (no : ¬ c → Acts ch act') : Acts ch fun ring head tail =>
      @ite _ c (decides ring head tail) (act ring head tail) (act' ring head tail) := by
  by_cases holds : c
  · simpa only [if_pos holds] using yes holds
  · simpa only [if_neg holds] using no holds

theorem of_all_bytes {P : UInt8 → Prop} (all : ∀ n : Fin 256, P (UInt8.ofNat n.val)) (b : UInt8) :
    P b := by
  have same : UInt8.ofNat b.toNat = b := UInt8.ofNat_toNat
  rw [← same]
  exact all ⟨b.toNat, b.toNat_lt⟩

theorem released_iff : ∀ raw : UInt8, raw &&& 0x80 ≠ 0 ↔ 0x80 ≤ raw :=
  of_all_bytes (by decide +kernel)

theorem pressed_code : ∀ raw : UInt8, ¬ 0x80 ≤ raw → raw &&& 0x7F = raw :=
  of_all_bytes (by decide +kernel)

theorem extended_key_eq : ∀ raw : UInt8,
    Keyboard.extendedKey raw = (extendedKeys.lookup raw).getD 0 :=
  of_all_bytes (by decide +kernel)

theorem resolved_eq (k : Keyboard) (key : UInt8) :
    k.resolved key = character k.shiftHeld k.capsLockOn key := by
  unfold Keyboard.resolved character resolveShift
  by_cases letter : isLetter key
  · simp only [if_pos letter]
  · simp only [if_neg letter]

theorem modifier_no_key : ∀ raw : UInt8, (raw = ScanCode.leftShift ∨ raw = ScanCode.rightShift ∨
    raw = ScanCode.leftCtrl ∨ raw = ScanCode.leftAlt ∨ raw = ScanCode.capsLock ∨
      raw = ScanCode.numLock) → scancodeTable[raw.toNat]? = some 0 :=
  of_all_bytes (by decide +kernel)

theorem released_acts (k : Keyboard) {raw : UInt8} (up : 0x80 ≤ raw) :
    Acts 0 fun ring head tail => (withRing k ring head tail).handleScancode raw := by
  have released := (released_iff raw).2 up
  simp only [Keyboard.handleScancode, withRing, decide_eq_true_eq]
  apply acts_ite
  · exact fun _ => acts_quiet { k with e0Pending := true }
  intro _
  apply acts_ite
  · exact fun _ => acts_ite (fun _ => acts_quiet { k with e0Pending := false })
      fun pressed => absurd released pressed
  intro _
  apply acts_ite
  · exact fun _ => acts_quiet { k with shiftHeld := !decide (raw &&& 0x80 ≠ 0) }
  intro _
  apply acts_ite
  · exact fun _ => acts_quiet { k with ctrlHeld := !decide (raw &&& 0x80 ≠ 0) }
  intro _
  apply acts_ite
  · exact fun _ => acts_quiet { k with altHeld := !decide (raw &&& 0x80 ≠ 0) }
  intro _
  apply acts_ite
  · exact fun _ => acts_ite (fun _ => acts_quiet k) fun pressed => absurd released pressed
  intro _
  apply acts_ite
  · exact fun _ => acts_quiet k
  intro _
  exact acts_ite (fun _ => acts_quiet k) fun pressed => absurd released pressed

theorem prefixed_acts (k : Keyboard) {raw : UInt8} (down : ¬ 0x80 ≤ raw)
    (pending : k.e0Pending = true) : Acts (Keyboard.extendedKey raw)
      fun ring head tail => (withRing k ring head tail).handleScancode raw := by
  have pressed : ¬ raw &&& 0x80 ≠ 0 := fun other => down ((released_iff raw).1 other)
  simp only [Keyboard.handleScancode, withRing, decide_eq_true_eq, pressed_code raw down]
  apply acts_ite
  · rintro rfl
    exact absurd (by decide) down
  intro _
  apply acts_ite
  · exact fun _ => acts_ite (fun other => absurd other pressed)
      fun _ => acts_store { k with e0Pending := false } _
  · exact fun plain => absurd pending plain

theorem plain_acts (k : Keyboard) {raw : UInt8} (down : ¬ 0x80 ≤ raw)
    (plain : ¬ k.e0Pending = true) :
    Acts ((scancodeTable[raw.toNat]?.bind fun key =>
        if key = 0 then none else some (character k.shiftHeld k.capsLockOn key)).getD 0)
      fun ring head tail => (withRing k ring head tail).handleScancode raw := by
  have pressed : ¬ raw &&& 0x80 ≠ 0 := fun other => down ((released_iff raw).1 other)
  have modifier : ∀ {act : (Nat → UInt8) → Nat → Nat → Keyboard},
      scancodeTable[raw.toNat]? = some 0 → Acts 0 act →
        Acts ((scancodeTable[raw.toNat]?.bind fun key =>
          if key = 0 then none else some (character k.shiftHeld k.capsLockOn key)).getD 0) act := by
    intro act entry quiet
    rw [entry]
    exact quiet
  simp only [Keyboard.handleScancode, withRing, decide_eq_true_eq, pressed_code raw down]
  apply acts_ite
  · rintro rfl
    exact absurd (by decide) down
  intro _
  apply acts_ite
  · exact fun pending => absurd pending plain
  intro _
  apply acts_ite
  · exact fun shift => modifier (modifier_no_key raw (by tauto))
      (acts_quiet { k with shiftHeld := !decide (raw &&& 0x80 ≠ 0) })
  intro _
  apply acts_ite
  · exact fun ctrl => modifier (modifier_no_key raw (by tauto))
      (acts_quiet { k with ctrlHeld := !decide (raw &&& 0x80 ≠ 0) })
  intro _
  apply acts_ite
  · exact fun alt => modifier (modifier_no_key raw (by tauto))
      (acts_quiet { k with altHeld := !decide (raw &&& 0x80 ≠ 0) })
  intro _
  apply acts_ite
  · exact fun caps => modifier (modifier_no_key raw (by tauto)) (acts_ite (fun _ => acts_quiet k)
      fun _ => acts_quiet { k with capsLockOn := !k.capsLockOn })
  intro _
  apply acts_ite
  · exact fun num => modifier (modifier_no_key raw (by tauto)) (acts_quiet k)
  intro _
  apply acts_ite
  · exact fun other => absurd other pressed
  intro _
  cases scancodeTable[raw.toNat]? with
  | none => exact acts_quiet k
  | some key =>
      apply acts_ite
      · intro some_
        rw [Option.bind_some, if_neg some_, Option.getD_some, ← resolved_eq]
        exact acts_store k (k.resolved key)
      · intro zero
        rw [Option.bind_some, if_pos (not_not.1 zero)]
        exact acts_quiet k

/-- What a scancode does to the ring is to store its character. -/
theorem handle_scancode_acts (k : Keyboard) (raw : UInt8) : Acts ((translated k raw).getD 0)
    fun ring head tail => (withRing k ring head tail).handleScancode raw := by
  unfold translated
  by_cases up : 0x80 ≤ raw
  · rw [if_pos up]
    exact released_acts k up
  by_cases pending : k.e0Pending = true
  · rw [if_neg up, if_pos pending, ← extended_key_eq]
    exact prefixed_acts k up pending
  · rw [if_neg up, if_neg pending]
    exact plain_acts k up pending

abbrev Unread (k : Keyboard) (queue : List UInt8) : Prop :=
  Holds keyboardBufferSize k.ring k.ringHead k.ringTail queue

variable {k : Keyboard} {queue : List UInt8}

theorem unread_store (unread : Unread k queue) {ch : UInt8} (key : ch ≠ 0)
    (room : queue.length < 255) :
    Unread (k.store ch) (queue ++ [ch]) ∧ (k.store ch).ringHead ≠ k.ringHead ∧
      (k.store ch).ring k.ringHead = ch := by
  have full := unread.full_iff
  have size : keyboardBufferSize = 256 := rfl
  have next : (k.ringHead + 1) % keyboardBufferSize ≠ k.ringTail := by
    rw [Ne, full, size]
    omega
  have moves : (k.ringHead + 1) % keyboardBufferSize ≠ k.ringHead := by
    rw [size]
    omega
  unfold Keyboard.store
  rw [if_pos key, if_pos next]
  exact ⟨unread.push (by rw [size]; omega) ch, moves, if_pos rfl⟩

theorem store_full (unread : Unread k queue) (ch : UInt8) (full : ¬ queue.length < 255) :
    k.store ch = k := by
  have last := unread.room
  have size : keyboardBufferSize = 256 := rfl
  have next : (k.ringHead + 1) % keyboardBufferSize = k.ringTail := by
    rw [unread.full_iff, size]
    omega
  unfold Keyboard.store
  rw [if_neg (not_not.2 next), ite_self]

/-- The character of a scancode is never NUL. -/
theorem translated_nonzero {raw ch : UInt8} (key : translated k raw = some ch) : ch ≠ 0 := by
  have shifted : ∀ shift caps : Bool, ∀ key : UInt8, key ≠ 0 → character shift caps key ≠ 0 :=
    fun shift caps => of_all_bytes (by cases shift <;> cases caps <;> decide +kernel)
  have extended : ∀ raw : UInt8, extendedKeys.lookup raw ≠ some 0 :=
    of_all_bytes (by decide +kernel)
  unfold translated at key
  split at key
  · cases key
  split at key
  · rintro rfl
    exact extended raw key
  · obtain ⟨entry, _, here⟩ := Option.bind_eq_some_iff.1 key
    split at here
    · cases here
    · next some_ =>
      rw [← Option.some.inj here]
      exact shifted _ _ entry some_

/-- One scancode: its character is appended unless 255 are unread. -/
theorem unread_scancode (unread : Unread k queue) (raw : UInt8) :
    Unread (k.handleScancode raw) (queue ++ (accepted k raw).toList) ∧
      accepted k raw = if queue.length < 255 then translated k raw else none := by
  obtain ⟨m, acts⟩ := handle_scancode_acts k raw
  have here : k.handleScancode raw =
      (withRing m k.ring k.ringHead k.ringTail).store ((translated k raw).getD 0) :=
    acts k.ring k.ringHead k.ringTail
  have unread' : Unread (withRing m k.ring k.ringHead k.ringTail) queue := unread
  unfold accepted
  rw [here]
  cases key : translated k raw with
  | none =>
      rw [Option.getD_none, store_nothing, ite_self]
      simpa [withRing] using unread
  | some ch =>
      rw [Option.getD_some]
      by_cases room : queue.length < 255
      · obtain ⟨stored, moved⟩ := unread_store unread' (translated_nonzero key) room
        have behind : ((withRing m k.ring k.ringHead k.ringTail).store ch).ringHead ≠ k.ringHead ∧
            ((withRing m k.ring k.ringHead k.ringTail).store ch).ring k.ringHead = ch := moved
        dsimp only
        rw [if_pos room, if_neg behind.1, behind.2]
        exact ⟨stored, rfl⟩
      · rw [store_full unread' ch room, if_neg room]
        simpa [withRing] using unread

theorem unread_drained (unread : Unread k queue) (scancodes : List UInt8) :
    Unread (drained k scancodes) (queue ++ acceptedFrom k scancodes) := by
  induction scancodes generalizing k queue with
  | nil => simpa [drained, acceptedFrom] using unread
  | cons raw rest ih =>
      have next := ih (unread_scancode unread raw).1
      rw [List.append_assoc] at next
      exact next

theorem unread_read (unread : Unread k queue) (some : 0 < k.bufferCount) :
    queue = k.readBuffer.1 :: queue.tail ∧ Unread k.readBuffer.2 queue.tail := by
  have count : k.bufferCount = queue.length := unread.count
  cases queue with
  | nil =>
      rw [count] at some
      exact absurd some (Nat.lt_irrefl 0)
  | cons ch rest =>
      have notEmpty : k.ringHead ≠ k.ringTail := by simp [unread.empty_iff]
      obtain ⟨oldest, unread'⟩ := unread.pop
      unfold Keyboard.readBuffer
      rw [if_neg notEmpty, oldest]
      exact ⟨rfl, unread'⟩

end Ring

section Runs

/-- What has been accepted and not replied with is in the ring; a reader waits only while
there is nothing. -/
structure Queued (t : Trace) (queue : List UInt8) : Prop where
  accepted : t.accepted = t.replied ++ queue
  unread : Unread t.service.keyboard queue
  pending : t.service.pendingReader ≠ 0 → queue = []

variable {t : Trace} {queue : List UInt8} {r : Received}

theorem queued_start (ring : Nat → UInt8) : Queued (start ring) [] where
  accepted := rfl
  unread := holds_empty ring (Nat.zero_lt_succ 255)
  pending := fun _ => rfl

theorem key_of_reply (key : UInt8) : (keyReply key).arg1.toUInt8 = key :=
  UInt8.toUInt8_toUInt32 key

theorem queued_irq (queued : Queued t queue) (irq : r.type = MessageType.irqNotify) :
    ∃ queue', Queued (t.step r) queue' := by
  have drained := unread_drained queued.unread r.scancodes
  have log : t.accepted ++ acceptedFrom t.service.keyboard r.scancodes =
      t.replied ++ (queue ++ acceptedFrom t.service.keyboard r.scancodes) := by
    rw [queued.accepted, List.append_assoc]
  by_cases woken : t.service.pendingReader ≠ 0 ∧
      0 < (t.service.drain r.scancodes).keyboard.bufferCount
  · obtain ⟨oldest, unread⟩ := unread_read drained woken.2
    refine ⟨(queue ++ acceptedFrom t.service.keyboard r.scancodes).tail, ?_⟩
    unfold Trace.step repliedKeys
    rw [handle_irq irq woken.1 woken.2, if_pos irq, if_pos (.inl irq), log]
    constructor
    · simp only [Option.toList_some, List.map_cons, List.map_nil, key_of_reply]
      rw [List.append_assoc, List.singleton_append]
      exact congrArg (t.replied ++ ·) oldest
    · exact unread
    · exact fun absent => absurd rfl absent
  · have handled : t.service.handle r = (t.service.drain r.scancodes, none) := by
      unfold Service.handle
      rw [if_pos irq]
      exact if_neg woken
    refine ⟨queue ++ acceptedFrom t.service.keyboard r.scancodes, ?_⟩
    unfold Trace.step repliedKeys
    rw [handled, if_pos irq, if_pos (.inl irq), log]
    constructor
    · simp
    · exact drained
    · intro pending
      have count := Nat.eq_zero_of_not_pos fun key => woken ⟨pending, key⟩
      rw [← List.length_eq_zero_iff]
      exact drained.count.symm.trans count

theorem queued_read (queued : Queued t queue) (read : r.type = MessageType.kbdRead) :
    ∃ queue', Queued (t.step r) queue' := by
  have other : ¬ r.type = MessageType.irqNotify := by
    rw [read]
    decide
  have reader : r.type = MessageType.irqNotify ∨ r.type = MessageType.kbdRead := .inr read
  unfold Trace.step Service.handle repliedKeys
  rw [if_pos reader, if_neg other, if_neg other, if_pos read, List.append_nil]
  by_cases sender : isSender r.sender
  · rw [if_pos sender]
    by_cases key : 0 < t.service.keyboard.bufferCount
    · obtain ⟨oldest, unread⟩ := unread_read queued.unread key
      rw [if_pos key]
      refine ⟨queue.tail, ?_, unread, ?_⟩
      · simp only [Option.toList_some, List.map_cons, List.map_nil, key_of_reply]
        rw [List.append_assoc, List.singleton_append, queued.accepted]
        exact congrArg (t.replied ++ ·) oldest
      · -- a reader that waits finds no character
        intro pending
        rw [queued.pending pending]
        rfl
    · rw [if_neg key]
      refine ⟨queue, ?_, queued.unread, ?_⟩
      · simpa using queued.accepted
      · intro _
        rw [← List.length_eq_zero_iff]
        exact queued.unread.count.symm.trans (Nat.eq_zero_of_not_pos key)
  · rw [if_neg sender]
    refine ⟨queue, ?_, queued.unread, queued.pending⟩
    simpa using queued.accepted

theorem queued_other (queued : Queued t queue) (irq : ¬ r.type = MessageType.irqNotify)
    (read : ¬ r.type = MessageType.kbdRead) : Queued (t.step r) queue := by
  have quiet : ¬ (r.type = MessageType.irqNotify ∨ r.type = MessageType.kbdRead) :=
    not_or.2 ⟨irq, read⟩
  have handled : (t.service.handle r).1 = t.service := by
    unfold Service.handle
    rw [if_neg irq, if_neg read]
    split <;> rfl
  unfold Trace.step repliedKeys
  rw [handled, if_neg irq, if_neg quiet, List.append_nil, List.append_nil]
  exact ⟨queued.accepted, queued.unread, queued.pending⟩

theorem queued_step (queued : Queued t queue) (r : Received) :
    ∃ queue', Queued (t.step r) queue' := by
  by_cases irq : r.type = MessageType.irqNotify
  · exact queued_irq queued irq
  by_cases read : r.type = MessageType.kbdRead
  · exact queued_read queued read
  · exact ⟨queue, queued_other queued irq read⟩

theorem queued_run (ring : Nat → UInt8) (received : List Received) :
    ∃ queue, Queued (run ring received) queue := by
  have onward : ∀ t queue, Queued t queue →
      ∃ queue', Queued (received.foldl Trace.step t) queue' := by
    induction received with
    | nil => exact fun t queue queued => ⟨queue, queued⟩
    | cons r rest ih =>
        intro t queue queued
        obtain ⟨queue', queued'⟩ := queued_step queued r
        exact ih _ _ queued'
  exact onward _ _ (queued_start ring)

theorem in_order_of_queued (queued : Queued t queue) : InOrder t where
  inOrder := by
    rw [queued.accepted]
    exact List.prefix_append _ _
  count := by
    intro scancodes
    have count : (drained t.service.keyboard scancodes).bufferCount = _ :=
      (unread_drained queued.unread scancodes).count
    rw [count, queued.accepted, List.length_append, List.length_append]
    omega
  keys := by
    intro scancodes raw ch key
    have drop := (unread_scancode (unread_drained queued.unread scancodes) raw).2
    rw [key] at drop
    split at drop
    · exact drop.symm
    · cases drop
  dropped := by
    intro scancodes raw key nothing
    have unread := unread_drained queued.unread scancodes
    have last := unread.room
    have drop := (unread_scancode unread raw).2
    have size : keyboardBufferSize = 256 := rfl
    rw [nothing] at drop
    split at drop
    · rw [← drop] at key
      cases key
    · next full =>
      rw [size] at last
      rw [queued.accepted]
      rw [List.length_append] at full last ⊢
      omega
  pending := by
    intro pending
    rw [queued.unread.empty_iff]
    exact queued.pending pending

/-- Whatever interrupts and requests arrive, the readers get the accepted characters in their
order, each of them once. -/
theorem keys_in_order (ring : Nat → UInt8) (received : List Received) :
    InOrder (run ring received) := by
  obtain ⟨queue, queued⟩ := queued_run ring received
  exact in_order_of_queued queued

end Runs

end CassiOS.Userland.KeyOrder
