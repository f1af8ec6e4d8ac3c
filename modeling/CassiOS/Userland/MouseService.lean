import CassiOS.Support.Frames
import CassiOS.Userland.KeyboardService

/-!
# The mouse service

`Mouse` and the service loop of `userspace/drivers/mouse`, with the client of `libs/mouse`. The
controller sends packets of three bytes that may end in the middle of an IRQ; movement is added
up until a client reads it. Over any order of IRQs and readers, an answer is the movement of
the packets completed since the answer before it, with the buttons of the last packet.
-/

namespace CassiOS.Userland.MouseService

open CassiOS.Support.Frames
open CassiOS.Userland.Messages
open CassiOS.Userland.KeyboardService

set_option autoImplicit false

section Driver

structure Mouse where
  buffer : Nat → UInt8
  offset : Nat
  buttons : UInt8
  dx : Int32
  dy : Int32

namespace Mouse

def init (m : Mouse) : Mouse :=
  { m with
    buffer := fun i => if i < 3 then 0 else m.buffer i
    offset := 0
    buttons := 0
    dx := 0
    dy := 0 }

/-- `static_cast<i8>(byte)`, promoted to `int`. -/
def signed (byte : UInt8) : Int32 := byte.toInt8.toInt32

def handleByte (m : Mouse) (byte : UInt8) : Mouse :=
  let buffer := fun i => if i = m.offset then byte else m.buffer i
  let offset := (m.offset + 1) % 3
  let m := { m with buffer, offset }
  if offset = 0 then
    { m with
      buttons := buffer 0 &&& 0x07
      dx := m.dx + signed (buffer 1)
      dy := m.dy + -signed (buffer 2) }
  else m

abbrev Reading := UInt8 × Int32 × Int32

def readState (m : Mouse) : Reading × Mouse :=
  ((m.buttons, m.dx, m.dy), { m with dx := 0, dy := 0 })

end Mouse

def stateReply (reading : Mouse.Reading) : Message :=
  { Message.zero with
    arg1 := reading.1.toUInt32
    arg2 := reading.2.1.toUInt32
    arg3 := reading.2.2.toUInt32 }

def asksState (r : Received) : Prop := r.type = MessageType.mouseRead ∧ isSender r.sender

instance (r : Received) : Decidable (asksState r) :=
  inferInstanceAs (Decidable (r.type = MessageType.mouseRead ∧ isSender r.sender))

/-- One round of the loop in `_start`; `r.scancodes` are the bytes of the controller. -/
def handle (m : Mouse) (r : Received) : Mouse × Option Reply :=
  if r.type = MessageType.irqNotify then (r.scancodes.foldl Mouse.handleByte m, none)
  else if r.type = MessageType.mouseRead then
    if isSender r.sender then
      let (reading, m) := m.readState
      (m, some ⟨r.sender, stateReply reading⟩)
    else (m, none)
  else if isSender r.sender then (m, some ⟨r.sender, Message.zero⟩)
  else (m, none)

def serve (m : Mouse) (history : List Received) : Mouse :=
  history.foldl (fun m r => (handle m r).1) m

/-- What `Mouse::read` of the client takes from the reply. -/
def clientReading (reply : Message) : Mouse.Reading :=
  (reply.arg1.toUInt8, reply.arg2.toInt32, reply.arg3.toInt32)

end Driver

section Movement

def stream : List Received → List UInt8 := List.flatMap fun r =>
  if r.type = MessageType.irqNotify then r.scancodes else []

def packets (history : List Received) : List (List UInt8) := frames 3 (stream history)

def pressed (packets : List (List UInt8)) : UInt8 :=
  match packets.getLast? with
  | none => 0
  | some packet => packet.getD 0 0 &&& 0x07

def right (packet : List UInt8) : Int := (packet.getD 1 0).toInt8.toInt
def down (packet : List UInt8) : Int := -(packet.getD 2 0).toInt8.toInt

def moved (axis : List UInt8 → Int) : List (List UInt8) → Int
  | [] => 0
  | packet :: rest => axis packet + moved axis rest

theorem moved_concat (axis : List UInt8 → Int) (packets : List (List UInt8))
    (packet : List UInt8) :
    moved axis (packets ++ [packet]) = moved axis packets + axis packet := by
  induction packets with
  | nil =>
      change axis packet + 0 = 0 + axis packet
      omega
  | cons first rest ih =>
      change axis first + moved axis (rest ++ [packet]) =
        axis first + moved axis rest + axis packet
      rw [ih]
      omega

/-- The mouse has received `bytes`, and its first `told` packets have been reported. -/
structure Tracks (bytes : List UInt8) (told : Nat) (m : Mouse) : Prop where
  offset : m.offset = bytes.length % 3
  stored : ∀ i, i < m.offset → (pending 3 bytes)[i]? = some (m.buffer i)
  buttons : m.buttons = pressed (frames 3 bytes)
  reported : told ≤ (frames 3 bytes).length
  dx : m.dx = Int32.ofInt (moved right ((frames 3 bytes).drop told))
  dy : m.dy = Int32.ofInt (moved down ((frames 3 bytes).drop told))

variable {bytes : List UInt8} {told : Nat} {m : Mouse} {r : Received}

theorem tracks_init (m : Mouse) : Tracks [] 0 m.init where
  offset := rfl
  stored := fun i below => absurd below (Nat.not_lt_zero i)
  buttons := rfl
  reported := Nat.le_refl 0
  dx := rfl
  dy := rfl

theorem Tracks.stored_next (tracks : Tracks bytes told m) (byte : UInt8) {i : Nat}
    (below : i ≤ m.offset) :
    (pending 3 bytes ++ [byte])[i]? = some (if i = m.offset then byte else m.buffer i) := by
  have length : (pending 3 bytes).length = m.offset := by
    rw [pending_length, tracks.offset]
  by_cases last : i = m.offset
  · rw [if_pos last, last, ← length]
    exact List.getElem?_concat_length
  · have inside : i < m.offset := Nat.lt_of_le_of_ne below last
    rw [if_neg last, List.getElem?_append_left (length ▸ inside)]
    exact tracks.stored i inside

theorem Tracks.handle_byte (tracks : Tracks bytes told m) (byte : UInt8) :
    Tracks (bytes ++ [byte]) told (m.handleByte byte) := by
  have small := Nat.mod_lt bytes.length (Nat.succ_pos 2)
  by_cases last : bytes.length % 3 + 1 = 3
  · obtain ⟨complete, nothing⟩ := frame_completes (x := byte) last
    have whole : (m.offset + 1) % 3 = 0 := by
      rw [tracks.offset, last]
    have field : ∀ i, i ≤ 2 → (pending 3 bytes ++ [byte]).getD i 0 =
        if i = m.offset then byte else m.buffer i := by
      intro i low
      rw [List.getD_eq_getElem?_getD, tracks.stored_next byte (by rw [tracks.offset]; omega)]
      rfl
    have behind : (frames 3 (bytes ++ [byte])).drop told =
        (frames 3 bytes).drop told ++ [pending 3 bytes ++ [byte]] := by
      rw [complete, List.drop_append_of_le_length tracks.reported]
    unfold Mouse.handleByte
    dsimp only
    rw [if_pos whole]
    refine ⟨?_, fun i below => ?_, ?_, ?_, ?_, ?_⟩
    · change (m.offset + 1) % 3 = _
      rw [List.length_append, List.length_singleton, whole]
      omega
    · change i < (m.offset + 1) % 3 at below
      rw [whole] at below
      exact absurd below (Nat.not_lt_zero i)
    · unfold pressed
      rw [complete, List.getLast?_concat]
      dsimp only
      rw [field 0 (by omega)]
    · rw [complete, List.length_append]
      exact Nat.le_trans tracks.reported (Nat.le_add_right _ _)
    · rw [behind, moved_concat, Int32.ofInt_add, ← tracks.dx]
      unfold right
      rw [field 1 (by omega)]
      rfl
    · rw [behind, moved_concat, Int32.ofInt_add, ← tracks.dy]
      unfold down
      rw [field 2 (by omega), Int32.ofInt_neg]
      rfl
  · obtain ⟨same, more⟩ := stream_grows (x := byte) (show bytes.length % 3 + 1 < 3 by omega)
    have next : (m.offset + 1) % 3 = m.offset + 1 := by
      rw [tracks.offset]
      omega
    unfold Mouse.handleByte
    dsimp only
    rw [next, if_neg (Nat.succ_ne_zero _)]
    refine ⟨?_, fun i below => ?_, ?_, ?_, ?_, ?_⟩
    · change m.offset + 1 = _
      rw [List.length_append, List.length_singleton, tracks.offset]
      omega
    · rw [more]
      exact tracks.stored_next byte (Nat.le_of_lt_succ below)
    · rw [same]
      exact tracks.buttons
    · rw [same]
      exact tracks.reported
    · rw [same]
      exact tracks.dx
    · rw [same]
      exact tracks.dy

theorem Tracks.handle_bytes (tracks : Tracks bytes told m) (more : List UInt8) :
    Tracks (bytes ++ more) told (more.foldl Mouse.handleByte m) := by
  induction more generalizing bytes m with
  | nil => exact (List.append_nil bytes).symm ▸ tracks
  | cons byte rest ih =>
      have grown := ih (tracks.handle_byte byte)
      rw [List.append_assoc] at grown
      exact grown

theorem Tracks.read (tracks : Tracks bytes told m) :
    Tracks bytes (frames 3 bytes).length m.readState.2 where
  offset := tracks.offset
  stored := tracks.stored
  buttons := tracks.buttons
  reported := Nat.le_refl _
  dx := by
    rw [List.drop_length]
    rfl
  dy := by
    rw [List.drop_length]
    rfl

theorem Tracks.handled (tracks : Tracks bytes told m) (r : Received) :
    Tracks (bytes ++ stream [r]) (if asksState r then (frames 3 bytes).length else told)
      (handle m r).1 := by
  have here : stream [r] = if r.type = MessageType.irqNotify then r.scancodes else [] :=
    List.append_nil _
  unfold handle
  rw [here]
  by_cases irq : r.type = MessageType.irqNotify
  · have quiet : ¬ asksState r := by
      rintro ⟨read, _⟩
      rw [irq] at read
      exact absurd read (by decide)
    rw [if_pos irq, if_pos irq, if_neg quiet]
    exact tracks.handle_bytes r.scancodes
  rw [if_neg irq, if_neg irq, List.append_nil]
  by_cases read : r.type = MessageType.mouseRead
  · rw [if_pos read]
    by_cases sender : isSender r.sender
    · rw [if_pos sender, if_pos ⟨read, sender⟩]
      exact tracks.read
    · rw [if_neg sender, if_neg fun asked => sender asked.2]
      exact tracks
  · rw [if_neg read, if_neg fun asked => read asked.1]
    split
    · exact tracks
    · exact tracks

theorem stream_concat (history : List Received) (r : Received) :
    stream (history ++ [r]) = stream history ++ stream [r] := List.flatMap_append

theorem Tracks.unread {earlier : List Received} (tracks : Tracks (stream earlier) told m)
    (between : List Received) (quiet : ∀ r ∈ between, ¬ asksState r) :
    Tracks (stream (earlier ++ between)) told (serve m between) := by
  induction between generalizing earlier m with
  | nil => exact (List.append_nil earlier).symm ▸ tracks
  | cons r rest ih =>
      have step := tracks.handled r
      rw [if_neg (quiet r List.mem_cons_self), ← stream_concat] at step
      have grown := ih step fun r' member => quiet r' (List.mem_cons_of_mem r member)
      rw [List.append_assoc] at grown
      exact grown

theorem Tracks.served {earlier : List Received} (tracks : Tracks (stream earlier) told m)
    (history : List Received) :
    ∃ told', Tracks (stream (earlier ++ history)) told' (serve m history) := by
  induction history generalizing earlier told m with
  | nil => exact ⟨told, (List.append_nil earlier).symm ▸ tracks⟩
  | cons r rest ih =>
      have step := tracks.handled r
      rw [← stream_concat] at step
      have grown := ih step
      rw [List.append_assoc] at grown
      exact grown

def EndsRead (earlier : List Received) : Prop :=
  earlier = [] ∨ ∃ before r, earlier = before ++ [r] ∧ asksState r

theorem tracks_read (m : Mouse) {earlier : List Received} (ends : EndsRead earlier) :
    Tracks (stream earlier) (packets earlier).length (serve m.init earlier) := by
  rcases ends with rfl | ⟨before, r, rfl, asked⟩
  · exact tracks_init m
  · have fresh : Tracks (stream []) 0 m.init := tracks_init m
    obtain ⟨told, tracks⟩ := fresh.served before
    have silent : stream [r] = [] := by
      have other : ¬ r.type = MessageType.irqNotify := by
        rw [asked.1]
        decide
      unfold stream
      rw [List.flatMap_singleton, if_neg other]
    have step := tracks.handled r
    rw [if_pos asked] at step
    unfold packets serve
    rw [List.foldl_append, stream_concat, silent, List.append_nil]
    rw [silent, List.append_nil] at step
    exact step

/-- The packets that the messages after `earlier` have completed. -/
def since (earlier between : List Received) : List (List UInt8) :=
  (packets (earlier ++ between)).drop (packets earlier).length

/-- A reader is told the movement of the packets that have been completed since the reader before
it, and the buttons of the last packet. -/
theorem reader_told_movement (m : Mouse) {earlier between : List Received} (ends : EndsRead earlier)
    (quiet : ∀ r ∈ between, ¬ asksState r) (asked : asksState r) :
    ∃ reply, (handle (serve m.init (earlier ++ between)) r).2 = some reply ∧
      reply.recipient = r.sender ∧ clientReading reply.msg =
        (pressed (packets (earlier ++ between)),
          Int32.ofInt (moved right (since earlier between)),
          Int32.ofInt (moved down (since earlier between))) := by
  have tracks := (tracks_read m ends).unread between quiet
  have split : serve m.init (earlier ++ between) = serve (serve m.init earlier) between :=
    List.foldl_append
  have other : ¬ r.type = MessageType.irqNotify := by
    rw [asked.1]
    decide
  unfold handle
  rw [split, if_neg other, if_pos asked.1, if_pos asked.2]
  refine ⟨_, rfl, rfl, ?_⟩
  unfold clientReading stateReply Mouse.readState
  dsimp only
  unfold since packets
  unfold packets at tracks
  rw [UInt8.toUInt8_toUInt32, Int32.toInt32_toUInt32, Int32.toInt32_toUInt32, ← tracks.dx,
    ← tracks.dy, ← tracks.buttons]

/-- Two packets over three IRQs; the reader between them got the first one. -/
theorem second_packet_told : ∃ reply, (handle (serve (Mouse.init ⟨fun _ => 7, 1, 0, 4, 4⟩)
    ([⟨0, MessageType.irqNotify, [0x01, 0x05, 0x03, 0x02]⟩, ⟨5, MessageType.mouseRead, []⟩] ++
      [⟨0, MessageType.irqNotify, [0xFE]⟩, ⟨0, MessageType.irqNotify, [0x80]⟩]))
    ⟨6, MessageType.mouseRead, []⟩).2 = some reply ∧ clientReading reply.msg = (2, -2, 128) := by
  have ends : EndsRead
      [⟨0, MessageType.irqNotify, [0x01, 0x05, 0x03, 0x02]⟩, ⟨5, MessageType.mouseRead, []⟩] :=
    .inr ⟨[_], _, rfl, by decide⟩
  have quiet : ∀ r ∈ [(⟨0, MessageType.irqNotify, [0xFE]⟩ : Received),
      ⟨0, MessageType.irqNotify, [0x80]⟩], ¬ asksState r := by decide
  have asked : asksState ⟨6, MessageType.mouseRead, []⟩ := by decide
  obtain ⟨reply, told, _, reading⟩ :=
    reader_told_movement ⟨fun _ => 7, 1, 0, 4, 4⟩ ends quiet asked
  exact ⟨reply, told, reading⟩

end Movement

end CassiOS.Userland.MouseService
