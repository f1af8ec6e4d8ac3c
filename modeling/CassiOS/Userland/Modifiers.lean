import CassiOS.Userland.KeyOrder
import Mathlib.Data.Fintype.Basic

/-!
# Shift and Caps Lock

The keys of a keyboard, any number of which may be down, beside what the driver makes of the
codes they send. The driver has one flag for the two Shift keys, which the last of their codes
decides, and toggles Caps Lock for each of its make codes.
-/

namespace CassiOS.Userland.Modifiers

open CassiOS.Support.TransitionSystem
open CassiOS.Userland.KeyboardService
open CassiOS.Userland.KeyOrder (accepted)

set_option autoImplicit false

/-! ## The keys -/

/-- A key by its make code, those of the second kind with the prefix. -/
inductive Key where
  | plain (code : Fin 128)
  | extended (code : Fin 128)
deriving DecidableEq

def leftShift : Key := .plain 0x2A
def rightShift : Key := .plain 0x36
def capsLock : Key := .plain 0x3A

def makeCodes : Key → List UInt8
  | .plain code => [.ofNat code]
  | .extended code => [0xE0, .ofNat code]

def breakCodes : Key → List UInt8
  | .plain code => [.ofNat (code + 128)]
  | .extended code => [0xE0, .ofNat (code + 128)]

/-- There is no key whose break code is the prefix. -/
def onKeyboard : Key → Bool
  | .plain code => code ≠ 0x60
  | .extended code => code ≠ 0x60

structure Keys where
  down : Key → Bool
  capsOn : Bool

def Keys.shiftDown (keys : Keys) : Bool := keys.down leftShift || keys.down rightShift

/-- A key goes down, or repeats while it is down. The lock changes when its key goes down. -/
def Keys.press (keys : Keys) (key : Key) : Keys where
  down k := k = key || keys.down k
  capsOn := if key = capsLock && !keys.down capsLock then !keys.capsOn else keys.capsOn

def Keys.release (keys : Keys) (key : Key) : Keys :=
  { keys with down := fun k => k ≠ key && keys.down k }

def Keys.shifted (keys : Keys) (character : UInt8) : Bool :=
  if isLetter character then keys.shiftDown != keys.capsOn else keys.shiftDown

def Keys.character (keys : Keys) (character : UInt8) : UInt8 :=
  if keys.shifted character then resolveShift character else character

/-! ## The keys and the driver -/

structure System where
  keys : Keys
  driver : Keyboard

inductive Event where
  | press (key : Key)
  | release (key : Key)
  | read

def handled (driver : Keyboard) (codes : List UInt8) : Keyboard :=
  codes.foldl Keyboard.handleScancode driver

/-- Only a key that is down can be released. -/
def step (s : System) : Event → Option System
  | .press key =>
      if onKeyboard key then some ⟨s.keys.press key, handled s.driver (makeCodes key)⟩ else none
  | .release key =>
      if onKeyboard key && s.keys.down key then
        some ⟨s.keys.release key, handled s.driver (breakCodes key)⟩
      else none
  | .read => some { s with driver := s.driver.readBuffer.2 }

def start (ring : Nat → UInt8) : System where
  keys := ⟨fun _ => false, false⟩
  driver := Keyboard.construct ring

/-- At the make code of a character key the driver stores the character that the keys ask for. -/
def Agrees (s : System) : Prop :=
  ∀ (code : Fin 128) (character ch : UInt8), scancodeTable[code.val]? = some character →
    character ≠ 0 → accepted s.driver (.ofNat code) = some ch → ch = s.keys.character character

/-- No Shift key is released while the other one is down, and Caps Lock does not repeat. -/
def Careful (s : System) : Event → Prop
  | .press key => key = capsLock → s.keys.down capsLock = false
  | .release key =>
      (key = leftShift → s.keys.down rightShift = false) ∧
        (key = rightShift → s.keys.down leftShift = false)
  | .read => True

instance (s : System) (event : Event) : Decidable (Careful s event) :=
  match event with
  | .press key => inferInstanceAs (Decidable (key = capsLock → s.keys.down capsLock = false))
  | .release key => inferInstanceAs (Decidable ((key = leftShift → s.keys.down rightShift = false) ∧
      (key = rightShift → s.keys.down leftShift = false)))
  | .read => inferInstanceAs (Decidable True)

/-! ## Codes -/

section Codes

variable {driver : Keyboard} {code : Fin 128}

theorem make_bits : ∀ code : Fin 128, UInt8.ofNat code ≠ 0xE0 ∧
    UInt8.ofNat code &&& 0x80 = 0 ∧ UInt8.ofNat code &&& 0x7F = .ofNat code := by
  decide

theorem break_bits : ∀ code : Fin 128, UInt8.ofNat (code + 128) &&& 0x80 ≠ 0 ∧
    UInt8.ofNat (code + 128) &&& 0x7F = .ofNat code := by
  decide

theorem break_ne_prefix : ∀ code : Fin 128, code ≠ 0x60 → UInt8.ofNat (code + 128) ≠ 0xE0 := by
  decide

theorem modifier_codes : ∀ code : Fin 128,
    (UInt8.ofNat code = ScanCode.leftShift ↔ code = 0x2A) ∧
    (UInt8.ofNat code = ScanCode.rightShift ↔ code = 0x36) ∧
    (UInt8.ofNat code = ScanCode.capsLock ↔ code = 0x3A) := by
  decide

theorem character_codes : ∀ code : Fin 128, scancodeTable.getD code 0 ≠ 0 →
    UInt8.ofNat code ≠ ScanCode.leftShift ∧ UInt8.ofNat code ≠ ScanCode.rightShift ∧
    UInt8.ofNat code ≠ ScanCode.leftCtrl ∧ UInt8.ofNat code ≠ ScanCode.leftAlt ∧
    UInt8.ofNat code ≠ ScanCode.capsLock ∧ UInt8.ofNat code ≠ ScanCode.numLock := by
  decide

/-- What the driver remembers of the codes it has seen. -/
structure Flags (driver : Keyboard) (shiftHeld capsLockOn : Bool) : Prop where
  shiftHeld : driver.shiftHeld = shiftHeld
  capsLockOn : driver.capsLockOn = capsLockOn
  ready : driver.e0Pending = false

theorem flags_store {held on : Bool} (flags : Flags driver held on) (ch : UInt8) :
    Flags (driver.store ch) held on := by
  unfold Keyboard.store
  dsimp only
  split
  · split
    · exact ⟨flags.shiftHeld, flags.capsLockOn, flags.ready⟩
    · exact flags
  · exact flags

theorem flags_read {held on : Bool} (flags : Flags driver held on) :
    Flags driver.readBuffer.2 held on := by
  unfold Keyboard.readBuffer
  split
  · exact flags
  · exact ⟨flags.shiftHeld, flags.capsLockOn, flags.ready⟩

/-- The part of `handleScancode` for a code without a prefix. -/
def plainScancode (k : Keyboard) (released : Bool) (scancode : UInt8) : Keyboard :=
  if scancode = ScanCode.leftShift ∨ scancode = ScanCode.rightShift then
    { k with shiftHeld := !released }
  else if scancode = ScanCode.leftCtrl then { k with ctrlHeld := !released }
  else if scancode = ScanCode.leftAlt then { k with altHeld := !released }
  else if scancode = ScanCode.capsLock then
    if released then k else { k with capsLockOn := !k.capsLockOn }
  else if scancode = ScanCode.numLock then k
  else if released then k
  else
    match scancodeTable[scancode.toNat]? with
    | none => k
    | some key => if key ≠ 0 then k.store (k.resolved key) else k

theorem handle_plain {raw : UInt8} (ready : driver.e0Pending = false) (code : raw ≠ 0xE0) :
    driver.handleScancode raw = plainScancode driver (raw &&& 0x80 ≠ 0) (raw &&& 0x7F) := by
  unfold Keyboard.handleScancode
  rw [if_neg code]
  exact if_neg (Bool.eq_false_iff.1 ready)

theorem handle_prefix : driver.handleScancode 0xE0 = { driver with e0Pending := true } := rfl

theorem flags_plain {held on : Bool} (flags : Flags driver held on) (released : Bool)
    (scancode : UInt8) :
    Flags (plainScancode driver released scancode)
      (if scancode = ScanCode.leftShift ∨ scancode = ScanCode.rightShift then !released else held)
      (if scancode = ScanCode.capsLock ∧ released = false then !on else on) := by
  unfold plainScancode
  by_cases shift : scancode = ScanCode.leftShift ∨ scancode = ScanCode.rightShift
  · have other : ¬ (scancode = ScanCode.capsLock ∧ released = false) := by
      intro lock
      rw [lock.1] at shift
      exact absurd shift (by decide)
    rw [if_pos shift, if_pos shift, if_neg other]
    exact ⟨rfl, flags.capsLockOn, flags.ready⟩
  rw [if_neg shift, if_neg shift]
  by_cases lock : scancode = ScanCode.capsLock
  · subst lock
    rw [if_neg (by decide), if_neg (by decide), if_pos rfl]
    cases released with
    | true => simpa using flags
    | false => exact ⟨flags.shiftHeld, congrArg Bool.not flags.capsLockOn, flags.ready⟩
  have other : ¬ (scancode = ScanCode.capsLock ∧ released = false) := fun both => lock both.1
  rw [if_neg lock, if_neg other]
  split
  · exact ⟨flags.shiftHeld, flags.capsLockOn, flags.ready⟩
  split
  · exact ⟨flags.shiftHeld, flags.capsLockOn, flags.ready⟩
  split
  · exact flags
  split
  · exact flags
  split
  · exact flags
  · split
    · exact flags_store flags _
    · exact flags

theorem flags_extended {held on : Bool} {raw : UInt8} (flags : Flags driver held on)
    (code : raw ≠ 0xE0) : Flags (handled driver [0xE0, raw]) held on := by
  have idle : Flags { driver with e0Pending := false } held on :=
    ⟨flags.shiftHeld, flags.capsLockOn, rfl⟩
  have both : handled driver [0xE0, raw] =
      if raw &&& 0x80 ≠ 0 then { driver with e0Pending := false }
      else { driver with e0Pending := false }.store (Keyboard.extendedKey (raw &&& 0x7F)) := by
    rw [handled, List.foldl_cons, handle_prefix, List.foldl_cons, List.foldl_nil,
      Keyboard.handleScancode, if_neg code]
    simp
  rw [both]
  split
  · exact idle
  · exact flags_store idle _

theorem flags_make {held on : Bool} (flags : Flags driver held on) (key : Key) :
    Flags (handled driver (makeCodes key)) (key = leftShift || key = rightShift || held)
      (if key = capsLock then !on else on) := by
  cases key with
  | plain code =>
      have ⟨left, right, caps⟩ := modifier_codes code
      have ⟨code', made, masked⟩ := make_bits code
      have all := flags_plain flags false (.ofNat code)
      rw [makeCodes, handled, List.foldl_cons, List.foldl_nil, handle_plain flags.ready code',
        made, masked]
      simpa [left, right, caps, leftShift, rightShift, capsLock, Bool.or_assoc] using all
  | extended code =>
      have all := flags_extended flags (make_bits code).1
      simpa [makeCodes, leftShift, rightShift, capsLock] using all

theorem flags_break {held on : Bool} (flags : Flags driver held on) {key : Key}
    (exists_ : onKeyboard key = true) :
    Flags (handled driver (breakCodes key)) (key ≠ leftShift && key ≠ rightShift && held) on := by
  cases key with
  | plain code =>
      have ⟨left, right, caps⟩ := modifier_codes code
      have code' := break_ne_prefix code (by simpa [onKeyboard] using exists_)
      have ⟨released, masked⟩ := break_bits code
      have all := flags_plain flags true (.ofNat code)
      rw [breakCodes, handled, List.foldl_cons, List.foldl_nil, handle_plain flags.ready code',
        masked, decide_eq_true released]
      simpa [left, right, caps, leftShift, rightShift, capsLock] using all
  | extended code =>
      have code' := break_ne_prefix code (by simpa [onKeyboard] using exists_)
      have all := flags_extended flags code'
      simpa [breakCodes, leftShift, rightShift] using all

theorem stored_character {ch ch' : UInt8}
    (stored : (driver.store ch).ringHead ≠ driver.ringHead)
    (there : (driver.store ch).ring driver.ringHead = ch') : ch' = ch := by
  rw [← there]
  by_cases none : ch = 0
  · exact absurd (by simp [Keyboard.store, none]) stored
  by_cases full : (driver.ringHead + 1) % keyboardBufferSize = driver.ringTail
  · exact absurd (by simp [Keyboard.store, full]) stored
  · simp [Keyboard.store, none, full]

theorem handle_character {code : Fin 128} {character : UInt8} (ready : driver.e0Pending = false)
    (entry : scancodeTable[code.val]? = some character) (some_ : character ≠ 0) :
    driver.handleScancode (.ofNat code) = driver.store (driver.resolved character) := by
  have found : scancodeTable.getD code 0 ≠ 0 := by simpa [entry] using some_
  have ⟨left, right, ctrl, alt, caps, num⟩ := character_codes code found
  have ⟨noPrefix, made, masked⟩ := make_bits code
  have index : (UInt8.ofNat code).toNat = code := by
    have small := code.isLt
    rw [UInt8.toNat_ofNat']
    omega
  rw [handle_plain ready noPrefix, made, masked]
  simp [plainScancode, left, right, ctrl, alt, caps, num, index, entry, some_]

end Codes

/-! ## Runs -/

section Runs

variable {s s' : System}

def Tracks (s : System) : Prop := Flags s.driver s.keys.shiftDown s.keys.capsOn

theorem tracks_start (ring : Nat → UInt8) : Tracks (start ring) := ⟨rfl, rfl, rfl⟩

theorem tracks_press {key : Key} (tracks : Tracks s) (careful : Careful s (.press key)) :
    Tracks ⟨s.keys.press key, handled s.driver (makeCodes key)⟩ := by
  have flags := flags_make tracks key
  have shift : (s.keys.press key).shiftDown =
      (key = leftShift || key = rightShift || s.keys.shiftDown) := by
    simp only [Keys.shiftDown, Keys.press, eq_comm (a := key)]
    cases s.keys.down leftShift <;> cases s.keys.down rightShift <;> simp
  have caps : (s.keys.press key).capsOn =
      if key = capsLock then !s.keys.capsOn else s.keys.capsOn := by
    by_cases lock : key = capsLock
    · simp [Keys.press, lock, show s.keys.down capsLock = false from careful lock]
    · simp [Keys.press, lock]
  unfold Tracks
  rw [shift, caps]
  exact flags

theorem tracks_release {key : Key} (tracks : Tracks s) (careful : Careful s (.release key))
    (exists_ : onKeyboard key = true) :
    Tracks ⟨s.keys.release key, handled s.driver (breakCodes key)⟩ := by
  have flags := flags_break tracks exists_
  have shift : (s.keys.release key).shiftDown =
      (key ≠ leftShift && key ≠ rightShift && s.keys.shiftDown) := by
    have ⟨left, right⟩ := careful
    simp only [Keys.shiftDown, Keys.release]
    by_cases isLeft : key = leftShift
    · have other : rightShift ≠ leftShift := by decide
      simp [isLeft, left isLeft]
    by_cases isRight : key = rightShift
    · simp [isRight, right isRight]
    · simp [isLeft, isRight, Ne.symm isLeft, Ne.symm isRight]
  unfold Tracks
  rw [shift]
  exact flags

theorem tracks_step {event : Event} (tracks : Tracks s) (careful : Careful s event)
    (next : step s event = some s') : Tracks s' := by
  cases event with
  | press key =>
      simp only [step] at next
      split at next
      · rw [← Option.some.inj next]
        exact tracks_press tracks careful
      · cases next
  | release key =>
      simp only [step] at next
      split at next
      · next down =>
        rw [← Option.some.inj next]
        exact tracks_release tracks careful (Bool.and_eq_true_iff.1 down).1
      · cases next
  | read =>
      rw [← Option.some.inj next]
      exact flags_read tracks

theorem agrees_of_tracks (tracks : Tracks s) : Agrees s := by
  intro code character ch entry some_ stored
  have handles := handle_character tracks.ready entry some_
  have resolved : s.driver.resolved character = s.keys.character character := by
    unfold Keyboard.resolved Keys.character Keys.shifted
    rw [tracks.shiftHeld, tracks.capsLockOn]
  unfold accepted at stored
  rw [handles, resolved] at stored
  dsimp only at stored
  split at stored
  · cases stored
  · next moved => exact stored_character moved (Option.some.inj stored)

end Runs

/-- As long as the Shift keys are not released one after the other and Caps Lock does not
repeat, every character is the one that the keys ask for. -/
theorem modifiers_agree (ring : Nat → UInt8) (s : System)
    (run : Run step Careful (start ring) s) : Agrees s := by
  have tracks : Tracks s := run.invariant Tracks (tracks_start ring) fun _ _ _ => tracks_step
  exact agrees_of_tracks tracks

/-- The right Shift key, Caps Lock, and the right Shift key again. -/
theorem caps_and_shift_agree : ∃ s, admittedPath step Careful (start fun _ => 0)
    [.press rightShift, .press capsLock, .release capsLock, .press rightShift] = some s ∧
    Agrees s := by
  have ⟨s, reached⟩ := Option.isSome_iff_exists.1 (show (admittedPath step Careful
    (start fun _ => 0) [.press rightShift, .press capsLock, .release capsLock,
      .press rightShift]).isSome from by decide)
  exact ⟨s, reached, modifiers_agree _ s (run_of_admitted_path reached)⟩

/-- Both Shift keys go down and the left one goes up: the driver stores `a`, not `A`. -/
theorem second_shift_is_lost : ∃ s, path step (start fun _ => 0)
    [.press leftShift, .press rightShift, .release leftShift] = some s ∧ ¬ Agrees s := by
  refine ⟨_, rfl, fun agrees => ?_⟩
  have lower : (0x61 : UInt8) = _ := agrees 0x1E 0x61 0x61 rfl (by decide) rfl
  exact absurd lower (by decide)

end CassiOS.Userland.Modifiers
