import Mathlib.Algebra.GroupWithZero.Nat
import CassiOS.Support.Emitting
import Mathlib.Tactic.Common

/-!
# Formatting

`libs/fmt`: the format string with its placeholders, the arguments, and the buffer of a given
size. Everything is written through `put`, which counts on when the buffer is full; the
functions between `formatImpl` and `put` are given for any way to put a character, so that the
text without a bound is what they leave in a list. A position in a string is what is left of
the string, and its end stands for the NUL.
-/

namespace CassiOS.Userland.Formatting

open CassiOS.Support.Emitting

set_option autoImplicit false

structure Spec where
  width : UInt32
  leftAlign : Bool
  zeroPad : Bool
  hex : Bool
  upperHex : Bool

/-- A null pointer is `none`. -/
inductive Arg where
  | i32 (value : Int32)
  | u32 (value : UInt32)
  | str (value : Option (List UInt8))
  | char (value : UInt8)
  | sview (data : Option (List UInt8))

def charSpace : UInt8 := 0x20
def charMinus : UInt8 := 0x2D
def charZero : UInt8 := 0x30
def charNine : UInt8 := 0x39
def charColon : UInt8 := 0x3A
def charLess : UInt8 := 0x3C
def charUpperX : UInt8 := 0x58
def charLowerX : UInt8 := 0x78
def charOpen : UInt8 := 0x7B
def charClose : UInt8 := 0x7D

/-- `fmt[i]`. -/
def peek (fmt : List UInt8) : UInt8 := fmt.headD 0

/-! ## Numbers -/

/-- The digits from the lowest to the highest, at most `room` of them. -/
def digitsFrom (low : UInt32 → UInt8) (high : UInt32 → UInt32) : Nat → UInt32 → List UInt8
  | 0, _ => []
  | room + 1, value =>
      if 0 < value then low value :: digitsFrom low high room (high value) else []

def fmtDec (value : UInt32) : List UInt8 :=
  if value = 0 then [charZero]
  else (digitsFrom (fun v => charZero + (v % 10).toUInt8) (fun v => v / 10) 10 value).reverse

/-- `"0123456789ABCDEF"` or `"0123456789abcdef"`. -/
def hexChars (upper : Bool) : List UInt8 :=
  [0x30, 0x31, 0x32, 0x33, 0x34, 0x35, 0x36, 0x37, 0x38, 0x39] ++
    if upper then [0x41, 0x42, 0x43, 0x44, 0x45, 0x46] else [0x61, 0x62, 0x63, 0x64, 0x65, 0x66]

def fmtHex (value : UInt32) (upper : Bool) : List UInt8 :=
  if value = 0 then [charZero]
  else
    (digitsFrom (fun v => (hexChars upper).getD (v &&& 0xF).toNat 0) (fun v => v >>> 4) 8
      value).reverse

/-! ## The specification of a placeholder -/

def isDigit (c : UInt8) : Bool := charZero ≤ c && c ≤ charNine

def parseWidth (width : UInt32) : List UInt8 → UInt32 × List UInt8
  | [] => (width, [])
  | c :: fmt =>
      if isDigit c then parseWidth (width * 10 + (c - charZero).toUInt32) fmt else (width, c :: fmt)

def parseSpec (fmt : List UInt8) : Spec × List UInt8 :=
  let fmt := if peek fmt = charColon then fmt.tail else fmt
  let leftAlign : Bool := peek fmt = charLess
  let fmt := if leftAlign then fmt.tail else fmt
  let zeroPad : Bool := peek fmt = charZero
  let fmt := if zeroPad then fmt.tail else fmt
  let (width, fmt) := parseWidth 0 fmt
  let hex : Bool := peek fmt = charLowerX || peek fmt = charUpperX
  let upperHex : Bool := peek fmt = charUpperX
  let fmt := if hex then fmt.tail else fmt
  let fmt := if peek fmt = charClose then fmt.tail else fmt
  (⟨width, leftAlign, zeroPad && !leftAlign, hex, upperHex⟩, fmt)

/-! ## Output -/

section Output

variable {σ : Type} (put : σ → UInt8 → σ)

def putPad (s : σ) (c : UInt8) : Nat → σ
  | 0 => s
  | count + 1 => putPad (put s c) c count

/-- `sign` is zero when there is none. -/
def putPadded (s : σ) (data : List UInt8) (spec : Spec) (sign : UInt8) : σ :=
  let padChar := if spec.zeroPad && !spec.leftAlign then charZero else charSpace
  let total := data.length + if sign ≠ 0 then 1 else 0
  let padding := if total < spec.width.toNat then spec.width.toNat - total else 0
  let (s, sign) :=
    if !spec.leftAlign then
      let (s, sign) := if padChar = charZero ∧ sign ≠ 0 then (put s sign, 0) else (s, sign)
      (putPad put s padChar padding, sign)
    else (s, sign)
  let s := if sign ≠ 0 then put s sign else s
  let s := data.foldl put s
  if spec.leftAlign then putPad put s charSpace padding else s

def digitsOf (value : UInt32) (spec : Spec) : List UInt8 :=
  if spec.hex then fmtHex value spec.upperHex else fmtDec value

def fmtU32 (s : σ) (value : UInt32) (spec : Spec) : σ :=
  putPadded put s (digitsOf value spec) spec 0

/-- The negation of the most negative value is that value. -/
def fmtI32 (s : σ) (value : Int32) (spec : Spec) : σ :=
  let sign := if value < 0 then charMinus else 0
  let absVal := if value < 0 then (-value).toUInt32 else value.toUInt32
  putPadded put s (digitsOf absVal spec) spec sign

/-- `"(null)"`. -/
def nullText : List UInt8 := [0x28, 0x6E, 0x75, 0x6C, 0x6C, 0x29]

def fmtStr (s : σ) (value : Option (List UInt8)) (spec : Spec) : σ :=
  putPadded put s ((value.getD nullText).takeWhile (· ≠ 0)) spec 0

def fmtSView (s : σ) (data : Option (List UInt8)) (spec : Spec) : σ :=
  match data with
  | none => fmtStr put s none spec
  | some data => putPadded put s data spec 0

def formatArg (s : σ) (arg : Arg) (spec : Spec) : σ :=
  match arg with
  | .i32 value => fmtI32 put s value spec
  | .u32 value => fmtU32 put s value spec
  | .str value => fmtStr put s value spec
  | .char value => put s value
  | .sview data => fmtSView put s data spec

/-- The loop of `formatImpl` with the arguments that are left; `none` when it has not ended
after `fuel` rounds. -/
def formatLoop : Nat → List UInt8 → List Arg → σ → Option σ
  | 0, _, _, _ => none
  | fuel + 1, fmt, args, s =>
      if peek fmt = 0 then some s
      else if peek fmt = charOpen ∧ peek fmt.tail = charOpen then
        formatLoop fuel fmt.tail.tail args (put s charOpen)
      else if peek fmt = charClose ∧ peek fmt.tail = charClose then
        formatLoop fuel fmt.tail.tail args (put s charClose)
      else
        match args with
        | [] => formatLoop fuel fmt.tail [] (put s (peek fmt))
        | arg :: rest =>
            if peek fmt = charOpen then
              let (spec, fmt) := parseSpec fmt.tail
              formatLoop fuel fmt rest (formatArg put s arg spec)
            else formatLoop fuel fmt.tail (arg :: rest) (put s (peek fmt))

end Output

/-! ## The buffer -/

/-- The bytes from `buf` on, the indices that were stored to, and `pos`. -/
structure Buffer where
  bytes : Nat → UInt8
  stored : List Nat
  pos : UInt32

def Buffer.store (b : Buffer) (i : UInt32) (c : UInt8) : Buffer :=
  { b with
    bytes := fun j => if j = i.toNat then c else b.bytes j
    stored := b.stored ++ [i.toNat] }

def put (size : UInt32) (b : Buffer) (c : UInt8) : Buffer :=
  let b := if b.pos < size - 1 then b.store b.pos c else b
  { b with pos := b.pos + 1 }

/-- What is returned, and the buffer. -/
def formatImpl (bytes : Nat → UInt8) (size : UInt32) (fmt : List UInt8) (args : List Arg) :
    Option (UInt32 × Buffer) :=
  match formatLoop (put size) (fmt.length + 1) fmt args ⟨bytes, [], 0⟩ with
  | none => none
  | some b =>
      let b := if b.pos < size then b.store b.pos 0 else b.store (size - 1) 0
      some (if b.pos < size then b.pos else size - 1, b)

def formatText (fmt : List UInt8) (args : List Arg) : Option (List UInt8) :=
  formatLoop keep (fmt.length + 1) fmt args []

/-! ## The text of an argument -/

section Texts

def padding (data : List UInt8) (spec : Spec) (sign : UInt8) : Nat :=
  spec.width.toNat - (data.length + if sign ≠ 0 then 1 else 0)

def signText (sign : UInt8) : List UInt8 := if sign ≠ 0 then [sign] else []

/-- The field that `putPadded` puts out. -/
def paddedText (data : List UInt8) (spec : Spec) (sign : UInt8) : List UInt8 :=
  let pad := padding data spec sign
  if spec.leftAlign then signText sign ++ data ++ List.replicate pad charSpace
  else if spec.zeroPad then signText sign ++ List.replicate pad charZero ++ data
  else List.replicate pad charSpace ++ signText sign ++ data

variable {σ : Type}

theorem put_pad_eq (put : σ → UInt8 → σ) (s : σ) (c : UInt8) (count : Nat) :
    putPad put s c count = (List.replicate count c).foldl put s := by
  induction count generalizing s with
  | zero => rfl
  | succ count ih => simp [putPad, ih, List.replicate_succ]

theorem sign_text_fold (put : σ → UInt8 → σ) (s : σ) (sign : UInt8) :
    (signText sign).foldl put s = if sign ≠ 0 then put s sign else s := by
  unfold signText
  split <;> rfl

theorem sub_of_if (a b : Nat) : (if a < b then b - a else 0) = b - a := by
  split <;> omega

theorem padded_emits (data : List UInt8) (spec : Spec) (sign : UInt8) :
    Emits (fun _ put s => putPadded put s data spec sign) (paddedText data spec sign) := by
  intro σ put s
  have space : charSpace ≠ charZero := by decide
  dsimp only [putPadded]
  rw [sub_of_if]
  unfold paddedText padding
  cases left : spec.leftAlign with
  | true => simp [put_pad_eq, sign_text_fold, List.foldl_append]
  | false =>
      cases zero : spec.zeroPad with
      | false => simp [put_pad_eq, sign_text_fold, List.foldl_append, space]
      | true =>
          by_cases signed : sign = 0
          · simp [put_pad_eq, signText, List.foldl_append, signed]
          · simp [put_pad_eq, signText, List.foldl_append, signed]

/-- What `formatArg` puts out. -/
def argText (arg : Arg) (spec : Spec) : List UInt8 := formatArg keep [] arg spec

theorem arg_emits (arg : Arg) (spec : Spec) :
    Emits (fun _ put s => formatArg put s arg spec) (argText arg spec) := by
  have same : ∃ text, Emits (fun _ put s => formatArg put s arg spec) text := by
    cases arg with
    | i32 value => exact ⟨_, padded_emits _ _ _⟩
    | u32 value => exact ⟨_, padded_emits _ _ _⟩
    | str value => exact ⟨_, padded_emits _ _ _⟩
    | char value => exact ⟨_, emits_one value⟩
    | sview data =>
        cases data with
        | none => exact ⟨_, padded_emits _ _ _⟩
        | some data => exact ⟨_, padded_emits _ _ _⟩
  have ⟨text, emits⟩ := same
  rw [argText, emits.kept]
  exact emits

end Texts

/-! ## The loop -/

section Loop

/-- One round: what it puts out, and what is left of the format string and the arguments. -/
def round (fmt : List UInt8) (args : List Arg) :
    Option (List UInt8 × List UInt8 × List Arg) :=
  if peek fmt = 0 then none
  else if peek fmt = charOpen ∧ peek fmt.tail = charOpen then
    some ([charOpen], fmt.tail.tail, args)
  else if peek fmt = charClose ∧ peek fmt.tail = charClose then
    some ([charClose], fmt.tail.tail, args)
  else
    match args with
    | [] => some ([peek fmt], fmt.tail, [])
    | arg :: rest =>
        if peek fmt = charOpen then
          some (argText arg (parseSpec fmt.tail).1, (parseSpec fmt.tail).2, rest)
        else some ([peek fmt], fmt.tail, arg :: rest)

variable {σ : Type}

theorem format_loop_round (put : σ → UInt8 → σ) (fuel : Nat) (fmt : List UInt8) (args : List Arg)
    (s : σ) : formatLoop put (fuel + 1) fmt args s =
      match round fmt args with
      | none => some s
      | some (text, fmt, args) => formatLoop put fuel fmt args (text.foldl put s) := by
  conv_lhs => unfold formatLoop
  unfold round
  by_cases done : peek fmt = 0
  · rw [if_pos done, if_pos done]
  rw [if_neg done, if_neg done]
  by_cases opened : peek fmt = charOpen ∧ peek fmt.tail = charOpen
  · rw [if_pos opened, if_pos opened]
    rfl
  rw [if_neg opened, if_neg opened]
  by_cases closed : peek fmt = charClose ∧ peek fmt.tail = charClose
  · rw [if_pos closed, if_pos closed]
    rfl
  rw [if_neg closed, if_neg closed]
  cases args with
  | nil => rfl
  | cons arg rest =>
      by_cases placeholder : peek fmt = charOpen
      · simp only [if_pos placeholder]
        rw [← arg_emits arg (parseSpec fmt.tail).1 σ put s]
      · simp only [if_neg placeholder]
        rfl

theorem format_loop_text (fuel : Nat) (fmt : List UInt8) (args : List Arg) (put : σ → UInt8 → σ)
    (s : σ) : formatLoop put fuel fmt args s =
      (formatLoop keep fuel fmt args []).map fun text => text.foldl put s := by
  induction fuel generalizing σ fmt args with
  | zero => rfl
  | succ fuel ih =>
      rw [format_loop_round, format_loop_round keep]
      cases next : round fmt args with
      | none => rfl
      | some after =>
          have ⟨text, fmt', args'⟩ := after
          simp only
          rw [ih fmt' args' put, ih fmt' args' keep (text.foldl keep [])]
          simp [Function.comp_def, foldl_keep, List.foldl_append]

theorem length_parse_width (width : UInt32) (fmt : List UInt8) :
    (parseWidth width fmt).2.length ≤ fmt.length := by
  induction fmt generalizing width with
  | nil => exact Nat.le_refl _
  | cons c fmt ih =>
      unfold parseWidth
      split
      · exact Nat.le_succ_of_le (ih _)
      · exact Nat.le_refl _

theorem length_skip (fmt : List UInt8) (present : Prop) [Decidable present] :
    (if present then fmt.tail else fmt).length ≤ fmt.length := by
  by_cases here : present
  · simp [here]
  · simp [here]

theorem length_parse_spec (fmt : List UInt8) : (parseSpec fmt).2.length ≤ fmt.length := by
  unfold parseSpec
  dsimp only
  apply Nat.le_trans (length_skip _ _)
  apply Nat.le_trans (length_skip _ _)
  apply Nat.le_trans (length_parse_width _ _)
  apply Nat.le_trans (length_skip _ _)
  apply Nat.le_trans (length_skip _ _)
  exact length_skip _ _

theorem round_shorter {fmt fmt' text : List UInt8} {args args' : List Arg}
    (next : round fmt args = some (text, fmt', args')) : fmt'.length < fmt.length := by
  cases fmt with
  | nil => simp [round, peek] at next
  | cons c fmt =>
      have after_two : fmt.tail.length < (c :: fmt).length := by
        rw [List.length_tail, List.length_cons]
        omega
      have spec := length_parse_spec fmt
      have after_spec : (parseSpec fmt).2.length < (c :: fmt).length := Nat.lt_succ_of_le spec
      have after_one : fmt.length < (c :: fmt).length := Nat.lt_succ_self _
      unfold round at next
      rw [List.tail_cons] at next
      split at next
      · cases next
      split at next
      · simp only [Option.some.injEq, Prod.mk.injEq] at next
        exact next.2.1 ▸ after_two
      split at next
      · simp only [Option.some.injEq, Prod.mk.injEq] at next
        exact next.2.1 ▸ after_two
      split at next
      · simp only [Option.some.injEq, Prod.mk.injEq] at next
        exact next.2.1 ▸ after_one
      split at next
      · simp only [Option.some.injEq, Prod.mk.injEq] at next
        exact next.2.1 ▸ after_spec
      · simp only [Option.some.injEq, Prod.mk.injEq] at next
        exact next.2.1 ▸ after_one

theorem format_loop_ends {fuel : Nat} (fmt : List UInt8) (args : List Arg)
    (enough : fmt.length < fuel) : ∃ text, formatLoop keep fuel fmt args [] = some text := by
  induction fuel generalizing fmt args with
  | zero => exact absurd enough (Nat.not_lt_zero _)
  | succ fuel ih =>
      rw [format_loop_round]
      cases next : round fmt args with
      | none => exact ⟨[], rfl⟩
      | some after =>
          have ⟨text, fmt', args'⟩ := after
          have shorter := round_shorter next
          have ⟨rest, ends⟩ := ih fmt' args' (by omega)
          simp only
          rw [format_loop_text, ends]
          exact ⟨_, rfl⟩

end Loop

/-! ## Truncation -/

section Truncation

variable {bytes : Nat → UInt8} {size : UInt32} {text : List UInt8} {b : Buffer}

/-- The text so far, of which all but the last byte of the buffer holds the beginning. -/
structure Holds (bytes : Nat → UInt8) (size : UInt32) (text : List UInt8) (b : Buffer) : Prop where
  pos : b.pos.toNat = text.length
  inside : ∀ i c, i < size.toNat - 1 → text[i]? = some c → b.bytes i = c
  outside : ∀ i, size.toNat ≤ i → b.bytes i = bytes i
  stored : ∀ i ∈ b.stored, i < size.toNat

theorem holds_start (bytes : Nat → UInt8) (size : UInt32) : Holds bytes size [] ⟨bytes, [], 0⟩ where
  pos := rfl
  inside := by simp
  outside := fun _ _ => rfl
  stored := nofun

theorem to_nat_last (some_ : 0 < size) : (size - 1).toNat = size.toNat - 1 := by
  apply UInt32.toNat_sub_of_le
  exact UInt32.le_iff_toNat_le.2 (UInt32.lt_iff_toNat_lt.1 some_)

theorem holds_put (some_ : 0 < size) (holds : Holds bytes size text b)
    (small : text.length + 1 < 2 ^ 32) (c : UInt8) :
    Holds bytes size (text ++ [c]) (put size b c) := by
  have pos := holds.pos
  have last := to_nat_last some_
  have next : (b.pos + 1).toNat = (text ++ [c]).length := by
    rw [List.length_append, List.length_singleton, UInt32.toNat_add, pos]
    simpa using small
  unfold put
  by_cases room : b.pos < size - 1
  · have below : text.length < size.toNat - 1 := by
      rw [UInt32.lt_iff_toNat_lt, last, pos] at room
      exact room
    rw [if_pos room]
    constructor
    · exact next
    · intro i ch inside found
      dsimp only [Buffer.store]
      rw [pos]
      by_cases here : i = text.length
      · subst here
        rw [List.getElem?_concat_length, Option.some.injEq] at found
        rw [if_pos rfl, found]
      · rw [if_neg here]
        apply holds.inside i ch inside
        have bound := (List.getElem?_eq_some_iff.1 found).1
        rw [List.length_append, List.length_singleton] at bound
        rwa [List.getElem?_append_left (by omega)] at found
    · intro i beyond
      dsimp only [Buffer.store]
      rw [if_neg (by omega), holds.outside i beyond]
    · intro i member
      dsimp only [Buffer.store] at member
      rw [List.mem_append, List.mem_singleton] at member
      cases member with
      | inl old => exact holds.stored i old
      | inr new => omega
  · have full : size.toNat - 1 ≤ text.length := by
      rw [UInt32.lt_iff_toNat_lt, last, pos] at room
      exact Nat.le_of_not_lt room
    rw [if_neg room]
    refine ⟨next, ?_, holds.outside, holds.stored⟩
    intro i ch inside found
    rw [List.getElem?_append_left (by omega)] at found
    exact holds.inside i ch inside found

theorem holds_text (some_ : 0 < size) (more : List UInt8) (holds : Holds bytes size text b)
    (small : (text ++ more).length < 2 ^ 32) :
    Holds bytes size (text ++ more) (more.foldl (put size) b) := by
  induction more generalizing text b with
  | nil => simpa using holds
  | cons c more ih =>
      have total : (text ++ c :: more).length = text.length + 1 + more.length := by
        rw [List.length_append, List.length_cons]
        omega
      have one := holds_put some_ holds (by omega) c
      rw [List.append_cons] at small ⊢
      exact ih one small

/-- Where the NUL goes, and what is returned. -/
def lastPos (size : UInt32) (b : Buffer) : UInt32 := if b.pos < size then b.pos else size - 1

theorem to_nat_last_pos (some_ : 0 < size) (holds : Holds bytes size text b) :
    (lastPos size b).toNat = min text.length (size.toNat - 1) := by
  have positive : 0 < size.toNat := UInt32.lt_iff_toNat_lt.1 some_
  unfold lastPos
  by_cases fits : b.pos < size
  · rw [if_pos fits, holds.pos]
    rw [UInt32.lt_iff_toNat_lt, holds.pos] at fits
    omega
  · rw [if_neg fits, to_nat_last some_]
    rw [UInt32.lt_iff_toNat_lt, holds.pos] at fits
    omega

theorem range_store {n : UInt32} (holds : Holds bytes size text b)
    (end_ : n.toNat = min text.length (size.toNat - 1)) :
    (List.range n.toNat).map (b.store n 0).bytes = text.take (size.toNat - 1) := by
  apply List.ext_getElem?
  intro i
  rw [List.getElem?_map, List.getElem?_take]
  by_cases inside : i < n.toNat
  · have kept : (b.store n 0).bytes i = b.bytes i := if_neg (by omega)
    have inText : i < text.length := by omega
    have found : text[i]? = some text[i] := List.getElem?_eq_getElem inText
    have same := holds.inside i _ (by omega) found
    rw [List.getElem?_range inside, if_pos (by omega), found, ← same, ← kept]
    rfl
  · rw [List.getElem?_eq_none (by rw [List.length_range]; omega)]
    by_cases below : i < size.toNat - 1
    · rw [if_pos below, List.getElem?_eq_none (by omega)]
      rfl
    · rw [if_neg below]
      rfl

end Truncation

/-- `formatImpl` ends, writes to nothing but the buffer, and leaves in it as much of the text as
fits before a NUL. -/
theorem format_truncates (bytes : Nat → UInt8) (size : UInt32) (fmt : List UInt8)
    (args : List Arg) (some_ : 0 < size) :
    ∃ text, formatText fmt args = some text ∧ (text.length < 2 ^ 32 →
      ∃ n b, formatImpl bytes size fmt args = some (n, b) ∧
        n.toNat = min text.length (size.toNat - 1) ∧
        (∀ i ∈ b.stored, i < size.toNat) ∧
        (∀ i, size.toNat ≤ i → b.bytes i = bytes i) ∧
        (List.range n.toNat).map b.bytes = text.take (size.toNat - 1) ∧ b.bytes n.toNat = 0) := by
  have ⟨text, ends⟩ := format_loop_ends fmt args (Nat.lt_succ_self fmt.length)
  refine ⟨text, ends, fun small => ?_⟩
  have positive : 0 < size.toNat := UInt32.lt_iff_toNat_lt.1 some_
  have ⟨b, looped, holds⟩ : ∃ b, formatLoop (put size) (fmt.length + 1) fmt args ⟨bytes, [], 0⟩ =
      some b ∧ Holds bytes size text b := by
    refine ⟨_, ?_, holds_text some_ text (holds_start bytes size) small⟩
    rw [format_loop_text, ends]
    rfl
  have end_ := to_nat_last_pos some_ holds
  have finished : formatImpl bytes size fmt args =
      some (lastPos size b, b.store (lastPos size b) 0) := by
    unfold formatImpl lastPos
    rw [looped]
    by_cases fits : b.pos < size
    · simp [fits, Buffer.store]
    · simp [fits, Buffer.store]
  refine ⟨_, _, finished, end_, ?_, ?_, range_store holds end_, if_pos rfl⟩
  · intro i member
    dsimp only [Buffer.store] at member
    rw [List.mem_append, List.mem_singleton] at member
    cases member with
    | inl old => exact holds.stored i old
    | inr new => omega
  · intro i beyond
    dsimp only [Buffer.store]
    rw [if_neg (by omega), holds.outside i beyond]

/-- `{:4}` of 42 in four bytes. -/
theorem width_truncated : ∃ n b, formatImpl (fun _ => 0xFF) 4 [0x7B, 0x3A, 0x34, 0x7D] [.u32 42] =
    some (n, b) ∧ n.toNat = 3 ∧ (List.range 3).map b.bytes = [0x20, 0x20, 0x34] := by
  have ⟨text, whole, bounded⟩ :=
    format_truncates (fun _ => 0xFF) 4 [0x7B, 0x3A, 0x34, 0x7D] [.u32 42] (by decide)
  have shown : formatText [0x7B, 0x3A, 0x34, 0x7D] [.u32 42] =
      some [0x20, 0x20, 0x34, 0x32] := by decide
  rw [shown, Option.some.injEq] at whole
  subst whole
  have ⟨n, b, finished, end_, _, _, same, _⟩ := bounded (by decide)
  have three : n.toNat = 3 := end_.trans (by decide)
  rw [three] at same
  exact ⟨n, b, finished, three, same.trans (by decide)⟩

end CassiOS.Userland.Formatting
