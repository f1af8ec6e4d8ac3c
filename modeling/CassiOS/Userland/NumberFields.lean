import CassiOS.Userland.Formatting
import Mathlib.Data.List.GetD

/-!
# Fields of numbers

What `fmtU32` and `fmtI32` put out: blanks, a sign, zeros and digits, as wide as the
specification asks for. Read by their places, the digits give the number back, and so does
`StringView::to<u32>` for a decimal number that no blanks stand before.
-/

namespace CassiOS.Userland.NumberFields

open CassiOS.Support.Emitting
open CassiOS.Userland.Formatting

set_option autoImplicit false

/-! ## Reading -/

def digitValue (c : UInt8) : Nat :=
  if c ≤ charNine then c.toNat - 0x30
  else if c ≤ 0x46 then c.toNat - 0x41 + 10
  else c.toNat - 0x61 + 10

def positional (base : Nat) (digits : List UInt8) : Nat :=
  digits.foldl (fun n c => n * base + digitValue c) 0

/-- The loop of `StringView::to<u32>`. -/
def toFrom (result : UInt32) : List UInt8 → UInt32
  | [] => result
  | c :: rest =>
      if isDigit c then toFrom (result * 10 + (c - charZero).toUInt32) rest else result

def toU32 (view : List UInt8) : UInt32 := toFrom 0 view

/-! ## Digits -/

def base (spec : Spec) : Nat := if spec.hex then 16 else 10

theorem digit_value_chars : ∀ (upper : Bool) (d : Fin 16),
    digitValue ((hexChars upper).getD d 0) = d := by
  decide

section Digits

variable {low : UInt32 → UInt8} {high : UInt32 → UInt32} {b : Nat} {upper : Bool}
  {value : UInt32} {room : Nat}

structure Splits (low : UInt32 → UInt8) (high : UInt32 → UInt32) (b : Nat) (upper : Bool) :
    Prop where
  some_ : 1 < b
  chars : b ≤ 16
  low : ∀ v, low v = (hexChars upper).getD (v.toNat % b) 0
  high : ∀ v, (high v).toNat = v.toNat / b

theorem Splits.value_low (splits : Splits low high b upper) (v : UInt32) :
    digitValue (low v) = v.toNat % b := by
  have digit : v.toNat % b < b := Nat.mod_lt _ (by have := splits.some_; omega)
  rw [splits.low]
  exact digit_value_chars upper ⟨v.toNat % b, Nat.lt_of_lt_of_le digit splits.chars⟩

theorem Splits.high_lt (splits : Splits low high b upper) (fits : value.toNat < b ^ (room + 1)) :
    (high value).toNat < b ^ room := by
  rw [splits.high]
  exact Nat.div_lt_of_lt_mul (by rwa [Nat.pow_succ, Nat.mul_comm] at fits)

theorem splits_dec (upper : Bool) :
    Splits (fun v => charZero + (v % 10).toUInt8) (fun v => v / 10) 10 upper where
  some_ := by decide
  chars := by decide
  low v := by
    have chars : ∀ (upper : Bool) (d : Fin 10),
        charZero + UInt8.ofNat d = (hexChars upper).getD d 0 := by decide
    have digit : (v % 10).toUInt8 = UInt8.ofNat (v.toNat % 10) := by
      apply UInt8.toNat.inj
      simp
    rw [digit]
    exact chars upper ⟨v.toNat % 10, Nat.mod_lt _ (by decide)⟩
  high v := by simp

theorem splits_hex (upper : Bool) :
    Splits (fun v => (hexChars upper).getD (v &&& 0xF).toNat 0) (fun v => v >>> 4) 16 upper where
  some_ := by decide
  chars := by decide
  low v := by
    have digit : (v &&& 0xF).toNat = v.toNat % 16 := Nat.and_two_pow_sub_one_eq_mod v.toNat 4
    rw [digit]
  high v := by
    simp [Nat.shiftRight_eq_div_pow]

theorem positional_concat (b : Nat) (digits : List UInt8) (c : UInt8) :
    positional b (digits ++ [c]) = positional b digits * b + digitValue c := by
  simp [positional]

/-- With room enough for all of its digits, a number is what they stand for. -/
theorem positional_digits (splits : Splits low high b upper) (fits : value.toNat < b ^ room) :
    positional b (digitsFrom low high room value).reverse = value.toNat := by
  induction room generalizing value with
  | zero =>
      rw [Nat.pow_zero] at fits
      simp [digitsFrom, positional]
      omega
  | succ room ih =>
      unfold digitsFrom
      by_cases positive : 0 < value
      · rw [if_pos positive, List.reverse_cons, positional_concat, ih (splits.high_lt fits),
          splits.high, splits.value_low]
        exact Nat.div_add_mod' value.toNat b
      · have zero : value.toNat = 0 := by
          rw [UInt32.lt_iff_toNat_lt] at positive
          exact Nat.eq_zero_of_not_pos positive
        rw [if_neg positive, zero]
        rfl

theorem mem_digits (splits : Splits low high b upper) :
    ∀ c ∈ digitsFrom low high room value, c ∈ (hexChars upper).take b := by
  induction room generalizing value with
  | zero => exact nofun
  | succ room ih =>
      intro c member
      unfold digitsFrom at member
      by_cases positive : 0 < value
      · rw [if_pos positive, List.mem_cons] at member
        cases member with
        | inl first =>
            have digit : value.toNat % b < b := Nat.mod_lt _ (by have := splits.some_; omega)
            have all : (hexChars upper).length = 16 := by cases upper <;> rfl
            have bound := splits.chars
            rw [first, splits.low, List.getD_eq_getElem _ _ (by omega)]
            exact List.mem_take_iff_getElem.2 ⟨value.toNat % b, by omega, rfl⟩
        | inr later => exact ih c later
      · rw [if_neg positive] at member
        cases member

theorem last_digit (splits : Splits low high b upper) (fits : value.toNat < b ^ room)
    (positive : 0 < value) :
    ∃ c, (digitsFrom low high room value).getLast? = some c ∧ digitValue c ≠ 0 := by
  induction room generalizing value with
  | zero =>
      rw [UInt32.lt_iff_toNat_lt] at positive
      have one : value.toNat < 1 := fits
      exact absurd positive (by simpa using one)
  | succ room ih =>
      unfold digitsFrom
      rw [if_pos positive]
      by_cases more : 0 < high value
      · have ⟨c, last, nonzero⟩ := ih (splits.high_lt fits) more
        refine ⟨c, ?_, nonzero⟩
        rw [List.getLast?_cons, last]
        rfl
      · have done : digitsFrom low high room (high value) = [] := by
          cases room with
          | zero => rfl
          | succ room => exact if_neg more
        refine ⟨low value, by rw [done]; rfl, ?_⟩
        rw [UInt32.lt_iff_toNat_lt, splits.high] at more
        rw [UInt32.lt_iff_toNat_lt] at positive
        have small : value.toNat / b = 0 := Nat.eq_zero_of_not_pos more
        have whole := Nat.div_add_mod' value.toNat b
        rw [splits.value_low]
        rw [small, Nat.zero_mul, Nat.zero_add] at whole
        rw [whole]
        exact Nat.pos_iff_ne_zero.1 positive

structure Digits (b : Nat) (upper : Bool) (value : Nat) (digits : List UInt8) : Prop where
  chars : ∀ c ∈ digits, c ∈ (hexChars upper).take b
  canonical : digits = [charZero] ∨ ∃ c, digits.head? = some c ∧ digitValue c ≠ 0
  value : positional b digits = value

theorem digits_zero (splits : Splits low high b upper) : Digits b upper 0 [charZero] where
  chars c member := by
    have some_ := splits.some_
    have more : b = b - 1 + 1 := by omega
    rw [List.mem_singleton.1 member, more]
    exact List.mem_cons_self
  canonical := .inl rfl
  value := by simp [positional, show digitValue charZero = 0 from rfl]

theorem digits_some (splits : Splits low high b upper) (fits : value.toNat < b ^ room)
    (positive : 0 < value) :
    Digits b upper value.toNat (digitsFrom low high room value).reverse where
  chars c member := mem_digits splits c (List.mem_reverse.1 member)
  canonical := by
    have ⟨c, last, nonzero⟩ := last_digit splits fits positive
    exact .inr ⟨c, by rw [List.head?_reverse, last], nonzero⟩
  value := positional_digits splits fits

theorem digits_of (value : UInt32) (spec : Spec) :
    Digits (base spec) (spec.hex && spec.upperHex) value.toNat (digitsOf value spec) := by
  have small : value.toNat < 2 ^ 32 := value.toNat_lt
  unfold digitsOf base
  cases hex : spec.hex with
  | true =>
      simp only [if_true, Bool.true_and]
      unfold fmtHex
      by_cases zero : value = 0
      · rw [if_pos zero, zero]
        exact digits_zero (splits_hex spec.upperHex)
      · rw [if_neg zero]
        exact digits_some (splits_hex spec.upperHex) small (UInt32.pos_iff_ne_zero.2 zero)
  | false =>
      simp only [Bool.false_eq_true, if_false, Bool.false_and]
      unfold fmtDec
      by_cases zero : value = 0
      · rw [if_pos zero, zero]
        exact digits_zero (splits_dec false)
      · rw [if_neg zero]
        exact digits_some (splits_dec false) (by omega) (UInt32.pos_iff_ne_zero.2 zero)

end Digits

/-! ## Fields -/

/-- A field and its parts: blanks, sign, zeros, digits, blanks. -/
structure Field (spec : Spec) (sign : List UInt8) (value : Nat) (field : List UInt8)
    (blanks zeros : Nat) (digits : List UInt8) (after : Nat) : Prop where
  shape : field = List.replicate blanks charSpace ++ sign ++ List.replicate zeros charZero ++
    digits ++ List.replicate after charSpace
  length : field.length = max spec.width.toNat (digits.length + sign.length)
  leftAligned : spec.leftAlign = true → blanks = 0 ∧ zeros = 0
  rightAligned : spec.leftAlign = false → after = 0
  zeroPadded : spec.zeroPad = true → blanks = 0
  blankPadded : spec.zeroPad = false → zeros = 0
  digits : Digits (base spec) (spec.hex && spec.upperHex) value digits

theorem padded_field {value : Nat} {data : List UInt8} (spec : Spec) (sign : UInt8)
    (digits : Digits (base spec) (spec.hex && spec.upperHex) value data) :
    ∃ blanks zeros after, Field spec (signText sign) value (paddedText data spec sign) blanks zeros
      data after := by
  have pad : padding data spec sign + (data.length + (signText sign).length) =
      max spec.width.toNat (data.length + (signText sign).length) := by
    have one : (signText sign).length = if sign ≠ 0 then 1 else 0 := by
      unfold signText
      split <;> rfl
    unfold padding
    rw [one]
    omega
  cases left : spec.leftAlign with
  | true =>
      refine ⟨0, 0, padding data spec sign, ?_⟩
      constructor <;> simp [paddedText, left, digits]
      omega
  | false =>
      cases zero : spec.zeroPad with
      | true =>
          refine ⟨0, padding data spec sign, 0, ?_⟩
          constructor <;> simp [paddedText, left, zero, digits]
          omega
      | false =>
          refine ⟨padding data spec sign, 0, 0, ?_⟩
          constructor <;> simp [paddedText, left, zero, digits]
          omega

theorem text_fmt_u32 (value : UInt32) (spec : Spec) :
    fmtU32 keep [] value spec = paddedText (digitsOf value spec) spec 0 :=
  (padded_emits (digitsOf value spec) spec 0).kept

/-- A number is negated modulo `2 ^ 32`, which makes the most negative one its absolute value. -/
theorem to_nat_negated {value : Int32} (negative : value < 0) :
    (-value).toUInt32.toNat = value.toInt.natAbs := by
  have signed : value.toInt = if 2 * value.toUInt32.toNat < 2 ^ 32 then
      (value.toUInt32.toNat : Int) else value.toUInt32.toNat - (2 ^ 32 : Nat) :=
    BitVec.toInt_eq_toNat_cond value.toBitVec
  have below : value.toInt < 0 := by simpa using Int32.lt_iff_toInt_lt.1 negative
  have small : value.toUInt32.toNat < 2 ^ 32 := value.toUInt32.toNat_lt
  rw [Int32.toUInt32_neg, UInt32.toNat_neg, UInt32.size]
  split at signed <;> omega

theorem to_nat_positive {value : Int32} (positive : ¬ value < 0) :
    value.toUInt32.toNat = value.toInt.natAbs := by
  have signed : value.toInt = if 2 * value.toUInt32.toNat < 2 ^ 32 then
      (value.toUInt32.toNat : Int) else value.toUInt32.toNat - (2 ^ 32 : Nat) :=
    BitVec.toInt_eq_toNat_cond value.toBitVec
  have above : ¬ value.toInt < 0 := fun below =>
    positive (Int32.lt_iff_toInt_lt.2 (by simpa using below))
  have small : value.toUInt32.toNat < 2 ^ 32 := value.toUInt32.toNat_lt
  split at signed <;> omega

/-! ## Reading back -/

section Reading

variable {digits : List UInt8}

theorem decimal_char : ∀ c ∈ (hexChars false).take 10,
    isDigit c = true ∧ (c - charZero).toUInt32 = UInt32.ofNat (digitValue c) := by
  have all : ((hexChars false).take 10).all (fun c =>
      isDigit c && (c - charZero).toUInt32 == UInt32.ofNat (digitValue c)) = true := by decide
  intro c member
  simpa only [Bool.and_eq_true, beq_iff_eq] using List.all_eq_true.1 all c member

theorem to_from_digits (n : Nat) (rest : List UInt8)
    (chars : ∀ c ∈ digits, c ∈ (hexChars false).take 10) :
    toFrom (.ofNat n) (digits ++ rest) =
      toFrom (.ofNat (digits.foldl (fun n c => n * 10 + digitValue c) n)) rest := by
  induction digits generalizing n with
  | nil => rfl
  | cons c digits ih =>
      have ⟨digit, worth⟩ := decimal_char c (chars c List.mem_cons_self)
      have step : UInt32.ofNat n * 10 + UInt32.ofNat (digitValue c) =
          UInt32.ofNat (n * 10 + digitValue c) := by
        rw [UInt32.ofNat_add, UInt32.ofNat_mul]
        rfl
      rw [List.cons_append, toFrom, if_pos digit, worth, step, List.foldl_cons]
      exact ih _ fun c member => chars c (List.mem_cons_of_mem _ member)

theorem to_from_zeros (zeros : Nat) (rest : List UInt8) :
    toFrom 0 (List.replicate zeros charZero ++ rest) = toFrom 0 rest := by
  induction zeros with
  | zero => rfl
  | succ zeros ih =>
      rw [List.replicate_succ, List.cons_append, toFrom, if_pos (by decide)]
      exact ih

theorem to_from_blanks (result : UInt32) (blanks : Nat) :
    toFrom result (List.replicate blanks charSpace) = result := by
  cases blanks with
  | zero => rfl
  | succ blanks => exact if_neg (by decide)

theorem to_u32_field {spec : Spec} {value : UInt32} {field : List UInt8}
    {blanks zeros after : Nat} (decimal : spec.hex = false)
    (parts : Field spec [] value.toNat field blanks zeros digits after)
    (bare : field.head? ≠ some charSpace) : toU32 field = value := by
  have shape := parts.shape
  have none : blanks = 0 := by
    cases blanks with
    | zero => rfl
    | succ blanks =>
        rw [shape, List.replicate_succ] at bare
        exact absurd rfl bare
  have ten : base spec = 10 := by simp [base, decimal]
  have chars := parts.digits.chars
  have worth := parts.digits.value
  rw [ten, decimal] at chars
  rw [ten] at worth
  rw [none, List.replicate_zero, List.nil_append, List.nil_append, List.append_assoc] at shape
  rw [toU32, shape, to_from_zeros]
  have read := to_from_digits 0 (List.replicate after charSpace) chars
  rw [show digits.foldl (fun n c => n * 10 + digitValue c) 0 = value.toNat from worth,
    to_from_blanks, UInt32.ofNat_toNat] at read
  exact read

end Reading

/-- Fields of unsigned and of signed numbers, and what is read from the former. -/
theorem number_fields (spec : Spec) :
    (∀ value : UInt32, ∃ blanks zeros digits after,
      Field spec [] value.toNat (fmtU32 keep [] value spec) blanks zeros digits after) ∧
    (∀ value : Int32, ∃ blanks zeros digits after,
      Field spec (if value < 0 then [charMinus] else []) value.toInt.natAbs
        (fmtI32 keep [] value spec) blanks zeros digits after) ∧
    ∀ value : UInt32, spec.hex = false → (fmtU32 keep [] value spec).head? ≠ some charSpace →
      toU32 (fmtU32 keep [] value spec) = value := by
  have unsigned : ∀ value : UInt32, ∃ blanks zeros digits after,
      Field spec [] value.toNat (fmtU32 keep [] value spec) blanks zeros digits after := by
    intro value
    have ⟨blanks, zeros, after, parts⟩ := padded_field spec 0 (digits_of value spec)
    rw [← text_fmt_u32] at parts
    exact ⟨blanks, zeros, _, after, parts⟩
  refine ⟨unsigned, ?_, ?_⟩
  · intro value
    by_cases negative : value < 0
    · have digits := digits_of (-value).toUInt32 spec
      rw [to_nat_negated negative] at digits
      have ⟨blanks, zeros, after, parts⟩ := padded_field spec charMinus digits
      have text : fmtI32 keep [] value spec =
          paddedText (digitsOf (-value).toUInt32 spec) spec charMinus := by
        rw [fmtI32, if_pos negative, if_pos negative]
        exact (padded_emits _ spec charMinus).kept
      rw [if_pos negative, text]
      exact ⟨blanks, zeros, _, after, parts⟩
    · have digits := digits_of value.toUInt32 spec
      rw [to_nat_positive negative] at digits
      have ⟨blanks, zeros, after, parts⟩ := padded_field spec 0 digits
      have text : fmtI32 keep [] value spec =
          paddedText (digitsOf value.toUInt32 spec) spec 0 := by
        rw [fmtI32, if_neg negative, if_neg negative]
        exact (padded_emits _ spec 0).kept
      rw [if_neg negative, text]
      exact ⟨blanks, zeros, _, after, parts⟩
  · intro value decimal bare
    have ⟨blanks, zeros, digits, after, parts⟩ := unsigned value
    exact to_u32_field decimal parts bare

/-- `{:05}` of 42. -/
theorem zero_padded_read :
    fmtU32 keep [] 42 ⟨5, false, true, false, false⟩ = [0x30, 0x30, 0x30, 0x34, 0x32] ∧
      toU32 (fmtU32 keep [] 42 ⟨5, false, true, false, false⟩) = 42 := by
  have shown : fmtU32 keep [] 42 ⟨5, false, true, false, false⟩ =
      [0x30, 0x30, 0x30, 0x34, 0x32] := by decide
  have bare : (fmtU32 keep [] 42 ⟨5, false, true, false, false⟩).head? ≠ some charSpace := by
    rw [shown]
    decide
  exact ⟨shown, (number_fields ⟨5, false, true, false, false⟩).2.2 42 rfl bare⟩

end CassiOS.Userland.NumberFields
