import Mathlib.Data.List.TakeWhile
import Mathlib.Tactic.Common

/-!
# Messages and strings

`ipc::Message` with the message types of the services that are modelled, and `StringView` of
`libs/str`. A `char` array is the list of its bytes; behind the end of the list stands a NUL.
-/

namespace CassiOS.Userland.Messages

set_option autoImplicit false

structure Message where
  type : UInt32
  arg1 : UInt32
  arg2 : UInt32
  arg3 : UInt32
  arg4 : UInt32
  arg5 : UInt32
deriving DecidableEq

/-- `ipc::Message msg = {}`. -/
def Message.zero : Message := ⟨0, 0, 0, 0, 0, 0⟩

namespace MessageType

def irqNotify : UInt32 := 1
def nsRegister : UInt32 := 2
def nsLookup : UInt32 := 3
def kbdRead : UInt32 := 4
def vfsMkdir : UInt32 := 5
def vfsRemove : UInt32 := 6
def vfsOpen : UInt32 := 7
def vfsRead : UInt32 := 8
def vfsWrite : UInt32 := 9
def vfsList : UInt32 := 10
def vfsStat : UInt32 := 11
def mouseRead : UInt32 := 12
def ataRead : UInt32 := 13
def ataWrite : UInt32 := 14
def nsListAll : UInt32 := 15
def displayBlit : UInt32 := 18
def terminalPutchar : UInt32 := 23
def terminalWrite : UInt32 := 24
def terminalClear : UInt32 := 25
def terminalSetCursor : UInt32 := 26
def terminalGetCursor : UInt32 := 27
def terminalFlush : UInt32 := 28

end MessageType

/-- What `ipc::receive` returns is a PID, and no error, when it is positive as `i32`. -/
def isSender (sender : UInt32) : Prop := 0 < sender.toInt32

instance (sender : UInt32) : Decidable (isSender sender) :=
  inferInstanceAs (Decidable (0 < sender.toInt32))

theorem sender_ne_zero {sender : UInt32} (positive : isSender sender) : sender ≠ 0 := by
  rintro rfl
  exact absurd positive (by decide)

section Strings

abbrev Chars := List UInt8

def charAt (s : Chars) (i : Nat) : UInt8 := s.getD i 0

def contents (s : Chars) : Chars := s.takeWhile fun ch => ch ≠ 0

structure StringView where
  ptr : Chars
  len : Nat

namespace StringView

/-- The loop `while (s[len] != '\0') ++len`. -/
def lengthOf : Chars → Nat
  | [] => 0
  | ch :: rest => if ch ≠ 0 then lengthOf rest + 1 else 0

def ofChars (s : Chars) : StringView := ⟨s, lengthOf s⟩

/-- `operator==`. -/
def equals (a b : StringView) : Bool :=
  if a.len ≠ b.len then false
  else (List.range a.len).all fun i => charAt a.ptr i = charAt b.ptr i

/-- The loop of `copyTo` over the last `n` characters from `i`. -/
def copyFrom (ptr : Chars) (i : Nat) : Nat → Chars → Chars
  | 0, dst => dst
  | n + 1, dst => copyFrom ptr (i + 1) n (dst.set i (charAt ptr i))

def copyTo (view : StringView) (dst : Chars) (max : Nat) : Chars :=
  if max = 0 then dst
  else
    let n := if view.len < max - 1 then view.len else max - 1
    (copyFrom view.ptr 0 n dst).set n 0

end StringView

theorem length_of_contents (s : Chars) : StringView.lengthOf s = (contents s).length := by
  induction s with
  | nil => rfl
  | cons ch rest ih =>
      unfold StringView.lengthOf contents
      rw [ih]
      by_cases nul : ch = 0
      · rw [if_neg (by simpa using nul), List.takeWhile_cons_of_neg (by simpa using nul)]
        rfl
      · rw [if_pos nul, List.takeWhile_cons_of_pos (by simpa using nul)]
        rfl

theorem char_at_contents (s : Chars) {i : Nat} (inside : i < (contents s).length) :
    (contents s)[i] = charAt s i := by
  have start : contents s <+: s := List.takeWhile_prefix _
  have here := List.prefix_iff_getElem?.1 start i inside
  unfold charAt
  rw [List.getD_eq_getElem?_getD, here]
  rfl

theorem equals_iff (a b : Chars) :
    (StringView.ofChars a).equals (StringView.ofChars b) = true ↔ contents a = contents b := by
  have lengths : ∀ s, (StringView.ofChars s).len = (contents s).length := length_of_contents
  unfold StringView.equals
  rw [lengths, lengths]
  by_cases same : (contents a).length = (contents b).length
  · rw [if_neg (not_not.2 same), List.all_eq_true]
    constructor
    · intro all
      apply List.ext_getElem same
      intro i inside inside'
      rw [char_at_contents a inside, char_at_contents b inside']
      exact of_decide_eq_true (all i (List.mem_range.2 inside))
    · intro equal i member
      have inside := List.mem_range.1 member
      have inside' := equal ▸ inside
      apply decide_eq_true
      change charAt a i = charAt b i
      rw [← char_at_contents a inside, ← char_at_contents b inside']
      exact List.getElem_of_eq equal inside
  · rw [if_pos same]
    exact ⟨nofun, fun equal => absurd (congrArg List.length equal) same⟩

theorem no_nul_in_contents (s : Chars) : 0 ∉ contents s := by
  intro member
  have := List.mem_takeWhile_imp member
  simp at this

/-- A string is what stands before the first NUL. -/
theorem contents_of_start {s string : Chars} (clean : 0 ∉ string) (start : string ++ [0] <+: s) :
    contents s = string := by
  obtain ⟨rest, rfl⟩ := start
  unfold contents
  rw [List.append_assoc, List.takeWhile_append_of_pos]
  · exact List.append_nil _
  · intro ch member
    apply decide_eq_true
    rintro rfl
    exact clean member

theorem length_copy_from (ptr : Chars) (n i : Nat) (dst : Chars) :
    (StringView.copyFrom ptr i n dst).length = dst.length := by
  induction n generalizing i dst with
  | zero => rfl
  | succ n ih =>
      unfold StringView.copyFrom
      rw [ih, List.length_set]

theorem copy_from_at (ptr : Chars) (n i : Nat) (dst : Chars) (room : i + n ≤ dst.length) (j : Nat) :
    (StringView.copyFrom ptr i n dst)[j]? =
      if i ≤ j ∧ j < i + n then some (charAt ptr j) else dst[j]? := by
  induction n generalizing i dst with
  | zero => exact (if_neg (by omega)).symm
  | succ n ih =>
      unfold StringView.copyFrom
      rw [ih (i + 1) _ (by rw [List.length_set]; omega)]
      by_cases here : j = i
      · subst here
        rw [if_neg (by omega), if_pos (by omega), List.getElem?_set_self (by omega)]
      · rw [List.getElem?_set_ne (Ne.symm here)]
        by_cases later : i + 1 ≤ j ∧ j < i + 1 + n
        · rw [if_pos later, if_pos (by omega)]
        · rw [if_neg later, if_neg (by omega)]

theorem contents_copy (s dst : Chars) {max : Nat} (fits : (contents s).length < max)
    (room : max ≤ dst.length) : contents ((StringView.ofChars s).copyTo dst max) = contents s := by
  apply contents_of_start (no_nul_in_contents s)
  have length : (StringView.ofChars s).len = (contents s).length := length_of_contents s
  unfold StringView.copyTo
  rw [if_neg (by omega), length]
  have whole : (if (contents s).length < max - 1 then (contents s).length else max - 1) =
      (contents s).length := by
    split <;> omega
  dsimp only
  rw [whole]
  apply List.prefix_iff_getElem?.2
  intro i inside
  rw [List.length_append, List.length_singleton] at inside
  by_cases last : i = (contents s).length
  · subst last
    rw [List.getElem?_set_self (by rw [length_copy_from]; omega), List.getElem_concat_length]
    rfl
  · rw [List.getElem?_set_ne (Ne.symm last), copy_from_at _ _ _ _ (by omega),
      if_pos (by omega), List.getElem_append_left (by omega), char_at_contents]
    rfl

end Strings

end CassiOS.Userland.Messages
