import Mathlib.Tactic.Common

/-!
# 32-bit machine words

`std::u32` values are natural numbers below `2 ^ 32` and their arithmetic wraps.
`asI32` and `asU32` are the two `static_cast`s between `u32` and `i32`. The `load`
functions read little-endian fields of packed structures from byte memory.
-/

namespace CassiOS.Support.Words

set_option autoImplicit false

/-- `std::u32` arithmetic wraps. -/
def u32 (n : Nat) : Nat := n % 4294967296

theorem u32_of_lt {n : Nat} (small : n < 4294967296) : u32 n = n := Nat.mod_eq_of_lt small

def asI32 (n : Nat) : Int :=
  if n < 2147483648 then n else (n : Int) - 4294967296

def asU32 (z : Int) : Nat := (z % 4294967296).toNat

section Fields

variable (memory : Nat → UInt8) (address : Nat)

def load16 : Nat := (memory address).toNat + 256 * (memory (address + 1)).toNat

def load32 : Nat := load16 memory address + 65536 * load16 memory (address + 2)

def load64 : Nat := load32 memory address + 4294967296 * load32 memory (address + 4)

theorem load16_lt : load16 memory address < 65536 := by
  have low := (memory address).toNat_lt
  have high := (memory (address + 1)).toNat_lt
  unfold load16
  omega

theorem load32_lt : load32 memory address < 4294967296 := by
  have low := load16_lt memory address
  have high := load16_lt memory (address + 2)
  unfold load32
  omega

end Fields

end CassiOS.Support.Words
