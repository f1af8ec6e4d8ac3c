import Mathlib.Algebra.GroupWithZero.Nat
import Mathlib.Tactic.Common

/-!
# FAT32 on-disk structures

The constants and packed structures of `fat32/types.hpp`. A directory slot is its 32
raw bytes; `DirEntry` and `LfnEntry` of the source are two readings of the same slot,
so both sets of field accessors are defined on it. Multi-byte fields are little endian.
-/

namespace CassiOS.Fat32.Types

set_option autoImplicit false

def sectorSize : Nat := 512
def fatFree : Nat := 0x00000000
def fatEoc : Nat := 0x0FFFFFF8
def dirEntryFree : UInt8 := 0xE5
def dirEntryEnd : UInt8 := 0x00
def lfnLastEntry : Nat := 0x40
def lfnCharsPerEntry : Nat := 13

/-- `std::u32` arithmetic wraps. -/
def u32 (n : Nat) : Nat := n % 4294967296

theorem u32_of_lt {n : Nat} (small : n < 4294967296) : u32 n = n := Nat.mod_eq_of_lt small

namespace DirAttr

def readOnly : UInt8 := 0x01
def hidden : UInt8 := 0x02
def system : UInt8 := 0x04
def volumeId : UInt8 := 0x08
def directory : UInt8 := 0x10
def archive : UInt8 := 0x20
def lfnMask : UInt8 := readOnly ||| hidden ||| system ||| volumeId

end DirAttr

abbrev Sector := Fin 512 → UInt8

/-- Memory behind a pointer, by byte index. -/
abbrev Buf := Nat → UInt8

abbrev DirEntry := Fin 32 → UInt8

scoped instance sectorNeZero : NeZero 512 := ⟨by decide⟩
scoped instance dirEntryNeZero : NeZero 32 := ⟨by decide⟩

/-- Byte `k` of the little-endian representation of `n`. -/
def byteOf (n k : Nat) : UInt8 := UInt8.ofNat (n / 256 ^ k)

def le16 (lo hi : UInt8) : Nat := lo.toNat + 256 * hi.toNat

def le32 (b₀ b₁ b₂ b₃ : UInt8) : Nat :=
  b₀.toNat + 256 * b₁.toNat + 65536 * b₂.toNat + 16777216 * b₃.toNat

theorem le16_byte_of (n : Nat) : le16 (byteOf n 0) (byteOf n 1) = n % 65536 := by
  simp only [le16, byteOf, UInt8.toNat_ofNat', Nat.reducePow, Nat.div_one]
  omega

theorem le32_byte_of (n : Nat) :
    le32 (byteOf n 0) (byteOf n 1) (byteOf n 2) (byteOf n 3) = n % 4294967296 := by
  simp only [le32, byteOf, UInt8.toNat_ofNat', Nat.reducePow, Nat.div_one]
  omega

theorem le32_lt (b₀ b₁ b₂ b₃ : UInt8) : le32 b₀ b₁ b₂ b₃ < 4294967296 := by
  have h₀ := b₀.toNat_lt
  have h₁ := b₁.toNat_lt
  have h₂ := b₂.toNat_lt
  have h₃ := b₃.toNat_lt
  unfold le32
  omega

theorem le16_lt (lo hi : UInt8) : le16 lo hi < 65536 := by
  have hlo := lo.toNat_lt
  have hhi := hi.toNat_lt
  unfold le16
  omega

section Fields

/-! `DirEntry`: name 0-10, attr 11, ntReserved 12, firstClusterHigh 20-21,
firstClusterLow 26-27, fileSize 28-31. -/

def shortName (e : DirEntry) : List UInt8 := (List.finRange 11).map fun k => e (k.castLE (by decide))
def attr (e : DirEntry) : UInt8 := e 11
def ntReserved (e : DirEntry) : UInt8 := e 12
def firstClusterHigh (e : DirEntry) : Nat := le16 (e 20) (e 21)
def firstClusterLow (e : DirEntry) : Nat := le16 (e 26) (e 27)
def fileSize (e : DirEntry) : Nat := le32 (e 28) (e 29) (e 30) (e 31)

/-- `(firstClusterHigh << 16) | firstClusterLow`. -/
def firstCluster (e : DirEntry) : Nat := firstClusterHigh e * 65536 + firstClusterLow e

/-! `LfnEntry`: order 0, name1 1-10, attr 11, type 12, checksum 13, name2 14-25,
firstClusterLow 26-27, name3 28-31. -/

def lfnOrder (e : DirEntry) : UInt8 := e 0
def lfnChecksumField (e : DirEntry) : UInt8 := e 13

/-- The thirteen UCS-2 characters of `name1`, `name2` and `name3`, in order. -/
def lfnChars (e : DirEntry) : List Nat :=
  [le16 (e 1) (e 2), le16 (e 3) (e 4), le16 (e 5) (e 6), le16 (e 7) (e 8), le16 (e 9) (e 10),
   le16 (e 14) (e 15), le16 (e 16) (e 17), le16 (e 18) (e 19), le16 (e 20) (e 21),
   le16 (e 22) (e 23), le16 (e 24) (e 25),
   le16 (e 28) (e 29), le16 (e 30) (e 31)]

def setName0 (e : DirEntry) (b : UInt8) : DirEntry := fun k => if k = 0 then b else e k

def setFirstCluster (e : DirEntry) (c : Nat) : DirEntry := fun k =>
  if k = 20 then byteOf (c / 65536) 0 else if k = 21 then byteOf (c / 65536) 1
  else if k = 26 then byteOf c 0 else if k = 27 then byteOf c 1 else e k

def setFileSize (e : DirEntry) (n : Nat) : DirEntry := fun k =>
  if 28 ≤ k.val then byteOf n (k.val - 28) else e k

def isLfnEntry (e : DirEntry) : Bool := attr e == DirAttr.lfnMask
def isEnd (e : DirEntry) : Bool := e 0 == dirEntryEnd
def isFree (e : DirEntry) : Bool := e 0 == dirEntryFree
def isVolumeId (e : DirEntry) : Bool := attr e &&& DirAttr.volumeId != 0
def isDirectory (e : DirEntry) : Bool := attr e &&& DirAttr.directory != 0

/-- The test that skips `.` and `..`: the character `'.'` followed by `' '` or `'.'`. -/
def isDotEntry (e : DirEntry) : Bool := e 0 == 0x2E && (e 1 == 0x20 || e 1 == 0x2E)

end Fields

section FieldLemmas

variable (e : DirEntry)

theorem first_cluster_set_first_cluster (c : Nat) (small : c < 4294967296) :
    firstCluster (setFirstCluster e c) = c := by
  have high : firstClusterHigh (setFirstCluster e c) = c / 65536 % 65536 :=
    le16_byte_of (c / 65536)
  have low : firstClusterLow (setFirstCluster e c) = c % 65536 := le16_byte_of c
  unfold firstCluster
  rw [high, low]
  omega

@[simp] theorem file_size_set_first_cluster (c : Nat) :
    fileSize (setFirstCluster e c) = fileSize e := rfl
@[simp] theorem first_cluster_set_file_size (n : Nat) :
    firstCluster (setFileSize e n) = firstCluster e := rfl
@[simp] theorem attr_set_first_cluster (c : Nat) : attr (setFirstCluster e c) = attr e := rfl
@[simp] theorem attr_set_file_size (n : Nat) : attr (setFileSize e n) = attr e := rfl
@[simp] theorem attr_set_name (b : UInt8) : attr (setName0 e b) = attr e := rfl
@[simp] theorem byte_set_name (b : UInt8) : setName0 e b 0 = b := rfl

end FieldLemmas

end CassiOS.Fat32.Types
