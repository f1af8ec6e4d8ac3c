import CassiOS.Fat32.Types

/-!
# Long and short names

The name functions of `fat32/filesystem.cpp`: `lfnChecksum`, `nameToShort`,
`extractLfn`, `shortNameToString`, `nameEquals`, and the parts of `createEntry` that
decide whether a long name is stored and lay it out in slots. A C string is the list
of its bytes before the terminating NUL.
-/

namespace CassiOS.Fat32.Names

open CassiOS.Fat32.Types

set_option autoImplicit false

def charDot : UInt8 := 0x2E
def charSpace : UInt8 := 0x20
def charTilde : UInt8 := 0x7E
def charSlash : UInt8 := 0x2F

def isLower (c : UInt8) : Bool := 0x61 ≤ c && c ≤ 0x7A
def isUpper (c : UInt8) : Bool := 0x41 ≤ c && c ≤ 0x5A

/-- The `c -= 32` of `nameToShort`. -/
def toUpper (c : UInt8) : UInt8 := if isLower c then c - 32 else c

def toLower (c : UInt8) : UInt8 := if isUpper c then c + 32 else c

def lfnChecksum (shortName : List UInt8) : UInt8 :=
  shortName.foldl (fun sum b => (if sum &&& 1 = 1 then (0x80 : UInt8) else 0) + (sum >>> 1) + b) 0

def lastDotFrom : List UInt8 → Nat → Option Nat → Option Nat
  | [], _, lastDot => lastDot
  | c :: cs, i, lastDot => lastDotFrom cs (i + 1) (if c = charDot then some i else lastDot)

def lastDot (name : List UInt8) : Option Nat := lastDotFrom name 0 none

def padSpaces (width : Nat) (field : List UInt8) : List UInt8 :=
  field ++ List.replicate (width - field.length) charSpace

/-- The eight base bytes of `nameToShort` before padding: blanks and dots are
dropped, and the tail `~N` is put in when the base is long or there is a dot. -/
def shortBase (name : List UInt8) : List UInt8 :=
  let baseLen := (lastDot name).getD name.length
  let base := (((name.take baseLen).filter fun c => c != charSpace && c != charDot).take 8).map toUpper
  if 8 < baseLen ∨ (lastDot name).isSome then
    base.take 6 ++ [charTilde, 0x31 + UInt8.ofNat (name.length % 9)]
  else base

def shortExtension (name : List UInt8) : List UInt8 :=
  match lastDot name with
  | none => []
  | some dot => ((name.drop (dot + 1)).take 3).map toUpper

def nameToShort (name : List UInt8) : List UInt8 :=
  padSpaces 8 (shortBase name) ++ padSpaces 3 (shortExtension name)

/-- The scan of `createEntry` for a valid 8.3 name: `none` when a long name is
needed, otherwise the position of the only dot, if there is one. -/
def scanShort : List UInt8 → Nat → Option Nat → Option (Option Nat)
  | [], _, dot => some dot
  | c :: cs, i, dot =>
      if c = charDot then
        if dot.isSome then none else scanShort cs (i + 1) (some i)
      else if isLower c then none
      else if c = charSpace then none
      else scanShort cs (i + 1) dot

def needsLfn (name : List UInt8) : Bool :=
  if 12 < name.length then true
  else match scanShort name 0 none with
    | none => true
    | some none => decide (8 < name.length)
    | some (some dot) => decide (8 < dot ∨ 3 < name.length - dot - 1)

/-- Number of LFN slots for a name: `(nameLen + 13 - 1) / 13`. -/
def lfnCount (name : List UInt8) : Nat := (name.length + lfnCharsPerEntry - 1) / lfnCharsPerEntry

/-- `static_cast<u16>` of a `char`, which is signed. -/
def wideChar (c : UInt8) : Nat := if c.toNat < 128 then c.toNat else 0xFF00 + c.toNat

/-- Character `pos` of the padded long name: the name, one NUL, then 0xFFFF. -/
def lfnCharAt (name : List UInt8) (pos : Nat) : Nat :=
  match name[pos]? with
  | some c => wideChar c
  | none => if pos = name.length then 0x0000 else 0xFFFF

def entryOfBytes (bytes : List UInt8) : DirEntry := fun k => bytes.getD k.val 0

/-- The LFN slot number `seq` that `createEntry` writes for `name`. -/
def lfnSlot (name : List UInt8) (checksum : UInt8) (seq : Nat) : DirEntry :=
  let c := fun i => lfnCharAt name ((seq - 1) * lfnCharsPerEntry + i)
  let order := if seq = lfnCount name then UInt8.ofNat seq ||| UInt8.ofNat lfnLastEntry
    else UInt8.ofNat seq
  let lo := fun i => byteOf (c i) 0
  let hi := fun i => byteOf (c i) 1
  entryOfBytes
    [order, lo 0, hi 0, lo 1, hi 1, lo 2, hi 2, lo 3, hi 3, lo 4, hi 4,
     DirAttr.lfnMask, 0, checksum,
     lo 5, hi 5, lo 6, hi 6, lo 7, hi 7, lo 8, hi 8, lo 9, hi 9, lo 10, hi 10,
     0, 0, lo 11, hi 11, lo 12, hi 12]

def shortSlot (shortName : List UInt8) (attr : UInt8) : DirEntry := fun k =>
  if k.val < 11 then shortName.getD k.val charSpace else if k = 11 then attr else 0

/-- The bound `nameMax - 1` on written characters; the subtraction wraps. -/
def nameRoom (nameMax : Nat) : Nat := u32 (nameMax + 4294967295)

/-- The character loops of `extractLfn`: at most `room` characters, up to the first
terminator 0x0000 or 0xFFFF; the low byte of each is stored. -/
def collectChars : Nat → List Nat → List UInt8
  | 0, _ => []
  | _, [] => []
  | room + 1, c :: cs =>
      if c = 0x0000 ∨ c = 0xFFFF then [] else UInt8.ofNat c :: collectChars room cs

/-- The slots are visited backwards: the one closest to the short entry is number 1. -/
def extractLfn (entries : List DirEntry) (nameMax : Nat) : List UInt8 :=
  collectChars (nameRoom nameMax) (entries.reverse.flatMap lfnChars)

def shortNameToString (shortName : List UInt8) (ntRes : UInt8) (outMax : Nat) : List UInt8 :=
  let baseLower := ntRes &&& 0x08 != 0
  let extLower := ntRes &&& 0x10 != 0
  let room := nameRoom outMax
  let base := (((shortName.take 8).take room).takeWhile (· != charSpace)).map
    fun c => if baseLower then toLower c else c
  if shortName.getD 8 charSpace != charSpace then
    base ++ charDot :: (((((shortName.drop 8).take 3).take (room - (base.length + 1))).takeWhile
      (· != charSpace)).map fun c => if extLower then toLower c else c)
  else base

/-- Comparison of two C strings, both read up to their first NUL. -/
def nameEquals : List UInt8 → List UInt8 → Bool
  | [], [] => true
  | [], b :: _ => b == 0
  | a :: _, [] => a == 0
  | a :: as, b :: bs => if a != b then false else if a == 0 then true else nameEquals as bs

end CassiOS.Fat32.Names
