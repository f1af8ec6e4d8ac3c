import CassiOS.Support.Words

/-!
# Heap allocator

`std::alloc::HeapAllocator` of `libs/alloc`. Block headers live in the managed memory,
which is read and written one aligned 32-bit word at a time: `size` at offset 0, the byte
`free` at offset 4 and `next` at offset 8. The list walks take fuel, one unit a block, and
return nothing when it runs out.
-/

namespace CassiOS.Memory.Heap

open CassiOS.Support.Words

set_option autoImplicit false

abbrev Cells := Nat → Nat

/-- `sizeof(BlockHeader)`. -/
def headerSize : Nat := 12

def minBlockSize : Nat := headerSize + 4

structure HeapAllocator where
  head : Nat
  regionStart : Nat
  regionEnd : Nat

section Headers

def put (m : Cells) (address value : Nat) : Cells :=
  fun a => if a = address then value else m a

def blockSize (m : Cells) (block : Nat) : Nat := m block

/-- The flag is the lowest byte of its word; the rest is padding. -/
def blockFree (m : Cells) (block : Nat) : Bool := m (block + 4) % 256 != 0

def blockNext (m : Cells) (block : Nat) : Nat := m (block + 8)

def setSize (m : Cells) (block value : Nat) : Cells := put m block value

def setFree (m : Cells) (block : Nat) (flag : Bool) : Cells :=
  put m (block + 4) (m (block + 4) / 256 * 256 + flag.toNat)

def setNext (m : Cells) (block value : Nat) : Cells := put m (block + 8) value

end Headers

section Operations

/-- The constructor: one free block over the whole region, or none if it is too small. -/
def construct (base length : Nat) (m : Cells) : HeapAllocator × Cells :=
  if base = 0 ∨ length ≤ headerSize then (⟨0, 0, 0⟩, m)
  else
    (⟨base, base, u32 (base + length)⟩,
      setNext (setFree (setSize m base (length - headerSize)) base true) base 0)

def takeBlock (need current : Nat) (m : Cells) : Cells :=
  let remainder := blockSize m current - need
  let split :=
    if minBlockSize ≤ remainder then
      let newBlock := u32 (current + headerSize + need)
      let m := setSize m newBlock (remainder - headerSize)
      let m := setFree m newBlock true
      let m := setNext m newBlock (blockNext m current)
      setNext (setSize m current need) current newBlock
    else m
  setFree split current false

/-- The search of `allocate` from block `current` on; 0 is the null pointer. -/
def allocateFrom (need : Nat) : Nat → Nat → Cells → Option (Nat × Cells)
  | 0, _, _ => none
  | fuel + 1, current, m =>
      if current = 0 then some (0, m)
      else if blockFree m current ∧ need ≤ blockSize m current then
        some (u32 (current + headerSize), takeBlock need current m)
      else allocateFrom need fuel (blockNext m current) m

/-- `(size + 3) & ~3u`. -/
def alignUp (size : Nat) : Nat := u32 (size + 3) / 4 * 4

def allocate (fuel size : Nat) (heap : HeapAllocator) (m : Cells) : Option (Nat × Cells) :=
  if size = 0 then some (0, m) else allocateFrom (alignUp size) fuel heap.head m

/-- The coalescing walk of `free`. -/
def coalesceBlocks : Nat → Nat → Cells → Option Cells
  | 0, _, _ => none
  | fuel + 1, current, m =>
      if current = 0 then some m
      else if blockFree m current ∧ blockNext m current ≠ 0 ∧ blockFree m (blockNext m current) then
        let joined := setSize m current
          (u32 (blockSize m current + u32 (headerSize + blockSize m (blockNext m current))))
        coalesceBlocks fuel current
          (setNext joined current (blockNext joined (blockNext joined current)))
      else coalesceBlocks fuel (blockNext m current) m

def free (fuel ptr : Nat) (heap : HeapAllocator) (m : Cells) : Option Cells :=
  if ptr = 0 then some m
  else if ptr < u32 (heap.regionStart + headerSize) ∨ heap.regionEnd ≤ ptr then some m
  else
    let block := ptr - headerSize
    if blockFree m block then some m else coalesceBlocks fuel heap.head (setFree m block true)

def lastBlock : Nat → Nat → Cells → Option Nat
  | 0, _, _ => none
  | fuel + 1, last, m => if blockNext m last = 0 then some last else lastBlock fuel (blockNext m last) m

/-- Adds the space behind block `last`. -/
def appendSpace (additionalSize last : Nat) (m : Cells) : Cells :=
  if blockFree m last then setSize m last (u32 (blockSize m last + additionalSize))
  else
    let newBlock := u32 (last + headerSize + blockSize m last)
    let m := setSize m newBlock (additionalSize - headerSize)
    let m := setFree m newBlock true
    let m := setNext m newBlock 0
    setNext m last newBlock

def extend (fuel additionalSize : Nat) (heap : HeapAllocator) (m : Cells) :
    Option (HeapAllocator × Cells) :=
  if additionalSize ≤ headerSize ∨ heap.head = 0 then some (heap, m)
  else do
    let last ← lastBlock fuel heap.head m
    some ({ heap with regionEnd := u32 (heap.regionEnd + additionalSize) },
      appendSpace additionalSize last m)

end Operations

end CassiOS.Memory.Heap
