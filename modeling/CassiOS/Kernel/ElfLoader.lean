import CassiOS.Memory.Paging

/-!
# ELF loader

`ElfLoader::load` of `core/elf.cpp`. `elfData i` is the byte at `elfData + i`; the loader
computes `i` in 32 bits, so offsets wrap and may lie outside the file.
-/

namespace CassiOS.Kernel.ElfLoader

open CassiOS.Support.Words
open CassiOS.Memory.Physical
open CassiOS.Memory.Paging

set_option autoImplicit false

/-- `sizeof(Elf32Header)`. -/
def headerSize : Nat := 52

/-- `sizeof(Elf32ProgramHeader)`. -/
def programHeaderSize : Nat := 32

def ptLoad : Nat := 1

/-- The fields of `Elf32ProgramHeader` that the loader reads. -/
structure ProgramHeader where
  p_type : Nat
  p_offset : Nat
  p_vaddr : Nat
  p_filesz : Nat
  p_memsz : Nat

structure ElfLoadResult where
  entryPoint : Nat
  heapStart : Nat
  success : Bool
  deriving DecidableEq, Repr

/-- One page of a segment and the words copied into its frame. -/
structure Page where
  virtualAddr : Nat
  content : Nat → Nat

section Headers

variable (elfData : Nat → UInt8) (elfSize : Nat)

def programHeader (offset : Nat) : ProgramHeader :=
  let bytes := fun i => elfData (u32 i)
  { p_type := load32 bytes offset
    p_offset := load32 bytes (offset + 4)
    p_vaddr := load32 bytes (offset + 8)
    p_filesz := load32 bytes (offset + 16)
    p_memsz := load32 bytes (offset + 20) }

/-- Size, magic, class (32-bit), type (executable) and machine (i386). -/
def validHeader : Bool :=
  decide (headerSize ≤ elfSize) &&
    (elfData 0 == 0x7F && elfData 1 == 0x45 && elfData 2 == 0x4C && elfData 3 == 0x46) &&
    elfData 4 == 1 && load16 elfData 16 == 2 && load16 elfData 18 == 3

def segmentInFile (ph : ProgramHeader) : Bool :=
  !(decide (elfSize < ph.p_offset) || decide (elfSize < ph.p_filesz) ||
    decide (u32 (ph.p_offset + ph.p_filesz) < ph.p_offset) ||
      decide (elfSize < u32 (ph.p_offset + ph.p_filesz)))

def numPages (ph : ProgramHeader) : Nat := u32 (ph.p_memsz + (frameSize - 1)) / frameSize

def pageByte (ph : ProgramHeader) (p b : Nat) : UInt8 :=
  let segOffset := u32 (p * frameSize + b)
  if segOffset < ph.p_filesz ∧ u32 (ph.p_offset + segOffset) < elfSize then
    elfData (u32 (ph.p_offset + segOffset))
  else 0

def segmentPage (ph : ProgramHeader) (p : Nat) : Page where
  virtualAddr := u32 (ph.p_vaddr / frameSize * frameSize + p * frameSize)
  content := fun j => load32 (pageByte elfData elfSize ph p) (4 * j)

def segmentPages (ph : ProgramHeader) : List Page :=
  (List.range (numPages ph)).map (segmentPage elfData elfSize ph)

end Headers

section Loading

/-- One round of the page loop; the flag is clear when there was no frame. -/
def placePage (pdPhysical : Nat) (page : Page) (m : MemoryState) : Bool × MemoryState :=
  let (frame, m) := takeFrame m
  if frame = 0 then (false, m)
  else
    let m := mapUserPage pdPhysical page.virtualAddr frame userFlags m
    (true, m.fillFrame (frame / frameSize) page.content)

def placePages (pdPhysical : Nat) : List Page → MemoryState → Bool × MemoryState
  | [], m => (true, m)
  | page :: rest, m =>
      match placePage pdPhysical page m with
      | (false, m) => (false, m)
      | (true, m) => placePages pdPhysical rest m

variable (elfData : Nat → UInt8) (elfSize : Nat)

/-- The loop over `left` program headers from number `i`; the highest segment end, if no
header was refused and no frame missing. -/
def loadSegments (pdPhysical phoff phentsize : Nat) :
    (left i highestEnd : Nat) → MemoryState → Option Nat × MemoryState
  | 0, _, highestEnd, m => (some highestEnd, m)
  | left + 1, i, highestEnd, m =>
      let offset := u32 (phoff + i * phentsize)
      if elfSize < u32 (offset + programHeaderSize) then (none, m)
      else
        let ph := programHeader elfData offset
        if ph.p_type ≠ ptLoad then loadSegments pdPhysical phoff phentsize left (i + 1) highestEnd m
        else if !segmentInFile elfSize ph then (none, m)
        else
          let segEnd := u32 (ph.p_vaddr + ph.p_memsz)
          let highestEnd := if highestEnd < segEnd then segEnd else highestEnd
          match placePages pdPhysical (segmentPages elfData elfSize ph) m with
          | (false, m) => (none, m)
          | (true, m) => loadSegments pdPhysical phoff phentsize left (i + 1) highestEnd m

def load (pdPhysical : Nat) (m : MemoryState) : ElfLoadResult × MemoryState :=
  if !validHeader elfData elfSize then (⟨0, 0, false⟩, m)
  else
    let phoff := load32 elfData 28
    let phentsize := load16 elfData 42
    let phnum := load16 elfData 44
    match loadSegments elfData elfSize pdPhysical phoff phentsize phnum 0 0 m with
    | (none, m) => (⟨0, 0, false⟩, m)
    | (some highestEnd, m) =>
        let heapStart := u32 (highestEnd + (frameSize - 1)) / frameSize * frameSize
        (⟨load32 elfData 24, heapStart, true⟩, m)

end Loading

section Pages

variable (elfData : Nat → UInt8) (elfSize : Nat)

def acceptedPages (phoff phentsize : Nat) : (left i : Nat) → List Page
  | 0, _ => []
  | left + 1, i =>
      let offset := u32 (phoff + i * phentsize)
      if elfSize < u32 (offset + programHeaderSize) then []
      else
        let ph := programHeader elfData offset
        if ph.p_type ≠ ptLoad then acceptedPages phoff phentsize left (i + 1)
        else if !segmentInFile elfSize ph then []
        else segmentPages elfData elfSize ph ++ acceptedPages phoff phentsize left (i + 1)

def elfPages : List Page :=
  if !validHeader elfData elfSize then []
  else acceptedPages elfData elfSize (load32 elfData 28) (load16 elfData 42) (load16 elfData 44) 0

variable {elfData elfSize}

theorem place_pages_append (pdPhysical : Nat) (first second : List Page) (m : MemoryState) :
    placePages pdPhysical (first ++ second) m =
      match placePages pdPhysical first m with
      | (false, m) => (false, m)
      | (true, m) => placePages pdPhysical second m := by
  induction first generalizing m with
  | nil => rfl
  | cons page rest ih =>
      simp only [List.cons_append, placePages]
      rcases placePage pdPhysical page m with ⟨_ | _, after⟩
      · rfl
      · exact ih after

theorem load_segments_pages (pdPhysical phoff phentsize left i highestEnd : Nat) (m : MemoryState) :
    (loadSegments elfData elfSize pdPhysical phoff phentsize left i highestEnd m).2 =
        (placePages pdPhysical (acceptedPages elfData elfSize phoff phentsize left i) m).2 ∧
      ((loadSegments elfData elfSize pdPhysical phoff phentsize left i highestEnd m).1.isSome →
        (placePages pdPhysical (acceptedPages elfData elfSize phoff phentsize left i) m).1) := by
  induction left generalizing i highestEnd m with
  | zero => exact ⟨rfl, fun _ => rfl⟩
  | succ left ih =>
      simp only [loadSegments, acceptedPages]
      split
      · exact ⟨rfl, fun _ => rfl⟩
      · split
        · exact ih _ _ _
        · split
          · exact ⟨rfl, fun _ => rfl⟩
          · rw [place_pages_append]
            rcases placePages pdPhysical (segmentPages elfData elfSize _) m with ⟨_ | _, after⟩
            · exact ⟨rfl, fun impossible => impossible⟩
            · exact ih _ _ _

/-- Loading places the file's pages one after another, all of them when it succeeds. -/
theorem load_pages (pdPhysical : Nat) (m : MemoryState) :
    (load elfData elfSize pdPhysical m).2 =
        (placePages pdPhysical (elfPages elfData elfSize) m).2 ∧
      ((load elfData elfSize pdPhysical m).1.success →
        (placePages pdPhysical (elfPages elfData elfSize) m).1) := by
  unfold load elfPages
  split
  · exact ⟨rfl, fun _ => rfl⟩
  · have segments := @load_segments_pages elfData elfSize pdPhysical (load32 elfData 28)
      (load16 elfData 42) (load16 elfData 44) 0 0 m
    revert segments
    dsimp only
    rcases loadSegments elfData elfSize pdPhysical _ _ _ 0 0 m with ⟨_ | highestEnd, after⟩
    · exact fun segments => ⟨segments.1, fun impossible => absurd impossible Bool.false_ne_true⟩
    · exact fun segments => ⟨segments.1, fun _ => segments.2 rfl⟩

theorem accepted_pages_small (phoff phentsize left i : Nat) :
    ∀ page ∈ acceptedPages elfData elfSize phoff phentsize left i,
      page.virtualAddr < 4294967296 ∧ page.virtualAddr % frameSize = 0 := by
  induction left generalizing i with
  | zero => exact fun _ member => absurd member List.not_mem_nil
  | succ left ih =>
      simp only [acceptedPages]
      split
      · exact fun _ member => absurd member List.not_mem_nil
      · split
        · exact ih _
        · split
          · exact fun _ member => absurd member List.not_mem_nil
          · intro page member
            rcases List.mem_append.1 member with here | later
            · obtain ⟨p, _, rfl⟩ := List.mem_map.1 here
              unfold segmentPage u32 frameSize
              simp only
              omega
            · exact ih _ page later

/-- Pages are aligned and their addresses wrap at 32 bits. -/
theorem elf_pages_small : ∀ page ∈ elfPages elfData elfSize,
    page.virtualAddr < 4294967296 ∧ page.virtualAddr % frameSize = 0 := by
  unfold elfPages
  split
  · exact fun _ member => absurd member List.not_mem_nil
  · exact accepted_pages_small _ _ _ _

end Pages

section Steps

variable {m : MemoryState}

theorem place_page_cases (zeroUsed : m.Used 0) (pdPhysical : Nat) (page : Page) :
    (∃ frame, 0 < frame ∧ frame < frameCount ∧ ¬ m.Used frame ∧
        (∀ other, other < frame → m.Used other) ∧
        placePage pdPhysical page m =
          (true, (mapUserPage pdPhysical page.virtualAddr (frame * frameSize) userFlags
            (m.mark frame)).fillFrame frame page.content)) ∨
      (Exhausted m ∧ placePage pdPhysical page m = (false, m)) := by
  rcases take_frame_cases zeroUsed with ⟨frame, positive, bound, clear, before, run⟩ | ⟨full, run⟩
  · left
    obtain ⟨nonzero, number⟩ := frame_address positive
    refine ⟨frame, positive, bound, clear, before, ?_⟩
    unfold placePage
    rw [run]
    simp only [if_neg nonzero, number]
  · right
    refine ⟨full, ?_⟩
    unfold placePage
    rw [run]
    simp only [if_true]

end Steps

end CassiOS.Kernel.ElfLoader
