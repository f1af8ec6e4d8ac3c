import CassiOS.Kernel.BootFrames

/-!
# What the loader reads of an image

The bytes of the image that `ElfLoader::load` looks at, as a list of indices. The loader
checks each program header's end against the size of the image, but the end is a 32-bit
sum that wraps for a header in the last bytes below 4 GiB.
-/

namespace CassiOS.Kernel.ImageReads

open CassiOS.Support.Words
open CassiOS.Memory.Physical
open CassiOS.Memory.Paging
open CassiOS.Memory.NewSpace
open CassiOS.Memory.UserSpace
open CassiOS.Kernel.BootFrames (create_made)
open CassiOS.Kernel.ElfLoader
open CassiOS.Kernel.ExecCleanup (place_pages_budget frame_demand_nil)
open CassiOS.Kernel.FailedExec (headerAccepted load_segments_success spaceTables)
open CassiOS.Kernel.NewProcess
open CassiOS.Kernel.LoaderSafety

set_option autoImplicit false

section Reads

variable (elfData : Nat → UInt8) (elfSize : Nat)

/-- The four bytes of a field, `k` bytes into a structure at `offset`. -/
def field (offset k : Nat) : List Nat :=
  [u32 (offset + k), u32 (offset + k + 1), u32 (offset + k + 2), u32 (offset + k + 3)]

/-- The fields of a program header that are read, in this order: `p_type`, `p_offset`,
`p_filesz`, `p_vaddr` and `p_memsz`, up to the check that turns the header down. -/
def fieldsRead (ph : ProgramHeader) : List Nat :=
  if ph.p_type ≠ ptLoad then [0]
  else if elfSize < ph.p_offset then [0, 4]
  else if !segmentInFile elfSize ph then [0, 4, 16]
  else [0, 4, 16, 8, 20]

def headerReads (offset : Nat) : List Nat :=
  (fieldsRead elfSize (programHeader elfData offset)).flatMap (field offset)

/-- The bytes copied into page `p` of a segment. -/
def pageReads (ph : ProgramHeader) (p : Nat) : List Nat :=
  (List.range frameSize).filterMap fun b =>
    let segOffset := u32 (p * frameSize + b)
    if segOffset < ph.p_filesz ∧ u32 (ph.p_offset + segOffset) < elfSize then
      some (u32 (ph.p_offset + segOffset))
    else none

/-- The page loop stops when there is no frame. -/
def segmentReads (pdPhysical : Nat) (ph : ProgramHeader) : List Nat → MemoryState → List Nat
  | [], _ => []
  | p :: rest, m =>
      match placePage pdPhysical (segmentPage elfData elfSize ph p) m with
      | (false, _) => []
      | (true, m) => pageReads elfSize ph p ++ segmentReads pdPhysical ph rest m

def loopReads (pdPhysical phoff phentsize : Nat) : (left i : Nat) → MemoryState → List Nat
  | 0, _, _ => []
  | left + 1, i, m =>
      let offset := u32 (phoff + i * phentsize)
      if elfSize < u32 (offset + programHeaderSize) then []
      else
        let ph := programHeader elfData offset
        headerReads elfData elfSize offset ++
          if ph.p_type ≠ ptLoad then loopReads pdPhysical phoff phentsize left (i + 1) m
          else if !segmentInFile elfSize ph then []
          else
            segmentReads elfData elfSize pdPhysical ph (List.range (numPages ph)) m ++
              match placePages pdPhysical (segmentPages elfData elfSize ph) m with
              | (false, _) => []
              | (true, m) => loopReads pdPhysical phoff phentsize left (i + 1) m

/-- Magic, class, type and machine. -/
def identReads : List Nat := [0, 1, 2, 3, 4, 16, 17, 18, 19]

/-- `e_phoff`, `e_phnum`, `e_phentsize` and `e_entry`. -/
def tableReads : List Nat := [28, 29, 30, 31, 44, 45, 42, 43, 24, 25, 26, 27]

/-- The indices of the bytes of the image that `load` reads. -/
def imageReads (pdPhysical : Nat) (m : MemoryState) : List Nat :=
  if elfSize < headerSize then []
  else identReads ++
    if !validHeader elfData elfSize then []
    else tableReads ++ loopReads elfData elfSize pdPhysical (load32 elfData 28)
      (load16 elfData 42) (load16 elfData 44) 0 m

end Reads

section Bounds

/-- The end of a header at `offset` is beyond the last byte below 4 GiB. -/
def EndWraps (offset : Nat) : Prop := 4294967296 ≤ offset + programHeaderSize

/-- The field lies in the image, as it stands or wholly wrapped to its start. -/
def FieldInside (elfSize offset k : Nat) : Prop :=
  offset + k + 4 ≤ elfSize ∨ 4294967296 ≤ offset + k

/-- A header whose end wraps is harmless if all that is read of it lies in the image, which
must then reach up to the last bytes below 4 GiB. -/
def HeaderSafe (elfData : Nat → UInt8) (elfSize offset : Nat) : Prop :=
  EndWraps offset →
    ∀ k ∈ fieldsRead elfSize (programHeader elfData offset), FieldInside elfSize offset k

variable {elfData : Nat → UInt8} {elfSize offset : Nat}

theorem fields_read_bound (ph : ProgramHeader) : ∀ k ∈ fieldsRead elfSize ph, k ≤ 20 := by
  intro k member
  unfold fieldsRead at member
  split_ifs at member <;> simp only [List.mem_cons, List.not_mem_nil, or_false] at member <;> omega

/-- An image that does not reach into the last 32 bytes below 4 GiB has no safe header there. -/
theorem header_safe_iff_of_room (room : elfSize + programHeaderSize ≤ 4294967296)
    (start : offset < 4294967296) : HeaderSafe elfData elfSize offset ↔ ¬ EndWraps offset := by
  constructor
  · intro safe wraps
    have first : 0 ∈ fieldsRead elfSize (programHeader elfData offset) := by
      unfold fieldsRead
      split_ifs <;> exact List.mem_cons_self
    have inside := safe wraps 0 first
    unfold FieldInside at inside
    unfold EndWraps at wraps
    unfold programHeaderSize at *
    omega
  · exact fun fits wraps => absurd wraps fits

/-- A field's bytes are in the image exactly when the field is. -/
theorem field_below_iff {k : Nat} (word : elfSize < 4294967296) (start : offset < 4294967296)
    (large : headerSize ≤ elfSize) (bound : k ≤ 20) :
    (∀ x ∈ field offset k, x < elfSize) ↔ FieldInside elfSize offset k := by
  unfold headerSize at large
  unfold FieldInside field u32
  simp only [List.mem_cons, List.not_mem_nil, or_false, forall_eq_or_imp, forall_eq]
  omega

theorem header_reads_below_iff (word : elfSize < 4294967296) (start : offset < 4294967296)
    (large : headerSize ≤ elfSize) (passed : ¬ elfSize < u32 (offset + programHeaderSize)) :
    (∀ x ∈ headerReads elfData elfSize offset, x < elfSize) ↔ HeaderSafe elfData elfSize offset := by
  have fields : (∀ x ∈ headerReads elfData elfSize offset, x < elfSize) ↔
      ∀ k ∈ fieldsRead elfSize (programHeader elfData offset), FieldInside elfSize offset k := by
    unfold headerReads
    constructor
    · intro below k member
      apply (field_below_iff word start large (fields_read_bound _ k member)).1
      intro x inside
      exact below x (List.mem_flatMap.2 ⟨k, member, inside⟩)
    · intro inside x member
      obtain ⟨k, memberK, byte⟩ := List.mem_flatMap.1 member
      exact (field_below_iff word start large (fields_read_bound _ k memberK)).2
        (inside k memberK) x byte
  rw [fields]
  constructor
  · exact fun inside _ => inside
  · intro safe k member
    by_cases wraps : EndWraps offset
    · exact safe wraps k member
    · -- the sum in the check is the real end
      have bound := fields_read_bound _ k member
      unfold EndWraps programHeaderSize at wraps
      unfold programHeaderSize at passed
      rw [u32_of_lt (by omega)] at passed
      left
      omega

theorem page_reads_below (ph : ProgramHeader) (p : Nat) :
    ∀ x ∈ pageReads elfSize ph p, x < elfSize := by
  intro x member
  obtain ⟨b, _, here⟩ := List.mem_filterMap.1 member
  dsimp only at here
  split at here
  · next inFile =>
    cases here
    exact inFile.2
  · cases here

theorem segment_reads_below (pdPhysical : Nat) (ph : ProgramHeader) (pages : List Nat)
    (m : MemoryState) :
    ∀ x ∈ segmentReads elfData elfSize pdPhysical ph pages m, x < elfSize := by
  induction pages generalizing m with
  | nil => exact nofun
  | cons p rest ih =>
      unfold segmentReads
      rcases placePage pdPhysical (segmentPage elfData elfSize ph p) m with ⟨_ | _, after⟩
      · exact nofun
      · intro x member
        rcases List.mem_append.1 member with here | later
        · exact page_reads_below ph p x here
        · exact ih after x later

end Bounds

section Frames

/-- There is a frame for the last of the pages when the others have theirs, each with the page
table that it may miss. -/
def FramesFor (free : Nat) (tables : Nat → Bool) (pages : List Nat) : Prop :=
  pages = [] ∨ frameDemand tables pages.dropLast < free

variable {before m : MemoryState} {pd : Nat}

theorem place_pages_iff (reserved : Reserved before) (extension : Extends before m pd)
    (pages : List Page) : (placePages (pd * frameSize) pages m).1 = true ↔
      FramesFor (getFreeFrames m.pmm) (hasTable m pd) (pages.map Page.virtualAddr) := by
  unfold FramesFor
  rcases List.eq_nil_or_concat pages with rfl | ⟨init, last, rfl⟩
  · exact iff_of_true rfl (.inl rfl)
  rw [List.concat_eq_append, List.map_append, List.map_singleton, List.dropLast_concat,
    or_iff_right (List.append_ne_nil_of_right_ne_nil _ (List.cons_ne_nil _ _)), place_pages_append]
  obtain ⟨served, short⟩ := place_pages_budget reserved extension init
  have zeroUsed := Extends.zero_used reserved (place_pages_extends reserved extension init)
  have alone : ∀ after, (placePages (pd * frameSize) [last] after).1 =
      (placePage (pd * frameSize) last after).1 := by
    intro after
    unfold placePages placePages
    rcases placePage (pd * frameSize) last after with ⟨_ | _, _⟩ <;> rfl
  have ends : ∀ after, after.Used 0 → ((placePages (pd * frameSize) [last] after).1 = true ↔
      getFreeFrames after.pmm ≠ 0) := by
    intro after zero
    rw [alone, ← not_iff_not, not_not, ← exhausted_iff]
    rcases place_page_cases zero (pd * frameSize) last with ⟨f, _, bound, clear, _, run⟩ | ⟨full, run⟩
    · rw [run]
      exact iff_of_false (fun refused => refused rfl) fun full => clear (full f bound)
    · rw [run]
      exact iff_of_true Bool.false_ne_true full
  generalize placePages (pd * frameSize) init m = result at zeroUsed served short ⊢
  obtain ⟨placed, after⟩ := result
  dsimp only at zeroUsed served short ⊢
  by_cases enough : frameDemand (hasTable m pd) (init.map Page.virtualAddr) ≤ getFreeFrames m.pmm
  · obtain ⟨rfl, count⟩ := served enough
    have left := count []
    rw [List.append_nil, frame_demand_nil] at left
    refine (ends after zeroUsed).trans ?_
    omega
  · have none := exhausted_iff.1 (short (Nat.not_le.1 enough))
    refine iff_of_false (fun succeeds => ?_) fun less => enough (Nat.le_of_lt less)
    cases placed with
    | false => exact Bool.false_ne_true succeeds
    | true => exact (ends after zeroUsed).1 succeeds none

end Frames

section Loop

variable {elfData : Nat → UInt8} {elfSize pdPhysical phoff phentsize : Nat}

/-- The headers before number `n` are accepted. -/
def Accepted (elfData : Nat → UInt8) (elfSize phoff phentsize n : Nat) : Prop :=
  ∀ i, i < n → headerAccepted elfData elfSize (u32 (phoff + i * phentsize)) = true

/-- The loop comes to header `n`: it accepts those before, and their pages are placed. -/
def Reaches (elfData : Nat → UInt8) (elfSize pdPhysical phoff phentsize n : Nat)
    (m : MemoryState) : Prop :=
  Accepted elfData elfSize phoff phentsize n ∧
    (placePages pdPhysical (acceptedPages elfData elfSize phoff phentsize n 0) m).1 = true

theorem reaches_iff (n : Nat) (m : MemoryState) :
    Reaches elfData elfSize pdPhysical phoff phentsize n m ↔
      (loadSegments elfData elfSize pdPhysical phoff phentsize n 0 0 m).1.isSome = true := by
  rw [load_segments_success, Bool.and_eq_true, List.all_eq_true]
  unfold Reaches Accepted
  simp only [List.mem_range'_1, Nat.zero_le, Nat.zero_add, true_and]

theorem new_space_reaches_iff {m before : MemoryState} (booted : Booted m)
    (created : createAddressSpace m = (pdPhysical, before)) (made : pdPhysical ≠ 0) (n : Nat) :
    Reaches elfData elfSize pdPhysical phoff phentsize n before ↔
      Accepted elfData elfSize phoff phentsize n ∧
        FramesFor (getFreeFrames before.pmm) (spaceTables m)
          ((acceptedPages elfData elfSize phoff phentsize n 0).map Page.virtualAddr) := by
  have reserved := reserved_of_booted booted
  unfold Reaches
  rcases create_made reserved with ⟨pd, made', _, run, extension, tables⟩ | ⟨_, run⟩
  · obtain ⟨rfl, rfl⟩ := Prod.mk.inj (created.symm.trans run)
    rw [place_pages_iff reserved extension, tables]
  · exact absurd (Prod.mk.inj (created.symm.trans run)).1 made

theorem forall_header {P : Nat → Prop} {left : Nat} :
    (∀ n, n < left + 1 → P n) ↔ P 0 ∧ ∀ n, n < left → P (n + 1) := by
  constructor
  · exact fun all => ⟨all 0 (Nat.succ_pos _), fun n inside => all (n + 1) (Nat.succ_lt_succ inside)⟩
  · rintro ⟨first, later⟩ n inside
    cases n with
    | zero => exact first
    | succ n => exact later n (Nat.lt_of_succ_lt_succ inside)

theorem refused_header_safe (large : headerSize ≤ elfSize) {offset : Nat}
    (start : offset < 4294967296) (refused : elfSize < u32 (offset + programHeaderSize)) :
    HeaderSafe elfData elfSize offset := by
  intro wraps
  unfold EndWraps at wraps
  unfold headerSize at large
  unfold programHeaderSize u32 at *
  omega

/-- From any header on, the loop reads inside the image exactly when each header that it
reaches is safe. -/
theorem loop_reads_below_iff (word : elfSize < 4294967296) (large : headerSize ≤ elfSize)
    (left i highestEnd : Nat) (m : MemoryState) :
    (∀ x ∈ loopReads elfData elfSize pdPhysical phoff phentsize left i m, x < elfSize) ↔
      ∀ n, n < left →
        (loadSegments elfData elfSize pdPhysical phoff phentsize n i highestEnd m).1.isSome = true →
          HeaderSafe elfData elfSize (u32 (phoff + (i + n) * phentsize)) := by
  induction left generalizing i highestEnd m with
  | zero => simp [loopReads]
  | succ left ih =>
      have start : u32 (phoff + i * phentsize) < 4294967296 := Nat.mod_lt _ (by decide)
      have next : ∀ n, phoff + (i + (n + 1)) * phentsize = phoff + (i + 1 + n) * phentsize := by
        intro n
        rw [Nat.add_right_comm, Nat.add_assoc]
      rw [forall_header]
      simp only [next, Nat.add_zero, loopReads, loadSegments, Option.isSome_some, true_implies]
      by_cases refused : elfSize < u32 (u32 (phoff + i * phentsize) + programHeaderSize)
      · simp only [if_pos refused, Option.isSome_none]
        refine iff_of_true (by simp) ⟨refused_header_safe large start refused, ?_⟩
        exact fun _ _ impossible => absurd impossible Bool.false_ne_true
      have header : (∀ x ∈ headerReads elfData elfSize (u32 (phoff + i * phentsize)),
          x < elfSize) ↔ HeaderSafe elfData elfSize (u32 (phoff + i * phentsize)) :=
        header_reads_below_iff word start large refused
      simp only [if_neg refused, List.forall_mem_append, header]
      apply and_congr_right
      intro _
      by_cases other : (programHeader elfData (u32 (phoff + i * phentsize))).p_type ≠ ptLoad
      · simp only [if_pos other]
        exact ih _ _ _
      by_cases outside : (!segmentInFile elfSize
          (programHeader elfData (u32 (phoff + i * phentsize)))) = true
      · simp only [if_neg other, if_pos outside, Option.isSome_none]
        exact iff_of_true (by simp) fun _ _ impossible => absurd impossible Bool.false_ne_true
      simp only [if_neg other, if_neg outside, List.forall_mem_append]
      have copied : ∀ x ∈ segmentReads elfData elfSize pdPhysical
          (programHeader elfData (u32 (phoff + i * phentsize)))
          (List.range (numPages (programHeader elfData (u32 (phoff + i * phentsize))))) m,
            x < elfSize := segment_reads_below pdPhysical _ _ m
      rcases placePages pdPhysical (segmentPages elfData elfSize
        (programHeader elfData (u32 (phoff + i * phentsize)))) m with ⟨_ | _, after⟩
      · simp only [Option.isSome_none]
        exact iff_of_true ⟨copied, by simp⟩ fun _ _ impossible =>
          absurd impossible Bool.false_ne_true
      · exact ⟨fun both => (ih _ _ _).1 both.2, fun later => ⟨copied, (ih _ _ _).2 later⟩⟩

theorem reads_below_iff (elfData : Nat → UInt8) {elfSize : Nat} (word : elfSize < 4294967296)
    (pdPhysical : Nat) (m : MemoryState) :
    (∀ x ∈ imageReads elfData elfSize pdPhysical m, x < elfSize) ↔
      (validHeader elfData elfSize = true →
        ∀ n, n < load16 elfData 44 →
          Reaches elfData elfSize pdPhysical (load32 elfData 28) (load16 elfData 42) n m →
            HeaderSafe elfData elfSize (u32 (load32 elfData 28 + n * load16 elfData 42))) := by
  unfold imageReads
  by_cases short : elfSize < headerSize
  · have invalid : validHeader elfData elfSize = false := by
      have notLarge : ¬ headerSize ≤ elfSize := Nat.not_le.2 short
      simp [validHeader, notLarge]
    rw [if_pos short]
    refine iff_of_true nofun fun valid => ?_
    rw [invalid] at valid
    cases valid
  have large : headerSize ≤ elfSize := Nat.le_of_not_lt short
  have fixed : ∀ x ∈ identReads ++ tableReads, x < elfSize := by
    have below : ∀ x ∈ identReads ++ tableReads, x < headerSize := by decide
    exact fun x member => lt_of_lt_of_le (below x member) large
  rw [List.forall_mem_append] at fixed
  simp only [if_neg short, List.forall_mem_append]
  cases valid : validHeader elfData elfSize with
  | false =>
      refine iff_of_true ⟨fixed.1, nofun⟩ fun impossible => ?_
      cases impossible
  | true =>
      have loop : (∀ x ∈ loopReads elfData elfSize pdPhysical (load32 elfData 28)
          (load16 elfData 42) (load16 elfData 44) 0 m, x < elfSize) ↔ _ :=
        loop_reads_below_iff word large (load16 elfData 44) 0 0 m
      simp only [Nat.zero_add, ← reaches_iff] at loop
      simp only [Bool.not_true, Bool.false_eq_true, if_false, List.forall_mem_append, loop,
        true_implies]
      exact ⟨fun all => all.2.2, fun safe => ⟨fixed.1, fixed.2, safe⟩⟩

/-- The loader reads inside the image exactly when each program header that its loop reaches is
safe. In a new address space these are the headers behind accepted ones whose pages find frames. -/
theorem image_reads_below_iff (elfData : Nat → UInt8) {elfSize : Nat}
    (word : elfSize < 4294967296) :
    (∀ pdPhysical m, (∀ x ∈ imageReads elfData elfSize pdPhysical m, x < elfSize) ↔
      (validHeader elfData elfSize = true →
        ∀ n, n < load16 elfData 44 →
          Reaches elfData elfSize pdPhysical (load32 elfData 28) (load16 elfData 42) n m →
            HeaderSafe elfData elfSize (u32 (load32 elfData 28 + n * load16 elfData 42)))) ∧
    ∀ m pdPhysical before, Booted m → createAddressSpace m = (pdPhysical, before) →
      pdPhysical ≠ 0 → ((∀ x ∈ imageReads elfData elfSize pdPhysical before, x < elfSize) ↔
        (validHeader elfData elfSize = true → ∀ n, n < load16 elfData 44 →
          Accepted elfData elfSize (load32 elfData 28) (load16 elfData 42) n →
          FramesFor (getFreeFrames before.pmm) (spaceTables m) ((acceptedPages elfData elfSize
            (load32 elfData 28) (load16 elfData 42) n 0).map Page.virtualAddr) →
          HeaderSafe elfData elfSize (u32 (load32 elfData 28 + n * load16 elfData 42)))) := by
  refine ⟨fun pdPhysical m => reads_below_iff elfData word pdPhysical m, ?_⟩
  intro m pdPhysical before booted created made
  rw [reads_below_iff elfData word]
  simp only [new_space_reaches_iff booted created made, and_imp]

/-- A header and nothing else; the one program header starts 32 bytes below 4 GiB. -/
def wrappingImage : Nat → UInt8
  | 28 => 0xE0
  | 29 => 0xFF
  | 30 => 0xFF
  | 31 => 0xFF
  | i => onePageImage 0x08 i

theorem one_page_read_inside : ∃ before,
    createAddressSpace smallMachine = (256 * frameSize, before) ∧
      ∀ x ∈ imageReads (onePageImage 0x08) 84 (256 * frameSize) before, x < 84 := by
  obtain ⟨before, created, _, _⟩ := create_on_small_machine
  have word : 84 < 4294967296 := by decide
  refine ⟨before, created, ((image_reads_below_iff (onePageImage 0x08) word).2 smallMachine _ before
    booted_small_machine created (by decide)).2 ?_⟩
  intro _ n inside _ _ wraps
  obtain rfl : n = 0 := Nat.lt_one_iff.1 inside
  exact absurd wraps (Nat.not_le.2 (by decide))

theorem wrapping_image_read_outside :
    ¬ ∀ x ∈ imageReads wrappingImage 52 (256 * frameSize) smallMachine, x < 52 := by
  intro inside
  have outside : 0xFFFFFFE0 ∈ imageReads wrappingImage 52 (256 * frameSize) smallMachine := by
    decide +kernel
  exact absurd (inside _ outside) (by decide)

end Loop

section Locality

structure SameWords (m m' : MemoryState) : Prop where
  pmm : m'.pmm = m.pmm
  words : ∀ f j, j < 1024 → m'.words f j = m.words f j

variable {m m' : MemoryState}

theorem same_words_refl (m : MemoryState) : SameWords m m := ⟨rfl, fun _ _ _ => rfl⟩

theorem same_words_set (same : SameWords m m') (frame index value : Nat) :
    SameWords (m.setWord frame index value) (m'.setWord frame index value) := by
  constructor
  · exact same.pmm
  · intro f j inside
    simp only [MemoryState.words_set_word, same.words f j inside]

theorem same_words_fill (same : SameWords m m') (frame : Nat) {content content' : Nat → Nat}
    (equal : ∀ j, j < 1024 → content' j = content j) :
    SameWords (m.fillFrame frame content) (m'.fillFrame frame content') := by
  constructor
  · exact same.pmm
  · intro f j inside
    simp only [MemoryState.words_fill_frame, same.words f j inside, equal j inside]

theorem same_words_take (same : SameWords m m') :
    (takeFrame m').1 = (takeFrame m).1 ∧ SameWords (takeFrame m).2 (takeFrame m').2 := by
  unfold takeFrame
  rw [same.pmm]
  exact ⟨rfl, rfl, same.words⟩

theorem same_words_ensure (same : SameWords m m') (pd : Nat) {pdIndex : Nat}
    (inside : pdIndex < 1024) :
    (ensureTable pd pdIndex m').1 = (ensureTable pd pdIndex m).1 ∧
      SameWords (ensureTable pd pdIndex m).2 (ensureTable pd pdIndex m').2 := by
  obtain ⟨frame, after⟩ := same_words_take same
  unfold ensureTable
  rw [same.words pd pdIndex inside]
  by_cases table : present (m.words pd pdIndex) = true
  · simp only [if_pos table]
    exact ⟨trivial, same⟩
  · simp only [if_neg table, frame]
    by_cases none : (takeFrame m).1 = 0
    · simp only [if_pos none]
      exact ⟨trivial, after⟩
    · simp only [if_neg none]
      exact ⟨trivial, same_words_set (same_words_fill after _ fun _ _ => rfl) _ _ _⟩

theorem same_words_map (same : SameWords m m') (pdPhysical physicalAddr flags : Nat)
    {virtualAddr : Nat} (word : virtualAddr < 4294967296) :
    SameWords (mapUserPage pdPhysical virtualAddr physicalAddr flags m)
      (mapUserPage pdPhysical virtualAddr physicalAddr flags m') := by
  have inside : virtualAddr / tableSpan < 1024 := by
    unfold tableSpan
    omega
  obtain ⟨ok, after⟩ := same_words_ensure same (pdPhysical / frameSize) inside
  unfold mapUserPage
  dsimp only
  rw [ok]
  by_cases mapped : (ensureTable (pdPhysical / frameSize) (virtualAddr / tableSpan) m).1 = true
  · simp only [if_pos mapped, after.words _ _ inside]
    exact same_words_set after _ _ _
  · simp only [if_neg mapped]
    exact after

theorem same_words_place (same : SameWords m m') (pdPhysical : Nat) (page page' : Page)
    (address : page'.virtualAddr = page.virtualAddr) (word : page.virtualAddr < 4294967296)
    (equal : (placePage pdPhysical page m).1 = true →
      ∀ j, j < 1024 → page'.content j = page.content j) :
    (placePage pdPhysical page' m').1 = (placePage pdPhysical page m).1 ∧
      SameWords (placePage pdPhysical page m).2 (placePage pdPhysical page' m').2 := by
  obtain ⟨frame, after⟩ := same_words_take same
  unfold placePage
  rw [address]
  simp only [frame]
  by_cases none : (takeFrame m).1 = 0
  · simp only [if_pos none]
    exact ⟨trivial, after⟩
  · simp only [if_neg none]
    refine ⟨trivial, same_words_fill (same_words_map after _ _ _ word) _ (equal ?_)⟩
    simp only [placePage, if_neg none]

section Image

variable {elfData elfData' : Nat → UInt8} {elfSize pdPhysical : Nat}

theorem load32_congr {x : Nat} (low : elfData' x = elfData x)
    (second : elfData' (x + 1) = elfData (x + 1)) (third : elfData' (x + 2) = elfData (x + 2))
    (high : elfData' (x + 3) = elfData (x + 3)) : load32 elfData' x = load32 elfData x := by
  unfold load32 load16
  rw [low, second, third, high]

theorem field_congr {offset k : Nat} (same : ∀ x ∈ field offset k, elfData' x = elfData x) :
    load32 (fun i => elfData' (u32 i)) (offset + k) =
      load32 (fun i => elfData (u32 i)) (offset + k) := by
  simp only [field, List.mem_cons, List.not_mem_nil, or_false, forall_eq_or_imp, forall_eq] at same
  exact load32_congr same.1 same.2.1 same.2.2.1 same.2.2.2

theorem page_byte_congr {ph : ProgramHeader} {p b : Nat} (inside : b < frameSize)
    (same : ∀ x ∈ pageReads elfSize ph p, elfData' x = elfData x) :
    pageByte elfData' elfSize ph p b = pageByte elfData elfSize ph p b := by
  unfold pageByte
  dsimp only
  split
  · next inFile =>
    apply same
    exact List.mem_filterMap.2 ⟨b, List.mem_range.2 inside, if_pos inFile⟩
  · rfl

theorem segment_page_congr {ph : ProgramHeader} {p : Nat}
    (same : ∀ x ∈ pageReads elfSize ph p, elfData' x = elfData x) :
    ∀ j, j < 1024 → (segmentPage elfData' elfSize ph p).content j =
      (segmentPage elfData elfSize ph p).content j := by
  intro j inside
  have bytes : ∀ k, k < 4 → pageByte elfData' elfSize ph p (4 * j + k) =
      pageByte elfData elfSize ph p (4 * j + k) := by
    intro k small
    apply page_byte_congr _ same
    unfold frameSize
    omega
  exact load32_congr (bytes 0 (by decide)) (bytes 1 (by decide)) (bytes 2 (by decide))
    (bytes 3 (by decide))

theorem same_words_segment {ph : ProgramHeader} (pages : List Nat) (same : SameWords m m')
    (agree : ∀ x ∈ segmentReads elfData elfSize pdPhysical ph pages m, elfData' x = elfData x) :
    (placePages pdPhysical (pages.map (segmentPage elfData' elfSize ph)) m').1 =
        (placePages pdPhysical (pages.map (segmentPage elfData elfSize ph)) m).1 ∧
      SameWords (placePages pdPhysical (pages.map (segmentPage elfData elfSize ph)) m).2
        (placePages pdPhysical (pages.map (segmentPage elfData' elfSize ph)) m').2 := by
  induction pages generalizing m m' with
  | nil => exact ⟨rfl, same⟩
  | cons p rest ih =>
      unfold segmentReads at agree
      have word : (segmentPage elfData elfSize ph p).virtualAddr < 4294967296 :=
        Nat.mod_lt _ (by decide)
      have placed := same_words_place same pdPhysical
        (segmentPage elfData elfSize ph p) (segmentPage elfData' elfSize ph p) rfl word
      simp only [List.map_cons, placePages]
      rcases first : placePage pdPhysical (segmentPage elfData elfSize ph p) m with ⟨_ | _, after⟩
      · rw [first] at placed
        obtain ⟨flag, words⟩ := placed fun impossible => absurd impossible Bool.false_ne_true
        rcases second : placePage pdPhysical (segmentPage elfData' elfSize ph p) m' with ⟨ok, after'⟩
        rw [second] at flag words
        cases flag
        exact ⟨rfl, words⟩
      · rw [first] at placed agree
        dsimp only at agree
        rw [List.forall_mem_append] at agree
        obtain ⟨flag, words⟩ := placed fun _ => segment_page_congr agree.1
        rcases second : placePage pdPhysical (segmentPage elfData' elfSize ph p) m' with ⟨ok, after'⟩
        rw [second] at flag words
        cases flag
        exact ih words agree.2

theorem header_congr {offset : Nat}
    (agree : ∀ x ∈ headerReads elfData elfSize offset, elfData' x = elfData x) :
    (programHeader elfData' offset).p_type = (programHeader elfData offset).p_type ∧
      ((programHeader elfData offset).p_type = ptLoad →
        segmentInFile elfSize (programHeader elfData' offset) =
            segmentInFile elfSize (programHeader elfData offset) ∧
          (segmentInFile elfSize (programHeader elfData offset) = true →
            programHeader elfData' offset = programHeader elfData offset)) := by
  have fields : ∀ k ∈ fieldsRead elfSize (programHeader elfData offset),
      load32 (fun i => elfData' (u32 i)) (offset + k) =
        load32 (fun i => elfData (u32 i)) (offset + k) := fun k member =>
    field_congr fun x byte => agree x (List.mem_flatMap.2 ⟨k, member, byte⟩)
  unfold fieldsRead at fields
  have type : (programHeader elfData' offset).p_type = (programHeader elfData offset).p_type := by
    apply fields 0
    split_ifs <;> exact List.mem_cons_self
  refine ⟨type, ?_⟩
  intro load
  rw [if_neg (not_not.2 load)] at fields
  by_cases far : elfSize < (programHeader elfData offset).p_offset
  · rw [if_pos far] at fields
    have place : (programHeader elfData' offset).p_offset = (programHeader elfData offset).p_offset :=
      fields 4 (by decide)
    have refused : segmentInFile elfSize (programHeader elfData offset) = false := by
      simp [segmentInFile, far]
    rw [refused]
    refine ⟨?_, fun impossible => absurd impossible Bool.false_ne_true⟩
    unfold segmentInFile
    rw [place]
    simp [far]
  · rw [if_neg far] at fields
    have place : (programHeader elfData' offset).p_offset = (programHeader elfData offset).p_offset := by
      apply fields 4
      split_ifs <;> decide
    have bytes : (programHeader elfData' offset).p_filesz = (programHeader elfData offset).p_filesz := by
      apply fields 16
      split_ifs <;> decide
    refine ⟨by unfold segmentInFile; rw [place, bytes], ?_⟩
    intro inFile
    rw [inFile] at fields
    have address : (programHeader elfData' offset).p_vaddr = (programHeader elfData offset).p_vaddr :=
      fields 8 (by decide)
    have memory : (programHeader elfData' offset).p_memsz = (programHeader elfData offset).p_memsz :=
      fields 20 (by decide)
    exact (ProgramHeader.mk.injEq _ _ _ _ _ _ _ _ _ _).mpr ⟨type, place, address, bytes, memory⟩

theorem same_words_loop {phoff phentsize : Nat} (left i highestEnd : Nat) (same : SameWords m m')
    (agree : ∀ x ∈ loopReads elfData elfSize pdPhysical phoff phentsize left i m,
      elfData' x = elfData x) :
    (loadSegments elfData' elfSize pdPhysical phoff phentsize left i highestEnd m').1 =
        (loadSegments elfData elfSize pdPhysical phoff phentsize left i highestEnd m).1 ∧
      SameWords (loadSegments elfData elfSize pdPhysical phoff phentsize left i highestEnd m).2
        (loadSegments elfData' elfSize pdPhysical phoff phentsize left i highestEnd m').2 := by
  induction left generalizing i highestEnd m m' with
  | zero => exact ⟨rfl, same⟩
  | succ left ih =>
      simp only [loopReads] at agree
      simp only [loadSegments]
      by_cases refused : elfSize < u32 (u32 (phoff + i * phentsize) + programHeaderSize)
      · simp only [if_pos refused]
        exact ⟨trivial, same⟩
      simp only [if_neg refused, List.forall_mem_append] at agree ⊢
      obtain ⟨header, behind⟩ := agree
      obtain ⟨type, load⟩ := header_congr header
      rw [type]
      by_cases other : (programHeader elfData (u32 (phoff + i * phentsize))).p_type ≠ ptLoad
      · simp only [if_pos other] at behind ⊢
        exact ih _ _ same behind
      obtain ⟨check, fields⟩ := load (not_not.1 other)
      rw [check]
      by_cases outside : (!segmentInFile elfSize
          (programHeader elfData (u32 (phoff + i * phentsize)))) = true
      · simp only [if_neg other, if_pos outside]
        exact ⟨trivial, same⟩
      have inFile : segmentInFile elfSize
          (programHeader elfData (u32 (phoff + i * phentsize))) = true := by simpa using outside
      simp only [if_neg other, if_neg outside, List.forall_mem_append] at behind ⊢
      rw [fields inFile]
      have placed := same_words_segment _ same behind.1
      have later := behind.2
      unfold segmentPages at later ⊢
      rcases first : placePages pdPhysical ((List.range (numPages (programHeader elfData
        (u32 (phoff + i * phentsize))))).map (segmentPage elfData elfSize (programHeader elfData
          (u32 (phoff + i * phentsize))))) m with ⟨ok, after⟩
      rcases second : placePages pdPhysical ((List.range (numPages (programHeader elfData
        (u32 (phoff + i * phentsize))))).map (segmentPage elfData' elfSize (programHeader elfData
          (u32 (phoff + i * phentsize))))) m' with ⟨ok', after'⟩
      rw [first] at placed later
      rw [second] at placed
      obtain ⟨flag, words⟩ := placed
      cases flag
      cases ok with
      | false => exact ⟨rfl, words⟩
      | true => exact ih _ _ words later

/-- Images that agree on the bytes read are loaded with the same result, into the same
frames with the same words: the list leaves no byte out. -/
theorem load_determined_by_reads {m : MemoryState}
    (agree : ∀ x ∈ imageReads elfData elfSize pdPhysical m, elfData' x = elfData x) :
    (load elfData' elfSize pdPhysical m).1 = (load elfData elfSize pdPhysical m).1 ∧
      SameWords (load elfData elfSize pdPhysical m).2 (load elfData' elfSize pdPhysical m).2 := by
  unfold imageReads at agree
  by_cases short : elfSize < headerSize
  · have invalid : ∀ data : Nat → UInt8, validHeader data elfSize = false := by
      intro data
      have notLarge : ¬ headerSize ≤ elfSize := Nat.not_le.2 short
      simp [validHeader, notLarge]
    simp only [load, invalid, Bool.not_false, if_true]
    exact ⟨trivial, same_words_refl m⟩
  rw [if_neg short, List.forall_mem_append] at agree
  obtain ⟨ident, behind⟩ := agree
  simp only [identReads, List.mem_cons, List.not_mem_nil, or_false, forall_eq_or_imp,
    forall_eq] at ident
  have checked : validHeader elfData' elfSize = validHeader elfData elfSize := by
    simp only [validHeader, load16, ident]
  unfold load
  rw [checked]
  by_cases invalid : (!validHeader elfData elfSize) = true
  · simp only [if_pos invalid]
    exact ⟨trivial, same_words_refl m⟩
  simp only [if_neg invalid, List.forall_mem_append] at behind ⊢
  obtain ⟨table, loop⟩ := behind
  simp only [tableReads, List.mem_cons, List.not_mem_nil, or_false, forall_eq_or_imp,
    forall_eq] at table
  have phoff : load32 elfData' 28 = load32 elfData 28 := by simp only [load32, load16, table]
  have phentsize : load16 elfData' 42 = load16 elfData 42 := by simp only [load16, table]
  have phnum : load16 elfData' 44 = load16 elfData 44 := by simp only [load16, table]
  have entry : load32 elfData' 24 = load32 elfData 24 := by simp only [load32, load16, table]
  rw [phoff, phentsize, phnum, entry]
  have segments := same_words_loop (load16 elfData 44) 0 0 (same_words_refl m) loop
  rcases first : loadSegments elfData elfSize pdPhysical (load32 elfData 28) (load16 elfData 42)
    (load16 elfData 44) 0 0 m with ⟨result, after⟩
  rcases second : loadSegments elfData' elfSize pdPhysical (load32 elfData 28) (load16 elfData 42)
    (load16 elfData 44) 0 0 m with ⟨result', after'⟩
  rw [first, second] at segments
  obtain ⟨equal, words⟩ := segments
  cases equal
  cases result with
  | none => exact ⟨rfl, words⟩
  | some highestEnd => exact ⟨rfl, words⟩

end Image

end Locality

end CassiOS.Kernel.ImageReads
