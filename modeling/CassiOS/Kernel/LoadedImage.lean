import CassiOS.Kernel.LoaderSafety
import CassiOS.Kernel.ProcessMemory
import CassiOS.Memory.UserSpace
import CassiOS.Support.LastWins

/-!
# The image in memory

The loader gives each page of a segment a new frame and counts the segment's bytes from the
start of its first page. A byte of the file ends up where the file wants it if the segment
starts on a page boundary and no later segment has the same page.
-/

namespace CassiOS.Kernel.LoadedImage

open CassiOS.Support.Words
open CassiOS.Support.LastWins
open CassiOS.Memory.Physical
open CassiOS.Memory.Paging
open CassiOS.Memory.Ownership
open CassiOS.Memory.Owned
open CassiOS.Memory.UserSpace
open CassiOS.Kernel.ElfLoader
open CassiOS.Kernel.ProcessMemory
open CassiOS.Kernel.LoaderSafety

set_option autoImplicit false

section Specification

variable (elfData : Nat → UInt8) (elfSize : Nat)

def headers : List ProgramHeader :=
  (List.range (load16 elfData 44)).map fun i =>
    programHeader elfData (u32 (load32 elfData 28 + i * load16 elfData 42))

/-- The `PT_LOAD` segments of a file. -/
def segments : List ProgramHeader := (headers elfData).filter fun ph => ph.p_type = ptLoad

/-- Byte `i` of a segment: from the file, or zero behind `p_filesz`. -/
def segmentByte (ph : ProgramHeader) (i : Nat) : UInt8 :=
  if i < ph.p_filesz then elfData (ph.p_offset + i) else 0

/-- Byte `k` of a little-endian word. -/
def wordByte (word k : Nat) : UInt8 := UInt8.ofNat (word / 256 ^ k)

/-- What a user program reads at an address, if it may. -/
def userByte (m : MemoryState) (pd a : Nat) : Option UInt8 :=
  let entry := translation m (m.words pd) a
  if m.words pd (a / tableSpan) % 8 = 7 ∧ entry % 8 = 7 then
    some (wordByte (m.words (frameOf entry) (a % frameSize / 4)) (a % 4))
  else none

/-- The new address space holds the image that the file describes. -/
structure ImageLoaded (result : ElfLoadResult) (after : MemoryState) (pd : Nat) : Prop where
  bytes : ∀ ph ∈ segments elfData, ∀ i, i < ph.p_filesz →
    userByte after pd (ph.p_vaddr + i) = some (elfData (ph.p_offset + i))
  zeros : ∀ ph ∈ segments elfData, ∀ i, ph.p_filesz ≤ i → i < ph.p_memsz →
    userByte after pd (ph.p_vaddr + i) = some 0
  aligned : result.heapStart % frameSize = 0
  behind : ∀ ph ∈ segments elfData, ph.p_vaddr + ph.p_memsz ≤ result.heapStart

/-- Segment `ph` has a page over address `a`. -/
def Covers (a : Nat) (ph : ProgramHeader) : Prop :=
  ph.p_vaddr / frameSize ≤ a / frameSize ∧ a / frameSize < ph.p_vaddr / frameSize + numPages ph

/-- Each byte of a segment comes last from a segment whose byte there, counted from the start
of its first page, is the same. -/
def Undisturbed : Prop :=
  ∀ ph ∈ segments elfData, ∀ i, i < max ph.p_filesz ph.p_memsz →
    ∃ last, LastOf (Covers (ph.p_vaddr + i)) (segments elfData) last ∧
      segmentByte elfData last (ph.p_vaddr + i - last.p_vaddr / frameSize * frameSize) =
        segmentByte elfData ph i

end Specification

section Placing

variable {m : MemoryState} {pd : Nat}

/-- The page at `a` lies in a frame with the given words. -/
def Shows (m : MemoryState) (pd a : Nat) (content : Nat → Nat) : Prop :=
  ∃ frame, 0 < frame ∧ Plain m pd frame ∧
    pageEntry m pd a = makeEntry (frame * frameSize) userFlags ∧ m.words frame = content

/-- What placing pages does to the user half of the address space. -/
structure Image (before after : MemoryState) (pd : Nat) (pages : List Page) : Prop where
  space : Space after pd
  kernel : ∀ i, userEntries ≤ i → after.words pd i = before.words pd i
  data : ∀ f, Plain before pd f → Plain after pd f ∧ after.words f = before.words f
  shown : ∀ a page, a / tableSpan < userEntries →
    LastOf (fun p : Page => p.virtualAddr / frameSize = a / frameSize) pages page →
    Shows after pd a page.content
  others : ∀ a, a / tableSpan < userEntries →
    (∀ page ∈ pages, page.virtualAddr / frameSize ≠ a / frameSize) →
    pageEntry after pd a = pageEntry before pd a

theorem image_nil (space : Space m pd) : Image m m pd [] where
  space := space
  kernel := fun _ _ => rfl
  data := fun _ plain => ⟨plain, rfl⟩
  shown := fun _ _ _ last => absurd last not_last_of_nil
  others := fun _ _ _ => rfl

theorem image_cons {next after : MemoryState} {page : Page} {rest : List Page} {frame : Nat}
    (positive : 0 < frame) (clear : ¬ m.Used frame) (head : Mapped m next pd page.virtualAddr frame)
    (tail : Image (next.fillFrame frame page.content) after pd rest) :
    Image m after pd (page :: rest) := by
  have entries : ∀ a, a / tableSpan < userEntries →
      (∀ p ∈ rest, p.virtualAddr / frameSize ≠ a / frameSize) →
      pageEntry after pd a = pageEntry next pd a := by
    intro a user none
    rw [tail.others a user none, entry_fill head.plain page.content user]
  have filled := plain_fill head.plain page.content head.plain
  constructor
  · exact tail.space
  · intro i high
    rw [tail.kernel i high, fill_directory head.plain, head.kernel i high]
  · intro f plain
    obtain ⟨mapped, same⟩ := head.data f plain
    obtain ⟨final, kept⟩ := tail.data f (plain_fill head.plain page.content mapped)
    refine ⟨final, ?_⟩
    rw [kept, ← same]
    funext j
    rw [MemoryState.words_fill_frame, if_neg]
    intro same
    exact clear (same ▸ plain.used)
  · intro a last user found
    rcases last_of_cons.1 found with later | ⟨rfl, here, none⟩
    · exact tail.shown a last user later
    · obtain ⟨final, kept⟩ := tail.data frame filled
      refine ⟨frame, positive, final, ?_, ?_⟩
      · rw [entries a user none, ← page_entry_congr here, head.entry]
      · rw [kept]
        funext j
        rw [MemoryState.words_fill_frame, if_pos rfl]
  · intro a user none
    rw [entries a user fun p later => none p (List.mem_cons_of_mem _ later),
      head.others a user (none page List.mem_cons_self).symm]

theorem place_pages_image (space : Space m pd) (pages : List Page)
    (user : ∀ page ∈ pages, page.virtualAddr / tableSpan < userEntries)
    (enough : frameDemand (hasTable m pd) (pages.map Page.virtualAddr) ≤ getFreeFrames m.pmm) :
    ∃ after, placePages (pd * frameSize) pages m = (true, after) ∧ Image m after pd pages := by
  induction pages generalizing m with
  | nil => exact ⟨m, rfl, image_nil space⟩
  | cons page rest ih =>
      have pageUser := user page List.mem_cons_self
      rw [List.map_cons] at enough
      have some : ¬ Exhausted m := by
        intro full
        have none := exhausted_iff.1 full
        unfold frameDemand at enough
        rw [List.length_cons] at enough
        omega
      rcases place_page_cases space.zero (pd * frameSize) page with
        ⟨frame, positive, bound, clear, _, run⟩ | ⟨full, _⟩
      · have marked := space_mark space bound
        have outcome := map_user_page_outcome marked.zero pd page.virtualAddr (frame * frameSize)
          userFlags
        rcases map_new_page space pageUser bound clear outcome with head | ⟨absent, last, _⟩
        · have budget := head.demand (rest.map Page.virtualAddr)
          have filled := space_fill head.space head.plain page.content
          have tables : hasTable (MemoryState.fillFrame (mapUserPage (pd * frameSize)
              page.virtualAddr (frame * frameSize) userFlags (m.mark frame)) frame page.content) pd =
                hasTable (mapUserPage (pd * frameSize) page.virtualAddr (frame * frameSize)
                  userFlags (m.mark frame)) pd := by
            funext i
            unfold hasTable
            rw [fill_directory head.plain]
          obtain ⟨after, done, tail⟩ := ih filled
            (fun p member => user p (List.mem_cons_of_mem _ member)) (by
              rw [tables, MemoryState.pmm_fill_frame]
              omega)
          refine ⟨after, ?_, image_cons positive clear head tail⟩
          unfold placePages
          rw [run]
          exact done
        · unfold frameDemand at enough
          rw [missing_tables_added absent, List.length_cons] at enough
          omega
      · exact absurd full some

end Placing

section Reading

variable {m : MemoryState} {pd : Nat}

theorem word_byte_load (bytes : Nat → UInt8) (a k : Nat) (inside : k < 4) :
    wordByte (load32 bytes a) k = bytes (a + k) := by
  have first := (bytes a).toNat_lt
  have second := (bytes (a + 1)).toNat_lt
  have third := (bytes (a + 2)).toNat_lt
  have fourth := (bytes (a + 2 + 1)).toNat_lt
  unfold wordByte load32 load16
  apply UInt8.toNat_inj.1
  rw [UInt8.toNat_ofNat']
  rcases (by omega : k = 0 ∨ k = 1 ∨ k = 2 ∨ k = 3) with rfl | rfl | rfl | rfl
  · simp only [pow_zero, Nat.add_zero]
    omega
  · simp only [pow_one]
    omega
  · simp only [Nat.reducePow]
    omega
  · simp only [Nat.reducePow]
    rw [show a + 3 = a + 2 + 1 from rfl]
    omega

theorem user_byte_shown (space : Space m pd) {a : Nat} (user : a / tableSpan < userEntries)
    {bytes : Nat → UInt8} (shows : Shows m pd a fun j => load32 bytes (4 * j)) :
    userByte m pd a = some (bytes (a % frameSize)) := by
  obtain ⟨frame, positive, _, entry, words⟩ := shows
  have reached : translation m (m.words pd) a = makeEntry (frame * frameSize) userFlags := entry
  have table := table_of_user_entry (entry ▸ make_entry_user (frame * frameSize))
  have inside : a % 4 < 4 := Nat.mod_lt _ (by decide)
  have split : 4 * (a % frameSize / 4) + a % 4 = a % frameSize := by
    unfold frameSize
    omega
  unfold userByte
  dsimp only
  rw [reached, if_pos ⟨space.flags _ user table, make_entry_user _⟩, frame_of_make_entry,
    (frame_address positive).2, words, word_byte_load _ _ _ inside, split]

theorem user_byte_unmapped {a : Nat} (empty : pageEntry m pd a = 0) : userByte m pd a = none := by
  have zero : translation m (m.words pd) a = 0 := empty
  unfold userByte
  dsimp only
  rw [zero, if_neg fun flags => absurd flags.2 (by decide)]

end Reading

section Files

/-- What a header loop that accepts all headers knows about them. -/
structure Accepted (elfSize : Nat) (segs : List ProgramHeader) (highestEnd top : Nat) : Prop where
  inFile : ∀ ph ∈ segs, segmentInFile elfSize ph = true
  start : highestEnd ≤ top
  ends : ∀ ph ∈ segs, u32 (ph.p_vaddr + ph.p_memsz) ≤ top
  attained : top = highestEnd ∨ ∃ ph ∈ segs, top = u32 (ph.p_vaddr + ph.p_memsz)

variable {elfData : Nat → UInt8} {elfSize : Nat}

theorem load_segments_accepted (pdPhysical phoff phentsize : Nat) (left i highestEnd : Nat)
    (m : MemoryState) {top : Nat}
    (done : (loadSegments elfData elfSize pdPhysical phoff phentsize left i highestEnd m).1 =
      some top) :
    let segs := ((List.range' i left).map fun i =>
      programHeader elfData (u32 (phoff + i * phentsize))).filter fun ph => ph.p_type = ptLoad
    acceptedPages elfData elfSize phoff phentsize left i =
        segs.flatMap (segmentPages elfData elfSize) ∧
      Accepted elfSize segs highestEnd top := by
  induction left generalizing i highestEnd m with
  | zero =>
      refine ⟨rfl, ?_, ?_, ?_, ?_⟩
      · exact fun _ member => absurd member List.not_mem_nil
      · exact (Option.some.inj done).le
      · exact fun _ member => absurd member List.not_mem_nil
      · exact .inl (Option.some.inj done).symm
  | succ left ih =>
      unfold loadSegments at done
      dsimp only at done ⊢
      rw [List.range'_succ, List.map_cons]
      unfold acceptedPages
      dsimp only
      split at done
      · simp at done
      · next inside =>
        rw [if_neg inside]
        split at done
        · next other =>
          rw [if_pos other, List.filter_cons_of_neg (by simpa using other)]
          exact ih (i + 1) highestEnd m done
        · next load =>
          rw [not_not] at load
          rw [if_neg (not_not.2 load), List.filter_cons_of_pos (by simpa using load)]
          split at done
          · simp at done
          · next file =>
            rw [if_neg file, List.flatMap_cons]
            rw [Bool.not_eq_true, Bool.not_eq_false'] at file
            split at done
            · simp at done
            · next after _ =>
              obtain ⟨pages, rest⟩ := ih (i + 1) _ after done
              refine ⟨by rw [pages], ?_, ?_, ?_, ?_⟩
              · intro ph member
                rcases List.mem_cons.1 member with rfl | later
                · exact file
                · exact rest.inFile ph later
              · have start := rest.start
                split at start <;> omega
              · intro ph member
                rcases List.mem_cons.1 member with rfl | later
                · have start := rest.start
                  split at start <;> omega
                · exact rest.ends ph later
              · rcases rest.attained with same | ⟨ph, member, same⟩
                · split at same
                  · exact .inr ⟨_, List.mem_cons_self, same⟩
                  · exact .inl same
                · exact .inr ⟨ph, List.mem_cons_of_mem _ member, same⟩

/-- A file that is loaded: its pages are those of its segments, and `heapStart` follows the
last of them. -/
theorem load_accepted (pdPhysical : Nat) (m : MemoryState)
    (success : (load elfData elfSize pdPhysical m).1.success = true) :
    elfPages elfData elfSize = (segments elfData).flatMap (segmentPages elfData elfSize) ∧
      ∃ top, Accepted elfSize (segments elfData) 0 top ∧
        (load elfData elfSize pdPhysical m).1.heapStart =
          u32 (top + (frameSize - 1)) / frameSize * frameSize := by
  unfold load at success ⊢
  unfold elfPages
  split at success
  · exact absurd success Bool.false_ne_true
  · next valid =>
    rw [if_neg valid, if_neg valid]
    dsimp only at success ⊢
    rcases run : loadSegments elfData elfSize pdPhysical (load32 elfData 28) (load16 elfData 42)
      (load16 elfData 44) 0 0 m with ⟨_ | top, after⟩
    · rw [run] at success
      exact absurd success Bool.false_ne_true
    · have accepted := load_segments_accepted pdPhysical (load32 elfData 28) (load16 elfData 42)
        (load16 elfData 44) 0 0 m (congrArg Prod.fst run)
      rw [← List.range_eq_range'] at accepted
      exact ⟨accepted.1, top, accepted.2, rfl⟩

theorem segment_fields {ph : ProgramHeader} (member : ph ∈ segments elfData) :
    ph.p_offset < 4294967296 ∧ ph.p_vaddr < 4294967296 ∧ ph.p_filesz < 4294967296 ∧
      ph.p_memsz < 4294967296 := by
  obtain ⟨i, _, rfl⟩ := List.mem_map.1 (List.mem_filter.1 member).1
  exact ⟨load32_lt _ _, load32_lt _ _, load32_lt _ _, load32_lt _ _⟩

end Files

section Segments

variable {elfData : Nat → UInt8} {elfSize : Nat} {ph : ProgramHeader}

theorem num_pages_eq (range : ph.p_vaddr + ph.p_memsz ≤ userStackPage) :
    numPages ph = (ph.p_memsz + (frameSize - 1)) / frameSize := by
  unfold userStackPage at range
  unfold numPages
  rw [u32_of_lt (by unfold frameSize; omega)]

theorem segment_page_address (range : ph.p_vaddr + ph.p_memsz ≤ userStackPage) {p : Nat}
    (inside : p < numPages ph) :
    (segmentPage elfData elfSize ph p).virtualAddr = (ph.p_vaddr / frameSize + p) * frameSize ∧
      (ph.p_vaddr / frameSize + p) * frameSize < kernelVbase := by
  rw [num_pages_eq range] at inside
  unfold userStackPage at range
  unfold segmentPage kernelVbase u32
  dsimp only
  unfold frameSize at *
  omega

theorem segment_pages_cover (range : ph.p_vaddr + ph.p_memsz ≤ userStackPage) (a : Nat) :
    (∃ page ∈ segmentPages elfData elfSize ph, page.virtualAddr / frameSize = a / frameSize) ↔
      Covers a ph := by
  unfold Covers
  constructor
  · intro found
    obtain ⟨page, member, same⟩ := found
    obtain ⟨p, inside, rfl⟩ := List.mem_map.1 member
    have few := List.mem_range.1 inside
    rw [(segment_page_address range few).1] at same
    unfold frameSize at *
    omega
  · rintro ⟨low, high⟩
    have few : a / frameSize - ph.p_vaddr / frameSize < numPages ph := by omega
    refine ⟨_, List.mem_map_of_mem (List.mem_range.2 few), ?_⟩
    rw [(segment_page_address range few).1]
    unfold frameSize at *
    omega

theorem segment_page_last (range : ph.p_vaddr + ph.p_memsz ≤ userStackPage) {a : Nat}
    (covers : Covers a ph) :
    LastOf (fun page : Page => page.virtualAddr / frameSize = a / frameSize)
      (segmentPages elfData elfSize ph)
      (segmentPage elfData elfSize ph (a / frameSize - ph.p_vaddr / frameSize)) := by
  obtain ⟨page, member, same⟩ := (@segment_pages_cover elfData elfSize ph range a).2 covers
  obtain ⟨last, found⟩ := last_of_exists (p := fun page : Page =>
    page.virtualAddr / frameSize = a / frameSize) member same
  obtain ⟨p, inside, here⟩ := List.mem_map.1 found.mem
  have number : p = a / frameSize - ph.p_vaddr / frameSize := by
    have address := found.holds
    rw [← here, (segment_page_address range (List.mem_range.1 inside)).1] at address
    unfold frameSize at *
    omega
  rw [← number, here]
  exact found

theorem page_byte_eq (member : ph ∈ segments elfData) (inFile : segmentInFile elfSize ph = true)
    {p b : Nat} (small : p * frameSize + b < 4294967296) :
    pageByte elfData elfSize ph p b = segmentByte elfData ph (p * frameSize + b) := by
  obtain ⟨offset, _, size, _⟩ := segment_fields member
  unfold segmentInFile at inFile
  simp only [Bool.not_eq_true', Bool.or_eq_false_iff, decide_eq_false_iff_not, Nat.not_lt]
    at inFile
  obtain ⟨⟨⟨_, _⟩, wraps⟩, fits⟩ := inFile
  have sum : ph.p_offset + ph.p_filesz ≤ elfSize ∧ ph.p_offset + ph.p_filesz < 4294967296 := by
    unfold u32 at wraps fits
    omega
  unfold pageByte segmentByte
  dsimp only
  rw [u32_of_lt small]
  by_cases inside : p * frameSize + b < ph.p_filesz
  · rw [u32_of_lt (by omega), if_pos ⟨inside, by omega⟩, if_pos inside]
  · rw [if_neg fun both => inside both.1, if_neg inside]

end Segments

section Loading

variable {elfData : Nat → UInt8} {elfSize pd : Nat} {m made after : MemoryState}

theorem created_space (booted : Booted m)
    (created : createAddressSpace m = (pd * frameSize, made)) (nonzero : pd * frameSize ≠ 0) :
    Space made pd ∧ Target made pd ∧ ∀ a, a / tableSpan < userEntries → pageEntry made pd a = 0 := by
  have target := (target_of_create booted created nonzero).2
  rw [frame_of_address] at target
  refine ⟨space_of_empty target.zeroUsed target.used target.user, target, ?_⟩
  exact fun a user => page_entry_absent (target.user _ user)

/-- No page of the kernel's half is a user page after user pages were placed. -/
theorem user_byte_kernel {pages : List Page} (target : Target made pd)
    (image : Image made after pd pages) {a : Nat} (high : userEntries ≤ a / tableSpan) :
    userByte after pd a = none := by
  unfold userByte
  dsimp only
  rw [if_neg]
  rintro ⟨_, flags⟩
  unfold translation at flags
  rw [image.kernel _ high, target.kernel _ high] at flags
  dsimp only at flags
  split at flags
  · next table =>
    obtain ⟨used, other⟩ := target.tables _ high table
    have plain : Plain made pd (frameOf (made.kernelDirectory (a / tableSpan))) := by
      refine ⟨used, other, ?_⟩
      intro i low here
      exact Bool.noConfusion ((target.user i low).symm.trans here)
    rw [(image.data _ plain).2] at flags
    exact target.supervisor _ _ high table flags
  · exact absurd flags (by decide)

/-- The byte at an address comes from the last segment with a page there. -/
theorem user_byte_iff (booted : Booted m)
    (created : createAddressSpace m = (pd * frameSize, made)) (nonzero : pd * frameSize ≠ 0)
    (image : Image made after pd ((segments elfData).flatMap (segmentPages elfData elfSize)))
    (ranges : ∀ ph ∈ segments elfData, ph.p_vaddr + ph.p_memsz ≤ userStackPage)
    (inFile : ∀ ph ∈ segments elfData, segmentInFile elfSize ph = true) (a : Nat) (b : UInt8) :
    userByte after pd a = some b ↔ ∃ last, LastOf (Covers a) (segments elfData) last ∧
      segmentByte elfData last (a - last.p_vaddr / frameSize * frameSize) = b := by
  obtain ⟨_, target, empty⟩ := created_space booted created nonzero
  have reads : ∀ last, LastOf (Covers a) (segments elfData) last →
      userByte after pd a =
        some (segmentByte elfData last (a - last.p_vaddr / frameSize * frameSize)) := by
    intro last found
    have range := ranges last found.mem
    have covers := found.holds
    have few : a / frameSize - last.p_vaddr / frameSize < numPages last := by
      unfold Covers at covers
      omega
    have top := (@segment_page_address elfData elfSize last range _ few).2
    have position : (a / frameSize - last.p_vaddr / frameSize) * frameSize + a % frameSize =
        a - last.p_vaddr / frameSize * frameSize := by
      unfold Covers at covers
      unfold frameSize at *
      omega
    have user : a / tableSpan < userEntries := by
      unfold Covers at covers
      unfold kernelVbase at top
      unfold tableSpan userEntries
      unfold frameSize at *
      omega
    have page := last_of_flat_map (p := fun page : Page =>
        page.virtualAddr / frameSize = a / frameSize)
      (last_of_congr (fun ph member =>
        (@segment_pages_cover elfData elfSize ph (ranges ph member) a).symm) found)
      (segment_page_last range covers)
    have shown := user_byte_shown image.space user (image.shown a _ user page)
    rw [shown, page_byte_eq found.mem (inFile last found.mem), position]
    rw [position]
    unfold Covers at covers
    unfold kernelVbase at top
    unfold frameSize at *
    omega
  constructor
  · intro read
    by_cases covered : ∃ ph ∈ segments elfData, Covers a ph
    · obtain ⟨ph, member, covers⟩ := covered
      obtain ⟨last, found⟩ := last_of_exists member covers
      refine ⟨last, found, ?_⟩
      rw [reads last found] at read
      exact Option.some.inj read
    · rcases Nat.lt_or_ge (a / tableSpan) userEntries with user | high
      · have unmapped : pageEntry after pd a = 0 := by
          rw [image.others a user, empty a user]
          intro page member same
          obtain ⟨ph, inside, here⟩ := List.mem_flatMap.1 member
          exact covered ⟨ph, inside, (segment_pages_cover (ranges ph inside) a).1 ⟨page, here, same⟩⟩
        rw [user_byte_unmapped unmapped] at read
        exact absurd read nofun
      · rw [user_byte_kernel target image high] at read
        exact absurd read nofun
  · rintro ⟨last, found, rfl⟩
    exact reads last found

theorem heap_start_behind {top : Nat} (accepted : Accepted elfSize (segments elfData) 0 top)
    (ranges : ∀ ph ∈ segments elfData, ph.p_vaddr + ph.p_memsz ≤ userStackPage) :
    u32 (top + (frameSize - 1)) / frameSize * frameSize % frameSize = 0 ∧
      ∀ ph ∈ segments elfData, ph.p_vaddr + ph.p_memsz ≤
        u32 (top + (frameSize - 1)) / frameSize * frameSize := by
  have low : top ≤ userStackPage := by
    rcases accepted.attained with rfl | ⟨ph, member, same⟩
    · exact Nat.zero_le _
    · have range := ranges ph member
      rw [same]
      unfold u32
      omega
  refine ⟨Nat.mul_mod_left _ _, ?_⟩
  intro ph member
  have range := ranges ph member
  have here := accepted.ends ph member
  unfold userStackPage at low range
  unfold u32 frameSize at *
  omega

/-- A file is loaded as it describes itself exactly when, wherever one of its segments has a
byte, the last segment with a page there has the same byte at its distance from that page. -/
theorem image_loaded_iff (booted : Booted m) {pdPhysical : Nat}
    (created : createAddressSpace m = (pdPhysical, made)) (nonzero : pdPhysical ≠ 0)
    (success : (load elfData elfSize pdPhysical made).1.success = true)
    (enough : frameDemand (hasTable made (pdPhysical / frameSize))
      ((elfPages elfData elfSize).map Page.virtualAddr) ≤ getFreeFrames made.pmm)
    (ranges : ∀ ph ∈ segments elfData, ph.p_vaddr + ph.p_memsz ≤ userStackPage) :
    ImageLoaded elfData (load elfData elfSize pdPhysical made).1
        (load elfData elfSize pdPhysical made).2 (pdPhysical / frameSize) ↔
      Undisturbed elfData := by
  obtain ⟨pages, top, accepted, heap⟩ := load_accepted pdPhysical made success
  have physical := (target_of_create booted created nonzero).1
  have user : ∀ page ∈ elfPages elfData elfSize, page.virtualAddr / tableSpan < userEntries := by
    intro page member
    rw [pages] at member
    obtain ⟨ph, inside, here⟩ := List.mem_flatMap.1 member
    obtain ⟨p, few, rfl⟩ := List.mem_map.1 here
    obtain ⟨address, low⟩ := @segment_page_address elfData elfSize ph (ranges ph inside) p
      (List.mem_range.1 few)
    rw [address]
    unfold kernelVbase at low
    unfold tableSpan userEntries
    omega
  rw [physical] at created nonzero
  obtain ⟨space, _, _⟩ := created_space booted created nonzero
  obtain ⟨after, placed, image⟩ := place_pages_image space _ user enough
  have result : (load elfData elfSize pdPhysical made).2 = after := by
    rw [(load_pages _ _).1, physical, placed]
  rw [result]
  rw [pages] at image
  have reads := user_byte_iff booted created nonzero image ranges accepted.inFile
  constructor
  · intro loaded ph member i inside
    rcases Nat.lt_or_ge i ph.p_filesz with data | zero
    · have byte := (reads _ _).1 (loaded.bytes ph member i data)
      rw [segmentByte.eq_def elfData ph i, if_pos data]
      exact byte
    · have byte := (reads _ _).1 (loaded.zeros ph member i zero (by omega))
      rw [segmentByte.eq_def elfData ph i, if_neg (Nat.not_lt.2 zero)]
      exact byte
  · intro undisturbed
    obtain ⟨aligned, behind⟩ := heap_start_behind accepted ranges
    rw [← heap] at aligned behind
    refine ⟨?_, ?_, aligned, behind⟩
    · intro ph member i data
      have byte := undisturbed ph member i (by omega)
      rw [segmentByte.eq_def elfData ph i, if_pos data] at byte
      exact (reads _ _).2 byte
    · intro ph member i zero inside
      have byte := undisturbed ph member i (by omega)
      rw [segmentByte.eq_def elfData ph i, if_neg (Nat.not_lt.2 zero)] at byte
      exact (reads _ _).2 byte

/-- Segments that start on a page boundary and share no page are loaded where they belong. -/
theorem undisturbed_of_aligned
    (ranges : ∀ ph ∈ segments elfData, ph.p_vaddr + ph.p_memsz ≤ userStackPage)
    (sizes : ∀ ph ∈ segments elfData, ph.p_filesz ≤ ph.p_memsz)
    (aligned : ∀ ph ∈ segments elfData, ph.p_vaddr % frameSize = 0)
    (apart : (segments elfData).Pairwise fun ph later => ∀ a, Covers a ph → ¬ Covers a later) :
    Undisturbed elfData := by
  intro ph member i inside
  have size := sizes ph member
  have start := aligned ph member
  have covers : Covers (ph.p_vaddr + i) ph := by
    unfold Covers
    rw [num_pages_eq (ranges ph member)]
    unfold frameSize at *
    omega
  refine ⟨ph, ?_, ?_⟩
  · obtain ⟨pre, post, split⟩ := List.append_of_mem member
    refine ⟨pre, post, split, covers, ?_⟩
    intro later behind
    rw [split, List.pairwise_append] at apart
    exact (List.pairwise_cons.1 apart.2.1).1 later behind _ covers
  · have position : ph.p_vaddr + i - ph.p_vaddr / frameSize * frameSize = i := by
      unfold frameSize at *
      omega
    rw [position]

end Loading

section Examples

/-- An executable with the two bytes `0xAB 0xCD` in a segment of three, at `0x08000000 + low`. -/
def dataImage (low : UInt8) : Nat → UInt8
  | 56 => 84
  | 60 => low
  | 68 => 2
  | 72 => 3
  | 84 => 0xAB
  | 85 => 0xCD
  | i => onePageImage 0x08 i

def loadedData (low : UInt8) : ElfLoadResult × MemoryState :=
  load (dataImage low) 86 (256 * frameSize) (createAddressSpace smallMachine).2

/-- The new address space, with two of the frames that are left. -/
theorem data_space :
    (createAddressSpace smallMachine).1 = 256 * frameSize ∧
      ∀ frame ∈ [257, 258], ¬ (createAddressSpace smallMachine).2.Used frame := by
  decide +kernel

theorem data_image_created :
    createAddressSpace smallMachine = (256 * frameSize, (createAddressSpace smallMachine).2) :=
  Prod.ext data_space.1 rfl

/-- The segment of the image, the result of its load, and the frames that it asks for. -/
theorem data_image_result (low : Fin 2) :
    (segments (dataImage (.ofNat low))).map (fun ph => (ph.p_vaddr, ph.p_filesz, ph.p_memsz)) =
        [(0x08000000 + low.val, 2, 3)] ∧
      (loadedData (.ofNat low)).1 = ⟨0, 0x08001000, true⟩ ∧
      frameDemand (hasTable (createAddressSpace smallMachine).2 256)
        ((elfPages (dataImage (.ofNat low)) 86).map Page.virtualAddr) = 2 := by
  revert low
  decide +kernel

theorem frames_for_data_image (low : Fin 2) :
    frameDemand (hasTable (createAddressSpace smallMachine).2 256)
        ((elfPages (dataImage (.ofNat low)) 86).map Page.virtualAddr) ≤
      getFreeFrames (createAddressSpace smallMachine).2.pmm := by
  rw [(data_image_result low).2.2]
  apply free_frames_length_le [257, 258] (by decide)
  intro frame member
  refine ⟨?_, data_space.2 frame member⟩
  simp only [List.mem_cons, List.not_mem_nil, or_false] at member
  unfold frameCount bitmapSize
  omega

/-- The segment that starts on a page boundary is loaded where it belongs. -/
theorem aligned_data_loaded :
    ImageLoaded (dataImage 0) (loadedData 0).1 (loadedData 0).2 256 := by
  have fields : (segments (dataImage 0)).map (fun ph => (ph.p_vaddr, ph.p_filesz, ph.p_memsz)) =
      [(0x08000000, 2, 3)] := (data_image_result 0).1
  have single : ∀ ph ∈ segments (dataImage 0),
      ph.p_vaddr = 0x08000000 ∧ ph.p_filesz = 2 ∧ ph.p_memsz = 3 := by
    intro ph member
    have listed := List.mem_map_of_mem
      (f := fun ph : ProgramHeader => (ph.p_vaddr, ph.p_filesz, ph.p_memsz)) member
    rw [fields, List.mem_singleton] at listed
    simpa only [Prod.mk.injEq] using listed
  have ranges : ∀ ph ∈ segments (dataImage 0), ph.p_vaddr + ph.p_memsz ≤ userStackPage := by
    intro ph member
    obtain ⟨address, _, size⟩ := single ph member
    rw [address, size]
    decide
  apply (image_loaded_iff booted_small_machine data_image_created (by decide)
    (congrArg ElfLoadResult.success (data_image_result 0).2.1) (frames_for_data_image 0) ranges).2
  apply undisturbed_of_aligned ranges
  · intro ph member
    obtain ⟨_, data, size⟩ := single ph member
    omega
  · intro ph member
    rw [(single ph member).1]
    decide
  · have one : (segments (dataImage 0)).length = 1 := by
      rw [← List.length_map, fields]
      rfl
    obtain ⟨ph, only⟩ := List.length_eq_one_iff.1 one
    rw [only]
    exact List.pairwise_singleton _ _

/-- The same segment one byte later: its bytes are found one byte too early. -/
theorem shifted_data_misplaced :
    Booted smallMachine ∧
      createAddressSpace smallMachine = (256 * frameSize, (createAddressSpace smallMachine).2) ∧
      (loadedData 1).1.success = true ∧
      frameDemand (hasTable (createAddressSpace smallMachine).2 256)
        ((elfPages (dataImage 1) 86).map Page.virtualAddr) ≤
          getFreeFrames (createAddressSpace smallMachine).2.pmm ∧
      (∀ ph ∈ segments (dataImage 1), ph.p_vaddr + ph.p_memsz ≤ userStackPage) ∧
      ¬ ImageLoaded (dataImage 1) (loadedData 1).1 (loadedData 1).2 256 := by
  have first : ∃ ph ∈ segments (dataImage 1), ph.p_vaddr = 0x08000001 ∧ ph.p_filesz = 2 ∧
      dataImage 1 ph.p_offset = 0xAB := by
    decide +kernel
  have byte : userByte (loadedData 1).2 256 0x08000001 = some 0xCD := by decide +kernel
  refine ⟨booted_small_machine, data_image_created,
    congrArg ElfLoadResult.success (data_image_result 1).2.1, frames_for_data_image 1, ?_, ?_⟩
  · decide +kernel
  · intro loaded
    obtain ⟨ph, member, address, size, data⟩ := first
    have wanted := loaded.bytes ph member 0 (by omega)
    rw [address, Nat.add_zero, byte, Nat.add_zero, data] at wanted
    exact absurd wanted (by decide)

end Examples

end CassiOS.Kernel.LoadedImage
