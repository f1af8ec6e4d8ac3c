import CassiOS.Fat32.Enumeration
import CassiOS.Fat32.FreedChains
import CassiOS.Fat32.MountGeometry
import CassiOS.Fat32.ReadOnly

/-!
# When directory lookups return

`readDirEntry` follows the cluster chain of a directory up to an end mark or the end of the
chain, and `findEntry` numbers the entries with a `u32`. On a disk where a chain leads in a
circle without an end mark, or holds 2^32 entries before it ends, a name that is not there is
searched for ever; on every other disk all lookups return. Fuel up to 2^32 stands for loops
whose `u32` counters have not wrapped.
-/

namespace CassiOS.Fat32.LookupTermination

open CassiOS.Support.PartialProgram
open CassiOS.Support.Walks
open CassiOS.Fat32.Types
open CassiOS.Fat32.Names
open CassiOS.Fat32.Device
open CassiOS.Fat32.Cache
open CassiOS.Fat32.CacheTransparency
open CassiOS.Fat32.Filesystem
open CassiOS.Fat32.Operations
open CassiOS.Fat32.VolumeModel
open CassiOS.Fat32.DirectoryModel
open CassiOS.Fat32.Enumeration (listing_split)
open CassiOS.Fat32.FreedChains
open CassiOS.Fat32.MountGeometry
open CassiOS.Fat32.ReadOnly

set_option autoImplicit false

section Directories

/-- The places where the loops over a cluster chain go on. -/
abbrev InChain (c : Nat) : Prop := 2 ≤ c ∧ c < fatEoc

variable (d : Fat32Filesystem)

/-- The slots that `readDirEntry` sees in a cluster. Where a buffer is longer than a cluster,
the slots behind are those of uninitialised memory. -/
def slotsAt (c : Nat) : List Slot :=
  slotsFrom c (clusterInto d c d.heap.junk) (entriesPerCluster d) 0

def HasEnd (c : Nat) : Prop := ∃ slot ∈ slotsAt d c, isEnd slot.entry = true

/-- Within `n` clusters the chain of `c` ends or reaches an end mark. -/
def Ends : Nat → Nat → Prop
  | 0, c => ¬ InChain c
  | n + 1, c => ¬ InChain c ∨ HasEnd d c ∨ Ends n (nextOf d c)

/-- The slots of the first `n` clusters of the chain of `c`. -/
def dirSlots : Nat → Nat → List Slot
  | 0, _ => []
  | n + 1, c => if InChain c then slotsAt d c ++ dirSlots n (nextOf d c) else []

/-- The chain of `c` ends or reaches an end mark, with fewer than 2^32 visible entries before
it. -/
def Terminating (c : Nat) : Prop :=
  ∃ n, Ends d n c ∧ (listing maxName [] (dirSlots d n c)).length < 4294967296

end Directories

section Names

/-- A name without NUL equals none that is shorter. -/
theorem name_equals_length {a b : List UInt8} (same : nameEquals a b = true)
    (text : ∀ c ∈ b, c ≠ 0) : b.length ≤ a.length := by
  induction a generalizing b with
  | nil =>
      cases b with
      | nil => exact Nat.le_refl _
      | cons c b => exact absurd (eq_of_beq same) (text c List.mem_cons_self)
  | cons x a ih =>
      cases b with
      | nil => exact Nat.zero_le _
      | cons c b =>
          unfold nameEquals at same
          split at same
          · cases same
          · next equal =>
            have first : x = c := by simpa using equal
            have more : (x == 0) = false := by
              rw [first]
              exact beq_eq_false_iff_ne.2 (text c List.mem_cons_self)
            rw [more] at same
            exact Nat.succ_le_succ (ih same fun d member => text d (List.mem_cons_of_mem c member))

theorem collect_chars_length (room : Nat) (chars : List Nat) :
    (collectChars room chars).length ≤ room := by
  induction room generalizing chars with
  | zero => exact Nat.le_refl _
  | succ room ih =>
      cases chars with
      | nil => exact Nat.zero_le _
      | cons c chars =>
          unfold collectChars
          split
          · exact Nat.zero_le _
          · exact Nat.succ_le_succ (ih chars)

theorem take_while_length {width : Nat} {field : List UInt8} (keeps : UInt8 → Bool)
    (fits : field.length ≤ width) : (field.takeWhile keeps).length ≤ width :=
  (List.takeWhile_prefix keeps).length_le.trans fits

theorem entry_name_short (lfn : List DirEntry) (e : DirEntry) :
    (entryName lfn e maxName).length ≤ 255 := by
  unfold entryName
  split
  · exact collect_chars_length (nameRoom maxName) _
  · have field : ∀ (chars : List UInt8) (width room : Nat),
        ((chars.take width).take room).length ≤ width := by
      intro chars width room
      exact (List.length_take_le' _ _).trans (List.length_take_le _ _)
    unfold shortNameToString
    have base := take_while_length (· != charSpace) (field (shortName e) 8 (nameRoom maxName))
    dsimp only
    split
    · rw [List.length_append, List.length_cons]
      have extension : ∀ room, ((((((shortName e).drop 8).take 3).take room).takeWhile
          (· != charSpace)).map fun c =>
            if ntReserved e &&& 0x10 != 0 then toLower c else c).length ≤ 3 := by
        intro room
        rw [List.length_map]
        exact take_while_length _ (field _ 3 room)
      rw [List.length_map]
      exact (Nat.add_le_add base (Nat.succ_le_succ (extension _))).trans (by decide)
    · rw [List.length_map]
      omega

theorem listing_name_short {slots : List Slot} {lfn : List DirEntry} {found : Found}
    (member : found ∈ listing maxName lfn slots) : found.name.length ≤ 255 := by
  induction slots generalizing lfn with
  | nil => cases member
  | cons slot rest ih =>
      unfold listing at member
      split at member
      · cases member
      split at member
      · exact ih member
      split at member
      · exact ih member
      split at member
      · exact ih member
      split at member
      · exact ih member
      · rcases List.mem_cons.1 member with rfl | later
        · exact entry_name_short lfn slot.entry
        · exact ih later

end Names

section Scanning

variable {cluster index nameMax : Nat} {buf : Buf}

/-- What the outcome of the slot loop says about end marks and names. -/
def Marks (nameMax : Nat) (slots : List Slot) : Scan → Prop
  | .stop => ∃ slot ∈ slots, isEnd slot.entry = true
  | .next _ _ => ∀ slot ∈ slots, isEnd slot.entry = false
  | .hit found _ => ∃ lfn e, found.name = entryName lfn e nameMax

theorem marks_cons {slot : Slot} {rest : List Slot} {scan : Scan}
    (live : isEnd slot.entry = false) (marks : Marks nameMax rest scan) :
    Marks nameMax (slot :: rest) scan := by
  cases scan with
  | stop =>
      obtain ⟨mark, member, marked⟩ := marks
      exact ⟨mark, List.mem_cons_of_mem slot member, marked⟩
  | hit found overrun => exact marks
  | next lfn visibleIdx =>
      intro other member
      rcases List.mem_cons.1 member with rfl | later
      · exact live
      · exact marks other later

/-- The slot loop stops at an end mark and passes none. -/
theorem scan_entries_marks (cluster index nameMax : Nat) (buf : Buf) (n i : Nat)
    (lfn : List DirEntry) (visibleIdx : Nat) :
    Marks nameMax (slotsFrom cluster buf n i)
      (scanEntries cluster index nameMax buf n i lfn visibleIdx) := by
  induction n generalizing i lfn visibleIdx with
  | zero => exact fun slot member => absurd member List.not_mem_nil
  | succ n ih =>
      unfold scanEntries slotsFrom
      dsimp only
      by_cases last : isEnd (slotAt buf i) = true
      · rw [if_pos last]
        exact ⟨_, List.mem_cons_self, last⟩
      rw [if_neg last]
      have live : isEnd (slotAt buf i) = false := Bool.eq_false_iff.2 last
      by_cases free : isFree (slotAt buf i) = true
      · rw [if_pos free]
        exact marks_cons live (ih ..)
      rw [if_neg free]
      by_cases long : isLfnEntry (slotAt buf i) = true
      · rw [if_pos long]
        exact marks_cons live (ih ..)
      rw [if_neg long]
      by_cases label : isVolumeId (slotAt buf i) = true
      · rw [if_pos label]
        exact marks_cons live (ih ..)
      rw [if_neg label]
      by_cases dot : isDotEntry (slotAt buf i) = true
      · rw [if_pos dot]
        exact marks_cons live (ih ..)
      rw [if_neg dot]
      by_cases here : visibleIdx = index
      · rw [if_pos here]
        exact ⟨lfn, slotAt buf i, rfl⟩
      · rw [if_neg here]
        exact marks_cons live (ih ..)

end Scanning

section Bounds

variable {d : Fat32Filesystem} {n m c nameMax : Nat}

def Stops (d : Fat32Filesystem) (c : Nat) : Prop := ¬ InChain c ∨ HasEnd d c

theorem ends_stops (ends : Ends d n c) : ∃ k, Stops d ((nextOf d)^[k] c) := by
  induction n generalizing c with
  | zero => exact ⟨0, .inl ends⟩
  | succ n ih =>
      rcases ends with outside | marked | later
      · exact ⟨0, .inl outside⟩
      · exact ⟨0, .inr marked⟩
      · obtain ⟨k, stops⟩ := ih later
        exact ⟨k + 1, stops⟩

theorem stops_ends (stops : Stops d ((nextOf d)^[n] c)) : Ends d (n + 1) c := by
  induction n generalizing c with
  | zero => exact stops.imp_right .inl
  | succ n ih => exact .inr (.inr (ih stops))

theorem ends_soon (ends : Ends d n c) : ∃ m, m ≤ fatEoc ∧ Ends d m c := by
  classical
  have stops := ends_stops ends
  refine ⟨Nat.find stops + 1, ?_, stops_ends (Nat.find_spec stops)⟩
  have within : ∀ m, m < Nat.find stops → (nextOf d)^[m] c ∈ Finset.Ico 2 fatEoc := by
    intro m less
    apply Finset.mem_Ico.2
    by_contra outside
    exact Nat.find_min stops less (.inl outside)
  have bound := first_visit_bound (P := Stops d) (Nat.find_spec stops)
    (fun m less => Nat.find_min stops less) within
  rw [Nat.card_Ico] at bound
  unfold fatEoc at bound ⊢
  omega

theorem listing_marked {slots : List Slot} (marked : ∃ slot ∈ slots, isEnd slot.entry = true)
    (lfn : List DirEntry) (behind : List Slot) :
    listing nameMax lfn (slots ++ behind) = listing nameMax lfn slots := by
  induction slots generalizing lfn with
  | nil =>
      obtain ⟨slot, member, _⟩ := marked
      cases member
  | cons slot rest ih =>
      rw [List.cons_append]
      unfold listing
      by_cases last : isEnd slot.entry = true
      · rw [if_pos last, if_pos last]
      · have later : ∃ slot ∈ rest, isEnd slot.entry = true := by
          obtain ⟨mark, member, isMark⟩ := marked
          rcases List.mem_cons.1 member with rfl | inside
          · exact absurd isMark last
          · exact ⟨mark, inside, isMark⟩
        simp only [ih later]

theorem listing_append_congr {left right : List Slot}
    (same : ∀ lfn, listing nameMax lfn left = listing nameMax lfn right) (slots : List Slot)
    (lfn : List DirEntry) :
    listing nameMax lfn (slots ++ left) = listing nameMax lfn (slots ++ right) := by
  induction slots generalizing lfn with
  | nil => exact same lfn
  | cons slot rest ih =>
      rw [List.cons_append, List.cons_append]
      unfold listing
      simp only [ih]

theorem dir_slots_outside (outside : ¬ InChain c) : dirSlots d n c = [] := by
  cases n with
  | zero => rfl
  | succ n => exact if_neg outside

/-- What is listed does not depend on how far behind the end one looks. -/
theorem ends_listing (ends : Ends d n c) (ends' : Ends d m c) (lfn : List DirEntry) :
    listing nameMax lfn (dirSlots d n c) = listing nameMax lfn (dirSlots d m c) := by
  induction n generalizing m c lfn with
  | zero => rw [dir_slots_outside ends, dir_slots_outside ends]
  | succ n ih =>
      by_cases range : InChain c
      · obtain _ | m := m
        · exact absurd range ends'
        unfold dirSlots
        rw [if_pos range, if_pos range]
        by_cases marked : HasEnd d c
        · rw [listing_marked marked, listing_marked marked]
        · have onward := (ends.resolve_left (not_not_intro range)).resolve_left marked
          have onward' := (ends'.resolve_left (not_not_intro range)).resolve_left marked
          exact listing_append_congr (fun lfn => ih onward onward' lfn) _ lfn
      · rw [dir_slots_outside range, dir_slots_outside range]

theorem terminating_soon (terminating : Terminating d c) : ∃ n, n ≤ fatEoc ∧ Ends d n c ∧
    (listing maxName [] (dirSlots d n c)).length < 4294967296 := by
  obtain ⟨n, ends, few⟩ := terminating
  obtain ⟨m, soon, ends'⟩ := ends_soon ends
  refine ⟨m, soon, ends', ?_⟩
  rw [ends_listing ends' ends]
  exact few

end Bounds

section Loops

variable {faults : Faults} {d : Fat32Filesystem} {index nameMax : Nat}

/-- Behind the cluster a buffer keeps what it held when it was allocated. -/
def Spare (d : Fat32Filesystem) (buf : Buf) : Prop :=
  ∀ j, d.sectorsPerCluster * 512 ≤ j → buf j = d.heap.junk j

theorem spare_slots {buf : Buf} (spare : Spare d buf) (c : Nat) :
    slotsFrom c (clusterInto d c buf) (entriesPerCluster d) 0 = slotsAt d c := by
  rw [cluster_into_congr spare]
  rfl

theorem spare_read {buf : Buf} (spare : Spare d buf) (c : Nat) :
    Spare d (clusterInto d c buf) := by
  intro j behind
  rw [cluster_into_behind d c buf behind]
  exact spare j behind

/-- The answer read off the slots, or none where a failure is to be expected. -/
def Reads (faults : Faults) (d : Fat32Filesystem) (expected found : Option Found)
    (w : Fat32Filesystem) : Prop := w = d ∧ (found = expected ∨ found = none ∧ Faults.any faults)

theorem read_dir_from_outside {fuel c : Nat} (outside : ¬ InChain c) (buf : Buf)
    (lfn : List DirEntry) (visibleIdx : Nat) :
    readDirFrom index nameMax (fuel + 1) c buf lfn visibleIdx = pure none := by
  unfold readDirFrom
  exact if_neg outside

/-- Where the chain ends within the fuel, the loop returns. -/
theorem read_dir_from_ends {fuel n c : Nat} (ends : Ends d n c) (enough : n < fuel) {buf : Buf}
    (spare : Spare d buf) (lfn : List DirEntry) {visibleIdx : Nat} (before : visibleIdx ≤ index) :
    Achieves (Reading faults) (readDirFrom index nameMax fuel c buf lfn visibleIdx) d
      (Reads faults d (listing nameMax lfn (dirSlots d n c))[index - visibleIdx]?) := by
  induction fuel generalizing n c buf lfn visibleIdx with
  | zero => omega
  | succ fuel ih =>
      by_cases range : InChain c
      · obtain _ | n := n
        · exact absurd range ends
        have turn : HasEnd d c ∨ Ends d n (nextOf d c) := ends.resolve_left (not_not_intro range)
        unfold readDirFrom dirSlots
        rw [if_pos range, if_pos range]
        apply achieves_bind (read_cluster_reading d c buf)
        rintro ⟨ok, buf'⟩ w ⟨rfl, read | ⟨refused, fails⟩⟩
        · cases read
          dsimp only
          rw [if_pos rfl]
          apply achieves_read
          intro s reading
          rw [reading.layout.2.2.2.1]
          have scanned := scan_entries_spec c nameMax (clusterInto w c buf) (entriesPerCluster w) 0
            lfn before
          have marks := scan_entries_marks c index nameMax (clusterInto w c buf)
            (entriesPerCluster w) 0 lfn visibleIdx
          rw [spare_slots spare] at scanned marks
          revert scanned marks
          cases scanEntries c index nameMax (clusterInto w c buf) (entriesPerCluster w) 0 lfn
              visibleIdx with
          | stop =>
              intro scanned _
              rw [scanned]
              exact achieves_pure ⟨rfl, .inl rfl⟩
          | hit found overrun =>
              intro scanned _
              rw [scanned]
              apply achieves_bind_runs (note_overrun_reading w overrun)
              exact achieves_pure ⟨rfl, .inl rfl⟩
          | next lfn' visibleIdx' =>
              intro scanned live
              rw [scanned.2]
              have onward : Ends w n (nextOf w c) := by
                apply turn.resolve_left
                rintro ⟨slot, member, marked⟩
                rw [live slot member] at marked
                cases marked
              apply achieves_bind (fat_get_reading w c)
              rintro next u ⟨rfl, found | ⟨found, fails⟩⟩
              · rw [found]
                exact ih onward (by omega) (spare_read spare c) _ scanned.1
              · obtain _ | fuel := fuel
                · omega
                rw [found, read_dir_from_outside (by decide)]
                exact achieves_pure ⟨rfl, .inr ⟨rfl, .inl fails⟩⟩
        · dsimp only at refused ⊢
          rw [refused, if_neg Bool.false_ne_true]
          exact achieves_pure ⟨rfl, .inr ⟨rfl, .inl fails⟩⟩
      · rw [read_dir_from_outside range, dir_slots_outside range]
        exact achieves_pure ⟨rfl, .inl rfl⟩

theorem read_dir_entry_ends {fuel n c : Nat} (ends : Ends d n c) (enough : n < fuel)
    (index : Nat) :
    Achieves (Reading faults) (readDirEntry fuel c index nameMax) d
      (Reads faults d (listing nameMax [] (dirSlots d n c))[index]?) := by
  unfold readDirEntry
  apply achieves_bind (heap_alloc_reading d)
  rintro _ w ⟨rfl, rfl | ⟨rfl, fails⟩⟩
  · exact read_dir_from_ends ends enough (fun _ _ => rfl) [] (Nat.zero_le index)
  · exact achieves_pure ⟨rfl, .inr ⟨rfl, .inr fails⟩⟩

/-- With a round for each entry and one more, the search returns; what it finds is one of the
entries. -/
theorem find_from_ends {fuel n c : Nat} (ends : Ends d n c) (enough : n < fuel)
    (name : List UInt8) {rounds i : Nat}
    (rest : (listing maxName [] (dirSlots d n c)).length < i + rounds)
    (low : i ≤ (listing maxName [] (dirSlots d n c)).length) :
    Achieves (Reading faults) (findFrom fuel c name rounds i) d fun found w => w = d ∧
      ∀ f, found = some f → f ∈ listing maxName [] (dirSlots d n c) := by
  induction rounds generalizing i with
  | zero => omega
  | succ rounds ih =>
      unfold findFrom
      apply achieves_bind (read_dir_entry_ends ends enough i)
      rintro found w ⟨rfl, read | ⟨rfl, _⟩⟩
      · cases found with
        | none => exact achieves_pure ⟨rfl, by simp⟩
        | some found =>
            obtain ⟨inside, at_⟩ := List.getElem?_eq_some_iff.1 read.symm
            dsimp only
            split
            · refine achieves_pure ⟨rfl, fun f same => ?_⟩
              cases same
              rw [← at_]
              exact List.getElem_mem inside
            · exact ih (by omega) inside
      · exact achieves_pure ⟨rfl, by simp⟩

end Loops

section Endless

variable {d : Fat32Filesystem} {c : Nat}

abbrev noFailure : Faults := ⟨false, false⟩

def SomeEntry (d : Fat32Filesystem) (found : Option Found) (w : Fat32Filesystem) : Prop :=
  w = d ∧ ∃ f, found = some f ∧ f.name.length ≤ 255

/-- On a chain that does not end the loop finds an entry or does not return. -/
theorem read_dir_from_endless (endless : ∀ n, ¬ Ends d n c) (fuel index : Nat) {buf : Buf}
    (spare : Spare d buf) (lfn : List DirEntry) (visibleIdx : Nat) :
    Ensures (Reading noFailure) (readDirFrom index maxName fuel c buf lfn visibleIdx) d
      (SomeEntry d) := by
  induction fuel generalizing c buf lfn visibleIdx with
  | zero => exact ensures_none
  | succ fuel ih =>
      have range : InChain c := Decidable.of_not_not (endless 0)
      unfold readDirFrom
      rw [if_pos range]
      apply ensures_bind (read_cluster_reading d c buf).ensures
      rintro ⟨ok, buf'⟩ w ⟨rfl, read | ⟨_, fails⟩⟩
      · cases read
        dsimp only
        rw [if_pos rfl]
        apply ensures_read
        intro s reading
        rw [reading.layout.2.2.2.1]
        have marks := scan_entries_marks c index maxName (clusterInto w c buf)
          (entriesPerCluster w) 0 lfn visibleIdx
        rw [spare_slots spare] at marks
        revert marks
        cases scanEntries c index maxName (clusterInto w c buf) (entriesPerCluster w) 0 lfn
            visibleIdx with
        | stop =>
            intro marked
            exact absurd (stops_ends (n := 0) (.inr marked)) (endless 1)
        | hit found overrun =>
            rintro ⟨lfn', e, named⟩
            apply ensures_bind_runs (note_overrun_reading w overrun)
            refine ensures_pure ⟨rfl, found, rfl, ?_⟩
            rw [named]
            exact entry_name_short lfn' e
        | next lfn' visibleIdx' =>
            intro _
            apply ensures_bind (fat_get_reading w c).ensures
            rintro next u ⟨rfl, rfl | ⟨_, fails⟩⟩
            · exact ih (fun n ends => endless (n + 1) (.inr (.inr ends))) (spare_read spare c) _ _
            · cases fails
      · cases fails

theorem read_dir_entry_endless (endless : ∀ n, ¬ Ends d n c) (fuel index : Nat) :
    Ensures (Reading noFailure) (readDirEntry fuel c index maxName) d (SomeEntry d) := by
  unfold readDirEntry
  apply ensures_bind (heap_alloc_reading d).ensures
  rintro _ w ⟨rfl, rfl | ⟨_, fails⟩⟩
  · exact read_dir_from_endless endless fuel index (fun _ _ => rfl) [] 0
  · cases fails

/-- The same for a number below that of the entries of a chain that ends. -/
theorem read_dir_entry_present {n : Nat} (ends : Ends d n c) (fuel : Nat) {index : Nat}
    (inside : index < (listing maxName [] (dirSlots d n c)).length) :
    Ensures (Reading noFailure) (readDirEntry fuel c index maxName) d (SomeEntry d) := by
  have reads : Achieves (Reading noFailure) (readDirEntry (fuel + (n + 1)) c index maxName) d
      (Reads noFailure d (listing maxName [] (dirSlots d n c))[index]?) :=
    read_dir_entry_ends ends (by omega) index
  have answers := ensures_of_below (below_of_le
    (fun k => below_read_dir_entry k c index maxName) (Nat.le_add_right fuel (n + 1))) reads
  apply answers.mono
  rintro found w ⟨same, read | ⟨_, fails⟩⟩
  · rw [List.getElem?_eq_getElem inside] at read
    exact ⟨same, _, read, listing_name_short (List.getElem_mem inside)⟩
  · rcases fails with fails | fails <;> cases fails

def absentName : List UInt8 := List.replicate 256 0x61

/-- Where every number has an entry, the search for that name does not return. -/
theorem find_from_endless {fuel : Nat} (present : ∀ i, i < 4294967296 →
      Ensures (Reading noFailure) (readDirEntry fuel c i maxName) d (SomeEntry d))
    {rounds i : Nat} (small : i + rounds ≤ 4294967296) :
    Ensures (Reading noFailure) (findFrom fuel c absentName rounds i) d fun _ _ => False := by
  induction rounds generalizing i with
  | zero => exact ensures_none
  | succ rounds ih =>
      unfold findFrom
      apply ensures_bind (present i (by omega))
      rintro _ w ⟨rfl, found, rfl, short⟩
      dsimp only
      have other : ¬ nameEquals found.name absentName = true := by
        intro same
        have long := name_equals_length same fun c member => by
          rw [List.eq_of_mem_replicate member]
          decide
        rw [absentName, List.length_replicate] at long
        omega
      rw [if_neg other]
      exact ih (by omega)

theorem find_entry_endless (endless : ¬ Terminating d c) {fuel : Nat} (small : fuel ≤ 4294967296) :
    Ensures (Reading noFailure) (findEntry fuel c absentName) d fun _ _ => False := by
  unfold findEntry
  apply find_from_endless ?_ (by omega)
  intro i below
  by_cases ends : ∃ n, Ends d n c
  · obtain ⟨n, ends⟩ := ends
    apply read_dir_entry_present ends fuel
    by_contra beyond
    exact endless ⟨n, ends, by omega⟩
  · exact read_dir_entry_endless (fun n later => ends ⟨n, later⟩) fuel i

end Endless

section Paths

variable {faults : Faults} {d : Fat32Filesystem} {fuel : Nat}

/-- `x` is reached from `c` along a chain. -/
def Visited (d : Fat32Filesystem) (c x : Nat) : Prop :=
  ∃ k, k ≤ fatEoc ∧ (nextOf d)^[k] c = x

theorem slots_from_cluster {c n i : Nat} {buf : Buf} {slot : Slot}
    (member : slot ∈ slotsFrom c buf n i) : slot.cluster = c := by
  induction n generalizing i with
  | zero => cases member
  | succ n ih =>
      rcases List.mem_cons.1 member with rfl | later
      · rfl
      · exact ih later

theorem dir_slots_visited {n c : Nat} {slot : Slot} (member : slot ∈ dirSlots d n c) :
    ∃ k, k ≤ n ∧ (nextOf d)^[k] c = slot.cluster := by
  induction n generalizing c with
  | zero => cases member
  | succ n ih =>
      unfold dirSlots at member
      split at member
      · rcases List.mem_append.1 member with here | later
        · exact ⟨0, Nat.zero_le _, (slots_from_cluster here).symm⟩
        · obtain ⟨k, bound, place⟩ := ih later
          exact ⟨k + 1, Nat.succ_le_succ bound, place⟩
      · cases member

theorem read_dir_entry_returns {c : Nat} (terminating : Terminating d c)
    (large : 4294967296 ≤ fuel) (index nameMax : Nat) :
    Achieves (Reading faults) (readDirEntry fuel c index nameMax) d fun _ w => w = d := by
  obtain ⟨n, soon, ends, _⟩ := terminating_soon terminating
  unfold fatEoc at soon
  exact (read_dir_entry_ends ends (by omega) index).mono fun _ _ reads => reads.1

theorem find_entry_returns {c : Nat} (terminating : Terminating d c)
    (large : 4294967296 ≤ fuel) (name : List UInt8) :
    Achieves (Reading faults) (findEntry fuel c name) d fun found w => w = d ∧
      ∀ f, found = some f → Visited d c f.cluster := by
  obtain ⟨n, soon, ends, few⟩ := terminating_soon terminating
  have inside : n < fuel := by
    unfold fatEoc at soon
    omega
  apply (find_from_ends ends inside name (by omega) (Nat.zero_le _)).mono
  rintro found w ⟨same, listed⟩
  refine ⟨same, fun f at_ => ?_⟩
  obtain ⟨before, slot, behind, split, _, _, _, place, _⟩ := listing_split (listed f at_)
  have member : slot ∈ dirSlots d n c := by
    rw [split]
    exact List.mem_append_right _ List.mem_cons_self
  obtain ⟨k, bound, reached⟩ := dir_slots_visited member
  exact ⟨k, bound.trans soon, reached.trans place⟩

theorem parent_of_returns (d : Fat32Filesystem) (c : Nat) :
    Achieves (Reading faults) (parentOf c) d fun _ w => w = d := by
  intro s reading
  unfold parentOf
  refine achieves_bind (read_sector_reading d _) ?_ s reading
  rintro (_ | data) w ⟨same, _⟩
  · exact achieves_pure same
  · exact achieves_pure same

variable (all : ∀ c, Terminating d c) (large : 4294967296 ≤ fuel)

include all large

theorem walk_path_returns (rounds : Nat) (path : List UInt8) (cluster : Nat) (out : PathOut) :
    Achieves (Reading faults) (walkPath fuel rounds path cluster out) d fun _ w => w = d := by
  induction rounds generalizing path cluster out with
  | zero => exact achieves_pure rfl
  | succ rounds ih =>
      unfold walkPath
      by_cases done : path = []
      · rw [if_pos done]
        exact achieves_pure rfl
      rw [if_neg done]
      dsimp only
      by_cases skipped : (takeComponent path).1 = [] ∨ (takeComponent path).1 = [charDot]
      · rw [if_pos skipped]
        exact ih _ _ _
      rw [if_neg skipped]
      by_cases up : (takeComponent path).1 = [charDot, charDot]
      · rw [if_pos up]
        intro s reading
        dsimp only
        split
        · exact ih _ _ _ s reading
        · refine achieves_bind (parent_of_returns d cluster) ?_ s reading
          rintro (_ | parent) w rfl
          · exact achieves_pure rfl
          · exact ih _ _ _
      · rw [if_neg up]
        apply achieves_bind (find_entry_returns (all cluster) large (takeComponent path).1)
        rintro (_ | found) w ⟨rfl, _⟩
        · exact achieves_pure rfl
        · exact ih _ _ _

theorem resolve_path_returns (path : List UInt8) (out : PathOut) :
    Achieves (Reading faults) (resolvePath fuel path out) d fun _ w => w = d := by
  intro s reading
  unfold resolvePath
  split
  · exact ⟨_, s, d, rfl, reading, rfl⟩
  split
  · exact ⟨_, s, d, rfl, reading, rfl⟩
  · exact walk_path_returns all large _ _ _ _ s reading

theorem resolve_parent_path_returns (path : List UInt8) (nameMax : Nat) :
    Achieves (Reading faults) (resolveParentPath fuel path nameMax) d fun _ w => w = d := by
  intro s reading
  unfold resolveParentPath
  cases lastSlashFrom path 0 none with
  | none => exact ⟨_, s, d, rfl, reading, rfl⟩
  | some slash =>
      cases slash with
      | zero => exact ⟨_, s, d, rfl, reading, rfl⟩
      | succ slash =>
          refine achieves_bind (P := fun _ w => w = d) (fun s reading =>
            ⟨_, s, d, rfl, reading, rfl⟩) ?_ s reading
          rintro out w rfl
          apply achieves_bind (resolve_path_returns all large _ out)
          rintro (_ | ⟨cluster, out⟩) w rfl
          · exact achieves_pure rfl
          · dsimp only
            split
            · exact achieves_pure rfl
            · exact achieves_pure rfl

omit all large in
theorem junk_out_returns (d : Fat32Filesystem) :
    Achieves (Reading faults) junkOut d fun _ w => w = d :=
  fun s reading => ⟨_, s, d, rfl, reading, rfl⟩

theorem stat_returns (path : List UInt8) :
    Achieves (Reading faults) (stat fuel path) d fun _ w => w = d := by
  unfold stat
  split
  · exact achieves_pure rfl
  split
  · exact achieves_pure rfl
  · apply achieves_bind (junk_out_returns d)
    rintro out w rfl
    apply achieves_bind (resolve_path_returns all large path out)
    rintro (_ | ⟨cluster, out⟩) w rfl
    · exact achieves_pure rfl
    · exact achieves_pure rfl

theorem list_entry_returns (path : List UInt8) (index nameMax : Nat) :
    Achieves (Reading faults) (listEntry fuel path index nameMax) d fun _ w => w = d := by
  unfold listEntry
  apply achieves_bind (junk_out_returns d)
  rintro out w rfl
  apply achieves_bind (resolve_path_returns all large path out)
  rintro (_ | ⟨cluster, out⟩) w rfl
  · exact achieves_pure rfl
  · dsimp only
    split
    · apply achieves_bind (read_dir_entry_returns (all cluster) large index nameMax)
      rintro found w rfl
      exact achieves_pure rfl
    · exact achieves_pure rfl

theorem open_existing_halts {s : Fat32Filesystem} (reading : Reading faults s d)
    (path : List UInt8) : Halts («open» fuel path false) s := by
  unfold «open»
  refine halts_bind (R := Reading faults) (junk_out_returns d) reading ?_
  rintro out s₁ w reading₁ rfl
  refine halts_bind (R := Reading faults) (resolve_path_returns all large path out) reading₁ ?_
  rintro (_ | ⟨cluster, out⟩) s₂ w reading₂ rfl
  · exact ⟨_, rfl⟩
  · dsimp only
    unfold openEntry Halts
    dsimp only
    by_cases directory : isDirectory out.entry = true
    · rw [if_pos directory]
      exact ⟨_, rfl⟩
    · rw [if_neg directory]
      cases s₂.handles.findIdx? fun fh => !fh.inUse with
      | none => exact ⟨_, rfl⟩
      | some i => exact ⟨_, rfl⟩

end Paths

section Removal

/-! `removeEntry` writes. What is known of the state behind a write is at most the cells of the
FAT: `Knows count s (some cells)`; sectors of other content may lie on top of the FAT. -/

structure Knows (count : Nat) (s : Fat32Filesystem) (cells : Option (Nat → Nat)) : Prop where
  transparent : Transparent s
  granting : Granting s
  served : ∀ known, cells = some known → Served count s known

variable {count fuel : Nat} {s : Fat32Filesystem} {cells : Nat → Nat} {v : Option (Nat → Nat)}

theorem knows_served (served : Served count s cells) : Knows count s (some cells) := by
  refine ⟨served.transparent, served.granting, ?_⟩
  intro known same
  cases same
  exact served

theorem Knows.kept {s' : Fat32Filesystem} (knows : Knows count s v) {lba : Nat}
    (serves : Serves s s' lba) (same : core s' = core s) : Knows count s' v where
  transparent := serves.transparent
  granting := serves.granting knows.granting
  served := by
    intro known told
    have served := knows.served known told
    exact ⟨serves.transparent, serves.granting knows.granting,
      addressable_of_core s.ata.sectors served.addresses same,
      (count_of_core s.ata.sectors same).trans served.count,
      (fat_entry_of_core same).trans served.entries⟩

theorem knows_runs {α : Type} {f : Fs α} {a : α} {cells' : Nat → Nat}
    (runs : Runs (Served count) f cells a cells') :
    Runs (Knows count) f (some cells) a (some cells') := by
  intro s knows
  obtain ⟨s', run, served⟩ := runs s (knows.served cells rfl)
  exact ⟨s', run, knows_served served⟩

theorem heap_alloc_knows (v : Option (Nat → Nat)) :
    Achieves (Knows count) heapAlloc v fun _ w => w = v := by
  intro s knows
  obtain ⟨block, run, _⟩ := heap_alloc_cases s
  refine ⟨block, _, v, run, ⟨Transparent.congr knows.transparent rfl rfl, knows.granting, ?_⟩, rfl⟩
  intro known told
  have served := knows.served known told
  exact ⟨Transparent.congr served.transparent rfl rfl, served.granting, served.addresses,
    served.count, served.entries⟩

theorem read_sectors_knows (lba n i : Nat) (buf : Buf) (v : Option (Nat → Nat)) :
    Achieves (Knows count) (readSectors lba i n buf) v fun _ w => w = v := by
  induction n generalizing i buf with
  | zero => exact achieves_pure rfl
  | succ n ih =>
      unfold readSectors
      apply achieves_bind (P := fun _ w => w = v)
      · intro s knows
        obtain ⟨data, s', run, serves, same, _⟩ :=
          cache_read_cases knows.transparent (u32 (lba + i))
        exact ⟨data, s', v, run, knows.kept serves same, rfl⟩
      · rintro (_ | data) w rfl
        · exact achieves_pure rfl
        · exact ih (i + 1) _

theorem read_cluster_knows (c : Nat) (buf : Buf) (v : Option (Nat → Nat)) :
    Achieves (Knows count) (readCluster c buf) v fun _ w => w = v :=
  fun s knows => read_sectors_knows _ _ _ buf v s knows

theorem write_sectors_knows (lba n i : Nat) (buf : Buf) (v : Option (Nat → Nat)) :
    Achieves (Knows count) (writeSectors lba i buf n) v fun _ _ => True := by
  induction n generalizing i v with
  | zero => exact achieves_pure trivial
  | succ n ih =>
      unfold writeSectors
      apply achieves_bind (P := fun _ _ => True)
      · intro s knows
        obtain ⟨s', run, serves, _⟩ := cache_write_serves knows.granting knows.transparent
          (u32 (lba + i)) (sectorOf buf (i * sectorSize))
        exact ⟨true, s', none, run, ⟨serves.transparent, serves.granting knows.granting, by simp⟩,
          trivial⟩
      · rintro ok w _
        cases ok with
        | true => exact ih (i + 1) w
        | false => exact achieves_pure trivial

theorem write_cluster_knows (c : Nat) (buf : Buf) (v : Option (Nat → Nat)) :
    Achieves (Knows count) (writeCluster c buf) v fun _ _ => True :=
  fun s knows => write_sectors_knows _ _ _ buf v s knows

theorem flush_entries_halts (entries : List CacheEntry) (s : Fat32Filesystem) :
    Halts (flushEntries entries) s := by
  induction entries generalizing s with
  | nil => exact ⟨_, rfl⟩
  | cons entry rest ih =>
      unfold flushEntries Halts
      dsimp only
      cases entry.data with
      | none => exact ih s
      | some data =>
          dsimp only
          split
          · obtain ⟨r, run⟩ := ih { s with ata := _ }
            exact ⟨r, (bind_of_some (x := ataWrite _ _) rfl).trans run⟩
          · exact ih s

theorem flush_fat_halts (s : Fat32Filesystem) : Halts flushFat s := by
  obtain ⟨⟨_, s'⟩, run⟩ := flush_entries_halts s.cache s
  exact ⟨(true, s'), (bind_of_some (x := get) rfl).trans ((bind_of_some run).trans rfl)⟩

/-- Where `fatGet` leads on these cells. -/
def cellNext (count : Nat) (cells : Nat → Nat) (c : Nat) : Nat :=
  if count ≤ c then fatEoc else linkBits (cells (addressed c))

theorem fat_get_knows (cells : Nat → Nat) (c : Nat) :
    Runs (Knows count) (fatGet c) (some cells) (cellNext count cells c) (some cells) := by
  unfold cellNext
  by_cases beyond : count ≤ c
  · rw [if_pos beyond]
    intro s knows
    refine ⟨s, ?_, knows⟩
    unfold fatGet
    rw [(knows.served cells rfl).count, if_pos beyond]
  · rw [if_neg beyond]
    exact knows_runs (fat_get_cell (Nat.lt_of_not_le beyond) cells)

/-- The search for the cluster before an entry's stops there at the latest, also on a FAT in
which some links have been set to 0 since. -/
theorem find_previous_returns {d : Fat32Filesystem} {c x k prev : Nat}
    (links : ∀ y, cellNext count cells y = nextOf d y ∨ cellNext count cells y = 0)
    (reached : (nextOf d)^[k] c = x) (enough : k + 2 ≤ fuel) :
    Achieves (Knows count) (findPrevious x fuel prev c) (some cells) fun _ w => w = some cells := by
  induction k generalizing c prev fuel with
  | zero =>
      obtain _ | fuel := fuel
      · omega
      have here : c = x := reached
      unfold findPrevious
      rw [if_neg fun on => on.1 here]
      exact achieves_pure rfl
  | succ k ih =>
      obtain _ | _ | fuel := fuel
      · omega
      · omega
      unfold findPrevious
      split
      · apply achieves_bind_runs (fat_get_knows cells c)
        rcases links c with same | zero
        · rw [same]
          exact ih reached (by omega)
        · rw [zero]
          unfold findPrevious
          rw [if_neg fun on => absurd on.2.1 (by decide)]
          exact achieves_pure rfl
      · exact achieves_pure rfl

theorem clean_previous_returns {d : Fat32Filesystem} {c x : Nat}
    (links : ∀ y, cellNext count cells y = nextOf d y ∨ cellNext count cells y = 0)
    (visited : Visited d c x) (large : 4294967296 ≤ fuel) :
    Achieves (Knows count) (cleanPrevious fuel c x) (some cells) fun _ _ => True := by
  obtain ⟨k, soon, reached⟩ := visited
  unfold fatEoc at soon
  unfold cleanPrevious
  apply achieves_bind (find_previous_returns links reached (by omega))
  rintro prev w rfl
  split
  · exact achieves_pure trivial
  · apply achieves_bind (heap_alloc_knows (some cells))
    rintro (_ | block) w rfl
    · exact achieves_pure trivial
    · apply achieves_bind (read_cluster_knows prev block (some cells))
      rintro ⟨ok, buf⟩ w rfl
      dsimp only
      split
      · apply achieves_get
        intro s _
        apply achieves_bind (write_cluster_knows prev _ (some cells))
        intro _ w _
        exact achieves_pure trivial
      · exact achieves_pure trivial

theorem delete_slots_halts {d : Fat32Filesystem} {c : Nat} {found : Found}
    (links : ∀ y, cellNext count cells y = nextOf d y ∨ cellNext count cells y = 0)
    (visited : Visited d c found.cluster) (large : 4294967296 ≤ fuel)
    (served : Served count s cells) : Halts (deleteSlots fuel c found) s := by
  unfold deleteSlots
  refine halts_bind (heap_alloc_knows (some cells)) (knows_served served) ?_
  rintro (_ | block) s₁ w knows₁ rfl
  · exact ⟨_, rfl⟩
  · refine halts_bind (read_cluster_knows found.cluster block (some cells)) knows₁ ?_
    rintro ⟨ok, buf⟩ s₂ w knows₂ rfl
    dsimp only
    split
    · refine halts_bind (R := Knows count) (v := some cells) (Q := fun _ _ => True) ?_ knows₂ ?_
      · split
        · exact clean_previous_returns links visited large
        · exact achieves_pure trivial
      · intro _ s₃ w knows₃ _
        refine halts_bind (write_cluster_knows found.cluster _ w) knows₃ ?_
        intro _ s₄ w knows₄ _
        obtain ⟨⟨ok, s₅⟩, run⟩ := flush_fat_halts s₄
        exact ⟨(true, s₅), (bind_of_some run).trans rfl⟩
    · exact ⟨_, rfl⟩

theorem free_chain_returns (cells : Nat → Nat) (c : Nat) (bounded : count < 4294967296)
    (large : 4294967296 ≤ fuel) : ∃ freed : Finset Nat,
      Runs (Served count) (freeChain fuel c) cells PUnit.unit (emptied cells freed) := by
  by_cases range : InRange count c
  · by_cases small : c < 1073741824
    · have rounds : count - 2 + 2 ≤ fuel := by omega
      obtain ⟨freed, _, run⟩ := free_chain_empties cells small rounds
      exact ⟨freed, run⟩
    · have rounds : count + 1 ≤ fuel := by omega
      obtain ⟨freed, _, _, run⟩ :=
        free_chain_misplaces cells range (Nat.le_of_not_lt small) rounds
      exact ⟨freed, run⟩
  · obtain _ | fuel := fuel
    · omega
    · refine ⟨∅, ?_⟩
      rw [emptied_none]
      exact free_chain_outside range cells

variable {d : Fat32Filesystem}

theorem next_of_cells (addresses : Addressable d) (c : Nat) :
    nextOf d c = cellNext d.fatEntryCount (fatEntry d) c := by
  unfold nextOf cellNext
  by_cases beyond : d.fatEntryCount ≤ c
  · rw [if_pos beyond, if_pos beyond]
  · rw [if_neg beyond, if_neg beyond]
    obtain ⟨sector, offset⟩ := fat_address addresses (Nat.lt_of_not_le beyond)
    rw [sector, offset]
    rfl

theorem emptied_links (addresses : Addressable d) (freed : Finset Nat) (c : Nat) :
    cellNext d.fatEntryCount (emptied (fatEntry d) freed) c = nextOf d c ∨
      cellNext d.fatEntryCount (emptied (fatEntry d) freed) c = 0 := by
  rw [next_of_cells addresses]
  unfold cellNext
  split
  · exact .inl rfl
  · by_cases member : addressed c ∈ freed
    · rw [emptied_self member, link_bits_top_bits]
      exact .inr rfl
    · rw [emptied_other member]
      exact .inl rfl

abbrev servedDrive : Faults := ⟨false, true⟩

theorem reading_served (reading : Reading servedDrive s d) (addresses : Addressable d) :
    Served d.fatEntryCount s (fatEntry d) := by
  obtain rfl := reading.same
  exact ⟨reading.transparent, reading.granting rfl, addresses, rfl, rfl⟩

theorem free_and_delete_halts (reading : Reading servedDrive s d) (addresses : Addressable d)
    (bounded : d.fatEntryCount < 4294967296) (large : 4294967296 ≤ fuel) {c : Nat} (content : Nat)
    {found : Found} (visited : Visited d c found.cluster) :
    Halts (do
      freeChain fuel content
      deleteSlots fuel c found) s := by
  obtain ⟨freed, frees⟩ := free_chain_returns (fatEntry d) content bounded large
  obtain ⟨s', run, served'⟩ := frees s (reading_served reading addresses)
  obtain ⟨r, rest⟩ := delete_slots_halts (emptied_links addresses freed) visited large served'
  exact ⟨r, (bind_of_some run).trans rest⟩

theorem remove_entry_halts (all : ∀ c, Terminating d c) (reading : Reading servedDrive s d)
    (addresses : Addressable d) (bounded : d.fatEntryCount < 4294967296)
    (large : 4294967296 ≤ fuel) (c : Nat) (name : List UInt8) :
    Halts (removeEntry fuel c name) s := by
  unfold removeEntry
  refine halts_bind (R := Reading servedDrive) (find_entry_returns (all c) large name) reading ?_
  rintro (_ | found) s₁ w reading₁ ⟨rfl, listed⟩
  · exact ⟨_, rfl⟩
  · have visited := listed found rfl
    dsimp only
    split
    · refine halts_bind (R := Reading servedDrive)
        (read_dir_entry_returns (all _) large 0 maxName) reading₁ ?_
      rintro (_ | inside) s₂ w' reading₂ rfl
      · exact free_and_delete_halts reading₂ addresses bounded large _ visited
      · exact ⟨_, rfl⟩
    split
    · exact free_and_delete_halts reading₁ addresses bounded large _ visited
    · have links := emptied_links addresses ∅
      rw [emptied_none] at links
      exact delete_slots_halts links visited large (reading_served reading₁ addresses)

theorem remove_halts (all : ∀ c, Terminating d c) (reading : Reading servedDrive s d)
    (addresses : Addressable d) (bounded : d.fatEntryCount < 4294967296)
    (large : 4294967296 ≤ fuel) (path : List UInt8) : Halts (remove fuel path) s := by
  unfold remove
  split
  · exact ⟨_, rfl⟩
  · refine halts_bind (R := Reading servedDrive)
      (resolve_parent_path_returns all large path maxName) reading ?_
    rintro (_ | ⟨cluster, name⟩) s₁ w reading₁ rfl
    · exact ⟨_, rfl⟩
    · dsimp only
      split
      · exact ⟨_, rfl⟩
      · exact remove_entry_halts all reading₁ addresses bounded large cluster name

end Removal

section Termination

/-- The program returns before one of its `u32` counters has wrapped. -/
def Returns {α : Type} (f : Nat → Fs α) (s : Fat32Filesystem) : Prop :=
  ∃ fuel, fuel ≤ 4294967296 ∧ Halts (f fuel) s

/-- Whatever the drive and the heap answer, the directory at `c` is searched in finitely many
steps. -/
structure ClusterLookups (s₀ : Fat32Filesystem) (c : Nat) : Prop where
  readDirEntry : ∀ s, Transparent s → core s = core s₀ → ∀ index nameMax,
    Returns (fun fuel => Filesystem.readDirEntry fuel c index nameMax) s
  findEntry : ∀ s, Transparent s → core s = core s₀ → ∀ name,
    Returns (fun fuel => Filesystem.findEntry fuel c name) s

/-- The same for every directory and for the operations that look directories up; `remove`, which
writes, is stated for a drive that serves every request. -/
structure LookupsReturn (s₀ : Fat32Filesystem) : Prop where
  clusters : ∀ c, ClusterLookups s₀ c
  resolvePath : ∀ s, Transparent s → core s = core s₀ → ∀ path out,
    Returns (fun fuel => Filesystem.resolvePath fuel path out) s
  resolveParentPath : ∀ s, Transparent s → core s = core s₀ → ∀ path nameMax,
    Returns (fun fuel => Filesystem.resolveParentPath fuel path nameMax) s
  stat : ∀ s, Transparent s → core s = core s₀ → ∀ path,
    Returns (fun fuel => Operations.stat fuel path) s
  listEntry : ∀ s, Transparent s → core s = core s₀ → ∀ path index nameMax,
    Returns (fun fuel => Operations.listEntry fuel path index nameMax) s
  openExisting : ∀ s, Transparent s → core s = core s₀ → ∀ path,
    Returns (fun fuel => Operations.open fuel path false) s
  remove : ∀ s, Transparent s → Granting s → core s = core s₀ → ∀ path,
    Returns (fun fuel => Operations.remove fuel path) s

abbrev anyFailure : Faults := ⟨true, true⟩

variable {s₀ s : Fat32Filesystem}

theorem reading_any (transparent : Transparent s) (same : core s = core s₀) :
    Reading anyFailure s (core s₀) := ⟨transparent, nofun, nofun, same⟩

/-- The object of the same content with an empty cache and nothing to fail. -/
def undisturbed (s : Fat32Filesystem) : Fat32Filesystem :=
  { s with
    ata := ⟨s.ata.sectors, []⟩
    heap := ⟨[], s.heap.junk⟩
    cache := List.replicate cacheSize emptyCacheEntry }

theorem undisturbed_reading (s : Fat32Filesystem) :
    Reading noFailure (undisturbed s) (core s) :=
  ⟨transparent_empty rfl, fun _ _ member => absurd member List.not_mem_nil,
    fun _ _ member => absurd member List.not_mem_nil, rfl⟩

theorem cluster_lookups_iff (s₀ : Fat32Filesystem) (c : Nat) :
    ClusterLookups s₀ c ↔ Terminating (core s₀) c := by
  constructor
  · intro lookups
    by_contra endless
    have reading := undisturbed_reading s₀
    obtain ⟨fuel, small, ⟨found, s'⟩, run⟩ :=
      lookups.findEntry (undisturbed s₀) reading.transparent reading.same absentName
    obtain ⟨_, _, never⟩ := find_entry_endless endless small _ reading _ _ run
    exact never
  · intro terminating
    constructor
    · intro s transparent same index nameMax
      exact ⟨_, Nat.le_refl _, (read_dir_entry_returns terminating (Nat.le_refl _) index
        nameMax).halts (reading_any transparent same)⟩
    · intro s transparent same name
      exact ⟨_, Nat.le_refl _, (find_entry_returns terminating (Nat.le_refl _) name).halts
        (reading_any transparent same)⟩

theorem mounted_addressable {boot : Sector} (mounted : MountedFrom boot s) :
    Addressable (core s) ∧ (core s).fatEntryCount < 4294967296 := by
  constructor
  · intro c _
    have start : (core s).fatStartSector = reservedSectors boot := mounted.fatStart
    have low : reservedSectors boot < 65536 := le16_lt ..
    have inside : addressed c < 1073741824 := Nat.mod_lt _ (by decide)
    omega
  · have entries : (core s).fatEntryCount = u32 _ := mounted.entries
    rw [entries]
    exact Nat.mod_lt _ (by decide)

theorem lookups_return (all : ∀ c, Terminating (core s₀) c) (addresses : Addressable (core s₀))
    (bounded : (core s₀).fatEntryCount < 4294967296) : LookupsReturn s₀ := by
  constructor
  · intro c
    exact (cluster_lookups_iff s₀ c).2 (all c)
  · intro s transparent same path out
    exact ⟨_, Nat.le_refl _, (resolve_path_returns all (Nat.le_refl _) path out).halts
      (reading_any transparent same)⟩
  · intro s transparent same path nameMax
    exact ⟨_, Nat.le_refl _, (resolve_parent_path_returns all (Nat.le_refl _) path nameMax).halts
      (reading_any transparent same)⟩
  · intro s transparent same path
    exact ⟨_, Nat.le_refl _, (stat_returns all (Nat.le_refl _) path).halts
      (reading_any transparent same)⟩
  · intro s transparent same path index nameMax
    exact ⟨_, Nat.le_refl _, (list_entry_returns all (Nat.le_refl _) path index nameMax).halts
      (reading_any transparent same)⟩
  · intro s transparent same path
    exact ⟨_, Nat.le_refl _,
      open_existing_halts all (Nat.le_refl _) (reading_any transparent same) path⟩
  · intro s transparent granting same path
    exact ⟨_, Nat.le_refl _, remove_halts all ⟨transparent, fun _ => granting, nofun, same⟩
      addresses bounded (Nat.le_refl _) path⟩

end Termination

end CassiOS.Fat32.LookupTermination
