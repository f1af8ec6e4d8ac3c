import CassiOS.Fat32.DirectoryItems
import CassiOS.Fat32.LongNames
import CassiOS.Fat32.ShortNames

/-!
# Names of created entries

After `createEntry` the directory lists one entry more, and `findEntry` finds it under the name
it is listed with. That is the name it was created for, unless the name has a dot and is kept in
the short slot alone.
-/

namespace CassiOS.Fat32.CreatedNames

open CassiOS.Support.PartialProgram
open CassiOS.Support.Pieces
open CassiOS.Fat32.Types
open CassiOS.Fat32.Names
open CassiOS.Fat32.Device
open CassiOS.Fat32.Filesystem
open CassiOS.Fat32.VolumeModel
open CassiOS.Fat32.FileModel
open CassiOS.Fat32.DirectoryModel
open CassiOS.Fat32.SlotRuns
open CassiOS.Fat32.CreateEntry
open CassiOS.Fat32.LongNames
open CassiOS.Fat32.ShortNames (newEntry long_slot_attr)
open CassiOS.Fat32.DirectoryItems
open CassiOS.Fat32.Enumeration (isVisible)

set_option autoImplicit false

def storedName (name : List UInt8) : List UInt8 :=
  if needsLfn name then name else shortNameToString (nameToShort name) 0 maxName

section PlainNames

variable {name : List UInt8}

theorem last_dot_none (clean : charDot ∉ name) (i : Nat) : lastDotFrom name i none = none := by
  induction name generalizing i with
  | nil => rfl
  | cons c name ih =>
      have other : c ≠ charDot := fun same => clean (same ▸ List.mem_cons_self)
      rw [lastDotFrom, if_neg other]
      exact ih (fun member => clean (List.mem_cons_of_mem c member)) (i + 1)

/-- A name that fits a short slot has no blanks and no lower-case letters. -/
theorem scan_short_plain (clean : charDot ∉ name) {i : Nat} {dot : Option Nat}
    {answer : Option Nat} (scanned : scanShort name i dot = some answer) :
    answer = dot ∧ ∀ c ∈ name, isLower c = false ∧ c ≠ charSpace := by
  induction name generalizing i with
  | nil => exact ⟨(Option.some.inj scanned).symm, fun c member => absurd member List.not_mem_nil⟩
  | cons c name ih =>
      have other : c ≠ charDot := fun same => clean (same ▸ List.mem_cons_self)
      rw [scanShort, if_neg other] at scanned
      split at scanned
      · cases scanned
      next notLower =>
      split at scanned
      · cases scanned
      next notSpace =>
      obtain ⟨same, rest⟩ := ih (fun member => clean (List.mem_cons_of_mem c member)) scanned
      refine ⟨same, fun d member => ?_⟩
      rcases List.mem_cons.1 member with rfl | later
      · exact ⟨Bool.eq_false_iff.2 notLower, notSpace⟩
      · exact rest d later

theorem short_base_plain (few : name.length ≤ 8) (clean : charDot ∉ name)
    (plain : ∀ c ∈ name, isLower c = false ∧ c ≠ charSpace) : shortBase name = name := by
  have noDot : lastDot name = none := last_dot_none clean 0
  have kept : (name.filter fun c => c != charSpace && c != charDot) = name := by
    apply List.filter_eq_self.2
    intro c member
    have other : c ≠ charDot := fun same => clean (same ▸ member)
    rw [bne_iff_ne.2 (plain c member).2, bne_iff_ne.2 other]
    rfl
  have upper : name.map toUpper = name := by
    apply List.map_congr_left (g := id) ?_ |>.trans (List.map_id name)
    intro c member
    exact if_neg (Bool.eq_false_iff.1 (plain c member).1)
  unfold shortBase
  dsimp only
  rw [noDot, Option.getD_none, if_neg (by
    rintro (long | some_)
    · omega
    · cases some_), List.take_length, kept, List.take_of_length_le few, upper]

theorem short_name_plain (few : name.length ≤ 8) (clean : charDot ∉ name)
    (plain : ∀ c ∈ name, isLower c = false ∧ c ≠ charSpace) :
    shortNameToString (nameToShort name) 0 maxName = name := by
  have base := short_base_plain few clean plain
  have noDot : lastDot name = none := last_dot_none clean 0
  have extension : shortExtension name = [] := by
    unfold shortExtension
    rw [noDot]
  have whole : (padSpaces 8 name).length = 8 := pad_spaces_length few
  unfold nameToShort
  rw [base, extension]
  have front : (padSpaces 8 name ++ padSpaces 3 []).take 8 = padSpaces 8 name :=
    List.take_left' whole
  have blank : (padSpaces 8 name ++ padSpaces 3 []).getD 8 charSpace = charSpace := by
    rw [List.getD_eq_getElem?_getD, List.getElem?_append_right (by omega), whole]
    rfl
  have stops : (padSpaces 8 name).takeWhile (· != charSpace) = name := by
    unfold padSpaces
    rw [List.takeWhile_append_of_pos fun c member => bne_iff_ne.2 (plain c member).2]
    cases 8 - name.length with
    | zero => exact List.append_nil name
    | succ n => exact List.append_nil name
  unfold shortNameToString
  dsimp only
  rw [front, blank, List.take_of_length_le (by rw [whole]; decide), stops]
  exact List.map_id name

/-- Only a name with a dot that is kept in the short slot alone is listed as another one. -/
theorem stored_name_same (kept : needsLfn name = true ∨ charDot ∉ name) :
    storedName name = name := by
  unfold storedName
  split
  · rfl
  · next short =>
    rcases kept with long | clean
    · exact absurd long short
    · unfold needsLfn at short
      split at short
      · exact absurd rfl short
      · cases scanned : scanShort name 0 none with
        | none =>
            rw [scanned] at short
            exact absurd rfl short
        | some answer =>
            obtain ⟨rfl, plain⟩ := scan_short_plain clean scanned
            rw [scanned] at short
            exact short_name_plain (by simpa using short) clean plain

end PlainNames

section NewEntry

variable {name : List UInt8} {kind : UInt8} {content : Nat}

/-- The names in scope: 1 to 247 ASCII characters, so that nineteen slots are enough. -/
structure EntryName (name : List UInt8) : Prop where
  nonempty : 1 ≤ name.length
  short : name.length ≤ 247
  ascii : ∀ c ∈ name, 0x01 ≤ c ∧ c ≤ 0x7F

theorem EntryName.long (valid : EntryName name) : LongName name :=
  ⟨valid.nonempty, Nat.le_trans valid.short (by decide), valid.ascii⟩

theorem upper_not_dot {c : UInt8} (other : c ≠ charDot) : toUpper c ≠ charDot := by
  have all : ∀ n : Fin 256, UInt8.ofNat n.val ≠ charDot →
      toUpper (UInt8.ofNat n.val) ≠ charDot := by
    decide +kernel
  have same : UInt8.ofNat c.toNat = c := UInt8.ofNat_toNat
  rw [← same] at other ⊢
  exact all ⟨c.toNat, c.toNat_lt⟩ other

theorem short_base_dot (name : List UInt8) : charDot ∉ shortBase name := by
  have stored : ∀ baseLen n, charDot ∉ (((name.take baseLen).filter
      fun c => c != charSpace && c != charDot).take n).map toUpper := by
    intro baseLen n member
    obtain ⟨c, kept, upper⟩ := List.mem_map.1 member
    have other := (List.mem_filter.1 (List.mem_of_mem_take kept)).2
    rw [Bool.and_eq_true, bne_iff_ne, bne_iff_ne] at other
    exact upper_not_dot other.2 upper
  have tail : charDot ∉ [charTilde, 0x31 + UInt8.ofNat (name.length % 9)] := by
    intro member
    rcases List.mem_cons.1 member with same | last
    · exact absurd same (by decide)
    · exact tail_digit (P := (charDot ≠ ·)) (by decide) name.length (List.mem_singleton.1 last)
  unfold shortBase
  dsimp only
  split
  · rw [← List.map_take, List.take_take, List.mem_append]
    rintro (early | last)
    · exact stored _ _ early
    · exact tail last
  · exact stored _ _

theorem name_to_short_dot (name : List UInt8) : (nameToShort name).getD 0 charSpace ≠ charDot := by
  have dotless := short_base_dot name
  unfold nameToShort padSpaces
  cases base : shortBase name with
  | nil =>
      change charSpace ≠ charDot
      decide
  | cons c rest =>
      rw [base] at dotless
      exact fun same => dotless (same ▸ List.mem_cons_self)

theorem new_entry_visible (valid : EntryName name) (shown : kind &&& DirAttr.volumeId = 0)
    {slot : Slot} (here : slot.entry = newEntry name kind content) :
    Short slot ∧ isVisible slot = true := by
  obtain ⟨notEnd, notFree⟩ := live_marks (e := newEntry name kind content)
    (name_to_short_live valid.ascii)
  have notLabel : isVolumeId (newEntry name kind content) = false := by
    change (kind &&& DirAttr.volumeId != 0) = false
    rw [shown]
    rfl
  have plain : isLfnEntry (newEntry name kind content) = false := by
    change (kind == DirAttr.lfnMask) = false
    apply beq_eq_false_iff_ne.2
    rintro rfl
    exact absurd shown (by decide)
  have notDot : isDotEntry (newEntry name kind content) = false := by
    have other : newEntry name kind content 0 ≠ 0x2E := name_to_short_dot name
    unfold isDotEntry
    rw [beq_eq_false_iff_ne.2 other, Bool.false_and]
  constructor
  · constructor
    · unfold unused
      rw [here, notEnd, notFree]
      rfl
    · rw [here]
      exact plain
  · unfold isVisible
    rw [here, notFree, plain, notLabel, notDot]
    rfl

theorem fresh_item (valid : EntryName name) (shown : kind &&& DirAttr.volumeId = 0)
    {written : List Slot} (entries : written.map Slot.entry =
      longSlots name (lfnChecksum (nameToShort name))
        (if needsLfn name then lfnCount name else 0) ++ [newEntry name kind content]) :
    ∃ longs short, written = longs ++ [short] ∧ (Item.entry longs short).Sound ∧
      isVisible short = true ∧ short.entry = newEntry name kind content ∧
      entryName (longs.map Slot.entry) short.entry maxName = storedName name := by
  obtain ⟨longs, shorts, rfl, front, back⟩ := List.map_eq_append_iff.1 entries
  obtain ⟨short, rfl, last⟩ := List.map_eq_singleton_iff.1 back
  obtain ⟨used, visible⟩ := new_entry_visible valid shown last
  have few : lfnCount name ≤ 19 := by
    have small := valid.short
    unfold lfnCount lfnCharsPerEntry
    omega
  have count : longs.length = if needsLfn name then lfnCount name else 0 := by
    rw [← List.length_map (f := Slot.entry), front, long_slots_length]
  refine ⟨longs, short, rfl, ⟨?_, ?_, used⟩, visible, last, ?_⟩
  · intro slot member
    have inside : slot.entry ∈ longSlots name (lfnChecksum (nameToShort name))
        (if needsLfn name then lfnCount name else 0) := by
      rw [← front]
      exact List.mem_map_of_mem member
    obtain ⟨notEnd, notFree⟩ := long_slots_live (Nat.le_trans valid.short (by decide)) _ inside
    refine ⟨?_, long_slot_attr inside⟩
    unfold unused
    rw [notEnd, notFree]
    rfl
  · rw [count]
    split
    · exact few
    · exact Nat.zero_le 19
  · unfold entryName storedName
    rw [List.length_map, count, front]
    by_cases long : needsLfn name = true
    · have some_ : 0 < lfnCount name := by
        have nonempty := valid.nonempty
        unfold lfnCount lfnCharsPerEntry
        omega
      rw [if_pos long, if_pos some_, if_pos long]
      exact extract_created_slots valid.long
    · rw [if_neg long, if_neg (Nat.lt_irrefl 0), if_neg long, last]
      change shortNameToString (shortName (shortSlot (nameToShort name) kind)) 0 maxName = _
      rw [short_name_short_slot (name_to_short_length name)]

end NewEntry

section Listing

variable {faults : Faults} {v w : Volume} {start : Nat} {cs cs' : List Nat} {items : List Item}
  {name : List UInt8} {kind : UInt8} {new : Found} {at_ : Nat × Nat}

/-- The entry `new` of the given kind is at `at_`, the others are listed as they were. -/
structure Inserted (v w : Volume) (cs cs' : List Nat) (name : List UInt8) (kind : UInt8)
    (at_ : Nat × Nat) (new : Found) : Prop where
  listing : ∃ front back, entriesOf v cs = front ++ back ∧ entriesOf w cs' = front ++ new :: back
  name : new.name = storedName name
  kind : attr new.entry = kind
  place : (new.cluster, new.offset) = at_
  size : fileSize new.entry = 0

theorem Inserted.lookup_other (inserted : Inserted v w cs cs' name kind at_ new)
    {other : List UInt8} (apart : nameEquals (storedName name) other = false) :
    lookup w cs' other = lookup v cs other := by
  obtain ⟨front, back, old, now⟩ := inserted.listing
  unfold lookup
  rw [old, now, List.find?_append, List.find?_append, List.find?_cons_of_neg]
  rw [inserted.name, apart]
  exact Bool.false_ne_true

theorem Inserted.lookup_new (inserted : Inserted v w cs cs' name kind at_ new)
    (fresh : lookup v cs (storedName name) = none) : lookup w cs' (storedName name) = some new := by
  obtain ⟨front, back, old, now⟩ := inserted.listing
  unfold lookup at fresh ⊢
  rw [old, List.find?_append, Option.or_eq_none_iff] at fresh
  rw [now, List.find?_append, fresh.1, Option.none_or, List.find?_cons_of_pos]
  rw [inserted.name]
  exact name_equals_self _

theorem written_inserted (dir : Directory v start cs items) (valid : EntryName name)
    (shown : kind &&& DirAttr.volumeId = 0) {extra : List Nat}
    {before run written behind : List Slot} {content : Nat}
    (done : Written v start cs name kind at_ w extra before run written behind content) :
    ∃ front back longs short new, items ++ (zeroSlots v extra).map Item.gap =
        front ++ (run.map Item.gap ++ back) ∧ written = longs ++ [short] ∧
      Directory w start (cs ++ extra) (front ++ .entry longs short :: back) ∧
      Item.listed maxName (.entry longs short) = some new ∧
      new.entry = newEntry name kind content ∧
      Inserted v w cs (cs ++ extra) name kind at_ new := by
  obtain ⟨longs, short, rfl, sound, visible, here, named⟩ := fresh_item valid shown done.entries
  have zeros : ∀ slot ∈ zeroSlots v extra, unused slot = true := fun _ => zero_slots_unused
  have tiled := tiled_append dir.tiled (gaps_tiled zeros)
  rw [done.old] at tiled
  have some_ : run ≠ [] := by
    rintro rfl
    have places := done.places
    rw [List.map_append] at places
    exact absurd places (by simp)
  obtain ⟨front, back, same, first, last⟩ := tiled_run tiled done.unused some_
  have ends := (created_of_written dir.ended (Nat.le_trans valid.short (by decide)) valid.ascii
    done).ended
  have dir' : Directory w start (cs ++ extra) (front ++ .entry longs short :: back) := by
    refine ⟨done.chain, ends, ?_, ?_⟩
    · rw [done.new, List.flatMap_append, List.flatMap_cons, first.cover, last.cover]
      rfl
    · intro item member
      rcases List.mem_append.1 member with early | rest
      · exact first.sound item early
      · rcases List.mem_cons.1 rest with rfl | late
        · exact sound
        · exact last.sound item late
  have new : Item.listed maxName (.entry longs short) = some _ := if_pos visible
  refine ⟨front, back, longs, short, _, same, rfl, dir', new, here, ?_⟩
  constructor
  · refine ⟨front.filterMap (Item.listed maxName), back.filterMap (Item.listed maxName), ?_, ?_⟩
    · have whole := congrArg (List.filterMap (Item.listed maxName)) same
      rw [List.filterMap_append, listed_gaps, List.append_nil, List.filterMap_append,
        List.filterMap_append, listed_gaps, List.nil_append] at whole
      rw [dir.entries, whole]
    · rw [dir'.entries, List.filterMap_append, List.filterMap_cons_some new]
  · exact named
  · change attr short.entry = kind
    rw [here]
    rfl
  · have last := done.short
    rw [List.map_append, List.map_singleton, List.getLast?_concat] at last
    exact Option.some.inj last
  · change fileSize short.entry = 0
    rw [here]
    rfl

/-- `createEntry` adds one entry to the directory, at the place it answers. `findEntry` finds it
under the name it is listed with, and every other name means what it did. -/
theorem created_entry_found (dir : Directory v start cs items) (valid : EntryName name)
    (shown : kind &&& DirAttr.volumeId = 0) (fresh : Finds v start (storedName name) none)
    {fuel : Nat} (enough : cs.length + 21 ≤ fuel) :
    (needsLfn name = true ∨ charDot ∉ name → storedName name = name) ∧
    Achieves (Stands ⟨false, false⟩) (createEntry fuel start name kind) v fun answer w =>
      ∀ at_, answer = some at_ → ∃ cs' items' new, Directory w start cs' items' ∧
        Inserted v w cs cs' name kind at_ new ∧ Finds w start (storedName name) (some new) ∧
        (∀ other answer, nameEquals (storedName name) other = false →
          Finds v start other answer → Finds w start other answer) ∧
        ∀ c, c ∉ cs → ¬ v.Free c → w.cluster c = v.cluster c ∧ w.fat c = v.fat c := by
  refine ⟨stored_name_same, ?_⟩
  intro s stands
  have count := lfn_count_small (Nat.le_trans valid.short (by decide) : name.length ≤ 255)
  have nothing := finds_unique stands (finds_lookup dir.chain (storedName name)) fresh
  apply ((create_entry_writes rfl dir.chain name kind (by omega)).mono ?_) s stands
  intro answer w writes at_ answered
  obtain ⟨extra, before, run, written, behind, content, done⟩ := writes at_ answered
  obtain ⟨front, back, longs, short, new, _, _, dir', _, _, inserted⟩ :=
    written_inserted dir valid shown done
  refine ⟨cs ++ extra, _, new, dir', inserted, ?_, ?_, done.others⟩
  · rw [← inserted.lookup_new nothing]
    exact finds_lookup dir'.chain _
  · intro other found apart finds
    rw [finds_unique stands finds (finds_lookup dir.chain other), ← inserted.lookup_other apart]
    exact finds_lookup dir'.chain other

/-- A file `b` in directory 3 of the small volume is found afterwards. -/
theorem small_entry_found : ∃ at_ s' w new,
    createEntry 22 3 [0x62] DirAttr.archive PathWalk.smallVolume = some (some at_, s') ∧
      Stands ⟨false, false⟩ s' w ∧ Finds w 3 [0x62] (some new) := by
  have valid : EntryName [0x62] := by
    refine ⟨by decide, by decide, ?_⟩
    intro c member
    rw [List.mem_singleton.1 member]
    decide
  have stored : storedName [0x62] = [0x62] := by decide +kernel
  have nothing : lookup (volumeOf PathWalk.smallVolume) [3] (storedName [0x62]) = none := by
    unfold lookup
    rw [List.eq_nil_iff_forall_not_mem.2 PathWalk.small_volume_sub]
    rfl
  have dir := small_volume_items (.inr rfl)
  have shown : DirAttr.archive &&& DirAttr.volumeId = 0 := by decide
  have enough : [3].length + 21 ≤ 22 := by decide
  have total := (created_entry_found dir valid shown (nothing ▸ finds_lookup dir.chain _) enough).2
  obtain ⟨answer, s', w, run, stands, found⟩ :=
    total PathWalk.smallVolume PathWalk.small_volume_stands
  have answers : ((createEntry 22 3 [0x62] DirAttr.archive PathWalk.smallVolume).map fun r =>
      r.1.isSome) = some true := by decide +kernel
  rw [run] at answers
  obtain ⟨at_, rfl⟩ := Option.isSome_iff_exists.1 (Option.some.inj answers)
  obtain ⟨_, _, new, _, _, finds, _⟩ := found at_ rfl
  exact ⟨at_, s', w, new, run, stands, stored ▸ finds⟩

end Listing

end CassiOS.Fat32.CreatedNames
