import CassiOS.Fat32.DirectoryModel
import Mathlib.Data.List.DropRight

/-!
# Enumeration of a directory

`parse` reads a directory off the flat sequence of its slots: the visible slots up to the
end mark, each with the run of long-name slots between it and the slot before that is none.
`readDirEntry`, `findEntry` and `listEntry` answer what is parsed.
-/

namespace CassiOS.Fat32.Enumeration

open CassiOS.Support.PartialProgram
open CassiOS.Fat32.Types
open CassiOS.Fat32.Names
open CassiOS.Fat32.Device
open CassiOS.Fat32.Filesystem
open CassiOS.Fat32.Operations
open CassiOS.Fat32.VolumeModel
open CassiOS.Fat32.FileModel
open CassiOS.Fat32.DirectoryModel

set_option autoImplicit false

section Reference

/-- A slot of a long name; a free slot is none, whatever its attribute. -/
def isLong (slot : Slot) : Bool := !isFree slot.entry && isLfnEntry slot.entry

def isVisible (slot : Slot) : Bool :=
  !isFree slot.entry && !isLfnEntry slot.entry && !isVolumeId slot.entry && !isDotEntry slot.entry

def beforeEnd (slots : List Slot) : List Slot := slots.takeWhile fun slot => !isEnd slot.entry

/-- The long-name slots between slot `k` and the nearest one before it that is none. -/
def runBefore (slots : List Slot) (k : Nat) : List Slot := (slots.take k).rtakeWhile isLong

/-- A visible slot and the long-name slots before it. -/
structure Parsed where
  run : List Slot
  slot : Slot

def parseAt (slots : List Slot) (k : Nat) : Option Parsed :=
  (slots[k]?).bind fun slot => if isVisible slot then some ⟨runBefore slots k, slot⟩ else none

def parse (slots : List Slot) : List Parsed :=
  (List.range slots.length).filterMap (parseAt slots)

/-- The long name, or the short one where there are no slots for a long one. -/
def Parsed.name (p : Parsed) (nameMax : Nat) : List UInt8 :=
  if p.run = [] then shortNameToString (shortName p.slot.entry) (ntReserved p.slot.entry) nameMax
  else extractLfn (p.run.map Slot.entry) nameMax

def Parsed.found (nameMax : Nat) (p : Parsed) : Found :=
  ⟨p.name nameMax, p.slot.entry, p.slot.cluster, p.slot.offset⟩

/-- The visible entries of the directory with the clusters `cs`. -/
def visibleEntries (nameMax : Nat) (v : Volume) (cs : List Nat) : List Found :=
  (parse (beforeEnd (slotsOf v cs))).map (Parsed.found nameMax)

/-- Nowhere are there more than `most` long-name slots in a row. -/
def RunsUpTo (most : Nat) (slots : List Slot) : Prop :=
  ∀ k ≤ slots.length, (runBefore slots k).length ≤ most

instance (most : Nat) (slots : List Slot) : Decidable (RunsUpTo most slots) :=
  inferInstanceAs (Decidable (∀ k ≤ slots.length, (runBefore slots k).length ≤ most))

end Reference

section Parsing

variable {slots before rest : List Slot} {slot : Slot}

/-- What is parsed of `rest` behind `before`. -/
def parseFrom (before : List Slot) : List Slot → List Parsed
  | [] => []
  | slot :: rest =>
      if isVisible slot then
        ⟨before.rtakeWhile isLong, slot⟩ :: parseFrom (before ++ [slot]) rest
      else parseFrom (before ++ [slot]) rest

theorem parse_range (before rest : List Slot) :
    (List.range' before.length rest.length).filterMap (parseAt (before ++ rest)) =
      parseFrom before rest := by
  induction rest generalizing before with
  | nil => rfl
  | cons slot rest ih =>
      have next := ih (before ++ [slot])
      rw [List.append_assoc, List.singleton_append, List.length_append] at next
      have here : parseAt (before ++ slot :: rest) before.length =
          if isVisible slot then some ⟨before.rtakeWhile isLong, slot⟩ else none := by
        unfold parseAt runBefore
        rw [List.getElem?_append_right (Nat.le_refl _), Nat.sub_self, List.take_left]
        rfl
      rw [List.length_cons, List.range'_succ, List.filterMap_cons, here, parseFrom]
      cases isVisible slot with
      | true => exact congrArg (List.cons _) next
      | false => exact next

theorem parse_eq (slots : List Slot) : parse slots = parseFrom [] slots := by
  have range := parse_range [] slots
  rw [List.nil_append, List.length_nil, ← List.range_eq_range'] at range
  exact range

def collected (run : List Slot) : List DirEntry := (run.map Slot.entry).take maxLfnEntries

theorem collected_concat (run : List Slot) (slot : Slot) :
    (if (collected run).length < maxLfnEntries then collected run ++ [slot.entry]
      else collected run) = collected (run ++ [slot]) := by
  unfold collected
  rw [List.length_take, List.length_map, List.map_append, List.map_singleton]
  split
  · next room =>
    rw [List.take_of_length_le (by rw [List.length_map]; omega), List.take_of_length_le]
    rw [List.length_append, List.length_map, List.length_singleton]
    omega
  · next full =>
    rw [List.take_append_of_le_length]
    rw [List.length_map]
    omega

theorem run_concat_long (before : List Slot) {slot : Slot} (long : isLong slot = true) :
    (before ++ [slot]).rtakeWhile isLong = before.rtakeWhile isLong ++ [slot] :=
  List.rtakeWhile_concat_pos _ _ _ long

theorem run_concat_other (before : List Slot) {slot : Slot} (other : isLong slot = false) :
    (before ++ [slot]).rtakeWhile isLong = [] :=
  List.rtakeWhile_concat_neg _ _ _ (by rw [other]; exact Bool.false_ne_true)

def Parsed.listed (nameMax : Nat) (p : Parsed) : Found :=
  ⟨entryName (collected p.run) p.slot.entry nameMax, p.slot.entry, p.slot.cluster, p.slot.offset⟩

theorem listing_parse (nameMax : Nat) (before rest : List Slot) :
    listing nameMax (collected (before.rtakeWhile isLong)) rest =
      (parseFrom before (beforeEnd rest)).map (Parsed.listed nameMax) := by
  induction rest generalizing before with
  | nil => rfl
  | cons slot rest ih =>
      have next := ih (before ++ [slot])
      unfold listing beforeEnd
      by_cases last : isEnd slot.entry = true
      · rw [if_pos last, List.takeWhile_cons_of_neg (by rw [last]; exact Bool.false_ne_true)]
        rfl
      rw [if_neg last, List.takeWhile_cons_of_pos (by simpa using last), parseFrom]
      change _ = List.map _ (if isVisible slot then
        _ :: parseFrom (before ++ [slot]) (beforeEnd rest)
        else parseFrom (before ++ [slot]) (beforeEnd rest))
      by_cases free : isFree slot.entry = true
      · have other : isLong slot = false := by simp [isLong, free]
        have hidden : isVisible slot = false := by simp [isVisible, free]
        rw [run_concat_other before other] at next
        rw [if_pos free, hidden]
        exact next
      rw [if_neg free]
      by_cases long : isLfnEntry slot.entry = true
      · have inRun : isLong slot = true := by simp [isLong, free, long]
        have hidden : isVisible slot = false := by simp [isVisible, long]
        rw [run_concat_long before inRun] at next
        rw [if_pos long, hidden, collected_concat]
        exact next
      have other : isLong slot = false := by simp [isLong, long]
      rw [run_concat_other before other] at next
      rw [if_neg long]
      by_cases label : isVolumeId slot.entry = true
      · have hidden : isVisible slot = false := by simp [isVisible, label]
        rw [if_pos label, hidden]
        exact next
      rw [if_neg label]
      by_cases dot : isDotEntry slot.entry = true
      · have hidden : isVisible slot = false := by simp [isVisible, dot]
        rw [if_pos dot, hidden]
        exact next
      have shown : isVisible slot = true := by simp [isVisible, free, long, label, dot]
      rw [if_neg dot, shown]
      exact congrArg (List.cons _) next

theorem parsed_run {p : Parsed} (member : p ∈ parse slots) :
    ∃ k ≤ slots.length, p.run = runBefore slots k := by
  obtain ⟨k, inside, here⟩ := List.mem_filterMap.1 member
  obtain ⟨slot, _, shown⟩ := Option.bind_eq_some_iff.1 here
  refine ⟨k, Nat.le_of_lt (List.mem_range.1 inside), ?_⟩
  split at shown
  · cases shown
    rfl
  · cases shown

theorem listed_found {p : Parsed} (short : p.run.length ≤ maxLfnEntries) (nameMax : Nat) :
    p.listed nameMax = p.found nameMax := by
  have whole : collected p.run = p.run.map Slot.entry := by
    unfold collected
    apply List.take_of_length_le
    rw [List.length_map]
    exact short
  unfold Parsed.listed Parsed.found Parsed.name entryName
  rw [whole, List.length_map]
  congr 1
  by_cases none : p.run = []
  · rw [if_pos none, if_neg (by rw [none]; exact Nat.lt_irrefl 0)]
  · rw [if_neg none, if_pos (List.length_pos_iff.2 none)]

theorem listing_visible {v : Volume} {cs : List Nat} {most : Nat}
    (runs : RunsUpTo most (beforeEnd (slotsOf v cs))) (room : most ≤ maxLfnEntries)
    (nameMax : Nat) : listing nameMax [] (slotsOf v cs) = visibleEntries nameMax v cs := by
  have start := listing_parse nameMax [] (slotsOf v cs)
  rw [← parse_eq] at start
  apply start.trans
  apply List.map_congr_left
  intro p member
  obtain ⟨k, inside, run⟩ := parsed_run member
  apply listed_found
  rw [run]
  exact Nat.le_trans (runs k inside) room

theorem listing_split {nameMax : Nat} {lfn : List DirEntry} {found : Found}
    (member : found ∈ listing nameMax lfn slots) : ∃ before slot behind,
      slots = before ++ slot :: behind ∧ isEnd slot.entry = false ∧ isVisible slot = true ∧
      slot.entry = found.entry ∧ slot.cluster = found.cluster ∧ slot.offset = found.offset := by
  induction slots generalizing lfn with
  | nil => cases member
  | cons slot rest ih =>
      have onward : ∀ {lfn}, found ∈ listing nameMax lfn rest → ∃ before slot' behind,
          slot :: rest = before ++ slot' :: behind ∧ isEnd slot'.entry = false ∧
          isVisible slot' = true ∧ slot'.entry = found.entry ∧ slot'.cluster = found.cluster ∧
          slot'.offset = found.offset := by
        intro lfn later
        obtain ⟨before, slot', behind, rfl, facts⟩ := ih later
        exact ⟨slot :: before, slot', behind, rfl, facts⟩
      unfold listing at member
      split at member
      · cases member
      next notEnd =>
      split at member
      · exact onward member
      next notFree =>
      split at member
      · exact onward member
      next notLong =>
      split at member
      · exact onward member
      next notLabel =>
      split at member
      · exact onward member
      next notDot =>
      rcases List.mem_cons.1 member with rfl | later
      · refine ⟨[], slot, rest, rfl, Bool.eq_false_iff.2 notEnd, ?_, rfl, rfl, rfl⟩
        unfold isVisible
        rw [Bool.eq_false_iff.2 notFree, Bool.eq_false_iff.2 notLong, Bool.eq_false_iff.2 notLabel,
          Bool.eq_false_iff.2 notDot]
        rfl
      · exact onward later

end Parsing

section Operations

variable {faults : Faults} {v : Volume} {cluster : Nat} {cs : List Nat} {fuel nameMax : Nat}

/-- Without failures an answer is the one that is read off the listing. -/
theorem does_of_answers {α : Type} {f : Fs (Option α)} {expected : Option α}
    (sure : faults.drive = false) (supplied : faults.heap = false)
    (total : Achieves (Stands faults) f v (Answers faults v expected)) :
    Does faults f v expected v := by
  apply Achieves.runs
  apply total.mono
  rintro found w ⟨same, answer | ⟨_, fails⟩⟩
  · exact ⟨answer, same⟩
  · rcases fails with drive | heap
    · rw [sure] at drive
      cases drive
    · rw [supplied] at heap
      cases heap

/-- `readDirEntry` answers with the visible entries by number and `findEntry` with the first
one of the name, and `listEntry` agrees with `readDirEntry`. -/
theorem enumerates_slots (chain : Chain v cluster cs)
    (runs : RunsUpTo 19 (beforeEnd (slotsOf v cs))) (enough : cs.length < fuel) :
    (∀ index nameMax, Does ⟨false, false⟩ (readDirEntry fuel cluster index nameMax) v
      (visibleEntries nameMax v cs)[index]? v) ∧
    (∀ name, (visibleEntries maxName v cs).length < fuel →
      Does ⟨false, false⟩ (findEntry fuel cluster name) v
        ((visibleEntries maxName v cs).find? fun found => nameEquals found.name name) v) ∧
    ∀ path index nameMax s out s', junkOut s = some (out, s) →
      (∃ reached, resolvePath fuel path out s = some (some (cluster, reached), s') ∧
        isDirectory reached.entry = true) → Stands ⟨false, false⟩ s' v →
      ∃ t, listEntry fuel path index nameMax s =
          some (((visibleEntries nameMax v cs)[index]?).map Found.name, t) ∧
        Stands ⟨false, false⟩ t v := by
  have reads : ∀ index nameMax, Does ⟨false, false⟩ (readDirEntry fuel cluster index nameMax) v
      (visibleEntries nameMax v cs)[index]? v := by
    intro index nameMax
    rw [← listing_visible runs (by decide)]
    exact does_of_answers rfl rfl (read_dir_entry_total chain enough index)
  refine ⟨reads, ?_, ?_⟩
  · intro name rounds
    rw [← listing_visible runs (by decide)] at rounds ⊢
    exact does_of_answers rfl rfl (find_entry_total chain enough rounds name)
  · rintro path index nameMax s out s' junk ⟨reached, resolved, directory⟩ stands
    obtain ⟨t, run, stands'⟩ := reads index nameMax s' stands
    refine ⟨t, ?_, stands'⟩
    unfold listEntry
    rw [bind_of_some junk, bind_of_some resolved]
    dsimp only
    rw [if_pos directory, bind_of_some run]
    rfl

/-- `a long name.txt`. -/
def spacedName : List UInt8 :=
  [0x61, 0x20, 0x6C, 0x6F, 0x6E, 0x67, 0x20, 0x6E, 0x61, 0x6D, 0x65, 0x2E, 0x74, 0x78, 0x74]

/-- The file `A`, thirteen deleted slots, the two slots of a long name with the short one in the
next cluster, and the directory `B`. -/
def mixedSlot (k : Nat) : DirEntry :=
  if k = 0 then shortSlot (nameToShort [0x41]) DirAttr.archive
  else if k < 14 then fun i => if i = 0 then dirEntryFree else 0x41
  else if k < 16 then lfnSlot spacedName (lfnChecksum (nameToShort spacedName)) (16 - k)
  else if k = 16 then shortSlot (nameToShort spacedName) DirAttr.archive
  else if k = 17 then shortSlot (nameToShort [0x42]) DirAttr.directory
  else fun _ => 0

def mixedSlots : Volume where
  sectorsPerCluster := 1
  rootCluster := 2
  fatEntryCount := 4
  fat c := if c = 2 then 3 else fatEoc
  cluster c j := mixedSlot ((c - 2) * 16 + j / 32) (Fin.ofNat 32 j)
  handles := []

theorem mixed_slots_chain : Chain mixedSlots 2 [2, 3] :=
  ⟨⟨rfl, by decide, rfl, by decide, Nat.le_refl fatEoc⟩, by decide⟩

theorem mixed_slots_enumerated :
    (∀ index nameMax, Does ⟨false, false⟩ (readDirEntry 3 2 index nameMax) mixedSlots
      (visibleEntries nameMax mixedSlots [2, 3])[index]? mixedSlots) ∧
    (visibleEntries maxName mixedSlots [2, 3]).map Found.name = [[0x41], spacedName, [0x42]] :=
  ⟨(enumerates_slots mixed_slots_chain (by decide +kernel) (by decide)).1, by decide +kernel⟩

end Operations

end CassiOS.Fat32.Enumeration
