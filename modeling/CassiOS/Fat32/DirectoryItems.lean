import CassiOS.Fat32.PathWalk
import CassiOS.Fat32.RemoveEntry
import CassiOS.Support.Pieces

/-!
# Directories as sequences of entries

The slots of a directory are put together from items: a slot that is not in use, or an entry,
its short slot with the slots of its long name before it. `readDirEntry` lists the entries.
-/

namespace CassiOS.Fat32.DirectoryItems

open CassiOS.Support.PartialProgram
open CassiOS.Support.Pieces
open CassiOS.Fat32.Types
open CassiOS.Fat32.Names
open CassiOS.Fat32.Device
open CassiOS.Fat32.Filesystem
open CassiOS.Fat32.VolumeModel
open CassiOS.Fat32.FileModel
open CassiOS.Fat32.DirectoryModel
open CassiOS.Fat32.SlotRuns
open CassiOS.Fat32.CreateEntry
open CassiOS.Fat32.Enumeration (isVisible does_of_answers)

set_option autoImplicit false

inductive Item where
  | gap (slot : Slot)
  | entry (longs : List Slot) (short : Slot)

def Item.slots : Item → List Slot
  | .gap slot => [slot]
  | .entry longs short => longs ++ [short]

structure Long (slot : Slot) : Prop where
  used : unused slot = false
  lfn : isLfnEntry slot.entry = true

/-- The slot of a short entry, in use; it may be one that is not listed. -/
structure Short (slot : Slot) : Prop where
  used : unused slot = false
  plain : isLfnEntry slot.entry = false

/-- A name has at most nineteen slots. -/
def Item.Sound : Item → Prop
  | .gap slot => unused slot = true
  | .entry longs short => (∀ slot ∈ longs, Long slot) ∧ longs.length ≤ 19 ∧ Short short

/-- What is listed for an item. -/
def Item.listed (nameMax : Nat) : Item → Option Found
  | .gap _ => none
  | .entry longs short =>
      if isVisible short then
        some ⟨entryName (longs.map Slot.entry) short.entry nameMax, short.entry, short.cluster,
          short.offset⟩
      else none

structure Tiled (slots : List Slot) (items : List Item) : Prop where
  cover : items.flatMap Item.slots = slots
  sound : ∀ item ∈ items, item.Sound

/-- The directory at `start` with the clusters `cs` is made of `items`. -/
structure Directory (v : Volume) (start : Nat) (cs : List Nat) (items : List Item) : Prop where
  chain : Chain v start cs
  ended : EndsOnce (slotsOf v cs)
  tiled : Tiled (slotsOf v cs) items

section Listing

variable {nameMax : Nat} {lfn : List DirEntry} {slots rest : List Slot} {slot : Slot}
  {items front back : List Item}

theorem slots_nonempty (item : Item) : item.slots ≠ [] := by
  cases item with
  | gap slot => exact List.cons_ne_nil slot []
  | entry longs short => exact List.append_ne_nil_of_right_ne_nil longs (List.cons_ne_nil short [])

theorem used_marks (used : unused slot = false) :
    isEnd slot.entry = false ∧ isFree slot.entry = false := by
  unfold unused at used
  exact Bool.or_eq_false_iff.1 used

theorem listing_longs {longs : List Slot} (long : ∀ slot ∈ longs, Long slot)
    (room : lfn.length + longs.length ≤ maxLfnEntries) :
    listing nameMax lfn (longs ++ rest) = listing nameMax (lfn ++ longs.map Slot.entry) rest := by
  induction longs generalizing lfn with
  | nil => rw [List.map_nil, List.append_nil, List.nil_append]
  | cons slot longs ih =>
      obtain ⟨used, lfn_⟩ := long slot List.mem_cons_self
      obtain ⟨notEnd, notFree⟩ := used_marks used
      rw [List.length_cons] at room
      rw [List.cons_append, listing, notEnd, notFree, lfn_, if_neg Bool.false_ne_true,
        if_neg Bool.false_ne_true, if_pos rfl, if_pos (by omega)]
      rw [ih (fun x member => long x (List.mem_cons_of_mem slot member)) (by
        rw [List.length_append, List.length_singleton]
        omega), List.append_assoc]
      rfl

theorem listing_short (short : Short slot) :
    listing nameMax lfn (slot :: rest) =
      (if isVisible slot then
        [⟨entryName lfn slot.entry nameMax, slot.entry, slot.cluster, slot.offset⟩] else []) ++
        listing nameMax [] rest := by
  obtain ⟨notEnd, notFree⟩ := used_marks short.used
  unfold isVisible
  rw [listing, notEnd, notFree, short.plain, if_neg Bool.false_ne_true, if_neg Bool.false_ne_true,
    if_neg Bool.false_ne_true]
  cases isVolumeId slot.entry with
  | true => rfl
  | false =>
      cases isDotEntry slot.entry with
      | true => rfl
      | false => rfl

theorem sound_unused {item : Item} (sound : item.Sound) {x : Slot} (member : x ∈ item.slots)
    (free : unused x = true) : item = .gap x := by
  cases item with
  | gap slot => rw [List.mem_singleton.1 member]
  | entry longs short =>
      rcases List.mem_append.1 member with long | last
      · rw [(sound.1 x long).used] at free
        cases free
      · rw [List.mem_singleton.1 last, sound.2.2.used] at free
        cases free

theorem listed_unused (sound : ∀ item ∈ items, item.Sound)
    (free : ∀ slot ∈ items.flatMap Item.slots, unused slot = true) :
    items.filterMap (Item.listed nameMax) = [] := by
  apply List.filterMap_eq_nil_iff.2
  intro item member
  obtain ⟨x, rest, first⟩ := List.exists_cons_of_ne_nil (slots_nonempty item)
  have inside : x ∈ item.slots := by
    rw [first]
    exact List.mem_cons_self
  rw [sound_unused (sound item member) inside
    (free x (List.mem_flatMap.2 ⟨item, member, inside⟩))]
  rfl

theorem listing_tiled (tiled : Tiled slots items) (ended : EndsOnce slots) :
    listing nameMax [] slots = items.filterMap (Item.listed nameMax) := by
  obtain ⟨rfl, sound⟩ := tiled
  induction items with
  | nil => rfl
  | cons item items ih =>
      have sound' := fun x member => sound x (List.mem_cons_of_mem item member)
      rw [List.flatMap_cons] at ended ⊢
      obtain ⟨_, ended', _⟩ := List.pairwise_append.1 ended
      have rest := ih sound' ended'
      cases item with
      | gap slot =>
          have free : unused slot = true := sound _ List.mem_cons_self
          change listing nameMax [] (slot :: items.flatMap Item.slots) = _
          rw [List.filterMap_cons_none rfl]
          by_cases mark : isEnd slot.entry = true
          · have behind : ∀ x ∈ items.flatMap Item.slots, unused x = true := fun x member =>
              (List.pairwise_cons.1 ended).1 x member mark
            rw [listed_unused sound' behind, listing, if_pos mark]
          · unfold unused at free
            rw [Bool.eq_false_iff.2 mark, Bool.false_or] at free
            rw [listing, if_neg mark, if_pos free]
            exact rest
      | entry longs short =>
          obtain ⟨long, few, last⟩ := sound _ List.mem_cons_self
          change listing nameMax [] (longs ++ [short] ++ items.flatMap Item.slots) = _
          rw [List.append_assoc, List.singleton_append, listing_longs long (by
            unfold maxLfnEntries
            rw [List.length_nil]
            omega), listing_short last, rest, List.nil_append]
          by_cases shown : isVisible short = true
          · have here : Item.listed nameMax (.entry longs short) = some _ := if_pos shown
            rw [if_pos shown, List.filterMap_cons_some here]
            rfl
          · have here : Item.listed nameMax (.entry longs short) = none := if_neg shown
            rw [if_neg shown, List.filterMap_cons_none here]
            rfl

theorem gaps_tiled {slots : List Slot} (free : ∀ slot ∈ slots, unused slot = true) :
    Tiled slots (slots.map Item.gap) where
  cover := by
    rw [List.flatMap_map]
    exact List.flatMap_singleton' slots
  sound := by
    intro item member
    obtain ⟨slot, inside, rfl⟩ := List.mem_map.1 member
    exact free slot inside

theorem tiled_append {left right : List Slot} {items items' : List Item} (front : Tiled left items)
    (back : Tiled right items') : Tiled (left ++ right) (items ++ items') where
  cover := by rw [List.flatMap_append, front.cover, back.cover]
  sound item member := (List.mem_append.1 member).elim (front.sound item) (back.sound item)

theorem listed_gaps (nameMax : Nat) (slots : List Slot) :
    (slots.map Item.gap).filterMap (Item.listed nameMax) = [] := by
  induction slots with
  | nil => rfl
  | cons slot slots ih => exact ih

def bare (slot : Slot) : Item := if unused slot then .gap slot else .entry [] slot

theorem bare_tiled {slots : List Slot} (plain : ∀ slot ∈ slots, unused slot = true ∨
    isLfnEntry slot.entry = false) : Tiled slots (slots.map bare) where
  cover := by
    have alone : ∀ slot ∈ slots, (bare slot).slots = [slot] := by
      intro slot _
      unfold bare
      split
      · rfl
      · rfl
    rw [List.flatMap_map, List.flatMap_congr alone]
    exact List.flatMap_singleton' slots
  sound := by
    intro item member
    obtain ⟨slot, inside, rfl⟩ := List.mem_map.1 member
    unfold bare
    split
    · next free => exact free
    · next used =>
      have notFree := Bool.eq_false_iff.2 used
      refine ⟨fun x none => absurd none List.not_mem_nil, Nat.zero_le 19, notFree, ?_⟩
      rcases plain slot inside with free | plain
      · exact absurd free used
      · exact plain

theorem tiled_run {before run behind : List Slot} (tiled : Tiled (before ++ (run ++ behind)) items)
    (free : ∀ slot ∈ run, unused slot = true) (some_ : run ≠ []) :
    ∃ front back, items = front ++ (run.map Item.gap ++ back) ∧ Tiled before front ∧
      Tiled behind back := by
  obtain ⟨front, middle, back, rfl, same, first, last⟩ := pieces_split_run
    (fun item _ => slots_nonempty item)
    (fun x member item inside here => by
      rw [sound_unused (tiled.sound item inside) here (free x member)]
      rfl) some_ tiled.cover
  have gaps : middle = run.map Item.gap := by
    have sound := fun item (member : item ∈ middle) => tiled.sound item
      (List.mem_append_right front (List.mem_append_left back member))
    clear tiled last first some_
    induction middle generalizing run with
    | nil =>
        obtain rfl : run = [] := List.map_eq_nil_iff.1 same.symm
        rfl
    | cons item middle ih =>
        obtain ⟨x, run, rfl, here, rest⟩ := List.map_eq_cons_iff.1 same.symm
        have inside : x ∈ item.slots := by
          rw [← here]
          exact List.mem_cons_self
        rw [sound_unused (sound item List.mem_cons_self) inside (free x List.mem_cons_self),
          ih (fun y member => free y (List.mem_cons_of_mem x member)) rest.symm
            fun p member => sound p (List.mem_cons_of_mem item member)]
        rfl
  subst gaps
  exact ⟨front, back, rfl, ⟨first.symm, fun p member => tiled.sound p
    (List.mem_append_left _ member)⟩, ⟨last.symm, fun p member => tiled.sound p
    (List.mem_append_right _ (List.mem_append_right _ member))⟩⟩

theorem Directory.entries {v : Volume} {start : Nat} {cs : List Nat}
    (dir : Directory v start cs items) :
    entriesOf v cs = items.filterMap (Item.listed maxName) :=
  listing_tiled dir.tiled dir.ended

end Listing

section SmallVolume

/-- The directories of the small volume, where no entry has a long name. -/
theorem small_volume_items {c : Nat} (which : c = 2 ∨ c = 3) :
    Directory (volumeOf PathWalk.smallVolume) c [c]
      ((slotsOf (volumeOf PathWalk.smallVolume) [c]).map bare) := by
  have valid : (volumeOf PathWalk.smallVolume).Valid c := by
    rcases which with rfl | rfl <;> decide
  have ended : EndsOnce (slotsOf (volumeOf PathWalk.smallVolume) [c]) := by
    unfold EndsOnce
    rcases which with rfl | rfl <;> decide +kernel
  have plain : ∀ slot ∈ slotsOf (volumeOf PathWalk.smallVolume) [c], unused slot = true ∨
      isLfnEntry slot.entry = false := by
    rcases which with rfl | rfl <;> decide +kernel
  exact ⟨PathWalk.small_volume_chain valid, ended, bare_tiled plain⟩

end SmallVolume

section Lookup

variable {v : Volume} {start : Nat} {cs : List Nat} {name : List UInt8}

/-- With enough fuel `findEntry` answers `answer`. -/
def Finds (v : Volume) (start : Nat) (name : List UInt8) (answer : Option Found) : Prop :=
  ∃ least, ∀ fuel, least ≤ fuel → Does ⟨false, false⟩ (findEntry fuel start name) v answer v

theorem finds_lookup (chain : Chain v start cs) (name : List UInt8) :
    Finds v start name (lookup v cs name) := by
  refine ⟨cs.length + (entriesOf v cs).length + 1, fun fuel enough => ?_⟩
  exact does_of_answers rfl rfl (find_entry_total chain (by omega) (by omega) name)

theorem finds_unique {s : Fat32Filesystem} (stands : Stands ⟨false, false⟩ s v)
    {answer answer' : Option Found} (first : Finds v start name answer)
    (second : Finds v start name answer') : answer = answer' := by
  obtain ⟨least, finds⟩ := first
  obtain ⟨least', finds'⟩ := second
  obtain ⟨t, run, _⟩ := finds (least + least') (by omega) s stands
  obtain ⟨t', run', _⟩ := finds' (least + least') (by omega) s stands
  exact congrArg Prod.fst (Option.some.inj (run.symm.trans run'))

theorem name_equals_self (name : List UInt8) : nameEquals name name = true := by
  induction name with
  | nil => rfl
  | cons c name ih => simp [nameEquals, ih]

end Lookup

end CassiOS.Fat32.DirectoryItems
