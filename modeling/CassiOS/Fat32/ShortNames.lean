import CassiOS.Fat32.RemoveEntry
import CassiOS.Support.TransitionSystem

/-!
# Short names in a directory

`nameToShort` keeps little of a long name, and `createEntry` does not look for the short name it
has made. Over every run of creations and removals in a directory that was empty, the short names
stay different as long as each creation makes one that no live entry has; `ab` and `AB` get the
same one.
-/

namespace CassiOS.Fat32.ShortNames

open CassiOS.Support.PartialProgram
open CassiOS.Support.Chain
open CassiOS.Support.TransitionSystem
open CassiOS.Fat32.Types
open CassiOS.Fat32.Names
open CassiOS.Fat32.Device
open CassiOS.Fat32.Filesystem
open CassiOS.Fat32.VolumeModel
open CassiOS.Fat32.FatModel
open CassiOS.Fat32.FileModel
open CassiOS.Fat32.DirectoryModel
open CassiOS.Fat32.SlotRuns
open CassiOS.Fat32.CreateEntry
open CassiOS.Fat32.RemoveEntry
open CassiOS.Fat32.StoredFile (chain_congr)
open CassiOS.Fat32.Enumeration (beforeEnd isVisible listing_split)

set_option autoImplicit false

section Statement

/-- A slot that holds a short entry, be it a file's, a directory's, a dot entry or a label. -/
def isShort (slot : Slot) : Bool := !isFree slot.entry && !isLfnEntry slot.entry

def shortNames (slots : List Slot) : List (List UInt8) :=
  ((beforeEnd slots).filter isShort).map fun slot => shortName slot.entry

def UniqueShortNames (s : Fat32Filesystem) (start : Nat) : Prop :=
  ∀ cs, Chain (volumeOf s) start cs → (shortNames (slotsOf (volumeOf s) cs)).Nodup

/-- A directory that lists nothing and has nothing behind its end mark. The dot entries and the
label it may have bear different names. -/
structure EmptyDirectory (v : Volume) (start : Nat) (cs : List Nat) : Prop where
  chain : Chain v start cs
  ended : EndsOnce (slotsOf v cs)
  nothing : entriesOf v cs = []
  labels : (shortNames (slotsOf v cs)).Nodup

/-- A name that `resolveParentPath` may pass on. -/
structure FileName where
  bytes : List UInt8
  short : bytes.length < maxName
  clean : 0 ∉ bytes

inductive Change where
  | create (fuel : Nat) (name : FileName) (kind : UInt8)
  | remove (fuel : Nat) (name : List UInt8)

/-- `createEntry` with success where `findEntry` has found nothing before, or `removeEntry`. -/
def change (start : Nat) (s : Fat32Filesystem) : Change → Option Fat32Filesystem
  | .create fuel name kind =>
      match findEntry fuel start name.bytes s with
      | some (none, s) =>
          match createEntry fuel start name.bytes kind s with
          | some (some _, s) => some s
          | _ => none
      | _ => none
  | .remove fuel name => (removeEntry fuel start name s).map Prod.snd

def createdNames (changes : List Change) : List (List UInt8) :=
  changes.filterMap fun
    | .create _ name _ => some name.bytes
    | .remove .. => none

/-- No live entry has the short name that is made for a new one. Where an allocation may fail, no
subdirectory is removed: it could lose its cluster and keep its entry. -/
def Admitted (faults : Faults) (start : Nat) (s : Fat32Filesystem) : Change → Prop
  | .create _ name _ => ∀ cs, Chain (volumeOf s) start cs →
      nameToShort name.bytes ∉ shortNames (slotsOf (volumeOf s) cs)
  | .remove _ name => faults.heap = true → ∀ cs found, Chain (volumeOf s) start cs →
      lookup (volumeOf s) cs name = some found → isDirectory found.entry = false

end Statement

section Gathering

variable {β : Type} {p : DirEntry → Bool} {f : DirEntry → β} {slots slots' : List Slot}

/-- A field of the used slots that satisfy `p`, in order. -/
def gathered (p : DirEntry → Bool) (f : DirEntry → β) (slots : List Slot) : List β :=
  ((slots.filter fun slot => !unused slot && p slot.entry).map fun slot => f slot.entry)

theorem gathered_append (p : DirEntry → Bool) (f : DirEntry → β) (xs ys : List Slot) :
    gathered p f (xs ++ ys) = gathered p f xs ++ gathered p f ys := by
  unfold gathered
  rw [List.filter_append, List.map_append]

theorem gathered_cons_unused (p : DirEntry → Bool) (f : DirEntry → β) {slot : Slot}
    (free : unused slot = true) (rest : List Slot) :
    gathered p f (slot :: rest) = gathered p f rest := by
  unfold gathered
  rw [List.filter_cons_of_neg (by simp [free])]

theorem gathered_cons_other (f : DirEntry → β) {slot : Slot} (other : p slot.entry = false)
    (rest : List Slot) : gathered p f (slot :: rest) = gathered p f rest := by
  unfold gathered
  rw [List.filter_cons_of_neg (by simp [other])]

theorem gathered_cons_used (f : DirEntry → β) {slot : Slot} (used : unused slot = false)
    (here : p slot.entry = true) (rest : List Slot) :
    gathered p f (slot :: rest) = f slot.entry :: gathered p f rest := by
  unfold gathered
  rw [List.filter_cons_of_pos (by simp [used, here]), List.map_cons]

theorem gathered_unused (p : DirEntry → Bool) (f : DirEntry → β)
    (free : ∀ slot ∈ slots, unused slot = true) : gathered p f slots = [] := by
  induction slots with
  | nil => rfl
  | cons slot rest ih =>
      rw [gathered_cons_unused p f (free slot List.mem_cons_self)]
      exact ih fun x member => free x (List.mem_cons_of_mem slot member)

theorem gathered_single (p : DirEntry → Bool) (f : DirEntry → β) (slot : Slot) :
    (gathered p f [slot]).Sublist [f slot.entry] := by
  unfold gathered
  exact (List.filter_sublist (l := [slot])).map _

theorem gathered_behind (p : DirEntry → Bool) (f : DirEntry → β) (slot : Slot) (rest : List Slot) :
    (gathered p f rest).Sublist (gathered p f (slot :: rest)) := by
  rw [← List.singleton_append, gathered_append]
  exact List.sublist_append_right _ _

theorem mem_gathered (f : DirEntry → β) {slot : Slot} (member : slot ∈ slots)
    (used : unused slot = false) (here : p slot.entry = true) : f slot.entry ∈ gathered p f slots := by
  apply List.mem_map_of_mem (f := fun slot : Slot => f slot.entry)
  exact List.mem_filter.2 ⟨member, by rw [used, here]; rfl⟩

/-- Nothing is gathered from fading slots that was not there before. -/
theorem gathered_fades (p : DirEntry → Bool) (f : DirEntry → β)
    (fades : List.Forall₂ Fades slots slots') :
    (gathered p f slots').Sublist (gathered p f slots) := by
  induction fades with
  | nil => exact List.Sublist.refl _
  | @cons slot slot' rest rest' here _ ih =>
      cases used : unused slot' with
      | true =>
          rw [gathered_cons_unused p f used]
          exact ih.trans (gathered_behind p f slot rest)
      | false =>
          have same := fades_used here used
          have used₀ : unused slot = false := by
            unfold unused at used ⊢
            rw [← same]
            exact used
          cases holds : p slot.entry with
          | false =>
              rw [gathered_cons_other f (same ▸ holds), gathered_cons_other f holds]
              exact ih
          | true =>
              rw [gathered_cons_used f used (same ▸ holds), gathered_cons_used f used₀ holds, same]
              exact ih.cons_cons _

end Gathering

section Fields

variable {slots slots' : List Slot}

/-- An entry that a lookup can find, in a slot that is used. -/
def listable (e : DirEntry) : Bool := !isLfnEntry e && !isVolumeId e && !isDotEntry e

def heldNames (slots : List Slot) : List (List UInt8) :=
  gathered (fun e => !isLfnEntry e) shortName slots

def fileClusters (slots : List Slot) : List Nat :=
  gathered (fun e => listable e && !isDirectory e) firstCluster slots

def subdirectories (slots : List Slot) : List Nat :=
  gathered (fun e => listable e && isDirectory e) firstCluster slots

theorem unused_of_end {slot : Slot} (notEnd : isEnd slot.entry = false) :
    unused slot = isFree slot.entry := by
  unfold unused
  rw [notEnd, Bool.false_or]

/-- Behind an end mark nothing is used, so the live entries are all there are. -/
theorem short_names_held (ended : EndsOnce slots) : shortNames slots = heldNames slots := by
  induction slots with
  | nil => rfl
  | cons slot rest ih =>
      obtain ⟨behind, ended'⟩ := List.pairwise_cons.1 ended
      cases mark : isEnd slot.entry with
      | true =>
          unfold shortNames beforeEnd heldNames
          rw [List.takeWhile_cons_of_neg (by simp [mark]), gathered_unused]
          · rfl
          · intro x member
            rcases List.mem_cons.1 member with rfl | later
            · exact end_unused mark
            · exact behind x later mark
      | false =>
          have onward : shortNames (slot :: rest) =
              (if isShort slot then [shortName slot.entry] else []) ++ shortNames rest := by
            unfold shortNames beforeEnd
            rw [List.takeWhile_cons_of_pos (by simp [mark]), List.filter_cons]
            split
            · rfl
            · rfl
          have here : heldNames (slot :: rest) =
              (if isShort slot then [shortName slot.entry] else []) ++ heldNames rest := by
            unfold heldNames gathered isShort
            rw [List.filter_cons, unused_of_end mark]
            split
            · rfl
            · rfl
          rw [onward, here, ih ended']

/-- In a directory that lists nothing there is nothing to be found. -/
theorem gathered_nothing {q : DirEntry → Bool} {nameMax : Nat} {lfn : List DirEntry}
    (ended : EndsOnce slots) (nothing : listing nameMax lfn slots = []) :
    gathered (fun e => listable e && q e) firstCluster slots = [] := by
  induction slots generalizing lfn with
  | nil => rfl
  | cons slot rest ih =>
      obtain ⟨behind, ended'⟩ := List.pairwise_cons.1 ended
      have skip : listable slot.entry = false →
          gathered (fun e => listable e && q e) firstCluster (slot :: rest) =
            gathered (fun e => listable e && q e) firstCluster rest := fun other =>
        gathered_cons_other firstCluster (by rw [other, Bool.false_and]) rest
      unfold listing at nothing
      split at nothing
      · next mark =>
        apply gathered_unused
        intro x member
        rcases List.mem_cons.1 member with rfl | later
        · exact end_unused mark
        · exact behind x later mark
      split at nothing
      · next free =>
        rw [gathered_cons_unused _ _ (by unfold unused; rw [free, Bool.or_true])]
        exact ih ended' nothing
      split at nothing
      · next long =>
        rw [skip (by unfold listable; rw [long]; rfl)]
        exact ih ended' nothing
      split at nothing
      · next label =>
        rw [skip (by unfold listable; rw [label, Bool.not_true, Bool.and_false]; rfl)]
        exact ih ended' nothing
      split at nothing
      · next dot =>
        rw [skip (by unfold listable; rw [dot, Bool.not_true, Bool.and_false])]
        exact ih ended' nothing
      · cases nothing

theorem fades_all_unused (fades : List.Forall₂ Fades slots slots')
    (free : ∀ slot ∈ slots, unused slot = true) : ∀ slot ∈ slots', unused slot = true := by
  induction fades with
  | nil => exact free
  | @cons slot slot' rest rest' here _ ih =>
      intro x member
      rcases List.mem_cons.1 member with rfl | later
      · exact fades_unused here (free slot List.mem_cons_self)
      · exact ih (fun y inside => free y (List.mem_cons_of_mem slot inside)) x later

theorem ends_once_fades (fades : List.Forall₂ Fades slots slots') (ended : EndsOnce slots) :
    EndsOnce slots' := by
  induction fades with
  | nil => exact ended
  | @cons slot slot' rest rest' here fades ih =>
      obtain ⟨behind, ended'⟩ := List.pairwise_cons.1 ended
      refine List.pairwise_cons.2 ⟨?_, ih ended'⟩
      intro x member mark
      apply fades_all_unused fades _ x member
      intro y inside
      apply behind y inside
      rcases here.2 with same | marked
      · rw [← same]
        exact mark
      · rw [marked] at mark
        cases mark

end Fields

section Invariant

variable {v w : Volume} {start : Nat} {cs : List Nat} {found : Found}

/-- The short names differ, and no removal can free a cluster of the directory or of another
subdirectory in it. -/
structure Tidy (v : Volume) (start : Nat) (cs : List Nat) : Prop where
  chain : Chain v start cs
  ended : EndsOnce (slotsOf v cs)
  names : (heldNames (slotsOf v cs)).Nodup
  files : ∀ c ∈ fileClusters (slotsOf v cs), c < 2
  contents : ∀ c ∈ subdirectories (slotsOf v cs), Chain v c [c] ∧ c ∉ cs
  apart : (subdirectories (slotsOf v cs)).Nodup

theorem tidy_of_empty (empty : EmptyDirectory v start cs) : Tidy v start cs := by
  have files : fileClusters (slotsOf v cs) = [] := gathered_nothing empty.ended empty.nothing
  have contents : subdirectories (slotsOf v cs) = [] :=
    gathered_nothing empty.ended empty.nothing
  constructor
  · exact empty.chain
  · exact empty.ended
  · rw [← short_names_held empty.ended]
    exact empty.labels
  · rw [files]
    exact fun _ => nofun
  · rw [contents]
    exact fun _ => nofun
  · rw [contents]
    exact List.nodup_nil

theorem visible_listable {slot : Slot} (notEnd : isEnd slot.entry = false)
    (visible : isVisible slot = true) : unused slot = false ∧ listable slot.entry = true := by
  unfold isVisible at visible
  simp only [Bool.and_eq_true] at visible
  obtain ⟨⟨⟨notFree, notLong⟩, notLabel⟩, notDot⟩ := visible
  unfold listable
  rw [unused_of_end notEnd, notLong, notLabel, notDot]
  exact ⟨by simpa using notFree, rfl⟩

theorem tidy_separate (tidy : Tidy v start cs) (listed : found ∈ entriesOf v cs) :
    Separate v cs found := by
  obtain ⟨before, slot, behind, split, notEnd, visible, entry, _⟩ := listing_split listed
  obtain ⟨used, shown⟩ := visible_listable notEnd visible
  have member : slot ∈ slotsOf v cs := by
    rw [split]
    exact List.mem_append_right _ List.mem_cons_self
  unfold Separate
  rw [← entry]
  split
  · next directory =>
    apply tidy.contents
    exact mem_gathered firstCluster member used (by rw [shown, directory]; rfl)
  · next directory =>
    apply tidy.files
    exact mem_gathered firstCluster member used (by rw [shown, Bool.eq_false_iff.2 directory]; rfl)

theorem separate_outside (chain : Chain v start cs) (separate : Separate v cs found) {c : Nat}
    (member : c ∈ cs) : c ≠ firstCluster found.entry := by
  intro same
  unfold Separate at separate
  split at separate
  · exact separate.2 (same ▸ member)
  · have low := (chain.valid c member).1
    omega

theorem cleared_apart {slots slots' : List Slot} (cleared : Cleared found slots slots')
    (directory : isDirectory found.entry = true) (apart : (subdirectories slots).Nodup) :
    firstCluster found.entry ∉ subdirectories slots' := by
  obtain ⟨before, slot, behind, before', slot', behind', rfl, rfl, entry, visible, notEnd, front, _,
    gone, back⟩ := cleared
  obtain ⟨used, shown⟩ := visible_listable notEnd visible
  unfold subdirectories at apart ⊢
  rw [gathered_append, gathered_cons_used _ used (by rw [shown, entry, directory]; rfl),
    entry] at apart
  rw [gathered_append, gathered_cons_unused _ _ gone]
  have fresh := (List.nodup_cons.1 (List.nodup_middle.1 apart)).1
  intro member
  apply fresh
  rcases List.mem_append.1 member with early | late
  · exact List.mem_append_left _ ((gathered_fades _ _ front).subset early)
  · exact List.mem_append_right _ ((gathered_fades _ _ back).subset late)

theorem cleared_fades {slots slots' : List Slot} (cleared : Cleared found slots slots') :
    List.Forall₂ Fades slots slots' := by
  obtain ⟨before, slot, behind, before', slot', behind', rfl, rfl, _, _, _, front, here, _,
    back⟩ := cleared
  exact List.rel_append front (.cons here back)

theorem tidy_removed (tidy : Tidy v start cs) (listed : found ∈ entriesOf v cs)
    (removed : Removed v w cs found) : Tidy w start cs := by
  have separate := tidy_separate tidy listed
  have fades := cleared_fades removed.slots
  constructor
  · exact chain_congr tidy.chain removed.count fun c member =>
      removed.fat c (separate_outside tidy.chain separate member)
  · exact ends_once_fades fades tidy.ended
  · exact tidy.names.sublist (gathered_fades _ _ fades)
  · exact fun c member => tidy.files c ((gathered_fades _ _ fades).subset member)
  · intro c member
    obtain ⟨content, outside⟩ := tidy.contents c ((gathered_fades _ _ fades).subset member)
    have other : c ≠ firstCluster found.entry := by
      intro same
      unfold Separate at separate
      split at separate
      · next directory => exact cleared_apart removed.slots directory tidy.apart (same ▸ member)
      · have low := (content.valid c List.mem_cons_self).1
        omega
    refine ⟨chain_congr content removed.count fun d inside => ?_, outside⟩
    rw [List.mem_singleton.1 inside]
    exact removed.fat c other
  · exact tidy.apart.sublist (gathered_fades _ _ fades)

end Invariant

section Creating

variable {v w : Volume} {start : Nat} {cs extra : List Nat} {name : List UInt8} {kind : UInt8}
  {at_ : Nat × Nat} {before run written behind : List Slot} {content : Nat}

/-- The short slot `createEntry` writes. -/
def newEntry (name : List UInt8) (kind : UInt8) (content : Nat) : DirEntry :=
  setFirstCluster (shortSlot (nameToShort name) kind) content

theorem new_entry_name (name : List UInt8) (kind : UInt8) (content : Nat) :
    shortName (newEntry name kind content) = nameToShort name :=
  (short_name_set_first_cluster _ content).trans
    (short_name_short_slot (name_to_short_length name) kind)

theorem new_entry_directory (name : List UInt8) (kind : UInt8) (content : Nat) :
    isDirectory (newEntry name kind content) = (kind &&& DirAttr.directory != 0) := rfl

theorem long_slot_attr {checksum : UInt8} {seq : Nat} {e : DirEntry}
    (member : e ∈ longSlots name checksum seq) : isLfnEntry e = true := by
  obtain ⟨i, found⟩ := List.mem_iff_getElem?.1 member
  obtain ⟨_, rfl⟩ := long_slots_get found
  rfl

theorem gathered_written {β : Type} {p : DirEntry → Bool} (f : DirEntry → β)
    (done : Written v start cs name kind at_ w extra before run written behind content)
    (plain : ∀ e, isLfnEntry e = true → p e = false) :
    (gathered p f written).Sublist (if p (newEntry name kind content) then
      [f (newEntry name kind content)] else []) := by
  obtain ⟨longs, last, rfl, long, short⟩ := List.map_eq_append_iff.1 done.entries
  obtain ⟨slot, rest, rfl, here, none⟩ := List.map_eq_cons_iff.1 short
  obtain rfl := List.map_eq_nil_iff.1 none
  have empty : gathered p f longs = [] := by
    unfold gathered
    rw [List.map_eq_nil_iff, List.filter_eq_nil_iff]
    intro x member
    have attr := long_slot_attr (long ▸ List.mem_map_of_mem (f := Slot.entry) member)
    rw [plain _ attr, Bool.and_false]
    exact Bool.false_ne_true
  have entry : slot.entry = newEntry name kind content := here
  rw [gathered_append, empty, List.nil_append]
  split
  · rw [← entry]
    exact gathered_single p f slot
  · next other =>
    rw [gathered_cons_other f (by rw [entry]; exact Bool.eq_false_iff.2 other)]
    exact List.Sublist.refl _

theorem gathered_old {β : Type} (p : DirEntry → Bool) (f : DirEntry → β)
    (done : Written v start cs name kind at_ w extra before run written behind content) :
    gathered p f (slotsOf v cs) = gathered p f before ++ gathered p f behind := by
  have both := congrArg (gathered p f) done.old
  rw [gathered_append, gathered_append, gathered_append, gathered_unused p f done.unused,
    gathered_unused p f fun _ => zero_slots_unused, List.append_nil, List.nil_append] at both
  exact both

theorem gathered_new {β : Type} (p : DirEntry → Bool) (f : DirEntry → β)
    (done : Written v start cs name kind at_ w extra before run written behind content) :
    gathered p f (slotsOf w (cs ++ extra)) =
      gathered p f before ++ (gathered p f written ++ gathered p f behind) := by
  rw [done.new, gathered_append, gathered_append]

/-- What is gathered afterwards is the new entry's or was there before. -/
theorem gathered_member {β : Type} {p : DirEntry → Bool} {f : DirEntry → β}
    (done : Written v start cs name kind at_ w extra before run written behind content)
    (plain : ∀ e, isLfnEntry e = true → p e = false) {b : β}
    (member : b ∈ gathered p f (slotsOf w (cs ++ extra))) : b ∈ gathered p f (slotsOf v cs) ∨
      p (newEntry name kind content) = true ∧ b = f (newEntry name kind content) := by
  rw [gathered_new p f done] at member
  rw [gathered_old p f done]
  rcases List.mem_append.1 member with front | rest
  · exact .inl (List.mem_append_left _ front)
  rcases List.mem_append.1 rest with new | back
  · have here := (gathered_written f done plain).subset new
    split at here
    · next holds => exact .inr ⟨holds, List.mem_singleton.1 here⟩
    · cases here
  · exact .inl (List.mem_append_right _ back)

theorem nodup_written {β : Type} {p : DirEntry → Bool} {f : DirEntry → β}
    (done : Written v start cs name kind at_ w extra before run written behind content)
    (plain : ∀ e, isLfnEntry e = true → p e = false)
    (nodup : (gathered p f (slotsOf v cs)).Nodup)
    (fresh : p (newEntry name kind content) = true →
      f (newEntry name kind content) ∉ gathered p f (slotsOf v cs)) :
    (gathered p f (slotsOf w (cs ++ extra))).Nodup := by
  have sub := gathered_written f done plain
  rw [gathered_old p f done] at nodup fresh
  rw [gathered_new p f done]
  split at sub
  · next holds =>
    have whole := List.nodup_middle.2 (List.nodup_cons.2 ⟨fresh holds, nodup⟩)
    exact whole.sublist ((List.Sublist.refl _).append (sub.append (List.Sublist.refl _)))
  · rw [List.sublist_nil.1 sub, List.nil_append]
    exact nodup

theorem listable_long {q : DirEntry → Bool} (e : DirEntry) (long : isLfnEntry e = true) :
    (listable e && q e) = false := by
  unfold listable
  rw [long]
  rfl

theorem own_content_chain (small : v.fatEntryCount ≤ 0x0FFFFFF7)
    (done : Written v start cs name kind at_ w extra before run written behind content)
    (directory : (kind &&& DirAttr.directory != 0) = true) :
    v.Free content ∧ Chain w content [content] := by
  have own := done.own
  unfold OwnContent at own
  rw [if_pos directory] at own
  have bound := own.1.1.2
  refine ⟨own.1, ⟨rfl, Nat.not_le.2 (by unfold fatEoc; omega), Nat.le_of_eq own.2.symm⟩, ?_⟩
  intro c member
  rw [List.mem_singleton.1 member]
  exact ⟨own.1.1.1, done.count ▸ bound⟩

theorem new_entry_cluster (small : v.fatEntryCount ≤ 0x0FFFFFF7)
    (done : Written v start cs name kind at_ w extra before run written behind content) :
    firstCluster (newEntry name kind content) = content := by
  apply first_cluster_set_first_cluster
  have own := done.own
  unfold OwnContent at own
  split at own
  · have bound := own.1.1.2
    omega
  · omega

theorem written_ends_once (ended : EndsOnce (slotsOf v cs)) (short : name.length ≤ 255)
    (clean : ∀ c ∈ name, c ≠ 0)
    (done : Written v start cs name kind at_ w extra before run written behind content) :
    EndsOnce (slotsOf w (cs ++ extra)) := by
  apply done.ends_once ended
  intro slot member
  apply written_not_end short clean kind content
  rw [← done.entries]
  exact List.mem_map_of_mem member

theorem tidy_written (tidy : Tidy v start cs) (small : v.fatEntryCount ≤ 0x0FFFFFF7)
    (short : name.length ≤ 255) (clean : ∀ c ∈ name, c ≠ 0)
    (fresh : nameToShort name ∉ heldNames (slotsOf v cs))
    (done : Written v start cs name kind at_ w extra before run written behind content) :
    Tidy w start (cs ++ extra) := by
  have cluster := new_entry_cluster small done
  constructor
  · exact done.chain
  · exact written_ends_once tidy.ended short clean done
  · apply nodup_written done (fun e long => by rw [long]; rfl) tidy.names
    intro _
    rw [new_entry_name]
    exact fresh
  · intro c member
    rcases gathered_member done listable_long member with old | ⟨file, rfl⟩
    · exact tidy.files c old
    · rw [new_entry_directory, Bool.and_eq_true] at file
      have own := done.own
      unfold OwnContent at own
      rw [if_neg (by simpa using file.2)] at own
      rw [cluster, own]
      decide
  · intro c member
    rcases gathered_member done listable_long member with old | ⟨directory, rfl⟩
    · obtain ⟨chain, outside⟩ := tidy.contents c old
      have used := chain_not_free chain List.mem_cons_self
      refine ⟨chain_congr chain done.count fun d inside => ?_, ?_⟩
      · rw [List.mem_singleton.1 inside]
        exact (done.others c outside used).2
      · intro inside
        exact (List.mem_append.1 inside).elim outside fun new => used (done.fresh c new)
    · rw [new_entry_directory, Bool.and_eq_true] at directory
      rw [cluster]
      exact ⟨(own_content_chain small done directory.2).2, done.apart⟩
  · apply nodup_written done listable_long tidy.apart
    intro directory old
    rw [new_entry_directory, Bool.and_eq_true] at directory
    rw [cluster] at old
    exact chain_not_free (tidy.contents content old).1 List.mem_cons_self
      (own_content_chain small done directory.2).1

/-- The name of a new entry that is live is gathered twice if it was there before. -/
theorem repeated_written
    (done : Written v start cs name kind at_ w extra before run written behind content)
    (clean : ∀ c ∈ name, c ≠ 0) (live : (nameToShort name).getD 0 charSpace ≠ dirEntryFree)
    (short : kind ≠ DirAttr.lfnMask) (taken : nameToShort name ∈ heldNames (slotsOf v cs)) :
    ¬ (heldNames (slotsOf w (cs ++ extra))).Nodup := by
  intro nodup
  unfold heldNames at taken nodup
  rw [gathered_old _ _ done] at taken
  rw [gathered_new _ _ done] at nodup
  have new : newEntry name kind content ∈ written.map Slot.entry := by
    rw [done.entries]
    exact List.mem_append_right _ List.mem_cons_self
  obtain ⟨slot, inside, entry⟩ := List.mem_map.1 new
  have marks := live_marks (e := newEntry name kind content) ⟨name_to_short_nonzero clean, live⟩
  have used : unused slot = false := by
    unfold unused
    rw [entry, marks.1, marks.2]
    rfl
  have plain : isLfnEntry (newEntry name kind content) = false := beq_eq_false_iff_ne.2 short
  have here := mem_gathered (p := fun e => !isLfnEntry e) shortName inside used
    (by rw [entry, plain]; rfl)
  rw [entry, new_entry_name] at here
  obtain ⟨_, rest, apart⟩ := List.nodup_append.1 nodup
  rcases List.mem_append.1 taken with early | late
  · exact apart _ early _ (List.mem_append_left _ here) rfl
  · exact (List.nodup_append.1 rest).2.2 _ here _ late rfl

end Creating

section Running

variable {faults : Faults} {v : Volume} {start : Nat} {cs : List Nat} {s s' : Fat32Filesystem}

theorem create_writes (sure : faults.drive = false) (stands : Stands faults s v)
    (chain : Chain v start cs) {fuel : Nat} {name : FileName} {kind : UInt8}
    (next : change start s (.create fuel name kind) = some s') :
    ∃ w at_ extra before run written behind content, Stands faults s' w ∧
      Written v start cs name.bytes kind at_ w extra before run written behind content := by
  unfold change at next
  dsimp only at next
  split at next
  · next t found =>
    split at next
    · next at_ u created =>
      obtain rfl : u = s' := Option.some.inj next
      obtain ⟨w, standsT, rfl, _⟩ := find_entry_answers fuel chain name.bytes s stands _ t found
      obtain ⟨w', standsU, writes⟩ :=
        create_entry_answers sure chain fuel name.bytes kind t standsT _ u created
      obtain ⟨extra, before, run, written, behind, content, done⟩ := writes at_ rfl
      exact ⟨w', at_, extra, before, run, written, behind, content, standsU, done⟩
    · cases next
  · cases next

theorem FileName.nonzero (name : FileName) : ∀ c ∈ name.bytes, c ≠ 0 :=
  fun _ member zero => name.clean (zero ▸ member)

theorem tidy_create (sure : faults.drive = false) (stands : Stands faults s v)
    (tidy : Tidy v start cs) {fuel : Nat} {name : FileName} {kind : UInt8}
    (fresh : nameToShort name.bytes ∉ heldNames (slotsOf v cs))
    (next : change start s (.create fuel name kind) = some s') :
    ∃ w ds, Stands faults s' w ∧ Tidy w start ds := by
  obtain ⟨w, at_, extra, before, run, written, behind, content, stands', done⟩ :=
    create_writes sure stands tidy.chain next
  have small : v.fatEntryCount ≤ 0x0FFFFFF7 := stands.count ▸ stands.layout.entries
  exact ⟨w, cs ++ extra, stands', tidy_written tidy small (Nat.le_of_lt_succ name.short)
    name.nonzero fresh done⟩

theorem tidy_remove (sure : faults.drive = false) (stands : Stands faults s v)
    (tidy : Tidy v start cs) {fuel : Nat} {name : List UInt8}
    (kept : faults.heap = true → ∀ found, lookup v cs name = some found →
      isDirectory found.entry = false)
    (next : change start s (.remove fuel name) = some s') :
    ∃ w ds, Stands faults s' w ∧ Tidy w start ds := by
  obtain ⟨⟨answer, t⟩, run, rfl⟩ := Option.map_eq_some_iff.1 next
  obtain ⟨w, standsT, outcome⟩ := remove_entry_answers sure tidy.chain fuel
    (fun found listed => tidy_separate tidy listed) s stands answer t run
  refine ⟨w, cs, standsT, ?_⟩
  rcases outcome with rfl | ⟨found, listed, removed⟩ | ⟨fails, found, looked, directory⟩
  · exact tidy
  · exact tidy_removed tidy listed removed
  · rw [kept fails found looked] at directory
    cases directory

theorem tidy_step (sure : faults.drive = false) (stands : Stands faults s v)
    (tidy : Tidy v start cs) {c : Change} (admitted : Admitted faults start s c)
    (next : change start s c = some s') : ∃ w ds, Stands faults s' w ∧ Tidy w start ds := by
  have content := stands.content
  cases c with
  | create fuel name kind =>
      apply tidy_create sure stands tidy _ next
      rw [← short_names_held tidy.ended, ← content]
      exact admitted cs (content ▸ tidy.chain)
  | remove fuel name =>
      apply tidy_remove sure stands tidy _ next
      intro fails found looked
      exact admitted fails cs found (content ▸ tidy.chain) (content ▸ looked)

theorem unique_of_tidy (stands : Stands faults s v) (tidy : Tidy v start cs) :
    UniqueShortNames s start := by
  intro ds chain
  rw [stands.content] at chain ⊢
  have same : ds = cs := follows_unique chain.links tidy.chain.links
  rw [same, short_names_held tidy.ended]
  exact tidy.names

/-- A creation that is not admitted makes a name that is there twice, unless the entry is no live
short one. -/
theorem unique_after_create_iff (sure : faults.drive = false) (stands : Stands faults s v)
    (tidy : Tidy v start cs) {fuel : Nat} {name : FileName} {kind : UInt8}
    (live : (nameToShort name.bytes).getD 0 charSpace ≠ dirEntryFree)
    (short : kind ≠ DirAttr.lfnMask)
    (next : change start s (.create fuel name kind) = some s') :
    UniqueShortNames s' start ↔ Admitted faults start s (.create fuel name kind) := by
  constructor
  · intro unique ds chain taken
    rw [stands.content] at chain taken
    have same : ds = cs := follows_unique chain.links tidy.chain.links
    rw [same, short_names_held tidy.ended] at taken
    obtain ⟨w, at_, extra, before, run, written, behind, content, stands', done⟩ :=
      create_writes sure stands tidy.chain next
    have ended := written_ends_once tidy.ended (Nat.le_of_lt_succ name.short) name.nonzero done
    have nodup := unique (cs ++ extra) (stands'.content ▸ done.chain)
    rw [stands'.content, short_names_held ended] at nodup
    exact repeated_written done name.nonzero live short taken nodup
  · intro admitted
    obtain ⟨w, ds, stands', tidy'⟩ := tidy_step sure stands tidy admitted next
    exact unique_of_tidy stands' tidy'

/-- In every run of admitted changes from an empty directory the short names stay different. -/
theorem short_names_stay_unique (sure : faults.drive = false) (stands : Stands faults s v)
    (empty : EmptyDirectory v start cs)
    (run : Run (change start) (Admitted faults start) s s') : UniqueShortNames s' start := by
  obtain ⟨w, ds, stands', tidy⟩ := Run.invariant
    (fun t => ∃ w ds, Stands faults t w ∧ Tidy w start ds) run ⟨v, cs, stands, tidy_of_empty empty⟩
    fun _ _ _ ⟨_, _, stands, tidy⟩ admitted next => tidy_step sure stands tidy admitted next
  exact unique_of_tidy stands' tidy

/-- `ab` and `AB`, both short enough for the short slot. -/
def lowerName : FileName := ⟨[0x61, 0x62], by decide, by decide⟩

def upperName : FileName := ⟨[0x41, 0x42], by decide, by decide⟩

/-- Directory 3 of the volume lists nothing. -/
theorem small_directory_empty : EmptyDirectory (volumeOf PathWalk.smallVolume) 3 [3] where
  chain := PathWalk.small_volume_chain (by decide)
  ended := by
    unfold EndsOnce
    decide +kernel
  nothing := List.eq_nil_iff_forall_not_mem.2 PathWalk.small_volume_sub
  labels := by decide +kernel

/-- `cd`. -/
def otherName : FileName := ⟨[0x63, 0x64], by decide, by decide⟩

theorem one_cluster_chain {s : Fat32Filesystem} (link : (volumeOf s).fat 3 = fatEoc)
    (count : (volumeOf s).fatEntryCount = 4) : Chain (volumeOf s) 3 [3] := by
  refine ⟨⟨rfl, by decide, Nat.le_of_eq link.symm⟩, ?_⟩
  intro c member
  rw [List.mem_singleton.1 member]
  exact ⟨by decide, count ▸ by decide⟩

/-- Directory 3 has one cluster, and the short name of `name` is not in it. -/
def lacks (name : FileName) (s : Fat32Filesystem) : Bool :=
  (volumeOf s).fat 3 == fatEoc && (volumeOf s).fatEntryCount == 4 &&
    decide (nameToShort name.bytes ∉ shortNames (slotsOf (volumeOf s) [3]))

theorem admitted_of_lacks {s : Fat32Filesystem} {name : FileName} (absent : lacks name s = true)
    (fuel : Nat) (kind : UInt8) : Admitted ⟨false, false⟩ 3 s (.create fuel name kind) := by
  unfold lacks at absent
  rw [Bool.and_eq_true, Bool.and_eq_true, beq_iff_eq, beq_iff_eq, decide_eq_true_eq] at absent
  obtain ⟨⟨link, count⟩, fresh⟩ := absent
  intro cs chain
  rw [follows_unique chain.links (one_cluster_chain link count).links]
  exact fresh

/-- `AB` is created while `cd` is there, after `ab` with the same short name has gone. -/
theorem small_directory_stays_unique : ∃ s', UniqueShortNames s' 3 ∧
    path (change 3) PathWalk.smallVolume
      [.create 22 lowerName DirAttr.archive, .create 22 otherName DirAttr.archive,
        .remove 22 lowerName.bytes, .create 22 upperName DirAttr.archive] = some s' := by
  have possible : (path (change 3) PathWalk.smallVolume
      [.create 22 lowerName DirAttr.archive, .create 22 otherName DirAttr.archive,
        .remove 22 lowerName.bytes, .create 22 upperName DirAttr.archive]).isSome = true := by
    decide +kernel
  obtain ⟨s', reached⟩ := Option.isSome_iff_exists.1 possible
  obtain ⟨s₁, first, onward⟩ := Option.bind_eq_some_iff.1 reached
  obtain ⟨s₂, second, onward⟩ := Option.bind_eq_some_iff.1 onward
  obtain ⟨s₃, third, onward⟩ := Option.bind_eq_some_iff.1 onward
  obtain ⟨_, fourth, same⟩ := Option.bind_eq_some_iff.1 onward
  obtain rfl := Option.some.inj same
  have fresh : lacks lowerName PathWalk.smallVolume = true := by decide +kernel
  have fresh₁ : (change 3 PathWalk.smallVolume (.create 22 lowerName DirAttr.archive)).map
      (lacks otherName) = some true := by decide +kernel
  have fresh₃ : ((change 3 PathWalk.smallVolume (.create 22 lowerName DirAttr.archive)).bind fun s =>
      (change 3 s (.create 22 otherName DirAttr.archive)).bind fun s =>
        (change 3 s (.remove 22 lowerName.bytes)).map (lacks upperName)) = some true := by
    decide +kernel
  rw [first, Option.map_some] at fresh₁
  rw [first, Option.bind_some, second, Option.bind_some, third, Option.map_some] at fresh₃
  have removes : Admitted ⟨false, false⟩ 3 s₂ (.remove 22 lowerName.bytes) :=
    fun fails => absurd fails Bool.false_ne_true
  refine ⟨_, short_names_stay_unique rfl PathWalk.small_volume_stands small_directory_empty
    (.step (.step (.step (.step .start ?_ first) ?_ second) removes third) ?_ fourth), reached⟩
  · exact admitted_of_lacks fresh 22 DirAttr.archive
  · exact admitted_of_lacks (Option.some.inj fresh₁) 22 DirAttr.archive
  · exact admitted_of_lacks (Option.some.inj fresh₃) 22 DirAttr.archive

/-- Two different names, neither of them there before, get the same short name. -/
theorem short_name_repeated : ¬ ∀ (s s' : Fat32Filesystem) (start : Nat) (cs : List Nat)
    (changes : List Change), Stands ⟨false, false⟩ s (volumeOf s) →
      EmptyDirectory (volumeOf s) start cs → (createdNames changes).Nodup →
      path (change start) s changes = some s' → UniqueShortNames s' start := by
  intro unique
  have evaluated : (path (change 3) PathWalk.smallVolume
      [.create 22 lowerName DirAttr.archive, .create 22 upperName DirAttr.archive]).map
      (fun s => ((volumeOf s).fat 3, (volumeOf s).fatEntryCount,
        decide (shortNames (slotsOf (volumeOf s) [3])).Nodup)) = some (fatEoc, 4, false) := by
    decide +kernel
  obtain ⟨s', reached, facts⟩ := Option.map_eq_some_iff.1 evaluated
  obtain ⟨link, rest⟩ := Prod.mk.inj facts
  obtain ⟨count, repeated⟩ := Prod.mk.inj rest
  exact of_decide_eq_false repeated (unique PathWalk.smallVolume s' 3 [3] _
    PathWalk.small_volume_stands small_directory_empty (by decide) reached [3]
    (one_cluster_chain link count))

end Running

end CassiOS.Fat32.ShortNames
