import CassiOS.Fat32.DirectoryItems

/-!
# Names of removed entries

`removeEntry` deletes the slots of one entry, and the directory lists the other ones as before,
where the slots of the names in question lie together: the clean-up of a long name that began in
the cluster before looks at the first slot of the cluster only.
-/

namespace CassiOS.Fat32.RemovedNames

open CassiOS.Support.PartialProgram
open CassiOS.Support.Chain
open CassiOS.Support.Pieces
open CassiOS.Fat32.Types
open CassiOS.Fat32.Names
open CassiOS.Fat32.Device
open CassiOS.Fat32.Filesystem
open CassiOS.Fat32.VolumeModel
open CassiOS.Fat32.FatModel
open CassiOS.Fat32.FileModel
open CassiOS.Fat32.DirectoryModel
open CassiOS.Fat32.SlotRuns
open CassiOS.Fat32.CreateEntry
open CassiOS.Fat32.RemoveEntry
open CassiOS.Fat32.StoredFile (Freed freed_nil free_chain_frees chain_congr)
open CassiOS.Fat32.DirectoryItems
open CassiOS.Fat32.Enumeration (isVisible does_of_answers spacedName)

set_option autoImplicit false

def mark (slot : Slot) : Slot := put slot (setName0 slot.entry dirEntryFree)

def hasLfn (slot : Slot) : Bool := isLfnEntry slot.entry

/-- What `freeLfnBefore` makes of the slots before the one it starts from. -/
def cleared (slots : List Slot) : List Slot :=
  slots.rdropWhile hasLfn ++ (slots.rtakeWhile hasLfn).map mark

section Marking

variable {slots longs rest : List Slot} {slot : Slot} {c k n : Nat} {buf : Buf}

theorem mark_unused (slot : Slot) : unused (mark slot) = true := by
  unfold unused
  change (_ || isFree (setName0 slot.entry dirEntryFree)) = true
  rw [free_set_name, Bool.or_true]

theorem mark_free (free : isFree slot.entry = true) : mark slot = slot := by
  have first : slot.entry 0 = dirEntryFree := beq_iff_eq.1 free
  have same : setName0 slot.entry dirEntryFree = slot.entry := by
    funext k
    unfold setName0
    split
    · next here => rw [here, first]
    · rfl
  unfold mark put
  rw [same]

theorem cleared_concat (lfn : hasLfn slot = true) :
    cleared (slots ++ [slot]) = cleared slots ++ [mark slot] := by
  unfold cleared
  rw [List.rdropWhile_concat_pos _ _ _ lfn, List.rtakeWhile_concat_pos _ _ _ lfn, List.map_append,
    List.append_assoc]
  rfl

theorem cleared_other (other : hasLfn slot = false) :
    cleared (slots ++ [slot]) = slots ++ [slot] := by
  have stops : ¬ hasLfn slot = true := Bool.eq_false_iff.1 other
  unfold cleared
  rw [List.rdropWhile_concat_neg _ _ _ stops, List.rtakeWhile_concat_neg _ _ _ stops]
  exact List.append_nil _

theorem cleared_longs (long : ∀ slot ∈ longs, hasLfn slot = true) :
    cleared (slots ++ longs) = cleared slots ++ longs.map mark := by
  induction longs using List.reverseRecOn with
  | nil => rw [List.map_nil, List.append_nil, List.append_nil]
  | append_singleton longs slot ih =>
      rw [← List.append_assoc, cleared_concat (long slot (by simp)),
        ih fun x member => long x (List.mem_append_left _ member), List.map_append,
        List.append_assoc]
      rfl

/-- Nothing changes where the trailing slots of long names were deleted before. -/
theorem cleared_settled (free : ∀ slot ∈ slots.rtakeWhile hasLfn, isFree slot.entry = true) :
    cleared slots = slots := by
  have same : (slots.rtakeWhile hasLfn).map mark = slots.rtakeWhile hasLfn :=
    (List.map_congr_left fun slot member => mark_free (free slot member)).trans (List.map_id _)
  unfold cleared
  rw [same]
  exact List.rdropWhile_append_rtakeWhile

theorem free_lfn_slots (c : Nat) (buf : Buf) (k : Nat) :
    slotsFrom c (freeLfnBefore buf k) k 0 = cleared (slotsFrom c buf k 0) := by
  induction k generalizing buf with
  | zero => rfl
  | succ k ih =>
      have grow : ∀ b, slotsFrom c b (k + 1) 0 =
          slotsFrom c b k 0 ++ [⟨slotAt b k, c, k * dirEntrySize⟩] := by
        intro b
        rw [slots_from_append, Nat.zero_add]
        rfl
      have last : hasLfn ⟨slotAt buf k, c, k * dirEntrySize⟩ = isLfnEntry (slotAt buf k) := rfl
      rw [grow buf]
      unfold freeLfnBefore
      split
      · next lfn =>
        rw [cleared_concat (last.trans lfn), grow, ih, slots_from_set_before c buf _ (by omega),
          free_lfn_behind _ (Nat.le_refl k), slot_at_set_self]
        rfl
      · next other =>
        rw [cleared_other (last.trans (Bool.eq_false_iff.2 other)), grow]

theorem deleted_slots (c : Nat) (buf : Buf) (inside : k < n) :
    slotsFrom c (freeLfnBefore (setSlot buf k (setName0 (slotAt buf k) dirEntryFree)) k) n 0 =
      cleared (slotsFrom c buf k 0) ++
        mark ⟨slotAt buf k, c, k * dirEntrySize⟩ :: slotsFrom c buf (n - (k + 1)) (k + 1) := by
  have whole : n = k + (1 + (n - (k + 1))) := by omega
  have rest : slotsFrom c (freeLfnBefore (setSlot buf k (setName0 (slotAt buf k) dirEntryFree)) k)
      (n - (k + 1)) (k + 1) = slotsFrom c buf (n - (k + 1)) (k + 1) := by
    apply slots_from_congr
    intro j low _
    rw [free_lfn_behind _ (by omega), slot_at_set_other buf _ (by omega)]
  conv =>
    lhs
    rw [whole]
  rw [slots_from_append, slots_from_append, free_lfn_slots,
    slots_from_set_before c buf _ (by omega), Nat.zero_add, rest]
  congr 1
  change [_] ++ _ = _
  rw [free_lfn_behind _ (Nat.le_refl k), slot_at_set_self]
  rfl

end Marking

section Neighbours

variable {items front back : List Item} {slots left right : List Slot} {slot x y : Slot}

/-- A slot of a long name is followed by one that is in use. -/
def Attached (slots : List Slot) : Prop :=
  ∀ before x y behind, slots = before ++ x :: y :: behind → Long x → unused y = false

theorem attached_front (attached : Attached (left ++ right)) : Attached left := by
  intro before x y behind split long
  exact attached before x y (behind ++ right) (by rw [split]; simp) long

theorem attached_back (attached : Attached (left ++ right)) : Attached right := by
  intro before x y behind split long
  exact attached (left ++ before) x y behind (by rw [split]; simp) long

theorem entry_behind {longs : List Slot} {short : Slot} (plain : Short short) (long : Long x)
    (split : longs ++ [short] = left ++ x :: right) :
    ∃ rest, longs = left ++ x :: rest ∧ right = rest ++ [short] := by
  rcases List.eq_nil_or_concat right with none | ⟨rest, last, tail⟩
  · subst none
    have same : short = x := (List.append_singleton_inj.1 split).2
    rw [same] at plain
    exact absurd long.lfn (Bool.eq_false_iff.1 plain.plain)
  · rw [List.concat_eq_append] at tail
    subst tail
    rw [← List.cons_append, ← List.append_assoc] at split
    obtain ⟨same, last_⟩ := List.append_singleton_inj.1 split
    exact ⟨rest, same, by rw [last_]⟩

theorem long_entry (sound : ∀ item ∈ items, item.Sound) (long : Long x)
    (split : items.flatMap Item.slots = left ++ x :: right) :
    ∃ longs short rest behind, Item.entry longs short ∈ items ∧
      (∃ before, longs = before ++ x :: rest) ∧
      (Item.entry longs short).Sound ∧ right = rest ++ short :: behind := by
  obtain ⟨front, item, back, before, after, rfl, here, rfl, rfl⟩ := pieces_split split
  have member : item ∈ front ++ item :: back := List.mem_append_right _ List.mem_cons_self
  cases item with
  | gap slot =>
      have inside : x ∈ (Item.gap slot).slots := by
        rw [here]
        exact List.mem_append_right _ List.mem_cons_self
      have free : unused slot = true := sound _ member
      rw [← List.mem_singleton.1 inside, long.used] at free
      cases free
  | entry longs short =>
      obtain ⟨rest, same, tail⟩ := entry_behind (sound _ member).2.2 long here
      refine ⟨longs, short, rest, back.flatMap Item.slots, member, ⟨before, same⟩, sound _ member,
        ?_⟩
      rw [tail, List.append_assoc]
      rfl

theorem tiled_attached (tiled : Tiled slots items) : Attached slots := by
  rintro before x y behind rfl long
  obtain ⟨longs, short, rest, tail, _, ⟨before', same⟩, sound, split⟩ :=
    long_entry tiled.sound long tiled.cover
  cases rest with
  | nil =>
      obtain ⟨rfl, _⟩ := List.cons.inj split
      exact sound.2.2.used
  | cons z rest =>
      obtain ⟨rfl, _⟩ := List.cons.inj split
      refine (sound.1 y ?_).used
      rw [same]
      exact List.mem_append_right _ (List.mem_cons_of_mem x List.mem_cons_self)

/-- The last slot of an item is none of a long name. -/
theorem tiled_last (tiled : Tiled slots items) (last : slots = left ++ [x]) : ¬ Long x := by
  intro long
  obtain ⟨longs, short, rest, tail, _, _, _, none⟩ :=
    long_entry tiled.sound long (tiled.cover.trans last)
  exact absurd none.symm (by simp)

/-- Behind the last long name there are only deleted slots with the mark of one. -/
theorem trailing_free (attached : Attached slots) (noEnd : ∀ slot ∈ slots, isEnd slot.entry = false)
    (last : ∀ before x, slots = before ++ [x] → ¬ Long x) :
    ∀ slot ∈ slots.rtakeWhile hasLfn, isFree slot.entry = true := by
  induction slots using List.reverseRecOn with
  | nil => exact fun slot none => absurd none List.not_mem_nil
  | append_singleton slots slot ih =>
      by_cases lfn : hasLfn slot = true
      · have free : unused slot = true := by
          by_contra used
          exact last slots slot rfl ⟨Bool.eq_false_iff.2 used, lfn⟩
        have deleted : isFree slot.entry = true := by
          unfold unused at free
          rw [noEnd slot (by simp), Bool.false_or] at free
          exact free
        rw [List.rtakeWhile_concat_pos _ _ _ lfn]
        intro z member
        rcases List.mem_append.1 member with early | here
        · refine ih (attached_front attached)
            (fun w inside => noEnd w (List.mem_append_left _ inside)) ?_ z early
          rintro before x rfl long
          have used := attached before x slot [] (by simp) long
          rw [used] at free
          cases free
        · rw [List.mem_singleton.1 here]
          exact deleted
      · rw [List.rtakeWhile_concat_neg _ _ _ lfn]
        exact fun z none => absurd none List.not_mem_nil

theorem no_end_before_used (ended : EndsOnce (left ++ x :: right)) (used : unused x = false) :
    ∀ slot ∈ left, isEnd slot.entry = false := by
  intro slot member
  apply Bool.eq_false_iff.2
  intro marked
  have free := (List.pairwise_append.1 ended).2.2 slot member x List.mem_cons_self marked
  rw [used] at free
  cases free

end Neighbours

section Deleting

variable {faults : Faults} {v u w : Volume} {start c k : Nat} {cs cs₁ cs₂ : List Nat}
  {items front back : List Item} {longs : List Slot} {short : Slot}

/-- Where a short slot is not the first of the cluster, the names with their short slot in the
cluster do not begin in an earlier one; where it is, its own name is within one cluster. -/
structure Removable (items : List Item) (longs : List Slot) (short : Slot) : Prop where
  together : ∀ longs' short', Item.entry longs' short' ∈ items → short'.cluster = short.cluster →
    short'.offset ≠ 0 → ∀ slot ∈ longs', slot.cluster = short.cluster
  before : short.offset = 0 → ∀ slot ∈ longs, ∀ slot' ∈ longs, slot.cluster = slot'.cluster

def cleanedBefore (v : Volume) (cs : List Nat) : List Slot :=
  slotsOf v cs.dropLast ++ (cs.getLast?.elim [] fun p =>
    cleared (slotsFrom p (v.cluster p) (slotCount v) 0))

theorem slots_from_cluster {n i : Nat} {buf : Buf} {slot : Slot}
    (member : slot ∈ slotsFrom c buf n i) :
    slot.cluster = c ∧ i * dirEntrySize ≤ slot.offset := by
  induction n generalizing i with
  | zero => cases member
  | succ n ih =>
      rcases List.mem_cons.1 member with rfl | later
      · exact ⟨rfl, Nat.le_refl _⟩
      · obtain ⟨same, behind⟩ := ih later
        refine ⟨same, Nat.le_trans ?_ behind⟩
        unfold dirEntrySize
        omega

theorem slots_of_cluster {slot : Slot} (member : slot ∈ slotsOf v cs) : slot.cluster ∈ cs := by
  obtain ⟨d, inside, here⟩ := List.mem_flatMap.1 member
  rw [(slots_from_cluster here).1]
  exact inside

theorem removable_alone (dir : Directory v start [c] items)
    (member : Item.entry longs short ∈ items) : Removable items longs short := by
  have inside : ∀ longs' short', Item.entry longs' short' ∈ items →
      ∀ slot ∈ longs' ++ [short'], slot.cluster = c := by
    intro longs' short' here slot within
    apply List.mem_singleton.1
    apply slots_of_cluster (v := v)
    rw [← dir.tiled.cover]
    exact List.mem_flatMap.2 ⟨_, here, within⟩
  have own : short.cluster = c := inside longs short member short (by simp)
  constructor
  · intro longs' short' here _ _ slot long
    rw [own]
    exact inside longs' short' here slot (List.mem_append_left _ long)
  · intro _ slot long slot' long'
    rw [inside longs short member slot (List.mem_append_left _ long),
      inside longs short member slot' (List.mem_append_left _ long')]

theorem cleaned_concat (v : Volume) (ds : List Nat) (p : Nat) :
    cleanedBefore v (ds ++ [p]) =
      slotsOf v ds ++ cleared (slotsFrom p (v.cluster p) (slotCount v) 0) := by
  unfold cleanedBefore
  rw [List.dropLast_concat, List.getLast?_concat]
  rfl

/-- Nothing changes in the cluster before where it does not end within a long name. -/
theorem cleaned_settled (attached : Attached (slotsOf v cs₁))
    (noEnd : ∀ slot ∈ slotsOf v cs₁, isEnd slot.entry = false)
    (last : ∀ before x, slotsOf v cs₁ = before ++ [x] → ¬ Long x) :
    cleanedBefore v cs₁ = slotsOf v cs₁ := by
  rcases List.eq_nil_or_concat cs₁ with none | ⟨ds, p, tail⟩
  · subst none
    rfl
  · rw [List.concat_eq_append] at tail
    subst tail
    have whole : slotsOf v (ds ++ [p]) =
        slotsOf v ds ++ slotsFrom p (v.cluster p) (slotCount v) 0 := by
      rw [slots_of_append, slots_of_cons]
      exact congrArg _ (List.append_nil _)
    rw [whole] at attached noEnd last
    rw [cleaned_concat, whole, cleared_settled]
    refine trailing_free (attached_back attached)
      (fun slot member => noEnd slot (List.mem_append_right _ member)) ?_
    intro before x here
    apply last (slotsOf v ds ++ before) x
    rw [here, List.append_assoc]

/-- The slots before the short one, its own long name deleted. -/
structure Cut (v : Volume) (cs₁ : List Nat) (c k : Nat) (front : List Item) (longs : List Slot) :
    Prop where
  sound : ∀ item ∈ front, item.Sound
  long : ∀ slot ∈ longs, Long slot
  split : front.flatMap Item.slots ++ longs = slotsOf v cs₁ ++ slotsFrom c (v.cluster c) k 0
  noEnd : ∀ slot ∈ front.flatMap Item.slots ++ longs, isEnd slot.entry = false
  apart : c ∉ cs₁
  distinct : cs₁.Nodup

theorem Cut.tiled (cut : Cut v cs₁ c k front longs) :
    Tiled (front.flatMap Item.slots) front := ⟨rfl, cut.sound⟩

theorem Cut.front_no_end (cut : Cut v cs₁ c k front longs) :
    ∀ slot ∈ front.flatMap Item.slots, isEnd slot.entry = false :=
  fun slot member => cut.noEnd slot (List.mem_append_left _ member)

/-- The own name lies in the cluster of the short slot, with `rest` before it. -/
theorem cut_within (cut : Cut v cs₁ c k front longs) {rest : List Slot}
    (here : slotsFrom c (v.cluster c) k 0 = rest ++ longs) :
    front.flatMap Item.slots = slotsOf v cs₁ ++ rest ∧
      cleared (slotsFrom c (v.cluster c) k 0) = rest ++ longs.map mark := by
  have split := cut.split
  rw [here, ← List.append_assoc] at split
  have same := List.append_cancel_right split
  have attached := tiled_attached cut.tiled
  rw [same] at attached
  refine ⟨same, ?_⟩
  rw [here, cleared_longs fun slot member => (cut.long slot member).lfn, cleared_settled]
  refine trailing_free (attached_back attached) (fun slot member => ?_) ?_
  · apply cut.front_no_end slot
    rw [same]
    exact List.mem_append_right _ member
  · rintro before x rfl
    exact tiled_last cut.tiled (by rw [same, ← List.append_assoc])

theorem slots_of_concat (v : Volume) (ds : List Nat) (p : Nat) :
    slotsOf v (ds ++ [p]) = slotsOf v ds ++ slotsFrom p (v.cluster p) (slotCount v) 0 := by
  rw [slots_of_append, slots_of_cons]
  exact congrArg _ (List.append_nil _)

/-- The own name lies in the cluster before that of the short slot, which is the first there. -/
theorem cut_before (cut : Cut v cs₁ c 0 front longs) (some_ : longs ≠ []) (size : 0 < slotCount v)
    (one : ∀ slot ∈ longs, ∀ slot' ∈ longs, slot.cluster = slot'.cluster) :
    cleanedBefore v cs₁ = front.flatMap Item.slots ++ longs.map mark := by
  have split := cut.split
  change _ = slotsOf v cs₁ ++ [] at split
  rw [List.append_nil] at split
  rcases List.eq_nil_or_concat cs₁ with none | ⟨ds, p, tail⟩
  · subst none
    exact absurd (List.append_eq_nil_iff.1 split).2 some_
  rw [List.concat_eq_append] at tail
  subst tail
  have outside : p ∉ ds := fun member =>
    (List.nodup_append.1 cut.distinct).2.2 p member p List.mem_cons_self rfl
  rw [slots_of_concat] at split
  have lies : ∃ rest, front.flatMap Item.slots = slotsOf v ds ++ rest ∧
      slotsFrom p (v.cluster p) (slotCount v) 0 = rest ++ longs := by
    rcases List.append_eq_append_iff.1 split with ⟨more, ahead, behind⟩ | ⟨rest, ahead, behind⟩
    · cases more with
      | nil =>
          rw [List.append_nil] at ahead
          exact ⟨[], by rw [List.append_nil, ahead], behind.symm⟩
      | cons slot more =>
          -- it would begin in a cluster before the last one
          obtain ⟨last, inside⟩ := List.exists_mem_of_length_pos
            (l := slotsFrom p (v.cluster p) (slotCount v) 0) (by rw [slots_from_length]; exact size)
          have early : slot.cluster ∈ ds := by
            apply slots_of_cluster (v := v)
            rw [ahead]
            exact List.mem_append_right _ List.mem_cons_self
          have same := one slot (by rw [behind]; exact List.mem_append_left _ List.mem_cons_self)
            last (by rw [behind]; exact List.mem_append_right _ inside)
          rw [same, (slots_from_cluster inside).1] at early
          exact absurd early outside
    · exact ⟨rest, ahead, behind⟩
  obtain ⟨rest, first, here⟩ := lies
  have attached := tiled_attached cut.tiled
  rw [first] at attached
  rw [cleaned_concat, here, cleared_longs fun slot member => (cut.long slot member).lfn,
    cleared_settled, first, List.append_assoc]
  refine trailing_free (attached_back attached) (fun slot member => ?_) ?_
  · apply cut.front_no_end slot
    rw [first]
    exact List.mem_append_right _ member
  · rintro before x rfl
    exact tiled_last cut.tiled (by rw [first, ← List.append_assoc])

/-- The clean-up of the cluster before hits the own name only. -/
theorem cut_cleaned (cut : Cut v cs₁ c k front longs) (short_ : short.cluster = c)
    (offset : short.offset = k * dirEntrySize) (size : 0 < slotCount v)
    (removable : Removable (front ++ .entry longs short :: back) longs short) :
    ((k = 0 ∨ ∃ first rest, cleared (slotsFrom c (v.cluster c) k 0) = first :: rest ∧
        isLfnEntry first.entry = true ∧ isFree first.entry = false) →
      cleanedBefore v cs₁ ++ cleared (slotsFrom c (v.cluster c) k 0) =
        front.flatMap Item.slots ++ longs.map mark) ∧
    (k ≠ 0 → slotsOf v cs₁ ++ cleared (slotsFrom c (v.cluster c) k 0) =
      front.flatMap Item.slots ++ longs.map mark) := by
  have own : Item.entry longs short ∈ front ++ .entry longs short :: back :=
    List.mem_append_right _ List.mem_cons_self
  rcases Nat.eq_zero_or_pos k with rfl | positive
  · refine ⟨fun _ => ?_, fun none => absurd rfl none⟩
    change cleanedBefore v cs₁ ++ [] = _
    rw [List.append_nil]
    by_cases none : longs = []
    · subst none
      have split := cut.split
      change _ = slotsOf v cs₁ ++ [] at split
      rw [List.append_nil, List.append_nil] at split
      rw [List.map_nil, List.append_nil, split]
      apply cleaned_settled
      · rw [← split]
        exact tiled_attached cut.tiled
      · rw [← split]
        exact cut.front_no_end
      · intro before x here
        exact tiled_last cut.tiled (split.trans here)
    · exact cut_before cut none size (removable.before (by rw [offset, Nat.zero_mul]))
  · have inner : short.offset ≠ 0 := by
      rw [offset]
      unfold dirEntrySize
      omega
    have lies : ∃ rest, slotsFrom c (v.cluster c) k 0 = rest ++ longs := by
      rcases List.append_eq_append_iff.1 cut.split with ⟨more, ahead, behind⟩ | ⟨rest, _, behind⟩
      · cases more with
        | nil => exact ⟨[], behind.symm⟩
        | cons slot more =>
            have early : slot.cluster ∈ cs₁ := by
              apply slots_of_cluster (v := v)
              rw [ahead]
              exact List.mem_append_right _ List.mem_cons_self
            have same := removable.together longs short own rfl inner slot
              (by rw [behind]; exact List.mem_append_left _ List.mem_cons_self)
            rw [same, short_] at early
            exact absurd early cut.apart
      · exact ⟨rest, behind⟩
    obtain ⟨rest, here⟩ := lies
    obtain ⟨same, clears⟩ := cut_within cut here
    have settled : slotsOf v cs₁ ++ cleared (slotsFrom c (v.cluster c) k 0) =
        front.flatMap Item.slots ++ longs.map mark := by
      rw [clears, same, List.append_assoc]
    refine ⟨?_, fun _ => settled⟩
    rintro (zero | ⟨first, behind, shape, lfn, live⟩)
    · omega
    · rw [← settled]
      congr 1
      have attached := tiled_attached cut.tiled
      rw [same] at attached
      apply cleaned_settled (attached_front attached)
      · intro slot member
        apply cut.front_no_end slot
        rw [same]
        exact List.mem_append_left _ member
      · intro before x last long
        rw [clears] at shape
        cases rest with
        | nil =>
            -- the first slot of the cluster is one of the own name
            cases longs with
            | nil =>
                rw [List.append_nil] at here
                have count := congrArg List.length here
                rw [slots_from_length] at count
                exact absurd count (Nat.ne_of_gt positive)
            | cons slot longs =>
                obtain ⟨rfl, _⟩ := List.cons.inj shape
                have deleted : isFree (mark slot).entry = true := free_set_name _
                rw [live] at deleted
                cases deleted
        | cons y rest =>
            obtain ⟨rfl, _⟩ := List.cons.inj shape
            have long' : Long y := by
              refine ⟨?_, lfn⟩
              unfold unused
              rw [live, Bool.or_false]
              apply cut.front_no_end y
              rw [same]
              exact List.mem_append_right _ List.mem_cons_self
            rw [last, List.append_assoc] at same
            obtain ⟨longs', short', rest', tail, member, ⟨before', inside⟩, sound, split⟩ :=
              long_entry cut.sound long same
            -- the name begins in the cluster before and ends in this one
            have within : short' ∈ rest := by
              cases rest' with
              | nil =>
                  obtain ⟨rfl, _⟩ := List.cons.inj split
                  exact absurd long'.lfn (Bool.eq_false_iff.1 sound.2.2.plain)
              | cons z rest' =>
                  rw [(List.cons.inj split).2]
                  exact List.mem_append_right _ List.mem_cons_self
            have grows : slotsFrom c (v.cluster c) k 0 = y :: (rest ++ longs) := here
            obtain ⟨m, more⟩ : ∃ m, k = m + 1 := ⟨k - 1, by omega⟩
            rw [more] at grows
            have later : short' ∈ slotsFrom c (v.cluster c) m 1 := by
              rw [(List.cons.inj grows).2]
              exact List.mem_append_left _ within
            obtain ⟨cluster, low⟩ := slots_from_cluster later
            have together := removable.together longs' short' (List.mem_append_left _ member)
              (cluster.trans short_.symm) (by unfold dirEntrySize at low; omega) x
              (by rw [inside]; exact List.mem_append_right _ List.mem_cons_self)
            have early : x.cluster ∈ cs₁ := by
              apply slots_of_cluster (v := v)
              rw [last]
              exact List.mem_append_right _ List.mem_cons_self
            rw [together, short_] at early
            exact cut.apart early

theorem find_previous_does (sure : faults.drive = false) {fuel : Nat} {prev cur : Nat}
    {ds rest : List Nat} (ahead : Follows v.fat (fatEoc ≤ ·) cur (ds ++ c :: rest))
    (valid : ∀ d ∈ ds, v.Valid d) (outside : c ∉ ds) (enough : ds.length < fuel) :
    Achieves (Stands faults) (findPrevious c fuel prev cur) v fun p w =>
      w = v ∧ p = ds.getLast?.getD prev := by
  induction fuel generalizing prev cur ds with
  | zero => exact absurd enough (Nat.not_lt_zero _)
  | succ fuel ih =>
      unfold findPrevious
      cases ds with
      | nil =>
          have here : cur = c := ahead.1
          rw [if_neg fun goes => goes.1 here]
          exact achieves_pure ⟨rfl, rfl⟩
      | cons d ds =>
          obtain ⟨rfl, goes, onward⟩ := ahead
          have other : cur ≠ c := fun same => outside (same ▸ List.mem_cons_self)
          rw [if_pos ⟨other, (valid cur List.mem_cons_self).1, Nat.not_le.1 goes⟩]
          apply achieves_bind_runs (fat_get_sure sure v cur)
          apply (ih onward (fun x member => valid x (List.mem_cons_of_mem cur member))
            (fun member => outside (List.mem_cons_of_mem cur member))
            (Nat.lt_of_succ_lt_succ enough)).mono
          rintro p w ⟨rfl, rfl⟩
          refine ⟨rfl, ?_⟩
          cases ds with
          | nil => rfl
          | cons e ds => rw [List.getLast?_cons_cons, List.getLast?_cons]; rfl

theorem slots_of_put (buf : Buf) (apart : (cs₁ ++ c :: cs₂).Nodup) :
    slotsOf (v.putCluster c buf) (cs₁ ++ c :: cs₂) =
      slotsOf v cs₁ ++ (slotsFrom c buf (slotCount v) 0 ++ slotsOf v cs₂) := by
  have others := List.nodup_append.1 apart
  have away₁ : ∀ d ∈ cs₁, d ≠ c := fun d member => others.2.2 d member c List.mem_cons_self
  have away₂ : ∀ d ∈ cs₂, d ≠ c := fun d member same =>
    (List.nodup_cons.1 others.2.1).1 (same ▸ member)
  rw [slots_of_append, slots_of_cons,
    slots_of_congr (Volume.bytes_put_cluster ..) fun d member =>
      Volume.put_cluster_other v c buf (away₁ d member),
    slots_of_congr (Volume.bytes_put_cluster ..) fun d member =>
      Volume.put_cluster_other v c buf (away₂ d member)]
  congr 2
  change slotsFrom _ _ (slotCount v) 0 = _
  exact slots_from_bytes fun j low => Volume.put_cluster_self v c buf
    (slot_bytes_inside (Nat.le_of_eq (Nat.zero_add _)) low)

/-- The clean-up of the cluster before, if there is one. -/
theorem clean_previous_does (sure : faults.drive = false) (supplied : faults.heap = false)
    (chain : Chain v start (cs₁ ++ c :: cs₂)) {fuel : Nat} (enough : cs₁.length < fuel) :
    Achieves (Stands faults) (cleanPrevious fuel start c) v fun _ u =>
      Rewrites v u cs₁ ∧ slotsOf u cs₁ = cleanedBefore v cs₁ := by
  have apart := follows_nodup chain.links
  have others := List.nodup_append.1 apart
  have outside : c ∉ cs₁ := fun member => others.2.2 c member c List.mem_cons_self rfl
  unfold cleanPrevious
  apply achieves_bind (find_previous_does sure chain.links
    (fun d member => chain.valid d (List.mem_append_left _ member)) outside enough)
  rintro prev w ⟨rfl, rfl⟩
  rcases List.eq_nil_or_concat cs₁ with none | ⟨ds, p, tail⟩
  · subst none
    have head : start = c := chain.links.1
    rw [List.getLast?_nil, Option.getD_none, if_pos head]
    exact achieves_pure ⟨rewrites_refl w [], rfl⟩
  · rw [List.concat_eq_append] at tail
    subst tail
    have inside : p ∈ ds ++ [p] := List.mem_append_right _ List.mem_cons_self
    have valid := chain.valid p (List.mem_append_left _ inside)
    have other : p ≠ c := fun same => outside (same ▸ inside)
    rw [List.getLast?_concat, Option.getD_some, if_neg other]
    apply achieves_bind (heap_alloc_does w)
    rintro (_ | block) w ⟨rfl, missing⟩
    · have failed := missing rfl
      rw [supplied] at failed
      cases failed
    · apply achieves_bind (read_cluster_does valid block)
      rintro ⟨ok, buf⟩ w ⟨rfl, read | ⟨_, fails⟩⟩
      · cases read
        apply achieves_get
        intro s stands
        rw [entries_per_cluster stands]
        apply achieves_bind_runs (write_cluster_does sure valid _)
        apply achieves_pure
        refine ⟨rewrites_put inside w _, ?_⟩
        have put_ : slotsOf (w.putCluster p (freeLfnBefore
              (overlay w.clusterBytes (w.cluster p) block) (slotCount w))) (ds ++ [p]) =
            slotsOf w ds ++ (slotsFrom p (freeLfnBefore
              (overlay w.clusterBytes (w.cluster p) block) (slotCount w)) (slotCount w) 0 ++
              slotsOf w []) := slots_of_put _ others.1
        rw [put_, cleaned_concat, free_lfn_slots, slots_from_overlay]
        change _ ++ (_ ++ []) = _
        rw [List.append_nil]
      · rw [sure] at fails
        cases fails

theorem cleared_length (slots : List Slot) : (cleared slots).length = slots.length := by
  have whole := congrArg List.length (List.rdropWhile_append_rtakeWhile (p := hasLfn) (l := slots))
  unfold cleared
  rw [List.length_append, List.length_map, ← List.length_append, whole]

theorem first_slot {buf buf' : Buf} {slot : Slot} {rest : List Slot} {n : Nat} (inside : k < n)
    (slots : slotsFrom c buf' n 0 = cleared (slotsFrom c buf k 0) ++ slot :: rest)
    (positive : k ≠ 0) : ∃ first behind,
      cleared (slotsFrom c buf k 0) = first :: behind ∧ first.entry = slotAt buf' 0 := by
  obtain ⟨m, more⟩ : ∃ m, n = m + 1 := ⟨n - 1, by omega⟩
  rw [more] at slots
  cases shape : cleared (slotsFrom c buf k 0) with
  | nil =>
      have count := cleared_length (slotsFrom c buf k 0)
      rw [shape, slots_from_length] at count
      exact absurd count.symm positive
  | cons first behind =>
      rw [shape] at slots
      exact ⟨first, behind, rfl, congrArg Slot.entry (List.cons.inj slots).1.symm⟩

theorem slots_from_kept (v : Volume) (d : Nat) (buf : Buf) {n i : Nat}
    (inside : i + n ≤ slotCount v) :
    slotsFrom d (overlay v.clusterBytes (v.cluster d) buf) n i = slotsFrom d (v.cluster d) n i :=
  slots_from_congr fun _ _ low => slot_at_overlay v _ buf (by omega)

theorem delete_slots_does (sure : faults.drive = false) (supplied : faults.heap = false)
    (dir : Directory v start cs (front ++ .entry longs short :: back))
    (removable : Removable (front ++ .entry longs short :: back) longs short) {found : Found}
    (cluster : found.cluster = short.cluster) (offset : found.offset = short.offset) {fuel : Nat}
    (enough : cs.length < fuel) :
    Achieves (Stands faults) (deleteSlots fuel start found) v fun answer w =>
      answer = true ∧ Rewrites v w cs ∧ slotsOf w cs = front.flatMap Item.slots ++
        ((longs ++ [short]).map mark ++ back.flatMap Item.slots) := by
  have tiled := dir.tiled
  have sound := tiled.sound
  obtain ⟨long, _, plain⟩ := sound _ (List.mem_append_right _ List.mem_cons_self)
  have split : slotsOf v cs =
      (front.flatMap Item.slots ++ longs) ++ short :: back.flatMap Item.slots := by
    rw [← tiled.cover, List.flatMap_append, List.flatMap_cons]
    change _ ++ ((longs ++ [short]) ++ _) = _
    simp only [List.append_assoc, List.singleton_append]
  have ended := dir.ended
  rw [split] at ended
  obtain ⟨k, inside, at_, cs₁, cs₂, rfl, ahead, behind⟩ := slots_of_split split
  have apart := follows_nodup dir.chain.links
  have others := List.nodup_append.1 apart
  have valid := dir.chain.valid short.cluster (List.mem_append_right _ List.mem_cons_self)
  have index : found.offset / dirEntrySize = k := by
    rw [offset, at_]
    exact Nat.mul_div_cancel k (by decide)
  have cut : Cut v cs₁ short.cluster k front longs := {
    sound := fun item member => sound item (List.mem_append_left _ member)
    long := long
    split := ahead
    noEnd := no_end_before_used ended plain.used
    apart := fun member => others.2.2 _ member _ List.mem_cons_self rfl
    distinct := others.1 }
  have cleaned := cut_cleaned cut rfl at_ (by omega) removable
  obtain ⟨n, left⟩ : ∃ n, slotCount v - k = n + 1 := ⟨slotCount v - k - 1, by omega⟩
  have left' : slotCount v - (k + 1) = n := by omega
  have near : cs₁.length < fuel := by
    rw [List.length_append] at enough
    omega
  rw [left] at behind
  obtain ⟨here, rest⟩ : short = ⟨slotAt (v.cluster short.cluster) k, short.cluster,
      k * dirEntrySize⟩ ∧ back.flatMap Item.slots =
        slotsFrom short.cluster (v.cluster short.cluster) n (k + 1) ++ slotsOf v cs₂ :=
    List.cons.inj behind
  unfold deleteSlots
  apply achieves_bind (heap_alloc_does v)
  rintro (_ | block) w ⟨rfl, missing⟩
  · have failed := missing rfl
    rw [supplied] at failed
    cases failed
  rw [cluster]
  apply achieves_bind (read_cluster_does valid block)
  rintro ⟨ok, buf⟩ w ⟨rfl, read | ⟨_, fails⟩⟩
  · cases read
    dsimp only
    rw [if_pos rfl, index]
    have slots := deleted_slots short.cluster
      (overlay w.clusterBytes (w.cluster short.cluster) block) inside
    have kept : cleared (slotsFrom short.cluster
          (overlay w.clusterBytes (w.cluster short.cluster) block) k 0) ++
        mark ⟨slotAt (overlay w.clusterBytes (w.cluster short.cluster) block) k, short.cluster,
          k * dirEntrySize⟩ :: slotsFrom short.cluster
            (overlay w.clusterBytes (w.cluster short.cluster) block) (slotCount w - (k + 1))
            (k + 1) =
        cleared (slotsFrom short.cluster (w.cluster short.cluster) k 0) ++
          mark short :: slotsFrom short.cluster (w.cluster short.cluster) n (k + 1) := by
      rw [slots_from_kept w _ block (by omega), slots_from_kept w _ block (by omega),
        slot_at_overlay w _ block inside, left', ← here]
    rw [kept] at slots
    apply achieves_bind (P := fun _ u => Rewrites w u cs₁ ∧
      slotsOf u cs₁ ++ cleared (slotsFrom short.cluster (w.cluster short.cluster) k 0) =
        front.flatMap Item.slots ++ longs.map mark)
    · split
      · next shape =>
        apply (clean_previous_does sure supplied dir.chain near).mono
        rintro _ u ⟨rewrites, became⟩
        refine ⟨rewrites, became ▸ cleaned.1 ?_⟩
        by_cases zero : k = 0
        · exact .inl zero
        · obtain ⟨lfn, live⟩ := shape.resolve_left zero
          obtain ⟨first, behind, shape, entry⟩ := first_slot inside slots zero
          exact .inr ⟨first, behind, shape, entry ▸ lfn, entry ▸ Bool.eq_false_iff.2 live⟩
      · next shape =>
        refine achieves_pure ⟨rewrites_refl w cs₁, cleaned.2 fun zero => shape (.inl zero)⟩
    · rintro _ u ⟨rewrites, became⟩
      have count := slot_count_of_bytes rewrites.bytes
      have same : slotsOf u cs₂ = slotsOf w cs₂ := by
        apply slots_of_congr rewrites.bytes
        intro d member
        apply rewrites.others d
        intro early
        exact others.2.2 d early d (List.mem_cons_of_mem _ member) rfl
      have rewrites' : Rewrites w u (cs₁ ++ short.cluster :: cs₂) := {
        rewrites with
        others := fun d out => rewrites.others d fun early => out (List.mem_append_left _ early) }
      have reached := (rewrites_chain rewrites' dir.chain).valid _
        (List.mem_append_right _ List.mem_cons_self)
      apply achieves_bind_runs (write_cluster_does sure reached _)
      apply achieves_bind_runs (flush_fat_does sure _)
      apply achieves_pure
      refine ⟨rfl, rewrites_trans rewrites'
        (rewrites_put (List.mem_append_right _ List.mem_cons_self) u _), ?_⟩
      rw [slots_of_put _ apart, count, slots, same, ← List.append_assoc, ← List.append_assoc,
        became, rest]
      simp only [List.map_append, List.map_cons, List.map_nil, List.append_assoc,
        List.cons_append, List.nil_append]
  · rw [sure] at fails
    cases fails

end Deleting

section Removing

variable {faults : Faults} {v u w : Volume} {start : Nat} {cs ds : List Nat}
  {items front back : List Item} {longs : List Slot} {short : Slot} {found : Found}
  {name : List UInt8}

/-- The clusters of the content: a file without a first cluster has none. -/
def Content (v : Volume) (found : Found) (ds : List Nat) : Prop :=
  if firstCluster found.entry < 2 ∧ isDirectory found.entry = false then ds = []
  else Chain v (firstCluster found.entry) ds

/-- The entry is not listed any more, the others are as they were. -/
def Dropped (v w : Volume) (cs : List Nat) (found : Found) : Prop :=
  ∃ front back, entriesOf v cs = front ++ found :: back ∧ entriesOf w cs = front ++ back

theorem Dropped.lookup_other (dropped : Dropped v w cs found) {other : List UInt8}
    (apart : nameEquals found.name other = false) : lookup w cs other = lookup v cs other := by
  obtain ⟨front, back, old, now⟩ := dropped
  unfold lookup
  rw [old, now, List.find?_append, List.find?_append, List.find?_cons_of_neg]
  rw [apart]
  exact Bool.false_ne_true

theorem ends_once_marked {A B C : List Slot} (ended : EndsOnce (A ++ (B ++ C))) :
    EndsOnce (A ++ (B.map mark ++ C)) := by
  obtain ⟨first, rest, cross⟩ := List.pairwise_append.1 ended
  obtain ⟨_, last, _⟩ := List.pairwise_append.1 rest
  have marked : ∀ slot ∈ B.map mark, unused slot = true ∧ isEnd slot.entry = false := by
    intro slot member
    obtain ⟨old, _, rfl⟩ := List.mem_map.1 member
    exact ⟨mark_unused old, rfl⟩
  refine List.pairwise_append.2 ⟨first, List.pairwise_append.2 ⟨?_, last, ?_⟩, ?_⟩
  · exact List.pairwise_of_forall_mem_list fun x _ y inside _ => (marked y inside).1
  · intro x member y _ shown
    rw [(marked x member).2] at shown
    cases shown
  · intro x member y inside shown
    rcases List.mem_append.1 inside with here | later
    · exact (marked y here).1
    · exact cross x member y (List.mem_append_right B later) shown

theorem dropped_of_marked (dir : Directory v start cs (front ++ .entry longs short :: back))
    (listed : Item.listed maxName (.entry longs short) = some found) (rewrites : Rewrites v w cs)
    (slots : slotsOf w cs = front.flatMap Item.slots ++
      ((longs ++ [short]).map mark ++ back.flatMap Item.slots)) :
    ∃ items', Directory w start cs items' ∧ Dropped v w cs found := by
  have free : ∀ slot ∈ (longs ++ [short]).map mark, unused slot = true := by
    intro slot member
    obtain ⟨old, _, rfl⟩ := List.mem_map.1 member
    exact mark_unused old
  have sound := dir.tiled.sound
  have first : Tiled (front.flatMap Item.slots) front :=
    ⟨rfl, fun item member => sound item (List.mem_append_left _ member)⟩
  have last : Tiled (back.flatMap Item.slots) back :=
    ⟨rfl, fun item member => sound item (List.mem_append_right _ (List.mem_cons_of_mem _ member))⟩
  have dir' : Directory w start cs
      (front ++ (((longs ++ [short]).map mark).map Item.gap ++ back)) := by
    refine ⟨rewrites_chain rewrites dir.chain, ?_, ?_⟩
    · rw [slots]
      apply ends_once_marked
      have ended := dir.ended
      rw [← dir.tiled.cover, List.flatMap_append, List.flatMap_cons] at ended
      exact ended
    · rw [slots]
      exact tiled_append first (tiled_append (gaps_tiled free) last)
  refine ⟨_, dir', front.filterMap (Item.listed maxName), back.filterMap (Item.listed maxName),
    ?_, ?_⟩
  · rw [dir.entries, List.filterMap_append, List.filterMap_cons_some listed]
  · rw [dir'.entries, List.filterMap_append, List.filterMap_append, listed_gaps, List.nil_append]

theorem directory_freed (dir : Directory v start cs items) (freed : Freed v ds u)
    (apart : ∀ d ∈ ds, d ∉ cs) : Directory u start cs items ∧ entriesOf u cs = entriesOf v cs := by
  have same : slotsOf u cs = slotsOf v cs :=
    slots_of_congr freed.bytes fun c _ => congrFun freed.cluster c
  refine ⟨⟨?_, same ▸ dir.ended, same ▸ dir.tiled⟩, ?_⟩
  · exact chain_congr dir.chain freed.count fun c member =>
      freed.others c fun inside => apart c inside member
  · unfold entriesOf
    rw [same]

theorem free_chain_does (sure : faults.drive = false) {c fuel : Nat}
    (small : v.fatEntryCount ≤ 0x0FFFFFF7) (chain : Chain v c ds) (enough : ds.length < fuel) :
    Achieves (Stands faults) (freeChain fuel c) v fun _ w => Freed v ds w := by
  have halts : ∀ s, Stands faults s v → Halts (freeChain fuel c) s := by
    induction fuel generalizing v c ds with
    | zero => exact absurd enough (Nat.not_lt_zero _)
    | succ fuel ih =>
        intro s stands
        unfold freeChain Halts
        dsimp only
        rw [stands.count]
        by_cases valid : 2 ≤ c ∧ c < v.fatEntryCount
        · obtain ⟨rest, rfl, behind⟩ := chain_tail small valid (.inr chain)
          have fresh := (List.nodup_cons.1 (follows_nodup chain.links)).1
          have other : ∀ d ∈ rest, (v.setFat c fatFree).fat d = v.fat d := fun d member =>
            Volume.set_fat_other v c fatFree fun same => fresh (same ▸ member)
          rw [if_pos valid]
          obtain ⟨t, got, standsT⟩ := fat_get_sure sure v c s stands
          obtain ⟨u, set, standsU⟩ := fat_set_does sure v c fatFree t standsT
          rw [bind_of_some got, bind_of_some set]
          split
          · exact ⟨_, rfl⟩
          · exact ih (v := v.setFat c fatFree) small (chain_congr behind rfl other)
              (Nat.lt_of_succ_lt_succ enough) u standsU
        · rw [if_neg valid]
          exact ⟨_, rfl⟩
  intro s stands
  obtain ⟨⟨a, s'⟩, run⟩ := halts s stands
  obtain ⟨w, stands', freed⟩ := free_chain_frees sure fuel small chain s stands a s' run
  exact ⟨a, s', w, run, stands', freed⟩

/-- What is left after `removeEntry` has deleted `found`. -/
structure Erasure (v w : Volume) (start : Nat) (cs ds : List Nat) (found : Found) : Prop where
  directory : ∃ items, Directory w start cs items
  count : w.fatEntryCount = v.fatEntryCount
  dropped : Dropped v w cs found
  freed : ∀ d ∈ ds, w.Free d
  others : ∀ c, c ∉ cs → c ∉ ds → w.cluster c = v.cluster c ∧ w.fat c = v.fat c

theorem delete_slots_erasure (dir : Directory v start cs items)
    (listed : found ∈ entriesOf v cs) (removable : ∀ longs short, Item.entry longs short ∈ items →
      Item.listed maxName (.entry longs short) = some found → Removable items longs short)
    (freed : Freed v ds u) (valid : ∀ d ∈ ds, v.Valid d) (apart : ∀ d ∈ ds, d ∉ cs) {fuel : Nat}
    (enough : cs.length < fuel) :
    Achieves (Stands ⟨false, false⟩) (deleteSlots fuel start found) u fun answer w =>
      answer = true ∧ Erasure v w start cs ds found := by
  obtain ⟨dirU, same⟩ := directory_freed dir freed apart
  rw [dir.entries] at listed
  obtain ⟨item, member, shown⟩ := List.mem_filterMap.1 listed
  cases item with
  | gap slot => cases shown
  | entry longs short =>
      have safe := removable longs short member shown
      obtain ⟨front, back, rfl⟩ := List.append_of_mem member
      have place : found.cluster = short.cluster ∧ found.offset = short.offset := by
        unfold Item.listed at shown
        dsimp only at shown
        split at shown
        · cases shown
          exact ⟨rfl, rfl⟩
        · cases shown
      apply (delete_slots_does rfl rfl dirU safe place.1 place.2 enough).mono
      rintro answer w ⟨rfl, rewrites, slots⟩
      obtain ⟨items', dirW, dropped⟩ := dropped_of_marked dirU shown rewrites slots
      refine ⟨rfl, ⟨items', dirW⟩, rewrites.count.trans freed.count, ?_, ?_, ?_⟩
      · unfold Dropped at dropped ⊢
        rwa [same] at dropped
      · intro d member
        refine ⟨⟨(valid d member).1, ?_⟩, ?_⟩
        · rw [rewrites.count, freed.count]
          exact (valid d member).2
        · rw [rewrites.fat]
          exact freed.freed d member
      · intro c outside apart'
        rw [rewrites.others c outside, rewrites.fat, freed.cluster]
        exact ⟨rfl, freed.others c apart'⟩

theorem remove_entry_outcome (dir : Directory v start cs items)
    (looked : lookup v cs name = some found)
    (removable : ∀ longs short, Item.entry longs short ∈ items →
      Item.listed maxName (.entry longs short) = some found → Removable items longs short)
    (content : Content v found ds) (apart : ∀ d ∈ ds, d ∉ cs)
    (small : v.fatEntryCount ≤ 0x0FFFFFF7) {fuel : Nat}
    (enough : cs.length + (entriesOf v cs).length + ds.length < fuel) :
    Achieves (Stands ⟨false, false⟩) (removeEntry fuel start name) v fun answer w =>
      if isDirectory found.entry = true ∧ entriesOf v ds ≠ [] then answer = false ∧ w = v
      else answer = true ∧ Erasure v w start cs ds found := by
  have listed := List.mem_of_find?_eq_some looked
  have erases : ¬ (isDirectory found.entry = true ∧ entriesOf v ds ≠ []) → ∀ {u : Volume},
      Freed v ds u → (∀ d ∈ ds, v.Valid d) →
      Achieves (Stands ⟨false, false⟩) (deleteSlots fuel start found) u fun answer w =>
        if isDirectory found.entry = true ∧ entriesOf v ds ≠ [] then answer = false ∧ w = v
        else answer = true ∧ Erasure v w start cs ds found := by
    intro may u freed valid
    apply (delete_slots_erasure dir listed removable freed valid apart (by omega)).mono
    intro answer w done
    rw [if_neg may]
    exact done
  unfold removeEntry
  apply achieves_bind_runs (does_of_answers rfl rfl
    (looked ▸ find_entry_total dir.chain (by omega) (by omega) name))
  dsimp only
  unfold Content at content
  by_cases directory : isDirectory found.entry = true
  · have chain : Chain v (firstCluster found.entry) ds := by
      rwa [if_neg fun both => by rw [directory] at both; cases both.2] at content
    rw [if_pos directory]
    apply achieves_bind_runs (does_of_answers rfl rfl (read_dir_entry_total chain (by omega) 0))
    by_cases empty : entriesOf v ds = []
    · have read : (listing maxName [] (slotsOf v ds))[0]? = none := by
        unfold entriesOf at empty
        rw [empty]
        rfl
      rw [read]
      apply achieves_bind (free_chain_does rfl small chain (by omega))
      intro _ u freed
      exact erases (fun both => both.2 empty) freed chain.valid
    · obtain ⟨entry, rest, entries⟩ := List.exists_cons_of_ne_nil empty
      have read : (listing maxName [] (slotsOf v ds))[0]? = some entry := by
        unfold entriesOf at entries
        rw [entries]
        rfl
      rw [read]
      apply achieves_pure
      rw [if_pos ⟨directory, empty⟩]
      exact ⟨rfl, rfl⟩
  · have plain : isDirectory found.entry = false := Bool.eq_false_iff.2 directory
    rw [if_neg directory]
    by_cases low : firstCluster found.entry < 2
    · rw [if_pos ⟨low, plain⟩] at content
      subst content
      rw [if_neg (Nat.not_le.2 low)]
      exact erases (fun both => directory both.1) (freed_nil v)
        fun d none => absurd none List.not_mem_nil
    · rw [if_neg fun both => low both.1] at content
      rw [if_pos (Nat.not_lt.1 low)]
      apply achieves_bind (free_chain_does rfl small content (by omega))
      intro _ u freed
      exact erases (fun both => directory both.1) freed content.valid

/-- `removeEntry` deletes the one entry that `findEntry` finds under the name and frees the
clusters of its content, unless it is a directory with entries. -/
theorem removed_entry_gone (dir : Directory v start cs items)
    (finds : Finds v start name (some found))
    (removable : ∀ longs short, Item.entry longs short ∈ items →
      Item.listed maxName (.entry longs short) = some found → Removable items longs short)
    (content : Content v found ds) (apart : ∀ d ∈ ds, d ∉ cs) {fuel : Nat}
    (enough : cs.length + (entriesOf v cs).length + ds.length < fuel) :
    Achieves (Stands ⟨false, false⟩) (removeEntry fuel start name) v fun answer w =>
      (if isDirectory found.entry = true ∧ entriesOf v ds ≠ [] then answer = false ∧ w = v
        else answer = true ∧ Erasure v w start cs ds found) ∧
      ∀ other answer, nameEquals found.name other = false → Finds v start other answer →
        Finds w start other answer := by
  intro s stands
  have looked := finds_unique stands (finds_lookup dir.chain name) finds
  have small : v.fatEntryCount ≤ 0x0FFFFFF7 := stands.count ▸ stands.layout.entries
  apply ((remove_entry_outcome dir looked removable content apart small enough).mono ?_) s stands
  intro answer w done
  refine ⟨done, fun other answer' differ finds' => ?_⟩
  split at done
  · obtain ⟨_, rfl⟩ := done
    exact finds'
  · obtain ⟨_, erasure⟩ := done
    obtain ⟨items', dirW⟩ := erasure.directory
    rw [finds_unique stands finds' (finds_lookup dir.chain other),
      ← erasure.dropped.lookup_other differ]
    exact finds_lookup dirW.chain other

/-- Cluster 2 is the root directory, and a file has clusters 3 and 4. -/
def storedLink (c : Nat) : Nat := if c = 3 then 4 else if c = 2 ∨ c = 4 then fatEoc else 0

/-- A file with a long name and a content, and the file `B`. -/
def storedEntry (k : Nat) : DirEntry :=
  if k < 2 then lfnSlot spacedName (lfnChecksum (nameToShort spacedName)) (2 - k)
  else if k = 2 then fun i => if i = 26 then 3 else
    shortSlot (nameToShort spacedName) DirAttr.archive i
  else if k = 3 then shortSlot (nameToShort [0x42]) DirAttr.archive
  else fun _ => 0

def storedVolume : Fat32Filesystem :=
  { PathWalk.smallVolume with
    ata := ⟨fun lba k => if lba = 1 ∨ lba = 2 then byteOf (storedLink (k.val / 4)) (k.val % 4)
      else if lba = 3 then storedEntry (k.val / 32) (Fin.ofNat 32 k.val) else 0, []⟩
    totalClusters := 4
    fatEntryCount := 6 }

theorem stored_volume_stands : Stands ⟨false, false⟩ storedVolume (volumeOf storedVolume) where
  layout := by constructor <;> decide
  steady := CacheTransparency.steady_empty rfl rfl rfl
  content := rfl

theorem stored_volume_items : ∃ items, Directory (volumeOf storedVolume) 2 [2] items := by
  have fat : (volumeOf storedVolume).fat 2 = fatEoc := by decide +kernel
  have ended : EndsOnce (slotsOf (volumeOf storedVolume) [2]) := by
    unfold EndsOnce
    decide +kernel
  have shape : ((slotsOf (volumeOf storedVolume) [2]).take 3).map
      (fun slot => (unused slot, isLfnEntry slot.entry)) =
        [(false, true), (false, true), (false, false)] := by decide +kernel
  have plain : ∀ slot ∈ (slotsOf (volumeOf storedVolume) [2]).drop 3, unused slot = true ∨
      isLfnEntry slot.entry = false := by decide +kernel
  have whole := (List.take_append_drop 3 (slotsOf (volumeOf storedVolume) [2])).symm
  generalize (slotsOf (volumeOf storedVolume) [2]).take 3 = head at shape whole
  generalize (slotsOf (volumeOf storedVolume) [2]).drop 3 = rest at plain whole
  obtain ⟨s₀, _, rfl, first, tail⟩ := List.map_eq_cons_iff.1 shape
  obtain ⟨s₁, _, rfl, second, tail⟩ := List.map_eq_cons_iff.1 tail
  obtain ⟨s₂, _, rfl, third, tail⟩ := List.map_eq_cons_iff.1 tail
  obtain rfl := List.map_eq_nil_iff.1 tail
  have tiled := bare_tiled plain
  refine ⟨.entry [s₀, s₁] s₂ :: rest.map bare, ?_, ended, ?_, ?_⟩
  · exact ⟨⟨rfl, by decide, Nat.le_of_eq fat.symm⟩, by decide⟩
  · rw [whole, List.flatMap_cons, tiled.cover]
    rfl
  · intro item member
    rcases List.mem_cons.1 member with rfl | later
    · refine ⟨fun slot inside => ?_, show 2 ≤ 19 by decide, (Prod.mk.inj third).1,
        (Prod.mk.inj third).2⟩
      rcases List.mem_pair.1 inside with rfl | rfl
      · exact ⟨(Prod.mk.inj first).1, (Prod.mk.inj first).2⟩
      · exact ⟨(Prod.mk.inj second).1, (Prod.mk.inj second).2⟩
    · exact tiled.sound item later

/-- The file with the long name is removed, and its two clusters are freed. -/
theorem stored_entry_gone : ∃ s' w found, removeEntry 20 2 spacedName storedVolume =
    some (true, s') ∧ Stands ⟨false, false⟩ s' w ∧
      Erasure (volumeOf storedVolume) w 2 [2] [3, 4] found := by
  obtain ⟨items, dir⟩ := stored_volume_items
  have shape : (lookup (volumeOf storedVolume) [2] spacedName).map
      (fun found => (firstCluster found.entry, isDirectory found.entry)) = some (3, false) := by
    decide +kernel
  have few : (entriesOf (volumeOf storedVolume) [2]).length = 2 := by decide +kernel
  have links : (volumeOf storedVolume).fat 3 = 4 ∧ (volumeOf storedVolume).fat 4 = fatEoc := by
    decide +kernel
  obtain ⟨found, looked, fields⟩ := Option.map_eq_some_iff.1 shape
  obtain ⟨first, file⟩ := Prod.mk.inj fields
  have content : Content (volumeOf storedVolume) found [3, 4] := by
    unfold Content
    rw [if_neg (by omega), first]
    exact ⟨⟨rfl, by decide, links.1.symm, by decide, Nat.le_of_eq links.2.symm⟩, by decide⟩
  have enough : 1 + (entriesOf (volumeOf storedVolume) [2]).length + 2 < 20 := by
    rw [few]
    decide
  obtain ⟨answer, s', w, run, stands, outcome, _⟩ := removed_entry_gone dir
    (looked ▸ finds_lookup dir.chain spacedName)
    (fun longs short member _ => removable_alone dir member) content
    (show ∀ d ∈ [3, 4], d ∉ [2] by decide) enough storedVolume stored_volume_stands
  rw [if_neg fun both => Bool.false_ne_true (file.symm.trans both.1)] at outcome
  obtain ⟨rfl, erasure⟩ := outcome
  exact ⟨s', w, found, run, stands, erasure⟩

end Removing

end CassiOS.Fat32.RemovedNames
