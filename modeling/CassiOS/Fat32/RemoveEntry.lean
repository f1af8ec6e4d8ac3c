import CassiOS.Fat32.CreateEntry
import CassiOS.Fat32.Enumeration
import CassiOS.Fat32.StoredFile

/-!
# Removing a directory entry

`removeEntry` on the volume. Slots of the directory are marked as deleted, among them the short
slot of the entry, and the cluster of a removed subdirectory is freed; nothing else happens.
-/

namespace CassiOS.Fat32.RemoveEntry

open CassiOS.Support.PartialProgram
open CassiOS.Support.Chain
open CassiOS.Fat32.Types
open CassiOS.Fat32.Names
open CassiOS.Fat32.Device
open CassiOS.Fat32.Filesystem
open CassiOS.Fat32.VolumeModel
open CassiOS.Fat32.FatModel
open CassiOS.Fat32.FileModel
open CassiOS.Fat32.DirectoryModel
open CassiOS.Fat32.SlotRuns
open CassiOS.Fat32.CreateEntry (Rewrites rewrites_refl rewrites_trans rewrites_put rewrites_chain
  entries_per_cluster)
open CassiOS.Fat32.StoredFile (Freed free_chain_frees chain_congr)
open CassiOS.Fat32.Enumeration (isVisible listing_split)

set_option autoImplicit false

section Fading

variable {e e' e'' : DirEntry}

/-- The entry is as it was, or marked as deleted. -/
def Faded (e e' : DirEntry) : Prop := e' = e ∨ e' = setName0 e dirEntryFree

def Fades (slot slot' : Slot) : Prop := place slot' = place slot ∧ Faded slot.entry slot'.entry

theorem set_name_twice (e : DirEntry) (b : UInt8) : setName0 (setName0 e b) b = setName0 e b := by
  funext k
  unfold setName0
  split <;> rfl

theorem faded_trans (first : Faded e e') (second : Faded e' e'') : Faded e e'' := by
  rcases second with rfl | rfl
  · exact first
  · rcases first with rfl | rfl
    · exact .inr rfl
    · exact .inr (set_name_twice e dirEntryFree)

theorem free_set_name (e : DirEntry) : isFree (setName0 e dirEntryFree) = true := rfl

theorem fades_used {slot slot' : Slot} (fades : Fades slot slot') (used : unused slot' = false) :
    slot'.entry = slot.entry := by
  rcases fades.2 with same | marked
  · exact same
  · unfold unused at used
    rw [marked, free_set_name, Bool.or_true] at used
    cases used

theorem fades_unused {slot slot' : Slot} (fades : Fades slot slot') (free : unused slot = true) :
    unused slot' = true := by
  cases used : unused slot' with
  | true => rfl
  | false =>
      unfold unused at used free
      rw [fades_used fades used, free] at used
      cases used

theorem free_lfn_faded (buf : Buf) (j k : Nat) :
    Faded (slotAt buf k) (slotAt (freeLfnBefore buf j) k) := by
  induction j generalizing buf with
  | zero => exact .inl rfl
  | succ j ih =>
      unfold freeLfnBefore
      split
      · apply faded_trans _ (ih _)
        by_cases here : k = j
        · rw [here, slot_at_set_self]
          exact .inr rfl
        · rw [slot_at_set_other buf _ here]
          exact .inl rfl
      · exact .inl rfl

theorem free_lfn_behind (buf : Buf) {j k : Nat} (behind : j ≤ k) :
    slotAt (freeLfnBefore buf j) k = slotAt buf k := by
  induction j generalizing buf with
  | zero => rfl
  | succ j ih =>
      unfold freeLfnBefore
      split
      · rw [ih _ (Nat.le_of_succ_le behind), slot_at_set_other buf _ (Nat.ne_of_gt behind)]
      · rfl

end Fading

section Erasing

variable {v u w : Volume} {cs : List Nat}

/-- Slots of the clusters `cs` have faded, nothing else is different. -/
structure Erased (v w : Volume) (cs : List Nat) : Prop where
  rewrites : Rewrites v w cs
  slots : ∀ c ∈ cs, ∀ k < slotCount v, Faded (slotAt (v.cluster c) k) (slotAt (w.cluster c) k)

theorem erased_refl (v : Volume) (cs : List Nat) : Erased v v cs :=
  ⟨rewrites_refl v cs, fun _ _ _ _ => .inl rfl⟩

theorem slot_count_of_bytes (same : w.clusterBytes = v.clusterBytes) :
    slotCount w = slotCount v := by
  unfold slotCount
  rw [same]

theorem erased_trans (first : Erased v u cs) (second : Erased u w cs) : Erased v w cs where
  rewrites := rewrites_trans first.rewrites second.rewrites
  slots := fun c member k inside => faded_trans (first.slots c member k inside)
    (second.slots c member k (slot_count_of_bytes first.rewrites.bytes ▸ inside))

theorem slot_at_bytes {a b : Buf} {k : Nat} (inside : k < slotCount v)
    (same : ∀ j, j < v.clusterBytes → a j = b j) : slotAt a k = slotAt b k := by
  funext i
  apply same
  have small := i.isLt
  unfold slotCount dirEntrySize at inside
  unfold dirEntrySize
  omega

theorem slot_at_put (v : Volume) (c : Nat) (buf : Buf) {k : Nat} (inside : k < slotCount v) :
    slotAt ((v.putCluster c buf).cluster c) k = slotAt buf k :=
  slot_at_bytes inside fun _ low => Volume.put_cluster_self v c buf low

theorem slot_at_overlay (v : Volume) (a b : Buf) {k : Nat} (inside : k < slotCount v) :
    slotAt (overlay v.clusterBytes a b) k = slotAt a k :=
  slot_at_bytes inside fun _ low => if_pos low

theorem erased_put {c : Nat} (member : c ∈ cs) {buf : Buf}
    (faded : ∀ k < slotCount v, Faded (slotAt (v.cluster c) k) (slotAt buf k)) :
    Erased v (v.putCluster c buf) cs where
  rewrites := rewrites_put member v buf
  slots := by
    intro d _ k inside
    by_cases here : d = c
    · rw [here, slot_at_put v c buf inside]
      exact faded k inside
    · rw [Volume.put_cluster_other v c buf here]
      exact .inl rfl

theorem slots_from_fade (c : Nat) {a b : Buf} {n i : Nat}
    (faded : ∀ k, i ≤ k → k < i + n → Faded (slotAt a k) (slotAt b k)) :
    List.Forall₂ Fades (slotsFrom c a n i) (slotsFrom c b n i) := by
  induction n generalizing i with
  | zero => exact .nil
  | succ n ih =>
      apply List.Forall₂.cons
      · exact ⟨rfl, faded i (Nat.le_refl i) (by omega)⟩
      · exact ih fun k low high => faded k (by omega) (by omega)

theorem erased_slots (erased : Erased v w cs) :
    List.Forall₂ Fades (slotsOf v cs) (slotsOf w cs) := by
  have count := slot_count_of_bytes erased.rewrites.bytes
  have each : ∀ ds, (∀ d ∈ ds, d ∈ cs) → List.Forall₂ Fades (slotsOf v ds) (slotsOf w ds) := by
    intro ds inside
    induction ds with
    | nil => exact .nil
    | cons d ds ih =>
        rw [slots_of_cons, slots_of_cons, count]
        apply List.rel_append
        · apply slots_from_fade
          intro k _ high
          exact erased.slots d (inside d List.mem_cons_self) k (by omega)
        · exact ih fun x member => inside x (List.mem_cons_of_mem d member)
  exact each cs fun _ member => member

end Erasing

section Deleting

variable {faults : Faults} {v : Volume} {start : Nat} {cs : List Nat}

theorem chain_head (chain : Chain v start cs) {c : Nat} (member : c ∈ cs) : start ∈ cs := by
  cases cs with
  | nil => cases member
  | cons x rest =>
      rw [chain.links.1]
      exact List.mem_cons_self

/-- The search for the cluster before stays in the directory. -/
theorem find_previous_answers (sure : faults.drive = false) (entryCluster fuel : Nat)
    {prev cur : Nat} {rest : List Nat} (ahead : Follows v.fat (fatEoc ≤ ·) cur rest)
    (inside : ∀ c ∈ rest, c ∈ cs) (before : prev ∈ cs) :
    Ensures (Stands faults) (findPrevious entryCluster fuel prev cur) v fun c w =>
      w = v ∧ c ∈ cs := by
  induction fuel generalizing prev cur rest with
  | zero => exact ensures_none
  | succ fuel ih =>
      unfold findPrevious
      split
      · next goes =>
        cases rest with
        | nil =>
            have ended : fatEoc ≤ cur := ahead
            exact absurd goes.2.2 (Nat.not_lt.2 ended)
        | cons c rest =>
            obtain ⟨rfl, _, onward⟩ := ahead
            apply ensures_bind_runs (fat_get_sure sure v cur)
            exact ih onward (fun d member => inside d (List.mem_cons_of_mem cur member))
              (inside cur List.mem_cons_self)
      · exact ensures_pure ⟨rfl, before⟩

theorem free_lfn_overlay (v : Volume) (c j : Nat) (buf : Buf) {k : Nat} (inside : k < slotCount v) :
    Faded (slotAt (v.cluster c) k)
      (slotAt (freeLfnBefore (overlay v.clusterBytes (v.cluster c) buf) j) k) := by
  have faded := free_lfn_faded (overlay v.clusterBytes (v.cluster c) buf) j k
  rw [slot_at_overlay v (v.cluster c) buf inside] at faded
  exact faded

/-- The cluster of the entry is not touched before it is written itself. -/
theorem clean_previous_erases (sure : faults.drive = false) (chain : Chain v start cs) {x : Nat}
    (member : x ∈ cs) (fuel : Nat) :
    Ensures (Stands faults) (cleanPrevious fuel start x) v fun _ w =>
      Erased v w cs ∧ w.cluster x = v.cluster x := by
  have untouched : Erased v v cs ∧ v.cluster x = v.cluster x := ⟨erased_refl v cs, rfl⟩
  unfold cleanPrevious
  apply ensures_bind (find_previous_answers sure x fuel chain.links (fun _ inside => inside)
    (chain_head chain member))
  rintro prev w ⟨rfl, inside⟩
  split
  · exact ensures_pure untouched
  · next apart =>
    apply ensures_bind (heap_alloc_does w).ensures
    rintro (_ | block) w ⟨rfl, _⟩
    · exact ensures_pure untouched
    · apply ensures_bind (read_cluster_does (chain.valid prev inside) block).ensures
      rintro ⟨ok, buf⟩ w ⟨rfl, read | ⟨refused, _⟩⟩
      · cases read
        apply ensures_get
        intro s stands
        apply ensures_bind_runs (write_cluster_does sure (chain.valid prev inside) _)
        apply ensures_pure
        refine ⟨erased_put inside fun k low => free_lfn_overlay w prev _ block low, ?_⟩
        exact Volume.put_cluster_other w prev _ fun same => apart same.symm
      · dsimp only at refused ⊢
        rw [refused, if_neg Bool.false_ne_true]
        exact ensures_pure untouched

/-- The short slot at `k` of the cluster of the entry is marked as deleted. -/
theorem delete_slots_erases (sure : faults.drive = false) (chain : Chain v start cs)
    {found : Found} (member : found.cluster ∈ cs) {k : Nat} (inside : k < slotCount v)
    (offset : found.offset = k * dirEntrySize) (fuel : Nat) :
    Ensures (Stands faults) (deleteSlots fuel start found) v fun answer w =>
      answer = true ∧ Erased v w cs ∧ isFree (slotAt (w.cluster found.cluster) k) = true ∨
        answer = false ∧ w = v ∧ faults.heap = true := by
  have index : found.offset / dirEntrySize = k := by
    rw [offset]
    exact Nat.mul_div_cancel k (by decide)
  unfold deleteSlots
  apply ensures_bind (heap_alloc_does v).ensures
  rintro (_ | block) w ⟨rfl, missing⟩
  · exact ensures_pure (.inr ⟨rfl, rfl, missing rfl⟩)
  · apply ensures_bind (read_cluster_does (chain.valid _ member) block).ensures
    rintro ⟨ok, buf⟩ w ⟨rfl, read | ⟨_, fails⟩⟩
    · cases read
      dsimp only
      rw [if_pos rfl, index]
      apply ensures_bind (P := fun _ u =>
        Erased w u cs ∧ u.cluster found.cluster = w.cluster found.cluster)
      · split
        · exact clean_previous_erases sure chain member fuel
        · exact ensures_pure ⟨erased_refl w cs, rfl⟩
      · rintro _ u ⟨erased, kept⟩
        have chain' := rewrites_chain erased.rewrites chain
        have count := slot_count_of_bytes erased.rewrites.bytes
        apply ensures_bind_runs (write_cluster_does sure (chain'.valid _ member) _)
        apply ensures_bind_runs (flush_fat_does sure _)
        apply ensures_pure
        refine .inl ⟨rfl, erased_trans erased (erased_put member ?_), ?_⟩
        · intro i low
          rw [count] at low
          rw [kept]
          apply faded_trans _ (free_lfn_faded _ k i)
          by_cases here : i = k
          · rw [here, slot_at_set_self, slot_at_overlay w _ block inside]
            exact .inr rfl
          · rw [slot_at_set_other _ _ here, slot_at_overlay w _ block low]
            exact .inl rfl
        · rw [slot_at_put u _ _ (count ▸ inside), free_lfn_behind _ (Nat.le_refl k),
            slot_at_set_self]
          exact free_set_name _
    · rw [sure] at fails
      cases fails

end Deleting

section Removing

variable {faults : Faults} {v w : Volume} {start : Nat} {cs : List Nat} {found : Found}

/-- The slot of the entry is unused afterwards, the others fade. -/
def Cleared (found : Found) (slots slots' : List Slot) : Prop :=
  ∃ before slot behind before' slot' behind', slots = before ++ slot :: behind ∧
    slots' = before' ++ slot' :: behind' ∧ slot.entry = found.entry ∧ isVisible slot = true ∧
    isEnd slot.entry = false ∧ List.Forall₂ Fades before before' ∧ Fades slot slot' ∧
    unused slot' = true ∧ List.Forall₂ Fades behind behind'

/-- The entry has been removed, and with a directory the link of its cluster. -/
structure Removed (v w : Volume) (cs : List Nat) (found : Found) : Prop where
  count : w.fatEntryCount = v.fatEntryCount
  fat : ∀ c, c ≠ firstCluster found.entry → w.fat c = v.fat c
  slots : Cleared found (slotsOf v cs) (slotsOf w cs)

/-- Removing the entry cannot free a cluster of its directory. -/
def Separate (v : Volume) (cs : List Nat) (found : Found) : Prop :=
  if isDirectory found.entry then
    Chain v (firstCluster found.entry) [firstCluster found.entry] ∧
      firstCluster found.entry ∉ cs
  else firstCluster found.entry < 2

theorem forall₂_split {R : Slot → Slot → Prop} {before behind slots : List Slot} {slot : Slot}
    (related : List.Forall₂ R (before ++ slot :: behind) slots) : ∃ before' slot' behind',
      slots = before' ++ slot' :: behind' ∧ List.Forall₂ R before before' ∧ R slot slot' ∧
      List.Forall₂ R behind behind' := by
  induction before generalizing slots with
  | nil =>
      cases related with
      | cons here rest => exact ⟨[], _, _, rfl, .nil, here, rest⟩
  | cons x before ih =>
      cases related with
      | cons here rest =>
          obtain ⟨before', slot', behind', rfl, front, middle, back⟩ := ih rest
          exact ⟨_ :: before', slot', behind', rfl, .cons here front, middle, back⟩

theorem slot_of_split {before rest : List Slot} {slot : Slot}
    (split : slotsOf v cs = before ++ slot :: rest) : ∃ k, k < slotCount v ∧
      slot.offset = k * dirEntrySize ∧ slot.cluster ∈ cs ∧
      slot.entry = slotAt (v.cluster slot.cluster) k := by
  obtain ⟨k, inside, offset, cs₁, cs₂, same, _, back⟩ := slots_of_split split
  refine ⟨k, inside, offset, ?_, ?_⟩
  · rw [same]
    exact List.mem_append_right _ List.mem_cons_self
  · obtain ⟨n, left⟩ : ∃ n, slotCount v - k = n + 1 := ⟨slotCount v - k - 1, by omega⟩
    rw [left] at back
    exact congrArg Slot.entry (List.cons.inj back).1

theorem cleared_of_erased (erased : Erased v w cs) (listed : found ∈ entriesOf v cs)
    (gone : ∀ k, found.offset = k * dirEntrySize →
      isFree (slotAt (w.cluster found.cluster) k) = true) :
    Cleared found (slotsOf v cs) (slotsOf w cs) := by
  obtain ⟨before, slot, behind, split, notEnd, visible, entry, here⟩ := listing_split listed
  have at_ : place slot = (found.cluster, found.offset) := Prod.ext here.1 here.2
  have fades := erased_slots erased
  rw [split] at fades
  obtain ⟨before', slot', behind', split', front, middle, back⟩ := forall₂_split fades
  obtain ⟨k, _, offset, _, there⟩ := slot_of_split split'
  obtain ⟨cluster, offset'⟩ := Prod.mk.inj (middle.1.trans at_)
  refine ⟨before, slot, behind, before', slot', behind', split, split', entry, visible, notEnd,
    front, middle, ?_, back⟩
  unfold unused
  rw [there, cluster, gone k (offset'.symm.trans offset), Bool.or_true]

theorem delete_slots_removes (sure : faults.drive = false) {u : Volume} (chain : Chain u start cs)
    (count : u.fatEntryCount = v.fatEntryCount) (bytes : u.clusterBytes = v.clusterBytes)
    (content : ∀ c ∈ cs, u.cluster c = v.cluster c)
    (fat : ∀ c, c ≠ firstCluster found.entry → u.fat c = v.fat c)
    (listed : found ∈ entriesOf v cs) (fuel : Nat) :
    Ensures (Stands faults) (deleteSlots fuel start found) u fun _ w =>
      Removed v w cs found ∨ w = u ∧ faults.heap = true := by
  have same : slotsOf u cs = slotsOf v cs := slots_of_congr bytes content
  have listedU : found ∈ entriesOf u cs := by
    unfold entriesOf
    rw [same]
    exact listed
  obtain ⟨before, slot, behind, split, _, _, _, cluster, offset'⟩ := listing_split listedU
  obtain ⟨k, inside, offset, member, _⟩ := slot_of_split split
  rw [cluster] at member
  apply (delete_slots_erases sure chain member inside (offset'.symm.trans offset) fuel).mono
  rintro answer w (⟨_, erased, gone⟩ | ⟨_, rfl, fails⟩)
  · left
    refine ⟨erased.rewrites.count.trans count, ?_, ?_⟩
    · intro c other
      rw [erased.rewrites.fat]
      exact fat c other
    · rw [← same]
      apply cleared_of_erased erased listedU
      intro i at_
      have index : i = k := Nat.eq_of_mul_eq_mul_right (by decide : 0 < dirEntrySize)
        (at_.symm.trans (offset'.symm.trans offset))
      rw [index]
      exact gone
  · exact .inr ⟨rfl, fails⟩

/-- What `removeEntry` leaves: the directory as it was, or without the entry. Only where an
allocation fails a subdirectory may have lost its cluster and kept its entry. -/
theorem remove_entry_answers (sure : faults.drive = false) (chain : Chain v start cs) (fuel : Nat)
    {name : List UInt8} (separate : ∀ found ∈ entriesOf v cs, Separate v cs found) :
    Ensures (Stands faults) (removeEntry fuel start name) v fun _ w =>
      w = v ∨ (∃ found ∈ entriesOf v cs, Removed v w cs found) ∨
        faults.heap = true ∧ ∃ found, lookup v cs name = some found ∧
          isDirectory found.entry = true := by
  unfold removeEntry
  apply ensures_bind (find_entry_answers fuel chain name)
  rintro (_ | found) w ⟨rfl, expected⟩
  · exact ensures_pure (.inl rfl)
  · have looked : lookup w cs name = some found := by
      rcases expected with same | ⟨none, _⟩
      · exact same.symm
      · cases none
    have listed := List.mem_of_find?_eq_some looked
    have apart := separate found listed
    unfold Separate at apart
    dsimp only
    by_cases directory : isDirectory found.entry = true
    · rw [if_pos directory] at apart ⊢
      obtain ⟨content, outside⟩ := apart
      apply ensures_bind (read_dir_entry_answers fuel content 0)
      rintro (_ | inside) u ⟨rfl, _⟩
      · intro s stands
        have small : u.fatEntryCount ≤ 0x0FFFFFF7 := stands.count ▸ stands.layout.entries
        refine ensures_bind (free_chain_frees sure fuel small content) ?_ s stands
        intro _ x freed
        have others : ∀ c, c ≠ firstCluster found.entry → x.fat c = u.fat c := fun c other =>
          freed.others c fun member => other (List.mem_singleton.1 member)
        have chain' : Chain x start cs := chain_congr chain freed.count fun c member =>
          others c fun same => outside (same ▸ member)
        apply (delete_slots_removes sure chain' freed.count freed.bytes
          (fun c _ => congrFun freed.cluster c) others listed fuel).mono
        rintro _ y (removed | ⟨_, fails⟩)
        · exact .inr (.inl ⟨found, listed, removed⟩)
        · exact .inr (.inr ⟨fails, found, looked, directory⟩)
      · exact ensures_pure (.inl rfl)
    · rw [if_neg directory] at apart ⊢
      rw [if_neg (Nat.not_le.2 apart)]
      apply (delete_slots_removes sure chain rfl rfl (fun _ _ => rfl) (fun _ _ => rfl) listed
        fuel).mono
      rintro _ y (removed | ⟨rfl, _⟩)
      · exact .inr (.inl ⟨found, listed, removed⟩)
      · exact .inl rfl

end Removing

end CassiOS.Fat32.RemoveEntry
