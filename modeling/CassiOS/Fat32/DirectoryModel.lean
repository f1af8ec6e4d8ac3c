import CassiOS.Fat32.FileModel

/-!
# Directories on the volume

`listing` reads the visible entries off the slots of a directory. `readDirEntry` returns
the entries of this list by number and `findEntry` the first one with a given name; either
may also fail, but only where a request or an allocation does.
-/

namespace CassiOS.Fat32.DirectoryModel

open CassiOS.Support.PartialProgram
open CassiOS.Support.Chain
open CassiOS.Fat32.Types
open CassiOS.Fat32.Names
open CassiOS.Fat32.Device
open CassiOS.Fat32.Filesystem
open CassiOS.Fat32.VolumeModel
open CassiOS.Fat32.FatModel
open CassiOS.Fat32.FileModel

set_option autoImplicit false

structure Slot where
  entry : DirEntry
  cluster : Nat
  offset : Nat

/-- The next `n` slots of a cluster from slot `i` on. -/
def slotsFrom (cluster : Nat) (buf : Buf) : Nat → Nat → List Slot
  | 0, _ => []
  | n + 1, i => ⟨slotAt buf i, cluster, i * dirEntrySize⟩ :: slotsFrom cluster buf n (i + 1)

def slotCount (v : Volume) : Nat := v.clusterBytes / dirEntrySize

/-- The slots of a directory with the clusters `cs`. -/
def slotsOf (v : Volume) (cs : List Nat) : List Slot :=
  cs.flatMap fun c => slotsFrom c (v.cluster c) (slotCount v) 0

/-- The visible entries of a slot sequence, up to the end marker. A name is decoded from the
long-name slots directly before its entry, which have been collected in `lfn`. -/
def listing (nameMax : Nat) : List DirEntry → List Slot → List Found
  | _, [] => []
  | lfn, slot :: rest =>
      if isEnd slot.entry then []
      else if isFree slot.entry then listing nameMax [] rest
      else if isLfnEntry slot.entry then
        listing nameMax (if lfn.length < maxLfnEntries then lfn ++ [slot.entry] else lfn) rest
      else if isVolumeId slot.entry then listing nameMax [] rest
      else if isDotEntry slot.entry then listing nameMax [] rest
      else ⟨entryName lfn slot.entry nameMax, slot.entry, slot.cluster, slot.offset⟩ ::
        listing nameMax [] rest

/-- The entries of the directory with the clusters `cs`. -/
def entriesOf (v : Volume) (cs : List Nat) : List Found := listing maxName [] (slotsOf v cs)

def lookup (v : Volume) (cs : List Nat) (name : List UInt8) : Option Found :=
  (entriesOf v cs).find? fun found => nameEquals found.name name

section Scanning

variable {v : Volume} {nameMax index cluster : Nat} {buf buf' : Buf}

theorem slots_from_congr {n i : Nat}
    (same : ∀ k, i ≤ k → k < i + n → slotAt buf' k = slotAt buf k) :
    slotsFrom cluster buf' n i = slotsFrom cluster buf n i := by
  induction n generalizing i with
  | zero => rfl
  | succ n ih =>
      unfold slotsFrom
      rw [same i (Nat.le_refl i) (by omega), ih fun k low high => same k (by omega) (by omega)]

/-- What the slot loop finds in the list of entries it is reading. -/
def Scanned (nameMax index : Nat) (lfn : List DirEntry) (slots : List Slot) (visibleIdx : Nat) :
    Scan → Prop
  | .stop => ∀ behind, (listing nameMax lfn (slots ++ behind))[index - visibleIdx]? = none
  | .hit found _ =>
      ∀ behind, (listing nameMax lfn (slots ++ behind))[index - visibleIdx]? = some found
  | .next lfn' visibleIdx' => visibleIdx' ≤ index ∧ ∀ behind,
      (listing nameMax lfn (slots ++ behind))[index - visibleIdx]? =
        (listing nameMax lfn' behind)[index - visibleIdx']?

theorem scanned_skip {lfn lfn' : List DirEntry} {slot : Slot} {rest : List Slot} {visibleIdx : Nat}
    {scan : Scan} (scanned : Scanned nameMax index lfn' rest visibleIdx scan)
    (skipped : ∀ behind, listing nameMax lfn (slot :: behind) = listing nameMax lfn' behind) :
    Scanned nameMax index lfn (slot :: rest) visibleIdx scan := by
  cases scan with
  | stop =>
      intro behind
      rw [List.cons_append, skipped]
      exact scanned behind
  | hit found overrun =>
      intro behind
      rw [List.cons_append, skipped]
      exact scanned behind
  | next lfn'' visibleIdx' =>
      refine ⟨scanned.1, fun behind => ?_⟩
      rw [List.cons_append, skipped]
      exact scanned.2 behind

theorem scanned_pass {lfn : List DirEntry} {slot : Slot} {rest : List Slot} {visibleIdx : Nat}
    {scan : Scan} {found : Found} (scanned : Scanned nameMax index [] rest (visibleIdx + 1) scan)
    (before : visibleIdx < index)
    (listed : ∀ behind, listing nameMax lfn (slot :: behind) = found :: listing nameMax [] behind) :
    Scanned nameMax index lfn (slot :: rest) visibleIdx scan := by
  have step : index - visibleIdx = (index - (visibleIdx + 1)) + 1 := by omega
  cases scan with
  | stop =>
      intro behind
      rw [List.cons_append, listed, step, List.getElem?_cons_succ]
      exact scanned behind
  | hit found overrun =>
      intro behind
      rw [List.cons_append, listed, step, List.getElem?_cons_succ]
      exact scanned behind
  | next lfn' visibleIdx' =>
      refine ⟨scanned.1, fun behind => ?_⟩
      rw [List.cons_append, listed, step, List.getElem?_cons_succ]
      exact scanned.2 behind

theorem scan_entries_spec (cluster nameMax : Nat) (buf : Buf) (n i : Nat) (lfn : List DirEntry)
    {visibleIdx : Nat} (before : visibleIdx ≤ index) :
    Scanned nameMax index lfn (slotsFrom cluster buf n i) visibleIdx
      (scanEntries cluster index nameMax buf n i lfn visibleIdx) := by
  induction n generalizing i lfn visibleIdx with
  | zero => exact ⟨before, fun _ => rfl⟩
  | succ n ih =>
      unfold scanEntries slotsFrom
      dsimp only
      by_cases last : isEnd (slotAt buf i) = true
      · rw [if_pos last]
        intro behind
        rw [List.cons_append, listing, if_pos last]
        rfl
      rw [if_neg last]
      by_cases free : isFree (slotAt buf i) = true
      · rw [if_pos free]
        apply scanned_skip (ih _ _ before)
        intro behind
        rw [listing, if_neg last, if_pos free]
      rw [if_neg free]
      by_cases long : isLfnEntry (slotAt buf i) = true
      · rw [if_pos long]
        apply scanned_skip (ih _ _ before)
        intro behind
        rw [listing, if_neg last, if_neg free, if_pos long]
      rw [if_neg long]
      by_cases label : isVolumeId (slotAt buf i) = true
      · rw [if_pos label]
        apply scanned_skip (ih _ _ before)
        intro behind
        rw [listing, if_neg last, if_neg free, if_neg long, if_pos label]
      rw [if_neg label]
      by_cases dot : isDotEntry (slotAt buf i) = true
      · rw [if_pos dot]
        apply scanned_skip (ih _ _ before)
        intro behind
        rw [listing, if_neg last, if_neg free, if_neg long, if_neg label, if_pos dot]
      rw [if_neg dot]
      have listed : ∀ behind, listing nameMax lfn
          (⟨slotAt buf i, cluster, i * dirEntrySize⟩ :: behind) =
            ⟨entryName lfn (slotAt buf i) nameMax, slotAt buf i, cluster, i * dirEntrySize⟩ ::
              listing nameMax [] behind := by
        intro behind
        rw [listing, if_neg last, if_neg free, if_neg long, if_neg label, if_neg dot]
      by_cases here : visibleIdx = index
      · rw [if_pos here]
        intro behind
        rw [List.cons_append, listed, here, Nat.sub_self]
        rfl
      · rw [if_neg here]
        exact scanned_pass (ih _ _ (by omega)) (by omega) listed

end Scanning

section Reading

variable {faults : Faults} {v : Volume} {nameMax : Nat}

def Faults.any (faults : Faults) : Prop := faults.drive = true ∨ faults.heap = true

theorem note_overrun_does (v : Volume) (overrun : Bool) :
    Does faults (noteOverrun overrun) v PUnit.unit v := by
  intro s stands
  refine ⟨_, rfl, ?_, ?_, ?_⟩
  · have layout := stands.layout
    exact ⟨layout.sector, layout.perCluster, layout.clusterBytes, layout.fatStart,
      layout.dataStart, layout.copies, layout.fatCovers, layout.entries, layout.dataFits,
      layout.handleTable⟩
  · exact ⟨⟨stands.steady.transparent.size, stands.steady.transparent.holds,
      stands.steady.transparent.unique⟩, stands.steady.unmirrored, stands.steady.granting,
      stands.steady.supplied⟩
  · exact stands.content

theorem slots_of_cons (v : Volume) (c : Nat) (cs : List Nat) :
    slotsOf v (c :: cs) = slotsFrom c (v.cluster c) (slotCount v) 0 ++ slotsOf v cs :=
  List.flatMap_cons

theorem slots_from_overlay (v : Volume) (c : Nat) (buf : Buf) :
    slotsFrom c (overlay v.clusterBytes (v.cluster c) buf) (slotCount v) 0 =
      slotsFrom c (v.cluster c) (slotCount v) 0 := by
  apply slots_from_congr
  intro k _ inside
  apply funext
  intro b
  apply if_pos
  have low := b.isLt
  unfold slotCount dirEntrySize at inside
  unfold dirEntrySize
  omega

/-- What a search through a directory finds: the answer read off the listing, or nothing
where a failure is to be expected. -/
def Answers {α : Type} (faults : Faults) (v : Volume) (expected : Option α) (found : Option α)
    (w : Volume) : Prop := w = v ∧ (found = expected ∨ found = none ∧ Faults.any faults)

theorem answers_expected {α : Type} (v : Volume) (expected : Option α) :
    Answers faults v expected expected v := ⟨rfl, .inl rfl⟩

theorem answers_failed {α : Type} (v : Volume) (expected : Option α) (fails : Faults.any faults) :
    Answers faults v expected none v := ⟨rfl, .inr ⟨rfl, fails⟩⟩

theorem read_dir_from_total {index fuel : Nat} {cluster : Nat} {cs : List Nat}
    (chain : Chain v cluster cs) (enough : cs.length < fuel) (buf : Buf) (lfn : List DirEntry)
    {visibleIdx : Nat} (before : visibleIdx ≤ index) :
    Achieves (Stands faults) (readDirFrom index nameMax fuel cluster buf lfn visibleIdx) v
      (Answers faults v (listing nameMax lfn (slotsOf v cs))[index - visibleIdx]?) := by
  induction fuel generalizing cluster cs buf lfn visibleIdx with
  | zero => omega
  | succ fuel ih =>
      unfold readDirFrom
      cases cs with
      | nil =>
          have stop : fatEoc ≤ cluster := chain.links
          rw [if_neg fun inside => Nat.not_le.2 inside.2 stop]
          exact achieves_pure (answers_expected v _)
      | cons c cs =>
          obtain ⟨rfl, goes, rest⟩ := chain.links
          have valid := chain.valid cluster List.mem_cons_self
          rw [List.length_cons] at enough
          rw [if_pos ⟨valid.1, Nat.not_le.1 goes⟩]
          apply achieves_bind (read_cluster_does valid buf)
          rintro ⟨ok, buf'⟩ w ⟨rfl, read | ⟨refused, fails⟩⟩
          · cases read
            dsimp only
            rw [if_pos rfl]
            apply achieves_read
            intro s stands
            have size : entriesPerCluster s = slotCount w := by
              unfold entriesPerCluster slotCount
              rw [stands.bytes]
            rw [size, slots_of_cons]
            have scanned := scan_entries_spec cluster nameMax
              (overlay w.clusterBytes (w.cluster cluster) buf) (slotCount w) 0 lfn before
            rw [slots_from_overlay] at scanned
            revert scanned
            cases scanEntries cluster index nameMax
              (overlay w.clusterBytes (w.cluster cluster) buf) (slotCount w) 0 lfn visibleIdx with
            | stop =>
                intro scanned
                rw [scanned]
                exact achieves_pure (answers_expected w none)
            | hit found overrun =>
                intro scanned
                rw [scanned]
                apply achieves_bind_runs (note_overrun_does w overrun)
                exact achieves_pure (answers_expected w (some found))
            | next lfn' visibleIdx' =>
                intro scanned
                rw [scanned.2]
                apply achieves_bind (fat_get_does w cluster)
                rintro next u ⟨rfl, found | ⟨found, fails⟩⟩
                · rw [found]
                  apply ih ⟨rest, _⟩ (by omega) _ _ scanned.1
                  exact fun d member => chain.valid d (List.mem_cons_of_mem cluster member)
                · rw [found]
                  cases fuel with
                  | zero => omega
                  | succ fuel =>
                      unfold readDirFrom
                      rw [if_neg (by decide)]
                      exact achieves_pure (answers_failed u _ (.inl fails))
          · dsimp only at refused ⊢
            rw [refused, if_neg Bool.false_ne_true]
            exact achieves_pure (answers_failed w _ (.inl fails))

theorem read_dir_entry_total {fuel : Nat} {cluster : Nat} {cs : List Nat}
    (chain : Chain v cluster cs) (enough : cs.length < fuel) (index : Nat) :
    Achieves (Stands faults) (readDirEntry fuel cluster index nameMax) v
      (Answers faults v (listing nameMax [] (slotsOf v cs))[index]?) := by
  unfold readDirEntry
  apply achieves_bind (heap_alloc_does v)
  rintro (_ | block) w ⟨rfl, missing⟩
  · exact achieves_pure (answers_failed w _ (.inr (missing rfl)))
  · exact read_dir_from_total chain enough block [] (Nat.zero_le index)

theorem find_from_total {fuel : Nat} {cluster : Nat} {cs : List Nat}
    (chain : Chain v cluster cs) (enough : cs.length < fuel) (name : List UInt8) {rounds i : Nat}
    (low : i ≤ (entriesOf v cs).length) (rest : (entriesOf v cs).length < i + rounds) :
    Achieves (Stands faults) (findFrom fuel cluster name rounds i) v
      (Answers faults v (((entriesOf v cs).drop i).find? fun found =>
        nameEquals found.name name)) := by
  induction rounds generalizing i with
  | zero => omega
  | succ rounds ih =>
      unfold findFrom
      apply achieves_bind (read_dir_entry_total chain enough i)
      rintro found w ⟨rfl, read | ⟨read, fails⟩⟩
      · rw [read]
        cases here : (entriesOf w cs)[i]? with
        | none =>
            have beyond := List.getElem?_eq_none_iff.1 here
            rw [List.drop_eq_nil_of_le beyond]
            unfold entriesOf at here
            rw [here]
            exact achieves_pure (answers_expected w none)
        | some found =>
            obtain ⟨inside, at_⟩ := List.getElem?_eq_some_iff.1 here
            rw [List.drop_eq_getElem_cons inside, at_, List.find?_cons]
            unfold entriesOf at here
            rw [here]
            dsimp only
            cases nameEquals found.name name with
            | true => exact achieves_pure (answers_expected w (some found))
            | false => exact ih inside (by omega)
      · rw [read]
        exact achieves_pure (answers_failed w _ fails)

theorem find_entry_total {fuel : Nat} {cluster : Nat} {cs : List Nat} (chain : Chain v cluster cs)
    (enough : cs.length < fuel) (rounds : (entriesOf v cs).length < fuel) (name : List UInt8) :
    Achieves (Stands faults) (findEntry fuel cluster name) v
      (Answers faults v (lookup v cs name)) := by
  apply find_from_total chain enough name (Nat.zero_le _)
  rw [Nat.zero_add]
  exact rounds

theorem below_read_dir_from (index nameMax fuel cluster : Nat) (buf : Buf) (lfn : List DirEntry)
    (visibleIdx : Nat) : Below (readDirFrom index nameMax fuel cluster buf lfn visibleIdx)
      (readDirFrom index nameMax (fuel + 1) cluster buf lfn visibleIdx) := by
  induction fuel generalizing cluster buf lfn visibleIdx with
  | zero => exact below_none
  | succ fuel ih =>
      rw [readDirFrom, readDirFrom]
      apply below_ite _ (below_refl _)
      apply below_bind (below_refl _)
      rintro ⟨ok, buf⟩
      apply below_ite _ (below_refl _)
      apply below_read
      intro s
      cases scanEntries cluster index nameMax buf (entriesPerCluster s) 0 lfn visibleIdx with
      | stop => exact below_refl _
      | hit found overrun => exact below_refl _
      | next lfn' visibleIdx' => exact below_bind (below_refl _) fun next => ih next _ _ _

theorem below_read_dir_entry (fuel cluster index nameMax : Nat) :
    Below (readDirEntry fuel cluster index nameMax)
      (readDirEntry (fuel + 1) cluster index nameMax) := by
  apply below_bind (below_refl _)
  rintro (_ | block)
  · exact below_refl _
  · exact below_read_dir_from index nameMax fuel cluster block [] 0

theorem below_find_from (fuel cluster : Nat) (name : List UInt8) (rounds i : Nat) :
    Below (findFrom fuel cluster name rounds i)
      (findFrom (fuel + 1) cluster name (rounds + 1) i) := by
  induction rounds generalizing i with
  | zero => exact below_none
  | succ rounds ih =>
      rw [findFrom, findFrom]
      apply below_bind (below_read_dir_entry fuel cluster i maxName)
      rintro (_ | found)
      · exact below_refl _
      · exact below_ite (below_refl _) (ih (i + 1))

theorem read_dir_entry_answers (fuel : Nat) {cluster : Nat} {cs : List Nat}
    (chain : Chain v cluster cs) (index : Nat) :
    Ensures (Stands faults) (readDirEntry fuel cluster index nameMax) v
      (Answers faults v (listing nameMax [] (slotsOf v cs))[index]?) :=
  ensures_of_below (below_of_le (fun n => below_read_dir_entry n cluster index nameMax)
    (Nat.le_add_right fuel (cs.length + 1)))
    (read_dir_entry_total chain (by omega) index)

theorem find_entry_answers (fuel : Nat) {cluster : Nat} {cs : List Nat}
    (chain : Chain v cluster cs) (name : List UInt8) :
    Ensures (Stands faults) (findEntry fuel cluster name) v
      (Answers faults v (lookup v cs name)) :=
  ensures_of_below (below_of_le (fun n => below_find_from n cluster name n 0)
    (Nat.le_add_right fuel (cs.length + (entriesOf v cs).length + 1)))
    (find_entry_total chain (by omega) (by omega) name)

end Reading

end CassiOS.Fat32.DirectoryModel
