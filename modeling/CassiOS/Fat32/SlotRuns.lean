import CassiOS.Fat32.DirectoryModel
import Mathlib.Data.List.DropRight

/-!
# Runs of slots in a directory

The slots of a directory as one sequence across its clusters: the search of `createEntry`
for unused slots in a row, and a cursor that stands before a slot of the sequence while the
cluster of that slot is in a buffer.
-/

namespace CassiOS.Fat32.SlotRuns

open CassiOS.Support.Chain
open CassiOS.Fat32.Types
open CassiOS.Fat32.Names
open CassiOS.Fat32.Device
open CassiOS.Fat32.Filesystem
open CassiOS.Fat32.VolumeModel
open CassiOS.Fat32.FileModel
open CassiOS.Fat32.DirectoryModel

set_option autoImplicit false

def unused (slot : Slot) : Bool := isEnd slot.entry || isFree slot.entry

def place (slot : Slot) : Nat × Nat := (slot.cluster, slot.offset)

def put (slot : Slot) (e : DirEntry) : Slot := { slot with entry := e }

section Sequences

variable {v w : Volume} {c n i : Nat} {buf buf' : Buf} {cs ds : List Nat}

theorem slots_from_length (c : Nat) (buf : Buf) (n i : Nat) :
    (slotsFrom c buf n i).length = n := by
  induction n generalizing i with
  | zero => rfl
  | succ n ih => exact congrArg Nat.succ (ih (i + 1))

theorem slots_from_append (c : Nat) (buf : Buf) (m n i : Nat) :
    slotsFrom c buf (m + n) i = slotsFrom c buf m i ++ slotsFrom c buf n (i + m) := by
  induction m generalizing i with
  | zero => rw [Nat.zero_add]; rfl
  | succ m ih =>
      rw [Nat.add_right_comm]
      change _ :: slotsFrom c buf (m + n) (i + 1) = _ :: (slotsFrom c buf m (i + 1) ++ _)
      rw [ih, Nat.add_right_comm i 1 m]
      rfl

theorem slots_of_append (v : Volume) (cs ds : List Nat) :
    slotsOf v (cs ++ ds) = slotsOf v cs ++ slotsOf v ds := List.flatMap_append

theorem slots_of_congr (size : w.clusterBytes = v.clusterBytes)
    (same : ∀ c ∈ cs, w.cluster c = v.cluster c) : slotsOf w cs = slotsOf v cs := by
  have count : slotCount w = slotCount v := by
    unfold slotCount
    rw [size]
  apply List.flatMap_congr
  intro c member
  rw [same c member, count]

theorem slots_from_bytes (same : ∀ j, j < dirEntrySize * (i + n) → buf' j = buf j) :
    slotsFrom c buf' n i = slotsFrom c buf n i := by
  apply slots_from_congr
  intro k _ high
  funext b
  apply same
  have low := b.isLt
  unfold dirEntrySize
  omega

theorem slot_bytes_inside (inside : i + n ≤ slotCount v) {j : Nat}
    (low : j < dirEntrySize * (i + n)) : j < v.clusterBytes := by
  unfold slotCount dirEntrySize at inside
  unfold dirEntrySize at low
  omega

theorem slot_at_set_self (buf : Buf) (i : Nat) (e : DirEntry) :
    slotAt (setSlot buf i e) i = e := by
  funext k
  have small := k.isLt
  unfold slotAt setSlot
  rw [if_pos (by unfold dirEntrySize; omega), Nat.add_sub_cancel_left]
  exact congrArg e (Fin.ext (Nat.mod_eq_of_lt small))

theorem slot_at_set_other (buf : Buf) (e : DirEntry) {k : Nat} (other : k ≠ i) :
    slotAt (setSlot buf i e) k = slotAt buf k := by
  funext b
  have small := b.isLt
  unfold slotAt setSlot
  rw [if_neg (by unfold dirEntrySize; omega)]

theorem slots_from_split {before rest : List Slot} {slot : Slot}
    (split : slotsFrom c buf n i = before ++ slot :: rest) :
    ∃ k, k < n ∧ slot.cluster = c ∧ slot.offset = (i + k) * dirEntrySize ∧
      before = slotsFrom c buf k i ∧ slot :: rest = slotsFrom c buf (n - k) (i + k) := by
  have lengths := congrArg List.length split
  rw [slots_from_length, List.length_append, List.length_cons] at lengths
  have cut : n = before.length + (n - before.length) := by omega
  rw [cut, slots_from_append] at split
  obtain ⟨front, back⟩ := List.append_inj split (slots_from_length c buf before.length i)
  refine ⟨before.length, by omega, ?_, ?_, front.symm, back.symm⟩
  all_goals
    cases left : n - before.length with
    | zero => omega
    | succ m =>
        rw [left] at back
        exact (congrArg _ (List.cons.inj back).1).symm

/-- The sequence is cut at slot `k` of cluster `c`. -/
def CutAt (v : Volume) (cs : List Nat) (before behind : List Slot) (c k : Nat) : Prop :=
  ∃ cs₁ cs₂, cs = cs₁ ++ c :: cs₂ ∧
    before = slotsOf v cs₁ ++ slotsFrom c (v.cluster c) k 0 ∧
    behind = slotsFrom c (v.cluster c) (slotCount v - k) k ++ slotsOf v cs₂

theorem slots_of_split {before rest : List Slot} {slot : Slot}
    (split : slotsOf v cs = before ++ slot :: rest) :
    ∃ k, k < slotCount v ∧ slot.offset = k * dirEntrySize ∧
      CutAt v cs before (slot :: rest) slot.cluster k := by
  induction cs generalizing before with
  | nil => cases before <;> cases split
  | cons c cs ih =>
      rw [slots_of_cons] at split
      have later : ∀ after, before = slotsFrom c (v.cluster c) (slotCount v) 0 ++ after →
          slotsOf v cs = after ++ slot :: rest → ∃ k, k < slotCount v ∧
            slot.offset = k * dirEntrySize ∧
            CutAt v (c :: cs) before (slot :: rest) slot.cluster k := by
        intro after front behind
        obtain ⟨k, inside, offset, cs₁, cs₂, same, front', back⟩ := ih behind
        refine ⟨k, inside, offset, c :: cs₁, cs₂, by rw [same]; rfl, ?_, back⟩
        rw [front, front', slots_of_cons, List.append_assoc]
      rcases List.append_eq_append_iff.1 split with ⟨after, front, behind⟩ | ⟨after, whole, behind⟩
      · exact later after front behind
      · cases after with
        | nil =>
            rw [List.append_nil] at whole
            exact later [] (by rw [List.append_nil]; exact whole.symm) behind.symm
        | cons first after =>
            obtain ⟨rfl, behind⟩ := List.cons.inj behind
            obtain ⟨k, inside, rfl, offset, front, back⟩ := slots_from_split whole
            rw [Nat.zero_add] at offset back
            refine ⟨k, inside, offset, [], cs, rfl, front, ?_⟩
            rw [← back, behind]

end Sequences

section Searching

variable {total c : Nat} {before : List Slot} {run : FreeRun}

/-- The counter of the search behind `before`: the unused slots at its end, and where the
first of them is. -/
structure RunAt (before : List Slot) (run : FreeRun) : Prop where
  length : run.length = (before.rtakeWhile unused).length
  first : ∀ slot, (before.rtakeWhile unused).head? = some slot →
    place slot = (run.cluster, run.idx * dirEntrySize)

theorem run_at_length {slots : List Slot} (counted : RunAt (before ++ slots) run)
    (free : ∀ slot ∈ slots, unused slot = true) :
    run.length = (before.rtakeWhile unused).length + slots.length := by
  rw [counted.length]
  unfold List.rtakeWhile
  rw [List.reverse_append, List.takeWhile_append_of_pos]
  · rw [List.length_reverse, List.length_append, List.length_reverse, List.length_reverse]
    exact Nat.add_comm _ _
  · intro slot member
    exact free slot (List.mem_reverse.1 member)

theorem zeroed_unused {c n i : Nat} {slot : Slot} (member : slot ∈ slotsFrom c (fun _ => 0) n i) :
    unused slot = true := by
  induction n generalizing i with
  | zero => cases member
  | succ n ih =>
      rcases List.mem_cons.1 member with rfl | later
      · rfl
      · exact ih later

theorem run_at_used {slot : Slot} (used : unused slot = false) (run : FreeRun) :
    RunAt (before ++ [slot]) { run with length := 0 } := by
  have none : (before ++ [slot]).rtakeWhile unused = [] :=
    List.rtakeWhile_concat_neg _ _ _ (by rw [used]; exact Bool.false_ne_true)
  constructor
  · rw [none]
    rfl
  · rw [none]
    exact fun _ => nofun

theorem run_at_unused (c : Nat) (buf : Buf) (i : Nat) (counted : RunAt before run)
    (free : unused ⟨slotAt buf i, c, i * dirEntrySize⟩ = true) :
    RunAt (before ++ [⟨slotAt buf i, c, i * dirEntrySize⟩])
      (if run.length = 0 then ⟨1, c, i⟩ else { run with length := run.length + 1 }) := by
  have longer := List.rtakeWhile_concat_pos unused before _ free
  by_cases empty : run.length = 0
  · have none : before.rtakeWhile unused = [] := by
      apply List.eq_nil_of_length_eq_zero
      rw [← counted.length, empty]
    rw [none, List.nil_append] at longer
    rw [if_pos empty]
    constructor
    · rw [longer]
      rfl
    · rw [longer]
      intro slot first
      cases first
      rfl
  · rw [if_neg empty]
    constructor
    · rw [longer, List.length_append, ← counted.length]
      rfl
    · rw [longer]
      intro slot first
      apply counted.first
      rw [← first, List.head?_append_of_ne_nil]
      intro none
      rw [counted.length, none] at empty
      exact empty rfl

/-- Where the search stands behind the slots of a cluster, or where it ended. -/
def Searched (total : Nat) (before : List Slot) (c : Nat) (buf : Buf) (n i : Nat) :
    FreeRun × Bool → Prop
  | (run, false) => RunAt (before ++ slotsFrom c buf n i) run ∧ run.length < total
  | (run, true) => ∃ m ≤ n, RunAt (before ++ slotsFrom c buf m i) run ∧ run.length = total

theorem scan_free_spec (c total : Nat) (buf : Buf) (n i : Nat) (counted : RunAt before run)
    (short : run.length < total) :
    Searched total before c buf n i (scanFree c total buf n i run) := by
  induction n generalizing i before run with
  | zero =>
      refine ⟨?_, short⟩
      rw [slotsFrom, List.append_nil]
      exact counted
  | succ n ih =>
      have goes : ∀ run', RunAt (before ++ [⟨slotAt buf i, c, i * dirEntrySize⟩]) run' →
          run'.length < total →
          Searched total before c buf (n + 1) i (scanFree c total buf n (i + 1) run') := by
        intro run' counted' short'
        have rest := ih (i + 1) counted' short'
        revert rest
        rcases scanFree c total buf n (i + 1) run' with ⟨run'', found⟩
        unfold Searched
        cases found with
        | false =>
            dsimp only
            rw [List.append_assoc, List.singleton_append]
            exact id
        | true =>
            rintro ⟨m, low, at_, whole⟩
            rw [List.append_assoc, List.singleton_append] at at_
            exact ⟨m + 1, by omega, at_, whole⟩
      unfold scanFree
      dsimp only
      by_cases free : (isEnd (slotAt buf i) || isFree (slotAt buf i)) = true
      · have next := run_at_unused c buf i counted free
        rw [if_pos free]
        have length : (if run.length = 0 then (⟨1, c, i⟩ : FreeRun)
            else { run with length := run.length + 1 }).length = run.length + 1 := by
          split
          · next empty => rw [empty]
          · rfl
        generalize (if run.length = 0 then (⟨1, c, i⟩ : FreeRun)
            else { run with length := run.length + 1 }) = run' at next length ⊢
        by_cases enough : total ≤ run'.length
        · rw [if_pos enough]
          refine ⟨1, by omega, next, ?_⟩
          omega
        · rw [if_neg enough]
          exact goes run' next (Nat.lt_of_not_le enough)
      · rw [if_neg free]
        apply goes _ (run_at_used (by simpa [unused] using free) run)
        change 0 < total
        omega

end Searching

section Writing

variable {v : Volume} {cs : List Nat} {cursor : Cursor} {before ahead rest : List Slot}
  {slot : Slot}

/-- The cursor stands between `before` and `ahead`, where the buffer counts for its cluster. -/
structure Standing (v : Volume) (cs : List Nat) (cursor : Cursor) (before ahead : List Slot) :
    Prop where
  inside : cursor.writeIdx < slotCount v
  cut : ∃ cs₁ cs₂, cs = cs₁ ++ cursor.cluster :: cs₂ ∧
    before = slotsOf v cs₁ ++ slotsFrom cursor.cluster cursor.buf cursor.writeIdx 0 ∧
    ahead = slotsFrom cursor.cluster cursor.buf (slotCount v - cursor.writeIdx) cursor.writeIdx ++
      slotsOf v cs₂

theorem Standing.head (standing : Standing v cs cursor before (slot :: rest)) :
    place slot = (cursor.cluster, cursor.writeIdx * dirEntrySize) := by
  have inside := standing.inside
  obtain ⟨cs₁, cs₂, _, _, ahead⟩ := standing.cut
  cases left : slotCount v - cursor.writeIdx with
  | zero => omega
  | succ m =>
      rw [left] at ahead
      rw [(List.cons.inj ahead).1]
      rfl

theorem standing_of_split {k : Nat} {buf : Buf}
    (split : slotsOf v cs = before ++ slot :: rest) (offset : slot.offset = k * dirEntrySize)
    (read : ∀ j, j < v.clusterBytes → buf j = v.cluster slot.cluster j) :
    Standing v cs ⟨buf, k, slot.cluster⟩ before (slot :: rest) := by
  obtain ⟨k', inside, offset', cs₁, cs₂, same, front, back⟩ := slots_of_split split
  have index : k' = k := by
    unfold dirEntrySize at offset offset'
    omega
  subst index
  refine ⟨inside, cs₁, cs₂, same, ?_, ?_⟩
  · rw [front]
    congr 1
    apply (slots_from_bytes fun j low => ?_).symm
    exact read j (slot_bytes_inside (by omega) low)
  · rw [back]
    congr 1
    apply (slots_from_bytes fun j low => ?_).symm
    exact read j (slot_bytes_inside (by omega) low)

theorem slots_from_set_before (c : Nat) (buf : Buf) (e : DirEntry) {n i k : Nat}
    (low : i + n ≤ k) : slotsFrom c (setSlot buf k e) n i = slotsFrom c buf n i :=
  slots_from_congr fun _ _ high => slot_at_set_other buf e (by omega)

theorem slots_from_set_behind (c : Nat) (buf : Buf) (e : DirEntry) {n i k : Nat} (high : k < i) :
    slotsFrom c (setSlot buf k e) n i = slotsFrom c buf n i :=
  slots_from_congr fun _ low _ => slot_at_set_other buf e (by omega)

/-- The slots of the buffer up to the cursor, the slot under it rewritten. -/
theorem slots_from_set_last (c : Nat) (buf : Buf) (k : Nat) (e : DirEntry) :
    slotsFrom c (setSlot buf k e) (k + 1) 0 =
      slotsFrom c buf k 0 ++ [⟨e, c, k * dirEntrySize⟩] := by
  rw [slots_from_append, slots_from_set_before c buf e (by omega), Nat.zero_add]
  congr 1
  unfold slotsFrom
  rw [slot_at_set_self]
  rfl

theorem Standing.rewritten (standing : Standing v cs cursor before (slot :: rest)) (e : DirEntry) :
    ∃ cs₁ cs₂, cs = cs₁ ++ cursor.cluster :: cs₂ ∧
      before ++ [put slot e] = slotsOf v cs₁ ++
        slotsFrom cursor.cluster (setSlot cursor.buf cursor.writeIdx e) (cursor.writeIdx + 1) 0 ∧
      rest = slotsFrom cursor.cluster (setSlot cursor.buf cursor.writeIdx e)
        (slotCount v - (cursor.writeIdx + 1)) (cursor.writeIdx + 1) ++ slotsOf v cs₂ := by
  have inside := standing.inside
  obtain ⟨cs₁, cs₂, same, front, back⟩ := standing.cut
  have more : slotCount v - cursor.writeIdx = slotCount v - (cursor.writeIdx + 1) + 1 := by omega
  rw [more] at back
  obtain ⟨here, behind⟩ := List.cons.inj back
  refine ⟨cs₁, cs₂, same, ?_, ?_⟩
  · rw [front, slots_from_set_last, List.append_assoc, here]
    rfl
  · rw [slots_from_set_behind _ _ _ (Nat.lt_succ_self _)]
    exact behind

theorem standing_next (standing : Standing v cs cursor before (slot :: rest)) (e : DirEntry)
    (more : cursor.writeIdx + 1 < slotCount v) :
    Standing v cs ⟨setSlot cursor.buf cursor.writeIdx e, cursor.writeIdx + 1, cursor.cluster⟩
      (before ++ [put slot e]) rest :=
  ⟨more, standing.rewritten e⟩

theorem standing_stored (standing : Standing v cs cursor before (slot :: rest)) (e : DirEntry)
    (apart : cs.Nodup) :
    slotsOf (v.putCluster cursor.cluster (setSlot cursor.buf cursor.writeIdx e)) cs =
      before ++ put slot e :: rest := by
  have inside := standing.inside
  obtain ⟨cs₁, cs₂, same, front, back⟩ := standing.rewritten e
  rw [same] at apart
  have others := List.nodup_append.1 apart
  have away₁ : ∀ d ∈ cs₁, d ≠ cursor.cluster := fun d member =>
    others.2.2 d member cursor.cluster List.mem_cons_self
  have away₂ : ∀ d ∈ cs₂, d ≠ cursor.cluster := fun d member equal =>
    (List.nodup_cons.1 others.2.1).1 (equal ▸ member)
  rw [List.append_cons, front, back, same, slots_of_append, slots_of_cons]
  rw [slots_of_congr (Volume.bytes_put_cluster ..) fun d member =>
      Volume.put_cluster_other v _ _ (away₁ d member),
    slots_of_congr (Volume.bytes_put_cluster ..) fun d member =>
      Volume.put_cluster_other v _ _ (away₂ d member),
    List.append_assoc]
  congr 1
  rw [← List.append_assoc]
  congr 1
  have whole : slotCount v = cursor.writeIdx + 1 + (slotCount v - (cursor.writeIdx + 1)) := by
    omega
  change slotsFrom _ _ (slotCount v) 0 = _
  rw [slots_from_bytes fun j low => Volume.put_cluster_self v _ _
    (slot_bytes_inside (Nat.le_of_eq (Nat.zero_add _)) low)]
  conv =>
    lhs
    rw [whole]
  rw [slots_from_append, Nat.zero_add]

theorem standing_turn {slot' : Slot} {rest' : List Slot}
    (standing : Standing v cs cursor before (slot :: slot' :: rest'))
    (last : slotCount v ≤ cursor.writeIdx + 1) :
    slot'.offset = 0 * dirEntrySize ∧
      ∃ cs₁ cs₂, cs = cs₁ ++ cursor.cluster :: slot'.cluster :: cs₂ := by
  have inside := standing.inside
  obtain ⟨cs₁, cs₂, same, _, back⟩ := standing.rewritten slot.entry
  have none : slotCount v - (cursor.writeIdx + 1) = 0 := by omega
  rw [none] at back
  cases cs₂ with
  | nil => cases back
  | cons d cs₂ =>
      rw [slots_of_cons] at back
      cases size : slotCount v with
      | zero => omega
      | succ n =>
          rw [size] at back
          have here : slot' = ⟨slotAt (v.cluster d) 0, d, 0 * dirEntrySize⟩ :=
            (List.cons.inj back).1
          refine ⟨by rw [here], cs₁, cs₂, ?_⟩
          rw [here]
          exact same

/-- Only the clusters of the directory matter. -/
theorem standing_congr {w : Volume} (standing : Standing v cs cursor before ahead)
    (size : w.clusterBytes = v.clusterBytes) (same : ∀ c ∈ cs, w.cluster c = v.cluster c) :
    Standing w cs cursor before ahead := by
  have count : slotCount w = slotCount v := by
    unfold slotCount
    rw [size]
  obtain ⟨cs₁, cs₂, split, front, back⟩ := standing.cut
  refine ⟨count ▸ standing.inside, cs₁, cs₂, split, ?_, ?_⟩
  · rw [front, slots_of_congr size fun c member => same c (by
      rw [split]
      exact List.mem_append_left _ member)]
  · rw [back, count, slots_of_congr size fun c member => same c (by
      rw [split]
      exact List.mem_append_right _ (List.mem_cons_of_mem _ member))]

end Writing

end CassiOS.Fat32.SlotRuns
