import CassiOS.Fat32.WriteModel
import CassiOS.Fat32.CacheTransparency

/-!
# Writing to a full volume

A write that finds no free cluster has already stored what fits into the clusters of the
file and taken every cluster that was free. Nothing of this is undone, so it changes nothing
exactly when no cluster was free and the stored bytes are the old ones.
-/

namespace CassiOS.Fat32.WriteFailure

open CassiOS.Support.PartialProgram
open CassiOS.Support.Chain
open CassiOS.Fat32.Types
open CassiOS.Fat32.Device
open CassiOS.Fat32.Filesystem
open CassiOS.Fat32.Operations
open CassiOS.Fat32.VolumeModel
open CassiOS.Fat32.FatModel
open CassiOS.Fat32.FileModel
open CassiOS.Fat32.WriteModel

set_option autoImplicit false

section Specification

def noFaults : Faults := ⟨false, false⟩

/-- An open handle that agrees with its directory entry; `cs` are the clusters of the file. -/
structure HandleMatches (v : Volume) (fh : FileHandle) (cs : List Nat) : Prop where
  chain : fh.startCluster = 0 ∧ cs = [] ∨ Chain v fh.startCluster cs
  directory : v.Valid fh.dirCluster
  apart : fh.dirCluster ∉ cs
  start : firstCluster (slotAt (v.cluster fh.dirCluster) (fh.dirOffset / dirEntrySize)) =
    fh.startCluster
  size : fileSize (slotAt (v.cluster fh.dirCluster) (fh.dirOffset / dirEntrySize)) = fh.size

/-- The machine after the file of `fh` was opened again as handle number `i + 1`. -/
def reopened (fh : FileHandle) (i : Nat) (s : Fat32Filesystem) : Fat32Filesystem :=
  let entry := slotAt ((volumeOf s).cluster fh.dirCluster) (fh.dirOffset / dirEntrySize)
  { s with handles := s.handles.modify i fun _ =>
      ⟨firstCluster entry, fileSize entry, fh.dirCluster, fh.dirOffset, false, true⟩ }

/-- `read` answers the same in both states. -/
def SameReads (s s' : Fat32Filesystem) (handle : Nat) : Prop :=
  ∀ fuel offset buf len, len < fuel →
    (read fuel handle offset buf len s').map Prod.fst = (read fuel handle offset buf len s).map Prod.fst

/-- What a write through `fh` must leave as it was. -/
structure Unchanged (fh : FileHandle) (s s' : Fat32Filesystem) : Prop where
  reads : ∀ handle, SameReads s s' handle
  reopened : ∀ i, SameReads (reopened fh i s) (reopened fh i s') (i + 1)
  entry : slotAt ((volumeOf s').cluster fh.dirCluster) (fh.dirOffset / dirEntrySize) =
    slotAt ((volumeOf s).cluster fh.dirCluster) (fh.dirOffset / dirEntrySize)
  free : ∀ c, (volumeOf s').Free c ↔ (volumeOf s).Free c

/-- Where the clusters `cs` hold bytes of an open file, the data agree with them. -/
def SameBytes (v : Volume) (data : Buf) (cs : List Nat) : Prop :=
  ∀ handle fh p, openHandle v handle = some fh → p < fh.size →
    ∀ i c, cs[i]? = some c → skip v (p / v.clusterBytes) fh.startCluster = c →
      data (i * v.clusterBytes + p % v.clusterBytes) = v.cluster c (p % v.clusterBytes)

end Specification

section Loop

variable {faults : Faults} {v : Volume} {c prev : Nat} {data : Buf} {len : Nat}

theorem stands_unique (s : Fat32Filesystem) (v w : Volume) (left : Stands faults s v)
    (right : Stands faults s w) : v = w := left.content.symm.trans right.content

/-- The loop gives up only when no cluster is free. -/
theorem write_loop_fails_full (sure : faults.drive = false) (fuel bytesWritten : Nat)
    (clusterBuf : Buf) (linked : Linked v) (small : v.fatEntryCount ≤ 0x0FFFFFF7)
    (position : Volume.OnVolume v c ∨ fatEoc ≤ c) (previous : Volume.OnVolume v prev) :
    Ensures (Stands faults) (writeLoop data len fuel bytesWritten c prev clusterBuf) v
      fun answer w => w.fatEntryCount = v.fatEntryCount ∧ (answer = none → ∀ d, ¬ w.Free d) := by
  induction fuel generalizing v bytesWritten c prev clusterBuf with
  | zero => exact ensures_none
  | succ fuel ih =>
      by_cases more : bytesWritten < len
      · apply write_loop_round sure position more
        · exact fun _ full => ⟨rfl, fun _ => full⟩
        · intro c' u buf chosen _
          have linkedU := chosen.linked linked small previous
          have validU : u.Valid c' := ⟨chosen.valid.1, chosen.count ▸ chosen.valid.2⟩
          have linkedW : Linked (u.putCluster c' buf) := ⟨linkedU.links, linkedU.reserved⟩
          have smallW : (u.putCluster c' buf).fatEntryCount ≤ 0x0FFFFFF7 := chosen.count ▸ small
          split
          · apply (ih _ _ linkedW smallW (next_position linkedW validU) (.inr validU)).mono
            exact fun _ _ post => ⟨post.1.trans chosen.count, post.2⟩
          · next last =>
            apply (write_loop_done last _ fuel c' prev buf).mono
            rintro _ _ ⟨rfl, rfl⟩
            exact ⟨chosen.count, nofun⟩
      · apply (write_loop_done more v (fuel + 1) c prev clusterBuf).mono
        rintro _ _ ⟨rfl, rfl⟩
        exact ⟨rfl, nofun⟩

/-- The clusters `cs` hold the data from `position` on; nothing else is different. -/
structure Overwritten (v w : Volume) (data : Buf) (position : Nat) (cs : List Nat) : Prop where
  count : w.fatEntryCount = v.fatEntryCount
  bytes : w.clusterBytes = v.clusterBytes
  fat : w.fat = v.fat
  handles : w.handles = v.handles
  others : ∀ d, d ∉ cs → w.cluster d = v.cluster d
  stored : ∀ i d, cs[i]? = some d → ∀ j, j < v.clusterBytes →
    w.cluster d j = data (position + i * v.clusterBytes + j)

theorem overwritten_nil (v : Volume) (data : Buf) (position : Nat) :
    Overwritten v v data position [] where
  count := rfl
  bytes := rfl
  fat := rfl
  handles := rfl
  others _ _ := rfl
  stored _ _ found := nomatch found

theorem overwritten_cons {w : Volume} {position : Nat} {buf : Buf} {rest : List Nat}
    (fresh : c ∉ rest) (filled : ∀ j, j < v.clusterBytes → buf j = data (position + j))
    (behind : Overwritten (v.putCluster c buf) w data (position + v.clusterBytes) rest) :
    Overwritten v w data position (c :: rest) where
  count := behind.count
  bytes := behind.bytes
  fat := behind.fat
  handles := behind.handles
  others := by
    intro d absent
    rw [behind.others d fun member => absent (List.mem_cons_of_mem c member),
      Volume.put_cluster_other v c buf fun same => absent (same ▸ List.mem_cons_self)]
  stored := by
    intro i d found j inside
    cases i with
    | zero =>
        obtain rfl := Option.some.inj found
        rw [behind.others c fresh, Volume.put_cluster_self v c buf inside, filled j inside,
          Nat.zero_mul, Nat.add_zero]
    | succ i =>
        rw [behind.stored i d found j inside]
        congr 1
        rw [Volume.bytes_put_cluster, Nat.succ_mul]
        omega

/-- Without a free cluster the loop fills the clusters of the file before it gives up. -/
theorem write_loop_fills (sure : faults.drive = false) (fuel bytesWritten : Nat)
    (clusterBuf : Buf) (small : v.fatEntryCount ≤ 0x0FFFFFF7) (full : ∀ d, ¬ v.Free d)
    (aligned : bytesWritten % v.clusterBytes = 0) {cs : List Nat}
    (chain : c = 0 ∧ cs = [] ∨ Chain v c cs) :
    Ensures (Stands faults) (writeLoop data len fuel bytesWritten c prev clusterBuf) v
      fun answer w => answer = none → Overwritten v w data bytesWritten cs := by
  induction fuel generalizing v bytesWritten c prev clusterBuf cs with
  | zero => exact ensures_none
  | succ fuel ih =>
      by_cases more : bytesWritten < len
      · apply write_loop_round sure (chain_position chain) more
        · intro ended _ _
          rcases chain with ⟨_, rfl⟩ | chain
          · exact overwritten_nil v data bytesWritten
          · cases cs with
            | nil => exact overwritten_nil v data bytesWritten
            | cons x rest =>
                obtain ⟨rfl, goes, _⟩ := chain.links
                have low := (chain.valid c List.mem_cons_self).1
                exact absurd (ended.resolve_left (by omega)) goes
        · intro c' u buf chosen filled
          obtain ⟨valid, rfl, rfl⟩ := chosen.of_full full
          obtain ⟨rest, rfl, behind⟩ := chain_tail small valid chain
          split
          · next again =>
            have whole : chunkLength u len bytesWritten = u.clusterBytes := by
              unfold chunkLength at again ⊢
              rw [aligned] at again ⊢
              omega
            rw [whole]
            apply (ih (v := u.putCluster c' buf) (bytesWritten + u.clusterBytes) buf small full
              (by rw [Volume.bytes_put_cluster, Nat.add_mod_right, aligned])
              (.inr ⟨behind.links, behind.valid⟩)).mono
            intro answer w post refused
            apply overwritten_cons _ _ (post refused)
            · exact (List.nodup_cons.mp (chain_nodup chain)).1
            · intro j inside
              have stored := filled.chunk j (whole.symm ▸ inside)
              rw [aligned, Nat.zero_add] at stored
              exact stored
          · next last =>
            apply (write_loop_done last _ fuel c' prev buf).mono
            rintro _ _ ⟨rfl, rfl⟩
            exact nofun
      · apply (write_loop_done more v (fuel + 1) c prev clusterBuf).mono
        rintro _ _ ⟨rfl, rfl⟩
        exact nofun

end Loop

section Write

variable {faults : Faults} {v : Volume} {data : Buf} {len : Nat} {P : Volume → Prop}

/-- What the loop leaves when it gives up is what `write` leaves when it returns false. -/
theorem write_data_fails (sure : faults.drive = false) (fh : FileHandle) {fuel i : Nat}
    {clusterBuf : Buf} (directory : v.Valid fh.dirCluster)
    (loop : Ensures (Stands faults) (writeLoop data len fuel 0 fh.startCluster 0 clusterBuf) v
      fun answer w => w.fatEntryCount = v.fatEntryCount ∧ (answer = none → P w)) :
    Ensures (Stands faults) (writeData fuel i fh data len clusterBuf) v fun ok w =>
      ok = false → P w := by
  unfold writeData
  apply ensures_bind loop
  rintro (_ | ⟨c, buf⟩) w ⟨count, fails⟩
  · exact ensures_pure fun _ => fails rfl
  · apply ensures_bind (truncate_chain_count sure fuel w c)
    intro _ u count'
    apply ensures_bind_runs (set_handle_does u i _)
    have valid : u.Valid fh.dirCluster :=
      ⟨directory.1, count'.symm ▸ count.symm ▸ directory.2⟩
    refine (update_entry_succeeds sure ?_ _ _ _ _).ensures.mono ?_
    · exact valid
    · intro ok w done failed
      rw [done] at failed
      cases failed

theorem write_fails (sure : faults.drive = false) (supplied : faults.heap = false)
    {fuel handle : Nat} {fh : FileHandle} (opened : openHandle v handle = some fh)
    (directory : v.Valid fh.dirCluster)
    (refused : fh.startCluster < 2 → (∀ d, ¬ v.Free d) → P v)
    (first : ∀ new buf handles, fh.startCluster < 2 → v.Free new →
      Ensures (Stands faults) (writeLoop data len fuel 0 new 0 buf)
        ((v.setFat new fatEoc).setHandles handles)
        fun answer w => w.fatEntryCount = v.fatEntryCount ∧ (answer = none → P w))
    (loop : ∀ buf, Ensures (Stands faults) (writeLoop data len fuel 0 fh.startCluster 0 buf) v
      fun answer w => w.fatEntryCount = v.fatEntryCount ∧ (answer = none → P w)) :
    Ensures (Stands faults) (write fuel handle data len) v fun ok w => ok = false → P w := by
  intro s stands
  unfold openHandle at opened
  split at opened
  · cases opened
  · next inTable =>
    obtain ⟨slot, used⟩ := Option.filter_eq_some_iff.mp opened
    rw [← stands.table] at slot
    unfold write
    rw [if_neg inTable, slot]
    dsimp only
    rw [if_pos used]
    refine ensures_bind (heap_alloc_does v).ensures ?_ s stands
    rintro (_ | clusterBuf) v ⟨rfl, missing⟩
    · rw [supplied] at missing
      exact absurd (missing rfl) Bool.false_ne_true
    · dsimp only
      split
      · apply ensures_bind (free_chain_count sure fuel v fh.startCluster)
        intro _ u count
        apply ensures_bind_runs (set_handle_does u (handle - 1) _)
        have valid : u.Valid fh.dirCluster := ⟨directory.1, count.symm ▸ directory.2⟩
        refine (update_entry_succeeds sure ?_ _ _ _ _).ensures.mono ?_
        · exact valid
        · intro ok w done failed
          rw [done] at failed
          cases failed
      · split
        · next missing =>
          rcases allocate_cluster_does sure v with ⟨new, free, _, run⟩ | ⟨full, run⟩
          · apply ensures_bind_runs run
            have nonzero : new ≠ 0 := fun zero => by
              have low := free.1.1
              omega
            rw [if_neg nonzero]
            apply ensures_bind_runs (set_handle_does (v.setFat new fatEoc) (handle - 1) _)
            exact write_data_fails sure { fh with startCluster := new } directory
              (first new clusterBuf _ missing.1 free)
          · apply ensures_bind_runs run
            rw [if_pos rfl]
            exact ensures_pure fun _ => refused missing.1 full
        · exact write_data_fails sure fh directory (loop clusterBuf)

end Write

section Reads

variable {s t : Fat32Filesystem} {v w : Volume} {handle : Nat}

theorem same_reads (stands : Stands noFaults s v) (stands' : Stands noFaults t w)
    (reach : Reaches v handle) (reach' : Reaches w handle)
    (opened : openHandle w handle = openHandle v handle)
    (bytes : ∀ fh p, openHandle v handle = some fh → p < fh.size →
      byteAt w fh.startCluster p = byteAt v fh.startCluster p) : SameReads s t handle := by
  intro fuel offset buf len enough
  obtain ⟨answer, _, _, run, _, _, spec⟩ :=
    read_does rfl rfl fuel handle offset buf len enough reach s stands
  obtain ⟨answer', _, _, run', _, _, spec'⟩ :=
    read_does rfl rfl fuel handle offset buf len enough reach' t stands'
  rw [run, run']
  refine congrArg some ?_
  unfold ReadAnswer at spec spec'
  rw [opened] at spec'
  cases found : openHandle v handle with
  | none =>
      rw [found] at spec spec'
      exact spec'.trans spec.symm
  | some fh =>
      rw [found] at spec spec'
      dsimp only at spec spec'
      split at spec
      · next beyond =>
        rw [if_pos beyond] at spec'
        exact spec'.trans spec.symm
      · next inside =>
        rw [if_neg inside] at spec'
        obtain ⟨count, value, reads⟩ := spec
        obtain ⟨count', value', reads'⟩ := spec'
        obtain ⟨rfl, same⟩ := reads_unique reads reads' fun i below =>
          bytes fh (offset + i) found (by omega)
        exact Prod.ext (value'.trans value.symm) same

theorem byte_of_one {start p count : Nat} {before after : Buf}
    (reads : Reads v start p 1 count before after) :
    byteAt v start p = if count = 0 then none else some (after 0) := by
  split
  · next none =>
    subst none
    exact reads.ends Nat.one_pos
  · next some => exact reads.bytes 0 (Nat.pos_of_ne_zero some)

theorem byte_of_reads (stands : Stands noFaults s v) (stands' : Stands noFaults t w)
    (reach : Reaches v handle) (reach' : Reaches w handle) (same : SameReads s t handle) {fh : FileHandle}
    (opened : openHandle v handle = some fh) (opened' : openHandle w handle = some fh) {p : Nat}
    (inside : p < fh.size) : byteAt w fh.startCluster p = byteAt v fh.startCluster p := by
  obtain ⟨answer, _, _, run, _, _, spec⟩ :=
    read_does rfl rfl 2 handle p (fun _ => 0) 1 (by decide) reach s stands
  obtain ⟨answer', _, _, run', _, _, spec'⟩ :=
    read_does rfl rfl 2 handle p (fun _ => 0) 1 (by decide) reach' t stands'
  have equal := same 2 p (fun _ => 0) 1 (by decide)
  rw [run, run'] at equal
  obtain rfl : answer' = answer := Option.some.inj equal
  unfold ReadAnswer at spec spec'
  rw [opened] at spec
  rw [opened'] at spec'
  dsimp only at spec spec'
  have one : min 1 (fh.size - p) = 1 := by omega
  rw [if_neg (Nat.not_le.2 inside), one] at spec spec'
  obtain ⟨count, value, reads⟩ := spec
  obtain ⟨count', value', reads'⟩ := spec'
  have counts : count' = count := by
    have bound := reads.bound
    have bound' := reads'.bound
    rw [value, toI32, toI32, if_pos (by omega), if_pos (by omega)] at value'
    omega
  rw [byte_of_one reads, byte_of_one reads', counts]

end Reads

section Result

variable {s s' : Fat32Filesystem} {v w : Volume} {data : Buf} {cs : List Nat} {fh : FileHandle}

theorem skip_congr (fat : w.fat = v.fat) (n c : Nat) : skip w n c = skip v n c := by
  induction n generalizing c with
  | zero => rfl
  | succ n ih =>
      unfold skip
      rw [fat, ih]

theorem byte_at_set_handles (v : Volume) (handles : List FileHandle) (start p : Nat) :
    byteAt (v.setHandles handles) start p = byteAt v start p := by
  unfold byteAt
  rw [skip_congr (v := v) (w := v.setHandles handles) rfl]
  rfl

/-- The readable bytes stay exactly when the stored ones are the old ones. -/
theorem bytes_kept_iff (filling : Overwritten v w data 0 cs) (positive : 0 < v.clusterBytes)
    (valid : ∀ c ∈ cs, v.Valid c) :
    SameBytes v data cs ↔ ∀ handle fh p, openHandle v handle = some fh → p < fh.size →
      byteAt w fh.startCluster p = byteAt v fh.startCluster p := by
  have skips := skip_congr filling.fat
  have stored : ∀ i c p, cs[i]? = some c → w.cluster c (p % v.clusterBytes) =
      data (i * v.clusterBytes + p % v.clusterBytes) := by
    intro i c p found
    rw [filling.stored i c found _ (Nat.mod_lt p positive), Nat.zero_add]
  constructor
  · intro same handle fh p opened inside
    unfold byteAt
    rw [filling.bytes, skips]
    by_cases member : skip v (p / v.clusterBytes) fh.startCluster ∈ cs
    · obtain ⟨i, found⟩ := List.getElem?_of_mem member
      rw [stored i _ p found, same handle fh p opened inside i _ found rfl]
    · rw [filling.others _ member]
  · rintro kept handle fh p opened inside i c found rfl
    have low := (valid _ (List.mem_of_getElem? found)).1
    have bytes := kept handle fh p opened inside
    unfold byteAt at bytes
    rw [filling.bytes, skips, if_neg (by omega), if_neg (by omega)] at bytes
    rw [← stored i _ p found]
    exact Option.some.inj bytes

theorem slot_kept {dirCluster : Nat} (filling : Overwritten v w data 0 cs)
    (apart : dirCluster ∉ cs) : w.cluster dirCluster = v.cluster dirCluster :=
  filling.others dirCluster apart

theorem on_volume_after (filling : Overwritten v w data 0 cs) (onVolume : HandlesOnVolume v) :
    HandlesOnVolume w := by
  intro handle fh opened
  unfold openHandle at opened
  rw [filling.handles] at opened
  rcases onVolume handle fh opened with zero | valid
  · exact .inl zero
  · exact .inr ⟨valid.1, filling.count.symm ▸ valid.2⟩

theorem linked_after (filling : Overwritten v w data 0 cs) (linked : Linked v) : Linked w := by
  obtain ⟨links, reserved⟩ := linked
  constructor
  · intro c valid
    unfold Volume.Valid at valid ⊢
    rw [filling.count] at valid ⊢
    rw [filling.fat]
    exact links c valid
  · rw [filling.fat]
    exact reserved

def freshHandle (v : Volume) (fh : FileHandle) : FileHandle :=
  let entry := slotAt (v.cluster fh.dirCluster) (fh.dirOffset / dirEntrySize)
  ⟨firstCluster entry, fileSize entry, fh.dirCluster, fh.dirOffset, false, true⟩

theorem reopened_stands (stands : Stands noFaults s v) (fh : FileHandle) (i : Nat) :
    Stands noFaults (reopened fh i s)
      (v.setHandles (v.handles.modify i fun _ => freshHandle v fh)) := by
  obtain ⟨t, run, stands'⟩ := set_handle_does v i (fun _ => freshHandle v fh) s stands
  have same : t = reopened fh i s := by
    unfold setHandle at run
    rw [← (Prod.mk.inj (Option.some.inj run)).2, ← stands.content]
    rfl
  exact same ▸ stands'

theorem open_fresh_handle {fh found : FileHandle} {i : Nat}
    (opened : openHandle (v.setHandles (v.handles.modify i fun _ => freshHandle v fh)) (i + 1) =
      some found) : found = freshHandle v fh := by
  unfold openHandle at opened
  split at opened
  · cases opened
  · obtain ⟨slot, _⟩ := Option.filter_eq_some_iff.mp opened
    have here : (v.handles.modify i fun _ => freshHandle v fh)[i + 1 - 1]? = some found := slot
    rw [Nat.add_sub_cancel, List.getElem?_modify] at here
    obtain ⟨old, _, same⟩ := Option.map_eq_some_iff.mp here
    rw [if_pos rfl] at same
    exact same.symm

theorem reopened_on_volume (onVolume : HandlesOnVolume v) {fh : FileHandle}
    (start : Volume.OnVolume v (freshHandle v fh).startCluster) (i : Nat) :
    HandlesOnVolume (v.setHandles (v.handles.modify i fun _ => freshHandle v fh)) := by
  intro handle found opened
  unfold openHandle at opened
  split at opened
  · cases opened
  · next inTable =>
    obtain ⟨slot, used⟩ := Option.filter_eq_some_iff.mp opened
    have here : (v.handles.modify i fun _ => freshHandle v fh)[handle - 1]? = some found := slot
    rw [List.getElem?_modify] at here
    obtain ⟨old, inOld, same⟩ := Option.map_eq_some_iff.mp here
    by_cases own : i = handle - 1
    · rw [if_pos own] at same
      rw [← same]
      exact start
    · rw [if_neg own] at same
      apply onVolume handle
      unfold openHandle
      rw [if_neg inTable, inOld, same]
      exact Option.filter_eq_some_iff.mpr ⟨rfl, used⟩

theorem reopened_reaches (linked : Linked v) (onVolume : HandlesOnVolume v) {fh : FileHandle}
    (start : Volume.OnVolume v (freshHandle v fh).startCluster) (i : Nat) :
    Reaches (v.setHandles (v.handles.modify i fun _ => freshHandle v fh)) (i + 1) := by
  have linked' : Linked (v.setHandles (v.handles.modify i fun _ => freshHandle v fh)) :=
    ⟨linked.links, linked.reserved⟩
  exact linked_reaches linked' (reopened_on_volume onVolume start i) (i + 1)

theorem matches_start (onVolume : HandlesOnVolume v) {handle : Nat}
    (opened : openHandle v handle = some fh) (agrees : HandleMatches v fh cs) :
    Volume.OnVolume v (freshHandle v fh).startCluster := by
  have start : (freshHandle v fh).startCluster = fh.startCluster := agrees.start
  rw [start]
  exact onVolume handle fh opened

/-- What a failed write leaves: no free cluster, and on a volume that had none before
the file's clusters filled with the data. -/
theorem failed_write (stands : Stands noFaults s v) (linked : Linked v)
    (onVolume : HandlesOnVolume v) {fuel handle len : Nat}
    (opened : openHandle v handle = some fh) (agrees : HandleMatches v fh cs)
    (failed : write fuel handle data len s = some (false, s')) :
    ∃ w, Stands noFaults s' w ∧ (∀ d, ¬ w.Free d) ∧
      ((∀ d, ¬ v.Free d) → Overwritten v w data 0 cs) := by
  have small : v.fatEntryCount ≤ 0x0FFFFFF7 := stands.count ▸ stands.layout.entries
  have start := onVolume handle fh opened
  have gaveUp : Ensures (Stands noFaults) (write fuel handle data len) v fun ok w =>
      ok = false → ∀ d, ¬ w.Free d := by
    apply write_fails rfl rfl opened agrees.directory
    · exact fun _ full => full
    · intro new buf handles _ free
      have linked' := linked_set_fat linked small free.1 (.inr rfl)
      exact write_loop_fails_full (v := (v.setFat new fatEoc).setHandles handles) rfl fuel 0 buf
        ⟨linked'.links, linked'.reserved⟩ small (.inl (.inr free.1)) (.inl rfl)
    · exact fun buf => write_loop_fails_full rfl fuel 0 buf linked small (.inl start) (.inl rfl)
  have filled : Ensures (Stands noFaults) (write fuel handle data len) v fun ok w =>
      ok = false → (∀ d, ¬ v.Free d) → Overwritten v w data 0 cs := by
    by_cases full : ∀ d, ¬ v.Free d
    · apply write_fails rfl rfl opened agrees.directory
      · intro none _ _
        rcases agrees.chain with ⟨_, rfl⟩ | chain
        · exact overwritten_nil v data 0
        · cases cs with
          | nil => exact overwritten_nil v data 0
          | cons x rest =>
              have low := (chain.valid x List.mem_cons_self).1
              rw [chain.links.1] at none
              omega
      · exact fun new _ _ _ free => absurd free (full new)
      · intro buf
        apply ((write_loop_fails_full rfl fuel 0 buf linked small (.inl start) (.inl rfl)).and
          stands_unique (write_loop_fills rfl fuel 0 buf small full (Nat.zero_mod _)
            agrees.chain)).mono
        exact fun _ _ post => ⟨post.1.1, fun refused _ => post.2 refused⟩
    · intro t stands' ok t' run
      obtain ⟨w, stands'', _⟩ := gaveUp t stands' ok t' run
      exact ⟨w, stands'', fun _ none => absurd none full⟩
  obtain ⟨w, stands', holds⟩ := (gaveUp.and stands_unique filled) s stands false s' failed
  exact ⟨w, stands', holds.1 rfl, holds.2 rfl⟩

/-- A write that fails for want of a free cluster leaves everything as it was exactly when
no cluster was free before and the file's clusters already hold the bytes written there. -/
theorem failed_write_unchanged_iff (stands : Stands noFaults s v) (linked : Linked v)
    (onVolume : HandlesOnVolume v) {fuel handle len : Nat}
    (opened : openHandle v handle = some fh) (agrees : HandleMatches v fh cs)
    (failed : write fuel handle data len s = some (false, s')) :
    Unchanged fh s s' ↔ (∀ d, ¬ v.Free d) ∧ SameBytes v data cs := by
  obtain ⟨w, stands', none, filled⟩ := failed_write stands linked onVolume opened agrees failed
  have positive := cluster_bytes_pos stands
  have valid : ∀ c ∈ cs, v.Valid c := by
    rcases agrees.chain with ⟨_, rfl⟩ | chain
    · exact fun c member => absurd member List.not_mem_nil
    · exact chain.valid
  constructor
  · intro unchanged
    have full : ∀ d, ¬ v.Free d := by
      intro d free
      apply none d
      rw [← stands'.content, unchanged.free, stands.content]
      exact free
    have filling := filled full
    refine ⟨full, (bytes_kept_iff filling positive valid).2 ?_⟩
    intro handle' fh' p opened' inside
    have openedAfter : openHandle w handle' = some fh' := by
      unfold openHandle at opened' ⊢
      rw [filling.handles]
      exact opened'
    exact byte_of_reads stands stands' (linked_reaches linked onVolume handle')
      (linked_reaches (linked_after filling linked) (on_volume_after filling onVolume) handle')
      (unchanged.reads handle') opened' openedAfter inside
  · rintro ⟨full, same⟩
    have filling := filled full
    have kept := (bytes_kept_iff filling positive valid).1 same
    have linked' := linked_after filling linked
    have onVolume' := on_volume_after filling onVolume
    have slot := slot_kept filling agrees.apart
    constructor
    · intro handle'
      apply same_reads stands stands' (linked_reaches linked onVolume handle')
        (linked_reaches linked' onVolume' handle')
      · unfold openHandle
        rw [filling.handles]
      · exact kept handle'
    · intro i
      have fresh : freshHandle w fh = freshHandle v fh := by
        unfold freshHandle
        rw [slot]
      have start := matches_start onVolume opened agrees
      have start' : Volume.OnVolume w (freshHandle w fh).startCluster := by
        rw [fresh]
        rcases start with zero | inside
        · exact .inl zero
        · exact .inr ⟨inside.1, filling.count.symm ▸ inside.2⟩
      apply same_reads (reopened_stands stands fh i) (reopened_stands stands' fh i)
        (reopened_reaches linked onVolume start i) (reopened_reaches linked' onVolume' start' i)
      · unfold openHandle Volume.setHandles
        rw [filling.handles, fresh]
      · intro found p openedFresh inside
        rw [open_fresh_handle openedFresh] at inside ⊢
        have size : (freshHandle v fh).size = fh.size := agrees.size
        have first : (freshHandle v fh).startCluster = fh.startCluster := agrees.start
        rw [size] at inside
        rw [first, byte_at_set_handles, byte_at_set_handles]
        exact kept handle fh p opened inside
    · rw [stands'.content, stands.content, slot]
    · intro c
      rw [stands'.content, stands.content]
      constructor
      · exact fun free => absurd free (none c)
      · exact fun free => absurd free (full c)

/-- Every cluster in use: the root directory in cluster 2 names a file `A` of one byte in
cluster 3. -/
def fullSectors (lba : Nat) : Sector := fun k =>
  if lba = 1 ∨ lba = 2 then
    if k.val % 4 = 0 then 0xF8 else if k.val % 4 = 3 then 0x0F else 0xFF
  else if lba = 3 then
    if k = 0 then 0x41 else if k.val < 11 then 0x20
    else if k = 11 then DirAttr.archive else if k = 26 then 3 else if k = 28 then 1 else 0
  else if lba = 4 then if k = 0 then 0x41 else 0
  else 0

/-- The file is open as handle 1. -/
def fullVolume : Fat32Filesystem where
  ata := ⟨fullSectors, []⟩
  heap := ⟨[], fun _ => 0⟩
  bytesPerSector := 512
  sectorsPerCluster := 1
  bytesPerCluster := 512
  reservedSectors := 1
  numFats := 2
  fatSize := 1
  fatStartSector := 1
  dataStartSector := 3
  rootCluster := 2
  totalClusters := 2
  fatEntryCount := 4
  handles := ⟨3, 1, 2, 0, false, true⟩ :: List.replicate 15 emptyHandle
  cache := List.replicate cacheSize emptyCacheEntry
  cacheAge := 0
  lfnOverrun := false

theorem full_volume_stands : Stands noFaults fullVolume (volumeOf fullVolume) where
  layout := by constructor <;> decide
  steady := CacheTransparency.steady_empty rfl rfl rfl
  content := rfl

theorem full_volume_fat {c : Nat} (inside : c < 4) :
    (volumeOf fullVolume).fat c = fatEoc := by
  have all : ∀ c : Fin 4, (volumeOf fullVolume).fat c = fatEoc := by decide +kernel
  exact all ⟨c, inside⟩

theorem full_volume_linked : Linked (volumeOf fullVolume) where
  links c valid := .inr (.inr (Nat.le_of_eq (full_volume_fat valid.2).symm))
  reserved := Nat.le_of_eq (full_volume_fat (by decide)).symm

theorem full_volume_taken (d : Nat) : ¬ (volumeOf fullVolume).Free d := by
  rintro ⟨valid, free⟩
  rw [full_volume_fat valid.2] at free
  cases free

def fullHandle : FileHandle := ⟨3, 1, 2, 0, false, true⟩

theorem full_volume_handles {handle : Nat} {fh : FileHandle}
    (opened : openHandle (volumeOf fullVolume) handle = some fh) : fh = fullHandle := by
  unfold openHandle at opened
  split at opened
  · cases opened
  · next inTable =>
    obtain ⟨slot, used⟩ := Option.filter_eq_some_iff.1 opened
    rcases List.mem_cons.1 (List.mem_of_getElem? slot) with rfl | empty
    · rfl
    · rw [List.eq_of_mem_replicate empty] at used
      cases used

theorem full_volume_on_volume : HandlesOnVolume (volumeOf fullVolume) := by
  intro handle fh opened
  rw [full_volume_handles opened]
  exact .inr (by decide)

theorem full_handle_matches : HandleMatches (volumeOf fullVolume) fullHandle [3] where
  chain := .inr
    { links := ⟨rfl, by decide, Nat.le_of_eq (full_volume_fat (by decide)).symm⟩
      valid := by decide }
  directory := by decide
  apart := by decide
  start := by decide +kernel
  size := by decide +kernel

theorem same_write_changes_nothing :
    ∃ s', write 4 1 (fun i => if i = 0 then 0x41 else 0x42) 513 fullVolume = some (false, s') ∧
      Unchanged fullHandle fullVolume s' := by
  have run : (write 4 1 (fun i => if i = 0 then 0x41 else 0x42) 513 fullVolume).map Prod.fst =
      some false := by decide +kernel
  obtain ⟨⟨ok, s'⟩, failed, rfl⟩ := Option.map_eq_some_iff.1 run
  refine ⟨s', failed, (failed_write_unchanged_iff full_volume_stands full_volume_linked
    full_volume_on_volume rfl full_handle_matches failed).2 ⟨full_volume_taken, ?_⟩⟩
  intro handle fh p opened inside i c found _
  rw [full_volume_handles opened] at inside
  have first : p = 0 := Nat.lt_one_iff.1 inside
  obtain ⟨rfl, rfl⟩ : i = 0 ∧ 3 = c := by
    cases i with
    | zero => exact ⟨rfl, Option.some.inj found⟩
    | succ i => exact absurd found nofun
  subst first
  decide +kernel

def firstByte (s : Fat32Filesystem) : Option UInt8 :=
  (read 2 1 0 (fun _ => 0) 1 s).map fun answer => answer.1.2 0

theorem full_volume_overwritten :
    ∃ s', write 4 1 (fun _ => 0x42) 513 fullVolume = some (false, s') ∧
      (∀ d, ¬ (volumeOf fullVolume).Free d) ∧ ¬ Unchanged fullHandle fullVolume s' := by
  have run : (write 4 1 (fun _ => 0x42) 513 fullVolume).map
      (fun answer => (answer.1, firstByte answer.2)) = some (false, some 0x42) := by
    decide +kernel
  obtain ⟨⟨ok, s'⟩, failed, both⟩ := Option.map_eq_some_iff.1 run
  obtain ⟨rfl, after⟩ := Prod.mk.inj both
  refine ⟨s', failed, full_volume_taken, fun unchanged => ?_⟩
  have before : firstByte fullVolume = some 0x41 := by decide +kernel
  have same := congrArg (Option.map fun answer : Int × Buf => answer.2 0)
    (unchanged.reads 1 2 0 (fun _ => 0) 1 (by decide))
  rw [Option.map_map, Option.map_map] at same
  have kept : firstByte s' = firstByte fullVolume := same
  rw [after, before] at kept
  revert kept
  decide

end Result

end CassiOS.Fat32.WriteFailure
