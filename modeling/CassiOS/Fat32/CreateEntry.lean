import CassiOS.Fat32.SlotRuns
import CassiOS.Fat32.PathWalk

/-!
# Creating a directory entry

`createEntry` on the volume. The directory may grow by zeroed clusters while the search for
unused slots goes on; then only the run that was found is rewritten, slot by slot, with the
long-name slots and the short slot of the new entry.
-/

namespace CassiOS.Fat32.CreateEntry

open CassiOS.Support.PartialProgram
open CassiOS.Support.Chain
open CassiOS.Fat32.Types
open CassiOS.Fat32.Names
open CassiOS.Fat32.Device
open CassiOS.Fat32.Filesystem
open CassiOS.Fat32.VolumeModel
open CassiOS.Fat32.FatModel
open CassiOS.Fat32.FileModel
open CassiOS.Fat32.DirectoryModel
open CassiOS.Fat32.SlotRuns

set_option autoImplicit false

section Growing

variable {faults : Faults} {v u : Volume} {start : Nat} {cs extra : List Nat}

/-- The directory at `start` with the clusters `cs` got the zeroed clusters `extra` behind them,
which were free; whatever else was not free is as it was. -/
structure Grown (v : Volume) (start : Nat) (cs : List Nat) (u : Volume) (extra : List Nat) :
    Prop where
  chain : Chain u start (cs ++ extra)
  bytes : u.clusterBytes = v.clusterBytes
  count : u.fatEntryCount = v.fatEntryCount
  fresh : ∀ c ∈ extra, v.Free c
  zeroed : ∀ c ∈ extra, u.cluster c = fun _ => 0
  taken : ∀ c, u.Free c → v.Free c
  others : ∀ c, ¬ v.Free c → u.cluster c = v.cluster c ∧ (c ∉ cs → u.fat c = v.fat c)

theorem grown_refl (chain : Chain v start cs) : Grown v start cs v [] where
  chain := by
    rw [List.append_nil]
    exact chain
  bytes := rfl
  count := rfl
  fresh := fun _ => nofun
  zeroed := fun _ => nofun
  taken := fun _ free => free
  others := fun _ _ => ⟨rfl, fun _ => rfl⟩

/-- The volume after `extendDirectory` put cluster `n` behind cluster `c`. -/
def extended (v : Volume) (c n : Nat) : Volume :=
  (((v.setFat n fatEoc).setFat c n).setFat n fatEoc).putCluster n fun _ => 0

theorem extended_fat_new (c : Nat) {n : Nat} (bound : n < v.fatEntryCount) :
    (extended v c n).fat n = fatEoc := Volume.set_fat_self _ n fatEoc bound

theorem extended_fat_last {c n : Nat} (apart : c ≠ n) (small : v.fatEntryCount ≤ 0x0FFFFFF7)
    (bound : c < v.fatEntryCount) (valid : n < v.fatEntryCount) :
    (extended v c n).fat c = n := by
  have inner := Volume.set_fat_self (v.setFat n fatEoc) c n bound
  refine (Volume.set_fat_other _ n fatEoc apart).trans (inner.trans ?_)
  exact Nat.mod_eq_of_lt (by omega)

theorem extended_fat_other {c n d : Nat} (notLast : d ≠ c) (notNew : d ≠ n) :
    (extended v c n).fat d = v.fat d :=
  (Volume.set_fat_other _ n fatEoc notNew).trans
    ((Volume.set_fat_other _ c n notLast).trans (Volume.set_fat_other v n fatEoc notNew))

theorem extended_cluster_new (v : Volume) (c n : Nat) :
    (extended v c n).cluster n = fun _ => 0 := by
  funext j
  change (if n = n then fun j => if j < _ then (0 : UInt8) else 0 else _) j = 0
  rw [if_pos rfl]
  exact ite_self 0

theorem extended_cluster_other {c n d : Nat} (notNew : d ≠ n) :
    (extended v c n).cluster d = v.cluster d :=
  Volume.put_cluster_other _ n _ notNew

theorem grown_extend (grown : Grown v start cs u extra) (small : u.fatEntryCount ≤ 0x0FFFFFF7)
    {done : List Nat} {c n : Nat} (split : cs ++ extra = done ++ [c]) (free : u.Free n) :
    Grown v start cs (extended u c n) (extra ++ [n]) := by
  have chain := grown.chain
  have fresh : n ∉ cs ++ extra := fun member => chain_not_free chain member free
  have validN := free.1
  have inChain : c ∈ cs ++ extra := by
    rw [split]
    exact List.mem_append_right _ List.mem_cons_self
  have validC := chain.valid c inChain
  have apart : c ≠ n := fun same => fresh (same ▸ inChain)
  have freeV := grown.taken n free
  have nodup := follows_nodup chain.links
  constructor
  · rw [← List.append_assoc, split]
    constructor
    · have links := chain.links
      rw [split] at links nodup
      apply follows_concat links
      · intro x member
        apply extended_fat_other
        · intro same
          have others := (List.nodup_append.1 nodup).2.2
          exact others x member c List.mem_cons_self same
        · intro same
          apply fresh
          rw [split, ← same]
          exact List.mem_append_left _ member
      · exact extended_fat_last apart small validC.2 validN.2
      · exact Nat.not_le.2 (by unfold fatEoc; have := validN.2; omega)
      · exact Nat.le_of_eq (extended_fat_new c validN.2).symm
    · intro d member
      rcases List.mem_append.1 member with old | new
      · rw [← split] at old
        exact chain.valid d old
      · rw [List.mem_singleton.1 new]
        exact validN
  · exact grown.bytes
  · exact grown.count
  · intro d member
    rcases List.mem_append.1 member with old | new
    · exact grown.fresh d old
    · rw [List.mem_singleton.1 new]
      exact freeV
  · intro d member
    rcases List.mem_append.1 member with old | new
    · have notNew : d ≠ n := fun same => fresh (same ▸ List.mem_append_right _ old)
      rw [extended_cluster_other notNew]
      exact grown.zeroed d old
    · rw [List.mem_singleton.1 new]
      exact extended_cluster_new u c n
  · intro d freeD
    by_cases new : d = n
    · rw [new]
      exact freeV
    · by_cases last : d = c
      · rw [last] at freeD
        have zero := freeD.2
        rw [extended_fat_last apart small validC.2 validN.2] at zero
        have low := validN.1
        unfold fatFree at zero
        omega
      · apply grown.taken
        refine ⟨freeD.1, ?_⟩
        rw [← extended_fat_other last new]
        exact freeD.2
  · intro d used
    have notNew : d ≠ n := fun same => used (same ▸ freeV)
    obtain ⟨content, link⟩ := grown.others d used
    refine ⟨(extended_cluster_other notNew).trans content, fun outside => ?_⟩
    have notLast : d ≠ c := by
      intro same
      rw [same] at outside used
      rcases List.mem_append.1 inChain with old | new
      · exact outside old
      · exact used (grown.fresh c new)
    rw [extended_fat_other notLast notNew]
    exact link outside

theorem extend_directory_does (sure : faults.drive = false) (v : Volume) (c : Nat) (buf : Buf) :
    (∃ n buf', v.Free n ∧ Does faults (extendDirectory c buf) v (n, buf') (extended v c n)) ∨
      Does faults (extendDirectory c buf) v (0, buf) v := by
  rcases allocate_cluster_does sure v with ⟨n, free, _, run⟩ | ⟨_, run⟩
  · left
    have nonzero : n ≠ 0 := fun zero => by
      have low := free.1.1
      omega
    refine ⟨n, fun j => if j < v.clusterBytes then 0 else buf j, free, ?_⟩
    apply runs_bind run
    rw [if_neg nonzero]
    apply runs_bind (fat_set_does sure _ c n)
    apply runs_bind (fat_set_does sure _ n fatEoc)
    apply runs_bind (flush_fat_does sure _)
    intro s stands
    have size : s.bytesPerCluster = v.clusterBytes := stands.bytes
    have stored := write_cluster_does sure (v := ((v.setFat n fatEoc).setFat c n).setFat n fatEoc)
      free.1 (fun j => if j < v.clusterBytes then 0 else buf j)
    have zero : (((v.setFat n fatEoc).setFat c n).setFat n fatEoc).putCluster n
        (fun j => if j < v.clusterBytes then 0 else buf j) = extended v c n := by
      unfold extended Volume.putCluster
      congr 1
      funext d
      congr 1
      funext j
      exact ite_congr rfl (fun inside => if_pos inside) fun _ => rfl
    rw [zero] at stored
    have rest := runs_bind (f := fun _ => pure
      (n, (fun j => if j < v.clusterBytes then (0 : UInt8) else buf j : Buf)))
      stored (runs_pure _ _) s stands
    rw [← size] at rest ⊢
    exact rest
  · right
    apply runs_bind run
    rw [if_pos rfl]
    exact runs_pure _ v

end Growing

section Searching

variable {faults : Faults} {v u : Volume} {start total : Nat} {cs extra : List Nat}

/-- What the search answers: a run of `total` unused slots, in the directory as it is then. -/
def Located (v : Volume) (start : Nat) (cs : List Nat) (total : Nat) :
    Option (FreeRun × Buf) → Volume → Prop
  | none, _ => True
  | some (run, _), u => ∃ extra before behind, Grown v start cs u extra ∧
      slotsOf u (cs ++ extra) = before ++ behind ∧ RunAt before run ∧ run.length = total

theorem slot_count_pos {s : Fat32Filesystem} (stands : Stands faults s v) : 0 < slotCount v := by
  have size : v.clusterBytes = 512 * v.sectorsPerCluster := rfl
  have positive := cluster_bytes_pos stands
  unfold slotCount dirEntrySize
  omega

theorem entries_per_cluster {s : Fat32Filesystem} (stands : Stands faults s v) :
    entriesPerCluster s = slotCount v := by
  unfold entriesPerCluster slotCount
  rw [stands.bytes]

/-- A round for each cluster, and one for each unused slot that is still missing. -/
def Enough (u : Volume) (total fuel : Nat) (run : FreeRun) (rest : List Nat) : Prop :=
  rest.length + total ≤ fuel ∨
    ∃ n, rest = [n] ∧ (u.cluster n = fun _ => 0) ∧ total ≤ fuel + run.length

theorem find_free_run_total (sure : faults.drive = false) (fuel : Nat) {cluster : Nat}
    (done rest : List Nat) {run : FreeRun} (buf : Buf) (grown : Grown v start cs u extra)
    (split : cs ++ extra = done ++ rest) (ahead : Follows u.fat (fatEoc ≤ ·) cluster rest)
    (counted : RunAt (slotsOf u done) run) (short : run.length < total)
    (enough : Enough u total fuel run rest) :
    Achieves (Stands faults) (findFreeRun total fuel cluster buf run) u
      (Located v start cs total) := by
  induction fuel generalizing u extra cluster done rest run buf with
  | zero =>
      rcases enough with all | ⟨_, _, _, all⟩
      · omega
      · omega
  | succ fuel ih =>
      unfold findFreeRun
      cases rest with
      | nil =>
          have ended : fatEoc ≤ cluster := ahead
          rw [if_neg fun inside => Nat.not_le.2 inside.2 ended]
          exact achieves_pure trivial
      | cons c rest =>
          obtain ⟨rfl, goes, onward⟩ := ahead
          have valid : u.Valid cluster := grown.chain.valid cluster (by
            rw [split]
            exact List.mem_append_right _ List.mem_cons_self)
          rw [if_pos ⟨valid.1, Nat.not_le.1 goes⟩]
          apply achieves_bind (read_cluster_does valid buf)
          rintro ⟨ok, buf'⟩ u ⟨rfl, read | ⟨_, fails⟩⟩
          · cases read
            dsimp only
            rw [if_pos rfl]
            apply achieves_read
            intro s stands
            have searched := scan_free_spec cluster total
              (overlay u.clusterBytes (u.cluster cluster) buf) (slotCount u) 0 counted short
            have slots : ∀ m ≤ slotCount u,
                slotsFrom cluster (overlay u.clusterBytes (u.cluster cluster) buf) m 0 =
                  slotsFrom cluster (u.cluster cluster) m 0 := fun m low =>
              slots_from_bytes fun j inside =>
                if_pos (slot_bytes_inside (by omega) inside)
            have small : u.fatEntryCount ≤ 0x0FFFFFF7 := stands.count ▸ stands.layout.entries
            rw [entries_per_cluster stands]
            revert searched
            rcases scanFree cluster total (overlay u.clusterBytes (u.cluster cluster) buf)
              (slotCount u) 0 run with ⟨run', found⟩
            cases found with
            | true =>
                rintro ⟨m, low, at_, whole⟩
                rw [slots m low] at at_
                apply achieves_pure
                refine ⟨extra, _, slotsFrom cluster (u.cluster cluster) (slotCount u - m) m ++
                  slotsOf u rest, grown, ?_, at_, whole⟩
                have all := slots_from_append cluster (u.cluster cluster) m (slotCount u - m) 0
                rw [Nat.add_sub_cancel' low, Nat.zero_add] at all
                rw [split, slots_of_append, slots_of_cons, all]
                simp only [List.append_assoc]
            | false =>
                rintro ⟨at_, short'⟩
                rw [slots _ (Nat.le_refl _)] at at_
                have here : slotsOf u (done ++ [cluster]) = slotsOf u done ++
                    slotsFrom cluster (u.cluster cluster) (slotCount u) 0 := by
                  rw [slots_of_append, slots_of_cons]
                  exact congrArg _ (List.append_nil _)
                have at' := at_
                rw [← here] at at'
                have split' : cs ++ extra = done ++ [cluster] ++ rest := by
                  rw [split, List.append_assoc]
                  rfl
                apply achieves_bind_runs (fat_get_sure sure u cluster)
                by_cases last : fatEoc ≤ u.fat cluster
                · rw [if_pos last]
                  have none : rest = [] := by
                    cases rest with
                    | nil => rfl
                    | cons d rest => exact absurd (onward.1 ▸ last) onward.2.1
                  subst none
                  rw [List.append_nil] at split'
                  rcases extend_directory_does sure u cluster
                    (overlay u.clusterBytes (u.cluster cluster) buf) with
                    ⟨n, buf'', free, extend⟩ | full
                  · apply achieves_bind_runs extend
                    have nonzero : n ≠ 0 := fun zero => by
                      have low := free.1.1
                      omega
                    dsimp only
                    rw [if_neg nonzero]
                    have grown' := grown_extend grown small split' free
                    have fresh : n ∉ done ++ [cluster] := by
                      rw [← split']
                      exact fun member => chain_not_free grown.chain member free
                    apply ih (done ++ [cluster]) [n] buf'' grown'
                    · rw [← List.append_assoc, split']
                    · refine ⟨rfl, Nat.not_le.2 (valid_below_eoc stands free.1), ?_⟩
                      exact Nat.le_of_eq (extended_fat_new cluster free.1.2).symm
                    · rw [slots_of_congr (w := extended u cluster n) (v := u) rfl fun d member =>
                        extended_cluster_other fun same => fresh (same ▸ member)]
                      exact at'
                    · exact short'
                    · right
                      refine ⟨n, rfl, extended_cluster_new u cluster n, ?_⟩
                      rcases enough with all | ⟨m, only, zeroed, all⟩
                      · rw [List.length_singleton] at all
                        omega
                      · cases only
                        rw [zeroed] at at_
                        have grew := run_at_length at_ fun slot => zeroed_unused
                        rw [← counted.length, slots_from_length] at grew
                        have positive := slot_count_pos stands
                        omega
                  · apply achieves_bind_runs full
                    exact achieves_pure trivial
                · rw [if_neg last]
                  apply ih (done ++ [cluster]) rest _ grown split' onward at' short'
                  rcases enough with all | ⟨m, only, _, _⟩
                  · left
                    rw [List.length_cons] at all
                    omega
                  · cases only
                    exact absurd onward last
          · rw [sure] at fails
            cases fails

end Searching

section Writing

variable {faults : Faults} {v u : Volume} {start : Nat} {cs : List Nat}

/-- Only clusters of `cs` have changed. -/
structure Rewrites (v w : Volume) (cs : List Nat) : Prop where
  fat : w.fat = v.fat
  count : w.fatEntryCount = v.fatEntryCount
  bytes : w.clusterBytes = v.clusterBytes
  others : ∀ c, c ∉ cs → w.cluster c = v.cluster c

theorem rewrites_refl (v : Volume) (cs : List Nat) : Rewrites v v cs :=
  ⟨rfl, rfl, rfl, fun _ _ => rfl⟩

theorem rewrites_trans {w : Volume} (first : Rewrites v u cs) (second : Rewrites u w cs) :
    Rewrites v w cs where
  fat := second.fat.trans first.fat
  count := second.count.trans first.count
  bytes := second.bytes.trans first.bytes
  others := fun c outside => (second.others c outside).trans (first.others c outside)

theorem rewrites_put {c : Nat} (member : c ∈ cs) (v : Volume) (buf : Buf) :
    Rewrites v (v.putCluster c buf) cs where
  fat := rfl
  count := rfl
  bytes := rfl
  others := fun _ outside =>
    Volume.put_cluster_other v c buf fun same => outside (same ▸ member)

theorem rewrites_chain {w : Volume} (rewrites : Rewrites v w cs) {ds : List Nat}
    (chain : Chain v start ds) : Chain w start ds where
  links := by
    rw [rewrites.fat]
    exact chain.links
  valid := by
    intro c member
    obtain ⟨low, high⟩ := chain.valid c member
    exact ⟨low, rewrites.count ▸ high⟩

/-- The long-name slots in the order of `writeLfnSlots`. -/
def longSlots (name : List UInt8) (checksum : UInt8) : Nat → List DirEntry
  | 0 => []
  | seq + 1 => lfnSlot name checksum (seq + 1) :: longSlots name checksum seq

theorem write_lfn_slots_does (sure : faults.drive = false) (name : List UInt8) (checksum : UInt8)
    (seq : Nat) {cursor : Cursor} {before ahead : List Slot} (chain : Chain v start cs)
    (standing : Standing v cs cursor before ahead) (room : seq < ahead.length) :
    Achieves (Stands faults) (writeLfnSlots name checksum seq cursor) v fun answer w =>
      ∃ cursor', answer = some cursor' ∧ Rewrites v w cs ∧
        Standing w cs cursor' (before ++ List.zipWith put ahead (longSlots name checksum seq))
          (ahead.drop seq) := by
  induction seq generalizing v cursor before ahead with
  | zero =>
      apply achieves_pure
      refine ⟨cursor, rfl, rewrites_refl v cs, ?_⟩
      rw [longSlots, List.zipWith_nil_right, List.append_nil]
      exact standing
  | succ seq ih =>
      obtain ⟨slot, slot', rest, rfl⟩ : ∃ slot slot' rest, ahead = slot :: slot' :: rest := by
        rcases ahead with _ | ⟨slot, _ | ⟨slot', rest⟩⟩
        · cases room
        · exact absurd room (by rw [List.length_singleton]; omega)
        · exact ⟨slot, slot', rest, rfl⟩
      have room' : seq < (slot' :: rest).length := Nat.lt_of_succ_lt_succ room
      have shape : before ++ List.zipWith put (slot :: slot' :: rest)
          (longSlots name checksum (seq + 1)) =
          before ++ [put slot (lfnSlot name checksum (seq + 1))] ++
            List.zipWith put (slot' :: rest) (longSlots name checksum seq) := by
        rw [longSlots, List.zipWith_cons_cons, List.append_cons]
      rw [shape, List.drop_succ_cons]
      unfold writeLfnSlots
      intro s stands
      dsimp only
      rw [entries_per_cluster stands]
      by_cases last : slotCount v ≤ cursor.writeIdx + 1
      · rw [if_pos last]
        obtain ⟨offset, cs₁, cs₂, same⟩ := standing_turn standing last
        have stored := standing_stored standing (lfnSlot name checksum (seq + 1))
          (follows_nodup chain.links)
        have links := chain.links
        rw [same] at links
        obtain ⟨_, _, onward⟩ := follows_suffix links
        have here : cursor.cluster ∈ cs := by
          rw [same]
          exact List.mem_append_right _ List.mem_cons_self
        have next : slot'.cluster ∈ cs := by
          rw [same]
          exact List.mem_append_right _ (List.mem_cons_of_mem _ List.mem_cons_self)
        have put_ := rewrites_put here v
          (setSlot cursor.buf cursor.writeIdx (lfnSlot name checksum (seq + 1)))
        refine achieves_bind_runs (write_cluster_does sure (chain.valid _ here) _) ?_ s stands
        apply achieves_bind_runs (fat_get_sure sure _ _)
        rw [Volume.fat_put_cluster, onward.1]
        apply achieves_bind (read_cluster_does ((rewrites_chain put_ chain).valid _ next) _)
        rintro ⟨ok, buf⟩ w ⟨rfl, read | ⟨_, fails⟩⟩
        · cases read
          dsimp only
          rw [if_pos rfl]
          rw [List.append_cons] at stored
          apply (ih (rewrites_chain put_ chain)
            (standing_of_split stored offset fun j inside => if_pos inside) room').mono
          rintro answer w ⟨cursor', rfl, rewrites, standing'⟩
          exact ⟨cursor', rfl, rewrites_trans put_ rewrites, standing'⟩
        · rw [sure] at fails
          cases fails
      · rw [if_neg last]
        exact ih chain (standing_next standing _ (Nat.lt_of_not_le last)) room' s stands

end Writing

section ShortSlot

variable {faults : Faults} {v u : Volume} {start : Nat} {cs : List Nat}

theorem short_slot_zero (short : List UInt8) (kind : UInt8) :
    setFirstCluster (shortSlot short kind) 0 = shortSlot short kind := by
  funext k
  unfold setFirstCluster shortSlot
  split
  · next same => rw [same]; rfl
  split
  · next same => rw [same]; rfl
  split
  · next same => rw [same]; rfl
  split
  · next same => rw [same]; rfl
  rfl

theorem init_directory_does (sure : faults.drive = false) (v : Volume) (dirCluster : Nat) :
    Achieves (Stands faults) (initDirectory dirCluster) v fun answer w =>
      ∀ content, answer = some content → v.Free content ∧
        ∃ buf, w = (v.setFat content fatEoc).putCluster content buf := by
  unfold initDirectory
  rcases allocate_cluster_does sure v with ⟨n, free, _, run⟩ | ⟨_, run⟩
  · apply achieves_bind_runs run
    have nonzero : n ≠ 0 := fun zero => by
      have low := free.1.1
      omega
    rw [if_neg nonzero]
    apply achieves_bind (heap_alloc_does _)
    rintro (_ | block) w ⟨rfl, _⟩
    · exact achieves_pure fun _ => nofun
    · dsimp only
      apply achieves_get
      intro s stands
      apply achieves_bind_runs (write_cluster_does sure (v := v.setFat n fatEoc) free.1 _)
      apply achieves_bind_runs (flush_fat_does sure _)
      apply achieves_pure
      intro content same
      cases same
      exact ⟨free, _, rfl⟩
  · apply achieves_bind_runs run
    rw [if_pos rfl]
    exact achieves_pure fun _ => nofun

structure Kept (u w : Volume) : Prop where
  bytes : w.clusterBytes = u.clusterBytes
  count : w.fatEntryCount = u.fatEntryCount
  same : ∀ c, ¬ u.Free c → w.cluster c = u.cluster c ∧ w.fat c = u.fat c

theorem kept_refl (u : Volume) : Kept u u := ⟨rfl, rfl, fun _ _ => ⟨rfl, rfl⟩⟩

theorem kept_taken {n : Nat} (free : u.Free n) (buf : Buf) :
    Kept u ((u.setFat n fatEoc).putCluster n buf) where
  bytes := rfl
  count := rfl
  same := by
    intro c used
    have other : c ≠ n := fun same => used (same ▸ free)
    exact ⟨Volume.put_cluster_other _ n buf other, Volume.set_fat_other u n fatEoc other⟩

theorem kept_chain {w : Volume} (kept : Kept u w) (chain : Chain u start cs) :
    Chain w start cs where
  links := follows_congr chain.links fun c member =>
    (kept.same c (chain_not_free chain member)).2
  valid := by
    intro c member
    obtain ⟨low, high⟩ := chain.valid c member
    exact ⟨low, kept.count ▸ high⟩

/-- The short slot is written where the cursor stands. -/
structure Finished (u : Volume) (start : Nat) (cs : List Nat) (short : List UInt8) (kind : UInt8)
    (before rest : List Slot) (slot : Slot) (w : Volume) : Prop where
  chain : Chain w start cs
  slots : ∃ content, slotsOf w cs =
    before ++ put slot (setFirstCluster (shortSlot short kind) content) :: rest
  others : ∀ c, c ∉ cs → ¬ u.Free c → w.cluster c = u.cluster c ∧ w.fat c = u.fat c

/-- The first cluster of a new entry: for a directory one that was free and now is a chain of its
own, else none. -/
def OwnContent (u w : Volume) (kind : UInt8) (content : Nat) : Prop :=
  if kind &&& DirAttr.directory != 0 then u.Free content ∧ w.fat content = fatEoc
  else content = 0

/-- The short slot has been written with the first cluster `content`. -/
structure Placed (u : Volume) (start : Nat) (cs : List Nat) (short : List UInt8) (kind : UInt8)
    (before rest : List Slot) (slot : Slot) (content : Nat) (w : Volume) : Prop where
  finished : Finished u start cs short kind before rest slot w
  slots : slotsOf w cs =
    before ++ put slot (setFirstCluster (shortSlot short kind) content) :: rest
  count : w.fatEntryCount = u.fatEntryCount
  own : OwnContent u w kind content

theorem own_content_of_free {w : Volume} {kind : UInt8} {content : Nat}
    (free : ∀ c, u.Free c → v.Free c) (own : OwnContent u w kind content) :
    OwnContent v w kind content := by
  unfold OwnContent at own ⊢
  split
  · next directory =>
    rw [if_pos directory] at own
    exact ⟨free content own.1, own.2⟩
  · next directory =>
    rw [if_neg directory] at own
    exact own

theorem own_content_apart (chain : Chain u start cs) {w : Volume} {kind : UInt8} {content : Nat}
    (own : OwnContent u w kind content) : content ∉ cs := by
  intro member
  unfold OwnContent at own
  split at own
  · exact chain_not_free chain member own.1
  · have low := (chain.valid content member).1
    omega

variable {cursor : Cursor} {before rest : List Slot} {slot : Slot}

theorem store_short_slot_does (sure : faults.drive = false) (short : List UInt8) (kind : UInt8)
    (chain : Chain u start cs) (standing : Standing u cs cursor before (slot :: rest))
    {w : Volume} (kept : Kept u w) {content : Nat} (own : OwnContent u w kind content) :
    Achieves (Stands faults) (do
      let _ ← writeCluster cursor.cluster
        (setSlot cursor.buf cursor.writeIdx (setFirstCluster (shortSlot short kind) content))
      pure (some (cursor.cluster, cursor.writeIdx * dirEntrySize))) w fun answer w =>
        answer = some (place slot) ∧ Placed u start cs short kind before rest slot content w := by
  have chain' := kept_chain kept chain
  have standing' := standing_congr standing kept.bytes fun c member =>
    (kept.same c (chain_not_free chain member)).1
  have here : cursor.cluster ∈ cs := by
    obtain ⟨cs₁, cs₂, same, _⟩ := standing.cut
    rw [same]
    exact List.mem_append_right _ List.mem_cons_self
  have rewrites := rewrites_put here w
    (setSlot cursor.buf cursor.writeIdx (setFirstCluster (shortSlot short kind) content))
  apply achieves_bind_runs (write_cluster_does sure (chain'.valid _ here) _)
  have stored := standing_stored standing' (setFirstCluster (shortSlot short kind) content)
    (follows_nodup chain.links)
  apply achieves_pure
  refine ⟨by rw [standing.head], ⟨rewrites_chain rewrites chain', ⟨content, stored⟩, ?_⟩, stored,
    kept.count, own⟩
  intro c outside used
  obtain ⟨bytes, link⟩ := kept.same c used
  exact ⟨(rewrites.others c outside).trans bytes, link⟩

theorem write_short_slot_does (sure : faults.drive = false) (dirCluster : Nat)
    (short : List UInt8) (kind : UInt8) (chain : Chain u start cs)
    (standing : Standing u cs cursor before (slot :: rest)) :
    Achieves (Stands faults) (writeShortSlot dirCluster short kind cursor) u fun answer w =>
      ∀ at_, answer = some at_ →
        at_ = place slot ∧ ∃ content, Placed u start cs short kind before rest slot content w := by
  have finish := fun {w : Volume} (kept : Kept u w) {content : Nat}
      (own : OwnContent u w kind content) =>
    (store_short_slot_does sure short kind chain standing kept own).mono
      (Q := fun answer w => ∀ at_, answer = some at_ → at_ = place slot ∧
        ∃ content, Placed u start cs short kind before rest slot content w)
      fun _ _ ⟨here, placed⟩ at_ same =>
        ⟨(Option.some.inj (here.symm.trans same)).symm, content, placed⟩
  unfold writeShortSlot
  dsimp only
  by_cases directory : (kind &&& DirAttr.directory != 0) = true
  · rw [if_pos directory]
    apply achieves_bind (init_directory_does sure u dirCluster)
    rintro (_ | content) w found
    · exact achieves_pure fun _ => nofun
    · obtain ⟨free, buf, rfl⟩ := found content rfl
      apply finish (kept_taken free buf)
      unfold OwnContent
      rw [if_pos directory]
      exact ⟨free, Volume.set_fat_self u content fatEoc free.1.2⟩
  · rw [if_neg directory]
    have own : OwnContent u u kind 0 := by
      unfold OwnContent
      rw [if_neg directory]
    have here := finish (kept_refl u) own
    rw [short_slot_zero] at here
    exact here

end ShortSlot

section Bytes

variable {name : List UInt8}

theorem short_name_set_first_cluster (e : DirEntry) (content : Nat) :
    shortName (setFirstCluster e content) = shortName e := rfl

theorem short_name_short_slot {short : List UInt8} (whole : short.length = 11) (kind : UInt8) :
    shortName (shortSlot short kind) = short := by
  apply List.ext_getElem
  · rw [whole]
    rfl
  · intro k low high
    have small : k < 11 := whole ▸ high
    unfold shortName shortSlot
    simp only [List.getElem_map, List.getElem_finRange, Fin.val_cast, Fin.val_castLE,
      List.getD_eq_getElem?_getD, List.getElem?_eq_getElem high, Option.getD_some]
    exact if_pos small

theorem short_base_length (name : List UInt8) : (shortBase name).length ≤ 8 := by
  unfold shortBase
  dsimp only
  split
  · rw [List.length_append, List.length_take]
    have two : [charTilde, 0x31 + UInt8.ofNat (name.length % 9)].length = 2 := rfl
    omega
  · rw [List.length_map, List.length_take]
    omega

theorem short_extension_length (name : List UInt8) : (shortExtension name).length ≤ 3 := by
  unfold shortExtension
  split
  · decide
  · rw [List.length_map, List.length_take]
    omega

theorem pad_spaces_length {width : Nat} {field : List UInt8} (fits : field.length ≤ width) :
    (padSpaces width field).length = width := by
  unfold padSpaces
  rw [List.length_append, List.length_replicate]
  omega

theorem name_to_short_length (name : List UInt8) : (nameToShort name).length = 11 := by
  unfold nameToShort
  rw [List.length_append, pad_spaces_length (short_base_length name),
    pad_spaces_length (short_extension_length name)]

/-- Neither mark of an unused slot. -/
def Live (b : UInt8) : Prop := b ≠ dirEntryEnd ∧ b ≠ dirEntryFree

theorem upper_live {c : UInt8} (ascii : 1 ≤ c ∧ c ≤ 0x7F) : Live (toUpper c) := by
  have all : ∀ n : Fin 256, 1 ≤ n.val → n.val ≤ 127 → Live (toUpper (UInt8.ofNat n.val)) := by
    unfold Live
    decide +kernel
  have low := UInt8.le_iff_toNat_le.1 ascii.1
  have high := UInt8.le_iff_toNat_le.1 ascii.2
  have same : UInt8.ofNat c.toNat = c := UInt8.ofNat_toNat
  rw [← same]
  exact all ⟨c.toNat, c.toNat_lt⟩ low high

theorem tail_digit {P : UInt8 → Prop} (digit : ∀ n : Fin 9, P (0x31 + UInt8.ofNat n.val))
    (n : Nat) :
    P (0x31 + UInt8.ofNat (n % 9)) := digit ⟨n % 9, Nat.mod_lt n (by decide)⟩

theorem short_base_bytes {P : UInt8 → Prop} (upper : ∀ c ∈ name, P (toUpper c))
    (tilde : P charTilde) (digit : ∀ n : Fin 9, P (0x31 + UInt8.ofNat n.val)) :
    ∀ b ∈ shortBase name, P b := by
  have stored : ∀ b ∈ (((name.take ((lastDot name).getD name.length)).filter
      fun c => c != charSpace && c != charDot).take 8).map toUpper, P b := by
    intro b member
    obtain ⟨c, kept, rfl⟩ := List.mem_map.1 member
    exact upper c (List.mem_of_mem_take (List.mem_filter.1 (List.mem_of_mem_take kept)).1)
  intro b member
  unfold shortBase at member
  dsimp only at member
  split at member
  · rcases List.mem_append.1 member with front | tail
    · exact stored b (List.mem_of_mem_take front)
    · rcases List.mem_cons.1 tail with rfl | last
      · exact tilde
      · rw [List.mem_singleton.1 last]
        exact tail_digit digit name.length
  · exact stored b member

theorem name_to_short_first {P : UInt8 → Prop} (upper : ∀ c ∈ name, P (toUpper c))
    (tilde : P charTilde) (digit : ∀ n : Fin 9, P (0x31 + UInt8.ofNat n.val))
    (space : P charSpace) : P ((nameToShort name).getD 0 charSpace) := by
  have bytes := short_base_bytes upper tilde digit
  unfold nameToShort padSpaces
  cases base : shortBase name with
  | nil => exact space
  | cons b rest =>
      rw [base] at bytes
      exact bytes b List.mem_cons_self

theorem name_to_short_live (ascii : ∀ c ∈ name, 1 ≤ c ∧ c ≤ 0x7F) :
    Live ((nameToShort name).getD 0 charSpace) := by
  apply name_to_short_first
  · exact fun c member => upper_live (ascii c member)
  · exact ⟨by decide, by decide⟩
  · unfold Live
    decide
  · exact ⟨by decide, by decide⟩

theorem name_to_short_nonzero (clean : ∀ c ∈ name, c ≠ 0) :
    (nameToShort name).getD 0 charSpace ≠ dirEntryEnd := by
  have all : ∀ n : Fin 256, n.val ≠ 0 → toUpper (UInt8.ofNat n.val) ≠ dirEntryEnd := by
    decide +kernel
  apply name_to_short_first (P := (· ≠ dirEntryEnd))
  · intro c member
    have same : UInt8.ofNat c.toNat = c := UInt8.ofNat_toNat
    rw [← same]
    exact all ⟨c.toNat, c.toNat_lt⟩ fun zero => clean c member (UInt8.toNat_inj.1 zero)
  · decide
  · decide
  · decide

theorem lfn_order_live {k seq : Nat} (positive : 0 < seq) (small : seq ≤ 20) :
    Live (if seq = k then UInt8.ofNat seq ||| UInt8.ofNat lfnLastEntry else UInt8.ofNat seq) := by
  have all : ∀ n : Fin 21, 0 < n.val → Live (UInt8.ofNat n.val ||| UInt8.ofNat lfnLastEntry) ∧
      Live (UInt8.ofNat n.val) := by
    unfold Live
    decide
  obtain ⟨marked, plain⟩ := all ⟨seq, by omega⟩ positive
  split
  · exact marked
  · exact plain

end Bytes

section Runs

variable {name : List UInt8} {v u : Volume} {start : Nat} {cs extra : List Nat}

/-- The slots of an entry: those of a long name in descending order, the first of them marked,
all with the checksum of the short slot behind them. -/
structure FreshRun (name : List UInt8) (kind : UInt8) (run : List DirEntry) : Prop where
  shape : ∃ longs short, run = longs ++ [short] ∧
    longs.length = (if needsLfn name then lfnCount name else 0) ∧
    (∀ i e, longs[i]? = some e →
      lfnOrder e = (if i = 0 then UInt8.ofNat longs.length ||| 0x40
        else UInt8.ofNat (longs.length - i)) ∧
      attr e = 0x0F ∧ lfnChecksumField e = lfnChecksum (shortName short)) ∧
    shortName short = nameToShort name ∧ attr short = kind
  live : ∀ e ∈ run, isEnd e = false ∧ isFree e = false

/-- Behind an end mark there are only unused slots. -/
def EndsOnce (slots : List Slot) : Prop :=
  slots.Pairwise fun mark slot => isEnd mark.entry = true → unused slot = true

theorem long_slots_length (name : List UInt8) (checksum : UInt8) (seq : Nat) :
    (longSlots name checksum seq).length = seq := by
  induction seq with
  | zero => rfl
  | succ seq ih => exact congrArg Nat.succ ih

theorem long_slots_get {checksum : UInt8} {seq i : Nat} {e : DirEntry}
    (found : (longSlots name checksum seq)[i]? = some e) :
    i < seq ∧ e = lfnSlot name checksum (seq - i) := by
  induction seq generalizing i with
  | zero => cases found
  | succ seq ih =>
      cases i with
      | zero =>
          cases found
          exact ⟨Nat.succ_pos seq, rfl⟩
      | succ i =>
          obtain ⟨inside, same⟩ := ih found
          refine ⟨Nat.succ_lt_succ inside, ?_⟩
          rw [Nat.add_sub_add_right]
          exact same

theorem live_marks {e : DirEntry} (live : Live (e 0)) : isEnd e = false ∧ isFree e = false :=
  ⟨beq_eq_false_iff_ne.2 live.1, beq_eq_false_iff_ne.2 live.2⟩

theorem lfn_count_small (short : name.length ≤ 255) : lfnCount name ≤ 20 := by
  unfold lfnCount lfnCharsPerEntry
  omega

theorem long_slots_live (short : name.length ≤ 255) (checksum : UInt8) {e : DirEntry}
    (member : e ∈ longSlots name checksum (if needsLfn name then lfnCount name else 0)) :
    isEnd e = false ∧ isFree e = false := by
  have small := lfn_count_small short
  obtain ⟨i, found⟩ := List.mem_iff_getElem?.1 member
  obtain ⟨inside, rfl⟩ := long_slots_get found
  apply live_marks
  split at inside
  · exact lfn_order_live (by split <;> omega) (by split <;> omega)
  · omega

theorem written_fresh_run (short : name.length ≤ 255) (ascii : ∀ c ∈ name, 1 ≤ c ∧ c ≤ 0x7F)
    (kind : UInt8) (content : Nat) :
    FreshRun name kind (longSlots name (lfnChecksum (nameToShort name))
        (if needsLfn name then lfnCount name else 0) ++
      [setFirstCluster (shortSlot (nameToShort name) kind) content]) := by
  have whole := name_to_short_length name
  have shortSame : shortName (setFirstCluster (shortSlot (nameToShort name) kind) content) =
      nameToShort name :=
    (short_name_set_first_cluster _ content).trans (short_name_short_slot whole kind)
  constructor
  · refine ⟨_, _, rfl, long_slots_length .., ?_, shortSame, rfl⟩
    intro i e found
    rw [long_slots_length, shortSame]
    by_cases long : needsLfn name = true
    · rw [if_pos long] at found ⊢
      obtain ⟨inside, rfl⟩ := long_slots_get found
      refine ⟨?_, rfl, rfl⟩
      change (if lfnCount name - i = lfnCount name then _ else _) = _
      by_cases first : i = 0
      · rw [if_pos first, first, Nat.sub_zero, if_pos rfl]
        rfl
      · rw [if_neg first, if_neg (by omega)]
    · rw [if_neg long] at found
      cases found
  · intro e member
    rcases List.mem_append.1 member with long | last
    · exact long_slots_live short _ long
    · rw [List.mem_singleton.1 last]
      exact live_marks (name_to_short_live ascii)

/-- None of them is an end mark, whatever bytes are in the name. -/
theorem written_not_end (short : name.length ≤ 255) (clean : ∀ c ∈ name, c ≠ 0) (kind : UInt8)
    (content : Nat) {e : DirEntry} (member : e ∈ longSlots name (lfnChecksum (nameToShort name))
      (if needsLfn name then lfnCount name else 0) ++
        [setFirstCluster (shortSlot (nameToShort name) kind) content]) : isEnd e = false := by
  rcases List.mem_append.1 member with long | last
  · exact (long_slots_live short _ long).1
  · rw [List.mem_singleton.1 last]
    exact beq_eq_false_iff_ne.2 (name_to_short_nonzero clean)

def zeroSlots (v : Volume) (extra : List Nat) : List Slot :=
  extra.flatMap fun c => slotsFrom c (fun _ => 0) (slotCount v) 0

theorem grown_slots (grown : Grown v start cs u extra) (chain : Chain v start cs) :
    slotsOf u (cs ++ extra) = slotsOf v cs ++ zeroSlots v extra := by
  have count : slotCount u = slotCount v := by
    unfold slotCount
    rw [grown.bytes]
  rw [slots_of_append, slots_of_congr grown.bytes fun c member =>
    (grown.others c (chain_not_free chain member)).1]
  congr 1
  apply List.flatMap_congr
  intro c member
  rw [grown.zeroed c member, count]

theorem zero_slots_unused {slot : Slot} (member : slot ∈ zeroSlots v extra) :
    unused slot = true := by
  obtain ⟨c, _, here⟩ := List.mem_flatMap.1 member
  exact zeroed_unused here

theorem ends_once_append {front back : List Slot} (ended : EndsOnce front)
    (free : ∀ slot ∈ back, unused slot = true) : EndsOnce (front ++ back) := by
  apply List.pairwise_append.2
  refine ⟨ended, ?_, fun _ _ slot member _ => free slot member⟩
  exact List.pairwise_of_forall_mem_list fun _ _ slot member _ => free slot member

theorem end_unused {slot : Slot} (marked : isEnd slot.entry = true) : unused slot = true := by
  unfold unused
  rw [marked]
  rfl

/-- Before a run that begins behind a used slot there is no end mark. -/
theorem no_end_before {front behind : List Slot}
    (ended : EndsOnce (front.rdropWhile unused ++ behind)) :
    ∀ slot ∈ front.rdropWhile unused, isEnd slot.entry = false := by
  intro slot member
  by_contra mark
  have marked : isEnd slot.entry = true := Bool.eq_true_of_not_eq_false mark
  have nonempty : front.rdropWhile unused ≠ [] := List.ne_nil_of_mem member
  have used := List.rdropWhile_last_not unused front nonempty
  apply used
  have whole := List.dropLast_append_getLast nonempty
  rw [← whole] at member
  rcases List.mem_append.1 member with earlier | last
  · have inner := (List.pairwise_append.1 ended).1
    rw [← whole] at inner
    exact (List.pairwise_append.1 inner).2.2 slot earlier _ List.mem_cons_self marked
  · rw [List.mem_singleton.1 last] at marked
    exact end_unused marked

/-- Where no end mark is before a run, rewriting the run moves the first one behind it. -/
theorem ends_once_rewritten {before run written behind : List Slot}
    (ended : EndsOnce (before ++ (run ++ behind)))
    (noEnd : ∀ slot ∈ before, isEnd slot.entry = false)
    (marked : ∀ slot ∈ written, isEnd slot.entry = false) :
    EndsOnce (before ++ (written ++ behind)) := by
  obtain ⟨inFront, inRest, _⟩ := List.pairwise_append.1 ended
  have absurdMark : ∀ {slot slot' : Slot}, isEnd slot.entry = false →
      isEnd slot.entry = true → unused slot' = true := by
    intro slot slot' none mark
    rw [none] at mark
    cases mark
  apply List.pairwise_append.2
  refine ⟨inFront, ?_, fun slot member _ _ => absurdMark (noEnd slot member)⟩
  apply List.pairwise_append.2
  refine ⟨?_, (List.pairwise_append.1 inRest).2.1, fun slot member _ _ =>
    absurdMark (marked slot member)⟩
  exact List.pairwise_of_forall_mem_list fun slot member _ _ => absurdMark (marked slot member)

end Runs

section Creating

variable {faults : Faults} {v : Volume} {start : Nat} {cs : List Nat} {name : List UInt8}
  {kind : UInt8}

/-- `run` between `before` and `behind` has been replaced by `written` in the directory, which
has the clusters `extra` more than before. -/
structure Created (v : Volume) (start : Nat) (cs : List Nat) (name : List UInt8) (kind : UInt8)
    (at_ : Nat × Nat) (w : Volume) (extra : List Nat) (before run written behind : List Slot) :
    Prop where
  chain : Chain w start (cs ++ extra)
  fresh : ∀ c ∈ extra, v.Free c
  old : slotsOf v cs ++ zeroSlots v extra = before ++ (run ++ behind)
  new : slotsOf w (cs ++ extra) = before ++ (written ++ behind)
  unused : ∀ slot ∈ run, unused slot = true
  places : written.map place = run.map place
  entries : FreshRun name kind (written.map Slot.entry)
  short : (written.map place).getLast? = some at_
  ended : EndsOnce (slotsOf w (cs ++ extra))
  others : ∀ c, c ∉ cs → ¬ v.Free c → w.cluster c = v.cluster c ∧ w.fat c = v.fat c

theorem zip_put_places {slots : List Slot} {es : List DirEntry} (same : slots.length = es.length) :
    (List.zipWith put slots es).map place = slots.map place := by
  induction slots generalizing es with
  | nil => rfl
  | cons slot slots ih =>
      cases es with
      | nil => cases same
      | cons e es => exact congrArg (List.cons (place slot)) (ih (Nat.succ.inj same))

theorem zip_put_entries {slots : List Slot} {es : List DirEntry}
    (same : slots.length = es.length) : (List.zipWith put slots es).map Slot.entry = es := by
  induction slots generalizing es with
  | nil =>
      cases es with
      | nil => rfl
      | cons e es => cases same
  | cons slot slots ih =>
      cases es with
      | nil => cases same
      | cons e es => exact congrArg (List.cons e) (ih (Nat.succ.inj same))

theorem run_split {front : List Slot} {run : FreeRun} {n : Nat} (counted : RunAt front run)
    (behind : List Slot) (whole : run.length = n + 1) :
    ∃ init last, front.rtakeWhile unused = init ++ [last] ∧ init.length = n ∧
      ∃ slot rest, init ++ last :: behind = slot :: rest ∧
        place slot = (run.cluster, run.idx * dirEntrySize) := by
  have length := counted.length
  have first := counted.first
  rcases List.eq_nil_or_concat (front.rtakeWhile unused) with none | ⟨init, last, tail⟩
  · rw [none, whole] at length
    cases length
  · rw [List.concat_eq_append] at tail
    rw [tail, whole, List.length_append, List.length_singleton] at length
    rw [tail] at first
    refine ⟨init, last, tail, by omega, ?_⟩
    cases init with
    | nil => exact ⟨last, behind, rfl, first last rfl⟩
    | cons slot init => exact ⟨slot, init ++ last :: behind, rfl, first slot rfl⟩

theorem zip_put_append {slots : List Slot} {es : List DirEntry}
    (same : slots.length = es.length) (more : List Slot) :
    List.zipWith put (slots ++ more) es = List.zipWith put slots es := by
  have parts := @List.zipWith_append _ _ _ put slots more es [] same
  rw [List.append_nil, List.zipWith_nil_right, List.append_nil] at parts
  exact parts

/-- What `createEntry` has written, for any name: the run between `before` and `behind` now holds
the slots of the entry, whose first cluster is `content`. -/
structure Written (v : Volume) (start : Nat) (cs : List Nat) (name : List UInt8) (kind : UInt8)
    (at_ : Nat × Nat) (w : Volume) (extra : List Nat) (before run written behind : List Slot)
    (content : Nat) : Prop where
  chain : Chain w start (cs ++ extra)
  count : w.fatEntryCount = v.fatEntryCount
  fresh : ∀ c ∈ extra, v.Free c
  old : slotsOf v cs ++ zeroSlots v extra = before ++ (run ++ behind)
  new : slotsOf w (cs ++ extra) = before ++ (written ++ behind)
  noEnd : EndsOnce (slotsOf v cs) → ∀ slot ∈ before, isEnd slot.entry = false
  unused : ∀ slot ∈ run, unused slot = true
  places : written.map place = run.map place
  entries : written.map Slot.entry = longSlots name (lfnChecksum (nameToShort name))
    (if needsLfn name then lfnCount name else 0) ++
      [setFirstCluster (shortSlot (nameToShort name) kind) content]
  short : (written.map place).getLast? = some at_
  others : ∀ c, c ∉ cs → ¬ v.Free c → w.cluster c = v.cluster c ∧ w.fat c = v.fat c
  own : OwnContent v w kind content
  apart : content ∉ cs ++ extra

theorem written_of_parts (chain : Chain v start cs) {u w : Volume}
    {extra : List Nat} (grown : Grown v start cs u extra) {front init behind : List Slot}
    {last : Slot}
    (sequence : slotsOf u (cs ++ extra) =
      front.rdropWhile unused ++ (init ++ last :: behind))
    (same : init.length = (longSlots name (lfnChecksum (nameToShort name))
      (if needsLfn name then lfnCount name else 0)).length)
    (tail : front.rtakeWhile unused = init ++ [last]) {content : Nat}
    (slots : slotsOf w (cs ++ extra) = front.rdropWhile unused ++
      (List.zipWith put init (longSlots name (lfnChecksum (nameToShort name))
        (if needsLfn name then lfnCount name else 0)) ++
        [put last (setFirstCluster (shortSlot (nameToShort name) kind) content)] ++ behind))
    (finished : Chain w start (cs ++ extra)) (count : w.fatEntryCount = v.fatEntryCount)
    (others : ∀ c, c ∉ cs → ¬ v.Free c → w.cluster c = v.cluster c ∧ w.fat c = v.fat c)
    (own : OwnContent v w kind content) (apart : content ∉ cs ++ extra) :
    Written v start cs name kind (place last) w extra (front.rdropWhile unused) (init ++ [last])
      (List.zipWith put init (longSlots name (lfnChecksum (nameToShort name))
        (if needsLfn name then lfnCount name else 0)) ++
        [put last (setFirstCluster (shortSlot (nameToShort name) kind) content)]) behind
      content := by
  have entries := zip_put_entries same
  have old : slotsOf v cs ++ zeroSlots v extra =
      front.rdropWhile unused ++ (init ++ [last] ++ behind) := by
    rw [← grown_slots grown chain, sequence, List.append_assoc, List.singleton_append]
  constructor
  · exact finished
  · exact count
  · exact grown.fresh
  · exact old
  · exact slots
  · intro ended
    have all : EndsOnce (slotsOf v cs ++ zeroSlots v extra) :=
      ends_once_append ended fun _ => zero_slots_unused
    rw [old] at all
    exact no_end_before all
  · intro slot member
    rw [← tail] at member
    exact List.mem_rtakeWhile_imp member
  · rw [List.map_append, zip_put_places same, List.map_append]
    rfl
  · rw [List.map_append, entries]
    rfl
  · rw [List.map_append]
    exact List.getLast?_concat ..
  · exact others
  · exact own
  · exact apart

theorem Written.ends_once {w : Volume} {at_ : Nat × Nat} {extra : List Nat}
    {before run written behind : List Slot} {content : Nat}
    (done : Written v start cs name kind at_ w extra before run written behind content)
    (ended : EndsOnce (slotsOf v cs)) (marked : ∀ slot ∈ written, isEnd slot.entry = false) :
    EndsOnce (slotsOf w (cs ++ extra)) := by
  have all : EndsOnce (slotsOf v cs ++ zeroSlots v extra) :=
    ends_once_append ended fun _ => zero_slots_unused
  rw [done.old] at all
  rw [done.new]
  exact ends_once_rewritten all (done.noEnd ended) marked

theorem created_of_written (ended : EndsOnce (slotsOf v cs)) (short : name.length ≤ 255)
    (ascii : ∀ c ∈ name, 1 ≤ c ∧ c ≤ 0x7F) {w : Volume} {at_ : Nat × Nat} {extra : List Nat}
    {before run written behind : List Slot} {content : Nat}
    (done : Written v start cs name kind at_ w extra before run written behind content) :
    Created v start cs name kind at_ w extra before run written behind := by
  have entries : FreshRun name kind (written.map Slot.entry) := by
    rw [done.entries]
    exact written_fresh_run short ascii kind content
  constructor
  · exact done.chain
  · exact done.fresh
  · exact done.old
  · exact done.new
  · exact done.unused
  · exact done.places
  · exact entries
  · exact done.short
  · apply done.ends_once ended
    intro slot member
    exact (entries.live _ (List.mem_map_of_mem member)).1
  · exact done.others

/-- The run that was found is rewritten up to its last slot, which takes the short one. -/
theorem write_run_total (sure : faults.drive = false) (chain : Chain v start cs)
    (name : List UInt8) (kind : UInt8) {u : Volume} {extra : List Nat}
    (grown : Grown v start cs u extra) {front behind : List Slot} {run : FreeRun} (buf : Buf)
    (split : slotsOf u (cs ++ extra) = front ++ behind) (counted : RunAt front run)
    (whole : run.length = (if needsLfn name then lfnCount name else 0) + 1) :
    Achieves (Stands faults) (do
      let (ok, buf) ← readCluster run.cluster buf
      if ok then
        match ← writeLfnSlots name (lfnChecksum (nameToShort name))
            (if needsLfn name then lfnCount name else 0) ⟨buf, run.idx, run.cluster⟩ with
        | none => pure none
        | some cursor => writeShortSlot start (nameToShort name) kind cursor
      else pure none) u fun answer w => ∀ at_, answer = some at_ →
        ∃ extra before run written behind content,
          Written v start cs name kind at_ w extra before run written behind content := by
  obtain ⟨init, last, tail, size, slot, rest, first, here⟩ :=
    run_split counted behind whole
  obtain ⟨cluster, offset⟩ := Prod.mk.inj here
  have parts : front = front.rdropWhile unused ++ (init ++ [last]) := by
    rw [← tail]
    exact List.rdropWhile_append_rtakeWhile.symm
  have sequence : slotsOf u (cs ++ extra) =
      front.rdropWhile unused ++ (init ++ last :: behind) := by
    rw [split]
    conv =>
      lhs
      rw [parts]
    rw [List.append_assoc, List.append_assoc, List.singleton_append]
  have located := sequence
  rw [first] at located
  obtain ⟨_, _, _, cs₁, cs₂, among, _⟩ := slots_of_split located
  have valid : u.Valid run.cluster := by
    rw [← cluster]
    apply grown.chain.valid
    rw [among]
    exact List.mem_append_right _ List.mem_cons_self
  apply achieves_bind (read_cluster_does valid buf)
  rintro ⟨ok, buf'⟩ u ⟨rfl, read | ⟨_, fails⟩⟩
  · cases read
    dsimp only
    rw [if_pos rfl]
    have standing : Standing u (cs ++ extra) ⟨overlay u.clusterBytes (u.cluster run.cluster) buf,
        run.idx, slot.cluster⟩ (front.rdropWhile unused) (slot :: rest) :=
      standing_of_split located offset fun j inside => by
        rw [cluster]
        exact if_pos inside
    rw [cluster, ← first] at standing
    apply achieves_bind (write_lfn_slots_does sure name (lfnChecksum (nameToShort name))
      (if needsLfn name then lfnCount name else 0) grown.chain standing (by
        rw [List.length_append, List.length_cons]
        omega))
    rintro _ w ⟨cursor, rfl, rewrites, standing'⟩
    have same : init.length = (longSlots name (lfnChecksum (nameToShort name))
        (if needsLfn name then lfnCount name else 0)).length := by
      rw [size, long_slots_length]
    have zip := zip_put_append same (last :: behind)
    rw [zip, List.drop_left' size] at standing'
    have chain₁ := rewrites_chain rewrites grown.chain
    apply (write_short_slot_does sure start (nameToShort name) kind chain₁ standing').mono
    intro answer w' finishes at_ answered
    obtain ⟨here, content, placed⟩ := finishes at_ answered
    have slots := placed.slots
    rw [List.append_assoc, List.append_cons, ← List.append_assoc, List.append_assoc] at slots
    have free : ∀ c, w.Free c → v.Free c := fun c free => grown.taken c
      ⟨⟨free.1.1, rewrites.count ▸ free.1.2⟩, rewrites.fat ▸ free.2⟩
    rw [here]
    refine ⟨extra, _, init ++ [last], _, behind, content, written_of_parts chain grown sequence
      same tail slots placed.finished.chain (placed.count.trans (rewrites.count.trans grown.count))
      ?_ ?_ ?_⟩
    · intro c outside used
      obtain ⟨content₀, link₀⟩ := grown.others c used
      have apart : c ∉ cs ++ extra := fun member =>
        (List.mem_append.1 member).elim outside fun new => used (grown.fresh c new)
      obtain ⟨content₂, link₂⟩ := placed.finished.others c apart fun taken => used (free c taken)
      exact ⟨content₂.trans ((rewrites.others c apart).trans content₀),
        link₂.trans ((congrFun rewrites.fat c).trans (link₀ outside))⟩
    · exact own_content_of_free free placed.own
    · exact own_content_apart chain₁ placed.own
  · rw [sure] at fails
    cases fails

/-- Where `createEntry` answers a place, only a run of unused slots has been rewritten, with the
slots of the new entry; the last of them is at that place. -/
theorem create_entry_writes (sure : faults.drive = false) (chain : Chain v start cs)
    (name : List UInt8) (kind : UInt8) {fuel : Nat} (enough : cs.length + lfnCount name < fuel) :
    Achieves (Stands faults) (createEntry fuel start name kind) v fun answer w =>
      ∀ at_, answer = some at_ → ∃ extra before run written behind content,
        Written v start cs name kind at_ w extra before run written behind content := by
  unfold createEntry
  dsimp only
  generalize slotsEq : (if needsLfn name = true then lfnCount name else 0) = slots
  have few : slots ≤ lfnCount name := by
    rw [← slotsEq]
    split <;> omega
  apply achieves_bind (heap_alloc_does v)
  rintro (_ | block) v ⟨rfl, _⟩
  · exact achieves_pure fun _ => nofun
  · dsimp only
    apply achieves_bind (find_free_run_total sure fuel [] cs block (grown_refl chain)
      (List.append_nil cs) chain.links ⟨rfl, fun _ => nofun⟩ (Nat.succ_pos slots)
      (.inl (by omega)))
    rintro (_ | ⟨run, buf⟩) u located
    · exact achieves_pure fun _ => nofun
    · obtain ⟨extra, front, behind, grown, split, at_, whole⟩ := located
      rw [← slotsEq] at whole ⊢
      exact write_run_total sure chain name kind grown buf split at_ whole

theorem below_find_free_run (total fuel cluster : Nat) (buf : Buf) (run : FreeRun) :
    Below (findFreeRun total fuel cluster buf run) (findFreeRun total (fuel + 1) cluster buf run) := by
  induction fuel generalizing cluster buf run with
  | zero => exact below_none
  | succ fuel ih =>
      rw [findFreeRun, findFreeRun]
      apply below_ite _ (below_refl _)
      apply below_bind (below_refl _)
      rintro ⟨ok, buf⟩
      apply below_ite _ (below_refl _)
      apply below_read
      intro s
      rcases scanFree cluster total buf (entriesPerCluster s) 0 run with ⟨run, found⟩
      cases found with
      | true => exact below_refl _
      | false =>
          apply below_bind (below_refl _)
          intro next
          apply below_ite
          · apply below_bind (below_refl _)
            rintro ⟨new, buf⟩
            exact below_ite (below_refl _) (ih _ _ _)
          · exact ih _ _ _

theorem below_create_entry (fuel start : Nat) (name : List UInt8) (kind : UInt8) :
    Below (createEntry fuel start name kind) (createEntry (fuel + 1) start name kind) := by
  unfold createEntry
  apply below_bind (below_refl _)
  rintro (_ | block)
  · exact below_refl _
  · exact below_bind (below_find_free_run _ _ _ _ _) fun _ => below_refl _

/-- With less fuel `createEntry` may not return, but writes nothing else. -/
theorem create_entry_answers (sure : faults.drive = false) (chain : Chain v start cs)
    (fuel : Nat) (name : List UInt8) (kind : UInt8) :
    Ensures (Stands faults) (createEntry fuel start name kind) v fun answer w =>
      ∀ at_, answer = some at_ → ∃ extra before run written behind content,
        Written v start cs name kind at_ w extra before run written behind content :=
  ensures_of_below (below_of_le (fun n => below_create_entry n start name kind)
    (Nat.le_add_right fuel (cs.length + lfnCount name + 1)))
    (create_entry_writes sure chain name kind (by omega))

/-- For an ASCII name these slots are a fresh run. -/
theorem create_entry_writes_run (sure : faults.drive = false) (chain : Chain v start cs)
    (ended : EndsOnce (slotsOf v cs)) (short : name.length ≤ 255)
    (ascii : ∀ c ∈ name, 1 ≤ c ∧ c ≤ 0x7F) (kind : UInt8) {fuel : Nat}
    (enough : cs.length + 21 ≤ fuel) :
    Achieves (Stands faults) (createEntry fuel start name kind) v fun answer w =>
      ∀ at_, answer = some at_ → ∃ extra before run written behind,
        Created v start cs name kind at_ w extra before run written behind := by
  have count := lfn_count_small short
  apply (create_entry_writes sure chain name kind (by omega)).mono
  intro answer w writes at_ answered
  obtain ⟨extra, before, run, written, behind, content, done⟩ := writes at_ answered
  exact ⟨extra, before, run, written, behind, created_of_written ended short ascii done⟩

/-- A file `b` in the root directory, with one slot for its name before the short slot. -/
theorem small_entry_created : ∃ s' w,
    createEntry 22 2 [0x62] DirAttr.archive PathWalk.smallVolume = some (some (2, 96), s') ∧
    Stands ⟨false, false⟩ s' w ∧ ∃ extra before run written behind,
      Created (volumeOf PathWalk.smallVolume) 2 [2] [0x62] DirAttr.archive (2, 96) w extra before
        run written behind := by
  have ended : EndsOnce (slotsOf (volumeOf PathWalk.smallVolume) [2]) := by
    unfold EndsOnce
    decide +kernel
  have answers : (createEntry 22 2 [0x62] DirAttr.archive PathWalk.smallVolume).map
      (fun r => r.1) = some (some (2, 96)) := by decide +kernel
  have ascii : ∀ c ∈ ([0x62] : List UInt8), 1 ≤ c ∧ c ≤ 0x7F := by
    intro c member
    rw [List.mem_singleton.1 member]
    decide
  have total : Achieves (Stands ⟨false, false⟩) (createEntry 22 2 [0x62] DirAttr.archive)
      (volumeOf PathWalk.smallVolume) fun answer w => ∀ at_, answer = some at_ →
        ∃ extra before run written behind, Created (volumeOf PathWalk.smallVolume) 2 [2] [0x62]
          DirAttr.archive at_ w extra before run written behind :=
    create_entry_writes_run rfl (PathWalk.small_volume_chain (by decide)) ended (by decide)
      ascii DirAttr.archive (by decide)
  obtain ⟨answer, s', w, run, stands, created⟩ :=
    total PathWalk.smallVolume PathWalk.small_volume_stands
  obtain ⟨⟨place, t⟩, first, at_⟩ := Option.map_eq_some_iff.1 answers
  obtain ⟨rfl, rfl⟩ := Prod.mk.inj (Option.some.inj (first.symm.trans run))
  exact ⟨t, w, at_ ▸ run, stands, created _ at_⟩

end Creating

end CassiOS.Fat32.CreateEntry
