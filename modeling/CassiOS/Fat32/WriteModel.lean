import CassiOS.Fat32.FileModel

/-!
# The steps of `write` on the volume

`Chosen` is where the next chunk goes: the cluster the chain is at, or one that is
allocated and linked behind the previous one. Whatever is free can only get less.
-/

namespace CassiOS.Fat32.WriteModel

open CassiOS.Support.PartialProgram
open CassiOS.Support.Chain
open CassiOS.Fat32.Types
open CassiOS.Fat32.Device
open CassiOS.Fat32.Cache
open CassiOS.Fat32.Filesystem
open CassiOS.Fat32.Operations
open CassiOS.Fat32.VolumeModel
open CassiOS.Fat32.FatModel
open CassiOS.Fat32.FileModel

set_option autoImplicit false

section Linking

variable {v : Volume}

theorem valid_mod {c : Nat} (small : v.fatEntryCount ≤ 0x0FFFFFF7) (valid : v.Valid c) :
    c % 268435456 = c := by
  have bound := valid.2
  exact Nat.mod_eq_of_lt (by omega)

/-- Ending a chain or leading it to another cluster keeps every link on the volume. -/
theorem linked_set_fat (linked : Linked v) (small : v.fatEntryCount ≤ 0x0FFFFFF7) {c value : Nat}
    (valid : v.Valid c) (target : v.Valid value ∨ value = fatEoc) : Linked (v.setFat c value) where
  links := by
    intro d inside
    by_cases own : d = c
    · right
      rw [own, Volume.set_fat_self v c value valid.2]
      rcases target with onward | rfl
      · rw [valid_mod small onward]
        exact .inl onward
      · exact .inr (by decide)
    · rw [Volume.set_fat_other v c value own]
      exact linked.links d inside
  reserved := by
    have other : 0 ≠ c := fun same => by
      have low := valid.1
      omega
    rw [Volume.set_fat_other v c value other]
    exact linked.reserved

theorem next_position {c : Nat} (linked : Linked v) (valid : v.Valid c) :
    Volume.OnVolume v (v.fat c) ∨ fatEoc ≤ v.fat c := by
  rcases linked.links c valid with free | onward | last
  · exact .inl (.inl free)
  · exact .inl (.inr onward)
  · exact .inr last

end Linking

section Choosing

variable {faults : Faults} {v : Volume} {c prev : Nat}

inductive Chosen (v : Volume) (c prev : Nat) : Nat → Volume → Prop
  | chain : v.Valid c → Chosen v c prev c v
  | first (new : Nat) : (c < 2 ∨ fatEoc ≤ c) → prev < 2 → v.Free new →
      Chosen v c prev new (v.setFat new fatEoc)
  | behind (new : Nat) : (c < 2 ∨ fatEoc ≤ c) → 2 ≤ prev → v.Free new →
      Chosen v c prev new ((v.setFat new fatEoc).setFat prev new)

theorem Chosen.count {c' : Nat} {u : Volume} (chosen : Chosen v c prev c' u) :
    u.fatEntryCount = v.fatEntryCount := by
  cases chosen with
  | chain _ => rfl
  | first => rfl
  | behind => rfl

theorem Chosen.bytes {c' : Nat} {u : Volume} (chosen : Chosen v c prev c' u) :
    u.clusterBytes = v.clusterBytes := by
  cases chosen with
  | chain _ => rfl
  | first => rfl
  | behind => rfl

theorem Chosen.valid {c' : Nat} {u : Volume} (chosen : Chosen v c prev c' u) : v.Valid c' := by
  cases chosen with
  | chain valid => exact valid
  | first _ _ _ free => exact free.1
  | behind _ _ _ free => exact free.1

theorem Chosen.linked {c' : Nat} {u : Volume} (chosen : Chosen v c prev c' u) (linked : Linked v)
    (small : v.fatEntryCount ≤ 0x0FFFFFF7) (previous : Volume.OnVolume v prev) : Linked u := by
  cases chosen with
  | chain _ => exact linked
  | first _ _ _ free => exact linked_set_fat linked small free.1 (.inr rfl)
  | behind _ _ high free =>
      have first := linked_set_fat linked small free.1 (.inr rfl)
      have own : v.Valid prev := previous.resolve_left fun zero => by omega
      exact linked_set_fat first small own (.inl free.1)

/-- Without a free cluster only the chain can be followed. -/
theorem Chosen.of_full {c' : Nat} {u : Volume} (chosen : Chosen v c prev c' u)
    (full : ∀ d, ¬ v.Free d) : v.Valid c ∧ c' = c ∧ u = v := by
  cases chosen with
  | chain valid => exact ⟨valid, rfl, rfl⟩
  | first _ _ _ free => exact absurd free (full _)
  | behind _ _ _ free => exact absurd free (full _)

theorem cluster_for_chunk_does (sure : faults.drive = false)
    (position : Volume.OnVolume v c ∨ fatEoc ≤ c) :
    Achieves (Stands faults) (clusterForChunk c prev) v fun c' u =>
      c' = 0 ∧ u = v ∧ (c < 2 ∨ fatEoc ≤ c) ∧ (∀ d, ¬ v.Free d) ∨ Chosen v c prev c' u := by
  unfold clusterForChunk
  by_cases ended : c < 2 ∨ fatEoc ≤ c
  · rw [if_pos ended]
    rcases allocate_cluster_does sure v with ⟨new, free, _, run⟩ | ⟨full, run⟩
    · apply achieves_bind_runs run
      have nonzero : new ≠ 0 := fun zero => by
        have low := free.1.1
        omega
      rw [if_neg nonzero]
      by_cases high : 2 ≤ prev
      · rw [if_pos high]
        apply achieves_bind_runs (fat_set_does sure _ prev new)
        exact achieves_pure (.inr (.behind new ended high free))
      · rw [if_neg high]
        exact achieves_pure (.inr (.first new ended (Nat.lt_of_not_le high) free))
    · apply achieves_bind_runs run
      rw [if_pos rfl]
      exact achieves_pure (.inl ⟨rfl, rfl, ended, full⟩)
  · rw [if_neg ended]
    rcases position with zero | valid
    · rcases zero with rfl | valid
      · exact absurd (.inl (by decide)) ended
      · exact achieves_pure (.inr (.chain valid))
    · exact absurd (.inr valid) ended

end Choosing

section Rounds

variable {faults : Faults} {v : Volume} {c prev : Nat}

/-- The part of the data that goes to the cluster of this round. -/
def chunkLength (v : Volume) (len bytesWritten : Nat) : Nat :=
  min (v.clusterBytes - bytesWritten % v.clusterBytes) (len - bytesWritten)

/-- The cluster buffer that a round of `write` stores. -/
structure Filled (v : Volume) (data : Buf) (len bytesWritten c : Nat) (buf : Buf) : Prop where
  chunk : ∀ k, k < chunkLength v len bytesWritten →
    buf (bytesWritten % v.clusterBytes + k) = data (bytesWritten + k)
  rest : ∀ j, j < v.clusterBytes →
    ¬ (bytesWritten % v.clusterBytes ≤ j ∧
      j < bytesWritten % v.clusterBytes + chunkLength v len bytesWritten) → buf j = v.cluster c j

/-- A round of the loop of `write` up to the next cluster; `none` when the volume is full. -/
def storeChunk (data : Buf) (len bytesWritten cluster prevCluster : Nat) (clusterBuf : Buf) :
    Fs (Option (Nat × Buf)) := fun s =>
  (do
    let cluster ← clusterForChunk cluster prevCluster
    if cluster = 0 then pure none
    else do
      let clusterOffset := bytesWritten % s.bytesPerCluster
      let chunk := min (s.bytesPerCluster - clusterOffset) (len - bytesWritten)
      let (_, clusterBuf) ← (if 0 < clusterOffset ∨ chunk < s.bytesPerCluster then
        readCluster cluster clusterBuf else pure (true, clusterBuf))
      let clusterBuf := copyBytes clusterBuf clusterOffset data bytesWritten chunk
      let _ ← writeCluster cluster clusterBuf
      pure (some (cluster, clusterBuf))) s

/-- The round stores a chunk in the chosen cluster, or the volume is full. -/
theorem store_chunk_does (sure : faults.drive = false) {data : Buf} {len bytesWritten : Nat}
    {clusterBuf : Buf} (position : Volume.OnVolume v c ∨ fatEoc ≤ c) :
    Achieves (Stands faults) (storeChunk data len bytesWritten c prev clusterBuf) v
      fun answer w =>
        answer = none ∧ w = v ∧ (c < 2 ∨ fatEoc ≤ c) ∧ (∀ d, ¬ v.Free d) ∨
        ∃ c' u buf, answer = some (c', buf) ∧ Chosen v c prev c' u ∧
          Filled u data len bytesWritten c' buf ∧ w = u.putCluster c' buf := by
  intro s stands
  have size := stands.bytes
  have positive := cluster_bytes_pos stands
  have offset := Nat.mod_lt bytesWritten positive
  unfold storeChunk
  rw [size]
  refine achieves_bind (cluster_for_chunk_does sure position) ?_ s stands
  rintro c' u (⟨rfl, rfl, ended, none⟩ | chosen)
  · rw [if_pos rfl]
    exact achieves_pure (.inl ⟨rfl, rfl, ended, none⟩)
  · have valid := chosen.valid
    have nonzero : c' ≠ 0 := fun zero => by
      have low := valid.1
      omega
    have count := chosen.count
    have bytes := chosen.bytes
    have validU : u.Valid c' := ⟨valid.1, count ▸ valid.2⟩
    rw [if_neg nonzero]
    dsimp only
    change Achieves (Stands faults) (do
      let (_, clusterBuf) ← (if 0 < bytesWritten % v.clusterBytes ∨
          chunkLength v len bytesWritten < v.clusterBytes then
        readCluster c' clusterBuf else pure (true, clusterBuf) : Fs (Bool × Buf))
      let clusterBuf := copyBytes clusterBuf (bytesWritten % v.clusterBytes) data bytesWritten
        (chunkLength v len bytesWritten)
      let _ ← writeCluster c' clusterBuf
      pure (some (c', clusterBuf)) : Fs (Option (Nat × Buf))) u _
    have room : chunkLength v len bytesWritten ≤
        v.clusterBytes - bytesWritten % v.clusterBytes := Nat.min_le_left _ _
    apply achieves_bind (P := fun answer w => w = u ∧
      (0 < bytesWritten % v.clusterBytes ∨ chunkLength v len bytesWritten < v.clusterBytes →
        ∀ j, j < v.clusterBytes → answer.2 j = u.cluster c' j))
    · split
      · apply (read_cluster_does validU clusterBuf).mono
        rintro answer w ⟨same, rfl | ⟨_, fails⟩⟩
        · refine ⟨same, fun _ j inside => ?_⟩
          rw [← bytes] at inside
          exact if_pos inside
        · rw [sure] at fails
          cases fails
      · next whole => exact achieves_pure ⟨rfl, fun partly => absurd partly whole⟩
    · rintro ⟨ok, old⟩ u ⟨rfl, kept⟩
      dsimp only
      apply achieves_bind_runs (write_cluster_does sure validU _)
      refine achieves_pure (.inr ⟨c', u, _, rfl, chosen, ?_, rfl⟩)
      have chunk : chunkLength u len bytesWritten = chunkLength v len bytesWritten := by
        unfold chunkLength
        rw [bytes]
      constructor
      · intro k below
        rw [chunk] at below
        rw [bytes]
        unfold copyBytes
        rw [if_pos (by omega), Nat.add_sub_cancel_left]
      · intro j inside outside
        rw [bytes] at inside
        rw [bytes, chunk] at outside
        unfold copyBytes
        rw [if_neg outside]
        apply kept
        · by_contra whole
          omega
        · exact inside

theorem write_loop_eq {data : Buf} {len bytesWritten : Nat} (more : bytesWritten < len)
    (fuel c prev : Nat) (clusterBuf : Buf) (s : Fat32Filesystem) :
    writeLoop data len (fuel + 1) bytesWritten c prev clusterBuf s =
      (storeChunk data len bytesWritten c prev clusterBuf >>= fun answer =>
        match answer with
        | none => pure none
        | some (cluster, clusterBuf) =>
            let chunk := min (s.bytesPerCluster - bytesWritten % s.bytesPerCluster)
              (len - bytesWritten)
            if bytesWritten + chunk < len then do
              let next ← fatGet cluster
              writeLoop data len fuel (bytesWritten + chunk) next cluster clusterBuf
            else writeLoop data len fuel (bytesWritten + chunk) cluster prev clusterBuf) s := by
  have reads : ∀ (f : Fat32Filesystem → Fs (Option (Nat × Buf))) (g : Option (Nat × Buf) →
      Fs (Option (Nat × Buf))), ((fun s => f s s : Fs (Option (Nat × Buf))) >>= g) s =
        (f s >>= g) s := fun _ _ => rfl
  conv_lhs => unfold writeLoop
  unfold storeChunk
  rw [if_pos more, reads, bind_assoc]
  refine congrFun (bind_congr fun cluster => ?_) s
  by_cases zero : cluster = 0
  · rw [if_pos zero, if_pos zero]
    rfl
  · rw [if_neg zero, if_neg zero, bind_assoc]
    apply bind_congr
    rintro ⟨_, old⟩
    dsimp only
    rw [bind_assoc]
    apply bind_congr
    intro _
    rfl

/-- One round of the loop of `write`: it ends when the volume is full, or it stores a chunk
in the chosen cluster and goes on. -/
theorem write_loop_round (sure : faults.drive = false) {data : Buf} {len fuel bytesWritten : Nat}
    {clusterBuf : Buf} {Q : Option (Nat × Buf) → Volume → Prop}
    (position : Volume.OnVolume v c ∨ fatEoc ≤ c) (more : bytesWritten < len)
    (full : (c < 2 ∨ fatEoc ≤ c) → (∀ d, ¬ v.Free d) → Q none v)
    (stored : ∀ c' u buf, Chosen v c prev c' u → Filled u data len bytesWritten c' buf →
      Ensures (Stands faults)
        (if bytesWritten + chunkLength v len bytesWritten < len then
          writeLoop data len fuel (bytesWritten + chunkLength v len bytesWritten) (u.fat c') c' buf
        else writeLoop data len fuel (bytesWritten + chunkLength v len bytesWritten) c' prev buf)
        (u.putCluster c' buf) Q) :
    Ensures (Stands faults) (writeLoop data len (fuel + 1) bytesWritten c prev clusterBuf) v Q := by
  intro s stands
  rw [write_loop_eq more, stands.bytes]
  refine ensures_bind (store_chunk_does sure position).ensures ?_ s stands
  rintro _ _ (⟨rfl, rfl, ended, none⟩ | ⟨c', u, buf, rfl, chosen, filled, rfl⟩)
  · exact ensures_pure (full ended none)
  · have goes := stored c' u buf chosen filled
    unfold chunkLength at goes
    dsimp only
    split at goes
    · next again =>
      rw [if_pos again]
      exact ensures_bind_runs (fat_get_sure sure _ c') goes
    · next last =>
      rw [if_neg last]
      exact goes

theorem write_loop_done {data : Buf} {len bytesWritten : Nat} (done : ¬ bytesWritten < len)
    (v : Volume) (fuel c prev : Nat) (buf : Buf) :
    Ensures (Stands faults) (writeLoop data len fuel bytesWritten c prev buf) v fun answer w =>
      answer = some (c, buf) ∧ w = v := by
  cases fuel with
  | zero => exact ensures_none
  | succ fuel =>
      unfold writeLoop
      simp only [if_neg done]
      exact ensures_pure ⟨rfl, rfl⟩

end Rounds

section Storing

variable {faults : Faults} {v : Volume}

theorem set_handle_does (v : Volume) (i : Nat) (update : FileHandle → FileHandle) :
    Does faults (setHandle i update) v PUnit.unit (v.setHandles (v.handles.modify i update)) := by
  intro s stands
  refine ⟨_, rfl, ?_, ?_, ?_⟩
  · have layout := stands.layout
    exact ⟨layout.sector, layout.perCluster, layout.clusterBytes, layout.fatStart,
      layout.dataStart, layout.copies, layout.fatCovers, layout.entries, layout.dataFits,
      (List.length_modify ..).trans layout.handleTable⟩
  · exact ⟨⟨stands.steady.transparent.size, stands.steady.transparent.holds,
      stands.steady.transparent.unique⟩, stands.steady.unmirrored, stands.steady.granting,
      stands.steady.supplied⟩
  · rw [← stands.content]
    rfl

theorem free_chain_count (sure : faults.drive = false) (fuel : Nat) (v : Volume) (c : Nat) :
    Ensures (Stands faults) (freeChain fuel c) v fun _ w => w.fatEntryCount = v.fatEntryCount := by
  induction fuel generalizing v c with
  | zero => exact ensures_none
  | succ fuel ih =>
      intro s stands
      unfold freeChain
      split
      · refine ensures_bind_runs (fat_get_sure sure v c) ?_ s stands
        apply ensures_bind_runs (fat_set_does sure v c fatFree)
        split
        · exact ensures_pure rfl
        · exact ih (v.setFat c fatFree) (v.fat c)
      · exact (runs_pure PUnit.unit v).ensures rfl s stands

theorem truncate_chain_count (sure : faults.drive = false) (fuel : Nat) (v : Volume) (c : Nat) :
    Ensures (Stands faults) (truncateChain fuel c) v fun _ w =>
      w.fatEntryCount = v.fatEntryCount := by
  unfold truncateChain
  split
  · apply ensures_bind_runs (fat_get_sure sure v c)
    apply ensures_bind_runs (fat_set_does sure v c fatEoc)
    split
    · exact free_chain_count sure fuel (v.setFat c fatEoc) (v.fat c)
    · exact ensures_pure rfl
  · exact ensures_pure rfl

theorem update_entry_succeeds (sure : faults.drive = false) {dirCluster : Nat}
    (valid : v.Valid dirCluster) (dirOffset size startCluster : Nat) (buf : Buf) :
    Achieves (Stands faults) (updateEntry dirCluster dirOffset size startCluster buf) v
      fun ok _ => ok = true := by
  unfold updateEntry
  apply achieves_bind (read_cluster_does valid buf)
  rintro _ v ⟨rfl, rfl | ⟨_, fails⟩⟩
  · dsimp only
    rw [if_pos rfl]
    apply achieves_bind_runs (write_cluster_does sure valid _)
    apply achieves_bind_runs (flush_fat_does sure _)
    exact achieves_pure rfl
  · rw [sure] at fails
    cases fails

end Storing

end CassiOS.Fat32.WriteModel
