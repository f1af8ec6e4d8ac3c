import CassiOS.Fat32.FatModel
import CassiOS.Fat32.Operations
import CassiOS.Support.Chain

/-!
# Files on the volume

`byteAt` is the byte of a file at a position, found along its cluster chain. `read` returns
these bytes, as many as there are, for every handle whose first cluster is on the volume.
-/

namespace CassiOS.Fat32.FileModel

open CassiOS.Support.PartialProgram
open CassiOS.Support.Chain
open CassiOS.Fat32.Types
open CassiOS.Fat32.Device
open CassiOS.Fat32.Operations
open CassiOS.Fat32.VolumeModel
open CassiOS.Fat32.FatModel

set_option autoImplicit false

/-- The clusters of a file or directory in order. -/
structure Chain (v : Volume) (start : Nat) (cs : List Nat) : Prop where
  links : Follows v.fat (fatEoc ≤ ·) start cs
  valid : ∀ c ∈ cs, v.Valid c

theorem chain_not_free {v : Volume} {start : Nat} {cs : List Nat} (chain : Chain v start cs)
    {c : Nat} (member : c ∈ cs) : ¬ v.Free c := by
  rintro ⟨_, free⟩
  rcases follows_next chain.links member with onward | ended
  · rw [free] at onward
    have low := (chain.valid _ onward).1
    unfold fatFree at low
    omega
  · rw [free] at ended
    exact absurd ended (by decide)

structure Linked (v : Volume) : Prop where
  links : ∀ c, v.Valid c → v.fat c = fatFree ∨ v.Valid (v.fat c) ∨ fatEoc ≤ v.fat c
  reserved : fatEoc ≤ v.fat 0

/-- What a file's first cluster can be; 0 stands for no cluster. -/
def Volume.OnVolume (v : Volume) (c : Nat) : Prop := c = 0 ∨ v.Valid c

section Chains

variable {v : Volume} {c : Nat}

theorem chain_position {cs : List Nat} (chain : c = 0 ∧ cs = [] ∨ Chain v c cs) :
    Volume.OnVolume v c ∨ fatEoc ≤ c := by
  rcases chain with ⟨zero, _⟩ | chain
  · exact .inl (.inl zero)
  · cases cs with
    | nil => exact .inr chain.links
    | cons x rest => exact .inl (.inr (chain.links.1 ▸ chain.valid x List.mem_cons_self))

theorem chain_tail (small : v.fatEntryCount ≤ 0x0FFFFFF7) (valid : v.Valid c) {cs : List Nat}
    (chain : c = 0 ∧ cs = [] ∨ Chain v c cs) :
    ∃ rest, cs = c :: rest ∧ Chain v (v.fat c) rest := by
  obtain ⟨low, high⟩ := valid
  rcases chain with ⟨zero, _⟩ | chain
  · omega
  · cases cs with
    | nil =>
        have ended : fatEoc ≤ c := chain.links
        unfold fatEoc at ended
        omega
    | cons x rest =>
        obtain ⟨rfl, _, behind⟩ := chain.links
        exact ⟨rest, rfl, behind, fun d member => chain.valid d (List.mem_cons_of_mem c member)⟩

theorem chain_nodup {cs : List Nat} (chain : c = 0 ∧ cs = [] ∨ Chain v c cs) : cs.Nodup := by
  rcases chain with ⟨_, rfl⟩ | chain
  · exact List.nodup_nil
  · exact follows_nodup chain.links

end Chains

section Skipping

variable {faults : Faults} {v : Volume}

def skip (v : Volume) : Nat → Nat → Nat
  | 0, c => c
  | n + 1, c => if fatEoc ≤ v.fat c then 0 else skip v n (v.fat c)

theorem skip_clusters_does (sure : faults.drive = false) (v : Volume) (n c : Nat) :
    Does faults (skipClusters n c) v (skip v n c) v := by
  induction n generalizing c with
  | zero => exact runs_pure c v
  | succ n ih =>
      apply runs_bind (fat_get_sure sure v c)
      unfold skip
      split
      · exact runs_pure 0 v
      · exact ih (v.fat c)

theorem cluster_at_offset_does (sure : faults.drive = false) (v : Volume) (start offset : Nat) :
    Does faults (clusterAtOffset start offset) v (skip v (offset / v.clusterBytes) start) v := by
  intro s stands
  unfold clusterAtOffset
  rw [stands.bytes]
  exact skip_clusters_does sure v _ start s stands

theorem skip_on_volume (linked : Linked v) (n : Nat) {c : Nat} (start : Volume.OnVolume v c) :
    Volume.OnVolume v (skip v n c) := by
  induction n generalizing c with
  | zero => exact start
  | succ n ih =>
      unfold skip
      split
      · exact .inl rfl
      · next goes =>
        apply ih
        rcases start with rfl | valid
        · exact absurd linked.reserved goes
        · rcases linked.links c valid with free | onward | last
          · exact .inl free
          · exact .inr onward
          · exact absurd last goes

/-- The byte at position `p` of the file that starts in cluster `start`. -/
def byteAt (v : Volume) (start p : Nat) : Option UInt8 :=
  if skip v (p / v.clusterBytes) start = 0 then none
  else some (v.cluster (skip v (p / v.clusterBytes) start) (p % v.clusterBytes))

end Skipping

section Reading

variable {faults : Faults} {v : Volume}

/-- `count` of `toRead` bytes from position `offset` were found and put in the buffer. -/
structure Reads (v : Volume) (start offset toRead count : Nat) (before after : Buf) : Prop where
  bound : count ≤ toRead
  bytes : ∀ i, i < count → byteAt v start (offset + i) = some (after i)
  rest : ∀ i, count ≤ i → after i = before i
  ends : count < toRead → byteAt v start (offset + count) = none

theorem reads_unique {w : Volume} {start start' offset toRead count count' : Nat}
    {before after after' : Buf} (left : Reads v start offset toRead count before after)
    (right : Reads w start' offset toRead count' before after')
    (same : ∀ i, i < toRead → byteAt w start' (offset + i) = byteAt v start (offset + i)) :
    count' = count ∧ after' = after := by
  have counts : count' = count := by
    rcases Nat.lt_trichotomy count count' with less | equal | more
    · have ended := left.ends (Nat.lt_of_lt_of_le less right.bound)
      have found := right.bytes count less
      rw [same count (Nat.lt_of_lt_of_le less right.bound), ended] at found
      cases found
    · exact equal.symm
    · have ended := right.ends (Nat.lt_of_lt_of_le more left.bound)
      have found := left.bytes count' more
      rw [← same count' (Nat.lt_of_lt_of_le more left.bound), ended] at found
      cases found
  subst counts
  refine ⟨rfl, funext fun i => ?_⟩
  rcases Nat.lt_or_ge i count' with inside | outside
  · have found := right.bytes i inside
    rw [same i (Nat.lt_of_lt_of_le inside left.bound), left.bytes i inside] at found
    exact (Option.some.inj found).symm
  · rw [right.rest i outside, left.rest i outside]

theorem byte_at_chunk {start p k : Nat} (inside : p % v.clusterBytes + k < v.clusterBytes) :
    byteAt v start (p + k) =
      if skip v (p / v.clusterBytes) start = 0 then none
      else some (v.cluster (skip v (p / v.clusterBytes) start) (p % v.clusterBytes + k)) := by
  have positive : 0 < v.clusterBytes := Nat.pos_of_ne_zero fun zero => by omega
  have split := Nat.div_add_mod p v.clusterBytes
  have quotient : (p + k) / v.clusterBytes = p / v.clusterBytes := by
    rw [← split, Nat.add_assoc, Nat.mul_add_div positive, Nat.mul_add_div positive,
      Nat.div_eq_of_lt inside, Nat.div_eq_of_lt (Nat.mod_lt _ positive)]
  have remainder : (p + k) % v.clusterBytes = p % v.clusterBytes + k := by
    rw [← split, Nat.add_assoc, Nat.mul_add_mod, Nat.mul_add_mod, Nat.mod_eq_of_lt inside,
      Nat.mod_mod]
  unfold byteAt
  rw [quotient, remainder]

theorem read_loop_does (sure : faults.drive = false) {start : Nat} (offset toRead : Nat)
    (reach : ∀ p, p < offset + toRead → Volume.OnVolume v (skip v (p / v.clusterBytes) start))
    (before : Buf) (fuel bytesRead : Nat) (buf clusterBuf : Buf)
    (enough : toRead - bytesRead < fuel) (bound : bytesRead ≤ toRead)
    (bytes : ∀ i, i < bytesRead → byteAt v start (offset + i) = some (buf i))
    (rest : ∀ i, bytesRead ≤ i → buf i = before i) :
    Achieves (Stands faults) (readLoop start offset toRead fuel bytesRead buf clusterBuf) v
      fun answer w => w = v ∧ ∃ count, answer.1 = some count ∧
        Reads v start offset toRead count before answer.2 := by
  induction fuel generalizing bytesRead buf clusterBuf with
  | zero => exact absurd enough (Nat.not_lt_zero _)
  | succ fuel ih =>
      intro s stands
      have size := stands.bytes
      have positive := cluster_bytes_pos stands
      unfold readLoop
      by_cases more : bytesRead < toRead
      · rw [if_pos more]
        refine achieves_bind_runs (cluster_at_offset_does sure v start _) ?_ s stands
        by_cases zero : skip v ((offset + bytesRead) / v.clusterBytes) start = 0
        · rw [if_pos (.inl zero)]
          exact achieves_pure ⟨rfl, bytesRead, rfl, bound, bytes, rest, fun _ => if_pos zero⟩
        · have valid := (reach (offset + bytesRead) (by omega)).resolve_left zero
          rw [if_neg (not_or.2 ⟨zero, Nat.not_le.2 (valid_below_eoc stands valid)⟩)]
          apply achieves_bind (read_cluster_does valid clusterBuf)
          rintro _ v ⟨rfl, rfl | ⟨_, fails⟩⟩
          · dsimp only
            rw [if_pos rfl, size]
            have inside := Nat.mod_lt (offset + bytesRead) positive
            apply ih
            · omega
            · omega
            · intro i below
              unfold copyBytes overlay
              by_cases fresh : bytesRead ≤ i
              · obtain ⟨k, rfl⟩ := Nat.exists_eq_add_of_le fresh
                rw [if_pos ⟨fresh, below⟩, if_pos (by omega), ← Nat.add_assoc,
                  byte_at_chunk (by omega), if_neg zero, Nat.add_sub_cancel_left]
              · rw [if_neg (by omega)]
                exact bytes i (by omega)
            · intro i beyond
              unfold copyBytes
              rw [if_neg (by omega)]
              exact rest i (by omega)
          · rw [sure] at fails
            cases fails
      · rw [if_neg more]
        have all : bytesRead = toRead := by omega
        subst all
        exact ⟨_, s, v, rfl, stands, rfl, bytesRead, rfl, bound, bytes, rest,
          fun less => absurd less more⟩

/-- The handle that a handle number of the interface stands for. -/
def openHandle (v : Volume) (handle : Nat) : Option FileHandle :=
  if handle = 0 ∨ maxHandles < handle then none
  else v.handles[handle - 1]?.filter FileHandle.inUse

/-- What `read` answers: -1 without an open handle, else the count and the bytes. -/
def ReadAnswer (v : Volume) (handle offset : Nat) (buf : Buf) (len : Nat)
    (answer : Int × Buf) : Prop :=
  match openHandle v handle with
  | none => answer = (-1, buf)
  | some fh =>
      if fh.size ≤ offset then answer = (0, buf)
      else ∃ count, answer.1 = toI32 count ∧
        Reads v fh.startCluster offset (min len (fh.size - offset)) count buf answer.2

def HandlesOnVolume (v : Volume) : Prop :=
  ∀ handle fh, openHandle v handle = some fh → Volume.OnVolume v fh.startCluster

/-- Every cluster of the file that the handle's size covers is on the volume. -/
def Reaches (v : Volume) (handle : Nat) : Prop :=
  ∀ fh, openHandle v handle = some fh → ∀ p, p < fh.size →
    Volume.OnVolume v (skip v (p / v.clusterBytes) fh.startCluster)

theorem linked_reaches (linked : Linked v) (onVolume : HandlesOnVolume v) (handle : Nat) :
    Reaches v handle :=
  fun fh opened _ _ => skip_on_volume linked _ (onVolume handle fh opened)

theorem open_handle_eq {s : Fat32Filesystem} (stands : Stands faults s v) {handle : Nat}
    (inTable : ¬ (handle = 0 ∨ maxHandles < handle)) :
    openHandle v handle = s.handles[handle - 1]?.filter FileHandle.inUse := by
  rw [stands.table]
  exact if_neg inTable

theorem read_does (sure : faults.drive = false) (supplied : faults.heap = false)
    (fuel handle offset : Nat) (buf : Buf) (len : Nat) (enough : len < fuel)
    (reach : Reaches v handle) :
    Achieves (Stands faults) (read fuel handle offset buf len) v fun answer w =>
      w = v ∧ ReadAnswer v handle offset buf len answer := by
  intro s stands
  unfold Operations.read ReadAnswer
  by_cases inTable : handle = 0 ∨ maxHandles < handle
  · rw [if_pos inTable]
    refine ⟨_, s, v, rfl, stands, rfl, ?_⟩
    rw [show openHandle v handle = none from if_pos inTable]
  · rw [if_neg inTable]
    have opened := open_handle_eq stands inTable
    cases slot : s.handles[handle - 1]? with
    | none =>
        rw [slot] at opened
        refine ⟨_, s, v, rfl, stands, rfl, ?_⟩
        rw [opened]
        rfl
    | some fh =>
        rw [slot] at opened
        dsimp only
        cases used : fh.inUse with
        | false =>
            refine ⟨_, s, v, rfl, stands, rfl, ?_⟩
            rw [opened, Option.filter, used]
            rfl
        | true =>
            have found : openHandle v handle = some fh := by
              rw [opened, Option.filter, used]
              rfl
            rw [if_pos rfl, found]
            dsimp only
            by_cases beyond : fh.size ≤ offset
            · simp only [if_pos beyond]
              exact ⟨_, s, v, rfl, stands, rfl, rfl⟩
            · simp only [if_neg beyond]
              refine achieves_bind (heap_alloc_does v) ?_ s stands
              rintro block v ⟨rfl, missing⟩
              cases block with
              | none =>
                  rw [supplied] at missing
                  exact absurd (missing rfl) Bool.false_ne_true
              | some clusterBuf =>
                  apply achieves_bind (read_loop_does sure offset (min len (fh.size - offset))
                    (fun p below => reach fh found p (by omega)) buf fuel 0 buf clusterBuf
                    (by omega) (by omega)
                    (fun i none => absurd none (Nat.not_lt_zero i)) (fun _ _ => rfl))
                  rintro ⟨count, after⟩ v ⟨rfl, bytesRead, rfl, reads⟩
                  exact achieves_pure ⟨rfl, bytesRead, rfl, reads⟩

end Reading

end CassiOS.Fat32.FileModel
