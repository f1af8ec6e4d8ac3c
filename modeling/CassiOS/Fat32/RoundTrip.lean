import CassiOS.Fat32.StoredFile

/-!
# Reading what was written

After a successful write the file of the handle has the bytes of the data, and `read`
returns them from every offset.
-/

namespace CassiOS.Fat32.RoundTrip

open CassiOS.Support.PartialProgram
open CassiOS.Support.Chain
open CassiOS.Fat32.Types
open CassiOS.Fat32.Device
open CassiOS.Fat32.Filesystem
open CassiOS.Fat32.Operations
open CassiOS.Fat32.VolumeModel
open CassiOS.Fat32.FatModel
open CassiOS.Fat32.FileModel
open CassiOS.Fat32.WriteModel
open CassiOS.Fat32.StoredFile

set_option autoImplicit false

section Finished

variable {v u : Volume} {cs file : List Nat} {data : Buf} {len start : Nat} {fh : FileHandle}

/-- The clusters of an open file and the directory cluster with its entry. -/
structure FileOf (v : Volume) (fh : FileHandle) (cs : List Nat) : Prop where
  chain : fh.startCluster = 0 ∧ cs = [] ∨ Chain v fh.startCluster cs ∧ cs ≠ []
  directory : v.Valid fh.dirCluster
  taken : ¬ v.Free fh.dirCluster
  apart : fh.dirCluster ∉ cs

theorem finished_cluster (stored : Stored v cs data len u start file) (agrees : FileOf v fh cs)
    (handles : List FileHandle) {p : Nat} (inside : p < len) :
    ∃ d, skip (finished u handles fh len start) (p / u.clusterBytes) start = d ∧ u.Valid d ∧
      (finished u handles fh len start).cluster d (p % u.clusterBytes) = data p := by
  have room := stored.room
  have positive : 0 < u.clusterBytes := Nat.pos_of_ne_zero fun zero => by
    rw [zero] at room
    omega
  have index : p / u.clusterBytes < file.length :=
    Nat.div_lt_of_lt_mul (by rw [Nat.mul_comm]; omega)
  have found := List.getElem?_eq_getElem index
  generalize file[p / u.clusterBytes] = d at found
  have member := List.mem_of_getElem? found
  rcases stored.chain with ⟨_, rfl⟩ | ⟨chain, _⟩
  · exact absurd index (Nat.not_lt_zero _)
  · have chain' : Chain (finished u handles fh len start) start file :=
      ⟨chain.links, chain.valid⟩
    have other : d ≠ fh.dirCluster := fun same =>
      stored.kept.apart fh.dirCluster agrees.apart agrees.taken (same ▸ member)
    have cluster : (finished u handles fh len start).cluster d = u.cluster d :=
      Volume.put_cluster_other _ fh.dirCluster _ other
    have held := stored.holds _ d found (p % u.clusterBytes) (Nat.mod_lt p positive)
      (by rw [Nat.div_add_mod']; exact inside)
    rw [Nat.div_add_mod'] at held
    exact ⟨d, skip_of_chain chain' found, chain.valid d member, by rw [cluster, held]⟩

theorem finished_byte (stored : Stored v cs data len u start file) (agrees : FileOf v fh cs)
    (handles : List FileHandle) {p : Nat} (inside : p < len) :
    byteAt (finished u handles fh len start) start p = some (data p) := by
  obtain ⟨d, reached, valid, held⟩ := finished_cluster stored agrees handles inside
  have low := valid.1
  unfold byteAt
  have bytes : (finished u handles fh len start).clusterBytes = u.clusterBytes := rfl
  rw [bytes, reached, if_neg (by omega), held]

end Finished

section Reading

variable {faults : Faults} {v u : Volume} {cs file : List Nat} {data : Buf} {len start : Nat}
  {fh : FileHandle} {handle : Nat}

/-- What `read` answers for a file with the first `len` bytes of the data. -/
structure ReadsData (data : Buf) (len offset : Nat) (buf : Buf) (n : Nat) (answer : Int × Buf) :
    Prop where
  count : answer.1 = toI32 (min n (len - offset))
  bytes : ∀ i, i < min n (len - offset) → answer.2 i = data (offset + i)
  rest : ∀ i, min n (len - offset) ≤ i → answer.2 i = buf i

theorem written_handle (opened : openHandle v handle = some fh) :
    openHandle (finished u (writtenHandles v handle fh len start) fh len start) handle =
      some { fh with startCluster := start, size := len } := by
  unfold openHandle at opened ⊢
  split at opened
  · cases opened
  · next inTable =>
    obtain ⟨slot, used⟩ := Option.filter_eq_some_iff.1 opened
    rw [if_neg inTable]
    refine Option.filter_eq_some_iff.2 ⟨?_, used⟩
    have inside := (List.getElem?_eq_some_iff.1 slot).1
    exact List.getElem?_set_self inside

theorem other_handle {other : Nat} (apart : other ≠ handle) (opened : openHandle v handle = some fh) :
    openHandle (finished u (writtenHandles v handle fh len start) fh len start) other =
      openHandle v other := by
  unfold openHandle at opened ⊢
  split at opened
  · cases opened
  · next inTable =>
    split
    · rfl
    · next inTable' =>
      have slots : handle - 1 ≠ other - 1 := by omega
      change (List.set v.handles _ _)[other - 1]?.filter _ = _
      rw [List.getElem?_set_ne slots]

theorem written_reaches (stored : Stored v cs data len u start file) (agrees : FileOf v fh cs)
    (opened : openHandle v handle = some fh) :
    Reaches (finished u (writtenHandles v handle fh len start) fh len start) handle := by
  intro found found_ p inside
  rw [written_handle opened] at found_
  rw [← Option.some.inj found_] at inside ⊢
  obtain ⟨d, reached, valid, _⟩ := finished_cluster stored agrees
    (writtenHandles v handle fh len start) inside
  exact .inr (reached.symm ▸ valid)

theorem reads_data (stored : Stored v cs data len u start file) (agrees : FileOf v fh cs)
    (opened : openHandle v handle = some fh) {offset n : Nat} {buf : Buf} {answer : Int × Buf}
    (spec : ReadAnswer (finished u (writtenHandles v handle fh len start) fh len start) handle
      offset buf n answer) : ReadsData data len offset buf n answer := by
  unfold ReadAnswer at spec
  rw [written_handle opened] at spec
  dsimp only at spec
  split at spec
  · next beyond =>
    have none : min n (len - offset) = 0 := by omega
    subst spec
    constructor
    · rw [none]
      rfl
    · intro i inside
      omega
    · exact fun _ _ => rfl
  · next inside =>
    obtain ⟨count, value, reads⟩ := spec
    have all : count = min n (len - offset) := by
      rcases Nat.lt_or_eq_of_le reads.bound with less | whole
      · have ends := reads.ends less
        rw [finished_byte stored agrees _ (by omega)] at ends
        cases ends
      · exact whole
    subst all
    refine ⟨value, ?_, reads.rest⟩
    intro i below
    have found := reads.bytes i below
    rw [finished_byte stored agrees _ (by omega)] at found
    exact (Option.some.inj found).symm

theorem read_written_does (sure : faults.drive = false) (supplied : faults.heap = false)
    (stored : Stored v cs data len u start file) (agrees : FileOf v fh cs)
    (opened : openHandle v handle = some fh) (fuel offset : Nat) (buf : Buf) (n : Nat)
    (enough : n < fuel) :
    Achieves (Stands faults) (read fuel handle offset buf n)
      (finished u (writtenHandles v handle fh len start) fh len start) fun answer w =>
        w = finished u (writtenHandles v handle fh len start) fh len start ∧
          ReadsData data len offset buf n answer := by
  apply (read_does sure supplied fuel handle offset buf n enough
    (written_reaches stored agrees opened)).mono
  rintro answer _ ⟨rfl, spec⟩
  exact ⟨rfl, reads_data stored agrees opened spec⟩

end Reading

end CassiOS.Fat32.RoundTrip
