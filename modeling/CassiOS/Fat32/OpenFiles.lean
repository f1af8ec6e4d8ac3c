import CassiOS.Fat32.RoundTrip
import CassiOS.Fat32.WriteFailure
import CassiOS.Support.TransitionSystem

/-!
# Several open files

Writes through handles of different files do not touch each other. After any history of
successful writes and of reads, `read` returns for each handle the data of the last write through
that handle.
-/

namespace CassiOS.Fat32.OpenFiles

open CassiOS.Support.PartialProgram
open CassiOS.Support.TransitionSystem
open CassiOS.Support.Chain
open CassiOS.Fat32.Types
open CassiOS.Fat32.Device
open CassiOS.Fat32.Filesystem
open CassiOS.Fat32.Operations
open CassiOS.Fat32.VolumeModel
open CassiOS.Fat32.FileModel
open CassiOS.Fat32.StoredFile
open CassiOS.Fat32.RoundTrip
open CassiOS.Fat32.WriteFailure (fullVolume)

set_option autoImplicit false

section Statement

abbrev Files := Nat → Option (Buf × Nat)

inductive Call where
  | write (fuel handle : Nat) (data : Buf) (len : Nat)
  | read (handle offset : Nat) (buf : Buf) (n : Nat)

/-- A write with success, or a read; the record follows the writes. A read of `n` bytes takes no
more than `n` rounds. -/
def served : Fat32Filesystem × Files → Call → Option (Fat32Filesystem × Files)
  | (s, files), .write fuel handle data len =>
      match write fuel handle data len s with
      | some (true, s) => some (s, Function.update files handle (some (data, len)))
      | _ => none
  | (s, files), .read handle offset buf n =>
      (read (n + 1) handle offset buf n s).map fun (_, s) => (s, files)

/-- The open files have chains of their own, large enough for their sizes, and no cluster of
them is one of a directory that holds an entry of an open file. -/
structure Separate (v : Volume) (chains : Nat → List Nat) : Prop where
  file : ∀ handle fh, openHandle v handle = some fh → FileOf v fh (chains handle)
  room : ∀ handle fh, openHandle v handle = some fh →
    fh.size ≤ (chains handle).length * v.clusterBytes
  disjoint : ∀ handle other fh fh', openHandle v handle = some fh → openHandle v other = some fh' →
    handle ≠ other → (chains handle).Disjoint (chains other)
  entries : ∀ handle other fh fh', openHandle v handle = some fh → openHandle v other = some fh' →
    fh.dirCluster ∉ chains other

def Recorded (v : Volume) (chains : Nat → List Nat) (files : Files) : Prop :=
  ∀ handle data len, files handle = some (data, len) → ∃ fh, openHandle v handle = some fh ∧
    fh.size = len ∧ Holds v data len (chains handle)

def Keeps (state : Fat32Filesystem × Files) : Prop :=
  ∃ v chains, Stands ⟨false, false⟩ state.1 v ∧ Separate v chains ∧ Recorded v chains state.2

end Statement

section Reading

variable {v : Volume} {chains : Nat → List Nat} {cs : List Nat} {fh : FileHandle}
  {handle len : Nat} {data : Buf}

theorem chain_byte (chain : fh.startCluster = 0 ∧ cs = [] ∨ Chain v fh.startCluster cs ∧ cs ≠ [])
    {p : Nat} (inside : p < cs.length * v.clusterBytes) : ∃ d, cs[p / v.clusterBytes]? = some d ∧
      skip v (p / v.clusterBytes) fh.startCluster = d ∧ v.Valid d := by
  have positive : 0 < v.clusterBytes := Nat.pos_of_ne_zero fun zero => by
    rw [zero] at inside
    omega
  have index : p / v.clusterBytes < cs.length :=
    Nat.div_lt_of_lt_mul (by rw [Nat.mul_comm]; exact inside)
  rcases chain with ⟨_, rfl⟩ | ⟨chain, _⟩
  · exact absurd index (Nat.not_lt_zero _)
  · have found := List.getElem?_eq_getElem index
    exact ⟨_, found, skip_of_chain chain found, chain.valid _ (List.getElem_mem index)⟩

theorem separate_reaches (separate : Separate v chains) (handle : Nat) : Reaches v handle := by
  intro fh opened p inside
  have room := separate.room handle fh opened
  obtain ⟨d, _, reached, valid⟩ :=
    chain_byte (separate.file handle fh opened).chain (Nat.lt_of_lt_of_le inside room)
  exact .inr (reached.symm ▸ valid)

theorem held_byte (agrees : FileOf v fh cs) (room : len ≤ cs.length * v.clusterBytes)
    (holds : Holds v data len cs) {p : Nat} (inside : p < len) :
    byteAt v fh.startCluster p = some (data p) := by
  obtain ⟨d, found, reached, valid⟩ := chain_byte agrees.chain (Nat.lt_of_lt_of_le inside room)
  have low := valid.1
  have positive : 0 < v.clusterBytes := Nat.pos_of_ne_zero fun zero => by
    rw [zero] at room
    omega
  have held := holds _ d found (p % v.clusterBytes) (Nat.mod_lt p positive)
    (by rw [Nat.div_add_mod']; exact inside)
  rw [Nat.div_add_mod'] at held
  unfold byteAt
  rw [reached, if_neg (by omega), held]

theorem read_held (opened : openHandle v handle = some fh) (size : fh.size = len)
    (bytes : ∀ p, p < len → byteAt v fh.startCluster p = some (data p)) {offset n : Nat} {buf : Buf}
    {answer : Int × Buf} (spec : ReadAnswer v handle offset buf n answer) :
    ReadsData data len offset buf n answer := by
  unfold ReadAnswer at spec
  rw [opened] at spec
  dsimp only at spec
  rw [size] at spec
  split at spec
  · next beyond =>
    have none : min n (len - offset) = 0 := by omega
    subst spec
    constructor
    · rw [none]
      rfl
    · intro i inside
      omega
    · exact fun _ _ => rfl
  · next inside =>
    obtain ⟨count, value, reads⟩ := spec
    have all : count = min n (len - offset) := by
      rcases Nat.lt_or_eq_of_le reads.bound with less | whole
      · have ends := reads.ends less
        rw [bytes _ (by omega)] at ends
        cases ends
      · exact whole
    subst all
    refine ⟨value, ?_, reads.rest⟩
    intro i below
    have found := reads.bytes i below
    rw [bytes _ (by omega)] at found
    exact (Option.some.inj found).symm

theorem read_recorded {files : Files} (separate : Separate v chains)
    (recorded : Recorded v chains files) (last : files handle = some (data, len)) (offset : Nat)
    (buf : Buf) {n fuel : Nat} (enough : n < fuel) :
    Achieves (Stands ⟨false, false⟩) (read fuel handle offset buf n) v fun answer w =>
      w = v ∧ ReadsData data len offset buf n answer := by
  obtain ⟨fh, opened, size, holds⟩ := recorded handle data len last
  have room := size ▸ separate.room handle fh opened
  apply (read_does rfl rfl fuel handle offset buf n enough (separate_reaches separate handle)).mono
  rintro answer _ ⟨rfl, spec⟩
  exact ⟨rfl, read_held opened size
    (fun p => held_byte (separate.file handle fh opened) room holds) spec⟩

end Reading

section Writing

variable {v u w : Volume} {chains : Nat → List Nat} {fh : FileHandle} {handle len first : Nat}
  {data : Buf} {file : List Nat} {files : Files}

theorem open_of_write (opened : openHandle v handle = some fh) {other : Nat} {fh' : FileHandle}
    (opened' : openHandle (finished u (writtenHandles v handle fh len first) fh len first) other =
      some fh') : other = handle ∧ fh' = { fh with startCluster := first, size := len } ∨
        other ≠ handle ∧ openHandle v other = some fh' := by
  by_cases same : other = handle
  · subst same
    rw [written_handle opened] at opened'
    exact .inl ⟨rfl, (Option.some.inj opened').symm⟩
  · rw [other_handle same opened] at opened'
    exact .inr ⟨same, opened'⟩

/-- Another file is as it was and shares nothing with the written one. -/
theorem other_file (separate : Separate v chains) (opened : openHandle v handle = some fh)
    (stored : Stored v (chains handle) data len u first file) {other : Nat} {fh' : FileHandle}
    (apart : other ≠ handle) (opened' : openHandle v other = some fh') :
    FileOf (finished u (writtenHandles v handle fh len first) fh len first) fh' (chains other) ∧
      (∀ d ∈ chains other, d ∉ file) ∧ fh'.dirCluster ∉ file ∧
      ∀ d ∈ chains other,
        (finished u (writtenHandles v handle fh len first) fh len first).cluster d =
          v.cluster d := by
  have agrees := separate.file other fh' opened'
  have outside : ∀ d ∈ chains other, d ∉ chains handle := fun d inside own =>
    separate.disjoint other handle fh' fh opened' opened apart inside own
  have taken : ∀ d ∈ chains other, ¬ v.Free d := by
    intro d inside
    rcases agrees.chain with ⟨_, none⟩ | ⟨chain, _⟩
    · rw [none] at inside
      exact absurd inside List.not_mem_nil
    · exact chain_not_free chain inside
  have entry := separate.entries other handle fh' fh opened' opened
  refine ⟨⟨?_, ?_, stored.kept.taken entry agrees.taken, agrees.apart⟩,
    fun d inside => stored.kept.apart d (outside d inside) (taken d inside),
    stored.kept.apart _ entry agrees.taken, ?_⟩
  · exact agrees.chain.imp_right fun ⟨chain, some_⟩ => ⟨chain_congr chain stored.kept.count
      fun d inside => stored.kept.fat d (outside d inside) (taken d inside), some_⟩
  · exact ⟨agrees.directory.1, stored.kept.count.symm ▸ agrees.directory.2⟩
  · intro d inside
    have away : d ≠ fh.dirCluster := fun same =>
      separate.entries handle other fh fh' opened opened' (same ▸ inside)
    exact (Volume.put_cluster_other _ fh.dirCluster _ away).trans
      (stored.kept.cluster d (outside d inside) (taken d inside))

theorem own_file (separate : Separate v chains) (opened : openHandle v handle = some fh)
    (stored : Stored v (chains handle) data len u first file) :
    FileOf (finished u (writtenHandles v handle fh len first) fh len first)
      { fh with startCluster := first, size := len } file ∧
        Holds (finished u (writtenHandles v handle fh len first) fh len first) data len file := by
  have agrees := separate.file handle fh opened
  have away := stored.kept.apart fh.dirCluster agrees.apart agrees.taken
  refine ⟨⟨?_, ?_, stored.kept.taken agrees.apart agrees.taken, away⟩, ?_⟩
  · exact stored.chain.imp_right fun ⟨chain, some_⟩ => ⟨⟨chain.links, chain.valid⟩, some_⟩
  · exact ⟨agrees.directory.1, stored.kept.count.symm ▸ agrees.directory.2⟩
  · intro i d found j inside below
    have other : d ≠ fh.dirCluster := fun same => away (same ▸ List.mem_of_getElem? found)
    exact (congrFun (Volume.put_cluster_other _ fh.dirCluster _ other) j).trans
      (stored.holds i d found j inside below)

theorem separate_write (separate : Separate v chains) (recorded : Recorded v chains files)
    (opened : openHandle v handle = some fh)
    (stored : Stored v (chains handle) data len u first file) :
    Separate (finished u (writtenHandles v handle fh len first) fh len first)
        (Function.update chains handle file) ∧
      Recorded (finished u (writtenHandles v handle fh len first) fh len first)
        (Function.update chains handle file)
        (Function.update files handle (some (data, len))) := by
  obtain ⟨own, holds⟩ := own_file separate opened stored
  have self : Function.update chains handle file handle = file := Function.update_self ..
  have kept : ∀ other, other ≠ handle → Function.update chains handle file other = chains other :=
    fun other apart => Function.update_of_ne apart ..
  refine ⟨⟨?_, ?_, ?_, ?_⟩, ?_⟩
  · intro other fh' opened'
    rcases open_of_write opened opened' with ⟨rfl, rfl⟩ | ⟨apart, before⟩
    · rw [self]
      exact own
    · rw [kept other apart]
      exact (other_file separate opened stored apart before).1
  · intro other fh' opened'
    rcases open_of_write opened opened' with ⟨rfl, rfl⟩ | ⟨apart, before⟩
    · rw [self]
      exact stored.room
    · have bytes : (finished u (writtenHandles v handle fh len first) fh len first).clusterBytes =
          v.clusterBytes := stored.kept.bytes
      rw [kept other apart, bytes]
      exact separate.room other fh' before
  · intro one other fh₁ fh₂ opened₁ opened₂ differ
    rcases open_of_write opened opened₁ with ⟨rfl, rfl⟩ | ⟨apart₁, before₁⟩
    · rcases open_of_write opened opened₂ with ⟨rfl, rfl⟩ | ⟨apart₂, before₂⟩
      · exact absurd rfl differ
      · rw [self, kept other apart₂]
        exact List.disjoint_right.2 (other_file separate opened stored apart₂ before₂).2.1
    · rcases open_of_write opened opened₂ with ⟨rfl, rfl⟩ | ⟨apart₂, before₂⟩
      · rw [self, kept one apart₁]
        exact List.disjoint_left.2 (other_file separate opened stored apart₁ before₁).2.1
      · rw [kept one apart₁, kept other apart₂]
        exact separate.disjoint one other fh₁ fh₂ before₁ before₂ differ
  · intro one other fh₁ fh₂ opened₁ opened₂
    rcases open_of_write opened opened₁ with ⟨rfl, rfl⟩ | ⟨apart₁, before₁⟩
    · rcases open_of_write opened opened₂ with ⟨rfl, rfl⟩ | ⟨apart₂, before₂⟩
      · rw [self]
        exact own.apart
      · rw [kept other apart₂]
        exact separate.entries one other fh fh₂ opened before₂
    · rcases open_of_write opened opened₂ with ⟨rfl, rfl⟩ | ⟨apart₂, before₂⟩
      · rw [self]
        exact (other_file separate opened stored apart₁ before₁).2.2.1
      · rw [kept other apart₂]
        exact separate.entries one other fh₁ fh₂ before₁ before₂
  · intro other data' len' last
    by_cases same : other = handle
    · subst same
      rw [Function.update_self] at last
      cases last
      exact ⟨_, written_handle opened, rfl, self.symm ▸ holds⟩
    · rw [Function.update_of_ne same] at last
      obtain ⟨fh', before, size, held⟩ := recorded other data' len' last
      have clusters := (other_file separate opened stored same before).2.2.2
      refine ⟨fh', (other_handle same opened).trans before, size, ?_⟩
      rw [kept other same]
      intro i d found j inside below
      have bytes : (finished u (writtenHandles v handle fh len first) fh len first).clusterBytes =
          v.clusterBytes := stored.kept.bytes
      rw [bytes] at inside below ⊢
      rw [clusters d (List.mem_of_getElem? found)]
      exact held i d found j inside below

end Writing

section Running

variable {s s' : Fat32Filesystem} {files files' : Files} {handle len : Nat} {data : Buf}

theorem write_unopened {v : Volume} (stands : Stands ⟨false, false⟩ s v)
    (closed : openHandle v handle = none) (fuel : Nat) (data : Buf) (len : Nat) :
    write fuel handle data len s = some (false, s) := by
  unfold openHandle at closed
  unfold write
  split
  · rfl
  · next inTable =>
    rw [if_neg inTable, ← stands.table] at closed
    cases slot : s.handles[handle - 1]? with
    | none => rfl
    | some fh =>
        rw [slot] at closed
        have unused := Option.filter_eq_none_iff.1 closed fh rfl
        dsimp only
        rw [if_neg unused]

theorem keeps_step {state : Fat32Filesystem × Files} {call : Call} (keeps : Keeps (s, files))
    (next : served (s, files) call = some state) : Keeps state := by
  obtain ⟨v, chains, stands, separate, recorded⟩ := keeps
  cases call with
  | write fuel handle data len =>
      unfold served at next
      dsimp only at next
      split at next
      · next t wrote =>
        cases next
        cases opened : openHandle v handle with
        | none =>
            rw [write_unopened stands opened] at wrote
            cases wrote
        | some fh =>
            have agrees := separate.file handle fh opened
            have small : v.fatEntryCount ≤ 0x0FFFFFF7 := stands.count ▸ stands.layout.entries
            obtain ⟨w, stands', done⟩ := write_stores rfl rfl small opened agrees.chain
              agrees.directory s stands true t wrote
            obtain ⟨u, first, file, stored, rfl⟩ := done rfl
            obtain ⟨separate', recorded'⟩ := separate_write separate recorded opened stored
            exact ⟨_, _, stands', separate', recorded'⟩
      · cases next
  | read handle offset buf n =>
      obtain ⟨⟨answer, t⟩, ran, rfl⟩ := Option.map_eq_some_iff.1 next
      obtain ⟨w, stands', rfl, _⟩ := (read_does rfl rfl (n + 1) handle offset buf n
        (Nat.lt_succ_self n) (separate_reaches separate handle)).ensures s stands answer t ran
      exact ⟨w, chains, stands', separate, recorded⟩

/-- Whatever was written and read through the open handles in between, a read through a handle
returns the data of the last write through it. -/
theorem reads_last_write (keeps : Keeps (s, files))
    (run : Run served anyAction (s, files) (s', files'))
    (last : files' handle = some (data, len)) (offset : Nat) (buf : Buf) {n fuel : Nat}
    (enough : n < fuel) : ∃ answer t,
      read fuel handle offset buf n s' = some (answer, t) ∧
        ReadsData data len offset buf n answer := by
  obtain ⟨v, chains, stands, separate, recorded⟩ : Keeps (s', files') := by
    apply Run.invariant Keeps run keeps
    rintro ⟨s, files⟩ call state keeps _ next
    exact keeps_step keeps next
  obtain ⟨answer, t, _, ran, _, _, reads⟩ :=
    read_recorded separate recorded last offset buf enough s' stands
  exact ⟨answer, t, ran, reads⟩

/-- Files in clusters 3 and 4, and behind them two free clusters. -/
def pairSectors (lba : Nat) : Sector := fun k =>
  if lba = 1 ∨ lba = 2 then
    if 20 ≤ k.val then 0
    else if k.val % 4 = 0 then 0xF8 else if k.val % 4 = 3 then 0x0F else 0xFF
  else 0

/-- Both are open, with an entry each in the root directory. -/
def pairVolume : Fat32Filesystem :=
  { fullVolume with
    ata := ⟨pairSectors, []⟩
    totalClusters := 5
    fatEntryCount := 7
    handles := ⟨3, 1, 2, 0, false, true⟩ :: ⟨4, 1, 2, 32, false, true⟩ ::
      List.replicate 14 emptyHandle }

theorem pair_volume_stands : Stands ⟨false, false⟩ pairVolume (volumeOf pairVolume) where
  layout := by constructor <;> decide
  steady := CacheTransparency.steady_empty rfl rfl rfl
  content := rfl

theorem pair_volume_open {handle : Nat} {fh : FileHandle}
    (opened : openHandle (volumeOf pairVolume) handle = some fh) :
    handle = 1 ∧ fh = ⟨3, 1, 2, 0, false, true⟩ ∨ handle = 2 ∧ fh = ⟨4, 1, 2, 32, false, true⟩ := by
  unfold openHandle at opened
  split at opened
  · cases opened
  · next inTable =>
    obtain ⟨slot, used⟩ := Option.filter_eq_some_iff.1 opened
    obtain ⟨i, next⟩ : ∃ i, handle = i + 1 := ⟨handle - 1, by omega⟩
    rw [next, Nat.add_sub_cancel] at slot
    cases i with
    | zero => exact .inl ⟨next, (Option.some.inj slot).symm⟩
    | succ i =>
        cases i with
        | zero => exact .inr ⟨next, (Option.some.inj slot).symm⟩
        | succ i =>
            rw [List.eq_of_mem_replicate (List.mem_of_getElem? (show
              (List.replicate 14 emptyHandle)[i]? = some fh from slot))] at used
            cases used

def pairChains (handle : Nat) : List Nat := if handle = 1 then [3] else [4]

theorem pair_volume_separate : Separate (volumeOf pairVolume) pairChains := by
  have fat : ∀ c, 2 ≤ c → c ≤ 4 → (volumeOf pairVolume).fat c = fatEoc := by
    intro c low high
    have all : ∀ c : Fin 3, (volumeOf pairVolume).fat (2 + c.val) = fatEoc := by decide +kernel
    have one := all ⟨c - 2, by omega⟩
    rwa [show 2 + (c - 2) = c by omega] at one
  have taken : ¬ (volumeOf pairVolume).Free 2 := by
    rintro ⟨_, free⟩
    exact absurd ((fat 2 (by decide) (by decide)).symm.trans free) (by decide)
  have alone : ∀ c, 3 ≤ c → c ≤ 4 → Chain (volumeOf pairVolume) c [c] := by
    intro c low high
    have valid : (volumeOf pairVolume).Valid c := ⟨by omega, by
      change c < 7
      omega⟩
    have inner : ¬ fatEoc ≤ c := Nat.not_le.2 (Nat.lt_of_le_of_lt high (by decide))
    exact ⟨⟨rfl, inner, Nat.le_of_eq (fat c (by omega) high).symm⟩, fun d member =>
      List.mem_singleton.1 member ▸ valid⟩
  constructor
  · intro handle fh opened
    rcases pair_volume_open opened with ⟨rfl, rfl⟩ | ⟨rfl, rfl⟩
    · exact ⟨.inr ⟨alone 3 (by decide) (by decide), by decide⟩, by decide, taken, by decide⟩
    · exact ⟨.inr ⟨alone 4 (by decide) (by decide), by decide⟩, by decide, taken, by decide⟩
  · intro handle fh opened
    rcases pair_volume_open opened with ⟨rfl, rfl⟩ | ⟨rfl, rfl⟩ <;> decide
  · intro handle other fh fh' opened opened' apart
    rcases pair_volume_open opened with ⟨rfl, rfl⟩ | ⟨rfl, rfl⟩ <;>
      rcases pair_volume_open opened' with ⟨rfl, rfl⟩ | ⟨rfl, rfl⟩
    · exact absurd rfl apart
    · exact List.disjoint_singleton.2 (show 4 ∉ [3] by decide)
    · exact List.disjoint_singleton.2 (show 3 ∉ [4] by decide)
    · exact absurd rfl apart
  · intro handle other fh fh' opened opened'
    rcases pair_volume_open opened with ⟨rfl, rfl⟩ | ⟨rfl, rfl⟩ <;>
      rcases pair_volume_open opened' with ⟨rfl, rfl⟩ | ⟨rfl, rfl⟩ <;> decide

theorem pair_volume_keeps : Keeps (pairVolume, fun _ => none) :=
  ⟨_, pairChains, pair_volume_stands, pair_volume_separate, fun _ _ _ last =>
    absurd last.symm (Option.some_ne_none _)⟩

theorem served_write {files : Files} {fuel handle : Nat} {data : Buf} {len : Nat}
    {s t : Fat32Filesystem} (wrote : write fuel handle data len s = some (true, t)) :
    served (s, files) (.write fuel handle data len) =
      some (t, Function.update files handle (some (data, len))) := by
  unfold served
  dsimp only
  rw [wrote]

/-- Both files are written, the second over its cluster's end, and then the first is read. -/
theorem pair_reads_last : ∃ s₁ s₂ answer t,
    write 4 1 (fun _ => 0x42) 3 pairVolume = some (true, s₁) ∧
      write 4 2 (fun _ => 0x43) 600 s₁ = some (true, s₂) ∧
      read 9 1 1 (fun _ => 0) 8 s₂ = some (answer, t) ∧
      ReadsData (fun _ => 0x42) 3 1 (fun _ => 0) 8 answer := by
  have possible : ((write 4 1 (fun _ => 0x42) 3 pairVolume).bind fun first =>
      (write 4 2 (fun _ => 0x43) 600 first.2).map fun second => (first.1, second.1)) =
      some (true, true) := by
    decide +kernel
  obtain ⟨⟨_, s₁⟩, wrote, rest⟩ := Option.bind_eq_some_iff.1 possible
  obtain ⟨⟨_, s₂⟩, wrote', both⟩ := Option.map_eq_some_iff.1 rest
  obtain ⟨rfl, rfl⟩ := Prod.mk.inj both
  obtain ⟨answer, t, ran, reads⟩ := reads_last_write pair_volume_keeps
    (.step (.step .start trivial (served_write wrote)) trivial (served_write wrote'))
    (show Function.update (Function.update (fun _ => none : Files) 1 (some ((fun _ => 0x42), 3))) 2
      (some ((fun _ => 0x43), 600)) 1 = some ((fun _ => 0x42), 3) from rfl) 1 (fun _ => 0)
    (show 8 < 9 by decide)
  exact ⟨s₁, s₂, answer, t, wrote, wrote', ran, reads⟩

end Running

end CassiOS.Fat32.OpenFiles
