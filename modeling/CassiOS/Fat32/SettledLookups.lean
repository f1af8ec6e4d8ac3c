import CassiOS.Fat32.PathWalk
import CassiOS.Fat32.LookupTermination

/-!
# Lookups depend on the content of the disk only

What `resolvePath` and the directory lookups below it answer does not depend on the state of
the cache, on earlier lookups or, once it suffices, on the fuel; and they change nothing.
-/

namespace CassiOS.Fat32.SettledLookups

open CassiOS.Support.PartialProgram
open CassiOS.Fat32.Types
open CassiOS.Fat32.Names
open CassiOS.Fat32.Device
open CassiOS.Fat32.Filesystem
open CassiOS.Fat32.VolumeModel
open CassiOS.Fat32.ReadOnly
open CassiOS.Fat32.LookupTermination
open CassiOS.Fat32.PathWalk
open CassiOS.Fat32.DirectoryModel

set_option autoImplicit false

/-- A lookup that keeps the content `d` and is a function of it, unless it tells of a failure with
an answer in `told`. -/
abbrev Lookup {α : Type} (faults : Faults) (told : Set α) (f : Fs α) (d : Fat32Filesystem) : Prop :=
  Settles (¬ Faults.any faults) (Reading faults) (Reading noFailure) told f d

section Settled

variable {faults : Faults} {d : Fat32Filesystem}

theorem no_failure_silent : ¬ Faults.any noFailure := by
  intro fails
  rcases fails with drive | heap
  · cases drive
  · cases heap

/-- A lookup with the answer `a` or one that tells of a failure. -/
theorem lookup_of_reading {α : Type} {told : Set α} {f : Fs α} (a : α)
    (reads : ∀ faults, Achieves (Reading faults) f d fun b w =>
      w = d ∧ (b = a ∨ b ∈ told ∧ Faults.any faults)) : Lookup faults told f d := by
  apply settles_of_achieves a
  · apply (reads faults).mono
    rintro b w ⟨same, found⟩
    exact ⟨same, found.imp_right fun fails => ⟨not_not_intro fails.2, fails.1⟩⟩
  · apply Achieves.runs
    apply (reads noFailure).mono
    rintro b w ⟨same, found⟩
    exact ⟨found.resolve_right fun fails => no_failure_silent fails.2, same⟩

theorem read_sector_settles (lba : Nat) : Lookup faults {none} (readSector lba) d := by
  apply lookup_of_reading (some (d.ata.sectors lba))
  intro faults
  apply (read_sector_reading d lba).mono
  rintro data w ⟨same, found⟩
  exact ⟨same, found.imp_right fun fails => ⟨fails.1, .inl fails.2⟩⟩

theorem heap_alloc_settles : Lookup faults {none} heapAlloc d := by
  apply lookup_of_reading (some d.heap.junk)
  intro faults
  apply (heap_alloc_reading d).mono
  rintro block w ⟨same, found⟩
  exact ⟨same, found.imp_right fun fails => ⟨fails.1, .inr fails.2⟩⟩

theorem fat_get_settles (c : Nat) : Lookup faults {fatEoc} (fatGet c) d := by
  apply lookup_of_reading (nextOf d c)
  intro faults
  apply (fat_get_reading d c).mono
  rintro next w ⟨same, found⟩
  exact ⟨same, found.imp_right fun fails => ⟨fails.1, .inl fails.2⟩⟩

theorem read_cluster_settles (c : Nat) (buf : Buf) :
    Lookup faults (fun answer => answer.1 = false) (readCluster c buf) d := by
  apply lookup_of_reading (true, clusterInto d c buf)
  intro faults
  apply (read_cluster_reading d c buf).mono
  rintro answer w ⟨same, found⟩
  exact ⟨same, found.imp_right fun fails => ⟨fails.1, .inl fails.2⟩⟩

theorem note_overrun_settles (overrun : Bool) : Lookup faults ∅ (noteOverrun overrun) d := by
  apply lookup_of_reading PUnit.unit
  intro faults
  exact (note_overrun_reading d overrun).achieves ⟨rfl, .inl rfl⟩

def junkOf (d : Fat32Filesystem) : PathOut :=
  let junk := d.heap.junk
  ⟨slotAt junk 0, le32 (junk 32) (junk 33) (junk 34) (junk 35),
    le32 (junk 36) (junk 37) (junk 38) (junk 39)⟩

theorem junk_out_reading {s : Fat32Filesystem} (reading : Reading faults s d) :
    junkOut s = some (junkOf d, s) := by
  obtain rfl := reading.same
  rfl

theorem junk_out_settles : Lookup faults ∅ junkOut d := by
  apply lookup_of_reading (junkOf d)
  intro faults s reading
  exact ⟨_, s, _, junk_out_reading reading, reading, rfl, .inl rfl⟩

/-- A step after which nothing can have failed. -/
theorem settles_step {α β : Type} {told : Set β} {x : Fs α} {f : α → Fs β}
    (first : Lookup faults ∅ x d) (rest : ∀ a, Lookup faults told (f a) d) :
    Lookup faults told (x >>= f) d :=
  settles_bind first rest fun a none => absurd none (Set.notMem_empty a)

theorem settles_guard {α β : Type} {x : Fs (Option α)} {f : Option α → Fs (Option β)}
    (first : Lookup faults {none} x d) (fails : f none = pure none)
    (rest : ∀ a, Lookup faults {none} (f (some a)) d) : Lookup faults {none} (x >>= f) d := by
  apply settles_bind first
  · intro answer
    cases answer with
    | none =>
        rw [fails]
        exact settles_pure none
    | some a => exact rest a
  · intro a failed
    rw [failed, fails]
    exact ensures_pure rfl

/-- What `readDirFrom` does with a cluster it has read, with the layout of the disk. -/
def scannedOn (d : Fat32Filesystem) (index nameMax fuel c : Nat) (buf : Buf)
    (lfn : List DirEntry) (visibleIdx : Nat) : Fs (Option Found) :=
  match scanEntries c index nameMax buf (entriesPerCluster d) 0 lfn visibleIdx with
  | .stop => pure none
  | .hit found overrun => do
      noteOverrun overrun
      pure (some found)
  | .next lfn visibleIdx => do
      let next ← fatGet c
      readDirFrom index nameMax fuel next buf lfn visibleIdx

theorem read_dir_from_settles (index nameMax fuel c : Nat) (buf : Buf) (lfn : List DirEntry)
    (visibleIdx : Nat) :
    Lookup faults {none} (readDirFrom index nameMax fuel c buf lfn visibleIdx) d := by
  induction fuel generalizing c buf lfn visibleIdx with
  | zero => exact settles_none
  | succ fuel ih =>
      unfold readDirFrom
      by_cases inside : 2 ≤ c ∧ c < fatEoc
      · rw [if_pos inside]
        apply settles_bind (read_cluster_settles c buf)
        · intro answer
          cases answer with
          | mk ok buf =>
              cases ok with
              | false => exact settles_pure none
              | true =>
                  dsimp only
                  rw [if_pos rfl]
                  apply settles_congr
                    (g := scannedOn d index nameMax fuel c buf lfn visibleIdx)
                  · intro s reading
                    unfold scannedOn
                    rewrite [← reading.elim (fun r => r.layout.2.2.2.1) fun r => r.layout.2.2.2.1]
                    rfl
                  · unfold scannedOn
                    cases scanEntries c index nameMax buf (entriesPerCluster d) 0 lfn
                        visibleIdx with
                    | stop => exact settles_pure none
                    | hit found overrun =>
                        exact settles_step (note_overrun_settles overrun) fun _ => settles_pure _
                    | next lfn visibleIdx =>
                        apply settles_bind (fat_get_settles c)
                        · exact fun next => ih next buf lfn visibleIdx
                        · intro next failed
                          rw [Set.mem_singleton_iff.1 failed]
                          cases fuel with
                          | zero => exact ensures_none
                          | succ fuel =>
                              rw [read_dir_from_outside (by decide)]
                              exact ensures_pure rfl
        · intro answer failed
          have refused : answer.1 = false := failed
          dsimp only
          rw [refused, if_neg Bool.false_ne_true]
          exact ensures_pure rfl
      · rw [if_neg inside]
        exact settles_pure none

theorem read_dir_entry_settles (fuel c index nameMax : Nat) :
    Lookup faults {none} (readDirEntry fuel c index nameMax) d :=
  settles_guard heap_alloc_settles rfl fun buf =>
    read_dir_from_settles index nameMax fuel c buf [] 0

theorem find_from_settles (fuel c : Nat) (name : List UInt8) (rounds i : Nat) :
    Lookup faults {none} (findFrom fuel c name rounds i) d := by
  induction rounds generalizing i with
  | zero => exact settles_none
  | succ rounds ih =>
      unfold findFrom
      apply settles_guard (read_dir_entry_settles fuel c i maxName)
      · rfl
      · intro found
        dsimp only
        by_cases here : nameEquals found.name name = true
        · rw [if_pos here]
          exact settles_pure (some found)
        · rw [if_neg here]
          exact ih (i + 1)

theorem find_entry_settles (fuel c : Nat) (name : List UInt8) :
    Lookup faults {none} (findEntry fuel c name) d := find_from_settles fuel c name fuel 0

theorem root_of_reading {s : Fat32Filesystem}
    (reading : Reading faults s d ∨ Reading noFailure s d) : s.rootCluster = d.rootCluster :=
  reading.elim (fun r => r.layout.2.2.2.2) fun r => r.layout.2.2.2.2

/-- `parentOf` with the layout of the disk. -/
def parentOn (d : Fat32Filesystem) (c : Nat) : Fs (Option Nat) := do
  match ← readSector (clusterToLba d c) with
  | none => pure none
  | some data =>
      let parent := firstCluster (slotAt (fun j => sectorByte data j) 1)
      pure (some (if parent = 0 then d.rootCluster else parent))

theorem parent_of_settles (c : Nat) : Lookup faults {none} (parentOf c) d := by
  apply settles_congr (g := parentOn d c)
  · intro s reading
    have address : clusterToLba s c = clusterToLba d c :=
      reading.elim (fun r => (r.addresses c).2) fun r => (r.addresses c).2
    unfold parentOf
    rewrite [address, root_of_reading reading]
    rfl
  · exact settles_guard (read_sector_settles _) rfl fun data => settles_pure _

theorem and_then_settles {α β : Type} {x : Fs (Option α)} {f : α → Fs (Option β)}
    (first : Lookup faults {none} x d) (rest : ∀ a, Lookup faults {none} (f a) d) :
    Lookup faults {none} (andThen x f) d := settles_guard first rfl rest

theorem walk_component_settles (fuel : Nat) (name : List UInt8) (c : Nat) (out : PathOut) :
    Lookup faults {none} (walkComponent fuel name c out) d := by
  unfold walkComponent
  by_cases dot : name = [charDot]
  · rw [if_pos dot]
    exact settles_pure _
  rw [if_neg dot]
  by_cases dots : name = [charDot, charDot]
  · rw [if_pos dots]
    apply settles_congr (g := if c = d.rootCluster then pure (some (c, out)) else
      andThen (parentOf c) fun parent => pure (some (parent, ⟨syntheticDir parent, 0, 0⟩)))
    · intro s reading
      rw [root_of_reading reading]
      split
      · rfl
      · rfl
    · split
      · exact settles_pure _
      · exact and_then_settles (parent_of_settles c) fun parent => settles_pure _
  · rw [if_neg dots]
    exact and_then_settles (find_entry_settles fuel c name) fun found => settles_pure _

theorem walk_components_settles (fuel : Nat) (names : List (List UInt8)) (c : Nat)
    (out : PathOut) : Lookup faults {none} (walkComponents fuel names c out) d := by
  induction names generalizing c out with
  | nil => exact settles_pure _
  | cons name rest ih =>
      unfold walkComponents
      exact and_then_settles (walk_component_settles fuel name c out) fun reached => ih _ _

theorem resolve_path_settles (fuel : Nat) (path : List UInt8) (out : PathOut) :
    Lookup faults {none} (resolvePath fuel path out) d := by
  apply settles_congr (g := if path = [] then pure none else if path = [charSlash] then
    pure (some (d.rootCluster, { out with entry := syntheticDir d.rootCluster })) else
    walkComponents fuel (components path) d.rootCluster out)
  · intro s reading
    unfold resolvePath components
    rw [root_of_reading reading, ← walk_path_eq]
    split
    · rfl
    · split
      · rfl
      · rfl
  · split
    · exact settles_pure none
    · split
      · exact settles_pure _
      · exact walk_components_settles fuel _ _ out

/-- One run shows what a lookup answers wherever nothing fails. -/
theorem runs_of_run {α : Type} {told : Set α} {f : Fs α} {s s' : Fat32Filesystem} {a : α}
    (settles : Lookup noFailure told f d) (reading : Reading noFailure s d)
    (run : f s = some (a, s')) : Runs (Reading noFailure) f d a d :=
  settles.runs reading run (.inl no_failure_silent)

end Settled

section Fuel

theorem below_and_then {α β : Type} {x y : Fs (Option α)} {f g : α → Fs (Option β)}
    (first : Below x y) (rest : ∀ a, Below (f a) (g a)) : Below (andThen x f) (andThen y g) := by
  apply below_bind first
  intro answer
  cases answer with
  | none => exact below_refl _
  | some a => exact rest a

theorem below_walk_component (fuel : Nat) (name : List UInt8) (c : Nat) (out : PathOut) :
    Below (walkComponent fuel name c out) (walkComponent (fuel + 1) name c out) := by
  unfold walkComponent
  apply below_ite (below_refl _)
  apply below_ite (below_refl _)
  exact below_and_then (below_find_from fuel c name fuel 0) fun found => below_refl _

theorem below_walk_components (fuel : Nat) (names : List (List UInt8)) (c : Nat) (out : PathOut) :
    Below (walkComponents fuel names c out) (walkComponents (fuel + 1) names c out) := by
  induction names generalizing c out with
  | nil => exact below_refl _
  | cons name rest ih =>
      unfold walkComponents
      exact below_and_then (below_walk_component fuel name c out) fun reached => ih _ _

theorem below_resolve_path (fuel : Nat) (path : List UInt8) (out : PathOut) :
    Below (resolvePath fuel path out) (resolvePath (fuel + 1) path out) := by
  unfold resolvePath
  intro s answer run
  dsimp only at run ⊢
  by_cases empty : path = []
  · rw [if_pos empty] at run ⊢
    exact run
  by_cases root : path = [charSlash]
  · rw [if_neg empty, if_pos root] at run ⊢
    exact run
  · rw [if_neg empty, if_neg root, walk_path_eq] at run ⊢
    exact below_walk_components fuel _ _ out s answer run

end Fuel

end CassiOS.Fat32.SettledLookups
