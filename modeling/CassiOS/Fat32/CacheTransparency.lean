import CassiOS.Fat32.Operations
import CassiOS.Fat32.VolumeModel

/-!
# A cached drive answers as a plain one

Sequences of `cacheRead` and `cacheWrite` on the state that `mount` leaves, against a
drive without a cache.
-/

namespace CassiOS.Fat32.CacheTransparency

open CassiOS.Support.PartialProgram
open CassiOS.Fat32.Types
open CassiOS.Fat32.Device
open CassiOS.Fat32.Operations
open CassiOS.Fat32.Cache
open CassiOS.Fat32.VolumeModel (Faults Steady)

set_option autoImplicit false

inductive Request where
  | read (lba : Nat)
  | write (lba : Nat) (data : Sector)

/-- What a request returns: the sector read, if any, or whether it was written. -/
inductive Reply where
  | sector (data : Option Sector)
  | written (ok : Bool)

def serve : Request → Fs Reply
  | .read lba => do
      let data ← cacheRead lba
      pure (.sector data)
  | .write lba data => do
      let ok ← cacheWrite lba data
      pure (.written ok)

def serveAll : List Request → Fs (List Reply)
  | [] => pure []
  | request :: rest => do
      let reply ← serve request
      let replies ← serveAll rest
      pure (reply :: replies)

section PlainDrive

/-- A drive without a cache: its reply and its sectors afterwards. -/
def plainServe (sectors : Nat → Sector) : Request → Reply × (Nat → Sector)
  | .read lba => (.sector (some (sectors lba)), sectors)
  | .write lba data => (.written true, putAt sectors lba data)

def plainServeAll (sectors : Nat → Sector) : List Request → List Reply × (Nat → Sector)
  | [] => ([], sectors)
  | request :: rest =>
      let first := plainServe sectors request
      let others := plainServeAll first.2 rest
      (first.1 :: others.1, others.2)

end PlainDrive

section Mount

variable {s : Fat32Filesystem}

theorem invalid_empty (empty : s.cache = List.replicate cacheSize emptyCacheEntry) {i : Nat}
    {e : CacheEntry} (found : s.cache[i]? = some e) : e.valid = false := by
  rw [empty] at found
  rw [List.eq_of_mem_replicate (List.mem_of_getElem? found)]
  rfl

theorem transparent_empty (empty : s.cache = List.replicate cacheSize emptyCacheEntry) :
    Transparent s := by
  constructor
  · rw [empty, List.length_replicate]
  · intro i e found valid
    rw [invalid_empty empty found] at valid
    cases valid
  · intro i j e f found _ valid
    rw [invalid_empty empty found] at valid
    cases valid

theorem steady_empty {faults : Faults}
    (empty : s.cache = List.replicate cacheSize emptyCacheEntry) (requests : s.ata.outcomes = [])
    (blocks : s.heap.outcomes = []) : Steady faults s where
  transparent := transparent_empty empty
  unmirrored := by
    rintro lba ⟨i, e, found, valid, _⟩
    rw [invalid_empty empty found] at valid
    cases valid
  granting := by
    intro _ ok member
    rw [requests] at member
    cases member
  supplied := by
    intro _ ok member
    rw [blocks] at member
    cases member

/-- Changing neither the drive nor the cache keeps a cache transparent. -/
theorem Transparent.congr {s s' : Fat32Filesystem} (transparent : Transparent s)
    (cache : s'.cache = s.cache) (sectors : s'.ata.sectors = s.ata.sectors) : Transparent s' := by
  constructor
  · rw [cache, transparent.size]
  · intro i e found
    rw [cache] at found
    rw [sectors]
    exact transparent.holds i e found
  · rw [cache]
    exact transparent.unique

theorem heap_alloc_state {s s' : Fat32Filesystem} {block : Option Buf}
    (run : heapAlloc s = some (block, s')) :
    s' = { s with heap := ⟨s.heap.outcomes.tail, s.heap.junk⟩ } :=
  (Prod.mk.inj (Option.some.inj run)).2.symm

theorem modify_state {s s' : Fat32Filesystem} {update : Fat32Filesystem → Fat32Filesystem}
    {u : PUnit} (run : (modify update : Fs PUnit) s = some (u, s')) : s' = update s :=
  (Prod.mk.inj (Option.some.inj run)).2.symm

theorem read_keeps_transparent {s s' : Fat32Filesystem} {lba : Nat} {data : Option Sector}
    (run : readSector lba s = some (data, s')) (granting : Granting s)
    (transparent : Transparent s) : Granting s' ∧ Transparent s' := by
  obtain ⟨s₁, spec, serves, _⟩ := cache_read_serves granting transparent lba
  cases spec.symm.trans run
  exact ⟨serves.granting granting, serves.transparent⟩

theorem mount_layout_transparent {s s' : Fat32Filesystem} {boot : Sector}
    (granting : Granting s) (transparent : Transparent s)
    (run : (if boot 13 = 0 then fun _ => none
      else do
        modify (layoutFrom fun j => sectorByte boot j)
        pure true : Fs Bool) s = some (true, s')) : Granting s' ∧ Transparent s' := by
  split at run
  · cases run
  · obtain ⟨_, s₁, layout, finish⟩ := bind_eq_some.1 run
    obtain rfl := modify_state layout
    obtain rfl : layoutFrom _ s = s' := (Prod.mk.inj (Option.some.inj finish)).2
    exact ⟨granting, Transparent.congr transparent rfl rfl⟩

theorem mount_transparent {s₀ s : Fat32Filesystem} (granting : Granting s₀)
    (mounted : mount s₀ = some (true, s)) : Granting s ∧ Transparent s := by
  obtain ⟨table, s₁, allocTable, run₁⟩ := bind_eq_some.1 mounted
  obtain rfl := heap_alloc_state allocTable
  cases table with
  | none => cases run₁
  | some _ =>
      obtain ⟨_, s₂, setTable, run₂⟩ := bind_eq_some.1 run₁
      obtain rfl := modify_state setTable
      obtain ⟨block, s₃, allocCache, run₃⟩ := bind_eq_some.1 run₂
      obtain rfl := heap_alloc_state allocCache
      cases block with
      | none => cases run₃
      | some _ =>
          obtain ⟨_, s₄, setCache, run₄⟩ := bind_eq_some.1 run₃
          obtain rfl := modify_state setCache
          obtain ⟨boot, s₅, read, run₅⟩ := bind_eq_some.1 run₄
          obtain ⟨granting₅, transparent₅⟩ := read_keeps_transparent read granting
            (transparent_empty rfl)
          cases boot with
          | none => cases run₅
          | some _ => exact mount_layout_transparent granting₅ transparent₅ run₅

end Mount

section Sequences

theorem serve_transparent {s : Fat32Filesystem} (granting : Granting s)
    (transparent : Transparent s) (request : Request) :
    ∃ s', serve request s = some ((plainServe s.ata.sectors request).1, s') ∧
      s'.ata.sectors = (plainServe s.ata.sectors request).2 ∧ Granting s' ∧ Transparent s' := by
  cases request with
  | read lba =>
      obtain ⟨s', run, serves, same⟩ := cache_read_serves granting transparent lba
      exact ⟨s', (bind_of_some run).trans rfl, core_sectors same, serves.granting granting,
        serves.transparent⟩
  | write lba data =>
      obtain ⟨s', run, serves, same⟩ := cache_write_serves granting transparent lba data
      exact ⟨s', (bind_of_some run).trans rfl, core_sectors same, serves.granting granting,
        serves.transparent⟩

theorem serve_all_transparent {s : Fat32Filesystem} (granting : Granting s)
    (transparent : Transparent s) (requests : List Request) :
    ∃ s', serveAll requests s = some ((plainServeAll s.ata.sectors requests).1, s') ∧
      s'.ata.sectors = (plainServeAll s.ata.sectors requests).2 ∧ Transparent s' := by
  induction requests generalizing s with
  | nil => exact ⟨s, rfl, rfl, transparent⟩
  | cons request rest ih =>
      obtain ⟨s₁, first, sectors₁, granting₁, transparent₁⟩ :=
        serve_transparent granting transparent request
      obtain ⟨s₂, others, sectors₂, transparent₂⟩ := ih granting₁ transparent₁
      rw [sectors₁] at others sectors₂
      refine ⟨s₂, ?_, sectors₂, transparent₂⟩
      exact (bind_of_some first).trans ((bind_of_some others).trans rfl)

/-- From `mount` on, any sequence of requests gets the replies of a drive without a cache
and leaves its sectors; the cache holds no sector twice and each as the drive has it. -/
theorem cache_is_transparent {s₀ s : Fat32Filesystem} (granting : Granting s₀)
    (mounted : mount s₀ = some (true, s)) (requests : List Request) :
    ∃ s', serveAll requests s = some ((plainServeAll s.ata.sectors requests).1, s') ∧
      s'.ata.sectors = (plainServeAll s.ata.sectors requests).2 ∧ Transparent s' := by
  obtain ⟨granted, transparent⟩ := mount_transparent granting mounted
  exact serve_all_transparent granted transparent requests

/-- A blank drive whose boot sector gives one sector per cluster. -/
def blankDrive (lba : Nat) : Sector := fun k => if lba = 0 ∧ k = 13 then 1 else 0

/-- The state before `mount`, with the allocation of the second cache block failing. -/
def beforeMount : Fat32Filesystem where
  ata := ⟨blankDrive, []⟩
  heap := ⟨[true, true, true, false], fun _ => 0⟩
  bytesPerSector := 0
  sectorsPerCluster := 0
  bytesPerCluster := 0
  reservedSectors := 0
  numFats := 0
  fatSize := 0
  fatStartSector := 0
  dataStartSector := 0
  rootCluster := 0
  totalClusters := 0
  fatEntryCount := 0
  handles := []
  cache := []
  cacheAge := 0
  lfnOverrun := false

theorem cache_is_transparent_on_blank_drive :
    ∃ s, mount beforeMount = some (true, s) ∧
      ∃ s', serveAll [.write 5 (fun _ => 7), .read 5, .read 0] s =
          some ((plainServeAll s.ata.sectors [.write 5 (fun _ => 7), .read 5, .read 0]).1, s') ∧
        s'.ata.sectors =
          (plainServeAll s.ata.sectors [.write 5 (fun _ => 7), .read 5, .read 0]).2 ∧
        Transparent s' := by
  have granting : Granting beforeMount := fun ok member => absurd member List.not_mem_nil
  refine ⟨_, rfl, ?_⟩
  exact cache_is_transparent granting rfl _

end Sequences

end CassiOS.Fat32.CacheTransparency
