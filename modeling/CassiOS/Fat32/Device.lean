import CassiOS.Support.PartialProgram
import CassiOS.Fat32.Types

/-!
# Filesystem object, sector cache and FAT access

State and lower half of `fat32/filesystem.cpp`: the sector cache, sector and cluster
I/O, the FAT. The drive answers each request with the next outcome of a script, and
so does the heap; past the end of a script every request succeeds. Memory that the
source leaves uninitialised reads as `junk`.
-/

namespace CassiOS.Fat32.Device

open CassiOS.Support.PartialProgram
open CassiOS.Fat32.Types

set_option autoImplicit false

/-- The drive behind `std::ata::Ata`. -/
structure Drive where
  sectors : Nat → Sector
  outcomes : List Bool

structure Heap where
  outcomes : List Bool
  junk : Buf

structure FileHandle where
  startCluster : Nat
  size : Nat
  dirCluster : Nat
  dirOffset : Nat
  isDir : Bool
  inUse : Bool

/-- A null `data` pointer is `none`. -/
structure CacheEntry where
  lba : Nat
  data : Option Sector
  age : Nat
  valid : Bool
  dirty : Bool

structure Fat32Filesystem where
  ata : Drive
  heap : Heap
  bytesPerSector : Nat
  sectorsPerCluster : Nat
  bytesPerCluster : Nat
  reservedSectors : Nat
  numFats : Nat
  fatSize : Nat
  fatStartSector : Nat
  dataStartSector : Nat
  rootCluster : Nat
  totalClusters : Nat
  fatEntryCount : Nat
  handles : List FileHandle
  cache : List CacheEntry
  cacheAge : Nat
  /-- Set once `readDirEntry` has stored past the end of `lfnBuf`. -/
  lfnOverrun : Bool

abbrev Fs := Program Fat32Filesystem

def maxHandles : Nat := 16
def cacheSize : Nat := 16
def maxName : Nat := 256
def maxPath : Nat := 256

section Environment

/-- `ata->readSector`; `none` is a failed request. -/
def ataRead (lba : Nat) : Fs (Option Sector) := fun s =>
  some (if s.ata.outcomes.headD true then some (s.ata.sectors lba) else none,
    { s with ata := ⟨s.ata.sectors, s.ata.outcomes.tail⟩ })

def putAt (sectors : Nat → Sector) (lba : Nat) (data : Sector) : Nat → Sector :=
  fun l => if l = lba then data else sectors l

/-- `ata->writeSector`; a failed request leaves the drive as it was. -/
def ataWrite (lba : Nat) (data : Sector) : Fs Bool := fun s =>
  let ok := s.ata.outcomes.headD true
  some (ok, { s with
    ata := ⟨if ok then putAt s.ata.sectors lba data else s.ata.sectors, s.ata.outcomes.tail⟩ })

/-- `heap::alloc`; `none` is a null pointer. -/
def heapAlloc : Fs (Option Buf) := fun s =>
  some (if s.heap.outcomes.headD true then some s.heap.junk else none,
    { s with heap := ⟨s.heap.outcomes.tail, s.heap.junk⟩ })

end Environment

section SectorCache

def cacheLookup (lba : Nat) : Fs (Option Nat) := fun s =>
  match s.cache.findIdx? (fun entry => entry.valid && entry.lba == lba) with
  | none => some (none, s)
  | some i =>
      let age := u32 (s.cacheAge + 1)
      some (some i,
        { s with cacheAge := age, cache := s.cache.modify i fun e => { e with age := age } })

/-- The least recently used index, the first one on a tie. -/
def oldestEntry (cache : List CacheEntry) : Nat :=
  (List.range cacheSize).foldl (fun oldest i =>
    match cache[i]?, cache[oldest]? with
    | some entry, some best => if entry.age < best.age then i else oldest
    | _, _ => oldest) 0

def setEntry (i : Nat) (update : CacheEntry → CacheEntry) : Fs PUnit := fun s =>
  some (PUnit.unit, { s with cache := s.cache.modify i update })

def sectorOf (buf : Buf) (offset : Nat) : Sector := fun k => buf (offset + k.val)

def writeBack (i : Nat) (entry : CacheEntry) : Fs PUnit :=
  match entry.dirty, entry.data with
  | true, some data => do
      let _ ← ataWrite entry.lba data
      setEntry i fun e => { e with dirty := false }
  | _, _ => pure PUnit.unit

/-- An invalid entry, its block allocated on first use, or the oldest one. -/
def cacheEvict : Fs (Option Nat) := fun s =>
  match s.cache.findIdx? (fun entry => !entry.valid) with
  | some i =>
      if (s.cache[i]?.bind CacheEntry.data).isSome then some (some i, s)
      else (do
        match ← heapAlloc with
        | none => pure none
        | some block => do
            setEntry i fun e => { e with data := some (sectorOf block 0) }
            pure (some i)) s
  | none =>
      let oldest := oldestEntry s.cache
      match s.cache[oldest]? with
      | none => some (none, s)
      | some entry =>
          (do
            writeBack oldest entry
            setEntry oldest fun e => { e with valid := false }
            pure (some oldest)) s

/-- The stamp `entry->age = ++cacheAge`, with the other fields of a filled entry. -/
def fillEntry (i lba : Nat) (data : Sector) (dirty : Bool) : Fs PUnit := fun s =>
  let age := u32 (s.cacheAge + 1)
  some (PUnit.unit,
    { s with cacheAge := age, cache := s.cache.modify i fun _ => ⟨lba, some data, age, true, dirty⟩ })

def entryData (i : Nat) : Fs (Option Sector) := fun s => some (s.cache[i]?.bind CacheEntry.data, s)

def cacheRead (lba : Nat) : Fs (Option Sector) := do
  match ← cacheLookup lba with
  | some i => entryData i
  | none =>
      match ← cacheEvict with
      | none => ataRead lba
      | some i =>
          match ← ataRead lba with
          | none => pure none
          | some data => do
              fillEntry i lba data false
              pure (some data)

def cacheWrite (lba : Nat) (data : Sector) : Fs Bool := do
  match ← cacheLookup lba with
  | some i => do
      fillEntry i lba data true
      ataWrite lba data
  | none =>
      match ← cacheEvict with
      | none => ataWrite lba data
      | some i => do
          fillEntry i lba data true
          ataWrite lba data

end SectorCache

section ClusterIo

def readSector (lba : Nat) : Fs (Option Sector) := cacheRead lba

def writeSector (lba : Nat) (data : Sector) : Fs Bool := cacheWrite lba data

/-- `dataStartSector + (cluster - 2) * sectorsPerCluster` in wrapping arithmetic. -/
def clusterToLba (s : Fat32Filesystem) (cluster : Nat) : Nat :=
  u32 (s.dataStartSector + u32 (cluster + 4294967294) * s.sectorsPerCluster)

/-- `mem::copy(buf + offset, sector, SECTOR_SIZE)`. -/
def putSector (buf : Buf) (offset : Nat) (data : Sector) : Buf := fun j =>
  if offset ≤ j ∧ j < offset + 512 then data (Fin.ofNat 512 (j - offset)) else buf j

/-- Sectors `lba + i` for the last `n` values of `i`. -/
def readSectors (lba i : Nat) : Nat → Buf → Fs (Bool × Buf)
  | 0, buf => pure (true, buf)
  | n + 1, buf => do
      match ← readSector (u32 (lba + i)) with
      | none => pure (false, buf)
      | some data => readSectors lba (i + 1) n (putSector buf (i * sectorSize) data)

def writeSectors (lba i : Nat) (buf : Buf) : Nat → Fs Bool
  | 0 => pure true
  | n + 1 => do
      if ← writeSector (u32 (lba + i)) (sectorOf buf (i * sectorSize)) then
        writeSectors lba (i + 1) buf n
      else pure false

def readCluster (cluster : Nat) (buf : Buf) : Fs (Bool × Buf) := fun s =>
  readSectors (clusterToLba s cluster) 0 s.sectorsPerCluster buf s

def writeCluster (cluster : Nat) (buf : Buf) : Fs Bool := fun s =>
  writeSectors (clusterToLba s cluster) 0 buf s.sectorsPerCluster s

end ClusterIo

section FatAccess

def sectorByte (data : Sector) (i : Nat) : UInt8 := data (Fin.ofNat 512 i)

/-- The 32-bit cell at byte `offset` of a FAT sector. -/
def fatCell (data : Sector) (offset : Nat) : Nat :=
  le32 (sectorByte data offset) (sectorByte data (offset + 1))
    (sectorByte data (offset + 2)) (sectorByte data (offset + 3))

/-- `(existing & ~FAT_ENTRY_MASK) | (value & FAT_ENTRY_MASK)`. -/
def mergeCell (existing value : Nat) : Nat :=
  existing / 268435456 * 268435456 + value % 268435456

def putCell (data : Sector) (offset value : Nat) : Sector := fun k =>
  if offset ≤ k.val ∧ k.val < offset + 4 then byteOf value (k.val - offset) else data k

def fatSector (s : Fat32Filesystem) (cluster : Nat) : Nat :=
  u32 (s.fatStartSector + u32 (cluster * 4) / sectorSize)

def fatOffset (cluster : Nat) : Nat := u32 (cluster * 4) % sectorSize

def fatGet (cluster : Nat) : Fs Nat := fun s =>
  if s.fatEntryCount ≤ cluster then some (fatEoc, s)
  else (do
    match ← readSector (fatSector s cluster) with
    | none => pure fatEoc
    | some data => pure (fatCell data (fatOffset cluster) % 268435456)) s

def fatSet (cluster value : Nat) : Fs PUnit := fun s =>
  if s.fatEntryCount ≤ cluster then some (PUnit.unit, s)
  else (do
    match ← readSector (fatSector s cluster) with
    | none => pure PUnit.unit
    | some data => do
        let newVal := mergeCell (fatCell data (fatOffset cluster)) value
        let _ ← writeSector (fatSector s cluster) (putCell data (fatOffset cluster) newVal)
        pure PUnit.unit) s

/-- The scan of `allocateCluster` over the last `n` clusters from `i`. -/
def allocateFrom (i : Nat) : Nat → Fs Nat
  | 0 => pure 0
  | n + 1 => do
      if (← fatGet i) = fatFree then do
        fatSet i fatEoc
        pure i
      else allocateFrom (i + 1) n

def allocateCluster : Fs Nat := fun s => allocateFrom 2 (s.fatEntryCount - 2) s

/-- One round of the loop per unit of fuel. -/
def freeChain : Nat → Nat → Fs PUnit
  | 0, _ => fun _ => none
  | fuel + 1, cluster => fun s =>
      if 2 ≤ cluster ∧ cluster < s.fatEntryCount then
        (do
          let next ← fatGet cluster
          fatSet cluster fatFree
          if fatEoc ≤ next then pure PUnit.unit else freeChain fuel next) s
      else some (PUnit.unit, s)

/-- Mirrors the cached FAT1 sectors that are marked dirty, past the cache. -/
def flushEntries : List CacheEntry → Fs PUnit
  | [] => pure PUnit.unit
  | entry :: rest => fun s =>
      match entry.data with
      | some data =>
          if entry.valid ∧ entry.dirty ∧ s.fatStartSector ≤ entry.lba ∧
              entry.lba < u32 (s.fatStartSector + s.fatSize) then
            (do
              let _ ← ataWrite (u32 (entry.lba + s.fatSize)) data
              flushEntries rest) s
          else flushEntries rest s
      | none => flushEntries rest s

def flushFat : Fs Bool := do
  let s ← get
  flushEntries s.cache
  pure true

/-- `clusterAtOffset`, walking `n` clusters; 0 when the chain is too short. -/
def skipClusters : Nat → Nat → Fs Nat
  | 0, cluster => pure cluster
  | n + 1, cluster => do
      let next ← fatGet cluster
      if fatEoc ≤ next then pure 0 else skipClusters n next

def clusterAtOffset (startCluster byteOffset : Nat) : Fs Nat := fun s =>
  skipClusters (byteOffset / s.bytesPerCluster) startCluster s

end FatAccess

end CassiOS.Fat32.Device
