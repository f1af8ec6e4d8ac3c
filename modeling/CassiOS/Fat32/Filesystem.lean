import CassiOS.Fat32.Device
import CassiOS.Fat32.Names

/-!
# Directories, paths and files

The directory helpers and the public operations of `fat32/filesystem.cpp`. Loops whose
number of rounds depends on what the disk holds take fuel, one unit a round; a program
that runs out of it returns nothing. Out-parameters are results; those the source may
leave unwritten start as what uninitialised memory holds.
-/

namespace CassiOS.Fat32.Filesystem

open CassiOS.Support.PartialProgram
open CassiOS.Fat32.Types
open CassiOS.Fat32.Names
open CassiOS.Fat32.Device

set_option autoImplicit false

/-- `sizeof(DirEntry)`. -/
def dirEntrySize : Nat := 32

def maxLfnEntries : Nat := 20

def slotAt (buf : Buf) (i : Nat) : DirEntry := fun k => buf (dirEntrySize * i + k.val)

def setSlot (buf : Buf) (i : Nat) (e : DirEntry) : Buf := fun j =>
  if dirEntrySize * i ≤ j ∧ j < dirEntrySize * i + dirEntrySize then
    e (Fin.ofNat 32 (j - dirEntrySize * i))
  else buf j

def entriesPerCluster (s : Fat32Filesystem) : Nat := s.bytesPerCluster / dirEntrySize

section ReadDirectory

/-- What `readDirEntry` reports about an entry. -/
structure Found where
  name : List UInt8
  entry : DirEntry
  cluster : Nat
  offset : Nat

inductive Scan where
  | hit (found : Found) (overrun : Bool)
  | stop
  | next (lfnBuf : List DirEntry) (visibleIdx : Nat)

def entryName (lfnBuf : List DirEntry) (e : DirEntry) (nameMax : Nat) : List UInt8 :=
  if 0 < lfnBuf.length then extractLfn lfnBuf nameMax
  else shortNameToString (shortName e) (ntReserved e) nameMax

/-- The slot loop of `readDirEntry` over the last `n` slots from `i`. The short entry is
copied behind the collected slots, which is past `lfnBuf` when it is full. -/
def scanEntries (cluster index nameMax : Nat) (buf : Buf) :
    Nat → Nat → List DirEntry → Nat → Scan
  | 0, _, lfnBuf, visibleIdx => .next lfnBuf visibleIdx
  | n + 1, i, lfnBuf, visibleIdx =>
      let e := slotAt buf i
      if isEnd e then .stop
      else if isFree e then scanEntries cluster index nameMax buf n (i + 1) [] visibleIdx
      else if isLfnEntry e then
        scanEntries cluster index nameMax buf n (i + 1)
          (if lfnBuf.length < maxLfnEntries then lfnBuf ++ [e] else lfnBuf) visibleIdx
      else if isVolumeId e then
        scanEntries cluster index nameMax buf n (i + 1) [] visibleIdx
      else if isDotEntry e then
        scanEntries cluster index nameMax buf n (i + 1) [] visibleIdx
      else if visibleIdx = index then
        .hit ⟨entryName lfnBuf e nameMax, e, cluster, i * dirEntrySize⟩
          (decide (maxLfnEntries ≤ lfnBuf.length))
      else scanEntries cluster index nameMax buf n (i + 1) [] (visibleIdx + 1)

def noteOverrun (overrun : Bool) : Fs PUnit := fun s =>
  some (PUnit.unit, { s with lfnOverrun := s.lfnOverrun || overrun })

def readDirFrom (index nameMax : Nat) :
    Nat → Nat → Buf → List DirEntry → Nat → Fs (Option Found)
  | 0, _, _, _, _ => fun _ => none
  | fuel + 1, cluster, buf, lfnBuf, visibleIdx =>
      if 2 ≤ cluster ∧ cluster < fatEoc then do
        let (ok, buf) ← readCluster cluster buf
        if ok then
          fun s => (match scanEntries cluster index nameMax buf (entriesPerCluster s) 0
              lfnBuf visibleIdx with
            | .stop => pure none
            | .hit found overrun => do
                noteOverrun overrun
                pure (some found)
            | .next lfnBuf visibleIdx => do
                let next ← fatGet cluster
                readDirFrom index nameMax fuel next buf lfnBuf visibleIdx : Fs (Option Found)) s
        else pure none
      else pure none

def readDirEntry (fuel dirCluster index nameMax : Nat) : Fs (Option Found) := do
  match ← heapAlloc with
  | none => pure none
  | some clusterBuf => readDirFrom index nameMax fuel dirCluster clusterBuf [] 0

def findFrom (fuel dirCluster : Nat) (name : List UInt8) : Nat → Nat → Fs (Option Found)
  | 0, _ => fun _ => none
  | rounds + 1, i => do
      match ← readDirEntry fuel dirCluster i maxName with
      | none => pure none
      | some found =>
          if nameEquals found.name name then pure (some found)
          else findFrom fuel dirCluster name rounds (i + 1)

def findEntry (fuel dirCluster : Nat) (name : List UInt8) : Fs (Option Found) :=
  findFrom fuel dirCluster name fuel 0

end ReadDirectory

section Paths

/-- The out-parameters `entryOut`, `entryCluster` and `entryOffset` of `resolvePath`. -/
structure PathOut where
  entry : DirEntry
  entryCluster : Nat
  entryOffset : Nat

/-- Uninitialised locals. -/
def junkOut : Fs PathOut := fun s =>
  let junk := s.heap.junk
  some (⟨slotAt junk 0, le32 (junk 32) (junk 33) (junk 34) (junk 35),
    le32 (junk 36) (junk 37) (junk 38) (junk 39)⟩, s)

/-- The entry made up for the root and for a parent reached through `..`. -/
def syntheticDir (cluster : Nat) : DirEntry :=
  setFirstCluster (fun k => if k = 11 then DirAttr.directory else 0) cluster

/-- The next component, at most 255 bytes, and the path behind it and its slash. -/
def takeComponent (path : List UInt8) : List UInt8 × List UInt8 :=
  let component := (path.take (maxName - 1)).takeWhile (· != charSlash)
  let rest := path.drop component.length
  (component, if rest.head? = some charSlash then rest.tail else rest)

/-- The first cluster named by the `..` slot of the directory at `cluster`. -/
def parentOf (cluster : Nat) : Fs (Option Nat) := fun s =>
  (do
    match ← readSector (clusterToLba s cluster) with
    | none => pure none
    | some data =>
        let parent := firstCluster (slotAt (fun j => sectorByte data j) 1)
        pure (some (if parent = 0 then s.rootCluster else parent))) s

/-- The component loop of `resolvePath`; every round takes at least one byte. -/
def walkPath (fuel : Nat) : Nat → List UInt8 → Nat → PathOut → Fs (Option (Nat × PathOut))
  | 0, _, cluster, out => pure (some (cluster, out))
  | rounds + 1, path, cluster, out =>
      if path = [] then pure (some (cluster, out))
      else
        let (component, rest) := takeComponent path
        if component = [] ∨ component = [charDot] then walkPath fuel rounds rest cluster out
        else if component = [charDot, charDot] then fun s =>
          if cluster = s.rootCluster then walkPath fuel rounds rest cluster out s
          else (do
            match ← parentOf cluster with
            | none => pure none
            | some parent => walkPath fuel rounds rest parent ⟨syntheticDir parent, 0, 0⟩) s
        else do
          match ← findEntry fuel cluster component with
          | none => pure none
          | some found =>
              walkPath fuel rounds rest (firstCluster found.entry)
                ⟨found.entry, found.cluster, found.offset⟩

/-- The first result is `clusterOut`. -/
def resolvePath (fuel : Nat) (path : List UInt8) (out : PathOut) :
    Fs (Option (Nat × PathOut)) := fun s =>
  if path = [] then some (none, s)
  else if path = [charSlash] then
    some (some (s.rootCluster, { out with entry := syntheticDir s.rootCluster }), s)
  else
    let rest := if path.head? = some charSlash then path.tail else path
    walkPath fuel (rest.length + 1) rest s.rootCluster out s

def lastSlashFrom : List UInt8 → Nat → Option Nat → Option Nat
  | [], _, lastSlash => lastSlash
  | c :: cs, i, lastSlash => lastSlashFrom cs (i + 1) (if c = charSlash then some i else lastSlash)

def resolveParentPath (fuel : Nat) (path : List UInt8) (nameMax : Nat) :
    Fs (Option (Nat × List UInt8)) := fun s =>
  match lastSlashFrom path 0 none with
  | none => some (none, s)
  | some 0 => some (some (s.rootCluster, (path.drop 1).take (nameRoom nameMax)), s)
  | some (slash + 1) =>
      let parentPath := path.take (min (maxPath - 1) (slash + 1))
      let name := (path.drop (slash + 2)).take (nameRoom nameMax)
      (do
        let out ← junkOut
        match ← resolvePath fuel parentPath out with
        | none => pure none
        | some (parentCluster, out) =>
            if isDirectory out.entry then pure (some (parentCluster, name)) else pure none) s

end Paths

section Create

structure FreeRun where
  length : Nat
  cluster : Nat
  idx : Nat

/-- The slot loop of the free-run search; `true` once `total` slots are in a row. -/
def scanFree (cluster total : Nat) (buf : Buf) : Nat → Nat → FreeRun → FreeRun × Bool
  | 0, _, run => (run, false)
  | n + 1, i, run =>
      let e := slotAt buf i
      if isEnd e || isFree e then
        let run := if run.length = 0 then ⟨1, cluster, i⟩ else { run with length := run.length + 1 }
        if total ≤ run.length then (run, true) else scanFree cluster total buf n (i + 1) run
      else scanFree cluster total buf n (i + 1) { run with length := 0 }

/-- Appends a zeroed cluster behind `cluster`; 0 when the volume is full. -/
def extendDirectory (cluster : Nat) (buf : Buf) : Fs (Nat × Buf) := do
  let newCluster ← allocateCluster
  if newCluster = 0 then pure (0, buf)
  else do
    fatSet cluster newCluster
    fatSet newCluster fatEoc
    let _ ← flushFat
    let s ← get
    let zeroed : Buf := fun j => if j < s.bytesPerCluster then 0 else buf j
    let _ ← writeCluster newCluster zeroed
    pure (newCluster, zeroed)

def findFreeRun (total : Nat) : Nat → Nat → Buf → FreeRun → Fs (Option (FreeRun × Buf))
  | 0, _, _, _ => fun _ => none
  | fuel + 1, cluster, buf, run =>
      if 2 ≤ cluster ∧ cluster < fatEoc then do
        let (ok, buf) ← readCluster cluster buf
        if ok then
          fun s => (match scanFree cluster total buf (entriesPerCluster s) 0 run with
            | (run, true) => pure (some (run, buf))
            | (run, false) => do
                let nextCluster ← fatGet cluster
                if fatEoc ≤ nextCluster then do
                  let (newCluster, buf) ← extendDirectory cluster buf
                  if newCluster = 0 then pure none
                  else findFreeRun total fuel newCluster buf run
                else findFreeRun total fuel nextCluster buf run : Fs (Option (FreeRun × Buf))) s
        else pure none
      else pure none

/-- Where `createEntry` writes next; the slots of `cluster` are in `buf`. -/
structure Cursor where
  buf : Buf
  writeIdx : Nat
  cluster : Nat

def writeLfnSlots (name : List UInt8) (checksum : UInt8) : Nat → Cursor → Fs (Option Cursor)
  | 0, cursor => pure (some cursor)
  | seq + 1, cursor => fun s =>
      let buf := setSlot cursor.buf cursor.writeIdx (lfnSlot name checksum (seq + 1))
      if entriesPerCluster s ≤ cursor.writeIdx + 1 then
        (do
          let _ ← writeCluster cursor.cluster buf
          let next ← fatGet cursor.cluster
          let (ok, buf) ← readCluster next buf
          if ok then writeLfnSlots name checksum seq ⟨buf, 0, next⟩
          else pure none) s
      else writeLfnSlots name checksum seq ⟨buf, cursor.writeIdx + 1, cursor.cluster⟩ s

/-- The `.` slot, or with `parent` the `..` slot. -/
def dotSlot (parent : Bool) (cluster : Nat) : DirEntry :=
  setFirstCluster (fun k =>
    if k = 0 then charDot
    else if k = 1 then (if parent then charDot else charSpace)
    else if k.val < 11 then charSpace
    else if k = 11 then DirAttr.directory else 0) cluster

/-- Allocates and initialises the cluster of a new directory; `none` on failure. -/
def initDirectory (dirCluster : Nat) : Fs (Option Nat) := do
  let contentCluster ← allocateCluster
  if contentCluster = 0 then pure none
  else
    match ← heapAlloc with
    | none => pure none
    | some dirBuf => do
        let s ← get
        let zeroed : Buf := fun j => if j < s.bytesPerCluster then 0 else dirBuf j
        let parentCluster := if dirCluster = s.rootCluster then 0 else dirCluster
        let filled := setSlot (setSlot zeroed 0 (dotSlot false contentCluster)) 1
          (dotSlot true parentCluster)
        let _ ← writeCluster contentCluster filled
        let _ ← flushFat
        pure (some contentCluster)

/-- The end of `createEntry`: the short slot goes to the cursor. -/
def writeShortSlot (dirCluster : Nat) (short : List UInt8) (attr : UInt8) (cursor : Cursor) :
    Fs (Option (Nat × Nat)) :=
  let finish := fun (slot : DirEntry) => do
    let _ ← writeCluster cursor.cluster (setSlot cursor.buf cursor.writeIdx slot)
    pure (some (cursor.cluster, cursor.writeIdx * dirEntrySize))
  if attr &&& DirAttr.directory != 0 then do
    match ← initDirectory dirCluster with
    | none => pure none
    | some contentCluster => finish (setFirstCluster (shortSlot short attr) contentCluster)
  else finish (shortSlot short attr)

/-- The location of the short entry, or `none` for `false`. -/
def createEntry (fuel dirCluster : Nat) (name : List UInt8) (attr : UInt8) :
    Fs (Option (Nat × Nat)) := do
  let short := nameToShort name
  let checksum := lfnChecksum short
  let slots := if needsLfn name then lfnCount name else 0
  match ← heapAlloc with
  | none => pure none
  | some clusterBuf =>
      match ← findFreeRun (slots + 1) fuel dirCluster clusterBuf ⟨0, 0, 0⟩ with
      | none => pure none
      | some (run, buf) => do
          let (ok, buf) ← readCluster run.cluster buf
          if ok then
            match ← writeLfnSlots name checksum slots ⟨buf, run.idx, run.cluster⟩ with
            | none => pure none
            | some cursor => writeShortSlot dirCluster short attr cursor
          else pure none

end Create

section Remove

/-- Marks the LFN slots directly before slot `j` as deleted. -/
def freeLfnBefore (buf : Buf) : Nat → Buf
  | 0 => buf
  | j + 1 =>
      if isLfnEntry (slotAt buf j) then
        freeLfnBefore (setSlot buf j (setName0 (slotAt buf j) dirEntryFree)) j
      else buf

def findPrevious (entryCluster : Nat) : Nat → Nat → Nat → Fs Nat
  | 0, _, _ => fun _ => none
  | fuel + 1, prevCluster, cur =>
      if cur ≠ entryCluster ∧ 2 ≤ cur ∧ cur < fatEoc then do
        let next ← fatGet cur
        findPrevious entryCluster fuel cur next
      else pure prevCluster

/-- Deletes the LFN slots at the end of the cluster before `entryCluster`. -/
def cleanPrevious (fuel dirCluster entryCluster : Nat) : Fs PUnit := do
  let prevCluster ← findPrevious entryCluster fuel dirCluster dirCluster
  if prevCluster = entryCluster then pure PUnit.unit
  else
    match ← heapAlloc with
    | none => pure PUnit.unit
    | some prevBuf => do
        let (ok, prevBuf) ← readCluster prevCluster prevBuf
        if ok then do
          let s ← get
          let _ ← writeCluster prevCluster (freeLfnBefore prevBuf (entriesPerCluster s))
          pure PUnit.unit
        else pure PUnit.unit

/-- The deletion of the slots of an entry found at `cluster` and `offset`. -/
def deleteSlots (fuel dirCluster : Nat) (found : Found) : Fs Bool := do
  match ← heapAlloc with
  | none => pure false
  | some clusterBuf => do
      let (ok, buf) ← readCluster found.cluster clusterBuf
      if ok then do
        let shortIdx := found.offset / dirEntrySize
        let buf := freeLfnBefore
          (setSlot buf shortIdx (setName0 (slotAt buf shortIdx) dirEntryFree)) shortIdx
        let first := slotAt buf 0
        let _ ← (if shortIdx = 0 ∨ isLfnEntry first ∧ ¬ isFree first then
          cleanPrevious fuel dirCluster found.cluster else pure PUnit.unit)
        let _ ← writeCluster found.cluster buf
        let _ ← flushFat
        pure true
      else pure false

def removeEntry (fuel dirCluster : Nat) (name : List UInt8) : Fs Bool := do
  match ← findEntry fuel dirCluster name with
  | none => pure false
  | some found =>
      let contentCluster := firstCluster found.entry
      if isDirectory found.entry then do
        match ← readDirEntry fuel contentCluster 0 maxName with
        | some _ => pure false
        | none => do
            freeChain fuel contentCluster
            deleteSlots fuel dirCluster found
      else if 2 ≤ contentCluster then do
        freeChain fuel contentCluster
        deleteSlots fuel dirCluster found
      else deleteSlots fuel dirCluster found

end Remove

end CassiOS.Fat32.Filesystem
