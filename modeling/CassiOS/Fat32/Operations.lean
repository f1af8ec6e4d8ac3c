import CassiOS.Fat32.Filesystem

/-!
# Public operations

`mount`, `createDirectory`, `remove`, `open`, `read`, `write`, `stat` and `listEntry`
of `fat32/filesystem.cpp`.
-/

namespace CassiOS.Fat32.Operations

open CassiOS.Support.PartialProgram
open CassiOS.Fat32.Types
open CassiOS.Fat32.Names
open CassiOS.Fat32.Device
open CassiOS.Fat32.Filesystem

set_option autoImplicit false

def setHandle (i : Nat) (update : FileHandle → FileHandle) : Fs PUnit := fun s =>
  some (PUnit.unit, { s with handles := s.handles.modify i update })

def emptyHandle : FileHandle := ⟨0, 0, 0, 0, false, false⟩

def emptyCacheEntry : CacheEntry := ⟨0, none, 0, false, false⟩

/-- The fields `mount` reads from the boot sector, at their byte offsets in `Bpb`. -/
def layoutFrom (boot : Buf) (s : Fat32Filesystem) : Fat32Filesystem :=
  let bytesPerSector := le16 (boot 11) (boot 12)
  let sectorsPerCluster := (boot 13).toNat
  let reservedSectors := le16 (boot 14) (boot 15)
  let numFats := (boot 16).toNat
  let totalSectors := le32 (boot 32) (boot 33) (boot 34) (boot 35)
  let fatSize := le32 (boot 36) (boot 37) (boot 38) (boot 39)
  let dataStartSector := u32 (reservedSectors + numFats * fatSize)
  let dataSectors := u32 (totalSectors + (4294967296 - dataStartSector))
  let totalClusters := dataSectors / sectorsPerCluster
  { s with
    bytesPerSector, sectorsPerCluster, reservedSectors, numFats, fatSize, dataStartSector,
    totalClusters
    bytesPerCluster := u32 (bytesPerSector * sectorsPerCluster)
    fatStartSector := reservedSectors
    rootCluster := le32 (boot 44) (boot 45) (boot 46) (boot 47)
    fatEntryCount := u32 (totalClusters + 2) }

/-- Allocating the handle table and the cache comes first. -/
def mount : Fs Bool := do
  match ← heapAlloc with
  | none => pure false
  | some _ => do
      modify fun s => { s with handles := List.replicate maxHandles emptyHandle }
      match ← heapAlloc with
      | none => pure false
      | some _ => do
          modify fun s => { s with cache := List.replicate cacheSize emptyCacheEntry, cacheAge := 0 }
          match ← readSector 0 with
          | none => pure false
          | some boot =>
              -- the division by `sectorsPerCluster` traps on zero
              if boot 13 = 0 then fun _ => none
              else do
                modify (layoutFrom fun j => sectorByte boot j)
                pure true

def createDirectory (fuel : Nat) (path : List UInt8) : Fs Bool := do
  match ← resolveParentPath fuel path maxName with
  | none => pure false
  | some (parentCluster, name) =>
      if name = [] then pure false
      else
        match ← findEntry fuel parentCluster name with
        | some _ => pure false
        | none => do
            let created ← createEntry fuel parentCluster name DirAttr.directory
            pure created.isSome

def remove (fuel : Nat) (path : List UInt8) : Fs Bool :=
  if path = [charSlash] then pure false
  else do
    match ← resolveParentPath fuel path maxName with
    | none => pure false
    | some (parentCluster, name) =>
        if name = [] then pure false else removeEntry fuel parentCluster name

/-- The part of `open` that reads a created entry back. -/
def readBack (entryCluster entryOffset : Nat) : Fs (Option DirEntry) := do
  match ← heapAlloc with
  | none => pure none
  | some sectorBuf => do
      let (_, buf) ← readCluster entryCluster sectorBuf
      pure (some (slotAt buf (entryOffset / dirEntrySize)))

/-- The part of `open` that creates a missing file. -/
def createFile (fuel : Nat) (path : List UInt8) : Fs (Option PathOut) := do
  match ← resolveParentPath fuel path maxName with
  | none => pure none
  | some (parentCluster, name) =>
      if name = [] then pure none
      else
        match ← createEntry fuel parentCluster name DirAttr.archive with
        | none => pure none
        | some (ec, eo) =>
            match ← readBack ec eo with
            | none => pure none
            | some entry => pure (some ⟨entry, ec, eo⟩)

/-- The part of `open` that gives a resolved file to a free handle; on a full table a
file that was just created is removed again. -/
def openEntry (fuel : Nat) (path : List UInt8) (created : Bool) (out : PathOut) : Fs Nat := fun s =>
  if isDirectory out.entry then some (0, s)
  else
    match s.handles.findIdx? (fun fh => !fh.inUse) with
    | some i =>
        (do
          setHandle i fun _ =>
            ⟨firstCluster out.entry, fileSize out.entry, out.entryCluster, out.entryOffset,
              false, true⟩
          pure (i + 1)) s
    | none =>
        if created then
          (do
            match ← resolveParentPath fuel path maxName with
            | none => pure 0
            | some (parentCluster, cname) => do
                let _ ← removeEntry fuel parentCluster cname
                pure 0) s
        else some (0, s)

def «open» (fuel : Nat) (path : List UInt8) (create : Bool) : Fs Nat := do
  let out ← junkOut
  match ← resolvePath fuel path out with
  | some (_, out) => openEntry fuel path false out
  | none =>
      if create then
        match ← createFile fuel path with
        | none => pure 0
        | some out => openEntry fuel path true out
      else pure 0

/-- `mem::copy(dst + dstOff, src + srcOff, n)`. -/
def copyBytes (dst : Buf) (dstOff : Nat) (src : Buf) (srcOff n : Nat) : Buf := fun j =>
  if dstOff ≤ j ∧ j < dstOff + n then src (srcOff + (j - dstOff)) else dst j

/-- The loop of `read`; `none` in the result is a failed cluster read. -/
def readLoop (startCluster offset toRead : Nat) :
    Nat → Nat → Buf → Buf → Fs (Option Nat × Buf)
  | 0, _, _, _ => fun _ => none
  | fuel + 1, bytesRead, buf, clusterBuf => fun s =>
      if bytesRead < toRead then
        (do
          let filePos := offset + bytesRead
          let cluster ← clusterAtOffset startCluster filePos
          if cluster = 0 ∨ fatEoc ≤ cluster then pure (some bytesRead, buf)
          else do
            let (ok, clusterBuf) ← readCluster cluster clusterBuf
            if ok then
              let clusterOffset := filePos % s.bytesPerCluster
              let chunk := min (s.bytesPerCluster - clusterOffset) (toRead - bytesRead)
              readLoop startCluster offset toRead fuel (bytesRead + chunk)
                (copyBytes buf bytesRead clusterBuf clusterOffset chunk) clusterBuf
            else pure (none, buf)) s
      else some ((some bytesRead, buf), s)

/-- `static_cast<i32>` of a `u32`. -/
def toI32 (n : Nat) : Int := if n < 2147483648 then n else (n : Int) - 4294967296

/-- Returns the count and what `buf` holds afterwards. -/
def read (fuel handle offset : Nat) (buf : Buf) (len : Nat) : Fs (Int × Buf) := fun s =>
  if handle = 0 ∨ maxHandles < handle then some ((-1, buf), s)
  else
    match s.handles[handle - 1]? with
    | none => some ((-1, buf), s)
    | some fh =>
        if fh.inUse then
          if fh.size ≤ offset then some ((0, buf), s)
          else (do
            match ← heapAlloc with
            | none => pure (-1, buf)
            | some clusterBuf => do
                let (count, buf) ←
                  readLoop fh.startCluster offset (min len (fh.size - offset)) fuel 0 buf clusterBuf
                match count with
                | none => pure (-1, buf)
                | some bytesRead => pure (toI32 bytesRead, buf)) s
        else some ((-1, buf), s)

/-- Stores start cluster and size of a file in its directory slot. -/
def updateEntry (dirCluster dirOffset size startCluster : Nat) (clusterBuf : Buf) : Fs Bool := do
  let (ok, buf) ← readCluster dirCluster clusterBuf
  if ok then do
    let idx := dirOffset / dirEntrySize
    let _ ← writeCluster dirCluster
      (setSlot buf idx (setFirstCluster (setFileSize (slotAt buf idx) size) startCluster))
    let _ ← flushFat
    pure true
  else pure false

/-- The cluster for the next chunk of `write`, allocated and linked when the chain has
ended; 0 when the volume is full. -/
def clusterForChunk (cluster prevCluster : Nat) : Fs Nat :=
  if cluster < 2 ∨ fatEoc ≤ cluster then do
    let newCluster ← allocateCluster
    if newCluster = 0 then pure 0
    else if 2 ≤ prevCluster then do
      fatSet prevCluster newCluster
      pure newCluster
    else pure newCluster
  else pure cluster

/-- The loop of `write`: the last cluster reached and the cluster buffer, or `none` when
the volume is full. -/
def writeLoop (data : Buf) (len : Nat) :
    Nat → Nat → Nat → Nat → Buf → Fs (Option (Nat × Buf))
  | 0, _, _, _, _ => fun _ => none
  | fuel + 1, bytesWritten, cluster, prevCluster, clusterBuf => fun s =>
      if bytesWritten < len then
        (do
          let cluster ← clusterForChunk cluster prevCluster
          if cluster = 0 then pure none
          else do
            let clusterOffset := bytesWritten % s.bytesPerCluster
            let chunk := min (s.bytesPerCluster - clusterOffset) (len - bytesWritten)
            let (_, clusterBuf) ← (if 0 < clusterOffset ∨ chunk < s.bytesPerCluster then
              readCluster cluster clusterBuf else pure (true, clusterBuf))
            let clusterBuf := copyBytes clusterBuf clusterOffset data bytesWritten chunk
            let _ ← writeCluster cluster clusterBuf
            if bytesWritten + chunk < len then do
              let next ← fatGet cluster
              writeLoop data len fuel (bytesWritten + chunk) next cluster clusterBuf
            else writeLoop data len fuel (bytesWritten + chunk) cluster prevCluster clusterBuf) s
      else some (some (cluster, clusterBuf), s)

/-- Cuts the chain behind the last cluster written. -/
def truncateChain (fuel cluster : Nat) : Fs PUnit :=
  if 2 ≤ cluster ∧ cluster < fatEoc then do
    let next ← fatGet cluster
    fatSet cluster fatEoc
    if 2 ≤ next ∧ next < fatEoc then freeChain fuel next else pure PUnit.unit
  else pure PUnit.unit

/-- `write` for a file that has a first cluster or gets no bytes. -/
def writeData (fuel i : Nat) (fh : FileHandle) (data : Buf) (len : Nat) (clusterBuf : Buf) :
    Fs Bool := do
  match ← writeLoop data len fuel 0 fh.startCluster 0 clusterBuf with
  | none => pure false
  | some (cluster, clusterBuf) => do
      truncateChain fuel cluster
      setHandle i fun fh => { fh with size := len }
      updateEntry fh.dirCluster fh.dirOffset len fh.startCluster clusterBuf

def write (fuel handle : Nat) (data : Buf) (len : Nat) : Fs Bool := fun s =>
  if handle = 0 ∨ maxHandles < handle then some (false, s)
  else
    match s.handles[handle - 1]? with
    | none => some (false, s)
    | some fh =>
        if fh.inUse then
          (do
            match ← heapAlloc with
            | none => pure false
            | some clusterBuf =>
                if len = 0 ∧ 2 ≤ fh.startCluster then do
                  freeChain fuel fh.startCluster
                  setHandle (handle - 1) fun fh => { fh with startCluster := 0, size := 0 }
                  updateEntry fh.dirCluster fh.dirOffset 0 0 clusterBuf
                else if fh.startCluster < 2 ∧ 0 < len then do
                  let newCluster ← allocateCluster
                  if newCluster = 0 then pure false
                  else do
                    setHandle (handle - 1) fun fh => { fh with startCluster := newCluster }
                    writeData fuel (handle - 1) { fh with startCluster := newCluster } data len
                      clusterBuf
                else writeData fuel (handle - 1) fh data len clusterBuf) s
        else some (false, s)

/-- 0 = not found, 1 = file, 2 = directory. -/
def stat (fuel : Nat) (path : List UInt8) : Fs Nat :=
  if path = [] then pure 0
  else if path = [charSlash] then pure 2
  else do
    let out ← junkOut
    match ← resolvePath fuel path out with
    | none => pure 0
    | some (_, out) => pure (if isDirectory out.entry then 2 else 1)

def listEntry (fuel : Nat) (path : List UInt8) (index nameMax : Nat) : Fs (Option (List UInt8)) := do
  let out ← junkOut
  match ← resolvePath fuel path out with
  | none => pure none
  | some (dirCluster, out) =>
      if isDirectory out.entry then do
        let found ← readDirEntry fuel dirCluster index nameMax
        pure (found.map Found.name)
      else pure none

end CassiOS.Fat32.Operations
