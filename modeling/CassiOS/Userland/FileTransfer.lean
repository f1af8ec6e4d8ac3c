import CassiOS.Fat32.CacheTransparency
import CassiOS.Fat32.RoundTrip
import CassiOS.Userland.VfsService

/-!
# Files through the VFS service

A client that writes a file through the service and reads it back in any pieces gets the
bytes it sent, as long as they fit the service's buffer. Of a longer request the kernel
delivers the part that fits, and the service takes the rest from behind its buffer.
-/

namespace CassiOS.Userland.FileTransfer

open CassiOS.Support.PartialProgram
open CassiOS.Support.Chain
open CassiOS.Fat32.Types
open CassiOS.Fat32
open CassiOS.Fat32.Device
open CassiOS.Fat32.Operations
open CassiOS.Fat32.VolumeModel
open CassiOS.Fat32.FileModel
open CassiOS.Fat32.StoredFile
open CassiOS.Fat32.RoundTrip
open CassiOS.Fat32.DataReads
open CassiOS.Userland.Messages
open CassiOS.Userland.VfsService

set_option autoImplicit false

section Reading

/-- Reads a file in pieces, in round `k` with a buffer of `sizes k` bytes, until nothing comes. -/
def readBack (fuel : Nat) (handle : UInt32) (sizes : Nat → UInt32) :
    Nat → Nat → Nat → Service → Option (List UInt8 × Service)
  | 0, _, _, _ => none
  | rounds + 1, k, offset, service => do
      let ((count, buf), service) ←
        Vfs.read fuel handle (UInt32.ofNat offset) (fun _ => 0) (sizes k) service
      if count = 0 then pure ([], service)
      else do
        let (bytes, service) ←
          readBack fuel handle sizes rounds (k + 1) (offset + count.toNat) service
        pure ((List.range count.toNat).map buf ++ bytes, service)

/-- The first `len` bytes of the data and then no more, whatever buffers they are read with. -/
def ReadsBack (handle : UInt32) (data : Buf) (len : Nat) (service : Service) : Prop :=
  ∀ fuel sizes rounds, bufSize < fuel → (∀ k, sizes k ≠ 0) → len < rounds →
    (readBack fuel handle sizes rounds 0 0 service).map Prod.fst =
      some ((List.range len).map data)

variable {faults : Faults} {w : Volume} {handle : UInt32} {data : Buf} {len : Nat}

/-- The file of the handle has the first `len` bytes of the data. -/
def FileReads (faults : Faults) (w : Volume) (handle : UInt32) (data : Buf) (len : Nat) : Prop :=
  ∀ fuel offset buf n, n < fuel → Achieves (Stands faults) (read fuel handle.toNat offset buf n) w
    fun answer w' => w' = w ∧ ReadsData data len offset buf n answer

/-- How many bytes a read from `offset` returns: as many as the buffers hold and the file has. -/
def pieceLength (bufLen len offset : Nat) : Nat := min (min bufLen bufSize) (len - offset)

theorem vfs_read_returns (file : FileReads faults w handle data len) {fuel : Nat}
    (enough : bufSize < fuel) {service : Service} (stands : Stands faults service.fs w)
    (offset : UInt32) (buf : Buf) (bufLen : UInt32) :
    ∃ out service', Vfs.read fuel handle offset buf bufLen service =
        some (((pieceLength bufLen.toNat len offset.toNat : Int), out), service') ∧
      Stands faults service'.fs w ∧
      ∀ i, i < pieceLength bufLen.toNat len offset.toNat → out i = data (offset.toNat + i) := by
  have limit : (if bufLen.toNat < bufSize then bufLen.toNat else bufSize) =
      min bufLen.toNat bufSize := by
    split <;> omega
  unfold pieceLength
  generalize countEq : min (min bufLen.toNat bufSize) (len - offset.toNat) = count
  have small : count ≤ 4096 := by
    unfold bufSize at countEq
    omega
  generalize bufferEq : bulkCopy (fun i => if i < bufLen.toNat then 0 else buf i) bufLen.toNat
    service.dataBuf bufSize = dataBuf
  obtain ⟨⟨bytesRead, after⟩, fs, _, run, stands', rfl, reads⟩ := file fuel offset.toNat dataBuf
    (min bufLen.toNat bufSize) (by omega) service.fs stands
  have value : bytesRead = (count : Int) := by
    have returned := reads.count
    rw [countEq, toI32, if_pos (by omega)] at returned
    exact returned
  have bytes := reads.bytes
  rw [countEq] at bytes
  subst value
  unfold Vfs.read
  dsimp only
  rw [bufferEq]
  unfold serveRead
  dsimp only
  rw [limit, run]
  simp only [Option.bind_eq_bind, Option.bind_some, Option.pure_def]
  have word : (UInt32.ofNat (Int.toNat (count : Int))).toNat = count := by
    rw [Int.toNat_natCast, UInt32.toNat_ofNat']
    omega
  rw [if_pos (Int.natCast_nonneg count), word, toI32, if_pos (by omega)]
  refine ⟨_, _, rfl, stands', ?_⟩
  intro i inside
  rw [bulk_copy_at, if_pos]
  · exact bytes i inside
  · rw [if_pos (by omega), Int.toNat_natCast]
    omega

theorem read_back_collects (file : FileReads faults w handle data len) (fits : len < 2 ^ 32)
    {fuel : Nat} (enough : bufSize < fuel) {sizes : Nat → UInt32} (nonempty : ∀ k, sizes k ≠ 0)
    (rounds k offset : Nat) (inside : offset ≤ len) (left : len - offset < rounds)
    {service : Service} (stands : Stands faults service.fs w) :
    ∃ service', readBack fuel handle sizes rounds k offset service =
      some ((List.range (len - offset)).map (fun i => data (offset + i)), service') := by
  induction rounds generalizing k offset service with
  | zero => exact absurd left (Nat.not_lt_zero _)
  | succ rounds ih =>
      have position : (UInt32.ofNat offset).toNat = offset := by
        rw [UInt32.toNat_ofNat']
        omega
      obtain ⟨out, next, run, stands', bytes⟩ := vfs_read_returns file enough stands
        (UInt32.ofNat offset) (fun _ => 0) (sizes k)
      rw [position] at run bytes
      have positive : (sizes k).toNat ≠ 0 := fun zero =>
        nonempty k (UInt32.toNat_inj.1 zero)
      unfold pieceLength bufSize at run bytes
      generalize countEq : min (min (sizes k).toNat 4096) (len - offset) = count at run bytes
      unfold readBack
      rw [run]
      simp only [Option.bind_eq_bind, Option.bind_some, Option.pure_def]
      split
      · have ended : len - offset = 0 := by omega
        rw [ended]
        exact ⟨next, rfl⟩
      · rw [Int.toNat_natCast]
        obtain ⟨last, rest⟩ := ih (k + 1) (offset + count) (by omega) (by omega) stands'
        rw [rest, Option.bind_some]
        refine ⟨last, ?_⟩
        have pieces : len - offset = count + (len - (offset + count)) := by omega
        have front : (List.range count).map out =
            (List.range count).map fun i => data (offset + i) :=
          List.map_congr_left fun i member => bytes i (List.mem_range.1 member)
        rw [pieces, List.range_add, List.map_append, List.map_map, front]
        simp only [Function.comp_def, Nat.add_assoc]

end Reading

section Writing

variable {faults : Faults} {v : Volume} {service service' : Service} {handle len : UInt32}
  {data : Buf} {reads : List DataRead} {fuel : Nat}

/-- The service read only bytes that the kernel delivered with the request. -/
def OnlyDelivered (len : Nat) (reads : List DataRead) : Prop :=
  ∀ r ∈ reads, r.offset + r.count ≤ min len bufSize

/-- What the service has at `dataBuf` when it gets the request. -/
def received (service : Service) (data : Buf) (len : UInt32) : Buf :=
  bulkCopy data len.toNat service.dataBuf bufSize

theorem vfs_write_run
    (written : Vfs.write fuel handle data len service = some ((0, reads), service')) :
    writeLogged fuel handle.toNat (received service data len) len.toNat service.fs =
      some ((true, reads), service'.fs) := by
  obtain ⟨_, served, answered⟩ := Option.bind_eq_some_iff.1 written
  obtain ⟨⟨⟨ok, copies⟩, fs⟩, run, same⟩ := Option.bind_eq_some_iff.1 served
  obtain rfl := Option.some.inj same
  obtain ⟨words, rfl⟩ := Prod.mk.inj (Option.some.inj answered)
  obtain ⟨word, rfl⟩ := Prod.mk.inj words
  cases ok with
  | true => exact run
  | false => cases word

/-- When a write was answered with 0, reading the file back yields the data, and the service
has read only delivered bytes, exactly when the data fit the service's buffer. -/
theorem file_written_iff (sure : faults.drive = false) (supplied : faults.heap = false)
    (stands : Stands faults service.fs v) {fh : FileHandle}
    (opened : openHandle v handle.toNat = some fh) {cs : List Nat}
    (agrees : FileOf v fh cs)
    (written : Vfs.write fuel handle data len service = some ((0, reads), service')) :
    ReadsBack handle data len.toNat service' ∧ OnlyDelivered len.toNat reads ↔
      len.toNat ≤ bufSize := by
  have small : v.fatEntryCount ≤ 0x0FFFFFF7 := stands.count ▸ stands.layout.entries
  have run := vfs_write_run written
  obtain ⟨w, stands', stores⟩ := write_logged_stores sure supplied small opened agrees.chain
    agrees.directory service.fs stands _ _ run
  obtain ⟨first, ⟨inside, last⟩, u, file, stored, rfl⟩ := stores rfl
  constructor
  · rintro ⟨_, only⟩
    by_contra long
    unfold bufSize at long
    obtain ⟨r, member, ends⟩ := last (by omega)
    have bound := only r member
    unfold bufSize at bound
    omega
  · intro fits
    have delivered : ∀ i, i < len.toNat → received service data len i = data i := fun i below => by
      unfold received
      rw [bulk_copy_at, if_pos (by omega)]
    constructor
    · intro fuel sizes rounds enough nonempty left
      have file : FileReads faults _ handle (received service data len) len.toNat :=
        fun fuel offset buf n more =>
          read_written_does sure supplied stored agrees opened fuel offset buf n more
      obtain ⟨after, collected⟩ := read_back_collects file len.toNat_lt enough nonempty rounds 0 0
        (Nat.zero_le _) left stands'
      rw [collected]
      refine congrArg some (List.map_congr_left fun i member => ?_)
      rw [Nat.zero_add]
      exact delivered i (List.mem_range.1 member)
    · intro r member
      have bound := inside r member
      omega

/-- A root directory in cluster 2 with an empty file in cluster 3, both of sixteen sectors. -/
def wideSectors (lba : Nat) : Sector := fun k =>
  if lba = 1 ∨ lba = 2 then
    if k.val % 4 = 0 then 0xF8 else if k.val % 4 = 3 then 0x0F else 0xFF
  else if lba = 3 then
    if k = 0 then 0x41 else if k.val < 11 then 0x20
    else if k = 11 then DirAttr.archive else if k = 26 then 3 else 0
  else 0

/-- The file is open as handle 1. -/
def wideVolume : Fat32Filesystem where
  ata := ⟨wideSectors, []⟩
  heap := ⟨[], fun _ => 0⟩
  bytesPerSector := 512
  sectorsPerCluster := 16
  bytesPerCluster := 8192
  reservedSectors := 1
  numFats := 2
  fatSize := 1
  fatStartSector := 1
  dataStartSector := 3
  rootCluster := 2
  totalClusters := 2
  fatEntryCount := 4
  handles := ⟨3, 0, 2, 0, false, true⟩ :: List.replicate 15 emptyHandle
  cache := List.replicate cacheSize emptyCacheEntry
  cacheAge := 0
  lfnOverrun := false

def wideService : Service := ⟨wideVolume, fun _ => 0⟩

def wideHandle : FileHandle := ⟨3, 0, 2, 0, false, true⟩

theorem wide_volume_stands : Stands ⟨false, false⟩ wideVolume (volumeOf wideVolume) where
  layout := by constructor <;> decide
  steady := CacheTransparency.steady_empty rfl rfl rfl
  content := rfl

theorem wide_volume_fat {c : Nat} (inside : c < 4) : (volumeOf wideVolume).fat c = fatEoc := by
  have all : ∀ c : Fin 4, (volumeOf wideVolume).fat c = fatEoc := by decide +kernel
  exact all ⟨c, inside⟩

theorem wide_file : FileOf (volumeOf wideVolume) wideHandle [3] where
  chain := by
    right
    refine ⟨⟨⟨rfl, by decide, ?_⟩, by decide⟩, by decide⟩
    exact Nat.le_of_eq (wide_volume_fat (by decide)).symm
  directory := by decide
  taken := by
    rintro ⟨_, free⟩
    have used := wide_volume_fat (show 2 < 4 by decide)
    exact absurd (used.symm.trans free) (by decide)
  apart := by decide

theorem short_file_written : ∃ service' reads,
    Vfs.write 4 1 (fun _ => 0x42) 5 wideService = some ((0, reads), service') ∧
      ReadsBack 1 (fun _ => 0x42) (5 : UInt32).toNat service' ∧
      OnlyDelivered (5 : UInt32).toNat reads := by
  have run : (Vfs.write 4 1 (fun _ => 0x42) 5 wideService).map Prod.fst =
      some (0, [DataRead.mk 0 5]) := by decide +kernel
  obtain ⟨⟨_, service'⟩, written, rfl⟩ := Option.map_eq_some_iff.1 run
  have opened : openHandle (volumeOf wideVolume) (1 : UInt32).toNat = some wideHandle := rfl
  exact ⟨service', _, written, (file_written_iff rfl rfl wide_volume_stands opened
    wide_file written).2 (by decide)⟩

/-- With one byte more than the buffer the service reads a byte that was not delivered. -/
theorem long_file_undelivered :
    Stands ⟨false, false⟩ wideService.fs (volumeOf wideVolume) ∧
      openHandle (volumeOf wideVolume) 1 = some wideHandle ∧
      FileOf (volumeOf wideVolume) wideHandle [3] ∧
      ∃ service' reads,
        Vfs.write 4 1 (fun _ => 0x42) 4097 wideService = some ((0, reads), service') ∧
          ¬ OnlyDelivered 4097 reads := by
  have run : (Vfs.write 4 1 (fun _ => 0x42) 4097 wideService).map Prod.fst =
      some (0, [DataRead.mk 0 4097]) := by decide +kernel
  obtain ⟨⟨_, service'⟩, written, rfl⟩ := Option.map_eq_some_iff.1 run
  refine ⟨wide_volume_stands, rfl, wide_file,
    service', _, written, ?_⟩
  intro only
  have bound := only _ List.mem_cons_self
  revert bound
  decide

end Writing

end CassiOS.Userland.FileTransfer
