import CassiOS.Fat32.DataReads
import CassiOS.Userland.Messages

/-!
# Reading and writing files through the VFS service

`Vfs::read` and `Vfs::write` of `libs/vfs`, the kernel's copy of bulk data between the two
processes, and the cases of the service loop that answer them. The bytes of a request are
copied into the service's buffer as far as they fit; the number of bytes to write is a word
of the message.
-/

namespace CassiOS.Userland.VfsService

open CassiOS.Fat32.Types
open CassiOS.Fat32.Device
open CassiOS.Fat32.Operations
open CassiOS.Fat32.DataReads
open CassiOS.Userland.Messages

set_option autoImplicit false

section Transfer

def chunkSize : Nat := 256

/-- The loop of `copyDataToProcess` and `copyDataFromProcess` from `offset`. -/
def copyChunks (src : Buf) (len : Nat) : Nat → Nat → Buf → Buf
  | 0, _, dst => dst
  | rounds + 1, offset, dst =>
      if offset < len then
        let n := if chunkSize < len - offset then chunkSize else len - offset
        let chunk := copyBytes (fun _ => 0) 0 src offset n
        copyChunks src len rounds (offset + n) (copyBytes dst offset chunk 0 n)
      else dst

def copyData (dst src : Buf) (len : Nat) : Buf := copyChunks src len len 0 dst

/-- The bulk data of a send, a receive or a reply between two buffers. -/
def bulkCopy (src : Buf) (srcLen : Nat) (dst : Buf) (capacity : Nat) : Buf :=
  if 0 < srcLen ∧ 0 < capacity then
    copyData dst src (if srcLen < capacity then srcLen else capacity)
  else dst

end Transfer

section Service

/-- `BUF_SIZE`. -/
def bufSize : Nat := 4096

/-- The file system and the memory at `dataBuf`, of which `bufSize` bytes are the buffer. -/
structure Service where
  fs : Fat32Filesystem
  dataBuf : Buf

structure Reply where
  msg : Message
  data : Buf
  dataLen : Nat

/-- The case of `VfsRead`. -/
def serveRead (fuel : Nat) (msg : Message) (service : Service) : Option (Reply × Service) := do
  let reqLen := msg.arg3.toNat
  let maxRead := if reqLen < bufSize then reqLen else bufSize
  let ((bytesRead, dataBuf), fs) ←
    read fuel msg.arg1.toNat msg.arg2.toNat service.dataBuf maxRead service.fs
  let arg1 : UInt32 := if 0 ≤ bytesRead then UInt32.ofNat bytesRead.toNat else 0
  let replyDataLen := if 0 < bytesRead then bytesRead.toNat else 0
  pure (⟨{ Message.zero with arg1 := arg1 }, dataBuf, replyDataLen⟩, ⟨fs, dataBuf⟩)

/-- The case of `VfsWrite`, with what it reads of `dataBuf`. -/
def serveWrite (fuel : Nat) (msg : Message) (service : Service) :
    Option ((Reply × List DataRead) × Service) := do
  let ((ok, reads), fs) ←
    writeLogged fuel msg.arg1.toNat service.dataBuf msg.arg2.toNat service.fs
  let arg1 : UInt32 := if ok then 0 else 1
  pure ((⟨{ Message.zero with arg1 := arg1 }, fun _ => 0, 0⟩, reads), { service with fs := fs })

end Service

namespace Vfs

/-- Returns the count and what `buf` holds afterwards. -/
def read (fuel : Nat) (handle offset : UInt32) (buf : Buf) (bufLen : UInt32)
    (service : Service) : Option ((Int × Buf) × Service) := do
  let buf : Buf := fun i => if i < bufLen.toNat then 0 else buf i
  let msg : Message :=
    { Message.zero with type := MessageType.vfsRead, arg1 := handle, arg2 := offset, arg3 := bufLen }
  let dataBuf := bulkCopy buf bufLen.toNat service.dataBuf bufSize
  let (reply, service) ← serveRead fuel msg { service with dataBuf := dataBuf }
  pure ((toI32 reply.msg.arg1.toNat, bulkCopy reply.data reply.dataLen buf bufLen.toNat), service)

/-- Returns the result, with what the service reads of its buffer. -/
def write (fuel : Nat) (handle : UInt32) (data : Buf) (len : UInt32) (service : Service) :
    Option ((UInt32 × List DataRead) × Service) := do
  let msg : Message :=
    { Message.zero with type := MessageType.vfsWrite, arg1 := handle, arg2 := len }
  let dataBuf := bulkCopy data len.toNat service.dataBuf bufSize
  let ((reply, reads), service) ← serveWrite fuel msg { service with dataBuf := dataBuf }
  pure ((reply.msg.arg1, reads), service)

end Vfs

section Copies

theorem copy_bytes_at (dst src : Buf) (dstOff srcOff n i : Nat) :
    copyBytes dst dstOff src srcOff n i =
      if dstOff ≤ i ∧ i < dstOff + n then src (srcOff + (i - dstOff)) else dst i := rfl

theorem copy_chunks_at (src : Buf) (len rounds offset : Nat) (dst : Buf)
    (enough : len - offset ≤ rounds) (i : Nat) :
    copyChunks src len rounds offset dst i = if offset ≤ i ∧ i < len then src i else dst i := by
  induction rounds generalizing offset dst with
  | zero => exact (if_neg (by omega)).symm
  | succ rounds ih =>
      unfold copyChunks
      split
      · next more =>
        dsimp only
        generalize chunk : (if chunkSize < len - offset then chunkSize else len - offset) = n
        have positive : 0 < n ∧ n ≤ len - offset := by
          unfold chunkSize at chunk
          split at chunk <;> omega
        rw [ih _ _ (by omega), copy_bytes_at, copy_bytes_at]
        by_cases later : offset + n ≤ i ∧ i < len
        · rw [if_pos later, if_pos (by omega)]
        · rw [if_neg later]
          by_cases here : offset ≤ i ∧ i < offset + n
          · rw [if_pos here, if_pos (by omega), if_pos (by omega)]
            congr 1
            omega
          · rw [if_neg here, if_neg (by omega)]
      · next ended => exact (if_neg (by omega)).symm

theorem bulk_copy_at (src : Buf) (srcLen : Nat) (dst : Buf) (capacity i : Nat) :
    bulkCopy src srcLen dst capacity i = if i < min srcLen capacity then src i else dst i := by
  unfold bulkCopy
  split
  · have fits : (if srcLen < capacity then srcLen else capacity) = min srcLen capacity := by
      split <;> omega
    rw [fits, copyData, copy_chunks_at _ _ _ _ _ (by omega)]
    exact if_congr (by omega) rfl rfl
  · exact (if_neg (by omega)).symm

end Copies

end CassiOS.Userland.VfsService
