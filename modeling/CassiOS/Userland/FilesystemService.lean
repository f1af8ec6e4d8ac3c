import CassiOS.Fat32.CallerBuffers
import CassiOS.Userland.DirectoryListing

/-!
# The file system behind the VFS service

The whole loop of the VFS service with the client of `libs/vfs`. One buffer takes the paths and
the data of all clients, so a request finds in it what the requests before have left. As long as
paths, data and names fit the buffers, nobody sees that: every client gets the answers that the
file system itself would give.
-/

namespace CassiOS.Userland.FilesystemService

open CassiOS.Support.PartialProgram
open CassiOS.Fat32.CallerBuffers
open CassiOS.Fat32.DataReads (writeLogged write_logged_forget)
open CassiOS.Fat32.Device
open CassiOS.Fat32.Operations
open CassiOS.Fat32.Types
open CassiOS.Userland.DirectoryListing
open CassiOS.Userland.Messages
open CassiOS.Userland.VfsService

set_option autoImplicit false

section Source

structure Received where
  sender : UInt32
  msg : Message
  data : Buf
  dataLen : Nat

def pathIn (dataBuf : Buf) : Chars := contents ((List.range bufSize).map dataBuf)

/-- The cases that hand on the path and answer with a word. -/
def servePath {α : Type} (operation : Chars → Fs α) (word : α → UInt32) (service : Service) :
    Option (Reply × Service) := do
  let (result, fs) ← operation (pathIn service.dataBuf) service.fs
  pure (⟨{ Message.zero with arg1 := word result }, fun _ => 0, 0⟩, { service with fs := fs })

def okWord (ok : Bool) : UInt32 := if ok then 0 else 1

def serveMkdir (fuel : Nat) : Service → Option (Reply × Service) :=
  servePath (createDirectory fuel) okWord

def serveRemove (fuel : Nat) : Service → Option (Reply × Service) :=
  servePath (remove fuel) okWord

def serveOpen (fuel : Nat) (msg : Message) : Service → Option (Reply × Service) :=
  servePath (fun path => «open» fuel path (msg.arg1 != 0)) UInt32.ofNat

def serveStat (fuel : Nat) : Service → Option (Reply × Service) :=
  servePath (stat fuel) UInt32.ofNat

/-- The `switch` of `_start`. -/
def serve (fuel : Nat) (msg : Message) (service : Service) : Option (Reply × Service) :=
  if msg.type = MessageType.vfsMkdir then serveMkdir fuel service
  else if msg.type = MessageType.vfsRemove then serveRemove fuel service
  else if msg.type = MessageType.vfsOpen then serveOpen fuel msg service
  else if msg.type = MessageType.vfsRead then serveRead fuel msg service
  else if msg.type = MessageType.vfsWrite then
    (serveWrite fuel msg service).map fun answer => (answer.1.1, answer.2)
  else if msg.type = MessageType.vfsList then
    (serveList fuel msg service).map fun answer => (answer.1.1, answer.2)
  else if msg.type = MessageType.vfsStat then serveStat fuel service
  else some (⟨Message.zero, fun _ => 0, 0⟩, service)

/-- One round of the loop. Only a process gets a reply. -/
def handle (fuel : Nat) (r : Received) (service : Service) : Option (Option Reply × Service) := do
  let dataBuf := bulkCopy r.data r.dataLen service.dataBuf bufSize
  let (reply, service) ← serve fuel r.msg { service with dataBuf := dataBuf }
  pure (if isSender r.sender then some reply else none, service)

/-- `ipc::send` of the process `pid`, which waits for the reply. -/
def send (fuel : Nat) (pid : UInt32) (msg : Message) (data : Buf) (dataLen : Nat)
    (service : Service) : Option (Reply × Service) := do
  let (reply, service) ← handle fuel ⟨pid, msg, data, dataLen⟩ service
  reply.map fun reply => (reply, service)

/-- The loop at the start of `Vfs::read`. -/
def cleared (buf : Buf) (bufLen : Nat) : Buf := fun i => if i < bufLen then 0 else buf i

namespace Vfs

variable (fuel : Nat) (pid : UInt32)

def sendPath (type arg1 : UInt32) (path : Chars) (service : Service) :
    Option (UInt32 × Service) := do
  let msg : Message := { Message.zero with type := type, arg1 := arg1 }
  let (reply, service) ← send fuel pid msg (charAt path) (pathLen path + 1) service
  pure (reply.msg.arg1, service)

def mkdir (path : Chars) : Service → Option (UInt32 × Service) :=
  sendPath fuel pid MessageType.vfsMkdir 0 path

def remove (path : Chars) : Service → Option (UInt32 × Service) :=
  sendPath fuel pid MessageType.vfsRemove 0 path

def openFile (path : Chars) (create : Bool) : Service → Option (UInt32 × Service) :=
  sendPath fuel pid MessageType.vfsOpen (if create then 1 else 0) path

def stat (path : Chars) : Service → Option (UInt32 × Service) :=
  sendPath fuel pid MessageType.vfsStat 0 path

/-- Returns the count and what `buf` holds afterwards. -/
def read (handle offset : UInt32) (buf : Buf) (bufLen : UInt32) (service : Service) :
    Option ((Int × Buf) × Service) := do
  let buf := cleared buf bufLen.toNat
  let msg : Message := { Message.zero with
    type := MessageType.vfsRead, arg1 := handle, arg2 := offset, arg3 := bufLen }
  let (reply, service) ← send fuel pid msg buf bufLen.toNat service
  pure ((toI32 reply.msg.arg1.toNat, bulkCopy reply.data reply.dataLen buf bufLen.toNat), service)

def write (handle : UInt32) (data : Buf) (len : UInt32) (service : Service) :
    Option (UInt32 × Service) := do
  let msg : Message :=
    { Message.zero with type := MessageType.vfsWrite, arg1 := handle, arg2 := len }
  let (reply, service) ← send fuel pid msg data len.toNat service
  pure (reply.msg.arg1, service)

/-- Returns whether there is such an entry and what `nameOut` holds afterwards. -/
def list (path : Chars) (index : UInt32) (nameOut : Buf) (nameMax : UInt32) (stack : Buf)
    (service : Service) : Option ((Bool × Buf) × Service) := do
  let buf := filled path stack
  let (reply, service) ← send fuel pid (listRequest path index) buf listBufSize service
  let buf := bulkCopy reply.data reply.dataLen buf listBufSize
  if reply.msg.arg1 = 0 then pure ((false, nameOut), service)
  else pure ((true, (copyName buf (nameMax - 1).toNat 0 nameOut).nameOut), service)

end Vfs

end Source

section Histories

inductive Call where
  | mkdir (path : Chars)
  | remove (path : Chars)
  | openFile (path : Chars) (create : Bool)
  | stat (path : Chars)
  | read (handle offset : UInt32) (buf : Buf) (bufLen : UInt32)
  | write (handle : UInt32) (data : Buf) (len : UInt32)
  | list (path : Chars) (index : UInt32) (nameOut : Buf) (nameMax : UInt32) (stack : Buf)

inductive Answer where
  | word (value : UInt32)
  | bytes (count : Int) (buf : Buf)
  | name (found : Bool) (nameOut : Buf)

def Vfs.call (fuel : Nat) (pid : UInt32) : Call → Service → Option (Answer × Service)
  | .mkdir path, s => (Vfs.mkdir fuel pid path s).map fun r => (.word r.1, r.2)
  | .remove path, s => (Vfs.remove fuel pid path s).map fun r => (.word r.1, r.2)
  | .openFile path create, s => (Vfs.openFile fuel pid path create s).map fun r => (.word r.1, r.2)
  | .stat path, s => (Vfs.stat fuel pid path s).map fun r => (.word r.1, r.2)
  | .read handle offset buf bufLen, s =>
      (Vfs.read fuel pid handle offset buf bufLen s).map fun r => (.bytes r.1.1 r.1.2, r.2)
  | .write handle data len, s =>
      (Vfs.write fuel pid handle data len s).map fun r => (.word r.1, r.2)
  | .list path index nameOut nameMax stack, s =>
      (Vfs.list fuel pid path index nameOut nameMax stack s).map fun r => (.name r.1.1 r.1.2, r.2)

/-- Calls of clients, and the other messages that the service gets between them. -/
inductive Event where
  | call (pid : UInt32) (c : Call)
  | other (r : Received)

def served (fuel : Nat) : Service → List Event → Option (List Answer × Service)
  | s, [] => some ([], s)
  | s, .call pid c :: rest => do
      let (answer, s) ← Vfs.call fuel pid c s
      let (answers, s) ← served fuel s rest
      pure (answer :: answers, s)
  | s, .other r :: rest => do
      let (_, s) ← handle fuel r s
      served fuel s rest

/-- A name of which at most `limit` characters are copied. -/
def copied (name : Chars) (limit : Nat) (nameOut : Buf) : Buf := fun j =>
  if j < min (contents name).length limit then charAt name j
  else if j = min (contents name).length limit then 0 else nameOut j

/-- The call on the file system itself. A read that fails is one of no bytes. -/
def direct (fuel : Nat) : Call → Fs Answer
  | .mkdir path => do
      let ok ← createDirectory fuel (contents path)
      pure (.word (if ok then 0 else 1))
  | .remove path => do
      let ok ← remove fuel (contents path)
      pure (.word (if ok then 0 else 1))
  | .openFile path create => do
      let handle ← «open» fuel (contents path) create
      pure (.word (UInt32.ofNat handle))
  | .stat path => do
      let kind ← stat fuel (contents path)
      pure (.word (UInt32.ofNat kind))
  | .read handle offset buf bufLen => do
      let buf := cleared buf bufLen.toNat
      let (count, out) ←
        Fat32.Operations.read fuel handle.toNat offset.toNat buf (min bufLen.toNat bufSize)
      pure (if count < 0 then .bytes 0 buf else .bytes count out)
  | .write handle data len => do
      let ok ← Fat32.Operations.write fuel handle.toNat data len.toNat
      pure (.word (if ok then 0 else 1))
  | .list path index nameOut nameMax _ => do
      match ← listEntry fuel (contents path) index.toNat maxName with
      | none => pure (.name false nameOut)
      | some name => pure (.name true (copied name (nameMax.toNat - 1) nameOut))

def answered (fuel : Nat) : Fat32Filesystem → List Event → Option (List Answer × Fat32Filesystem)
  | fs, [] => some ([], fs)
  | fs, .call _ c :: rest => do
      let (answer, fs) ← direct fuel c fs
      let (answers, fs) ← answered fuel fs rest
      pure (answer :: answers, fs)
  | fs, .other _ :: rest => answered fuel fs rest

/-- What is sent fits the buffer of the service, and what is listed that of the client. -/
def FitsBuffers (fuel : Nat) (fs : Fat32Filesystem) : Call → Prop
  | .mkdir path => (contents path).length < bufSize
  | .remove path => (contents path).length < bufSize
  | .openFile path _ => (contents path).length < bufSize
  | .stat path => (contents path).length < bufSize
  | .read _ _ _ _ => True
  | .write _ _ len => len.toNat ≤ bufSize
  | .list path index _ nameMax _ => (contents path).length < listBufSize ∧ 1 ≤ nameMax.toNat ∧
      ∀ name fs', listEntry fuel (contents path) index.toNat maxName fs = some (some name, fs') →
        (contents name).length < listBufSize ∨ nameMax.toNat ≤ listBufSize + 1

def requestTypes : List UInt32 :=
  [MessageType.vfsMkdir, MessageType.vfsRemove, MessageType.vfsOpen, MessageType.vfsRead,
    MessageType.vfsWrite, MessageType.vfsList, MessageType.vfsStat]

/-- The clients are processes whose calls fit, and the other messages are no requests. -/
def Careful (fuel : Nat) : Fat32Filesystem → List Event → Prop
  | _, [] => True
  | fs, .call pid c :: rest => isSender pid ∧ FitsBuffers fuel fs c ∧
      ∀ answer fs', direct fuel c fs = some (answer, fs') → Careful fuel fs' rest
  | fs, .other r :: rest => r.msg.type ∉ requestTypes ∧ Careful fuel fs rest

end Histories

section Calls

variable {fuel : Nat} {pid : UInt32} {service : Service}

def seen {α : Type} (run : Option (α × Service)) : Option (α × Fat32Filesystem) :=
  run.map fun r => (r.1, r.2.fs)

theorem seen_map {α β : Type} (wrap : α → β) (run : Option (α × Service)) :
    seen (run.map fun r => (wrap r.1, r.2)) = (seen run).map fun r => (wrap r.1, r.2) := by
  cases run <;> rfl

theorem bind_pure_run {α β : Type} (program : Fs α) (wrap : α → β) (fs : Fat32Filesystem) :
    (program >>= fun a => pure (wrap a)) fs = (program fs).map fun r => (wrap r.1, r.2) := by
  change (program fs).bind _ = _
  cases program fs <;> rfl

theorem send_served (sender : isSender pid) (msg : Message) (data : Buf) (dataLen : Nat) :
    send fuel pid msg data dataLen service =
      serve fuel msg ⟨service.fs, bulkCopy data dataLen service.dataBuf bufSize⟩ := by
  unfold send handle
  dsimp only
  cases serve fuel msg ⟨service.fs, bulkCopy data dataLen service.dataBuf bufSize⟩ with
  | none => rfl
  | some r =>
      simp only [Option.bind_eq_bind, Option.bind_some, Option.pure_def, if_pos sender,
        Option.map_some]

/-- A path that fits arrives, whatever the buffer has held before. -/
theorem path_arrives (path : Chars) (dataBuf : Buf) (fits : (contents path).length < bufSize) :
    pathIn (bulkCopy (charAt path) (pathLen path + 1) dataBuf bufSize) = contents path := by
  have length : pathLen path = (contents path).length := length_of_contents path
  apply contents_of_start (no_nul_in_contents path)
  apply List.prefix_iff_getElem?.2
  intro i inside
  rw [List.length_append, List.length_singleton] at inside
  rw [List.getElem?_map, List.getElem?_range (by omega), Option.map_some, bulk_copy_at,
    if_pos (by omega)]
  by_cases last : i = (contents path).length
  · subst last
    rw [char_at_end, List.getElem_concat_length]
    rfl
  · have before : i < (contents path).length := by omega
    rw [List.getElem_append_left before, char_at_contents path before]

theorem path_served {α : Type} (sender : isSender pid) {path : Chars} {type arg1 : UInt32}
    (fits : (contents path).length < bufSize) {operation : Chars → Fs α} {word : α → UInt32}
    (chosen : ∀ s, serve fuel { Message.zero with type := type, arg1 := arg1 } s =
      servePath operation word s) :
    seen (Vfs.sendPath fuel pid type arg1 path service) =
      (operation (contents path) service.fs).map fun r => (word r.1, r.2) := by
  unfold Vfs.sendPath
  dsimp only
  rw [send_served sender, chosen]
  unfold servePath
  dsimp only
  rw [path_arrives path _ fits]
  cases operation (contents path) service.fs <;> rfl

theorem write_served (sender : isSender pid) (handle : UInt32) (data : Buf) {len : UInt32}
    (fits : len.toNat ≤ bufSize) :
    seen (Vfs.write fuel pid handle data len service) =
      (Fat32.Operations.write fuel handle.toNat data len.toNat service.fs).map
        fun r => (okWord r.1, r.2) := by
  have delivered : ∀ i, i < len.toNat →
      bulkCopy data len.toNat service.dataBuf bufSize i = data i := by
    intro i inside
    rw [bulk_copy_at, if_pos (by omega)]
  unfold Vfs.write
  dsimp only
  rw [send_served sender]
  unfold serve
  dsimp only
  rw [if_neg (by decide), if_neg (by decide), if_neg (by decide), if_neg (by decide), if_pos rfl]
  rw [← write_takes_bytes delivered, ← write_logged_forget]
  unfold serveWrite
  dsimp only
  cases writeLogged fuel handle.toNat (bulkCopy data len.toNat service.dataBuf bufSize) len.toNat
    service.fs with
  | none => rfl
  | some r => rfl

/-- The bytes come back that the file system has put into the buffer of the service. -/
theorem read_served (sender : isSender pid) (handle offset : UInt32) (buf : Buf)
    (bufLen : UInt32) :
    seen (Vfs.read fuel pid handle offset buf bufLen service) =
      (Fat32.Operations.read fuel handle.toNat offset.toNat (cleared buf bufLen.toNat)
        (min bufLen.toNat bufSize) service.fs).map
        fun r => (if r.1.1 < 0 then (0, cleared buf bufLen.toNat) else r.1, r.2) := by
  have limit : (if bufLen.toNat < bufSize then bufLen.toNat else bufSize) =
      min bufLen.toNat bufSize := by
    split <;> omega
  obtain ⟨run, same, bounds⟩ :=
    read_fills fuel handle.toNat offset.toNat (min bufLen.toNat bufSize) service.fs
  dsimp only at same
  unfold Vfs.read
  dsimp only
  rw [send_served sender]
  unfold serve
  dsimp only
  rw [if_neg (by decide), if_neg (by decide), if_neg (by decide), if_pos rfl]
  unfold serveRead
  dsimp only
  rw [limit, same, same]
  cases run with
  | none => rfl
  | some r =>
      obtain ⟨⟨count, stop, bytes⟩, fs⟩ := r
      obtain ⟨_, room, counted⟩ := bounds _ rfl
      dsimp only at room counted
      unfold bufSize at room
      simp only [Option.map_some, Option.bind_eq_bind, Option.bind_some, Option.pure_def, seen]
      rcases counted with rfl | counted
      · rw [if_neg (by decide), if_neg (by decide), if_pos (by decide)]
        have nothing : ∀ src : Buf, bulkCopy src 0 (cleared buf bufLen.toNat) bufLen.toNat =
            cleared buf bufLen.toNat := fun src => if_neg fun some => Nat.lt_irrefl 0 some.1
        rw [nothing]
        rfl
      · have value : count = (stop : Int) := by
          rw [counted, toI32, if_pos (by omega)]
        subst value
        have word : (UInt32.ofNat (Int.toNat (stop : Int))).toNat = stop := by
          rw [Int.toNat_natCast, UInt32.toNat_ofNat']
          omega
        have length : (if 0 < (stop : Int) then (stop : Int).toNat else 0) = stop := by
          split <;> omega
        rw [if_pos (Int.natCast_nonneg stop), word, ← counted, length,
          if_neg (Int.not_lt.2 (Int.natCast_nonneg stop))]
        have bytes : bulkCopy (Fetched.into ⟨(stop : Int), stop, bytes⟩ 0
            (bulkCopy (cleared buf bufLen.toNat) bufLen.toNat service.dataBuf bufSize)) stop
              (cleared buf bufLen.toNat) bufLen.toNat =
            Fetched.into ⟨(stop : Int), stop, bytes⟩ 0 (cleared buf bufLen.toNat) := by
          funext i
          rw [bulk_copy_at]
          unfold Fetched.into
          dsimp only
          by_cases inside : i < stop
          · rw [if_pos (by omega), if_pos ⟨Nat.zero_le i, inside⟩, if_pos ⟨Nat.zero_le i, inside⟩]
          · rw [if_neg (by omega), if_neg (by omega)]
        rw [bytes]

section Listing

variable {path name : Chars} {limit : Nat}

/-- The loop of `list` copies the name and stops at its NUL or at the limit. -/
theorem name_copied (path : Chars) (nameOut stack : Buf)
    (fits : (contents name).length < listBufSize ∨ limit ≤ listBufSize) :
    (copyName (DirectoryListing.answered path stack name) limit 0 nameOut).nameOut =
      copied name limit nameOut := by
  obtain ⟨n, copies⟩ := copy_name_copies (DirectoryListing.answered path stack name) limit 0 nameOut
  have within := copies.within
  have before := copies.before
  have stopped := copies.stopped
  simp only [Nat.zero_add] at before stopped
  have character : ∀ i, i < (contents name).length → charAt name i ≠ 0 := by
    intro i inside nul
    rw [← char_at_contents name inside] at nul
    exact no_nul_in_contents name (nul ▸ List.getElem_mem inside)
  have high : n ≤ (contents name).length := by
    by_contra beyond
    apply before (contents name).length (by omega)
    rw [answered_at path stack name (by omega) (Nat.le_refl _), char_at_end]
  have low : n < limit → (contents name).length ≤ n := by
    intro less
    by_contra short
    have nul := stopped less
    rw [answered_at path stack name (by omega) (by omega)] at nul
    exact character n (by omega) nul
  have length : min (contents name).length limit = n := by omega
  funext j
  rw [copies.result, copied, length, Nat.zero_add]
  by_cases inside : j < n
  · rw [if_pos ⟨Nat.zero_le j, inside⟩, if_pos inside]
    exact answered_at path stack name (by omega) (by omega)
  · rw [if_neg (by omega), if_neg inside]

theorem list_served (sender : isSender pid) (index : UInt32) (nameOut stack : Buf)
    {nameMax : UInt32} (short : (contents path).length < listBufSize) (room : 1 ≤ nameMax.toNat)
    (fits : ∀ name fs', listEntry fuel (contents path) index.toNat maxName service.fs =
      some (some name, fs') →
        (contents name).length < listBufSize ∨ nameMax.toNat ≤ listBufSize + 1) :
    seen (Vfs.list fuel pid path index nameOut nameMax stack service) =
      (listEntry fuel (contents path) index.toNat maxName service.fs).map fun r =>
        ((r.1.isSome, r.1.elim nameOut fun name => copied name (nameMax.toNat - 1) nameOut),
          r.2) := by
  have limit : (nameMax - 1).toNat = nameMax.toNat - 1 :=
    UInt32.toNat_sub_of_le _ _ (UInt32.le_iff_toNat_le.2 room)
  have asked := (asked_path path stack service).trans ((asked_whole_iff path).2 short)
  unfold Vfs.list
  dsimp only
  rw [send_served sender]
  unfold serve listRequest
  dsimp only
  rw [if_neg (by decide), if_neg (by decide), if_neg (by decide), if_neg (by decide),
    if_neg (by decide), if_pos rfl]
  unfold serveList
  dsimp only
  rw [asked]
  cases listed : listEntry fuel (contents path) index.toNat maxName service.fs with
  | none => rfl
  | some r =>
      obtain ⟨found, fs⟩ := r
      cases found with
      | none => rfl
      | some name =>
          have copies := name_copied path nameOut stack
            ((fits name fs listed).imp_right fun small => show nameMax.toNat - 1 ≤ _ by omega)
          rw [← limit] at copies ⊢
          exact congrArg (fun out => some ((true, out), fs)) copies

end Listing

end Calls

section Refinement

variable {fuel : Nat} {service : Service}

theorem call_is_direct {pid : UInt32} (sender : isSender pid) {c : Call}
    (fits : FitsBuffers fuel service.fs c) :
    seen (Vfs.call fuel pid c service) = direct fuel c service.fs := by
  cases c with
  | mkdir path =>
      have answer : seen (Vfs.mkdir fuel pid path service) =
          (createDirectory fuel (contents path) service.fs).map fun r => (okWord r.1, r.2) :=
        path_served sender fits fun s => rfl
      unfold Vfs.call direct
      dsimp only
      rw [seen_map, answer, Option.map_map, bind_pure_run]
      rfl
  | remove path =>
      have answer : seen (Vfs.remove fuel pid path service) =
          (remove fuel (contents path) service.fs).map fun r => (okWord r.1, r.2) :=
        path_served sender fits fun s => rfl
      unfold Vfs.call direct
      dsimp only
      rw [seen_map, answer, Option.map_map, bind_pure_run]
      rfl
  | openFile path create =>
      have answer : seen (Vfs.openFile fuel pid path create service) =
          («open» fuel (contents path) create service.fs).map
            fun r => (UInt32.ofNat r.1, r.2) := by
        have chosen : ∀ s, serve fuel { Message.zero with
            type := MessageType.vfsOpen, arg1 := if create then 1 else 0 } s =
            servePath (fun path => «open» fuel path create) UInt32.ofNat s := by
          intro s
          cases create <;> rfl
        exact path_served sender fits chosen
      unfold Vfs.call direct
      dsimp only
      rw [seen_map, answer, Option.map_map, bind_pure_run]
      rfl
  | stat path =>
      have answer : seen (Vfs.stat fuel pid path service) =
          (stat fuel (contents path) service.fs).map fun r => (UInt32.ofNat r.1, r.2) :=
        path_served sender fits fun s => rfl
      unfold Vfs.call direct
      dsimp only
      rw [seen_map, answer, Option.map_map, bind_pure_run]
      rfl
  | read handle offset buf bufLen =>
      unfold Vfs.call direct
      dsimp only
      rw [seen_map (fun out : Int × Buf => Answer.bytes out.1 out.2), read_served sender,
        Option.map_map, bind_pure_run]
      apply Option.map_congr
      intro r _
      dsimp only [Function.comp]
      split <;> rfl
  | write handle data len =>
      unfold Vfs.call direct
      dsimp only
      rw [seen_map, write_served sender handle data fits, Option.map_map, bind_pure_run]
      rfl
  | list path index nameOut nameMax stack =>
      obtain ⟨short, room, names⟩ := fits
      unfold Vfs.call direct
      dsimp only
      rw [seen_map (fun out : Bool × Buf => Answer.name out.1 out.2),
        list_served sender index nameOut stack short room names, Option.map_map]
      change _ = (listEntry fuel (contents path) index.toNat maxName service.fs).bind _
      cases listEntry fuel (contents path) index.toNat maxName service.fs with
      | none => rfl
      | some r =>
          obtain ⟨_ | name, fs⟩ := r
          · rfl
          · rfl

theorem other_handled (fuel : Nat) (service : Service) {r : Received}
    (other : r.msg.type ∉ requestTypes) :
    ∃ reply dataBuf, handle fuel r service = some (reply, ⟨service.fs, dataBuf⟩) := by
  unfold requestTypes at other
  simp only [List.mem_cons, List.not_mem_nil, or_false, not_or] at other
  obtain ⟨mkdir, remove, openFile, read, write, list, stat⟩ := other
  unfold handle serve
  dsimp only
  rw [if_neg mkdir, if_neg remove, if_neg openFile, if_neg read, if_neg write, if_neg list,
    if_neg stat]
  exact ⟨_, _, rfl⟩

/-- Whatever the clients ask and in whatever order, and whatever the buffer of the service holds,
they get the answers of the file system, and it ends up as if they had called it directly. -/
theorem service_is_file_system {history : List Event} (careful : Careful fuel service.fs history) :
    seen (served fuel service history) = answered fuel service.fs history := by
  induction history generalizing service with
  | nil => rfl
  | cons event rest ih =>
      cases event with
      | other r =>
          obtain ⟨other, careful⟩ := careful
          obtain ⟨reply, dataBuf, handled⟩ := other_handled fuel service other
          unfold served answered
          rw [handled]
          exact ih careful
      | call pid c =>
          obtain ⟨sender, fits, later⟩ := careful
          have step := call_is_direct sender fits
          unfold served answered
          rw [← step]
          cases called : Vfs.call fuel pid c service with
          | none => rfl
          | some r =>
              have next := ih (later r.1 r.2.fs (by rw [← step, called]; rfl))
              simp only [seen, Option.map_some, Option.bind_eq_bind, Option.bind_some] at next ⊢
              rw [← next]
              cases served fuel r.2 rest <;> rfl

/-- A directory is made, a stray message fills the buffer, another client lists the root. -/
def mixedClients : List Event :=
  [.call 5 (.mkdir [0x2F, 0x61]), .other ⟨0, { Message.zero with type := 1 }, fun _ => 0x5A, 4096⟩,
    .call 6 (.list [0x2F] 0 (fun _ => 0) 66 fun _ => 0), .call 5 (.read 1 0 (fun _ => 7) 10)]

theorem mixed_clients_answered :
    seen (served 4 ⟨longVolume, fun _ => 0x77⟩ mixedClients) =
      answered 4 longVolume mixedClients := by
  have careful : Careful 4 (Service.mk longVolume fun _ => 0x77).fs mixedClients := by
    refine ⟨by decide, by unfold FitsBuffers; decide, fun _ fs _ => ⟨by decide, ?_⟩⟩
    refine ⟨by decide, ⟨by decide, by decide, fun _ _ _ => .inr (by decide)⟩, fun _ fs _ => ?_⟩
    exact ⟨by decide, trivial, fun _ _ _ => trivial⟩
  exact service_is_file_system careful

end Refinement

end CassiOS.Userland.FilesystemService
