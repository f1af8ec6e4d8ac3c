import CassiOS.Userland.Messages

/-!
# The nameserver

`packName` and `unpackName` of `libs/ns`, the table of `userspace/core/ns` and one round of
its request loop. Names go through four words of a message, so two names are one name for
the server when their first sixteen bytes are. The table holds, for each name, the process
that registered it first; the first of all is the server itself.
-/

namespace CassiOS.Userland.Nameserver

open CassiOS.Userland.Messages

set_option autoImplicit false

section Packing

def maxNameLen : Nat := 16

/-- `words[i]` with `words = &msg.arg1`. -/
def word (msg : Message) : Nat → UInt32
  | 0 => msg.arg1
  | 1 => msg.arg2
  | 2 => msg.arg3
  | _ => msg.arg4

def setWord (msg : Message) (i : Nat) (value : UInt32) : Message :=
  match i with
  | 0 => { msg with arg1 := value }
  | 1 => { msg with arg2 := value }
  | 2 => { msg with arg3 := value }
  | _ => { msg with arg4 := value }

/-- The loop of `packName` over at most `n` characters from `i`. -/
def packFrom (name : Chars) (i : Nat) : Nat → Message → Message
  | 0, msg => msg
  | n + 1, msg =>
      if charAt name i ≠ 0 then
        let ch := (charAt name i).toUInt32
        packFrom name (i + 1) n
          (setWord msg (i / 4) (word msg (i / 4) ||| ch <<< UInt32.ofNat (i % 4 * 8)))
      else msg

def packName (name : Chars) (msg : Message) : Message :=
  packFrom name 0 maxNameLen { msg with arg1 := 0, arg2 := 0, arg3 := 0, arg4 := 0 }

def byteOf (value : UInt32) (k : Nat) : UInt8 :=
  ((value >>> UInt32.ofNat (k * 8)) &&& 0xFF).toUInt8

def unpackName (msg : Message) : Chars :=
  (List.range maxNameLen).map (fun i => byteOf (word msg (i / 4)) (i % 4)) ++ [0]

end Packing

section Table

structure Entry where
  name : Chars
  pid : UInt32

/-- `ns::Entry`, with a name of twenty characters. -/
structure NsEntry where
  name : Chars
  pid : UInt32

structure NsTable where
  entries : List Entry

namespace NsTable

def empty : NsTable := ⟨[]⟩

/-- The loop of `lookup`. -/
def lookupFrom (target : StringView) : List Entry → UInt32
  | [] => 0
  | e :: rest =>
      if (StringView.ofChars e.name).equals target then e.pid else lookupFrom target rest

def lookup (table : NsTable) (name : Chars) : UInt32 :=
  lookupFrom (StringView.ofChars name) table.entries

/-- `mem` is what `heap::alloc` gives for the entry: the bytes of its name field, or null. -/
def registerName (table : NsTable) (name : Chars) (pid : UInt32) (mem : Option Chars) :
    NsTable × UInt32 :=
  if table.lookup name ≠ 0 then (table, 0)
  else
    match mem with
    | none => (table, 0)
    | some field =>
        let entry := Entry.mk ((StringView.ofChars name).copyTo field (maxNameLen + 1)) pid
        (⟨entry :: table.entries⟩, 1)

def listAll (table : NsTable) (buf : List NsEntry) : List NsEntry :=
  List.zipWith (fun e slot => NsEntry.mk ((StringView.ofChars e.name).copyTo slot.name 20) e.pid)
    table.entries buf

end NsTable

end Table

section Loop

/-- A message that `receive` returns, with the memory of the round: what `heap::alloc` gives
and what stands on the stack where the buffer for `listAll` is. -/
structure Received where
  sender : UInt32
  msg : Message
  mem : Option Chars
  buf : List NsEntry

structure Reply where
  recipient : UInt32
  msg : Message
  data : List NsEntry

/-- One round of the loop in `_start`. -/
def handle (table : NsTable) (r : Received) : NsTable × Option Reply :=
  if ¬ isSender r.sender then (table, none)
  else if r.msg.type = MessageType.nsRegister then
    let name := unpackName r.msg
    let registered := table.registerName name r.sender r.mem
    (registered.1, some ⟨r.sender, { Message.zero with arg1 := registered.2 }, []⟩)
  else if r.msg.type = MessageType.nsLookup then
    let name := unpackName r.msg
    (table, some ⟨r.sender, { Message.zero with arg1 := table.lookup name }, []⟩)
  else if r.msg.type = MessageType.nsListAll then
    let data := table.listAll r.buf
    let count := UInt32.ofNat data.length
    (table, some ⟨r.sender, { Message.zero with arg1 := count }, data⟩)
  else (table, some ⟨r.sender, Message.zero, []⟩)

def serverPid : UInt32 := 1

/-- `"ns"`. -/
def ownName : Chars := [0x6E, 0x73]

/-- The table when the loop starts; `mem` is the memory for the server's own entry. -/
def start (mem : Option Chars) : NsTable := (NsTable.empty.registerName ownName serverPid mem).1

def serve (table : NsTable) (received : List Received) : NsTable :=
  received.foldl (fun table r => (handle table r).1) table

end Loop

section Clients

/-- `ns::registerName` and `ns::lookup`. -/
inductive Request where
  | register (name : Chars)
  | lookup (name : Chars)

def Request.message : Request → Message
  | .register name => packName name { Message.zero with type := MessageType.nsRegister }
  | .lookup name => packName name { Message.zero with type := MessageType.nsLookup }

end Clients

end CassiOS.Userland.Nameserver
