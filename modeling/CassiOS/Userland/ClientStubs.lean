import CassiOS.Kernel.Syscall
import CassiOS.Userland.NameRegistration
import CassiOS.Userland.VfsService

/-!
# The client libraries when a send fails

The request functions of `libs/ata`, `libs/vfs` and `libs/ns` without their bulk data. The
reply comes in the place of the request, so a function whose send has failed takes the first
word of its own request for the answer.
-/

namespace CassiOS.Userland.ClientStubs

open CassiOS.Fat32.Operations
open CassiOS.Userland.Messages
open CassiOS.Userland.Nameserver
open CassiOS.Userland.NameRegistration

set_option autoImplicit false

section Source

/-- What becomes of an `ipc::send`. -/
inductive Sent where
  | replied (reply : Message)
  | failed
deriving DecidableEq

def send (msg : Message) : Sent → Message
  | .replied reply => reply
  | .failed => msg

def answer (type arg1 arg2 arg3 : UInt32) (sent : Sent) : UInt32 :=
  (send { Message.zero with type := type, arg1 := arg1, arg2 := arg2, arg3 := arg3 } sent).arg1

namespace Ata

def readSector (lba : UInt32) (sent : Sent) : Bool := answer MessageType.ataRead lba 0 0 sent == 0

def writeSector (lba : UInt32) (sent : Sent) : Bool := answer MessageType.ataWrite lba 0 0 sent == 0

end Ata

namespace Vfs

def mkdir (sent : Sent) : UInt32 := answer MessageType.vfsMkdir 0 0 0 sent

def remove (sent : Sent) : UInt32 := answer MessageType.vfsRemove 0 0 0 sent

def openFile (create : Bool) (sent : Sent) : UInt32 :=
  answer MessageType.vfsOpen (if create then 1 else 0) 0 0 sent

def read (handle offset bufLen : UInt32) (sent : Sent) : Int :=
  toI32 (answer MessageType.vfsRead handle offset bufLen sent).toNat

def write (handle len : UInt32) (sent : Sent) : UInt32 :=
  answer MessageType.vfsWrite handle len 0 sent

def stat (sent : Sent) : UInt32 := answer MessageType.vfsStat 0 0 0 sent

def list (path : Chars) (index : UInt32) (sent : Sent) : Bool :=
  answer MessageType.vfsList index (UInt32.ofNat (StringView.lengthOf path + 1)) 0 sent != 0

end Vfs

namespace Ns

def registerName (name : Chars) (sent : Sent) : UInt32 :=
  (send (packName name { Message.zero with type := MessageType.nsRegister }) sent).arg1

def lookup (name : Chars) (sent : Sent) : UInt32 :=
  (send (packName name { Message.zero with type := MessageType.nsLookup }) sent).arg1

def listAll (sent : Sent) : UInt32 := answer MessageType.nsListAll 0 0 0 sent

end Ns

end Source

section Requests

inductive Request where
  | readSector (lba : UInt32)
  | writeSector (lba : UInt32)
  | mkdir (path : Chars)
  | remove (path : Chars)
  | openFile (path : Chars) (create : Bool)
  | read (handle offset bufLen : UInt32)
  | write (handle len : UInt32)
  | stat (path : Chars)
  | list (path : Chars) (index : UInt32)
  | registerName (name : Chars)
  | lookup (name : Chars)
  | listAll (maxEntries : UInt32)

/-- The call returns the value that is documented for a failure. -/
def ReportsFailure : Request → Sent → Prop
  | .readSector lba, sent => Ata.readSector lba sent = false
  | .writeSector lba, sent => Ata.writeSector lba sent = false
  | .mkdir _, sent => Vfs.mkdir sent ≠ 0
  | .remove _, sent => Vfs.remove sent ≠ 0
  | .openFile _ create, sent => Vfs.openFile create sent = 0
  | .read handle offset bufLen, sent => Vfs.read handle offset bufLen sent = 0
  | .write handle len, sent => Vfs.write handle len sent ≠ 0
  | .stat _, sent => Vfs.stat sent = 0
  | .list path index, sent => Vfs.list path index sent = false
  | .registerName name, sent => Ns.registerName name sent = 0
  | .lookup name, sent => Ns.lookup name sent = 0
  | .listAll _, sent => Ns.listAll sent = 0

/-- The call returns a value that is documented for a success. -/
def ReportsSuccess : Request → Sent → Prop
  | .readSector lba, sent => Ata.readSector lba sent = true
  | .writeSector lba, sent => Ata.writeSector lba sent = true
  | .mkdir _, sent => Vfs.mkdir sent = 0
  | .remove _, sent => Vfs.remove sent = 0
  | .openFile _ create, sent => Vfs.openFile create sent ≠ 0
  | .read handle offset bufLen, sent => 0 < Vfs.read handle offset bufLen sent
  | .write handle len, sent => Vfs.write handle len sent = 0
  | .stat _, sent => Vfs.stat sent ≠ 0
  | .list path index, sent => Vfs.list path index sent = true
  | .registerName name, sent => Ns.registerName name sent ≠ 0
  | .lookup name, sent => Ns.lookup name sent ≠ 0
  | .listAll _, sent => Ns.listAll sent ≠ 0

def SaysSuccess : Request → UInt32 → Prop
  | .readSector _, word => word = 0
  | .writeSector _, word => word = 0
  | .mkdir _, word => word = 0
  | .remove _, word => word = 0
  | .openFile _ _, word => word ≠ 0
  | .read _ _ _, word => 0 < toI32 word.toNat
  | .write _ _, word => word = 0
  | .stat _, word => word ≠ 0
  | .list _ _, word => word ≠ 0
  | .registerName _, word => word ≠ 0
  | .lookup _, word => word ≠ 0
  | .listAll _, word => word ≠ 0

/-- A failed send is reported as a failure, and a success as the service answered it. -/
structure Honest (request : Request) (sent : Sent) : Prop where
  failure : sent = .failed → ReportsFailure request sent
  success : ReportsSuccess request sent →
    ∃ reply, sent = .replied reply ∧ SaysSuccess request reply.arg1

/-- The first word of the request reads like a failure. -/
def FailsClosed : Request → Prop
  | .readSector lba => lba ≠ 0
  | .writeSector lba => lba ≠ 0
  | .mkdir _ => False
  | .remove _ => False
  | .openFile _ create => create = false
  | .read handle _ _ => handle = 0
  | .write handle _ => handle ≠ 0
  | .stat _ => True
  | .list _ index => index = 0
  | .registerName name => contents name = []
  | .lookup name => contents name = []
  | .listAll _ => True

end Requests

section Failure

theorem packed_empty_iff (name : Chars) (msg : Message) :
    (packName name msg).arg1 = 0 ↔ contents name = [] := by
  constructor
  · intro zero
    have first : packed (packName name msg) 0 = charAt (nameKey name) 0 :=
      packed_name name msg (by decide)
    have nul : packed (packName name msg) 0 = 0 := by
      unfold packed
      change byteOf (packName name msg).arg1 0 = 0
      rw [zero]
      rfl
    rw [nul] at first
    cases contentsEq : contents name with
    | nil => rfl
    | cons ch rest =>
        have same : ch = 0 := by
          simpa [nameKey, contentsEq, charAt, maxNameLen] using first.symm
        exact absurd (contentsEq ▸ same ▸ List.mem_cons_self) (no_nul_in_contents name)
  · intro empty
    have nul : charAt name 0 = 0 := by
      cases name with
      | nil => rfl
      | cons ch rest =>
          by_contra more
          simp [contents, charAt] at empty more
          exact more empty
    unfold packName maxNameLen packFrom
    rw [if_neg (not_not.2 nul)]

theorem to_i32_zero_iff (word : UInt32) : toI32 word.toNat = 0 ↔ word = 0 := by
  have small := word.toNat_lt
  unfold toI32
  rw [← UInt32.toNat_inj]
  change _ ↔ word.toNat = 0
  split <;> omega

theorem failed_reports_iff (request : Request) :
    ReportsFailure request .failed ↔ FailsClosed request := by
  unfold ReportsFailure FailsClosed
  cases request with
  | readSector lba => simp [Ata.readSector, answer, send]
  | writeSector lba => simp [Ata.writeSector, answer, send]
  | mkdir path => simp [Vfs.mkdir, answer, send, Message.zero]
  | remove path => simp [Vfs.remove, answer, send, Message.zero]
  | openFile path create => cases create <;> simp [Vfs.openFile, answer, send]
  | read handle offset bufLen => exact to_i32_zero_iff handle
  | write handle len => simp [Vfs.write, answer, send]
  | stat path => simp [Vfs.stat, answer, send, Message.zero]
  | list path index => simp [Vfs.list, answer, send]
  | registerName name => exact packed_empty_iff name _
  | lookup name => exact packed_empty_iff name _
  | listAll maxEntries => simp [Ns.listAll, answer, send, Message.zero]

theorem replied_reports_iff (request : Request) (reply : Message) :
    ReportsSuccess request (.replied reply) ↔ SaysSuccess request reply.arg1 := by
  cases request with
  | readSector lba => exact beq_iff_eq
  | writeSector lba => exact beq_iff_eq
  | list path index => exact bne_iff_ne
  | _ => rfl

theorem not_success_of_failure {request : Request} {sent : Sent}
    (failure : ReportsFailure request sent) : ¬ ReportsSuccess request sent := by
  intro success
  cases request with
  | readSector lba => exact Bool.false_ne_true (failure.symm.trans success)
  | writeSector lba => exact Bool.false_ne_true (failure.symm.trans success)
  | list path index => exact Bool.false_ne_true (failure.symm.trans success)
  | mkdir path => exact failure success
  | remove path => exact failure success
  | write handle len => exact failure success
  | read handle offset bufLen => exact success.ne' failure
  | _ => exact success failure

end Failure

section Kernel

open CassiOS.Kernel

/-- When the call returns an error the message of the caller is as it was. -/
theorem message_after_failed_send (k : State.KernelState)
    (targetPid msg dataPtr dataLen : Nat) (node : Bool)
    (failed : (Syscall.send k targetPid msg dataPtr dataLen node).2 ≠ 0) :
    State.readMessage (Syscall.send k targetPid msg dataPtr dataLen node).1 msg =
      State.readMessage k msg := by
  unfold Syscall.send at failed ⊢
  cases found : ProcessManager.get k targetPid with
  | none => rfl
  | some target =>
      simp only [found] at failed ⊢
      split at failed
      · next self => rw [if_pos self]
      · next other =>
        rw [if_neg other]
        split at failed
        · exact absurd rfl failed
        · next waiting =>
          rw [if_neg waiting]
          split at failed
          · rfl
          · exact absurd rfl failed

end Kernel

end CassiOS.Userland.ClientStubs
