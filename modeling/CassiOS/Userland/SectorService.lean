import CassiOS.Fat32.Device
import CassiOS.Userland.AtaDriver
import CassiOS.Userland.VfsService

/-!
# Sectors through the ATA service

The client of `libs/ata`, the service loop of the ATA driver and the driver behind it. The file
system takes them for an array of sectors whose requests may fail, and as long as every write is
carried out they are one: whatever the clients and however their requests are mixed with IRQs,
the answers are those of the array under the script of the requests that failed.
-/

namespace CassiOS.Userland.SectorService

open CassiOS.Fat32.Device (Fat32Filesystem ataRead ataWrite putAt sectorOf)
open CassiOS.Fat32.Types (Buf)
open CassiOS.Userland.AtaDriver
open CassiOS.Userland.Messages
open CassiOS.Userland.VfsService (bulkCopy bulk_copy_at)

set_option autoImplicit false

section Source

/-- The disk, and `sectorBuf` of `_start`. -/
structure Service where
  disk : Disk
  sectorBuf : Buf

/-- A message with its bulk data, and what the drive makes of a command that it causes. -/
structure Received where
  sender : UInt32
  msg : Message
  data : Buf
  dataLen : Nat
  ready : Bool
  outcome : WriteOutcome

structure Reply where
  recipient : UInt32
  msg : Message
  data : Buf
  dataLen : Nat

def resultReply (ok : Bool) : Message := { Message.zero with arg1 := if ok then 0 else 1 }

/-- One round of the loop in `_start`. `handleIrq` reads the status of the drive. -/
def Service.handle (s : Service) (r : Received) : Service × Option Reply :=
  let s := { s with sectorBuf := bulkCopy r.data r.dataLen s.sectorBuf sectorSize }
  if r.msg.type = MessageType.irqNotify then (s, none)
  else if r.msg.type = MessageType.ataRead then
    let ((ok, sectorBuf), disk) := readSector r.msg.arg1.toNat s.sectorBuf r.ready s.disk
    (⟨disk, sectorBuf⟩,
      if isSender r.sender then some ⟨r.sender, resultReply ok, sectorBuf, sectorSize⟩ else none)
  else if r.msg.type = MessageType.ataWrite then
    let (ok, disk) := writeSector r.msg.arg1.toNat s.sectorBuf r.outcome s.disk
    (⟨disk, s.sectorBuf⟩,
      if isSender r.sender then some ⟨r.sender, resultReply ok, fun _ => 0, 0⟩ else none)
  else (s, if isSender r.sender then some ⟨r.sender, Message.zero, fun _ => 0, 0⟩ else none)

/-- `Ata::readSector` of the client with the process `pid`: the result and what `buf` holds
afterwards. -/
def clientRead (pid lba : UInt32) (buf : Buf) (ready : Bool) (s : Service) :
    Option ((Bool × Buf) × Service) :=
  let msg : Message := { Message.zero with type := MessageType.ataRead, arg1 := lba }
  match s.handle ⟨pid, msg, buf, sectorSize, ready, .stored⟩ with
  | (s, some reply) =>
      some ((reply.msg.arg1 == 0, bulkCopy reply.data reply.dataLen buf sectorSize), s)
  | (_, none) => none

/-- `Ata::writeSector` of the client. -/
def clientWrite (pid lba : UInt32) (buf : Buf) (outcome : WriteOutcome) (s : Service) :
    Option (Bool × Service) :=
  let msg : Message := { Message.zero with type := MessageType.ataWrite, arg1 := lba }
  match s.handle ⟨pid, msg, buf, sectorSize, true, outcome⟩ with
  | (s, some reply) => some (reply.msg.arg1 == 0, s)
  | (_, none) => none

end Source

section Histories

/-- Requests of clients, and the other messages that the service gets between them. -/
inductive Request where
  | read (pid lba : UInt32) (buf : Buf) (ready : Bool)
  | write (pid lba : UInt32) (data : Buf) (outcome : WriteOutcome)
  | other (r : Received)

inductive Answer where
  | sector (read : Option Fat32.Types.Sector)
  | done (ok : Bool)
  | nothing

def served : Service → List Request → Option (List Answer × Service)
  | s, [] => some ([], s)
  | s, .read pid lba buf ready :: rest => do
      let ((ok, out), s) ← clientRead pid lba buf ready s
      let (answers, s) ← served s rest
      pure (.sector (if ok then some (sectorOf out 0) else none) :: answers, s)
  | s, .write pid lba data outcome :: rest => do
      let (ok, s) ← clientWrite pid lba data outcome s
      let (answers, s) ← served s rest
      pure (.done ok :: answers, s)
  | s, .other r :: rest => do
      let (answers, s) ← served (s.handle r).1 rest
      pure (.nothing :: answers, s)

def answered : Fat32Filesystem → List Request → Option (List Answer × Fat32Filesystem)
  | fs, [] => some ([], fs)
  | fs, .read _ lba _ _ :: rest => do
      let (sector, fs) ← ataRead lba.toNat fs
      let (answers, fs) ← answered fs rest
      pure (.sector sector :: answers, fs)
  | fs, .write _ lba data _ :: rest => do
      let (ok, fs) ← ataWrite lba.toNat (sectorOf data 0) fs
      let (answers, fs) ← answered fs rest
      pure (.done ok :: answers, fs)
  | fs, .other _ :: rest => do
      let (answers, fs) ← answered fs rest
      pure (.nothing :: answers, fs)

/-- The clients are processes, the other messages are no requests, and a write is carried out or
changes nothing. -/
def Careful : Service → List Request → Prop
  | _, [] => True
  | s, .read pid lba buf ready :: rest => isSender pid ∧
      ∀ out s', clientRead pid lba buf ready s = some (out, s') → Careful s' rest
  | s, .write pid lba data outcome :: rest => isSender pid ∧
      CarriedOut s.disk (.write lba.toNat data outcome) ∧
      ∀ ok s', clientWrite pid lba data outcome s = some (ok, s') → Careful s' rest
  | s, .other r :: rest => r.msg.type ≠ MessageType.ataRead ∧
      r.msg.type ≠ MessageType.ataWrite ∧ Careful (s.handle r).1 rest

end Histories

section Refinement

variable {s : Service} {sectors : Nat → Fat32.Types.Sector}

/-- The drive has the sectors of the array, and the driver's buffer is faithful. -/
structure Serves (disk : Disk) (sectors : Nat → Fat32.Types.Sector) : Prop where
  faithful : Faithful disk
  same : ∀ lba, lba < disk.drive.sectors → ∀ k : Fin 512, sectors lba k = disk.drive.content lba k

theorem result_ok (ok : Bool) : ((resultReply ok).arg1 == 0) = ok := by
  cases ok <;> rfl

theorem copy_inside (src dst : Buf) {i : Nat} (inside : i < sectorSize) :
    bulkCopy src sectorSize dst sectorSize i = src i := by
  rw [bulk_copy_at, Nat.min_self]
  exact if_pos inside

theorem copy_outside (src dst : Buf) {i : Nat} (outside : ¬ i < sectorSize) :
    bulkCopy src sectorSize dst sectorSize i = dst i := by
  rw [bulk_copy_at, Nat.min_self]
  exact if_neg outside

theorem failed_read (lba : Nat) (buf : Buf) (ready : Bool) (d : Disk) (faithful : Faithful d)
    (failed : (readSector lba buf ready d).1.1 = false) :
    (readSector lba buf ready d).1.2 = buf := by
  unfold readSector at failed ⊢
  by_cases miss : d.ata.cacheValid = false ∨ d.ata.cachedLba ≠ lba
  · rw [if_pos miss] at failed ⊢
    rcases read_internal_cases faithful lba ready with read | ⟨content, has, read⟩
    · rw [read]
    · rw [read] at failed
      cases failed
  · rw [if_neg miss] at failed
    cases failed

/-- A read is that of the array, or fails and leaves the buffer of the client as it was. -/
theorem client_read (serves : Serves s.disk sectors) {pid : UInt32} (sender : isSender pid)
    (lba : UInt32) (buf : Buf) (ready : Bool) :
    ∃ ok out s', clientRead pid lba buf ready s = some ((ok, out), s') ∧ Serves s'.disk sectors ∧
      (if ok then sectorOf out 0 = sectors lba.toNat else out = buf) := by
  obtain ⟨faithful', drive, returned⟩ := read_cases serves.faithful lba.toNat
    (bulkCopy buf sectorSize s.sectorBuf sectorSize) ready
  have unread := failed_read lba.toNat (bulkCopy buf sectorSize s.sectorBuf sectorSize) ready s.disk
    serves.faithful
  unfold clientRead Service.handle
  dsimp only
  rw [if_neg (by decide), if_pos rfl]
  generalize readSector lba.toNat (bulkCopy buf sectorSize s.sectorBuf sectorSize) ready s.disk =
    result at *
  obtain ⟨⟨ok, sectorBuf⟩, disk⟩ := result
  dsimp only at *
  rw [if_pos sender]
  refine ⟨ok, bulkCopy sectorBuf sectorSize buf sectorSize, ⟨disk, sectorBuf⟩, ?_,
    ⟨faithful', ?_⟩, ?_⟩
  · dsimp only
    rw [result_ok]
  · intro n inside
    rw [drive] at inside ⊢
    exact serves.same n inside
  · cases ok with
    | true =>
        obtain ⟨inside, content⟩ := returned rfl
        rw [if_pos rfl]
        funext k
        change bulkCopy sectorBuf sectorSize buf sectorSize (0 + k.val) = _
        rw [Nat.zero_add, copy_inside _ _ k.isLt, content k.val k.isLt, serves.same _ inside k]
    | false =>
        rw [if_neg nofun]
        funext i
        by_cases inside : i < sectorSize
        · rw [copy_inside _ _ inside, unread rfl, copy_inside _ _ inside]
        · rw [copy_outside _ _ inside]

theorem carried_out_congr {d : Disk} {lba : Nat} {data data' : AtaDriver.Sector}
    {outcome : WriteOutcome} (same : ∀ i, i < sectorSize → data' i = data i)
    (done : CarriedOut d (.write lba data outcome)) : CarriedOut d (.write lba data' outcome) := by
  rcases done with stored | has
  · exact .inl stored
  · exact .inr ⟨has.1, fun i inside => (same i inside).trans (has.2 i inside)⟩

/-- A write that is carried out is that of the array, or fails and changes nothing. -/
theorem client_write (serves : Serves s.disk sectors) {pid : UInt32} (sender : isSender pid)
    {lba : UInt32} {data : Buf} {outcome : WriteOutcome}
    (done : CarriedOut s.disk (.write lba.toNat data outcome)) :
    ∃ ok s', clientWrite pid lba data outcome s = some (ok, s') ∧
      Serves s'.disk (if ok then putAt sectors lba.toNat (sectorOf data 0) else sectors) := by
  have copied : ∀ i, i < sectorSize → bulkCopy data sectorSize s.sectorBuf sectorSize i = data i :=
    fun i inside => copy_inside _ _ inside
  have done' := carried_out_congr copied done
  have faithful' := (write_faithful_iff serves.faithful lba.toNat _ outcome).2 done'
  have placed : ∀ n, n < s.disk.drive.sectors → ∀ k : Fin 512,
      putAt sectors lba.toNat (sectorOf data 0) n k =
        if n = lba.toNat then data k else s.disk.drive.content n k := by
    intro n inside k
    unfold putAt
    split
    · change data (0 + k.val) = data k
      rw [Nat.zero_add]
    · exact serves.same n inside k
  unfold clientWrite Service.handle
  dsimp only
  rw [if_neg (by decide), if_neg (by decide), if_pos rfl]
  generalize bulkCopy data sectorSize s.sectorBuf sectorSize = sectorBuf at *
  rw [if_pos sender]
  dsimp only
  refine ⟨(writeSector lba.toNat sectorBuf outcome s.disk).1,
    ⟨(writeSector lba.toNat sectorBuf outcome s.disk).2, sectorBuf⟩, ?_, faithful', ?_⟩
  · rw [result_ok]
  intro n inside k
  -- a write that is not stored has its data on the drive before
  have before : (n = lba.toNat → data k = s.disk.drive.content n k) →
      n < s.disk.drive.sectors → ∀ ok : Bool,
      (if ok then putAt sectors lba.toNat (sectorOf data 0) else sectors) n k =
        s.disk.drive.content n k := by
    intro there low ok
    cases ok with
    | true =>
        rw [if_pos rfl, placed n low k]
        split
        · exact there ‹_›
        · rfl
    | false =>
        rw [if_neg nofun]
        exact serves.same n low k
  have kept : (writeSector lba.toNat sectorBuf outcome s.disk).2.drive = s.disk.drive →
      s.disk.drive.Has lba.toNat data →
      (if (writeSector lba.toNat sectorBuf outcome s.disk).1 then
        putAt sectors lba.toNat (sectorOf data 0) else sectors) n k =
        (writeSector lba.toNat sectorBuf outcome s.disk).2.drive.content n k := by
    intro same has
    rw [same] at inside ⊢
    apply before ?_ inside
    rintro rfl
    exact has.2 k k.isLt
  by_cases failed : s.disk.ata.present = false ∨ s.disk.ata.sectors ≤ lba.toNat
  · have same : (writeSector lba.toNat sectorBuf outcome s.disk).2.drive = s.disk.drive := by
      unfold writeSector writeSectorInternal
      dsimp only
      rw [if_pos failed]
    apply kept same
    rcases done with ⟨_, present, low⟩ | has
    · rw [serves.faithful.sectors present, present] at failed
      exact absurd (failed.resolve_left nofun) (Nat.not_le.2 low)
    · exact has
  obtain ⟨_, low⟩ := lba_checked serves.faithful failed
  have internal : ∀ d' : Disk, d'.ata.present = s.disk.ata.present →
      d'.ata.sectors = s.disk.ata.sectors →
      ¬ (d'.ata.present = false ∨ d'.ata.sectors ≤ lba.toNat) := by
    intro d' present count
    rw [present, count]
    exact failed
  cases outcome with
  | refused =>
      apply kept
      · unfold writeSector writeSectorInternal
        rw [if_neg (internal _ rfl rfl)]
      · exact done.resolve_left nofun
  | lost =>
      apply kept
      · unfold writeSector writeSectorInternal
        rw [if_neg (internal _ rfl rfl)]
      · exact done.resolve_left nofun
  | stored =>
      have address : address lba.toNat = lba.toNat :=
        address_small (Nat.lt_of_lt_of_le low s.disk.drive.addressable)
      have stored : writeSector lba.toNat sectorBuf .stored s.disk =
          (true, ⟨{ s.disk.ata with
            sectorBuf := transfer sectorBuf s.disk.ata.sectorBuf
            cachedLba := lba.toNat
            cacheValid := true },
            s.disk.drive.store lba.toNat (transfer sectorBuf s.disk.ata.sectorBuf)⟩) := by
        unfold writeSector writeSectorInternal
        rw [if_neg (internal _ rfl rfl)]
        dsimp only
        rw [address]
      rw [stored] at inside ⊢
      change n < s.disk.drive.sectors at inside
      rw [if_pos rfl, placed n inside k]
      unfold Drive.store
      dsimp only
      split
      · rw [transfer_inside _ _ k.isLt, transfer_inside _ _ k.isLt, copied k k.isLt]
      · rfl

theorem other_disk {r : Received} (noRead : r.msg.type ≠ MessageType.ataRead)
    (noWrite : r.msg.type ≠ MessageType.ataWrite) : (s.handle r).1.disk = s.disk := by
  unfold Service.handle
  dsimp only
  rw [if_neg noRead, if_neg noWrite]
  split <;> rfl

theorem serves_start (ata : Ata) (drive : Drive) (answers : Bool) :
    Serves (start ata drive answers) fun lba k => drive.content lba k where
  faithful := faithful_start ata drive answers
  same _ _ _ := rfl

/-- Whatever the requests, the service answers them as the array of sectors does under the script
of their results, and the drive ends up with the sectors of the array. -/
theorem service_is_drive {history : List Request} (serves : Serves s.disk sectors)
    (careful : Careful s history) :
    ∃ script answers s', served s history = some (answers, s') ∧
      ∀ (fs : Fat32Filesystem) (later : List Bool), fs.ata = ⟨sectors, script ++ later⟩ →
        ∃ fs', answered fs history = some (answers, fs') ∧ Serves s'.disk fs'.ata.sectors ∧
          fs'.ata.outcomes = later := by
  induction history generalizing s sectors with
  | nil =>
      refine ⟨[], [], s, rfl, fun fs later same => ⟨fs, rfl, ?_, ?_⟩⟩
      · rw [same]
        exact serves
      · rw [same]
        rfl
  | cons request rest ih =>
      cases request with
      | read pid lba buf ready =>
          obtain ⟨ok, out, s₁, read, serves₁, result⟩ := client_read serves careful.1 lba buf ready
          obtain ⟨script, answers, s', run, agrees⟩ := ih serves₁ (careful.2 _ _ read)
          refine ⟨ok :: script, .sector (if ok then some (sectorOf out 0) else none) :: answers, s',
            ?_, fun fs later same => ?_⟩
          · unfold served
            rw [read]
            simp only [Option.bind_eq_bind, Option.bind_some, run, Option.pure_def]
          · let fs₁ : Fat32Filesystem := { fs with ata := ⟨sectors, script ++ later⟩ }
            obtain ⟨fs', after, serves', left⟩ := agrees fs₁ later rfl
            have sector : ataRead lba.toNat fs =
                some (if ok then some (sectorOf out 0) else none, fs₁) := by
              unfold ataRead
              rw [same]
              cases ok with
              | true =>
                  rw [if_pos rfl] at result
                  rw [if_pos rfl, result]
                  rfl
              | false => rfl
            refine ⟨fs', ?_, serves', left⟩
            unfold answered
            rw [sector]
            simp only [Option.bind_eq_bind, Option.bind_some, after, Option.pure_def]
      | write pid lba data outcome =>
          obtain ⟨ok, s₁, written, serves₁⟩ := client_write serves careful.1 careful.2.1
          obtain ⟨script, answers, s', run, agrees⟩ := ih serves₁ (careful.2.2 _ _ written)
          refine ⟨ok :: script, .done ok :: answers, s', ?_, fun fs later same => ?_⟩
          · unfold served
            rw [written]
            simp only [Option.bind_eq_bind, Option.bind_some, run, Option.pure_def]
          · let fs₁ : Fat32Filesystem := { fs with ata :=
              ⟨if ok then putAt sectors lba.toNat (sectorOf data 0) else sectors, script ++ later⟩ }
            obtain ⟨fs', after, serves', left⟩ := agrees fs₁ later rfl
            have sector : ataWrite lba.toNat (sectorOf data 0) fs = some (ok, fs₁) := by
              unfold ataWrite
              rw [same]
              rfl
            refine ⟨fs', ?_, serves', left⟩
            unfold answered
            rw [sector]
            simp only [Option.bind_eq_bind, Option.bind_some, after, Option.pure_def]
      | other r =>
          obtain ⟨noRead, noWrite, careful'⟩ := careful
          have serves₁ : Serves (s.handle r).1.disk sectors := by
            rw [other_disk noRead noWrite]
            exact serves
          obtain ⟨script, answers, s', run, agrees⟩ := ih serves₁ careful'
          refine ⟨script, .nothing :: answers, s', ?_, fun fs later same => ?_⟩
          · unfold served
            simp only [run, Option.bind_eq_bind, Option.bind_some, Option.pure_def]
          · obtain ⟨fs', after, serves', left⟩ := agrees fs later same
            refine ⟨fs', ?_, serves', left⟩
            unfold answered
            simp only [Option.bind_eq_bind, Option.bind_some, after, Option.pure_def]

/-- Sector 1 is written, an IRQ comes, and the sector is read by another client. -/
def twoClients : List Request :=
  [.write 5 1 (fun _ => 0x5A) .stored, .other ⟨0, { Message.zero with type := 1 }, fun _ => 0, 0,
    true, .stored⟩, .read 6 1 (fun _ => 0) true]

theorem two_clients_served : ∃ script answers s',
    served ⟨start freshAta smallDrive true, fun _ => 0⟩ twoClients = some (answers, s') ∧
      ∀ (fs : Fat32Filesystem) (later : List Bool),
        fs.ata = ⟨fun lba k => smallDrive.content lba k, script ++ later⟩ →
        ∃ fs', answered fs twoClients = some (answers, fs') ∧
          Serves s'.disk fs'.ata.sectors ∧ fs'.ata.outcomes = later := by
  have careful : Careful ⟨start freshAta smallDrive true, fun _ => 0⟩ twoClients := by
    refine ⟨by decide, .inl ⟨rfl, rfl, by decide⟩, fun ok s₁ written => ?_⟩
    cases written
    exact ⟨by decide, by decide, by decide, fun _ _ _ => trivial⟩
  exact service_is_drive (serves_start freshAta smallDrive true) careful

end Refinement

end CassiOS.Userland.SectorService
