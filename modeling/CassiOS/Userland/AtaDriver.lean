import Mathlib.Algebra.GroupWithZero.Nat
import CassiOS.Support.TransitionSystem

/-!
# The ATA driver

`Ata` of `userspace/drivers/ata` with a drive of sectors whose commands may fail. The buffer
of the driver is the transfer buffer of both commands and a cache of one sector. It tells the
truth as long as every write is carried out.
-/

namespace CassiOS.Userland.AtaDriver

open CassiOS.Support.TransitionSystem

set_option autoImplicit false

section Source

def sectorSize : Nat := 512

abbrev Sector := Nat → UInt8

/-- A drive with an address of 28 bits for each sector. -/
structure Drive where
  sectors : Nat
  content : Nat → Sector
  addressable : sectors ≤ 2 ^ 28

/-- A write command ends before the drive asks for data, with an error behind the data, or
with the data in the sector. -/
inductive WriteOutcome where
  | refused
  | lost
  | stored
deriving DecidableEq

structure Ata where
  present : Bool
  sectors : Nat
  sectorBuf : Sector
  cachedLba : Nat
  cacheValid : Bool

structure Disk where
  ata : Ata
  drive : Drive

def transfer (src dst : Sector) : Sector := fun i => if i < sectorSize then src i else dst i

def Drive.store (drive : Drive) (lba : Nat) (data : Sector) : Drive :=
  { drive with content := fun n => if n = lba then transfer data (drive.content n)
      else drive.content n }

def address (lba : Nat) : Nat :=
  lba / 2 ^ 24 % 16 * 2 ^ 24 + lba / 2 ^ 16 % 256 * 2 ^ 16 + lba / 2 ^ 8 % 256 * 2 ^ 8 + lba % 256

/-- `identify` is the number of sectors if the drive answers the command. -/
def Ata.init (ata : Ata) (identify : Option Nat) : Ata :=
  { ata with
    present := identify.isSome
    sectors := identify.getD 0
    cachedLba := 0
    cacheValid := false }

/-- `ready` is what `waitForData` returns. -/
def readSectorInternal (lba : Nat) (ready : Bool) (d : Disk) : Bool × Disk :=
  if d.ata.present = false ∨ d.ata.sectors ≤ lba then (false, d)
  else if ready then
    (true, { d with ata := { d.ata with
      sectorBuf := transfer (d.drive.content (address lba)) d.ata.sectorBuf
      cachedLba := lba
      cacheValid := true } })
  else (false, d)

/-- The status behind the flush of the drive's cache is not looked at. -/
def writeSectorInternal (lba : Nat) (outcome : WriteOutcome) (d : Disk) : Bool × Disk :=
  if d.ata.present = false ∨ d.ata.sectors ≤ lba then (false, d)
  else
    match outcome with
    | .refused => (false, d)
    | .lost => (true, d)
    | .stored => (true, { d with drive := d.drive.store (address lba) d.ata.sectorBuf })

/-- Returns the result and what `buf` holds afterwards. -/
def readSector (lba : Nat) (buf : Sector) (ready : Bool) (d : Disk) : (Bool × Sector) × Disk :=
  if d.ata.cacheValid = false ∨ d.ata.cachedLba ≠ lba then
    match readSectorInternal lba ready d with
    | (false, d) => ((false, buf), d)
    | (true, d) => ((true, transfer d.ata.sectorBuf buf), d)
  else ((true, transfer d.ata.sectorBuf buf), d)

def writeSector (lba : Nat) (buf : Sector) (outcome : WriteOutcome) (d : Disk) : Bool × Disk :=
  writeSectorInternal lba outcome { d with ata := { d.ata with
    sectorBuf := transfer buf d.ata.sectorBuf
    cachedLba := lba
    cacheValid := true } }

end Source

section Requests

inductive Request where
  | read (lba : Nat) (buf : Sector) (ready : Bool)
  | write (lba : Nat) (data : Sector) (outcome : WriteOutcome)

def Disk.handle (d : Disk) : Request → Disk
  | .read lba buf ready => (readSector lba buf ready d).2
  | .write lba data outcome => (writeSector lba data outcome d).2

def step (d : Disk) (request : Request) : Option Disk := some (d.handle request)

/-- The driver after `init`. -/
def start (ata : Ata) (drive : Drive) (answers : Bool) : Disk :=
  ⟨ata.init (if answers then some drive.sectors else none), drive⟩

def Drive.Has (drive : Drive) (lba : Nat) (data : Sector) : Prop :=
  lba < drive.sectors ∧ ∀ i, i < sectorSize → data i = drive.content lba i

instance (drive : Drive) (lba : Nat) (data : Sector) : Decidable (drive.Has lba data) :=
  inferInstanceAs (Decidable (lba < drive.sectors ∧ _))

/-- What the driver returns is on the drive, and so is what it keeps. -/
structure Truthful (d : Disk) : Prop where
  returned : ∀ lba buf ready, (readSector lba buf ready d).1.1 = true →
    d.drive.Has lba (readSector lba buf ready d).1.2
  cached : d.ata.cacheValid = true → d.drive.Has d.ata.cachedLba d.ata.sectorBuf

def CarriedOut (d : Disk) : Request → Prop
  | .read _ _ _ => True
  | .write lba data outcome =>
      outcome = .stored ∧ d.ata.present = true ∧ lba < d.drive.sectors ∨ d.drive.Has lba data

instance (d : Disk) : (request : Request) → Decidable (CarriedOut d request)
  | .read _ _ _ => .isTrue trivial
  | .write lba data outcome =>
      inferInstanceAs (Decidable (outcome = .stored ∧ d.ata.present = true ∧
        lba < d.drive.sectors ∨ d.drive.Has lba data))

end Requests

section Truth

variable {d : Disk}

theorem address_small {lba : Nat} (small : lba < 2 ^ 28) : address lba = lba := by
  unfold address
  omega

theorem transfer_inside (src dst : Sector) {i : Nat} (inside : i < sectorSize) :
    transfer src dst i = src i := if_pos inside

theorem Drive.has_self (drive : Drive) {lba : Nat} (inside : lba < drive.sectors) (buf : Sector) :
    drive.Has lba (transfer (drive.content lba) buf) :=
  ⟨inside, fun _ byte => transfer_inside _ _ byte⟩

theorem has_transfer {drive : Drive} {lba : Nat} {data : Sector} (has : drive.Has lba data)
    (buf : Sector) : drive.Has lba (transfer data buf) :=
  ⟨has.1, fun i byte => (transfer_inside _ _ byte).trans (has.2 i byte)⟩

theorem Drive.has_stored (drive : Drive) {lba : Nat} (inside : lba < drive.sectors)
    (data buf : Sector) : (drive.store lba (transfer data buf)).Has lba data := by
  refine ⟨inside, fun i byte => ?_⟩
  simp only [Drive.store, if_true, transfer_inside _ _ byte]

/-- The driver knows the number of sectors, and its buffer is what it says. -/
structure Faithful (d : Disk) : Prop where
  sectors : d.ata.present = true → d.ata.sectors = d.drive.sectors
  cached : d.ata.cacheValid = true → d.drive.Has d.ata.cachedLba d.ata.sectorBuf

theorem faithful_start (ata : Ata) (drive : Drive) (answers : Bool) :
    Faithful (start ata drive answers) where
  sectors := by
    intro present
    cases answers with
    | false => cases present
    | true => rfl
  cached := nofun

theorem lba_checked (faithful : Faithful d) {lba : Nat}
    (passed : ¬ (d.ata.present = false ∨ d.ata.sectors ≤ lba)) :
    d.ata.present = true ∧ lba < d.drive.sectors := by
  rw [not_or, Bool.not_eq_false, Nat.not_le] at passed
  rw [← faithful.sectors passed.1]
  exact passed

theorem read_internal_cases (faithful : Faithful d) (lba : Nat) (ready : Bool) :
    readSectorInternal lba ready d = (false, d) ∨
      ∃ buf, d.drive.Has lba buf ∧ readSectorInternal lba ready d =
        (true, { d with ata := { d.ata with
          sectorBuf := buf
          cachedLba := lba
          cacheValid := true } }) := by
  unfold readSectorInternal
  by_cases failed : d.ata.present = false ∨ d.ata.sectors ≤ lba
  · exact .inl (if_pos failed)
  rw [if_neg failed]
  obtain ⟨_, inside⟩ := lba_checked faithful failed
  cases ready with
  | false => exact .inl rfl
  | true =>
      have same : address lba = lba := address_small (Nat.lt_of_lt_of_le inside d.drive.addressable)
      rw [same]
      exact .inr ⟨_, d.drive.has_self inside _, rfl⟩

theorem read_cases (faithful : Faithful d) (lba : Nat) (buf : Sector) (ready : Bool) :
    Faithful (readSector lba buf ready d).2 ∧ (readSector lba buf ready d).2.drive = d.drive ∧
      ((readSector lba buf ready d).1.1 = true →
        d.drive.Has lba (readSector lba buf ready d).1.2) := by
  unfold readSector
  by_cases miss : d.ata.cacheValid = false ∨ d.ata.cachedLba ≠ lba
  · rw [if_pos miss]
    rcases read_internal_cases faithful lba ready with read | ⟨content, has, read⟩
    · rw [read]
      exact ⟨faithful, rfl, nofun⟩
    · rw [read]
      exact ⟨⟨faithful.sectors, fun _ => has⟩, rfl, fun _ => has_transfer has buf⟩
  · rw [if_neg miss]
    rw [not_or, Bool.not_eq_false, not_not] at miss
    have has := faithful.cached miss.1
    rw [miss.2] at has
    exact ⟨faithful, rfl, fun _ => has_transfer has buf⟩

theorem truthful_of_faithful (faithful : Faithful d) : Truthful d where
  returned := fun lba buf ready => (read_cases faithful lba buf ready).2.2
  cached := faithful.cached

/-- The buffer of a write is faithful when the sector has the data behind it. -/
theorem faithful_of_write (faithful : Faithful d) (drive : Drive)
    (sectors : drive.sectors = d.drive.sectors) (lba : Nat) (data : Sector) :
    Faithful ⟨{ d.ata with
      sectorBuf := transfer data d.ata.sectorBuf
      cachedLba := lba
      cacheValid := true }, drive⟩ ↔ drive.Has lba data := by
  constructor
  · intro after
    have has := after.cached rfl
    exact ⟨has.1, fun i byte => (transfer_inside _ _ byte).symm.trans (has.2 i byte)⟩
  · intro has
    exact ⟨fun present => (faithful.sectors present).trans sectors.symm,
      fun _ => has_transfer has _⟩

theorem write_faithful_iff (faithful : Faithful d) (lba : Nat) (data : Sector)
    (outcome : WriteOutcome) : Faithful (writeSector lba data outcome d).2 ↔
      CarriedOut d (.write lba data outcome) := by
  have kept := faithful_of_write faithful d.drive rfl lba data
  unfold writeSector writeSectorInternal CarriedOut
  dsimp only
  by_cases failed : d.ata.present = false ∨ d.ata.sectors ≤ lba
  · rw [if_pos failed, kept]
    constructor
    · exact .inr
    · rintro (⟨_, present, inside⟩ | has)
      · rw [faithful.sectors present, present] at failed
        exact absurd (failed.resolve_left nofun) (Nat.not_le.2 inside)
      · exact has
  rw [if_neg failed]
  obtain ⟨present, inside⟩ := lba_checked faithful failed
  cases outcome with
  | refused =>
      rw [kept]
      exact ⟨.inr, fun done => done.resolve_left nofun⟩
  | lost =>
      rw [kept]
      exact ⟨.inr, fun done => done.resolve_left nofun⟩
  | stored =>
      have same : address lba = lba := address_small (Nat.lt_of_lt_of_le inside d.drive.addressable)
      have stored : (d.drive.store lba (transfer data d.ata.sectorBuf)).Has lba data :=
        d.drive.has_stored inside data _
      have after := (faithful_of_write faithful (d.drive.store lba _) rfl lba data).2 stored
      dsimp only
      rw [same]
      exact ⟨fun _ => .inl ⟨rfl, present, inside⟩, fun _ => after⟩

theorem faithful_step (faithful : Faithful d) {request : Request}
    (done : CarriedOut d request) : Faithful (d.handle request) := by
  cases request with
  | read lba buf ready => exact (read_cases faithful lba buf ready).1
  | write lba data outcome => exact (write_faithful_iff faithful lba data outcome).2 done

/-- As long as every write is carried out, the driver returns and keeps what is on the drive. -/
theorem sectors_are_current {ata : Ata} {drive : Drive} {answers : Bool}
    (run : Run step CarriedOut (start ata drive answers) d) : Truthful d := by
  apply truthful_of_faithful
  apply run.invariant Faithful (faithful_start ata drive answers)
  intro d request d' faithful done next
  obtain rfl : d.handle request = d' := Option.some.inj next
  exact faithful_step faithful done

def smallDrive : Drive := ⟨4, fun _ _ => 0, by decide⟩

def freshAta : Ata := ⟨false, 0, fun _ => 0xFF, 7, false⟩

/-- Sector 1 is written and read back. -/
theorem written_sector_is_current :
    ∃ d, path step (start freshAta smallDrive true)
        [.write 1 (fun _ => 0x5A) .stored, .read 1 (fun _ => 0) true] = some d ∧
      d.ata.cachedLba = 1 ∧ Truthful d :=
  ⟨_, rfl, rfl, sectors_are_current (.step (.step .start (by decide) rfl) (by decide) rfl)⟩

/-- A write of sector 1 is refused, and the next read of the sector returns the data that are
not on the drive, without a command. -/
theorem refused_write_is_read_back :
    ∃ d, path step (start freshAta smallDrive true)
        [.write 1 (fun _ => 0x5A) .refused] = some d ∧
      (readSector 1 (fun _ => 0) false d).1.1 = true ∧
      (readSector 1 (fun _ => 0) false d).1.2 0 = 0x5A ∧ d.drive.content 1 0 = 0 ∧
      ¬ Truthful d := by
  refine ⟨_, rfl, rfl, rfl, rfl, fun truthful => ?_⟩
  have same := (truthful.cached rfl).2 0 (by decide)
  exact absurd same (by decide)

end Truth

end CassiOS.Userland.AtaDriver
