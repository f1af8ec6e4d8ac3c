import CassiOS.Fat32.LongNames
import Mathlib.Data.List.TakeDrop
import CassiOS.Userland.VfsService

/-!
# Listing a directory through the VFS service

`Vfs::list` of `libs/vfs` with the case of the service that answers it. One buffer of 65 bytes
carries the path to the service and the name back. A longer path is cut, and a longer name
comes without its NUL.
-/

namespace CassiOS.Userland.DirectoryListing

open CassiOS.Fat32.Types
open CassiOS.Fat32.Names
open CassiOS.Fat32.LongNames
open CassiOS.Fat32.Device
open CassiOS.Fat32.Operations
open CassiOS.Userland.Messages
open CassiOS.Userland.VfsService

set_option autoImplicit false

section Source

def pathLen (path : Chars) : Nat := StringView.lengthOf path

/-- `sizeof(buf)` in `list`. -/
def listBufSize : Nat := 65

/-- The loop that copies the path from `i`. -/
def fillPath (path : Chars) (pLen : Nat) : Nat → Nat → Buf → Buf
  | 0, _, buf => buf
  | rounds + 1, i, buf =>
      if i ≤ pLen then fillPath path pLen rounds (i + 1) (Function.update buf i (charAt path i))
      else buf

/-- The memory at `buf` when the message is sent. Behind `buf` lies the rest of the stack. -/
def filled (path : Chars) (stack : Buf) : Buf :=
  fillPath path (pathLen path) (listBufSize - 1) 0 fun k => if k < listBufSize then 0 else stack k

/-- The name that was copied out, with the bytes of `buf` that were read and those of `nameOut`
that were written. -/
structure Copied where
  nameOut : Buf
  reads : List Nat
  writes : List Nat

/-- The loop that copies the name from `i`, and the NUL behind it. -/
def copyName (buf : Buf) : Nat → Nat → Buf → Copied
  | 0, i, nameOut => ⟨Function.update nameOut i 0, [], [i]⟩
  | rounds + 1, i, nameOut =>
      if buf i ≠ 0 then
        let rest := copyName buf rounds (i + 1) (Function.update nameOut i (buf i))
        { rest with reads := i :: rest.reads, writes := i :: rest.writes }
      else ⟨Function.update nameOut i 0, [i], [i]⟩

/-- The case of `VfsList`, with the path that it looks up. -/
def serveList (fuel : Nat) (msg : Message) (service : Service) :
    Option ((Reply × Chars) × Service) := do
  let path := contents ((List.range bufSize).map service.dataBuf)
  let (found, fs) ← listEntry fuel path msg.arg1.toNat maxName service.fs
  match found with
  | some name =>
      let nameLen := StringView.lengthOf name
      pure ((⟨{ Message.zero with arg1 := 1 }, charAt name, nameLen + 1⟩, path),
        { service with fs := fs })
  | none => pure ((⟨Message.zero, fun _ => 0, 0⟩, path), { service with fs := fs })

/-- What a call of `list` returns, the path that the service looked up and what was copied. -/
structure Listed where
  found : Bool
  asked : Chars
  copied : Copied

def listRequest (path : Chars) (index : UInt32) : Message :=
  { Message.zero with
    type := MessageType.vfsList, arg1 := index, arg2 := UInt32.ofNat (pathLen path + 1) }

def Vfs.list (fuel : Nat) (path : Chars) (index : UInt32) (nameOut : Buf) (nameMax : UInt32)
    (stack : Buf) (service : Service) : Option (Listed × Service) := do
  let buf := filled path stack
  let msg := listRequest path index
  let dataBuf := bulkCopy buf listBufSize service.dataBuf bufSize
  let ((reply, asked), service) ← serveList fuel msg { service with dataBuf := dataBuf }
  let buf := bulkCopy reply.data reply.dataLen buf listBufSize
  if reply.msg.arg1 = 0 then pure (⟨false, asked, ⟨nameOut, [], []⟩⟩, service)
  else
    let limit := (nameMax - 1).toNat
    pure (⟨true, asked, copyName buf limit 0 nameOut⟩, service)

end Source

section Loops

theorem char_at_end (s : Chars) : charAt s (contents s).length = 0 := by
  induction s with
  | nil => rfl
  | cons ch rest ih =>
      by_cases nul : ch = 0
      · simp [contents, charAt, nul]
      · simpa [contents, charAt, nul] using ih

theorem fill_path_at (path : Chars) (pLen rounds i : Nat) (buf : Buf) (j : Nat) :
    fillPath path pLen rounds i buf j =
      if i ≤ j ∧ j < i + rounds ∧ j ≤ pLen then charAt path j else buf j := by
  induction rounds generalizing i buf with
  | zero => exact (if_neg (by omega)).symm
  | succ rounds ih =>
      unfold fillPath
      split
      · rw [ih]
        by_cases here : j = i
        · subst here
          rw [if_neg (by omega), Function.update_self, if_pos (by omega)]
        · rw [Function.update_of_ne here]
          exact if_congr (by omega) rfl rfl
      · exact (if_neg (by omega)).symm

/-- The loop copies `n` bytes, and it stops at a NUL or at its limit. -/
structure Copies (buf : Buf) (rounds i : Nat) (nameOut : Buf) (copied : Copied) (n : Nat) :
    Prop where
  within : n ≤ rounds
  before : ∀ k, k < n → buf (i + k) ≠ 0
  stopped : n < rounds → buf (i + n) = 0
  result : ∀ j, copied.nameOut j =
    if i ≤ j ∧ j < i + n then buf j else if j = i + n then 0 else nameOut j
  reads : ∀ j, j ∈ copied.reads ↔ i ≤ j ∧ (j < i + n ∨ j = i + n ∧ n < rounds)
  writes : ∀ j ∈ copied.writes, j ≤ i + n

theorem copy_name_copies (buf : Buf) (rounds i : Nat) (nameOut : Buf) :
    ∃ n, Copies buf rounds i nameOut (copyName buf rounds i nameOut) n := by
  induction rounds generalizing i nameOut with
  | zero =>
      exact ⟨0, {
        within := Nat.le_refl 0
        before := nofun
        stopped := nofun
        result := fun j => by
          simp only [copyName, Function.update_apply]
          rw [if_neg (by omega : ¬ (i ≤ j ∧ j < i + 0))]
          rfl
        reads := fun j => by
          simp [copyName]
        writes := fun j member => by
          simp only [copyName, List.mem_singleton] at member
          omega }⟩
  | succ rounds ih =>
      unfold copyName
      split
      · next more =>
        obtain ⟨n, copies⟩ := ih (i + 1) (Function.update nameOut i (buf i))
        have within := copies.within
        exact ⟨n + 1, {
          within := Nat.succ_le_succ within
          before := fun k below => by
            cases k with
            | zero => exact more
            | succ k =>
                have later := copies.before k (by omega)
                rwa [Nat.add_assoc, Nat.add_comm 1] at later
          stopped := fun less => by
            have later := copies.stopped (by omega)
            rwa [Nat.add_assoc, Nat.add_comm 1] at later
          result := fun j => by
            dsimp only
            rw [copies.result, Function.update_apply]
            by_cases here : j = i
            · subst here
              rw [if_neg (by omega), if_neg (by omega), if_pos rfl, if_pos (by omega)]
            · rw [if_neg here]
              exact if_congr (by omega) rfl (if_congr (by omega) rfl rfl)
          reads := fun j => by
            rw [List.mem_cons, copies.reads]
            omega
          writes := fun j member => by
            rcases List.mem_cons.1 member with rfl | later
            · omega
            · have := copies.writes j later
              omega }⟩
      · next ended =>
        exact ⟨0, {
          within := Nat.zero_le _
          before := nofun
          stopped := fun _ => not_not.1 ended
          result := fun j => by
            simp only [Function.update_apply]
            rw [if_neg (by omega : ¬ (i ≤ j ∧ j < i + 0))]
            rfl
          reads := fun j => by
            simp only [List.mem_singleton]
            omega
          writes := fun j member => by
            simp only [List.mem_singleton] at member
            omega }⟩

end Loops

section Listing

/-- What `list` owes its caller when the service answers with a name, or without one. -/
structure ListsName (path : Chars) (answer : Option Chars) (nameMax : UInt32) (listed : Listed) :
    Prop where
  asked : listed.asked = contents path
  inside : ∀ i ∈ listed.copied.reads, i < listBufSize
  bounded : ∀ i ∈ listed.copied.writes, i < nameMax.toNat
  found : listed.found = answer.isSome
  named : ∀ name ∈ answer,
    (∀ i, i < min (contents name).length (nameMax.toNat - 1) →
      listed.copied.nameOut i = charAt name i) ∧
    listed.copied.nameOut (min (contents name).length (nameMax.toNat - 1)) = 0

/-- The path as it arrives: 64 bytes of it and a NUL. -/
def sentPath (path : Chars) : Chars := (contents path).take (listBufSize - 1)

def Fits (path : Chars) (answer : Option Chars) (nameMax : UInt32) : Prop :=
  (contents path).length < listBufSize ∧
    ∀ name ∈ answer, (contents name).length < listBufSize ∨ nameMax.toNat ≤ listBufSize + 1

instance (path : Chars) (answer : Option Chars) (nameMax : UInt32) :
    Decidable (Fits path answer nameMax) :=
  inferInstanceAs (Decidable (_ ∧ ∀ name ∈ answer, _))

variable (path : Chars) (nameOut stack : Buf) (service : Service)

theorem filled_at {j : Nat} (inside : j < listBufSize) :
    filled path stack j = if j < (sentPath path).length then charAt path j else 0 := by
  unfold filled sentPath
  unfold listBufSize at inside ⊢
  have length : pathLen path = (contents path).length := length_of_contents path
  rw [fill_path_at, length, List.length_take]
  by_cases last : j = (contents path).length
  · subst last
    rw [char_at_end, if_pos inside]
    simp
  · rw [if_pos inside]
    exact if_congr (by omega) rfl rfl

theorem sent_path_at {i : Nat} (inside : i < (sentPath path).length) :
    (sentPath path)[i] = charAt path i :=
  List.getElem_take.trans (char_at_contents path _)

theorem asked_path :
    contents ((List.range bufSize).map
      (bulkCopy (filled path stack) listBufSize service.dataBuf bufSize)) = sentPath path := by
  have short : (sentPath path).length < listBufSize := by
    rw [sentPath, List.length_take]
    unfold listBufSize
    omega
  apply contents_of_start
  · intro member
    exact no_nul_in_contents path (List.mem_of_mem_take member)
  · apply List.prefix_iff_getElem?.2
    intro i inside
    rw [List.length_append, List.length_singleton] at inside
    unfold listBufSize at short
    rw [List.getElem?_map, List.getElem?_range (by unfold bufSize; omega), Option.map_some,
      bulk_copy_at, if_pos (by unfold listBufSize bufSize; omega),
      filled_at path stack (by unfold listBufSize; omega)]
    by_cases last : i = (sentPath path).length
    · subst last
      rw [if_neg (Nat.lt_irrefl _), List.getElem_concat_length]
      rfl
    · have before : i < (sentPath path).length := by omega
      rw [if_pos before, List.getElem_append_left before, sent_path_at]

theorem asked_whole_iff :
    sentPath path = contents path ↔ (contents path).length < listBufSize := by
  unfold sentPath listBufSize
  rw [List.take_eq_self_iff]
  omega

/-- The memory at `buf` when the answer is a name. -/
def answered (name : Chars) : Buf :=
  bulkCopy (charAt name) (StringView.lengthOf name + 1) (filled path stack) listBufSize

theorem answered_at (name : Chars) {j : Nat} (inside : j < listBufSize)
    (before : j ≤ (contents name).length) : answered path stack name j = charAt name j := by
  unfold answered
  rw [bulk_copy_at, length_of_contents, if_pos (by omega)]

variable {fuel : Nat} {index nameMax : UInt32} {answer : Option Chars} {fs : Fat32Filesystem}

/-- The reply to `VfsList`. -/
def listReply : Option Chars → Reply
  | some name =>
      ⟨{ Message.zero with arg1 := 1 }, charAt name, StringView.lengthOf name + 1⟩
  | none => ⟨Message.zero, fun _ => 0, 0⟩

theorem serve_list_returns (msg : Message) {before : Fat32Filesystem} {dataBuf : Buf}
    {asked : Chars} (asks : contents ((List.range bufSize).map dataBuf) = asked)
    (answers : listEntry fuel asked msg.arg1.toNat maxName before = some (answer, fs)) :
    serveList fuel msg ⟨before, dataBuf⟩ = some ((listReply answer, asked), ⟨fs, dataBuf⟩) := by
  subst asks
  unfold serveList
  dsimp only
  rw [answers]
  cases answer <;> rfl

def copiedAnswer (nameMax : UInt32) : Option Chars → Copied
  | none => ⟨nameOut, [], []⟩
  | some name => copyName (answered path stack name) (nameMax - 1).toNat 0 nameOut

theorem list_returns (nameMax : UInt32)
    (answers : listEntry fuel (sentPath path) index.toNat maxName service.fs = some (answer, fs)) :
    ∃ service', Vfs.list fuel path index nameOut nameMax stack service =
      some (⟨answer.isSome, sentPath path, copiedAnswer path nameOut stack nameMax answer⟩,
        service') := by
  unfold Vfs.list
  dsimp only
  rw [serve_list_returns (listRequest path index) (asked_path path stack service) answers]
  cases answer with
  | none => exact ⟨_, rfl⟩
  | some name => exact ⟨_, rfl⟩

theorem copied_name_iff (name : Chars) (room : 1 ≤ nameMax.toNat) :
    ListsName path (some name) nameMax
        ⟨true, contents path, copiedAnswer path nameOut stack nameMax (some name)⟩ ↔
      (contents name).length < listBufSize ∨ nameMax.toNat ≤ listBufSize + 1 := by
  obtain ⟨n, copies⟩ :=
    copy_name_copies (answered path stack name) (nameMax - 1).toNat 0 nameOut
  unfold copiedAnswer
  have limit : (nameMax - 1).toNat = nameMax.toNat - 1 :=
    UInt32.toNat_sub_of_le _ _ (UInt32.le_iff_toNat_le.2 room)
  rw [limit] at copies ⊢
  have within := copies.within
  have character : ∀ i, i < (contents name).length → charAt name i ≠ 0 := by
    intro i inside nul
    rw [← char_at_contents name inside] at nul
    exact no_nul_in_contents name (nul ▸ List.getElem_mem inside)
  -- Inside of the buffer the loop stops behind the name and not before.
  have stops : (contents name).length < listBufSize → n ≤ (contents name).length := by
    intro inside
    by_contra beyond
    apply copies.before (contents name).length (by omega)
    rw [Nat.zero_add, answered_at path stack name inside (Nat.le_refl _), char_at_end]
  have goes : n < listBufSize → n < nameMax.toNat - 1 → (contents name).length ≤ n := by
    intro inside less
    by_contra before
    have nul := copies.stopped less
    rw [Nat.zero_add, answered_at path stack name inside (by omega)] at nul
    exact character n (by omega) nul
  constructor
  · intro lists
    by_contra neither
    unfold listBufSize at neither stops goes
    have outside : listBufSize ∈ (copyName (answered path stack name) (nameMax.toNat - 1) 0
        nameOut).reads := by
      apply (copies.reads listBufSize).2
      unfold listBufSize
      omega
    exact Nat.lt_irrefl _ (lists.inside _ outside)
  · intro fits
    unfold listBufSize at fits stops goes
    have length : n = min (contents name).length (nameMax.toNat - 1) := by omega
    exact {
      asked := rfl
      inside := fun i member => by
        have read := (copies.reads i).1 member
        unfold listBufSize
        omega
      bounded := fun i member => by
        have := copies.writes i member
        omega
      found := rfl
      named := fun other same => by
        obtain rfl := Option.some.inj same
        rw [← length]
        constructor
        · intro i below
          rw [copies.result, if_pos (by omega)]
          exact answered_at path stack name (by unfold listBufSize; omega) (by omega)
        · rw [copies.result, if_neg (by omega), if_pos (by omega)] }

/-- A call of `list` does what it owes exactly when the path and the name fit its buffer, or the
caller asks for no more than the buffer has. -/
theorem list_safe_iff (room : 1 ≤ nameMax.toNat)
    (answers : listEntry fuel (sentPath path) index.toNat maxName service.fs = some (answer, fs)) :
    ∃ listed service', Vfs.list fuel path index nameOut nameMax stack service =
      some (listed, service') ∧
        (ListsName path answer nameMax listed ↔ Fits path answer nameMax) := by
  obtain ⟨service', run⟩ := list_returns path nameOut stack service nameMax answers
  refine ⟨_, service', run, ?_⟩
  unfold Fits
  rw [← asked_whole_iff]
  by_cases whole : sentPath path = contents path
  · rw [whole, and_iff_right rfl]
    cases answer with
    | none => exact iff_of_true ⟨rfl, nofun, nofun, rfl, nofun⟩ nofun
    | some name =>
        simpa using copied_name_iff path nameOut stack name room
  · exact iff_of_false (fun lists => whole lists.asked) fun fits => whole fits.1

/-- A root directory in cluster 2 with a file whose name has 65 characters. -/
def longName : Chars := List.replicate 65 0x61

def longSectors (lba : Nat) : Sector := fun k =>
  if lba = 1 ∨ lba = 2 then
    if k.val % 4 = 0 then 0xF8 else if k.val % 4 = 3 then 0x0F else 0xFF
  else if lba = 3 then
    let shortEntry : DirEntry := fun k =>
      if k.val < 11 then (nameToShort longName).getD k.val 0
      else if k = 11 then DirAttr.archive else 0
    ((createdSlots longName ++ [shortEntry]).getD (k.val / 32) (fun _ => 0))
      (Fin.ofNat 32 (k.val % 32))
  else 0

def longVolume : Fat32Filesystem where
  ata := ⟨longSectors, []⟩
  heap := ⟨[], fun _ => 0⟩
  bytesPerSector := 512
  sectorsPerCluster := 1
  bytesPerCluster := 512
  reservedSectors := 1
  numFats := 2
  fatSize := 1
  fatStartSector := 1
  dataStartSector := 3
  rootCluster := 2
  totalClusters := 2
  fatEntryCount := 4
  handles := List.replicate 16 emptyHandle
  cache := List.replicate cacheSize emptyCacheEntry
  cacheAge := 0
  lfnOverrun := false

theorem long_name_answered :
    ∃ fs, listEntry 4 [charSlash] 0 maxName longVolume = some (some longName, fs) := by
  have run : (listEntry 4 [charSlash] 0 maxName longVolume).map Prod.fst =
      some (some longName) := by decide +kernel
  obtain ⟨⟨_, fs⟩, answers, rfl⟩ := Option.map_eq_some_iff.1 run
  exact ⟨fs, answers⟩

/-- With room for 65 characters and a NUL the name of 65 characters arrives. -/
theorem long_name_listed : ∃ listed service',
    Vfs.list 4 [charSlash] 0 (fun _ => 0) 66 (fun _ => 0) ⟨longVolume, fun _ => 0⟩ =
      some (listed, service') ∧ ListsName [charSlash] (some longName) 66 listed := by
  obtain ⟨fs, answers⟩ := long_name_answered
  obtain ⟨listed, service', run, iff⟩ : ∃ listed service',
      Vfs.list 4 [charSlash] 0 (fun _ => 0) 66 (fun _ => 0) ⟨longVolume, fun _ => 0⟩ =
        some (listed, service') ∧
      (ListsName [charSlash] (some longName) 66 listed ↔ Fits [charSlash] (some longName) 66) :=
    list_safe_iff _ _ _ _ (by decide) answers
  exact ⟨listed, service', run, iff.2 (by decide)⟩

/-- With more room the byte behind the buffer is read. -/
theorem long_name_overread :
    (∃ fs, listEntry 4 (sentPath [charSlash]) 0 maxName longVolume = some (some longName, fs)) ∧
      ∃ listed service',
        Vfs.list 4 [charSlash] 0 (fun _ => 0) 256 (fun _ => 0) ⟨longVolume, fun _ => 0⟩ =
          some (listed, service') ∧ ¬ ListsName [charSlash] (some longName) 256 listed := by
  have run : (Vfs.list 4 [charSlash] 0 (fun _ => 0) 256 (fun _ => 0)
      ⟨longVolume, fun _ => 0⟩).map (fun result => decide (listBufSize ∈ result.1.copied.reads)) =
      some true := by
    decide +kernel
  obtain ⟨⟨listed, service'⟩, returned, read⟩ := Option.map_eq_some_iff.1 run
  refine ⟨long_name_answered, listed, service', returned, ?_⟩
  intro lists
  exact Nat.lt_irrefl _ (lists.inside _ (of_decide_eq_true read))

end Listing

end CassiOS.Userland.DirectoryListing
