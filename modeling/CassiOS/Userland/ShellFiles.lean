import CassiOS.Fat32.OpenFiles
import CassiOS.Userland.FileTransfer
import CassiOS.Userland.ShellInput
import CassiOS.Userland.TerminalScreen

/-!
# Files in the shell

The commands `cat`, `write` and `exec` of the shell once the file is open. `cat` types a file
piece by piece, none longer than what the terminal takes, and ends the line; `write` joins its words
and cuts the text to its buffer; `exec` loads a file in pieces of a fixed size, of which the last one
may reach behind the buffer.
-/

namespace CassiOS.Userland.ShellFiles

open CassiOS.Fat32
open CassiOS.Fat32.Types
open CassiOS.Fat32.DataReads
open CassiOS.Fat32.Device
open CassiOS.Fat32.Operations
open CassiOS.Fat32.VolumeModel
open CassiOS.Fat32.FileModel
open CassiOS.Fat32.StoredFile
open CassiOS.Fat32.RoundTrip
open CassiOS.Support.PartialProgram
open CassiOS.Userland.FileTransfer
open CassiOS.Userland.Messages
open CassiOS.Userland.ShellInput (TerminalCall charNewline)
open CassiOS.Userland.TerminalGrid (Op)
open CassiOS.Userland.TerminalScreen (opsOf requested dataBufSize)
open CassiOS.Userland.VfsService

set_option autoImplicit false

section Commands

/-- The loop of `cmdCat`, with the texts that it writes to the terminal. -/
def catLoop (fuel : Nat) (handle : UInt32) :
    Nat → UInt32 → Buf → Service → Option (List Chars × Service)
  | 0, _, _, _ => none
  | rounds + 1, offset, buf, service => do
      let ((n, buf), service) ← Vfs.read fuel handle offset buf 256 service
      if n ≤ 0 then pure ([], service)
      else do
        let (texts, service) ←
          catLoop fuel handle rounds (offset + UInt32.ofNat n.toNat) buf service
        pure ((List.range n.toNat).map buf :: texts, service)

/-- `cmdCat` once the file is open, with its calls of the terminal. -/
def catOpened (fuel rounds : Nat) (handle : UInt32) (buf : Buf) (service : Service) :
    Option (List TerminalCall × Service) := do
  let (texts, service) ← catLoop fuel handle rounds 0 buf service
  pure (texts.map TerminalCall.write ++ [.putchar charNewline], service)

/-- `Terminal::write` of the client as the terminal receives it. -/
def terminalWrite (sender : UInt32) (stack : Buf) (text : Chars) : TerminalScreen.Received where
  sender := sender
  msg := { Message.zero with type := MessageType.terminalWrite, arg1 := UInt32.ofNat text.length }
  dataBuf := bulkCopy (charAt text) text.length stack dataBufSize

/-- A function of the terminal client as the terminal receives it. -/
def delivered (sender : UInt32) (stack : Buf) : TerminalCall → TerminalScreen.Received
  | .putchar ch => ⟨sender,
      { Message.zero with type := MessageType.terminalPutchar, arg1 := ch.toUInt32 }, stack⟩
  | .write text => terminalWrite sender stack text
  | .setCursor col row => ⟨sender, { Message.zero with
      type := MessageType.terminalSetCursor, arg1 := col.toUInt32, arg2 := row.toUInt32 }, stack⟩
  | .getCursor => ⟨sender, { Message.zero with type := MessageType.terminalGetCursor }, stack⟩
  | .flush => ⟨sender, { Message.zero with type := MessageType.terminalFlush }, stack⟩

def shown (sender : UInt32) (stack : Buf) (calls : List TerminalCall) : List Op :=
  calls.flatMap fun call => opsOf (requested (delivered sender stack call))

def textSize : Nat := 64

/-- The inner loop of `cmdWrite`, over the characters before the NUL. -/
def addChars : Chars → List UInt8 → List UInt8
  | [], text => text
  | ch :: rest, text =>
      if ch ≠ 0 ∧ text.length < textSize then addChars rest (text ++ [ch]) else text

/-- The outer loop of `cmdWrite` from the argument `i` on; `pos` is the length of the text. -/
def joinFrom : Nat → List Chars → List UInt8 → List UInt8
  | _, [], text => text
  | i, word :: rest, text =>
      if text.length < textSize then
        let text := if 2 < i ∧ text.length < textSize then text ++ [0x20] else text
        joinFrom (i + 1) rest (addChars word text)
      else text

/-- `cmdWrite` with the words behind the file name. -/
def writeWords (fuel : Nat) (handle : UInt32) (words : List Chars) (stack : Buf)
    (service : Service) : Option ((UInt32 × List DataRead) × Service) :=
  let text := joinFrom 2 words []
  Vfs.write fuel handle (fun i => text.getD i (stack i)) (UInt32.ofNat text.length) service

def maxElfSize : Nat := 65536

/-- The bytes that a read of `exec` asks for. -/
def elfPiece : UInt32 := 512

/-- The memory from `elfBuf` on, with the offsets that have been read to. -/
structure Loaded where
  total : Nat
  memory : Buf
  starts : List Nat

/-- The loop of `cmdExec`. -/
def loadLoop (fuel : Nat) (handle : UInt32) : Nat → Loaded → Service → Option (Loaded × Service)
  | 0, _, _ => none
  | rounds + 1, l, service =>
      if l.total < maxElfSize then do
        let ((n, piece), service) ← Vfs.read fuel handle (UInt32.ofNat l.total)
          (fun i => l.memory (l.total + i)) elfPiece service
        let l := { l with
          memory := fun i => if i < l.total then l.memory i else piece (i - l.total)
          starts := l.starts ++ [l.total] }
        if n ≤ 0 then pure (l, service)
        else loadLoop fuel handle rounds { l with total := l.total + n.toNat } service
      else pure (l, service)

def InBuffer (starts : List Nat) : Prop := ∀ start ∈ starts, start + elfPiece.toNat ≤ maxElfSize

end Commands

section Printing

variable {faults : Faults} {w : Volume} {handle : UInt32} {data : Buf} {len fuel : Nat}
  {service : Service}

theorem text_typed (sender : UInt32) (stack : Buf) {text : Chars}
    (short : text.length ≤ dataBufSize) :
    opsOf (requested (terminalWrite sender stack text)) = text.map Op.putchar := by
  unfold dataBufSize at short
  have count : (UInt32.ofNat text.length).toNat = text.length := by
    rw [UInt32.toNat_ofNat']
    exact Nat.mod_eq_of_lt (by omega)
  have all : requested (terminalWrite sender stack text) =
      (List.range text.length).map fun i => .op (.putchar (charAt text i)) := by
    unfold requested terminalWrite
    dsimp only
    rw [if_neg (by decide), if_pos rfl, count, if_neg (by unfold dataBufSize; omega)]
    apply List.map_congr_left
    intro i member
    have inside := List.mem_range.1 member
    rw [bulk_copy_at, if_pos (by unfold dataBufSize; omega)]
  have spelled : (List.range text.length).map (charAt text) = text := by
    apply List.ext_getElem
    · rw [List.length_map, List.length_range]
    · intro i _ inside
      rw [List.getElem_map, List.getElem_range]
      unfold charAt
      rw [List.getD_eq_getElem?_getD, List.getElem?_eq_getElem inside]
      rfl
  rw [all]
  unfold opsOf
  rw [List.filterMap_map]
  change List.filterMap (fun i => some (Op.putchar (charAt text i))) _ = _
  rw [List.filterMap_eq_map']
  have typed := congrArg (List.map Op.putchar) spelled
  rwa [List.map_map] at typed

theorem cat_loop_prints (file : FileReads faults w handle data len) (fits : len < 2 ^ 32)
    (enough : bufSize < fuel) (rounds offset : Nat) (inside : offset ≤ len)
    (left : len - offset < rounds) (buf : Buf) (stands : Stands faults service.fs w) :
    ∃ texts service', catLoop fuel handle rounds (UInt32.ofNat offset) buf service =
        some (texts, service') ∧ Stands faults service'.fs w ∧
      (∀ text ∈ texts, text.length ≤ dataBufSize) ∧
      texts.flatten = (List.range (len - offset)).map fun i => data (offset + i) := by
  induction rounds generalizing offset buf service with
  | zero => exact absurd left (Nat.not_lt_zero _)
  | succ rounds ih =>
      have position : (UInt32.ofNat offset).toNat = offset := by
        rw [UInt32.toNat_ofNat']
        omega
      obtain ⟨out, next, run, stands', bytes⟩ := vfs_read_returns file enough stands
        (UInt32.ofNat offset) buf 256
      have piece : pieceLength (256 : UInt32).toNat len offset = min 256 (len - offset) := by
        unfold pieceLength bufSize
        change min (min 256 4096) _ = _
        omega
      rw [position, piece] at run bytes
      generalize countEq : min 256 (len - offset) = count at run bytes
      unfold catLoop
      rw [run]
      simp only [Option.bind_eq_bind, Option.bind_some, Option.pure_def]
      by_cases ended : count = 0
      · have nothing : len - offset = 0 := by omega
        rw [if_pos (by omega), nothing]
        exact ⟨[], next, rfl, stands', nofun, rfl⟩
      · have later : UInt32.ofNat offset + UInt32.ofNat (count : Int).toNat =
            UInt32.ofNat (offset + count) := (UInt32.ofNat_add _ _).symm
        obtain ⟨texts, last, rest, stands'', short, spelled⟩ :=
          ih (offset + count) (by omega) (by omega) out stands'
        rw [if_neg (by omega), later, rest, Option.bind_some]
        refine ⟨_, last, rfl, stands'', ?_, ?_⟩
        · intro text member
          rcases List.mem_cons.1 member with rfl | member
          · rw [List.length_map, List.length_range, Int.toNat_natCast]
            unfold dataBufSize
            omega
          · exact short text member
        · have pieces : len - offset = count + (len - (offset + count)) := by omega
          have front : (List.range count).map out =
              (List.range count).map fun i => data (offset + i) :=
            List.map_congr_left fun i member => bytes i (List.mem_range.1 member)
          rw [List.flatten_cons, spelled, Int.toNat_natCast, pieces, List.range_add,
            List.map_append, List.map_map, front]
          simp only [Function.comp_def, Nat.add_assoc]

/-- The handle is open on a file with the first `len` bytes of the data. -/
def Opened (v : Volume) (handle : Nat) (data : Buf) (len : Nat) : Prop :=
  ∃ fh cs, openHandle v handle = some fh ∧ FileOf v fh cs ∧ fh.size = len ∧
    len ≤ cs.length * v.clusterBytes ∧ Holds v data len cs

theorem opened_reads (sure : faults.drive = false) (supplied : faults.heap = false) {v : Volume}
    (opened : Opened v handle.toNat data len) : FileReads faults v handle data len := by
  obtain ⟨fh, cs, opened, agrees, size, room, holds⟩ := opened
  have reach : Reaches v handle.toNat := by
    intro fh' opened' p inside
    obtain rfl := Option.some.inj (opened.symm.trans opened')
    obtain ⟨d, _, reached, valid⟩ :=
      OpenFiles.chain_byte agrees.chain (Nat.lt_of_lt_of_le (size ▸ inside) room)
    exact .inr (reached.symm ▸ valid)
  intro fuel offset buf n enough
  apply (read_does sure supplied fuel handle.toNat offset buf n enough reach).mono
  rintro answer _ ⟨rfl, spec⟩
  exact ⟨rfl, OpenFiles.read_held opened size
    (fun p => OpenFiles.held_byte agrees room holds) spec⟩

theorem texts_shown (sender : UInt32) (stack : Buf) {texts : List Chars}
    (short : ∀ text ∈ texts, text.length ≤ dataBufSize) :
    shown sender stack (texts.map TerminalCall.write) = texts.flatten.map Op.putchar := by
  induction texts with
  | nil => rfl
  | cons text rest ih =>
      have before := ih fun other member => short other (List.mem_cons_of_mem _ member)
      have first : opsOf (requested (delivered sender stack (.write text))) =
          text.map Op.putchar := text_typed sender stack (short text List.mem_cons_self)
      unfold shown at before ⊢
      rw [List.map_cons, List.flatMap_cons, before, first, List.flatten_cons, List.map_append]

theorem shown_line (sender : UInt32) (stack : Buf) (calls : List TerminalCall) :
    shown sender stack (calls ++ [.putchar charNewline]) =
      shown sender stack calls ++ [Op.putchar charNewline] := List.flatMap_append

theorem cat_types (file : FileReads faults w handle data len) (fits : len < 2 ^ 32)
    (enough : bufSize < fuel) (stands : Stands faults service.fs w) (buf : Buf) {rounds : Nat}
    (left : len < rounds) (sender : UInt32) (stack : Buf) :
    ∃ calls service', catOpened fuel rounds handle buf service = some (calls, service') ∧
      Stands faults service'.fs w ∧
      shown sender stack calls =
        ((List.range len).map data ++ [charNewline]).map Op.putchar := by
  obtain ⟨texts, service', run, stands', short, spelled⟩ :=
    cat_loop_prints file fits enough rounds 0 (Nat.zero_le len) left buf stands
  refine ⟨texts.map TerminalCall.write ++ [.putchar charNewline], service', ?_, stands', ?_⟩
  · unfold catOpened
    change (catLoop fuel handle rounds (UInt32.ofNat 0) buf service).bind _ = _
    rw [run]
    rfl
  · rw [shown_line, texts_shown sender stack short, spelled, Nat.sub_zero, List.map_append]
    simp only [Nat.zero_add, List.map_cons, List.map_nil]

/-- `cat` makes the terminal type the bytes of the file, in their order, then a newline and nothing
else, and leaves the volume as it is. -/
theorem cat_types_file (stands : Stands ⟨false, false⟩ service.fs w)
    (opened : Opened w handle.toNat data len) (fits : len < 2 ^ 32) (enough : bufSize < fuel)
    (buf : Buf) {rounds : Nat} (left : len < rounds) (sender : UInt32) (stack : Buf) :
    ∃ calls service', catOpened fuel rounds handle buf service = some (calls, service') ∧
      Stands ⟨false, false⟩ service'.fs w ∧
      shown sender stack calls =
        ((List.range len).map data ++ [charNewline]).map Op.putchar :=
  cat_types (opened_reads rfl rfl opened) fits enough stands buf left sender stack

/-- Cluster 3 with letters, and the file in it open with 300 of them. -/
def letterVolume : Fat32Filesystem :=
  { wideVolume with
    ata := ⟨fun lba => if lba = 19 then fun _ => 0x42 else wideSectors lba, []⟩
    handles := ⟨3, 300, 2, 0, false, true⟩ :: List.replicate 15 emptyHandle }

theorem letter_volume_stands : Stands ⟨false, false⟩ letterVolume (volumeOf letterVolume) where
  layout := by constructor <;> decide
  steady := CacheTransparency.steady_empty rfl rfl rfl
  content := rfl

theorem letter_file_opened : Opened (volumeOf letterVolume) 1 (fun _ => 0x42) 300 := by
  have fat : (volumeOf letterVolume).fat 2 = fatEoc ∧ (volumeOf letterVolume).fat 3 = fatEoc := by
    decide +kernel
  refine ⟨⟨3, 300, 2, 0, false, true⟩, [3], rfl, ⟨?_, by decide, ?_, by decide⟩, rfl, by decide, ?_⟩
  · exact .inr ⟨⟨⟨rfl, by decide, Nat.le_of_eq fat.2.symm⟩, by decide⟩, by decide⟩
  · rintro ⟨_, free⟩
    exact absurd (fat.1.symm.trans free) (by decide)
  · intro i d found j _ low
    cases i with
    | zero =>
        obtain rfl := Option.some.inj found
        have all : ∀ j : Fin 300, (volumeOf letterVolume).cluster 3 j.val = 0x42 := by
          decide +kernel
        exact all ⟨j, by omega⟩
    | succ i => cases found

theorem letter_file_typed : ∃ calls service',
    catOpened 4097 301 1 (fun _ => 0) ⟨letterVolume, fun _ => 0⟩ = some (calls, service') ∧
      shown 7 (fun _ => 0) calls =
        ((List.range 300).map (fun _ => 0x42) ++ [charNewline]).map Op.putchar := by
  have fits : 300 < 2 ^ 32 := by decide
  have service : Stands ⟨false, false⟩ (Service.mk letterVolume fun _ => 0).fs
      (volumeOf letterVolume) := letter_volume_stands
  obtain ⟨calls, service', run, _, types⟩ := cat_types_file service
    (show Opened _ (1 : UInt32).toNat _ _ from letter_file_opened) fits
    (show bufSize < 4097 by decide) (fun _ => 0) (show 300 < 301 by decide) 7 fun _ => 0
  exact ⟨calls, service', run, types⟩

end Printing

section Joining

theorem take_full {text : List UInt8} (full : ¬ text.length < textSize)
    (fits : text.length ≤ textSize) (more : List UInt8) : (text ++ more).take textSize = text := by
  have length : text.length = textSize := by omega
  exact List.take_left' length

theorem add_chars_take (word : Chars) {text : List UInt8} (fits : text.length ≤ textSize) :
    addChars word text = (text ++ contents word).take textSize := by
  induction word generalizing text with
  | nil =>
      unfold addChars contents
      rw [List.takeWhile_nil, List.append_nil, List.take_of_length_le fits]
  | cons ch rest ih =>
      unfold addChars
      by_cases nul : ch = 0
      · have empty : contents (ch :: rest) = [] :=
          List.takeWhile_cons_of_neg (by simpa using nul)
        rw [if_neg fun both => both.1 nul, empty, List.append_nil, List.take_of_length_le fits]
      · have first : contents (ch :: rest) = ch :: contents rest :=
          List.takeWhile_cons_of_pos (by simpa using nul)
        rw [first]
        by_cases room : text.length < textSize
        · rw [if_pos ⟨nul, room⟩, ih (by rw [List.length_append, List.length_singleton]; omega),
            List.append_assoc]
          rfl
        · rw [if_neg fun both => room both.2, take_full room fits]

theorem take_take_append (text more : List UInt8) (n : Nat) :
    (text.take n ++ more).take n = (text ++ more).take n := by
  rw [List.take_append, List.take_append, List.take_take, Nat.min_self, List.length_take]
  by_cases long : n ≤ text.length
  · rw [Nat.min_eq_left long, Nat.sub_self, Nat.sub_eq_zero_of_le long]
  · rw [Nat.min_eq_right (Nat.le_of_not_le long)]

theorem add_chars_length (word : Chars) {text : List UInt8} (fits : text.length ≤ textSize) :
    (addChars word text).length ≤ textSize := by
  rw [add_chars_take word fits]
  exact List.length_take_le _ _

/-- The words behind the first one, with a blank before each. -/
theorem join_from_rest {i : Nat} (behind : 2 < i) (words : List Chars) {text : List UInt8}
    (fits : text.length ≤ textSize) :
    joinFrom i words text =
      (text ++ words.flatMap fun word => 0x20 :: contents word).take textSize := by
  induction words generalizing i text with
  | nil =>
      unfold joinFrom
      rw [List.flatMap_nil, List.append_nil, List.take_of_length_le fits]
  | cons word rest ih =>
      unfold joinFrom
      by_cases room : text.length < textSize
      · have fits' : (text ++ [0x20]).length ≤ textSize := by
          rw [List.length_append, List.length_singleton]
          omega
        rw [if_pos room, if_pos ⟨behind, room⟩,
          ih (Nat.lt_succ_of_lt behind) (add_chars_length word fits'), add_chars_take word fits',
          take_take_append, List.flatMap_cons, List.append_assoc, List.append_assoc]
        rfl
      · rw [if_neg room, take_full room fits]

theorem intercalate_flat (first : List UInt8) (rest : List Chars) :
    List.intercalate [0x20] (first :: rest.map contents) =
      first ++ rest.flatMap fun word => 0x20 :: contents word := by
  induction rest generalizing first with
  | nil => exact List.intercalate_singleton.trans (List.append_nil first).symm
  | cons word rest ih =>
      rw [List.map_cons, List.intercalate_cons_cons, ih, List.flatMap_cons]
      simp only [List.append_assoc, List.cons_append, List.nil_append]

theorem join_words (words : List Chars) :
    joinFrom 2 words [] = (List.intercalate [0x20] (words.map contents)).take textSize := by
  cases words with
  | nil => rfl
  | cons word rest =>
      have fits : ([] : List UInt8).length ≤ textSize := Nat.zero_le _
      unfold joinFrom
      rw [if_pos (by decide), if_neg fun both => absurd both.1 (by decide),
        join_from_rest (by decide) rest (add_chars_length word fits), add_chars_take word fits,
        take_take_append, List.nil_append, List.map_cons, intercalate_flat]

variable {faults : Faults} {v : Volume} {service service' : Service} {handle : UInt32}
  {reads : List DataRead} {fuel : Nat} {stack : Buf} {words : List Chars}

/-- What `write` has stored under a handle `cat` types: the words with blanks between them, cut to
64 characters, and a newline. -/
theorem cat_types_written (stands : Stands ⟨false, false⟩ service.fs v) {fh : FileHandle}
    (opened : openHandle v handle.toNat = some fh) {cs : List Nat} (agrees : FileOf v fh cs)
    (written : writeWords fuel handle words stack service = some ((0, reads), service'))
    {fuel' rounds : Nat} (enough : bufSize < fuel') (left : textSize < rounds) (buf : Buf)
    (sender : UInt32) :
    ∃ calls service'', catOpened fuel' rounds handle buf service' = some (calls, service'') ∧
      shown sender stack calls =
        ((List.intercalate [0x20] (words.map contents)).take textSize ++ [charNewline]).map
          Op.putchar := by
  have small : v.fatEntryCount ≤ 0x0FFFFFF7 := stands.count ▸ stands.layout.entries
  unfold writeWords at written
  rw [join_words] at written
  generalize textEq : (List.intercalate [0x20] (words.map contents)).take textSize = text at *
  have short : text.length ≤ textSize := by
    rw [← textEq]
    exact List.length_take_le _ _
  unfold textSize at short left
  have count : (UInt32.ofNat text.length).toNat = text.length := by
    rw [UInt32.toNat_ofNat']
    exact Nat.mod_eq_of_lt (by omega)
  have run := vfs_write_run written
  rw [count] at run
  obtain ⟨w, stands', stores⟩ := write_logged_stores rfl rfl small opened agrees.chain
    agrees.directory service.fs stands _ _ run
  obtain ⟨first, _, u, file, stored, rfl⟩ := stores rfl
  have reads_ : FileReads ⟨false, false⟩ _ handle _ text.length := fun fuel offset buf n more =>
    read_written_does rfl rfl stored agrees opened fuel offset buf n more
  obtain ⟨calls, last, ran, _, prints⟩ :=
    cat_types reads_ (by omega) enough stands' buf (Nat.lt_of_le_of_lt short left) sender stack
  refine ⟨calls, last, ran, prints.trans (congrArg (fun bytes =>
    (bytes ++ [charNewline]).map Op.putchar) ?_)⟩
  have spelled : (List.range text.length).map (fun i => text.getD i 0) = text := by
    apply List.ext_getElem
    · rw [List.length_map, List.length_range]
    · intro i _ inside
      rw [List.getElem_map, List.getElem_range, List.getD_eq_getElem?_getD,
        List.getElem?_eq_getElem inside]
      rfl
  refine Eq.trans ?_ spelled
  apply List.map_congr_left
  intro i member
  have inside := List.mem_range.1 member
  unfold received
  rw [bulk_copy_at, count, if_pos (by unfold bufSize; omega), List.getD_eq_getElem?_getD,
    List.getD_eq_getElem?_getD, List.getElem?_eq_getElem inside]
  rfl

/-- `write <file> hi you`. -/
theorem words_typed : ∃ service' calls service'' reads,
    writeWords 5 1 [[0x68, 0x69], [0x79, 0x6F, 0x75]] (fun _ => 0) wideService =
      some ((0, reads), service') ∧
      catOpened 4097 65 1 (fun _ => 0) service' = some (calls, service'') ∧
      shown 7 (fun _ => 0) calls =
        ([0x68, 0x69, 0x20, 0x79, 0x6F, 0x75, charNewline] : List UInt8).map Op.putchar := by
  have possible : (writeWords 5 1 [[0x68, 0x69], [0x79, 0x6F, 0x75]] (fun _ => 0)
      wideService).map (fun out => out.1.1) = some 0 := by
    decide +kernel
  obtain ⟨⟨⟨_, reads⟩, service'⟩, written, rfl⟩ := Option.map_eq_some_iff.1 possible
  have opened : openHandle (volumeOf wideVolume) (1 : UInt32).toNat = some wideHandle := rfl
  have stands : Stands ⟨false, false⟩ wideService.fs (volumeOf wideVolume) := wide_volume_stands
  obtain ⟨calls, service'', run, types⟩ := cat_types_written stands opened wide_file written
    (show bufSize < 4097 by decide) (show textSize < 65 by decide) (fun _ => 0) 7
  exact ⟨service', calls, service'', reads, written, run, types⟩

end Joining

section Loading

variable {faults : Faults} {w : Volume} {handle : UInt32} {data : Buf} {len fuel : Nat}
  {service : Service} {l : Loaded}

/-- The loop has loaded the file up to `total`, in whole pieces unless it is at the end. -/
structure Partly (data : Buf) (len : Nat) (l : Loaded) : Prop where
  inFile : l.total ≤ len
  inBuffer : l.total ≤ maxElfSize
  whole : l.total % elfPiece.toNat = 0 ∨ l.total = len
  bytes : ∀ i, i < l.total → l.memory i = data i
  pieces : InBuffer l.starts

structure Whole (data : Buf) (len : Nat) (l : Loaded) : Prop where
  total : l.total = min len maxElfSize
  bytes : ∀ i, i < l.total → l.memory i = data i
  pieces : InBuffer l.starts ↔ len + elfPiece.toNat ≤ maxElfSize ∨ maxElfSize ≤ len

theorem in_buffer_concat {starts : List Nat} (inside : InBuffer starts) (start : Nat) :
    InBuffer (starts ++ [start]) ↔ start + elfPiece.toNat ≤ maxElfSize := by
  constructor
  · intro all
    exact all start (List.mem_append_right _ (List.mem_singleton_self start))
  · intro last other member
    rcases List.mem_append.1 member with old | new
    · exact inside other old
    · rw [List.mem_singleton.1 new]
      exact last

theorem load_loop_loads (file : FileReads faults w handle data len) (fits : len < 2 ^ 32)
    (enough : bufSize < fuel) (rounds : Nat) (partly : Partly data len l)
    (left : maxElfSize - l.total < rounds) (stands : Stands faults service.fs w) :
    ∃ l' service', loadLoop fuel handle rounds l service = some (l', service') ∧
      Stands faults service'.fs w ∧ Whole data len l' := by
  induction rounds generalizing l service with
  | zero => exact absurd left (Nat.not_lt_zero _)
  | succ rounds ih =>
      have size : elfPiece.toNat = 512 := rfl
      have most : maxElfSize = 65536 := rfl
      have inFile := partly.inFile
      have inBuffer := partly.inBuffer
      have whole := partly.whole
      rw [size] at whole
      unfold loadLoop
      by_cases more : l.total < maxElfSize
      · have position : (UInt32.ofNat l.total).toNat = l.total := by
          rw [UInt32.toNat_ofNat']
          omega
        obtain ⟨piece, next, run, stands', bytes⟩ := vfs_read_returns file enough stands
          (UInt32.ofNat l.total) (fun i => l.memory (l.total + i)) elfPiece
        have length : pieceLength elfPiece.toNat len l.total = min 512 (len - l.total) := by
          unfold pieceLength bufSize
          omega
        rw [position, length] at run bytes
        generalize countEq : min 512 (len - l.total) = count at run bytes
        rw [if_pos more, run]
        simp only [Option.bind_eq_bind, Option.bind_some, Option.pure_def]
        by_cases ended : count = 0
        · rw [if_pos (by omega)]
          refine ⟨_, next, rfl, stands', ?_, ?_, ?_⟩
          · change l.total = _
            omega
          · intro i below
            change (if i < l.total then l.memory i else _) = _
            rw [if_pos below]
            exact partly.bytes i below
          · rw [in_buffer_concat partly.pieces]
            omega
        · rw [if_neg (by omega)]
          apply ih ?_ ?_ stands'
          · refine ⟨?_, ?_, ?_, ?_, ?_⟩
            · change l.total + (count : Int).toNat ≤ len
              omega
            · change l.total + (count : Int).toNat ≤ maxElfSize
              omega
            · change (l.total + (count : Int).toNat) % 512 = 0 ∨ l.total + (count : Int).toNat = len
              omega
            · intro i below
              change i < l.total + (count : Int).toNat at below
              change (if i < l.total then l.memory i else piece (i - l.total)) = data i
              split
              · exact partly.bytes i ‹_›
              · rw [bytes (i - l.total) (by omega), Nat.add_sub_of_le (by omega)]
            · exact (in_buffer_concat partly.pieces l.total).2 (by omega)
          · change maxElfSize - (l.total + (count : Int).toNat) < rounds
            omega
      · rw [if_neg more]
        refine ⟨l, service, rfl, stands, by omega, partly.bytes, ?_⟩
        exact iff_of_true partly.pieces (.inr (by omega))

/-- `exec` loads the file, or its first 65536 bytes. Its reads stay in the buffer exactly when the
last piece, which finds the end of the file, does. -/
theorem exec_loads_file (stands : Stands ⟨false, false⟩ service.fs w)
    (opened : Opened w handle.toNat data len) (fits : len < 2 ^ 32) (enough : bufSize < fuel)
    (memory : Buf) {rounds : Nat} (left : maxElfSize < rounds) :
    ∃ l service', loadLoop fuel handle rounds ⟨0, memory, []⟩ service = some (l, service') ∧
      Stands ⟨false, false⟩ service'.fs w ∧ Whole data len l :=
  load_loop_loads (opened_reads rfl rfl opened) fits enough rounds
    ⟨Nat.zero_le _, Nat.zero_le _, .inl rfl, nofun, nofun⟩ left stands

theorem letter_file_loaded : ∃ l service', loadLoop 4097 1 65537 ⟨0, fun _ => 0, []⟩
    ⟨letterVolume, fun _ => 0⟩ = some (l, service') ∧ l.total = 300 ∧ InBuffer l.starts := by
  have fits : 300 < 2 ^ 32 := by decide
  have service : Stands ⟨false, false⟩ (Service.mk letterVolume fun _ => 0).fs
      (volumeOf letterVolume) := letter_volume_stands
  obtain ⟨l, service', run, _, whole⟩ := exec_loads_file service
    (show Opened _ (1 : UInt32).toNat _ _ from letter_file_opened) fits
    (show bufSize < 4097 by decide) (fun _ => 0) (show maxElfSize < 65537 by decide)
  exact ⟨l, service', run, whole.total, whole.pieces.2 (.inl (by decide))⟩

end Loading

end CassiOS.Userland.ShellFiles
