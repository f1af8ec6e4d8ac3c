import CassiOS.Fat32.Enumeration
import CassiOS.Fat32.PathWalk

/-!
# The buffers of a name

The accesses of `readDirEntry` to `lfnBuf` and to `nameOut`, in their order. `lfnBuf` takes at
most twenty slots of a long name, and the short entry is copied behind them: with twenty
slots collected this is one past its end.
-/

namespace CassiOS.Fat32.NameBuffers

open CassiOS.Support.PartialProgram
open CassiOS.Fat32.Types
open CassiOS.Fat32.Names
open CassiOS.Fat32.Device
open CassiOS.Fat32.Filesystem
open CassiOS.Fat32.VolumeModel
open CassiOS.Fat32.FatModel
open CassiOS.Fat32.DirectoryModel
open CassiOS.Fat32.Enumeration

set_option autoImplicit false

section Accesses

/-- An access to `lfnBuf` or a write to `nameOut`. -/
inductive Access where
  | lfn (index : Nat)
  | name (index : Nat)
  deriving DecidableEq

def Access.InBounds (nameMax : Nat) : Access → Prop
  | .lfn index => index < maxLfnEntries
  | .name index => index < nameMax

/-- The characters that `extractLfn` visits, each with the index of its slot. -/
def slotChars (entries : List DirEntry) : List (Nat × Nat) :=
  entries.zipIdx.reverse.flatMap fun slot => (lfnChars slot.1).map fun c => (slot.2, c)

/-- The character loops of `extractLfn`, which read no slot once the name is full. -/
def extractAccesses (room : Nat) : List (Nat × Nat) → Nat → List Access
  | [], pos => [.name pos]
  | (index, c) :: rest, pos =>
      if pos < room then
        .lfn index :: if c = 0x0000 ∨ c = 0xFFFF then [.name pos]
          else .name pos :: extractAccesses room rest (pos + 1)
      else extractAccesses room rest pos

/-- A loop of `shortNameToString` over a field, and the position behind what it writes. -/
def fieldAccesses (room : Nat) : List UInt8 → Nat → List Access × Nat
  | [], pos => ([], pos)
  | c :: rest, pos =>
      if pos < room ∧ c ≠ charSpace then
        let (log, last) := fieldAccesses room rest (pos + 1)
        (.name pos :: log, last)
      else ([], pos)

def hasExtension (e : DirEntry) : Bool := (shortName e).getD 8 charSpace != charSpace

def shortAccesses (e : DirEntry) (room : Nat) : List Access :=
  let (base, pos) := fieldAccesses room ((shortName e).take 8) 0
  if hasExtension e then
    let (extension, last) := fieldAccesses room (((shortName e).drop 8).take 3) (pos + 1)
    base ++ .name pos :: extension ++ [.name last]
  else base ++ [.name pos]

/-- The entry that was asked for: behind the slots of a long name it is copied to `lfnBuf`. -/
def entryAccesses (lfnBuf : List DirEntry) (e : DirEntry) (nameMax : Nat) : List Access :=
  if 0 < lfnBuf.length then
    .lfn lfnBuf.length :: extractAccesses (nameRoom nameMax) (slotChars lfnBuf) 0
  else shortAccesses e (nameRoom nameMax)

/-- The slot loop of `readDirEntry`. -/
def scanAccesses (nameMax index : Nat) : List DirEntry → Nat → List Slot → List Access
  | _, _, [] => []
  | lfnBuf, visibleIdx, slot :: rest =>
      if isEnd slot.entry then []
      else if isFree slot.entry then scanAccesses nameMax index [] visibleIdx rest
      else if isLfnEntry slot.entry then
        if lfnBuf.length < maxLfnEntries then
          .lfn lfnBuf.length :: scanAccesses nameMax index (lfnBuf ++ [slot.entry]) visibleIdx rest
        else scanAccesses nameMax index lfnBuf visibleIdx rest
      else if isVolumeId slot.entry then scanAccesses nameMax index [] visibleIdx rest
      else if isDotEntry slot.entry then scanAccesses nameMax index [] visibleIdx rest
      else if visibleIdx = index then entryAccesses lfnBuf slot.entry nameMax
      else scanAccesses nameMax index [] (visibleIdx + 1) rest

/-- The slots that were read so far and the accesses so far. -/
structure Trace where
  slots : List Slot
  log : List Access

def Trace.scan (trace : Trace) (nameMax index : Nat) (lfnBuf : List DirEntry) (visibleIdx : Nat)
    (slots : List Slot) : Trace :=
  ⟨trace.slots ++ slots, trace.log ++ scanAccesses nameMax index lfnBuf visibleIdx slots⟩

/-- `readDirFrom` with its trace. -/
def readDirLogged (index nameMax : Nat) :
    Nat → Nat → Buf → List DirEntry → Nat → Trace → Fs (Option Found × Trace)
  | 0, _, _, _, _, _ => fun _ => none
  | fuel + 1, cluster, buf, lfnBuf, visibleIdx, trace =>
      if 2 ≤ cluster ∧ cluster < fatEoc then do
        let (ok, buf) ← readCluster cluster buf
        if ok then
          fun s =>
            let trace := trace.scan nameMax index lfnBuf visibleIdx
              (slotsFrom cluster buf (entriesPerCluster s) 0)
            (match scanEntries cluster index nameMax buf (entriesPerCluster s) 0
                lfnBuf visibleIdx with
              | .stop => pure (none, trace)
              | .hit found overrun => do
                  noteOverrun overrun
                  pure (some found, trace)
              | .next lfnBuf visibleIdx => do
                  let next ← fatGet cluster
                  readDirLogged index nameMax fuel next buf lfnBuf visibleIdx trace :
                Fs (Option Found × Trace)) s
        else pure (none, trace)
      else pure (none, trace)

/-- `readDirEntry` with its trace. -/
def readDirEntryLogged (fuel dirCluster index nameMax : Nat) : Fs (Option Found × Trace) := do
  match ← heapAlloc with
  | none => pure (none, ⟨[], []⟩)
  | some clusterBuf => readDirLogged index nameMax fuel dirCluster clusterBuf [] 0 ⟨[], []⟩

end Accesses

section Forgetting

theorem read_dir_logged_forget (index nameMax fuel cluster : Nat) (buf : Buf)
    (lfnBuf : List DirEntry) (visibleIdx : Nat) (trace : Trace) :
    (do
      let logged ← readDirLogged index nameMax fuel cluster buf lfnBuf visibleIdx trace
      pure logged.1) = readDirFrom index nameMax fuel cluster buf lfnBuf visibleIdx := by
  induction fuel generalizing cluster buf lfnBuf visibleIdx trace with
  | zero => rfl
  | succ fuel ih =>
      rw [readDirLogged, readDirFrom]
      by_cases inside : 2 ≤ cluster ∧ cluster < fatEoc
      · rw [if_pos inside, if_pos inside, bind_assoc]
        apply bind_congr
        rintro ⟨ok, buf⟩
        cases ok with
        | false => rfl
        | true =>
            dsimp only
            rw [if_pos rfl, if_pos rfl]
            funext s
            have next : ∀ lfnBuf visibleIdx trace,
                ((do
                    let next ← fatGet cluster
                    readDirLogged index nameMax fuel next buf lfnBuf visibleIdx trace) >>=
                  fun logged => pure logged.1 : Fs (Option Found)) =
                (do
                  let next ← fatGet cluster
                  readDirFrom index nameMax fuel next buf lfnBuf visibleIdx) := by
              intro lfnBuf visibleIdx trace
              rw [bind_assoc]
              exact bind_congr fun next => ih next buf lfnBuf visibleIdx trace
            cases scan : scanEntries cluster index nameMax buf (entriesPerCluster s) 0 lfnBuf
                visibleIdx with
            | stop =>
                dsimp only [bind, StateT.bind]
                rw [scan]
                rfl
            | hit found overrun =>
                dsimp only [bind, StateT.bind]
                rw [scan]
                rfl
            | next lfnBuf' visibleIdx' =>
                have same := congrFun (next lfnBuf' visibleIdx' (trace.scan nameMax index lfnBuf
                  visibleIdx (slotsFrom cluster buf (entriesPerCluster s) 0))) s
                dsimp only [bind, StateT.bind] at same ⊢
                rw [scan]
                exact same
      · rw [if_neg inside, if_neg inside]
        rfl

theorem read_dir_entry_logged_forget (fuel dirCluster index nameMax : Nat) :
    (do
      let logged ← readDirEntryLogged fuel dirCluster index nameMax
      pure logged.1) = readDirEntry fuel dirCluster index nameMax := by
  unfold readDirEntryLogged readDirEntry
  rw [bind_assoc]
  apply bind_congr
  rintro (_ | block)
  · rfl
  · exact read_dir_logged_forget index nameMax fuel dirCluster block [] 0 ⟨[], []⟩

end Forgetting

section Scanning

variable {nameMax index : Nat}

/-- The accesses of the slot loop, and where it goes on. -/
def Logged (nameMax index : Nat) (lfn : List DirEntry) (slots : List Slot) (visibleIdx : Nat) :
    Scan → Prop
  | .next lfn' visibleIdx' => ∀ behind,
      scanAccesses nameMax index lfn visibleIdx (slots ++ behind) =
        scanAccesses nameMax index lfn visibleIdx slots ++
          scanAccesses nameMax index lfn' visibleIdx' behind
  | _ => ∀ behind, scanAccesses nameMax index lfn visibleIdx (slots ++ behind) =
      scanAccesses nameMax index lfn visibleIdx slots

theorem logged_step {lfn lfn' : List DirEntry} {slot : Slot} {rest : List Slot}
    {visibleIdx visibleIdx' : Nat} {scan : Scan} (log : List Access)
    (logged : Logged nameMax index lfn' rest visibleIdx' scan)
    (first : ∀ behind, scanAccesses nameMax index lfn visibleIdx (slot :: behind) =
      log ++ scanAccesses nameMax index lfn' visibleIdx' behind) :
    Logged nameMax index lfn (slot :: rest) visibleIdx scan := by
  cases scan with
  | stop =>
      intro behind
      rw [List.cons_append, first, first, logged]
  | hit found overrun =>
      intro behind
      rw [List.cons_append, first, first, logged]
  | next lfn'' visibleIdx'' =>
      intro behind
      rw [List.cons_append, first, first, logged, List.append_assoc]

theorem scan_entries_logged (nameMax index cluster : Nat) (buf : Buf) (n i : Nat)
    (lfn : List DirEntry) (visibleIdx : Nat) :
    Logged nameMax index lfn (slotsFrom cluster buf n i) visibleIdx
      (scanEntries cluster index nameMax buf n i lfn visibleIdx) := by
  induction n generalizing i lfn visibleIdx with
  | zero => exact fun _ => rfl
  | succ n ih =>
      unfold scanEntries slotsFrom
      dsimp only
      by_cases last : isEnd (slotAt buf i) = true
      · rw [if_pos last]
        intro behind
        rw [List.cons_append, scanAccesses, if_pos last, scanAccesses, if_pos last]
      rw [if_neg last]
      by_cases free : isFree (slotAt buf i) = true
      · rw [if_pos free]
        apply logged_step [] (ih _ _ _)
        intro behind
        rw [scanAccesses, if_neg last, if_pos free]
        rfl
      rw [if_neg free]
      by_cases long : isLfnEntry (slotAt buf i) = true
      · rw [if_pos long]
        by_cases room : lfn.length < maxLfnEntries
        · rw [if_pos room]
          apply logged_step [.lfn lfn.length] (ih _ _ _)
          intro behind
          rw [scanAccesses, if_neg last, if_neg free, if_pos long, if_pos room]
          rfl
        · rw [if_neg room]
          apply logged_step [] (ih _ _ _)
          intro behind
          rw [scanAccesses, if_neg last, if_neg free, if_pos long, if_neg room]
          rfl
      rw [if_neg long]
      by_cases label : isVolumeId (slotAt buf i) = true
      · rw [if_pos label]
        apply logged_step [] (ih _ _ _)
        intro behind
        rw [scanAccesses, if_neg last, if_neg free, if_neg long, if_pos label]
        rfl
      rw [if_neg label]
      by_cases dot : isDotEntry (slotAt buf i) = true
      · rw [if_pos dot]
        apply logged_step [] (ih _ _ _)
        intro behind
        rw [scanAccesses, if_neg last, if_neg free, if_neg long, if_neg label, if_pos dot]
        rfl
      rw [if_neg dot]
      by_cases here : visibleIdx = index
      · rw [if_pos here]
        intro behind
        rw [List.cons_append, scanAccesses, if_neg last, if_neg free, if_neg long, if_neg label,
          if_neg dot, if_pos here, scanAccesses, if_neg last, if_neg free, if_neg long,
          if_neg label, if_neg dot, if_pos here]
      · rw [if_neg here]
        apply logged_step [] (ih _ _ _)
        intro behind
        rw [scanAccesses, if_neg last, if_neg free, if_neg long, if_neg label, if_neg dot,
          if_neg here]
        rfl

/-- What is logged is what the slots that were read give. -/
def Traced (nameMax index : Nat) (r : Option Found × Trace) : Prop :=
  r.2.log = scanAccesses nameMax index [] 0 r.2.slots

theorem scan_traced {trace : Trace} {lfn : List DirEntry} {visibleIdx : Nat}
    (so : ∀ behind, scanAccesses nameMax index [] 0 (trace.slots ++ behind) =
      trace.log ++ scanAccesses nameMax index lfn visibleIdx behind) (slots : List Slot) :
    (trace.scan nameMax index lfn visibleIdx slots).log =
      scanAccesses nameMax index [] 0 (trace.scan nameMax index lfn visibleIdx slots).slots :=
  (so slots).symm

theorem read_dir_logged_traced (fuel cluster : Nat) (buf : Buf) (lfn : List DirEntry)
    (visibleIdx : Nat) (trace : Trace)
    (so : ∀ behind, scanAccesses nameMax index [] 0 (trace.slots ++ behind) =
      trace.log ++ scanAccesses nameMax index lfn visibleIdx behind)
    {s s' : Fat32Filesystem} {r : Option Found × Trace}
    (run : readDirLogged index nameMax fuel cluster buf lfn visibleIdx trace s = some (r, s')) :
    Traced nameMax index r := by
  induction fuel generalizing cluster buf lfn visibleIdx trace s with
  | zero => cases run
  | succ fuel ih =>
      have ends : Traced nameMax index (none, trace) := by
        have whole := so []
        rw [List.append_nil] at whole
        rw [Traced, whole]
        exact (List.append_nil _).symm
      unfold readDirLogged at run
      split at run
      · obtain ⟨⟨ok, buf'⟩, s₁, _, rest⟩ := bind_eq_some.1 run
        cases ok with
        | false =>
            cases rest
            exact ends
        | true =>
            dsimp only at rest
            rw [if_pos rfl] at rest
            have scanned := scan_entries_logged nameMax index cluster buf' (entriesPerCluster s₁) 0
              lfn visibleIdx
            have here := scan_traced so (slotsFrom cluster buf' (entriesPerCluster s₁) 0)
            revert rest scanned
            cases scanEntries cluster index nameMax buf' (entriesPerCluster s₁) 0 lfn
              visibleIdx with
            | stop =>
                intro rest _
                cases rest
                exact here
            | hit found overrun =>
                intro rest _
                obtain ⟨_, s₂, _, rest⟩ := bind_eq_some.1 rest
                cases rest
                exact here
            | next lfn' visibleIdx' =>
                intro rest scanned
                obtain ⟨next, s₂, _, rest⟩ := bind_eq_some.1 rest
                refine ih next buf' lfn' visibleIdx' _ (fun behind => ?_) rest
                change scanAccesses nameMax index [] 0 (trace.slots ++ _ ++ behind) =
                  trace.log ++ _ ++ _
                rw [List.append_assoc, so, scanned, List.append_assoc]
      · cases run
        exact ends

theorem read_dir_entry_logged_traced {fuel cluster : Nat} {s s' : Fat32Filesystem}
    {r : Option Found × Trace}
    (run : readDirEntryLogged fuel cluster index nameMax s = some (r, s')) :
    Traced nameMax index r := by
  obtain ⟨block, s₁, _, rest⟩ := bind_eq_some.1 run
  cases block with
  | none =>
      cases rest
      rfl
  | some buf => exact read_dir_logged_traced fuel cluster buf [] 0 _ (fun _ => rfl) rest

end Scanning

section Directories

variable {nameMax index : Nat} {faults : Faults} {v : Volume}

/-- The clusters that a walk of `fuel` rounds comes to. -/
def clustersFrom (v : Volume) : Nat → Nat → List Nat
  | 0, _ => []
  | fuel + 1, c => if 2 ≤ c ∧ c < fatEoc then c :: clustersFrom v fuel (v.fat c) else []

/-- What a run logs: all accesses, or those before a failure. -/
def LogOf (faults : Faults) (v : Volume) (expected : List Access)
    (result : Option Found × Trace) (w : Volume) : Prop :=
  w = v ∧ ∃ missing, expected = result.2.log ++ missing ∧ (missing = [] ∨ Faults.any faults)

theorem log_whole (v : Volume) {expected : List Access} (result : Option Found × Trace)
    (same : expected = result.2.log) : LogOf faults v expected result v :=
  ⟨rfl, [], by rw [List.append_nil]; exact same, .inl rfl⟩

theorem log_failed (v : Volume) (trace : Trace) (missing : List Access)
    (fails : Faults.any faults) : LogOf faults v (trace.log ++ missing) (none, trace) v :=
  ⟨rfl, missing, rfl, .inr fails⟩

theorem read_dir_logged_ensures (fuel : Nat) {cluster : Nat}
    (valid : ∀ c ∈ clustersFrom v fuel cluster, v.Valid c) (buf : Buf) (lfn : List DirEntry)
    (visibleIdx : Nat) (trace : Trace) :
    Ensures (Stands faults) (readDirLogged index nameMax fuel cluster buf lfn visibleIdx trace) v
      (LogOf faults v (trace.log ++ scanAccesses nameMax index lfn visibleIdx
        (slotsOf v (clustersFrom v fuel cluster)))) := by
  induction fuel generalizing cluster buf lfn visibleIdx trace with
  | zero => exact ensures_none
  | succ fuel ih =>
      unfold readDirLogged clustersFrom
      unfold clustersFrom at valid
      by_cases inside : 2 ≤ cluster ∧ cluster < fatEoc
      · rw [if_pos inside] at valid ⊢
        rw [if_pos inside, slots_of_cons]
        apply ensures_bind (read_cluster_does (valid cluster List.mem_cons_self) buf).ensures
        rintro ⟨ok, buf'⟩ w ⟨rfl, read | ⟨refused, fails⟩⟩
        · cases read
          dsimp only
          rw [if_pos rfl]
          apply ensures_read
          intro s stands
          have size : entriesPerCluster s = slotCount w := by
            unfold entriesPerCluster slotCount
            rw [stands.bytes]
          have scanned := scan_entries_logged nameMax index cluster
            (overlay w.clusterBytes (w.cluster cluster) buf) (slotCount w) 0 lfn visibleIdx
          rw [size, slots_from_overlay]
          rw [slots_from_overlay] at scanned
          revert scanned
          cases scanEntries cluster index nameMax
            (overlay w.clusterBytes (w.cluster cluster) buf) (slotCount w) 0 lfn visibleIdx with
          | stop =>
              intro scanned
              exact ensures_pure (log_whole w _ (by rw [scanned]; rfl))
          | hit found overrun =>
              intro scanned
              apply ensures_bind_runs (note_overrun_does w overrun)
              exact ensures_pure (log_whole w _ (by rw [scanned]; rfl))
          | next lfn' visibleIdx' =>
              intro scanned
              rw [scanned, ← List.append_assoc]
              apply ensures_bind (fat_get_does w cluster).ensures
              rintro next u ⟨rfl, found | ⟨found, fails⟩⟩
              · rw [found]
                exact ih (fun c member => valid c (List.mem_cons_of_mem cluster member)) _ _ _ _
              · rw [found]
                cases fuel with
                | zero => exact ensures_none
                | succ fuel =>
                    unfold readDirLogged
                    rw [if_neg (by decide)]
                    exact ensures_pure (log_failed u (trace.scan ..) _ (.inl fails))
        · dsimp only at refused ⊢
          rw [refused, if_neg Bool.false_ne_true]
          exact ensures_pure (log_failed w trace _ (.inl fails))
      · rw [if_neg inside, if_neg inside]
        exact ensures_pure (log_whole v _ (List.append_nil _))

end Directories

section Bounds

variable {nameMax : Nat}

def AllInBounds (nameMax : Nat) (log : List Access) : Prop := ∀ a ∈ log, a.InBounds nameMax

def baseLength (e : DirEntry) : Nat :=
  (((shortName e).take 8).takeWhile fun c => c ≠ charSpace).length

/-- Neither buffer is too small: less than twenty slots for a long name, and a place for the
NUL behind the dot, which `shortNameToString` writes without looking at the room. -/
def Fits (nameMax : Nat) (p : Parsed) : Prop :=
  p.run.length < maxLfnEntries ∧ 0 < nameMax ∧
    (p.run = [] → hasExtension p.slot.entry = true → baseLength p.slot.entry + 1 < nameMax)

theorem all_cons {a : Access} {log : List Access} :
    AllInBounds nameMax (a :: log) ↔ a.InBounds nameMax ∧ AllInBounds nameMax log :=
  List.forall_mem_cons

theorem all_append {log log' : List Access} :
    AllInBounds nameMax (log ++ log') ↔ AllInBounds nameMax log ∧ AllInBounds nameMax log' :=
  List.forall_mem_append

theorem name_room_pos (positive : 0 < nameMax) (small : nameMax < 2 ^ 32) :
    nameRoom nameMax = nameMax - 1 := by
  unfold nameRoom u32
  omega

/-- The characters of a long name stay before the last place of the name. -/
theorem extract_in_bounds {room : Nat} (chars : List (Nat × Nat)) {pos : Nat} (low : pos ≤ room)
    (slots : ∀ c ∈ chars, c.1 < maxLfnEntries) (last : room < nameMax) :
    AllInBounds nameMax (extractAccesses room chars pos) := by
  induction chars generalizing pos with
  | nil =>
      apply all_cons.2
      exact ⟨Nat.lt_of_le_of_lt low last, nofun⟩
  | cons c rest ih =>
      obtain ⟨index, c⟩ := c
      have inside : index < maxLfnEntries := slots _ List.mem_cons_self
      have others : ∀ c ∈ rest, c.1 < maxLfnEntries := fun c member =>
        slots c (List.mem_cons_of_mem _ member)
      unfold extractAccesses
      split
      · next room_ =>
        apply all_cons.2
        refine ⟨inside, ?_⟩
        split
        · exact all_cons.2 ⟨Nat.lt_of_le_of_lt low last, nofun⟩
        · exact all_cons.2 ⟨Nat.lt_of_le_of_lt low last, ih room_ others⟩
      · exact ih low others

theorem extract_writes (room : Nat) (chars : List (Nat × Nat)) (pos : Nat) :
    ∃ j, .name j ∈ extractAccesses room chars pos := by
  induction chars generalizing pos with
  | nil => exact ⟨pos, List.mem_cons_self⟩
  | cons c rest ih =>
      obtain ⟨index, c⟩ := c
      unfold extractAccesses
      split
      · refine ⟨pos, List.mem_cons_of_mem _ ?_⟩
        split <;> exact List.mem_cons_self
      · exact ih pos

theorem slot_chars_index {entries : List DirEntry} {c : Nat × Nat}
    (member : c ∈ slotChars entries) : c.1 < entries.length := by
  obtain ⟨slot, inside, here⟩ := List.mem_flatMap.1 member
  obtain ⟨_, _, rfl⟩ := List.mem_map.1 here
  have bound := List.snd_lt_of_mem_zipIdx (List.mem_reverse.1 inside)
  omega

/-- A field ends at its first blank or where the room does. -/
theorem field_last (room : Nat) (chars : List UInt8) (pos : Nat) :
    (fieldAccesses room chars pos).2 =
      max pos (min room (pos + (chars.takeWhile fun c => c ≠ charSpace).length)) := by
  induction chars generalizing pos with
  | nil =>
      change pos = max pos (min room (pos + 0))
      omega
  | cons c rest ih =>
      unfold fieldAccesses
      by_cases blank : c = charSpace
      · rw [if_neg fun both => both.2 blank, List.takeWhile_cons_of_neg (by simpa using blank)]
        change pos = max pos (min room (pos + 0))
        omega
      · rw [List.takeWhile_cons_of_pos (by simpa using blank), List.length_cons]
        split
        · next more =>
          dsimp only
          rw [ih]
          omega
        · next full =>
          have beyond : ¬ pos < room := fun room_ => full ⟨room_, blank⟩
          change pos = _
          omega

theorem field_in_bounds (room : Nat) (chars : List UInt8) (pos : Nat)
    (last : (fieldAccesses room chars pos).2 ≤ nameMax) :
    AllInBounds nameMax (fieldAccesses room chars pos).1 := by
  induction chars generalizing pos with
  | nil => exact nofun
  | cons c rest ih =>
      unfold fieldAccesses at last ⊢
      split at last
      · next more =>
        have start := field_last room rest (pos + 1)
        rw [if_pos more]
        dsimp only at last ⊢
        refine all_cons.2 ⟨?_, ih (pos + 1) last⟩
        change pos < nameMax
        omega
      · next full =>
        rw [if_neg full]
        exact nofun

theorem last_in_bounds (nameMax room : Nat) (chars : List UInt8) (pos : Nat) :
    AllInBounds nameMax ((fieldAccesses room chars pos).1 ++
        [.name (fieldAccesses room chars pos).2]) ↔ (fieldAccesses room chars pos).2 < nameMax := by
  constructor
  · intro inside
    exact inside _ (List.mem_append_right _ List.mem_cons_self)
  · intro last
    exact all_append.2 ⟨field_in_bounds room chars pos (Nat.le_of_lt last),
      all_cons.2 ⟨last, nofun⟩⟩

theorem base_last (room : Nat) (e : DirEntry) :
    (fieldAccesses room ((shortName e).take 8) 0).2 = min room (baseLength e) := by
  rw [field_last, Nat.zero_add, Nat.max_eq_right (Nat.zero_le _)]
  rfl

theorem short_in_bounds (e : DirEntry) {limit : Nat} (room : 0 < nameMax → limit = nameMax - 1) :
    AllInBounds nameMax (shortAccesses e limit) ↔
      0 < nameMax ∧ (hasExtension e = true → baseLength e + 1 < nameMax) := by
  unfold shortAccesses
  dsimp only
  have base := base_last limit e
  have baseIn := last_in_bounds nameMax limit ((shortName e).take 8) 0
  by_cases extension : hasExtension e = true
  · have last := field_last limit (((shortName e).drop 8).take 3) (min limit (baseLength e) + 1)
    have lastIn := last_in_bounds nameMax limit (((shortName e).drop 8).take 3)
      (min limit (baseLength e) + 1)
    rw [base] at baseIn
    rw [if_pos extension, base, List.append_assoc, List.cons_append, List.append_cons, all_append,
      baseIn, lastIn, last]
    constructor
    · intro ⟨first, dot⟩
      have positive : 0 < nameMax := Nat.zero_lt_of_lt first
      have := room positive
      exact ⟨positive, fun _ => by omega⟩
    · intro ⟨positive, fits⟩
      have := room positive
      have := fits extension
      omega
  · rw [if_neg extension, baseIn, base]
    constructor
    · intro first
      exact ⟨Nat.zero_lt_of_lt first, fun has => absurd has extension⟩
    · intro ⟨positive, _⟩
      have := room positive
      omega

theorem entry_in_bounds (p : Parsed) (small : nameMax < 2 ^ 32) :
    AllInBounds nameMax (entryAccesses (collected p.run) p.slot.entry nameMax) ↔
      Fits nameMax p := by
  have size : (collected p.run).length = min maxLfnEntries p.run.length := by
    unfold collected
    rw [List.length_take, List.length_map]
  have slots : maxLfnEntries = 20 := rfl
  unfold entryAccesses Fits
  by_cases none : p.run = []
  · have empty : p.run.length = 0 := by rw [none]; rfl
    rw [if_neg (by omega), short_in_bounds _ fun positive => name_room_pos positive small]
    constructor
    · intro ⟨positive, room⟩
      exact ⟨by omega, positive, fun _ => room⟩
    · intro ⟨_, positive, room⟩
      exact ⟨positive, room none⟩
  · have some := List.length_pos_iff.2 none
    rw [if_pos (by omega), all_cons]
    change (collected p.run).length < maxLfnEntries ∧ _ ↔ _
    constructor
    · intro ⟨copied, read⟩
      obtain ⟨j, written⟩ := extract_writes (nameRoom nameMax) (slotChars (collected p.run)) 0
      have inside : j < nameMax := read _ written
      exact ⟨by omega, by omega, fun empty => absurd empty none⟩
    · intro ⟨few, positive, _⟩
      refine ⟨by omega, ?_⟩
      apply extract_in_bounds _ (Nat.zero_le _)
      · intro c member
        have := slot_chars_index member
        omega
      · rw [name_room_pos positive small]
        omega

/-- Both buffers are large enough for the entry with number `index`, if there is one. -/
def Fitting (nameMax index : Nat) (slots : List Slot) : Prop :=
  ∀ p, (parse (beforeEnd slots))[index]? = some p → Fits nameMax p

/-- The slots before the entry that was asked for fill `lfnBuf` within its bounds. -/
theorem scan_in_bounds (small : nameMax < 2 ^ 32) {index k : Nat} (before rest : List Slot)
    (reached : k ≤ index) :
    AllInBounds nameMax
        (scanAccesses nameMax index (collected (before.rtakeWhile isLong)) k rest) ↔
      ∀ p, (parseFrom before (beforeEnd rest))[index - k]? = some p → Fits nameMax p := by
  induction rest generalizing before k with
  | nil => simp [scanAccesses, beforeEnd, parseFrom, AllInBounds]
  | cons slot rest ih =>
      unfold scanAccesses beforeEnd
      by_cases last : isEnd slot.entry = true
      · rw [if_pos last, List.takeWhile_cons_of_neg (by rw [last]; exact Bool.false_ne_true)]
        simp [parseFrom, AllInBounds]
      have next := fun k reached => ih (k := k) (before ++ [slot]) reached
      rw [if_neg last, List.takeWhile_cons_of_pos (by simpa using last), parseFrom]
      change _ ↔ ∀ p, (if isVisible slot then
        _ :: parseFrom (before ++ [slot]) (beforeEnd rest)
        else parseFrom (before ++ [slot]) (beforeEnd rest))[index - k]? = some p → _
      by_cases free : isFree slot.entry = true
      · have other : isLong slot = false := by simp [isLong, free]
        have hidden : isVisible slot = false := by simp [isVisible, free]
        rw [run_concat_other before other] at next
        rw [if_pos free, hidden]
        exact next k reached
      rw [if_neg free]
      by_cases long : isLfnEntry slot.entry = true
      · have inRun : isLong slot = true := by simp [isLong, free, long]
        have hidden : isVisible slot = false := by simp [isVisible, long]
        rw [run_concat_long before inRun, ← collected_concat] at next
        rw [if_pos long, hidden]
        split
        · next room =>
          rw [if_pos room] at next
          apply all_cons.trans
          constructor
          · intro both
            exact (next k reached).1 both.2
          · intro fits
            exact ⟨room, (next k reached).2 fits⟩
        · next full =>
          rw [if_neg full] at next
          exact next k reached
      have other : isLong slot = false := by simp [isLong, long]
      rw [run_concat_other before other] at next
      rw [if_neg long]
      by_cases label : isVolumeId slot.entry = true
      · have hidden : isVisible slot = false := by simp [isVisible, label]
        rw [if_pos label, hidden]
        exact next k reached
      rw [if_neg label]
      by_cases dot : isDotEntry slot.entry = true
      · have hidden : isVisible slot = false := by simp [isVisible, dot]
        rw [if_pos dot, hidden]
        exact next k reached
      have shown : isVisible slot = true := by simp [isVisible, free, long, label, dot]
      rw [if_neg dot, shown, if_pos rfl]
      by_cases here : k = index
      · rw [if_pos here, here, Nat.sub_self]
        apply (entry_in_bounds ⟨before.rtakeWhile isLong, slot⟩ small).trans
        constructor
        · intro fits p same
          cases same
          exact fits
        · intro all
          exact all _ rfl
      · have later : index - k = index - (k + 1) + 1 := by omega
        rw [if_neg here, later, List.getElem?_cons_succ]
        exact next (k + 1) (by omega)

theorem slots_in_bounds (small : nameMax < 2 ^ 32) (index : Nat) (slots : List Slot) :
    AllInBounds nameMax (scanAccesses nameMax index [] 0 slots) ↔
      Fitting nameMax index slots := by
  unfold Fitting
  rw [parse_eq]
  exact scan_in_bounds small [] slots (Nat.zero_le index)

/-- The accesses of `readDirEntry` are in bounds if and only if both buffers are large enough
for the entry that is asked for: among the slots that were read, whatever the drive holds and
answers, and so among those of the directory. -/
theorem accesses_in_bounds_iff (fuel cluster index : Nat) (small : nameMax < 2 ^ 32) :
    (∀ s r s', readDirEntryLogged fuel cluster index nameMax s = some (r, s') →
      (AllInBounds nameMax r.2.log ↔ Fitting nameMax index r.2.slots)) ∧
    ∀ faults v, (∀ c ∈ clustersFrom v fuel cluster, v.Valid c) →
      Ensures (Stands faults) (readDirEntryLogged fuel cluster index nameMax) v fun r w => w = v ∧
        (Fitting nameMax index (slotsOf v (clustersFrom v fuel cluster)) →
          AllInBounds nameMax r.2.log) ∧
        (¬ Faults.any faults → AllInBounds nameMax r.2.log →
          Fitting nameMax index (slotsOf v (clustersFrom v fuel cluster))) := by
  constructor
  · intro s r s' run
    rw [← slots_in_bounds small, ← read_dir_entry_logged_traced run]
  · intro faults v valid
    rw [← slots_in_bounds small]
    unfold readDirEntryLogged
    apply ensures_bind (heap_alloc_does v).ensures
    rintro (_ | block) w ⟨rfl, refused⟩
    · apply ensures_pure
      refine ⟨rfl, fun _ => nofun, fun sure => ?_⟩
      exact absurd (.inr (refused rfl)) sure
    · apply (read_dir_logged_ensures fuel valid block [] 0 ⟨[], []⟩).mono
      rintro r u ⟨same, missing, whole, ends⟩
      rw [show (Trace.mk [] []).log = [] from rfl, List.nil_append] at whole
      refine ⟨same, fun inside => ?_, fun sure inside => ?_⟩
      · rw [whole] at inside
        exact (all_append.1 inside).1
      · rcases ends with none | fails
        · rw [whole, none, List.append_nil]
          exact inside
        · exact absurd fails sure

/-- The slots that `createEntry` writes for the name into an empty directory. -/
def longEntry (name : List UInt8) (k : Nat) : DirEntry :=
  if k < lfnCount name then
    lfnSlot name (lfnChecksum (nameToShort name)) (lfnCount name - k)
  else if k = lfnCount name then shortSlot (nameToShort name) DirAttr.archive
  else fun _ => 0

/-- Sectors 1 and 2 are the FAT copies, sectors 3 and 4 the root directory. -/
def longSectors (name : List UInt8) : Nat → Sector := fun lba k =>
  if lba = 1 ∨ lba = 2 then
    if k.val % 4 = 0 then 0xF8 else if k.val % 4 = 3 then 0x0F else 0xFF
  else if lba = 3 ∨ lba = 4 then longEntry name ((lba - 3) * 16 + k.val / 32) (Fin.ofNat 32 k.val)
  else 0

def longVolume (name : List UInt8) : Fat32Filesystem :=
  { PathWalk.smallVolume with
    ata := ⟨longSectors name, []⟩
    sectorsPerCluster := 2
    bytesPerCluster := 1024
    totalClusters := 1
    fatEntryCount := 3 }

theorem long_volume_stands (name : List UInt8) :
    Stands ⟨false, false⟩ (longVolume name) (volumeOf (longVolume name)) where
  layout := by
    -- no field depends on the name
    have layout : Layout (longVolume []) := by constructor <;> decide
    exact ⟨layout.1, layout.2, layout.3, layout.4, layout.5, layout.6, layout.7, layout.8, layout.9,
      layout.10⟩
  steady := CacheTransparency.steady_empty rfl rfl rfl
  content := rfl

/-- A name of 247 bytes takes nineteen slots, and the short entry behind them the last place. -/
def longestName : List UInt8 := List.replicate 247 0x61

theorem longest_name_in_bounds :
    ∃ r s', readDirEntryLogged 2 2 0 256 (longVolume longestName) = some (r, s') ∧
      Access.lfn 19 ∈ r.2.log ∧ AllInBounds 256 r.2.log := by
  have run : (readDirEntryLogged 2 2 0 256 (longVolume longestName)).map
      (fun r => decide (Access.lfn 19 ∈ r.1.2.log)) = some true := by decide +kernel
  obtain ⟨⟨r, s'⟩, found, last⟩ := Option.map_eq_some_iff.1 run
  refine ⟨r, s', found, of_decide_eq_true last, ?_⟩
  generalize volumeEq : volumeOf (longVolume longestName) = v
  have fits : Fitting 256 0 (slotsOf v (clustersFrom v 2 2)) := by
    have listed : (parse (beforeEnd (slotsOf v (clustersFrom v 2 2)))).map
        (fun p => (p.run.length, hasExtension p.slot.entry)) = [(19, false)] := by
      rw [← volumeEq]
      decide +kernel
    intro p first
    have image := congrArg (fun ps => ps[0]?) listed
    rw [List.getElem?_map, first] at image
    obtain ⟨slots, dotless⟩ := Prod.mk.inj (Option.some.inj image)
    refine ⟨by rw [slots]; decide, by decide, fun _ dotted => ?_⟩
    rw [dotless] at dotted
    cases dotted
  have valid : ∀ c ∈ clustersFrom v 2 2, v.Valid c := by
    rw [← volumeEq]
    decide +kernel
  have bounded := (accesses_in_bounds_iff 2 2 0 (show 256 < 2 ^ 32 by decide)).2 ⟨false, false⟩ v
    valid
  obtain ⟨_, _, _, inside, _⟩ := bounded _ (volumeEq ▸ long_volume_stands longestName) r s' found
  exact inside fits

/-- One byte more takes twenty slots. -/
def longName : List UInt8 := List.replicate 248 0x61

/-- The short entry behind them is copied to the place after the last one. -/
theorem twenty_slots_overrun :
    Stands ⟨false, false⟩ (longVolume longName) (volumeOf (longVolume longName)) ∧
    ∃ r s', readDirEntryLogged 2 2 0 256 (longVolume longName) = some (r, s') ∧
      Access.lfn maxLfnEntries ∈ r.2.log ∧ ¬ AllInBounds 256 r.2.log := by
  refine ⟨long_volume_stands longName, ?_⟩
  have run : (readDirEntryLogged 2 2 0 256 (longVolume longName)).map
      (fun r => decide (Access.lfn maxLfnEntries ∈ r.1.2.log)) = some true := by decide +kernel
  obtain ⟨⟨r, s'⟩, found, overrun⟩ := Option.map_eq_some_iff.1 run
  have copied := of_decide_eq_true overrun
  exact ⟨r, s', found, copied, fun inside => Nat.lt_irrefl maxLfnEntries (inside _ copied)⟩

end Bounds

end CassiOS.Fat32.NameBuffers
