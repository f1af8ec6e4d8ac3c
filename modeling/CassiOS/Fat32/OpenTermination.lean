import CassiOS.Fat32.FreeSearch
import CassiOS.Fat32.ParentPaths

/-!
# When opening returns

`open` looks a path up, and where that fails it creates the file: it looks the parent up and
searches it for unused slots. Creating returns in every directory exactly where every such
search does. The lookup of a file that is there fails when an allocation does, so a name that
exists is no protection.
-/

namespace CassiOS.Fat32.OpenTermination

open CassiOS.Support.PartialProgram
open CassiOS.Fat32.Types
open CassiOS.Fat32.Names
open CassiOS.Fat32.Device
open CassiOS.Fat32.Cache
open CassiOS.Fat32.CacheTransparency
open CassiOS.Fat32.Filesystem
open CassiOS.Fat32.Operations
open CassiOS.Fat32.VolumeModel
open CassiOS.Fat32.DirectoryModel
open CassiOS.Fat32.ReadOnly
open CassiOS.Fat32.MountGeometry
open CassiOS.Fat32.SlotRuns
open CassiOS.Fat32.PathWalk
open CassiOS.Fat32.LookupTermination
open CassiOS.Fat32.SettledLookups
open CassiOS.Fat32.ParentPaths
open CassiOS.Fat32.FreeSearch

set_option autoImplicit false

section Laws

/-- Some path leads to the directory at `c` as the parent of its last part. -/
def ParentAt (d : Fat32Filesystem) (c : Nat) : Prop :=
  c = d.rootCluster ∨ ∃ parent, parent ≠ [] ∧ parent.length ≤ 255 ∧ ResolvesToDirectory d parent c

/-- `open` returns for every path that it may have to create, on a drive that serves every
request. -/
def OpensReturn (s₀ : Fat32Filesystem) : Prop :=
  ∀ s, Transparent s → Granting s → core s = core s₀ → ∀ path,
    Returns (fun fuel => Operations.open fuel path true) s

/-- In every directory that is the parent of a path the chain ends, or it comes to as many unused
slots in a row as the longest name takes. -/
def RoomEverywhere (d : Fat32Filesystem) : Prop := ∀ c, ParentAt d c → HasRoom d mostSlots c

end Laws

section Returning

variable {d s : Fat32Filesystem} {fuel : Nat} (all : ∀ c, Terminating d c)
  (large : 4294967296 ≤ fuel)

include all large

theorem parent_returns {faults : Faults} (path : List UInt8) :
    Achieves (Reading faults) (resolveParentPath fuel path maxName) d fun answer w =>
      w = d ∧ ∀ c name, answer = some (c, name) → ParentAt d c ∧ name.length ≤ 255 := by
  intro s reading
  obtain ⟨answer, s', w, run, reading', rfl⟩ :=
    resolve_parent_path_returns all large path maxName s reading
  refine ⟨answer, s', w, run, reading', rfl, ?_⟩
  rintro c name rfl
  obtain ⟨parent, rest, _, rfl, place⟩ := resolve_parent_answers reading run
  refine ⟨?_, List.length_take_le 255 rest⟩
  by_cases top : parent = []
  · rw [if_pos top] at place
    exact .inl place
  · rw [if_neg top] at place
    refine .inr ⟨parent.take 255, ?_, List.length_take_le 255 parent, place⟩
    intro none
    rcases List.take_eq_nil_iff.1 none with zero | empty
    · cases zero
    · exact top empty

theorem create_file_finishes (layout : Layout d) (room : RoomEverywhere d)
    (reading : Reading servedDrive s d) (path : List UInt8) :
    Finishes (createFile fuel path) s := by
  unfold createFile
  refine finishes_bind_reading reading (parent_returns all large path) ?_
  rintro (_ | ⟨c, name⟩) s₁ reading₁ found
  · exact ⟨_, s₁, rfl, rfl⟩
  · obtain ⟨parent, fits⟩ := found c name rfl
    dsimp only
    split
    · exact ⟨_, s₁, rfl, rfl⟩
    · have few := slots_for_most fits
      apply finishes_bind (create_entry_finishes layout (has_room_fewer (room c parent) few) few
        large reading₁)
      rintro (_ | ⟨ec, eo⟩) s₂
      · exact ⟨_, s₂, rfl, rfl⟩
      · apply finishes_bind (read_back_finishes ec eo)
        rintro (_ | entry) s₃
        · exact ⟨_, s₃, rfl, rfl⟩
        · exact ⟨_, s₃, rfl, rfl⟩

omit all large in
/-- With a free handle nothing is looked up again. -/
theorem open_entry_halts (path : List UInt8) (created : Bool) (out : PathOut)
    (free : (s.handles.findIdx? fun fh => !fh.inUse).isSome = true) :
    Halts (openEntry fuel path created out) s := by
  unfold openEntry Halts
  dsimp only
  by_cases directory : isDirectory out.entry = true
  · rw [if_pos directory]
    exact ⟨_, rfl⟩
  · rw [if_neg directory]
    obtain ⟨i, place⟩ := Option.isSome_iff_exists.1 free
    rw [place]
    exact ⟨_, rfl⟩

theorem open_create_halts (layout : Layout d) (room : RoomEverywhere d)
    (free : (d.handles.findIdx? fun fh => !fh.inUse).isSome = true)
    (reading : Reading servedDrive s d) (path : List UInt8) :
    Halts (Operations.open fuel path true) s := by
  have table : ∀ {s : Fat32Filesystem}, Reading servedDrive s d → s.handles = d.handles := by
    rintro s reading
    rw [← reading.same]
    rfl
  unfold Operations.open
  refine halts_bind (R := Reading servedDrive) (junk_out_returns d) reading ?_
  rintro out s₁ w reading₁ rfl
  refine halts_bind (R := Reading servedDrive) (resolve_path_returns all large path out)
    reading₁ ?_
  rintro (_ | ⟨cluster, out⟩) s₂ w reading₂ rfl
  · dsimp only
    rw [if_pos rfl]
    obtain ⟨made, s₃, run, same⟩ := create_file_finishes all large layout room reading₂ path
    cases made with
    | none => exact ⟨_, bind_of_some run⟩
    | some out =>
        rw [← table reading₂, ← same] at free
        obtain ⟨r, last⟩ := open_entry_halts path true out free
        exact ⟨r, (bind_of_some run).trans last⟩
  · apply open_entry_halts
    rw [table reading₂]
    exact free

end Returning

section Starving

variable {s s' : Fat32Filesystem} {fuel : Nat}

/-- The undisturbed object with one allocation that fails. -/
def starved (s : Fat32Filesystem) : Fat32Filesystem :=
  { undisturbed s with heap := ⟨[false], s.heap.junk⟩ }

theorem starved_reading (s : Fat32Filesystem) : Reading servedDrive (starved s) (core s) :=
  ⟨Transparent.congr (undisturbed_reading s).transparent rfl rfl,
    fun _ _ member => absurd member List.not_mem_nil, nofun, rfl⟩

theorem find_entry_starved {c : Nat} {name : List UInt8} {found : Option Found}
    (run : findEntry fuel c name (starved s) = some (found, s')) :
    found = none ∧ s' = undisturbed s := by
  cases fuel with
  | zero => cases run
  | succ fuel =>
      cases run
      exact ⟨rfl, rfl⟩

/-- Up to the first component that is looked up, the walk stays in the root directory. -/
theorem walk_components_starved {names : List (List UInt8)} {out : PathOut}
    {answer : Option (Nat × PathOut)}
    (named : ∃ name ∈ names, name ≠ [charDot] ∧ name ≠ [charDot, charDot])
    (run : walkComponents fuel names (starved s).rootCluster out (starved s) = some (answer, s')) :
    answer = none ∧ s' = undisturbed s := by
  induction names with
  | nil =>
      obtain ⟨_, member, _⟩ := named
      cases member
  | cons name rest ih =>
      unfold walkComponents walkComponent at run
      by_cases stays : name = [charDot] ∨ name = [charDot, charDot]
      · have later : ∃ name ∈ rest, name ≠ [charDot] ∧ name ≠ [charDot, charDot] := by
          obtain ⟨other, member, proper⟩ := named
          rcases List.mem_cons.1 member with rfl | inside
          · exact absurd stays (not_or.2 proper)
          · exact ⟨other, inside, proper⟩
        apply ih later
        rw [← run]
        symm
        by_cases dot : name = [charDot]
        · rw [if_pos dot]
          exact and_then_of_some (a := ((starved s).rootCluster, out)) rfl
        · rw [if_neg dot, if_pos (stays.resolve_left dot)]
          exact and_then_of_some (a := ((starved s).rootCluster, out)) (if_pos rfl)
      · obtain ⟨dot, dots⟩ := not_or.1 stays
        rw [if_neg dot, if_neg dots] at run
        obtain ⟨reached, t, first, last⟩ := bind_eq_some.1 run
        obtain ⟨found, t', search, kept⟩ := bind_eq_some.1 first
        obtain ⟨rfl, rfl⟩ := find_entry_starved search
        cases kept
        cases last
        exact ⟨rfl, rfl⟩

theorem take_component_split (path : List UInt8) :
    path = (takeComponent path).1 ++ path.drop (takeComponent path).1.length := by
  have first : (takeComponent path).1 <+: path :=
    (List.takeWhile_prefix _).trans (List.take_prefix _ path)
  conv_lhs => rw [← List.take_append_drop (takeComponent path).1.length path]
  rw [← List.prefix_iff_eq_take.1 first]

theorem take_component_empty {path : List UInt8} (some : path ≠ [])
    (empty : (takeComponent path).1 = []) : path.head? = Option.some charSlash := by
  cases path with
  | nil => exact absurd rfl some
  | cons b rest =>
      have here : ((b :: rest).take (maxName - 1)).takeWhile (· != charSlash) = [] := empty
      rw [show maxName - 1 = 254 + 1 from rfl, List.take_succ_cons] at here
      by_contra other
      have byte : (b != charSlash) = true := by
        rw [bne_iff_ne]
        exact fun same => other (congrArg Option.some same)
      simp only [List.takeWhile_cons, byte, if_true] at here
      cases here

theorem byte_in_component {rounds : Nat} {path : List UInt8} (enough : path.length < rounds)
    {b : UInt8} (member : b ∈ path) (other : b ≠ charSlash) :
    ∃ name ∈ componentsFrom rounds path, b ∈ name := by
  induction rounds generalizing path with
  | zero => omega
  | succ rounds ih =>
      have some : path ≠ [] := List.ne_nil_of_mem member
      have split := take_component_split path
      have lengths := congrArg List.length split
      rw [List.length_append] at lengths
      have onward : b ∉ (takeComponent path).1 → b ∈ (takeComponent path).2 ∧
          (takeComponent path).2.length < rounds := by
        intro absent
        have behind : b ∈ path.drop (takeComponent path).1.length := by
          rw [split] at member
          exact (List.mem_append.1 member).resolve_left absent
        by_cases slash : (path.drop (takeComponent path).1.length).head? = Option.some charSlash
        · have rest : (takeComponent path).2 =
              (path.drop (takeComponent path).1.length).tail := if_pos slash
          obtain ⟨tail, shape⟩ := List.head?_eq_some_iff.1 slash
          rw [shape] at behind lengths
          rw [rest, shape]
          refine ⟨(List.mem_cons.1 behind).resolve_left other, ?_⟩
          rw [List.length_cons] at lengths
          rw [List.tail_cons]
          omega
        · have rest : (takeComponent path).2 = path.drop (takeComponent path).1.length :=
            if_neg slash
          refine ⟨rest ▸ behind, ?_⟩
          have taken : (takeComponent path).1 ≠ [] := by
            intro empty
            rw [empty, List.length_nil, List.drop_zero] at slash
            exact slash (take_component_empty some empty)
          have positive := List.length_pos_of_ne_nil taken
          rw [rest]
          omega
      unfold componentsFrom
      rw [if_neg some]
      by_cases here : b ∈ (takeComponent path).1
      · rw [if_neg (List.ne_nil_of_mem here)]
        exact ⟨_, List.mem_cons_self, here⟩
      · obtain ⟨later, shorter⟩ := onward here
        obtain ⟨name, inside, holds⟩ := ih shorter later
        split
        · exact ⟨name, inside, holds⟩
        · exact ⟨name, List.mem_cons_of_mem _ inside, holds⟩

/-- A path with a letter in it is not resolved when the first allocation fails. -/
theorem resolve_path_starved {path : List UInt8} {out : PathOut} {b : UInt8} (member : b ∈ path)
    (letter : b ≠ charSlash ∧ b ≠ charDot) {answer : Option (Nat × PathOut)}
    (run : resolvePath fuel path out (starved s) = some (answer, s')) :
    answer = none ∧ s' = undisturbed s := by
  have some : path ≠ [] := List.ne_nil_of_mem member
  have other : path ≠ [charSlash] := by
    intro same
    rw [same] at member
    exact letter.1 (List.mem_singleton.1 member)
  unfold resolvePath at run
  rw [if_neg some, if_neg other] at run
  dsimp only at run
  rw [walk_path_eq] at run
  apply walk_components_starved ?_ run
  have inside : b ∈ if path.head? = Option.some charSlash then path.tail else path := by
    split
    · next slash =>
      obtain ⟨tail, shape⟩ := List.head?_eq_some_iff.1 slash
      rw [shape] at member ⊢
      exact (List.mem_cons.1 member).resolve_left letter.1
    · exact member
  obtain ⟨name, listed, holds⟩ := byte_in_component (Nat.lt_succ_self _) inside letter.1
  refine ⟨name, listed, ?_, ?_⟩
  · rintro rfl
    exact letter.2 (List.mem_singleton.1 holds)
  · rintro rfl
    rcases List.mem_cons.1 holds with same | same
    · exact letter.2 same
    · exact letter.2 (List.mem_singleton.1 same)

end Starving

section Hanging

variable {d s s' : Fat32Filesystem} {fuel c : Nat} {path parent name : List UInt8}

theorem resolve_parent_reaches (split : Split path parent name) (fits : parent.length ≤ 255)
    (place : if parent = [] then c = d.rootCluster else ResolvesToDirectory d parent c)
    (reading : Reading noFailure s d) {answer : Option (Nat × List UInt8)}
    (run : resolveParentPath fuel path maxName s = some (answer, s')) :
    answer = some (c, name.take 255) := by
  by_cases top : parent = []
  · rw [if_pos top] at place
    subst top
    rw [resolve_parent_root split, reading.layout.2.2.2.2, ← place] at run
    cases run
    rfl
  · rw [if_neg top] at place
    obtain ⟨fuel', out, runs, directory⟩ := place
    rw [resolve_parent_below split top, List.take_of_length_le fits] at run
    obtain ⟨reached, s₁, first, checked⟩ := bind_eq_some.1 run
    obtain ⟨s₂, second, _⟩ := runs s reading
    have grows : ∀ {n m : Nat}, n ≤ m →
        Below (junkOut >>= resolvePath n parent) (junkOut >>= resolvePath m parent) :=
      fun le => below_bind (below_refl _) fun out =>
        below_of_le (fun k => below_resolve_path k parent out) le
    have same : reached = some (c, out) := by
      rcases Nat.le_total fuel fuel' with le | le
      · cases (grows le s _ first).symm.trans second
        rfl
      · cases first.symm.trans (grows le s _ second)
        rfl
    rw [same, check_parent_directory directory] at checked
    cases checked
    rfl

def longestName : List UInt8 := List.replicate 255 0x61

theorem longest_name_slots : slotsFor longestName = mostSlots := by
  unfold slotsFor needsLfn lfnCount longestName
  rw [List.length_replicate]
  rfl

theorem longest_name_split (parent : List UInt8) :
    Split (parent ++ charSlash :: longestName) parent longestName where
  whole := rfl
  last := by
    intro member
    exact absurd (List.eq_of_mem_replicate member) (by decide)

theorem parent_place (at_ : ParentAt d c) : ∃ parent : List UInt8, parent.length ≤ 255 ∧
    if parent = [] then c = d.rootCluster else ResolvesToDirectory d parent c := by
  rcases at_ with root | ⟨parent, below, fits, place⟩
  · exact ⟨[], Nat.zero_le _, by rwa [if_pos rfl]⟩
  · exact ⟨parent, fits, by rwa [if_neg below]⟩

/-- The first allocation fails, so that the file is to be created, and the search for its slots
does not end. -/
theorem open_create_endless (at_ : ParentAt (core s) c) (none : ¬ HasRoom (core s) mostSlots c) :
    ∃ path, ∀ fuel, ¬ Halts (Operations.open fuel path true) (starved s) := by
  obtain ⟨parent, fits, place⟩ := parent_place at_
  refine ⟨parent ++ charSlash :: longestName, ?_⟩
  rintro fuel ⟨r, run⟩
  have letter : (0x61 : UInt8) ∈ parent ++ charSlash :: longestName :=
    List.mem_append_right _ (List.mem_cons_of_mem _ (List.mem_replicate.2 ⟨by decide, rfl⟩))
  obtain ⟨out, s₁, start, run⟩ := bind_eq_some.1 run
  cases start
  obtain ⟨resolved, s₂, lookup, run⟩ := bind_eq_some.1 run
  obtain ⟨rfl, rfl⟩ := resolve_path_starved letter (by decide) lookup
  dsimp only at run
  rw [if_pos rfl] at run
  obtain ⟨made, s₃, creation, _⟩ := bind_eq_some.1 run
  obtain ⟨target, s₄, second, creation⟩ := bind_eq_some.1 creation
  have reading := undisturbed_reading s
  have reading₄ := (resolve_parent_path_settles fuel _).keeps reading second
  obtain rfl := resolve_parent_reaches (longest_name_split parent) fits place reading second
  have whole : longestName.take 255 = longestName := 
    List.take_of_length_le (Nat.le_of_eq List.length_replicate)
  dsimp only at creation
  rw [whole, if_neg (by decide)] at creation
  obtain ⟨found, s₅, created, _⟩ := bind_eq_some.1 creation
  rw [← longest_name_slots] at none
  obtain ⟨_, _, never⟩ := create_entry_endless none DirAttr.archive s₄ reading₄ _ _ created
  exact never

theorem opens_need_room (returns : OpensReturn s) : RoomEverywhere (core s) := by
  intro c at_
  by_contra none
  obtain ⟨path, endless⟩ := open_create_endless at_ none
  have reading := starved_reading s
  obtain ⟨fuel, _, halts⟩ :=
    returns (starved s) reading.transparent (reading.granting rfl) reading.same path
  exact endless fuel halts

end Hanging

section Mounted

variable {s₀ s : Fat32Filesystem}

theorem mounted_table (mounted : mount s₀ = some (true, s)) :
    s.handles = List.replicate maxHandles emptyHandle := by
  rcases mount_cases s₀ with run | ⟨s', run, _⟩
  · rw [run] at mounted
    obtain ⟨boot, s₁, read, last⟩ := bind_eq_some.1 mounted
    obtain ⟨data, s₂, read', _, same, _⟩ :=
      cache_read_cases (with_cache_transparent (withTable s₀)) 0
    cases read'.symm.trans read
    have table : s₁.handles = List.replicate maxHandles emptyHandle := by
      have field : (core s₁).handles = (core (withCache (withTable s₀))).handles := by rw [same]
      exact field
    cases boot with
    | none => cases last
    | some boot =>
        dsimp only at last
        split at last
        · cases last
        · cases last
          exact table
  · cases run.symm.trans mounted

theorem opens_return (mounted : mount s₀ = some (true, s)) (layout : Layout s)
    (all : ∀ c, Terminating (core s) c) (room : RoomEverywhere (core s)) : OpensReturn s := by
  intro t transparent granting same path
  have free : ((core s).handles.findIdx? fun fh => !fh.inUse).isSome = true := by
    have table : s.handles = List.replicate maxHandles emptyHandle := mounted_table mounted
    change (s.handles.findIdx? fun fh => !fh.inUse).isSome = true
    rw [table]
    decide
  have layout' : Layout (core s) :=
    ⟨layout.sector, layout.perCluster, layout.clusterBytes, layout.fatStart, layout.dataStart,
      layout.copies, layout.fatCovers, layout.entries, layout.dataFits, layout.handleTable⟩
  exact ⟨_, Nat.le_refl _, open_create_halts all (Nat.le_refl _) layout' room free
    ⟨transparent, fun _ => granting, nofun, same⟩ path⟩

end Mounted

section Volumes

/-- Boot sector and FAT of a volume of two clusters; the root directory's, the first, is linked
to itself. -/
def loopSectors (root : Sector) : Nat → Sector := fun lba k =>
  if lba = 0 then
    [(12, 2), (13, 1), (14, 1), (16, 2), (32, 5), (36, 1), (44, 2)].lookup k.val |>.getD 0
  else if lba = 1 then if k = 8 then 2 else 0
  else if lba = 3 then root k
  else 0

def loopVolume (root : Sector) : Fat32Filesystem :=
  ((mount (freshObject (loopSectors root))).map Prod.snd).getD (freshObject (loopSectors root))

def deletedSlots : Sector := fun _ => dirEntryFree

def fifteenFiles : Sector := fun k => if k.val < 480 then 0x41 else 0

theorem loop_volume_mounts (root : Sector) :
    mount (freshObject (loopSectors root)) = some (true, loopVolume root) := by
  have answer : (mount (freshObject (loopSectors root))).map Prod.fst = some true := rfl
  obtain ⟨⟨ok, s⟩, run, rfl⟩ := Option.map_eq_some_iff.1 answer
  unfold loopVolume
  rw [run]
  rfl

theorem loop_volume_endless (n : Nat) : ¬ Ends (core (loopVolume deletedSlots)) n 2 := by
  have link : nextOf (core (loopVolume deletedSlots)) 2 = 2 := by decide +kernel
  have live : (slotsAt (core (loopVolume deletedSlots)) 2).all (fun slot => !isEnd slot.entry) =
      true := by decide +kernel
  induction n with
  | zero => exact not_not_intro (by decide)
  | succ n ih =>
      rintro (outside | ⟨slot, member, marked⟩ | later)
      · exact outside (by decide)
      · have alive := List.all_eq_true.1 live slot member
        rw [marked] at alive
        cases alive
      · rw [link] at later
        exact ih later

abbrev circleVolume : Fat32Filesystem := loopVolume fifteenFiles

theorem circle_volume_layout : Layout circleVolume := by
  constructor <;> decide

theorem listing_length (nameMax : Nat) (slots : List Slot) (lfn : List DirEntry) :
    (listing nameMax lfn slots).length ≤ slots.length := by
  induction slots generalizing lfn with
  | nil => exact Nat.le_refl _
  | cons slot rest ih =>
      have longer : ∀ lfn, (listing nameMax lfn rest).length ≤ (slot :: rest).length :=
        fun lfn => (ih lfn).trans (Nat.le_succ _)
      unfold listing
      split
      · exact Nat.zero_le _
      split
      · exact longer _
      split
      · exact longer _
      split
      · exact longer _
      split
      · exact longer _
      · exact Nat.succ_le_succ (ih _)

/-- The links of the volume, and the slots of its root directory. -/
theorem circle_volume_reads :
    (core circleVolume).fatEntryCount = 4 ∧ entriesPerCluster (core circleVolume) = 16 ∧
      nextOf (core circleVolume) 2 = 2 ∧ ¬ InChain (nextOf (core circleVolume) 3) ∧
      (slotsAt (core circleVolume) 2).any (fun slot => isEnd slot.entry) = true ∧
      (slotsAt (core circleVolume) 2).IsChain (fun a b => ¬ (unused a ∧ unused b)) ∧
      (slotsAt (core circleVolume) 2).head?.map unused = some false := by
  decide +kernel

/-- Each chain ends behind its first cluster or reaches the mark there. -/
theorem circle_volume_terminating (c : Nat) : Terminating (core circleVolume) c := by
  obtain ⟨count, entries, _, leaves, marked, _⟩ := circle_volume_reads
  have ends : Ends (core circleVolume) 1 c := by
    by_cases inside : InChain c
    · by_cases root : c = 2
      · subst root
        exact .inr (.inl (List.any_eq_true.1 marked))
      · by_cases last : c = 3
        · subst last
          exact .inr (.inr leaves)
        · have low := inside.1
          have outside : nextOf (core circleVolume) c = fatEoc := if_pos (by rw [count]; omega)
          exact .inr (.inr (show ¬ InChain _ by rw [outside]; decide))
    · exact .inl inside
  refine ⟨1, ends, (listing_length _ _ _).trans_lt ?_⟩
  unfold dirSlots
  split
  · rw [dirSlots, List.append_nil, slots_at_length, entries]
    decide
  · decide

theorem circle_volume_runs (n : Nat) :
    (dirSlots (core circleVolume) n 2).IsChain (fun a b => ¬ (unused a ∧ unused b)) ∧
      ∀ slot ∈ (dirSlots (core circleVolume) n 2).head?, unused slot = false := by
  obtain ⟨_, _, link, _, _, apart, first⟩ := circle_volume_reads
  induction n with
  | zero => exact ⟨List.isChain_nil, nofun⟩
  | succ n ih =>
      rw [dir_slots_succ (by decide), link]
      obtain ⟨slot, here, used⟩ := Option.map_eq_some_iff.1 first
      refine ⟨List.isChain_append.2 ⟨apart, ih.1, ?_⟩, ?_⟩
      · intro a _ b member both
        rw [ih.2 b member] at both
        cases both.2
      · intro other member
        rw [List.head?_append, here] at member
        cases member
        exact used

/-- There the search of `createEntry` goes round for ever. -/
theorem circle_volume_no_room : ¬ HasRoom (core circleVolume) mostSlots 2 := by
  have link := circle_volume_reads.2.2.1
  rintro ⟨n, outside | ⟨run, ⟨before, behind, whole⟩, length, free⟩⟩
  · rw [Function.iterate_fixed link] at outside
    exact outside (by decide)
  · have chain := (circle_volume_runs n).1
    rw [← whole] at chain
    obtain ⟨a, b, rest, rfl⟩ : ∃ a b rest, run = a :: b :: rest := by
      rcases run with _ | ⟨a, _ | ⟨b, rest⟩⟩
      · cases length
      · cases length
      · exact ⟨a, b, rest, rfl⟩
    apply (List.isChain_cons_cons.1 chain.left_of_append.right_of_append).1
    exact ⟨free a List.mem_cons_self, free b (List.mem_cons_of_mem a List.mem_cons_self)⟩

end Volumes

end CassiOS.Fat32.OpenTermination
