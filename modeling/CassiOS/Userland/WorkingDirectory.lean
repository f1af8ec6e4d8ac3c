import CassiOS.Support.TransitionSystem
import CassiOS.Fat32.PathNormalisation
import CassiOS.Userland.ChangeDirectory

/-!
# The directory that the shell is in

The text of the working directory against the tree of the volume. After each `cd` that goes
through no file it leads to a directory. Whether `cd ..` takes back the `cd` before it depends
on what stands behind the last slash of the text: the cut is the parent only of a name.
-/

namespace CassiOS.Userland.WorkingDirectory

open CassiOS.Support.PartialProgram
open CassiOS.Support.TransitionSystem
open CassiOS.Fat32.Types
open CassiOS.Fat32.Names
open CassiOS.Fat32.Device
open CassiOS.Fat32.Cache
open CassiOS.Fat32.Filesystem
open CassiOS.Fat32.VolumeModel
open CassiOS.Fat32.ReadOnly
open CassiOS.Fat32.LookupTermination
open CassiOS.Fat32.SettledLookups
open CassiOS.Fat32.PathWalk
open CassiOS.Fat32.PathNormalisation
open CassiOS.Fat32.ParentPaths (Split split_exists split_unique Resolves)
open CassiOS.Userland.ChangeDirectory

set_option autoImplicit false

section Laws

/-- On the disk `d` the path resolves to this directory of the tree. -/
structure Denotes (v : Volume) (d : Fat32Filesystem) (path : List UInt8) (ds : List Nat) :
    Prop where
  inTree : Directory v ds
  resolves : Resolves d path (ds.headD v.rootCluster)

/-- The directory that an argument names: from the root, or from the directory that the working
directory denotes. -/
def Names (v : Volume) (d : Fat32Filesystem) (cwd input : List UInt8) (ds : List Nat) : Prop :=
  if input.head? = some charSlash then
    Leads v (.directory []) (pieces input) (.directory ds)
  else ∃ here, Denotes v d cwd here ∧
    Leads v (.directory here) (pieces input) (.directory ds)

/-- `"cd"`. -/
def cdName : List UInt8 := [0x63, 0x64]

/-- The command that led from `s` to `s'` did what its argument says, and `cd ..` then leads to
the parent of the directory it led to. The root is its own parent. -/
def GoesBack (v : Volume) (s s' : Shell) (input : List UInt8) : Prop :=
  ∃ ds, Names v (core s.fs) s.cwd input ds ∧ Denotes v (core s'.fs) s'.cwd ds ∧
    ∀ fuel, ∃ back, Shell.cmdCd fuel [cdName, dotDot] s' = some back ∧
      Denotes v (core back.fs) back.cwd ds.tail

/-- What stands in a path for an entry of a directory. -/
structure Named (segment : List UInt8) : Prop where
  nonempty : segment ≠ []
  dot : segment ≠ [charDot]
  dots : segment ≠ dotDot

/-- The first 63 characters of the joined path go through no file. -/
def Clear (v : Volume) (cwd input : List UInt8) : Prop :=
  NoFileInside v (.directory []) (pieces (kept cwd input))

structure Conforms (v : Volume) (cwd input : List UInt8) : Prop where
  clear : Clear v cwd input
  /-- What does not fit the buffer leads nowhere else. -/
  whole : ∃ place, Leads v (.directory []) (pieces (kept cwd input)) place ∧
    Leads v (.directory []) (pieces (joined cwd input)) place
  /-- Behind the last slash stands a name, or in front of it the root. -/
  last : ∀ front segment, Split (kept cwd input) front segment →
    Named segment ∨ Leads v (.directory []) (pieces front) (.directory [])

/-- A `cd` with the words of its line, and the fuel for its lookups. -/
structure Command where
  fuel : Nat
  args : List (List UInt8)

def step (s : Shell) (command : Command) : Option Shell := Shell.cmdCd command.fuel command.args s

/-- The argument, if it is not `..`, goes through no file. -/
def Passes (v : Volume) (s : Shell) (command : Command) : Prop :=
  ∀ name input rest, command.args = name :: input :: rest → input ≠ dotDot → Clear v s.cwd input

end Laws

section Text

variable {path front behind segment piece : List UInt8}

theorem pieces_segment (plain : charSlash ∉ segment) :
    pieces segment = [] ∨ pieces segment = [segment] := by
  by_cases empty : segment = []
  · rw [empty, pieces_nil]
    exact .inl rfl
  · exact .inr (pieces_plain empty plain)

theorem piece_length (member : piece ∈ pieces path) : piece.length ≤ path.length := by
  induction size : path.length using Nat.strong_induction_on generalizing path with
  | _ n ih =>
      by_cases slash : charSlash ∈ path
      · obtain ⟨parent, name, split⟩ := split_exists slash
        have lengths : path.length = parent.length + (name.length + 1) := by
          rw [split.whole, List.length_append, List.length_cons]
        rw [split.whole, pieces_append] at member
        rcases List.mem_append.1 member with left | right
        · have below := ih parent.length (by omega) left rfl
          omega
        · have below := ih name.length (by omega) right rfl
          omega
      · rcases pieces_segment slash with none | one
        · rw [none] at member
          cases member
        · rw [one] at member
          rw [List.mem_singleton.1 member, size]

/-- A path that fits the buffer of the shell has no component that is too long. -/
theorem short_components (short : path.length < shellMaxPath) :
    components path = pieces path := by
  apply (components_iff path).2
  intro piece member
  have below := piece_length member
  have limit : shellMaxPath = 64 := rfl
  omega

theorem pieces_nonempty (nonempty : segment ≠ []) (plain : charSlash ∉ segment)
    (behind : List UInt8) : pieces (segment ++ behind) ≠ [] := by
  by_cases slash : charSlash ∈ behind
  · obtain ⟨first, rest, rfl, others⟩ := List.eq_append_cons_of_mem slash
    have start : segment ++ first ≠ [] := List.append_ne_nil_of_left_ne_nil nonempty first
    have free : charSlash ∉ segment ++ first := by
      rw [List.mem_append, not_or]
      exact ⟨plain, others⟩
    rw [← List.append_assoc, pieces_cons start free]
    exact List.cons_ne_nil _ _
  · have start : segment ++ behind ≠ [] := List.append_ne_nil_of_left_ne_nil nonempty behind
    have free : charSlash ∉ segment ++ behind := by
      rw [List.mem_append, not_or]
      exact ⟨plain, slash⟩
    rw [pieces_plain start free]
    exact List.cons_ne_nil _ _

/-- What comes before the last component of a front comes before the last one of the path. -/
theorem pieces_front (split : Split path front segment) (behind : List UInt8)
    {pre post : List (List UInt8)} (parts : pieces path = pre ++ post) (more : post ≠ []) :
    ∃ post', pieces (path ++ behind) = pre ++ post' ∧ post' ≠ [] := by
  have whole : pieces (path ++ behind) = pieces front ++ pieces (segment ++ behind) := by
    rw [split.whole, List.append_assoc, List.cons_append, pieces_append]
  rw [split.whole, pieces_append] at parts
  rw [whole]
  by_cases empty : segment = []
  · rw [empty, pieces_nil, List.append_nil] at parts
    refine ⟨post ++ pieces (segment ++ behind), ?_, List.append_ne_nil_of_left_ne_nil more _⟩
    rw [parts, List.append_assoc]
  · rw [pieces_plain empty split.last] at parts
    obtain ⟨rest, last, rfl⟩ : ∃ rest last, post = rest ++ [last] := by
      rcases List.eq_nil_or_concat post with none | ⟨rest, last, same⟩
      · exact absurd none more
      · exact ⟨rest, last, same.trans List.concat_eq_append⟩
    rw [← List.append_assoc] at parts
    have fronts := (List.append_inj' parts rfl).1
    have nonempty := pieces_nonempty empty split.last behind
    refine ⟨rest ++ pieces (segment ++ behind), ?_, List.append_ne_nil_of_right_ne_nil _ nonempty⟩
    rw [fronts, List.append_assoc]

theorem rooted_slash (rooted : path.head? = some charSlash) : charSlash ∈ path :=
  List.mem_of_mem_head? rooted

theorem joined_rooted {cwd : List UInt8} (rooted : cwd.head? = some charSlash)
    (input : List UInt8) : (joined cwd input).head? = some charSlash := by
  unfold joined
  by_cases absolute : input.head? = some charSlash
  · rw [if_pos absolute, absolute]
  · rw [if_neg absolute, List.head?_append, rooted]
    rfl

theorem kept_rooted {cwd : List UInt8} (rooted : cwd.head? = some charSlash)
    (input : List UInt8) : (kept cwd input).head? = some charSlash := by
  unfold kept
  rw [List.head?_take, joined_rooted rooted]
  rfl

theorem kept_short (cwd input : List UInt8) : (kept cwd input).length < shellMaxPath :=
  Nat.lt_of_le_of_lt (List.length_take_le _ _) (by decide)

theorem pieces_joined {cwd : List UInt8} (rooted : cwd.head? = some charSlash)
    (input : List UInt8) : pieces (joined cwd input) =
      if input.head? = some charSlash then pieces input else pieces cwd ++ pieces input := by
  unfold joined
  by_cases absolute : input.head? = some charSlash
  · rw [if_pos absolute, if_pos absolute]
  rw [if_neg absolute, if_neg absolute]
  by_cases below : 1 < cwd.length
  · rw [if_pos below, List.singleton_append, pieces_append]
  · obtain ⟨c, rest, rfl⟩ := List.exists_cons_of_ne_nil
      (List.ne_nil_of_mem (rooted_slash rooted))
    obtain rfl : c = charSlash := Option.some.inj rooted
    rw [List.length_cons] at below
    obtain rfl : rest = [] := List.eq_nil_of_length_eq_zero (by omega)
    rw [if_neg (by simp), List.nil_append, List.singleton_append, pieces_slash, pieces_slash,
      pieces_nil, List.nil_append]

theorem parent_dir_rooted (rooted : path.head? = some charSlash) :
    (Shell.parentDir path).head? = some charSlash := by
  obtain ⟨front, segment, split⟩ := split_exists (rooted_slash rooted)
  rw [parent_dir_split split]
  by_cases none : front = []
  · rw [if_pos none]
    rfl
  · rw [split.whole, List.head?_append_of_ne_nil _ none] at rooted
    rw [if_neg none, rooted]

theorem parent_dir_length (path : List UInt8) : (Shell.parentDir path).length ≤ path.length := by
  unfold Shell.parentDir
  split
  · exact Nat.le_refl _
  dsimp only
  split
  · exact List.length_take_le' _ _
  · exact List.length_take_le' _ _

theorem parent_dir_pieces (split : Split path front segment) :
    pieces (Shell.parentDir path) = pieces front := by
  rw [parent_dir_split split]
  by_cases none : front = []
  · rw [if_pos none, none]
    decide
  · rw [if_neg none]

end Text

section Places

variable {v : Volume} {path front segment : List UInt8} {ds ds' above : List Nat}

theorem directory_unique (tree : Tree v) (inTree : Directory v ds) (inTree' : Directory v ds')
    (same : ds.headD v.rootCluster = ds'.headD v.rootCluster) : ds = ds' := by
  induction ds generalizing ds' with
  | nil =>
      cases ds' with
      | nil => rfl
      | cons c' ds' => exact absurd same.symm (tree.below c' ds' inTree')
  | cons c ds ih =>
      cases ds' with
      | nil => exact absurd same (tree.below c ds inTree)
      | cons c' ds' =>
          obtain rfl : c = c' := same
          have parents : ds.headD v.rootCluster = ds'.headD v.rootCluster :=
            (tree.parent c ds inTree).symm.trans (tree.parent c ds' inTree')
          rw [ih (directory_above inTree) (directory_above inTree') parents]

theorem leads_directory (leads : Leads v (.directory []) (pieces path) (.directory ds)) :
    Directory v ds := by
  obtain ⟨_, walked⟩ := leads_walked ⟨fun _ => 0, 0, 0⟩ leads
  exact walked_directory walked

/-- On the way to a directory there are directories only. -/
theorem leads_front (split : Split path front segment)
    (leads : Leads v (.directory []) (pieces path) (.directory ds)) :
    ∃ above, Leads v (.directory []) (pieces front) (.directory above) ∧
      Leads v (.directory above) (pieces segment) (.directory ds) := by
  rw [split.whole, pieces_append] at leads
  obtain ⟨next, before, behind⟩ := leads_append.1 leads
  cases next with
  | directory above => exact ⟨above, before, behind⟩
  | file found =>
      rw [leads_from_file behind] at behind
      cases behind

/-- The parent of a directory is where the last slash was, unless the last part of the path is no
name and has the tree to go through. -/
theorem tail_iff (plain : charSlash ∉ segment)
    (leads : Leads v (.directory above) (pieces segment) (.directory ds)) :
    ds.tail = above ↔ Named segment ∨ above = [] := by
  by_cases empty : segment = []
  · rw [empty, pieces_nil] at leads
    cases leads
    have unnamed : ¬ Named segment := fun named => named.nonempty empty
    cases ds with
    | nil => simp
    | cons c cs => simp [unnamed]
  rw [pieces_plain empty plain] at leads
  obtain ⟨_, move, rfl⟩ := leads
  cases move with
  | stay =>
      have unnamed : ¬ Named [charDot] := fun named => named.dot rfl
      cases ds with
      | nil => simp
      | cons c cs => simp [unnamed]
  | top => simp
  | up c =>
      have unnamed : ¬ Named dotDot := fun named => named.dots rfl
      constructor
      · intro same
        have lengths := congrArg List.length same
        rw [List.length_tail, List.length_cons] at lengths
        omega
      · rintro (named | none)
        · exact absurd named unnamed
        · cases none
  | down dot dots => simp [Named.mk empty dot dots]

end Places

section Resolution

variable {faults : Faults} {v : Volume} {s s' : Fat32Filesystem} {path : List UInt8}
  {ds ds' : List Nat}

theorem undisturbed_stands (stands : Stands faults s v) :
    Stands noFailure (undisturbed s) v where
  layout := layout_of_core stands.layout (core_of_core rfl)
  steady := Fat32.CacheTransparency.steady_empty rfl rfl rfl
  content := (volume_of_core rfl).trans stands.content

theorem stands_any (stands : Stands faults s v) : Stands anyFailure s v where
  layout := stands.layout
  steady := ⟨stands.steady.transparent, stands.steady.unmirrored, nofun, nofun⟩
  content := stands.content

theorem root_resolves (d : Fat32Filesystem) : Resolves d [charSlash] d.rootCluster := by
  refine ⟨0, noEntry, ⟨syntheticDir d.rootCluster, 0, 0⟩, fun s reading => ⟨s, ?_, reading⟩⟩
  have root : s.rootCluster = d.rootCluster := reading.layout.2.2.2.2
  rw [← root]
  rfl

/-- Where the tree leads along a path, there `resolvePath` does. -/
theorem denotes_of_leads (tree : Tree v) (stands : Stands faults s v) (nonempty : path ≠ [])
    (split : components path = pieces path)
    (leads : Leads v (.directory []) (pieces path) (.directory ds)) :
    Denotes v (core s) path ds := by
  have quiet := undisturbed_stands stands
  refine ⟨leads_directory leads, ?_⟩
  by_cases root : path = [charSlash]
  · subst root
    cases leads
    exact (core_root quiet) ▸ root_resolves (core s)
  · obtain ⟨entry, walked⟩ := leads_walked noEntry leads
    obtain ⟨n, runs⟩ := walked_runs quiet tree walked
    have answer : Answer (core s) path noEntry (some (ds.headD v.rootCluster, entry)) :=
      (answer_iff ⟨nonempty, root⟩ split).2 ⟨n, runs n (Nat.le_refl n)⟩
    obtain ⟨fuel, runs⟩ := answer
    exact ⟨fuel, noEntry, entry, runs⟩

theorem denotes_unique (tree : Tree v) (stands : Stands faults s v)
    (split : components path = pieces path)
    (leads : Leads v (.directory []) (pieces path) (.directory ds))
    (denotes : Denotes v (core s) path ds') : ds' = ds := by
  obtain ⟨fuel, out, out', runs⟩ := denotes.resolves
  obtain ⟨s', run, _⟩ := runs _ (undisturbed_reading s)
  rw [← split] at leads
  have walks := (walks_directories_iff (undisturbed_stands stands) tree run).2
    (clear_of_leads leads)
  obtain ⟨place, leads', same, _⟩ := walks.agrees
  obtain rfl := leads_unique leads leads'
  rw [split] at leads
  exact directory_unique tree denotes.inTree (leads_directory leads) same

theorem denotes_iff (tree : Tree v) (stands : Stands faults s v) (nonempty : path ≠ [])
    (split : components path = pieces path)
    (leads : Leads v (.directory []) (pieces path) (.directory ds)) :
    Denotes v (core s) path ds' ↔ ds' = ds := by
  constructor
  · exact denotes_unique tree stands split leads
  · rintro rfl
    exact denotes_of_leads tree stands nonempty split leads

/-- `stat` leaves the volume alone and answers 2 for directories only. -/
theorem stat_goes (tree : Tree v) (stands : Stands faults s v)
    (split : components path = pieces path)
    (clear : NoFileInside v (.directory []) (pieces path)) {fuel kind : Nat}
    (run : Fat32.Operations.stat fuel path s = some (kind, s')) :
    Stands faults s' v ∧
      (kind = 2 → ∃ ds, Leads v (.directory []) (pieces path) (.directory ds)) := by
  by_cases empty : path = []
  · subst empty
    cases run
    exact ⟨stands, nofun⟩
  by_cases root : path = [charSlash]
  · subst root
    cases run
    exact ⟨stands, fun _ => ⟨[], rfl⟩⟩
  rw [stat_walks ⟨empty, root⟩] at run
  obtain ⟨out, s₁, local_, rest⟩ := bind_eq_some.1 run
  cases local_
  obtain ⟨answer, s₂, resolved, last⟩ := bind_eq_some.1 rest
  cases last
  unfold resolvePath at resolved
  rw [if_neg empty, if_neg root] at resolved
  dsimp only at resolved
  rw [walk_path_eq, stands.root] at resolved
  have walk : walkComponents fuel (components path) v.rootCluster _ s = _ := resolved
  rw [split] at walk
  obtain ⟨_, stands', rfl, goes⟩ :=
    walk_components_goes tree (few_clusters stands) fuel _ .root clear s stands _ _ walk
  refine ⟨stands', fun directory => ?_⟩
  cases answer with
  | none => cases directory
  | some reached =>
      obtain ⟨place, arrives⟩ := goes reached rfl
      cases place with
      | directory ds => exact ⟨ds, arrives.leads⟩
      | file found =>
          rcases arrives.entry with described | ⟨home, _⟩
          · have plain : isDirectory reached.2.entry = false := described.kind
            simp [kindOf, plain] at directory
          · cases home

end Resolution

section Result

variable {v : Volume} {s s' : Shell} {input : List UInt8} {ds : List Nat}

/-- What holds after every command: the working directory is the path of a directory. -/
structure Led (v : Volume) (s : Shell) : Prop where
  stands : Stands anyFailure s.fs v
  rooted : s.cwd.head? = some charSlash
  short : s.cwd.length < shellMaxPath
  place : ∃ ds, Leads v (.directory []) (pieces s.cwd) (.directory ds)

theorem Led.denotes_iff (led : Led v s) (tree : Tree v) {ds' : List Nat}
    (leads : Leads v (.directory []) (pieces s.cwd) (.directory ds)) :
    Denotes v (core s.fs) s.cwd ds' ↔ ds' = ds :=
  WorkingDirectory.denotes_iff tree led.stands (List.ne_nil_of_mem (rooted_slash led.rooted))
    (short_components led.short) leads

theorem Led.to_root (led : Led v s) : Led v { s with cwd := [charSlash] } where
  stands := led.stands
  rooted := rfl
  short := (by decide : [charSlash].length < shellMaxPath)
  place := ⟨[], rfl⟩

theorem Led.to_parent (led : Led v s) : Led v { s with cwd := Shell.parentDir s.cwd } where
  stands := led.stands
  rooted := parent_dir_rooted led.rooted
  short := Nat.lt_of_le_of_lt (parent_dir_length s.cwd) led.short
  place := by
    obtain ⟨front, segment, split⟩ := split_exists (rooted_slash led.rooted)
    obtain ⟨ds, leads⟩ := led.place
    obtain ⟨above, before, _⟩ := leads_front split leads
    refine ⟨above, ?_⟩
    rw [parent_dir_pieces split]
    exact before

theorem Led.moved (led : Led v s) (tree : Tree v) (clear : Clear v s.cwd input) {fuel : Nat}
    (found : Fat32.Operations.stat fuel (kept s.cwd input) s.fs = some (2, s'.fs))
    (cwd : s'.cwd = kept s.cwd input) : Led v s' := by
  have split := short_components (kept_short s.cwd input)
  have ⟨stands, directory⟩ := stat_goes tree led.stands split clear found
  refine ⟨stands, ?_, ?_, ?_⟩
  · rw [cwd]
    exact kept_rooted led.rooted input
  · rw [cwd]
    exact kept_short s.cwd input
  · rw [cwd]
    exact directory rfl

theorem Led.step (led : Led v s) (tree : Tree v) {command : Command}
    (passes : Passes v s command) (next : step s command = some s') : Led v s' := by
  obtain ⟨fuel, args⟩ := command
  match args, passes, next with
  | [], _, next =>
      cases next
      exact led.to_root
  | [_], _, next =>
      cases next
      exact led.to_root
  | name :: input :: rest, passes, next =>
      by_cases up : input = dotDot
      · have cut : some { s with cwd := Shell.parentDir s.cwd } = some s' :=
          (if_pos up).symm.trans next
        cases cut
        exact led.to_parent
      have clear := passes name input rest rfl up
      obtain ⟨kind, found, ⟨missing, cwd⟩ | ⟨rfl, cwd⟩⟩ := cd_cases up next
      · -- nothing but the state of the file system changes
        have split := short_components (kept_short s.cwd input)
        have ⟨stands, _⟩ := stat_goes tree led.stands split clear found
        exact ⟨stands, cwd ▸ led.rooted, cwd ▸ led.short, cwd ▸ led.place⟩
      · exact led.moved tree clear found cwd

/-- What an argument names is where the joined path leads. -/
theorem Led.names_iff (led : Led v s) (tree : Tree v) :
    Names v (core s.fs) s.cwd input ds ↔
      Leads v (.directory []) (pieces (joined s.cwd input)) (.directory ds) := by
  rw [pieces_joined led.rooted]
  unfold Names
  by_cases absolute : input.head? = some charSlash
  · rw [if_pos absolute, if_pos absolute]
  rw [if_neg absolute, if_neg absolute, leads_append]
  obtain ⟨here, leads⟩ := led.place
  constructor
  · rintro ⟨here', denotes, behind⟩
    obtain rfl := (led.denotes_iff tree leads).1 denotes
    exact ⟨_, leads, behind⟩
  · rintro ⟨next, before, behind⟩
    obtain rfl := leads_unique leads before
    exact ⟨here, (led.denotes_iff tree leads).2 rfl, behind⟩

theorem Led.back_iff (led : Led v s) (tree : Tree v)
    (leads : Leads v (.directory []) (pieces s.cwd) (.directory ds)) :
    (∀ fuel, ∃ back, Shell.cmdCd fuel [cdName, dotDot] s = some back ∧
      Denotes v (core back.fs) back.cwd ds.tail) ↔
    ∀ front segment, Split s.cwd front segment →
      Named segment ∨ Leads v (.directory []) (pieces front) (.directory []) := by
  obtain ⟨front, segment, split⟩ := split_exists (rooted_slash led.rooted)
  obtain ⟨above, before, behind⟩ := leads_front split leads
  have cut : ∀ fuel, Shell.cmdCd fuel [cdName, dotDot] s =
      some { s with cwd := Shell.parentDir s.cwd } := fun fuel => by simp [Shell.cmdCd]
  have there : Leads v (.directory []) (pieces (Shell.parentDir s.cwd)) (.directory above) := by
    rw [parent_dir_pieces split]
    exact before
  have parent : Denotes v (core s.fs) (Shell.parentDir s.cwd) ds.tail ↔ ds.tail = above :=
    led.to_parent.denotes_iff tree there
  have top : Leads v (.directory []) (pieces front) (.directory []) ↔ above = [] := by
    constructor
    · intro root
      exact Place.directory.inj (leads_unique before root)
    · rintro rfl
      exact before
  constructor
  · intro back front' segment' split'
    obtain ⟨rfl, rfl⟩ := split_unique split split'
    obtain ⟨_, run, denotes⟩ := back 0
    rw [cut] at run
    cases run
    rw [top]
    exact (tail_iff split.last behind).1 (parent.1 denotes)
  · intro last fuel
    refine ⟨_, cut fuel, parent.2 ((tail_iff split.last behind).2 ?_)⟩
    rw [← top]
    exact last front segment split

/-- What goes through no file goes through none before it is cut either. -/
theorem Led.clear_of_joined (led : Led v s)
    (leads : Leads v (.directory []) (pieces (joined s.cwd input)) (.directory ds)) :
    Clear v s.cwd input := by
  obtain ⟨front, segment, split⟩ := split_exists (rooted_slash (kept_rooted led.rooted input))
  intro pre post parts more found toFile
  obtain ⟨post', whole, more'⟩ :=
    pieces_front split ((joined s.cwd input).drop (shellMaxPath - 1)) parts more
  have all : kept s.cwd input ++ (joined s.cwd input).drop (shellMaxPath - 1) =
      joined s.cwd input := List.take_append_drop _ _
  rw [all] at whole
  exact clear_of_leads leads pre post' whole more' found toFile

theorem Led.goes_back_iff (led : Led v s) (tree : Tree v) {fuel : Nat}
    (found : Fat32.Operations.stat fuel (kept s.cwd input) s.fs = some (2, s'.fs))
    (cwd : s'.cwd = kept s.cwd input) : GoesBack v s s' input ↔ Conforms v s.cwd input := by
  constructor
  · rintro ⟨ds, names, denotes, back⟩
    have whole := (led.names_iff tree).1 names
    have clear := led.clear_of_joined whole
    have led' := led.moved tree clear found cwd
    obtain ⟨ds', leads⟩ := led'.place
    obtain rfl := (led'.denotes_iff tree leads).1 denotes
    have last := (led'.back_iff tree leads).1 back
    rw [cwd] at leads last
    exact ⟨clear, ⟨_, leads, whole⟩, last⟩
  · intro conforms
    have led' := led.moved tree conforms.clear found cwd
    obtain ⟨ds, leads⟩ := led'.place
    have last := conforms.last
    obtain ⟨place, fits, whole⟩ := conforms.whole
    rw [← cwd] at fits last
    obtain rfl := leads_unique leads fits
    exact ⟨ds, (led.names_iff tree).2 whole, (led'.denotes_iff tree leads).2 rfl,
      (led'.back_iff tree leads).2 last⟩

/-- In a run of `cd` commands that go through no file, a further one that succeeds leads where its
argument says, and `cd ..` behind it to the parent, exactly when it conforms. -/
theorem change_directory_iff {start : Shell} {command : Command} {name : List UInt8}
    {rest : List (List UInt8)} {fs : Fat32Filesystem} (tree : Tree v)
    (stands : Stands anyFailure start.fs v) (top : start.cwd = [charSlash])
    (run : Run step (Passes v) start s) (words : command.args = name :: input :: rest)
    (other : input ≠ dotDot) (next : step s command = some s')
    (succeeds : Fat32.Operations.stat command.fuel (Shell.resolvePath s.cwd input shellMaxPath)
      s.fs = some (2, fs)) : GoesBack v s s' input ↔ Conforms v s.cwd input := by
  have first : Led v start := by
    refine ⟨stands, ?_, ?_, [], ?_⟩
    · rw [top]
      rfl
    · rw [top]
      decide
    · rw [top]
      rfl
  have led := run.invariant (Led v) first fun _ _ _ led passes next => led.step tree passes next
  have moved := next
  unfold step at moved
  rw [words] at moved
  rw [resolve_path_take] at succeeds
  obtain ⟨kind, found, outcome⟩ := cd_cases other moved
  obtain ⟨rfl, -⟩ := Prod.mk.inj (Option.some.inj (succeeds.symm.trans found))
  obtain ⟨missing, _⟩ | ⟨_, cwd⟩ := outcome
  · exact absurd rfl missing
  · exact led.goes_back_iff tree found cwd

def home : Shell := ⟨[charSlash], smallVolume, []⟩

/-- `D`, and `D/`. -/
def nameD : List UInt8 := [0x44]
def nameDSlash : List UInt8 := [0x44, charSlash]

theorem home_led : Led (volumeOf smallVolume) home where
  stands := stands_any small_volume_stands
  rooted := rfl
  short := by decide
  place := ⟨[], rfl⟩

theorem one_component_clear {name : List UInt8} (only : pieces (kept s.cwd input) = [name]) :
    Clear v s.cwd input := by
  intro pre post parts more found toFile
  rw [only] at parts
  cases pre with
  | nil => cases toFile
  | cons other pre =>
      have tails := (List.cons.inj parts).2
      exact more (List.append_eq_nil_iff.1 tails.symm).2

/-- `cd D` and `cd ..`. -/
theorem name_goes_back : ∃ s' fs, step home ⟨4, [cdName, nameD]⟩ = some s' ∧
    Fat32.Operations.stat 4 (Shell.resolvePath home.cwd nameD shellMaxPath) home.fs =
      some (2, fs) ∧ GoesBack (volumeOf smallVolume) home s' nameD := by
  have answer : (Fat32.Operations.stat 4 (kept home.cwd nameD) smallVolume).map Prod.fst =
      some 2 := by decide +kernel
  obtain ⟨⟨_, fs⟩, found, rfl⟩ := Option.map_eq_some_iff.1 answer
  have path : Shell.resolvePath home.cwd nameD shellMaxPath = kept home.cwd nameD :=
    resolve_path_take home.cwd nameD shellMaxPath
  have next : step home ⟨4, [cdName, nameD]⟩ = _ := cd_moves (by decide) found
  have only : pieces (kept home.cwd nameD) = [nameD] := by decide
  have clear : Clear (volumeOf smallVolume) home.cwd nameD := one_component_clear only
  refine ⟨_, fs, next, path ▸ found, ?_⟩
  refine (change_directory_iff small_volume_tree (stands_any small_volume_stands) rfl .start rfl
    (by decide) next (path ▸ found)).2 ⟨clear, ?_, ?_⟩
  · have split := short_components (kept_short home.cwd nameD)
    obtain ⟨ds, leads⟩ := (stat_goes small_volume_tree small_volume_stands split clear found).2 rfl
    exact ⟨_, leads, leads⟩
  · intro front segment split
    have here : Split (kept home.cwd nameD) [] nameD := ⟨rfl, by decide⟩
    obtain ⟨rfl, rfl⟩ := split_unique here split
    exact .inl ⟨by decide, by decide, by decide⟩

/-- `cd D/` and `cd ..`: the slash at the end is all that is cut. -/
theorem trailing_slash_stays : Tree (volumeOf smallVolume) ∧
    Stands anyFailure home.fs (volumeOf smallVolume) ∧ ∃ s' fs,
      step home ⟨4, [cdName, nameDSlash]⟩ = some s' ∧
      Fat32.Operations.stat 4 (Shell.resolvePath home.cwd nameDSlash shellMaxPath) home.fs =
        some (2, fs) ∧ ¬ GoesBack (volumeOf smallVolume) home s' nameDSlash := by
  have answer : (Fat32.Operations.stat 4 (kept home.cwd nameDSlash) smallVolume).map Prod.fst =
      some 2 := by decide +kernel
  obtain ⟨⟨_, fs⟩, found, rfl⟩ := Option.map_eq_some_iff.1 answer
  have path : Shell.resolvePath home.cwd nameDSlash shellMaxPath = kept home.cwd nameDSlash :=
    resolve_path_take home.cwd nameDSlash shellMaxPath
  have next : step home ⟨4, [cdName, nameDSlash]⟩ = _ := cd_moves (by decide) found
  refine ⟨small_volume_tree, home_led.stands, _, fs, next, path ▸ found, ?_⟩
  rw [home_led.goes_back_iff small_volume_tree found rfl]
  intro conforms
  have here : Split (kept home.cwd nameDSlash) [charSlash, 0x44] [] := ⟨rfl, by decide⟩
  rcases conforms.last _ _ here with named | root
  · exact named.nonempty rfl
  · have only : pieces [charSlash, 0x44] = [nameD] := by decide
    rw [only] at root
    obtain ⟨_, move, rfl⟩ := root
    cases move

end Result

end CassiOS.Userland.WorkingDirectory
