import CassiOS.Fat32.SettledLookups

/-!
# Where creating and removing act

`resolveParentPath` cuts a path at its last `/` and copies both parts into buffers of 256
bytes. Whether `createDirectory`, `remove` and `open` act where the path says depends on what
the copies leave out.
-/

namespace CassiOS.Fat32.ParentPaths

open CassiOS.Support.PartialProgram
open CassiOS.Fat32.Types
open CassiOS.Fat32.Names
open CassiOS.Fat32.Device
open CassiOS.Fat32.Cache
open CassiOS.Fat32.Filesystem
open CassiOS.Fat32.Operations
open CassiOS.Fat32.VolumeModel
open CassiOS.Fat32.ReadOnly
open CassiOS.Fat32.LookupTermination
open CassiOS.Fat32.PathWalk
open CassiOS.Fat32.SettledLookups

set_option autoImplicit false

section Laws

/-- The parts of a path before and behind its last `/`. -/
structure Split (path parent name : List UInt8) : Prop where
  whole : path = parent ++ charSlash :: name
  last : charSlash ∉ name

/-- On the disk `d` the path leads to the cluster: `resolvePath` yields it in every state of this
content in which nothing fails. -/
def Resolves (d : Fat32Filesystem) (path : List UInt8) (cluster : Nat) : Prop :=
  ∃ fuel out out', Runs (Reading noFailure) (resolvePath fuel path out) d (some (cluster, out')) d

/-- The same in the way of `resolveParentPath`, which asks for the attribute of a directory. -/
def ResolvesToDirectory (d : Fat32Filesystem) (path : List UInt8) (cluster : Nat) : Prop :=
  ∃ fuel out, Runs (Reading noFailure) (junkOut >>= resolvePath fuel path) d
    (some (cluster, out)) d ∧ isDirectory out.entry = true

/-- The directory that the path names the parent of its last part, and that part. -/
def Target (d : Fat32Filesystem) (path : List UInt8) (cluster : Nat) (name : List UInt8) : Prop :=
  ∃ parent, Split path parent name ∧
    if parent = [] then cluster = d.rootCluster else Resolves d parent cluster

inductive CutHarmless (d : Fat32Filesystem) (parent name : List UInt8) : Prop
  /-- Both parts fit. -/
  | fits (parentFits : parent.length ≤ 255) (nameFits : name.length ≤ 255)
  /-- What is left of the parent part leads to no directory. -/
  | nowhere (below : parent ≠ []) (none : ∀ c, ¬ ResolvesToDirectory d (parent.take 255) c)
  /-- It leads to the directory that the whole parent part names. -/
  | same (below : parent ≠ []) (nameFits : name.length ≤ 255)
      (agree : ∀ c, ResolvesToDirectory d (parent.take 255) c → Resolves d parent c)

def Harmless (d : Fat32Filesystem) (path : List UInt8) : Prop :=
  ∀ parent name, Split path parent name → CutHarmless d parent name

/-- No sector and no field but the handle table differs. -/
def Untouched (d : Fat32Filesystem) (s : Fat32Filesystem) : Prop :=
  ∃ handles, core s = { d with handles := handles }

/-- What follows a creation in `open`: the entry is read back, and on a full table the path is
resolved once more, in the state `t` of that moment, and what it names then is removed. -/
inductive Afterwards (fuel : Nat) (path : List UInt8) :
    Option (Nat × Nat) → Fat32Filesystem → Fat32Filesystem → Prop
  | failed (s : Fat32Filesystem) : Afterwards fuel path none s s
  | kept {cluster offset : Nat} {answer : Option DirEntry} {s t : Fat32Filesystem}
      (read : readBack cluster offset s = some (answer, t)) (handles : List FileHandle) :
      Afterwards fuel path (some (cluster, offset)) s { t with handles := handles }
  | unresolved {cluster offset : Nat} {entry : DirEntry} {s t t' : Fat32Filesystem}
      (read : readBack cluster offset s = some (some entry, t))
      (fails : resolveParentPath fuel path maxName t = some (none, t')) :
      Afterwards fuel path (some (cluster, offset)) s t'
  | undone {cluster offset parent : Nat} {entry : DirEntry} {s t t₁ t' : Fat32Filesystem}
      {name : List UInt8} {removed : Bool}
      (read : readBack cluster offset s = some (some entry, t))
      (found : resolveParentPath fuel path maxName t = some (some (parent, name), t₁))
      (names : Transparent t → Harmless (core t) path → Target (core t) path parent name)
      (removes : removeEntry fuel parent name t₁ = some (removed, t')) :
      Afterwards fuel path (some (cluster, offset)) s t'

/-- In all states with the content of `s₀`, `resolveParentPath` and the operations that rest on
it act where the path says, whatever fails. -/
structure ActsWhereNamed (s₀ : Fat32Filesystem) (path : List UInt8) : Prop where
  parent : ∀ s, Transparent s → core s = core s₀ → ∀ fuel cluster name s',
    resolveParentPath fuel path maxName s = some (some (cluster, name), s') →
      Target (core s₀) path cluster name
  createDirectory : ∀ s, Transparent s → core s = core s₀ → ∀ fuel answer s',
    Operations.createDirectory fuel path s = some (answer, s') →
      Untouched (core s₀) s' ∧ answer = false ∨ ∃ cluster name s₁ found,
        Target (core s₀) path cluster name ∧ core s₁ = core s₀ ∧
          createEntry fuel cluster name DirAttr.directory s₁ = some (found, s') ∧
            answer = found.isSome
  remove : ∀ s, Transparent s → core s = core s₀ → ∀ fuel answer s',
    Operations.remove fuel path s = some (answer, s') →
      Untouched (core s₀) s' ∧ answer = false ∨ ∃ cluster name s₁,
        Target (core s₀) path cluster name ∧ core s₁ = core s₀ ∧
          removeEntry fuel cluster name s₁ = some (answer, s')
  openCreate : ∀ s, Transparent s → core s = core s₀ → ∀ fuel handle s',
    Operations.open fuel path true s = some (handle, s') →
      Untouched (core s₀) s' ∨ ∃ cluster name s₁ found s₂,
        Target (core s₀) path cluster name ∧ core s₁ = core s₀ ∧
          createEntry fuel cluster name DirAttr.archive s₁ = some (found, s₂) ∧
            Afterwards fuel path found s₂ s'

end Laws

section Splitting

variable {path parent name : List UInt8}

theorem last_slash_absent (absent : charSlash ∉ path) (i : Nat) (found : Option Nat) :
    lastSlashFrom path i found = found := by
  induction path generalizing i found with
  | nil => rfl
  | cons c rest ih =>
      have other : ¬ c = charSlash := fun same => absent (same ▸ List.mem_cons_self)
      simp only [lastSlashFrom, if_neg other]
      exact ih (fun member => absent (List.mem_cons_of_mem c member)) _ _

theorem last_slash_split (absent : charSlash ∉ name) (parent : List UInt8) (i : Nat)
    (found : Option Nat) :
    lastSlashFrom (parent ++ charSlash :: name) i found = some (i + parent.length) := by
  induction parent generalizing i found with
  | nil =>
      simp only [List.nil_append, lastSlashFrom, if_true]
      exact last_slash_absent absent _ _
  | cons c rest ih =>
      simp only [List.cons_append, lastSlashFrom, List.length_cons]
      rw [ih]
      congr 1
      omega

theorem split_exists (slash : charSlash ∈ path) : ∃ parent name, Split path parent name := by
  induction path with
  | nil => exact absurd slash List.not_mem_nil
  | cons c rest ih =>
      by_cases later : charSlash ∈ rest
      · obtain ⟨parent, name, split⟩ := ih later
        refine ⟨c :: parent, name, ?_, split.last⟩
        rw [split.whole]
        rfl
      · have here := (List.mem_cons.1 slash).resolve_right later
        exact ⟨[], rest, by rw [here]; rfl, later⟩

theorem split_unique {parent' name' : List UInt8} (split : Split path parent name)
    (split' : Split path parent' name') : parent' = parent ∧ name' = name := by
  have place := last_slash_split split.last parent 0 none
  have place' := last_slash_split split'.last parent' 0 none
  rw [← split.whole] at place
  rw [← split'.whole, place] at place'
  have lengths : parent'.length = parent.length := by
    have same := Option.some.inj place'
    omega
  have parts := List.append_inj (split'.whole.symm.trans split.whole) lengths
  exact ⟨parts.1, (List.cons.inj parts.2).2⟩

end Splitting

section Parent

variable {faults : Faults} {d s s' : Fat32Filesystem} {fuel cluster : Nat}
  {path parent name given : List UInt8}

theorem name_room : nameRoom maxName = 255 := by decide

theorem resolve_parent_root (split : Split path [] name) (fuel : Nat) (s : Fat32Filesystem) :
    resolveParentPath fuel path maxName s = some (some (s.rootCluster, name.take 255), s) := by
  have place := last_slash_split split.last [] 0 none
  rw [← split.whole] at place
  unfold resolveParentPath
  rw [place, name_room, split.whole]
  rfl

/-- The last step of `resolveParentPath`. -/
def checkParent (name : List UInt8) : Option (Nat × PathOut) → Fs (Option (Nat × List UInt8))
  | none => pure none
  | some reached =>
      if isDirectory reached.2.entry then pure (some (reached.1, name)) else pure none

theorem check_parent_directory {reached : Nat × PathOut}
    (directory : isDirectory reached.2.entry = true) :
    checkParent name (some reached) = pure (some (reached.1, name)) := if_pos directory

theorem check_parent_other {reached : Nat × PathOut}
    (other : ¬ isDirectory reached.2.entry = true) :
    checkParent name (some reached) = pure none := if_neg other

theorem resolve_parent_below (split : Split path parent name) (below : parent ≠ [])
    (fuel : Nat) : resolveParentPath fuel path maxName =
      (junkOut >>= resolvePath fuel (parent.take 255)) >>= checkParent (name.take 255) := by
  have place := last_slash_split split.last parent 0 none
  rw [← split.whole, Nat.zero_add] at place
  obtain ⟨k, length⟩ := Nat.exists_eq_succ_of_ne_zero
    (fun none => below (List.eq_nil_of_length_eq_zero none))
  have copied : path.take (min (maxPath - 1) (k + 1)) = parent.take 255 := by
    rw [split.whole, ← List.take_take, ← Nat.succ_eq_add_one, ← length, List.take_left]
    rfl
  have rest : path.drop (k + 2) = name := by
    rw [split.whole, List.append_cons]
    apply List.drop_left'
    rw [List.length_append, length]
    rfl
  funext s
  unfold resolveParentPath
  rw [place, length, name_room]
  dsimp only
  rw [copied, rest, bind_assoc]
  exact congrFun (bind_congr fun out => bind_congr fun answer => by cases answer <;> rfl) s

theorem resolve_parent_path_settles (fuel : Nat) (path : List UInt8) :
    Lookup faults {none} (resolveParentPath fuel path maxName) d := by
  by_cases slash : charSlash ∈ path
  · obtain ⟨parent, name, split⟩ := split_exists slash
    by_cases top : parent = []
    · subst top
      apply settles_congr (g := pure (some (d.rootCluster, name.take 255)))
      · intro s reading
        rw [resolve_parent_root split, root_of_reading reading]
        rfl
      · exact settles_pure _
    · rw [resolve_parent_below split top]
      apply settles_guard
      · exact settles_step junk_out_settles fun out => resolve_path_settles fuel _ out
      · rfl
      · intro reached
        by_cases directory : isDirectory reached.2.entry = true
        · rw [check_parent_directory directory]
          exact settles_pure _
        · rw [check_parent_other directory]
          exact settles_pure none
  · apply settles_congr (g := pure none)
    · intro s _
      unfold resolveParentPath
      rw [last_slash_absent slash]
      rfl
    · exact settles_pure none

/-- Where `resolveParentPath` succeeds, its answer is that of the path cut to 255 bytes. -/
theorem resolve_parent_answers (reading : Reading faults s d)
    (run : resolveParentPath fuel path maxName s = some (some (cluster, given), s')) :
    ∃ parent name, Split path parent name ∧ given = name.take 255 ∧
      if parent = [] then cluster = d.rootCluster
      else ResolvesToDirectory d (parent.take 255) cluster := by
  by_cases slash : charSlash ∈ path
  · obtain ⟨parent, name, split⟩ := split_exists slash
    refine ⟨parent, name, split, ?_⟩
    by_cases top : parent = []
    · rw [if_pos top]
      subst top
      rw [resolve_parent_root split, reading.layout.2.2.2.2] at run
      cases run
      exact ⟨rfl, rfl⟩
    · rw [if_neg top]
      rw [resolve_parent_below split top] at run
      obtain ⟨answer, s₁, resolved, checked⟩ := bind_eq_some.1 run
      have settles : Lookup faults {none} (junkOut >>= resolvePath fuel (parent.take 255)) d :=
        settles_step junk_out_settles fun out => resolve_path_settles fuel _ out
      cases answer with
      | none => cases checked
      | some reached =>
          have runs := settles.runs reading resolved (.inr (Option.some_ne_none reached))
          by_cases directory : isDirectory reached.2.entry = true
          · rw [check_parent_directory directory] at checked
            cases checked
            exact ⟨rfl, fuel, reached.2, runs, directory⟩
          · rw [check_parent_other directory] at checked
            cases checked
  · unfold resolveParentPath at run
    rw [last_slash_absent slash] at run
    cases run

theorem resolve_parent_of_directory (split : Split path parent name) (below : parent ≠ [])
    (resolves : ResolvesToDirectory d (parent.take 255) cluster)
    (reading : Reading noFailure s d) : ∃ fuel s', resolveParentPath fuel path maxName s =
      some (some (cluster, name.take 255), s') := by
  obtain ⟨fuel, out, runs, directory⟩ := resolves
  obtain ⟨s', run, _⟩ := runs s reading
  refine ⟨fuel, s', ?_⟩
  rw [resolve_parent_below split below, bind_of_some run, check_parent_directory directory]
  rfl

theorem resolves_of_directory (resolves : ResolvesToDirectory d path cluster)
    (reading : Reading noFailure s d) : Resolves d path cluster := by
  obtain ⟨fuel, out, runs, _⟩ := resolves
  obtain ⟨s', run, _⟩ := runs s reading
  obtain ⟨junk, s₁, start, rest⟩ := bind_eq_some.1 run
  have kept := (settles_step junk_out_settles fun out => settles_pure out :
    Lookup noFailure ∅ (junkOut >>= pure) d).keeps reading start
  exact ⟨fuel, junk, out, (resolve_path_settles fuel path junk).runs kept rest
    (.inl no_failure_silent)⟩

/-- Where the copies do no harm, the answer is what the path says. -/
theorem target_of_harmless (harmless : Harmless (core s) path) (transparent : Transparent s)
    (run : resolveParentPath fuel path maxName s = some (some (cluster, given), s')) :
    Target (core s) path cluster given := by
  obtain ⟨parent, name, split, rfl, place⟩ :=
    resolve_parent_answers (reading_any transparent rfl) run
  have whole : name.length ≤ 255 → name.take 255 = name := List.take_of_length_le
  cases harmless parent name split with
  | fits parentFits nameFits =>
      refine ⟨parent, (whole nameFits).symm ▸ split, ?_⟩
      rw [List.take_of_length_le parentFits] at place
      by_cases top : parent = []
      · rw [if_pos top] at place ⊢
        exact place
      · rw [if_neg top] at place ⊢
        exact resolves_of_directory place (undisturbed_reading s)
  | nowhere below none =>
      rw [if_neg below] at place
      exact absurd place (none cluster)
  | same below nameFits agree =>
      refine ⟨parent, (whole nameFits).symm ▸ split, ?_⟩
      rw [if_neg below] at place ⊢
      exact agree cluster place

theorem name_fits_of_target (split : Split path parent name)
    (target : Target d path cluster (name.take 255)) : name.length ≤ 255 ∧
      if parent = [] then cluster = d.rootCluster else Resolves d parent cluster := by
  obtain ⟨parent', split', place⟩ := target
  obtain ⟨rfl, same⟩ := split_unique split split'
  refine ⟨?_, place⟩
  rw [← same]
  exact List.length_take_le _ _

theorem harmless_of_law
    (law : ∀ fuel cluster name s', resolveParentPath fuel path maxName (undisturbed s) =
      some (some (cluster, name), s') → Target (core s) path cluster name) :
    Harmless (core s) path := by
  intro parent name split
  by_cases top : parent = []
  · subst top
    have target := law 0 _ _ _ (resolve_parent_root split 0 _)
    exact .fits (Nat.zero_le _) (name_fits_of_target split target).1
  by_cases found : ∃ c, ResolvesToDirectory (core s) (parent.take 255) c
  · have agree : ∀ c, ResolvesToDirectory (core s) (parent.take 255) c →
        name.length ≤ 255 ∧ Resolves (core s) parent c := by
      intro c resolves
      obtain ⟨fuel, s', run⟩ :=
        resolve_parent_of_directory split top resolves (undisturbed_reading s)
      have fits := name_fits_of_target split (law fuel c _ s' run)
      rw [if_neg top] at fits
      exact fits
    obtain ⟨c, resolves⟩ := found
    exact .same top (agree c resolves).1 fun c resolves => (agree c resolves).2
  · exact .nowhere top fun c resolves => found ⟨c, resolves⟩

end Parent

section Acting

variable {s s' : Fat32Filesystem} {fuel : Nat} {path : List UInt8}

theorem parent_reading {answer : Option (Nat × List UInt8)} (transparent : Transparent s)
    (run : resolveParentPath fuel path maxName s = some (answer, s')) :
    Reading anyFailure s' (core s) :=
  (resolve_parent_path_settles fuel path).keeps (reading_any transparent rfl) run

theorem untouched_of_core {d : Fat32Filesystem} (same : core s = d) : Untouched d s :=
  ⟨d.handles, same⟩

theorem create_directory_acts (transparent : Transparent s) (harmless : Harmless (core s) path)
    {answer : Bool} (run : Operations.createDirectory fuel path s = some (answer, s')) :
    Untouched (core s) s' ∧ answer = false ∨ ∃ cluster name s₁ found,
      Target (core s) path cluster name ∧ core s₁ = core s ∧
        createEntry fuel cluster name DirAttr.directory s₁ = some (found, s') ∧
          answer = found.isSome := by
  obtain ⟨resolved, s₁, first, rest⟩ := bind_eq_some.1 run
  have reading₁ := parent_reading transparent first
  cases resolved with
  | none =>
      cases rest
      exact .inl ⟨untouched_of_core reading₁.same, rfl⟩
  | some target =>
      dsimp only at rest
      by_cases empty : target.2 = []
      · rw [if_pos empty] at rest
        cases rest
        exact .inl ⟨untouched_of_core reading₁.same, rfl⟩
      rw [if_neg empty] at rest
      obtain ⟨old, s₂, search, rest⟩ := bind_eq_some.1 rest
      have reading₂ := (find_entry_settles fuel target.1 target.2).keeps reading₁ search
      cases old with
      | some found =>
          cases rest
          exact .inl ⟨untouched_of_core reading₂.same, rfl⟩
      | none =>
          obtain ⟨found, s₃, created, last⟩ := bind_eq_some.1 rest
          cases last
          exact .inr ⟨target.1, target.2, s₂, found,
            target_of_harmless harmless transparent first, reading₂.same, created, rfl⟩

theorem remove_acts (transparent : Transparent s) (harmless : Harmless (core s) path)
    {answer : Bool} (run : Operations.remove fuel path s = some (answer, s')) :
    Untouched (core s) s' ∧ answer = false ∨ ∃ cluster name s₁,
      Target (core s) path cluster name ∧ core s₁ = core s ∧
        removeEntry fuel cluster name s₁ = some (answer, s') := by
  unfold Operations.remove at run
  by_cases root : path = [charSlash]
  · rw [if_pos root] at run
    cases run
    exact .inl ⟨untouched_of_core rfl, rfl⟩
  rw [if_neg root] at run
  obtain ⟨resolved, s₁, first, rest⟩ := bind_eq_some.1 run
  have reading₁ := parent_reading transparent first
  cases resolved with
  | none =>
      cases rest
      exact .inl ⟨untouched_of_core reading₁.same, rfl⟩
  | some target =>
      dsimp only at rest
      by_cases empty : target.2 = []
      · rw [if_pos empty] at rest
        cases rest
        exact .inl ⟨untouched_of_core reading₁.same, rfl⟩
      · rw [if_neg empty] at rest
        exact .inr ⟨target.1, target.2, s₁, target_of_harmless harmless transparent first,
          reading₁.same, rest⟩

theorem open_found_untouched {out : PathOut} {handle : Nat}
    (run : openEntry fuel path false out s = some (handle, s')) :
    ∃ handles, s' = { s with handles := handles } := by
  unfold openEntry at run
  by_cases directory : isDirectory out.entry = true
  · rw [if_pos directory] at run
    cases run
    exact ⟨s.handles, rfl⟩
  rw [if_neg directory] at run
  cases free : s.handles.findIdx? fun fh => !fh.inUse with
  | some i =>
      rw [free] at run
      cases run
      exact ⟨_, rfl⟩
  | none =>
      rw [free] at run
      cases run
      exact ⟨s.handles, rfl⟩

theorem open_created_afterwards {cluster offset : Nat} {entry : DirEntry} {handle : Nat}
    {t : Fat32Filesystem} (read : readBack cluster offset s = some (some entry, t))
    (run : openEntry fuel path true ⟨entry, cluster, offset⟩ t = some (handle, s')) :
    Afterwards fuel path (some (cluster, offset)) s s' := by
  unfold openEntry at run
  dsimp only at run
  by_cases directory : isDirectory entry = true
  · rw [if_pos directory] at run
    cases run
    exact .kept read s'.handles
  rw [if_neg directory] at run
  cases free : t.handles.findIdx? fun fh => !fh.inUse with
  | some i =>
      rw [free] at run
      cases run
      exact .kept read _
  | none =>
      rw [free] at run
      dsimp only at run
      rw [if_pos rfl] at run
      obtain ⟨resolved, t₁, first, rest⟩ := bind_eq_some.1 run
      cases resolved with
      | none =>
          cases rest
          exact .unresolved read first
      | some target =>
          obtain ⟨removed, t₂, removes, last⟩ := bind_eq_some.1 rest
          cases last
          exact .undone read first
            (fun transparent harmless => target_of_harmless harmless transparent first) removes

theorem open_create_acts (transparent : Transparent s) (harmless : Harmless (core s) path)
    {handle : Nat} (run : Operations.open fuel path true s = some (handle, s')) :
    Untouched (core s) s' ∨ ∃ cluster name s₁ found s₂,
      Target (core s) path cluster name ∧ core s₁ = core s ∧
        createEntry fuel cluster name DirAttr.archive s₁ = some (found, s₂) ∧
          Afterwards fuel path found s₂ s' := by
  obtain ⟨out, s₀, start, rest⟩ := bind_eq_some.1 run
  cases start
  obtain ⟨resolved, s₁, first, rest⟩ := bind_eq_some.1 rest
  have reading₁ := (resolve_path_settles fuel path _).keeps (reading_any transparent rfl) first
  cases resolved with
  | some reached =>
      obtain ⟨handles, same⟩ := open_found_untouched rest
      refine .inl ⟨handles, ?_⟩
      rw [same, ← reading₁.same]
      rfl
  | none =>
      dsimp only at rest
      rw [if_pos rfl] at rest
      obtain ⟨made, s₃, creation, rest⟩ := bind_eq_some.1 rest
      obtain ⟨parent, s₂, second, creation⟩ := bind_eq_some.1 creation
      have reading₂ := (resolve_parent_path_settles fuel path).keeps reading₁ second
      cases parent with
      | none =>
          cases creation
          cases rest
          exact .inl (untouched_of_core reading₂.same)
      | some target =>
          dsimp only at creation
          by_cases empty : target.2 = []
          · rw [if_pos empty] at creation
            cases creation
            cases rest
            exact .inl (untouched_of_core reading₂.same)
          rw [if_neg empty] at creation
          obtain ⟨found, t, created, back⟩ := bind_eq_some.1 creation
          rw [← reading₁.same] at harmless
          have named := target_of_harmless harmless reading₁.transparent second
          rw [reading₁.same] at named
          refine .inr ⟨target.1, target.2, s₂, found, t, named, reading₂.same, created, ?_⟩
          cases found with
          | none =>
              cases back
              cases rest
              exact .failed _
          | some place =>
              obtain ⟨entry, t₁, read, back⟩ := bind_eq_some.1 back
              cases entry with
              | none =>
                  cases back
                  cases rest
                  exact .kept read _
              | some entry =>
                  cases back
                  exact open_created_afterwards read rest

end Acting

section Result

/-- `resolveParentPath` and what rests on it act where the path says exactly when the copies of
its two parts do no harm. -/
theorem acts_where_named_iff (s₀ : Fat32Filesystem) (path : List UInt8) :
    ActsWhereNamed s₀ path ↔ Harmless (core s₀) path := by
  constructor
  · intro acts
    apply harmless_of_law
    exact acts.parent (undisturbed s₀) (undisturbed_reading s₀).transparent rfl
  · intro harmless
    constructor
    · intro s transparent same fuel cluster name s' run
      rw [← same] at harmless ⊢
      exact target_of_harmless harmless transparent run
    · intro s transparent same fuel answer s' run
      rw [← same] at harmless ⊢
      exact create_directory_acts transparent harmless run
    · intro s transparent same fuel answer s' run
      rw [← same] at harmless ⊢
      exact remove_acts transparent harmless run
    · intro s transparent same fuel handle s' run
      rw [← same] at harmless ⊢
      exact open_create_acts transparent harmless run

theorem harmless_of_fits {d : Fat32Filesystem} {path : List UInt8}
    (fits : path.length ≤ 256) : Harmless d path := by
  intro parent name split
  have lengths := congrArg List.length split.whole
  rw [List.length_append, List.length_cons] at lengths
  exact .fits (by omega) (by omega)

/-- A file name of 300 bytes in the root directory. -/
def longPath : List UInt8 := charSlash :: List.replicate 300 0x61

theorem long_path_split : Split longPath [] (List.replicate 300 0x61) where
  whole := rfl
  last := by
    intro member
    have byte := List.eq_of_mem_replicate member
    exact absurd byte (by decide)

/-- On a well-formed volume the name is cut to 255 bytes. -/
theorem long_path_misplaced :
    Tree (volumeOf smallVolume) ∧ ¬ ActsWhereNamed smallVolume longPath := by
  refine ⟨small_volume_tree, fun acts => ?_⟩
  have steady := small_volume_stands.steady.transparent
  have target := acts.parent smallVolume steady rfl 0 _ _ _
    (resolve_parent_root long_path_split 0 smallVolume)
  have fits := (name_fits_of_target long_path_split target).1
  rw [List.length_replicate] at fits
  omega

end Result

end CassiOS.Fat32.ParentPaths
