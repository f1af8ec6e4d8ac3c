import CassiOS.Userland.FilesystemService
import CassiOS.Userland.ShellFiles
import CassiOS.Userland.WorkingDirectory

/-!
# Listing a directory in the shell

`cmdLs` with the client of the terminal. The command asks for the entries by number, each time
with the whole path, until the service knows no more, and its buffer takes 31 characters of a
name.
-/

namespace CassiOS.Userland.ShellListing

open CassiOS.Support.PartialProgram
open CassiOS.Support.Chain
open CassiOS.Fat32.Cache (core)
open CassiOS.Fat32.Device
open CassiOS.Fat32.DirectoryModel
open CassiOS.Fat32.FatModel
open CassiOS.Fat32.FileModel
open CassiOS.Fat32.Filesystem
open CassiOS.Fat32.LookupTermination
open CassiOS.Fat32.Names
open CassiOS.Fat32.Operations
open CassiOS.Fat32.ParentPaths
open CassiOS.Fat32.PathNormalisation
open CassiOS.Fat32.PathWalk
open CassiOS.Fat32.ReadOnly
open CassiOS.Fat32.SettledLookups
open CassiOS.Fat32.Types
open CassiOS.Fat32.VolumeModel
open CassiOS.Userland.ChangeDirectory (Shell.resolvePath copyTo copy_to_take joined
  resolve_path_take shellMaxPath)
open CassiOS.Userland.WorkingDirectory (short_components stat_goes)
open CassiOS.Userland.DirectoryListing (listBufSize)
open CassiOS.Userland.FilesystemService
open CassiOS.Userland.Messages
open CassiOS.Userland.ShellFiles (delivered shown text_typed)
open CassiOS.Userland.ShellInput (TerminalCall charNewline)
open CassiOS.Userland.TerminalGrid (Op)
open CassiOS.Userland.TerminalScreen (opsOf requested dataBufSize)
open CassiOS.Userland.VfsService

set_option autoImplicit false

section Source

/-- `sizeof(name)` in `cmdLs`. -/
def nameSize : UInt32 := 32

/-- `"ls: no such directory: "`. -/
def noSuchDirectory : List UInt8 :=
  "ls: no such directory: ".toList.map fun ch => UInt8.ofNat ch.toNat

def lsPath (cwd : Chars) : List Chars → Chars
  | _ :: arg :: _ => Shell.resolvePath cwd arg shellMaxPath
  | _ => copyTo cwd shellMaxPath

/-- The loop of `cmdLs` from the entry `i` on. -/
def lsLoop (fuel : Nat) (pid : UInt32) (path : Chars) (stack : Buf) :
    Nat → UInt32 → Buf → Service → Option (List TerminalCall × Service)
  | 0, _, _, _ => none
  | rounds + 1, i, name, service => do
      let ((found, name), service) ← Vfs.list fuel pid path i name nameSize stack service
      if found then do
        let (calls, service) ← lsLoop fuel pid path stack rounds (i + 1) name service
        let text := contents ((List.range nameSize.toNat).map name)
        pure (.write text :: .putchar charNewline :: calls, service)
      else pure ([], service)

def cmdLs (fuel rounds : Nat) (pid : UInt32) (cwd : Chars) (args : List Chars) (name stack : Buf)
    (service : Service) : Option (List TerminalCall × Service) := do
  let path := lsPath cwd args
  let (kind, service) ← Vfs.stat fuel pid path service
  if kind ≠ 2 then
    pure ([.write noSuchDirectory, .write path, .putchar charNewline], service)
  else lsLoop fuel pid path stack rounds 0 name service

end Source

section Resolution

variable {v : Volume} {s t : Fat32Filesystem} {path : List UInt8} {ds cs : List Nat}

/-- A path says itself that it leads to a directory: it is the root, or it has a name in it. -/
def Telling (path : List UInt8) : Prop :=
  path = [charSlash] ∨ ∃ piece ∈ pieces path, piece ≠ [charDot] ∧ piece ≠ [charDot, charDot]

theorem walked_entry {out entry : PathOut} {names : List (List UInt8)}
    (walked : Walked v out names ds entry)
    (named : ∃ name ∈ names, name ≠ [charDot] ∧ name ≠ [charDot, charDot]) :
    isDirectory entry.entry = true := by
  induction walked with
  | start =>
      obtain ⟨name, member, _⟩ := named
      cases member
  | stay before ih =>
      obtain ⟨name, member, dot, dots⟩ := named
      rcases List.mem_append.1 member with old | new
      · exact ih ⟨name, old, dot, dots⟩
      · exact absurd (List.mem_singleton.1 new) dot
  | top before ih =>
      obtain ⟨name, member, dot, dots⟩ := named
      rcases List.mem_append.1 member with old | new
      · exact ih ⟨name, old, dot, dots⟩
      · exact absurd (List.mem_singleton.1 new) dots
  | up before ih => exact is_directory_synthetic _
  | down before dot dots chain located kind ih => exact kind

/-- In every state of the disk in which nothing fails the path leads to the cluster, and the entry
that is stored is that of a directory. -/
def LeadsTo (d : Fat32Filesystem) (fuel : Nat) (path : List UInt8) (cluster : Nat)
    (entry : PathOut) : Prop :=
  isDirectory entry.entry = true ∧
    Runs (Reading noFailure) (resolvePath fuel path (junkOf d)) d (some (cluster, entry)) d

theorem leads_to_directory (tree : Tree v) (stands : Stands noFailure s v) (nonempty : path ≠ [])
    (split : components path = pieces path) (telling : Telling path)
    (leads : Leads v (.directory []) (pieces path) (.directory ds)) :
    ∃ n entry, ∀ fuel, n ≤ fuel →
      LeadsTo (core s) fuel path (ds.headD v.rootCluster) entry := by
  by_cases root : path = [charSlash]
  · subst root
    cases leads
    refine ⟨0, { junkOf (core s) with entry := syntheticDir v.rootCluster }, fun fuel _ =>
      ⟨is_directory_synthetic _, fun t reading => ⟨t, ?_, reading⟩⟩⟩
    have top : t.rootCluster = v.rootCluster :=
      reading.layout.2.2.2.2.trans (core_root stands)
    rw [← top]
    rfl
  · obtain ⟨entry, walked⟩ := leads_walked (junkOf (core s)) leads
    obtain ⟨n, runs⟩ := walked_runs stands tree walked
    obtain ⟨fuel, answer⟩ := (answer_iff ⟨nonempty, root⟩ split).2 ⟨n, runs n (Nat.le_refl n)⟩
    refine ⟨fuel, entry, fun more enough => ⟨walked_entry walked (telling.resolve_left root), ?_⟩⟩
    exact runs_of_below
      (below_of_le (fun k => below_resolve_path k path (junkOf (core s))) enough) answer

theorem resolve_stands (tree : Tree v) (stands : Stands noFailure s v)
    (split : components path = pieces path)
    (leads : Leads v (.directory []) (pieces path) (.directory ds)) {fuel : Nat} {out : PathOut}
    {answer : Option (Nat × PathOut)} (run : resolvePath fuel path out s = some (answer, t)) :
    Stands noFailure t v := by
  unfold resolvePath at run
  by_cases empty : path = []
  · rw [if_pos empty] at run
    cases run
    exact stands
  by_cases root : path = [charSlash]
  · rw [if_neg empty, if_pos root] at run
    cases run
    exact stands
  rw [if_neg empty, if_neg root] at run
  dsimp only at run
  rw [walk_path_eq, stands.root] at run
  have walk : walkComponents fuel (components path) v.rootCluster out s = _ := run
  rw [split] at walk
  obtain ⟨_, stands', rfl, _⟩ := walk_components_goes tree (few_clusters stands) fuel out .root
    (clear_of_leads leads) s stands _ _ walk
  exact stands'

end Resolution

section Requests

variable {v : Volume} {d s : Fat32Filesystem} {path : List UInt8} {ds cs : List Nat} {fuel c : Nat}
  {entry : PathOut}

/-- Nothing is going to fail, and volume and disk are these. -/
structure Quiet (v : Volume) (d s : Fat32Filesystem) : Prop where
  stands : Stands noFailure s v
  same : core s = d

theorem Quiet.reading (quiet : Quiet v d s) : Reading noFailure s d :=
  quiet.same ▸ stands_reading quiet.stands

/-- The path leads along the tree to the directory `ds`, and is resolved so. -/
structure Reached (v : Volume) (d : Fat32Filesystem) (fuel : Nat) (path : List UInt8)
    (ds : List Nat) (entry : PathOut) : Prop where
  nonempty : path ≠ []
  split : components path = pieces path
  leads : Leads v (.directory []) (pieces path) (.directory ds)
  resolved : LeadsTo d fuel path (ds.headD v.rootCluster) entry

theorem Quiet.resolve (quiet : Quiet v d s) (tree : Tree v)
    (reached : Reached v d fuel path ds entry) :
    ∃ t, resolvePath fuel path (junkOf d) s = some (some (ds.headD v.rootCluster, entry), t) ∧
      Quiet v d t := by
  obtain ⟨t, run, reading⟩ := reached.resolved.2 s quiet.reading
  exact ⟨t, run, resolve_stands tree quiet.stands reached.split reached.leads run, reading.same⟩

theorem Quiet.stat (quiet : Quiet v d s) (tree : Tree v)
    (reached : Reached v d fuel path ds entry) :
    ∃ t, Fat32.Operations.stat fuel path s = some (2, t) ∧ Quiet v d t := by
  by_cases root : path = [charSlash]
  · subst root
    exact ⟨s, rfl, quiet⟩
  · obtain ⟨t, run, quiet'⟩ := quiet.resolve tree reached
    refine ⟨t, ?_, quiet'⟩
    rw [stat_walks ⟨reached.nonempty, root⟩, bind_of_some (junk_out_reading quiet.reading),
      bind_of_some run]
    unfold kindOf
    dsimp only
    rw [if_pos reached.resolved.1]
    rfl

theorem Quiet.list (quiet : Quiet v d s) (tree : Tree v)
    (reached : Reached v d fuel path ds entry) (chain : Chain v (ds.headD v.rootCluster) cs)
    (enough : cs.length < fuel) (i : Nat) :
    ∃ t, listEntry fuel path i maxName s = some (((entriesOf v cs)[i]?).map Found.name, t) ∧
      Quiet v d t := by
  obtain ⟨t, run, quiet'⟩ := quiet.resolve tree reached
  have total : Achieves (Stands noFailure) (readDirEntry fuel (ds.headD v.rootCluster) i maxName) v
      (Answers noFailure v (entriesOf v cs)[i]?) := read_dir_entry_total chain enough i
  obtain ⟨found, u, w, read, stands, unchanged, answer⟩ := total t quiet'.stands
  rw [unchanged] at stands
  have known : found = (entriesOf v cs)[i]? :=
    answer.resolve_right fun missing => no_failure_silent missing.2
  have same := ((read_dir_entry_settles fuel _ i maxName).keeps quiet'.reading read).same
  refine ⟨u, ?_, stands, same⟩
  unfold listEntry
  rw [bind_of_some (junk_out_reading quiet.reading), bind_of_some run]
  dsimp only
  rw [if_pos reached.resolved.1, bind_of_some read, known]
  rfl

end Requests

section Listing

variable {v : Volume} {d : Fat32Filesystem} {service : Service} {path : Chars} {ds cs : List Nat}
  {fuel : Nat} {pid : UInt32} {entry : PathOut}

theorem of_seen {α : Type} {run : Option (α × Service)} {a : α} {fs : Fat32Filesystem}
    (same : seen run = some (a, fs)) : ∃ service', run = some (a, service') ∧ service'.fs = fs := by
  obtain ⟨⟨b, service'⟩, returned, pair⟩ := Option.map_eq_some_iff.1 same
  obtain ⟨rfl, rfl⟩ := Prod.mk.inj pair
  exact ⟨service', returned, rfl⟩

def lineOf (name : Chars) : List UInt8 := (contents name).take 31

theorem line_copied (name : Chars) (out : Buf) :
    contents ((List.range nameSize.toNat).map (copied name (nameSize.toNat - 1) out)) =
      lineOf name := by
  have length : (lineOf name).length = min (contents name).length 31 := by
    unfold lineOf
    rw [List.length_take, Nat.min_comm]
  apply contents_of_start
  · exact fun member => no_nul_in_contents name (List.mem_of_mem_take member)
  · apply List.prefix_iff_getElem?.2
    intro i inside
    rw [List.length_append, List.length_singleton] at inside
    change ((List.range 32).map (copied name 31 out))[i]? = _
    rw [List.getElem?_map, List.getElem?_range (by omega), Option.map_some]
    unfold copied
    by_cases last : i = (lineOf name).length
    · rw [if_neg (by omega), if_pos (by omega)]
      subst last
      rw [List.getElem_concat_length]
      rfl
    · have before : i < (lineOf name).length := by omega
      have taken : (lineOf name)[i] = charAt name i :=
        List.getElem_take.trans (char_at_contents name _)
      rw [if_pos (by omega), List.getElem_append_left before, taken]

theorem stat_asked (sender : isSender pid) (fits : (contents path).length < bufSize)
    {fs : Fat32Filesystem} {kind : Nat}
    (known : Fat32.Operations.stat fuel (contents path) service.fs = some (kind, fs)) :
    ∃ service', Vfs.stat fuel pid path service = some (UInt32.ofNat kind, service') ∧
      service'.fs = fs := by
  have answer : seen (Vfs.stat fuel pid path service) =
      (Fat32.Operations.stat fuel (contents path) service.fs).map
        fun r => (UInt32.ofNat r.1, r.2) :=
    path_served sender fits fun s => rfl
  rw [known] at answer
  exact of_seen answer

theorem list_asked (sender : isSender pid) (index : UInt32) (name stack : Buf)
    (short : (contents path).length < listBufSize) {answer : Option Chars} {fs : Fat32Filesystem}
    (known : listEntry fuel (contents path) index.toNat maxName service.fs = some (answer, fs)) :
    ∃ service', Vfs.list fuel pid path index name nameSize stack service =
        some ((answer.isSome,
          answer.elim name fun text => copied text (nameSize.toNat - 1) name), service') ∧
      service'.fs = fs := by
  have served : seen (Vfs.list fuel pid path index name nameSize stack service) = _ :=
    list_served sender index name stack short (by decide) fun _ _ _ => .inr (by decide)
  rw [known] at served
  exact of_seen served

/-- The loop prints the entries from `i` on. -/
theorem ls_loop_lists (tree : Tree v) (sender : isSender pid)
    (short : (contents path).length < listBufSize)
    (reached : Reached v d fuel (contents path) ds entry)
    (chain : Chain v (ds.headD v.rootCluster) cs) (enough : cs.length < fuel)
    (few : (entriesOf v cs).length < 2 ^ 32) (stack : Buf) (rounds i : Nat)
    (inside : i ≤ (entriesOf v cs).length) (left : (entriesOf v cs).length - i < rounds)
    (name : Buf) (quiet : Quiet v d service.fs) :
    ∃ service', lsLoop fuel pid path stack rounds (UInt32.ofNat i) name service =
        some (((entriesOf v cs).drop i).flatMap fun found =>
          [.write (lineOf found.name), .putchar charNewline], service') ∧
      Quiet v d service'.fs := by
  induction rounds generalizing i name service with
  | zero => exact absurd left (Nat.not_lt_zero _)
  | succ rounds ih =>
      have position : (UInt32.ofNat i).toNat = i := by
        rw [UInt32.toNat_ofNat']
        exact Nat.mod_eq_of_lt (by omega)
      obtain ⟨fs, known, quiet'⟩ := quiet.list tree reached chain enough i
      rw [← position] at known
      obtain ⟨next, asked, rfl⟩ := list_asked sender (UInt32.ofNat i) name stack short known
      rw [position] at asked
      unfold lsLoop
      rw [asked]
      by_cases ended : i = (entriesOf v cs).length
      · subst ended
        rw [List.getElem?_eq_none (Nat.le_refl _), List.drop_length]
        exact ⟨next, rfl, quiet'⟩
      · have more : i < (entriesOf v cs).length := by omega
        rw [List.getElem?_eq_getElem more]
        obtain ⟨last, rest, quiet''⟩ := ih (i + 1) (by omega) (by omega)
          (copied (entriesOf v cs)[i].name (nameSize.toNat - 1) name) quiet'
        have later : UInt32.ofNat i + 1 = UInt32.ofNat (i + 1) := (UInt32.ofNat_add i 1).symm
        refine ⟨last, ?_, quiet''⟩
        simp only [Option.bind_eq_bind, Option.bind_some, Option.map_some, Option.isSome_some,
          Option.elim_some, if_true, later, rest, Option.pure_def, line_copied]
        rw [List.drop_eq_getElem_cons more, List.flatMap_cons]
        rfl

end Listing

section Result

variable {v : Volume} {service service' : Service} {cwd : Chars} {args : List Chars}
  {ds cs : List Nat} {pid : UInt32}

theorem contents_clean {s : Chars} (clean : 0 ∉ s) : contents s = s := by
  apply List.takeWhile_eq_self_iff.2
  intro ch member
  apply decide_eq_true
  rintro rfl
  exact clean member

/-- What the command asks for fits its buffer, and is text where its arguments are. -/
theorem ls_path_text (cwd : Chars) (args : List Chars) (clean : ∀ s ∈ cwd :: args, 0 ∉ s) :
    (lsPath cwd args).length < shellMaxPath ∧ contents (lsPath cwd args) = lsPath cwd args := by
  have taken : ∃ whole : Chars, 0 ∉ whole ∧ lsPath cwd args = whole.take (shellMaxPath - 1) := by
    have here := clean cwd List.mem_cons_self
    match args, clean with
    | [], _ => exact ⟨cwd, here, copy_to_take cwd shellMaxPath⟩
    | [_], _ => exact ⟨cwd, here, copy_to_take cwd shellMaxPath⟩
    | name :: arg :: rest, clean =>
        have text := clean arg (by simp)
        refine ⟨joined cwd arg, ?_, resolve_path_take cwd arg shellMaxPath⟩
        unfold joined
        split
        · exact text
        · split
          · simp [here, text, charSlash]
          · simp [here, text]
  obtain ⟨whole, clean, path⟩ := taken
  constructor
  · rw [path]
    exact Nat.lt_of_le_of_lt (List.length_take_le _ _) (by decide)
  · apply contents_clean
    rw [path]
    exact fun member => clean (List.mem_of_mem_take member)

theorem stat_kind {fuel kind : Nat} {path : Chars} {s t : Fat32Filesystem}
    (run : Fat32.Operations.stat fuel path s = some (kind, t)) : kind ≤ 2 := by
  by_cases empty : path = []
  · subst empty
    cases run
    exact Nat.zero_le 2
  by_cases root : path = [charSlash]
  · subst root
    cases run
    exact Nat.le_refl 2
  rw [stat_walks ⟨empty, root⟩] at run
  obtain ⟨out, _, _, rest⟩ := bind_eq_some.1 run
  obtain ⟨answer, _, _, last⟩ := bind_eq_some.1 rest
  cases last
  unfold kindOf
  cases answer with
  | none => exact Nat.zero_le 2
  | some reached =>
      dsimp only
      split <;> decide

theorem shown_lines (sender : UInt32) (stack : Buf) (entries : List Found) :
    shown sender stack (entries.flatMap fun found =>
      [.write (lineOf found.name), .putchar charNewline]) =
      (entries.flatMap fun found => lineOf found.name ++ [charNewline]).map Op.putchar := by
  induction entries with
  | nil => rfl
  | cons found rest ih =>
      have short : (lineOf found.name).length ≤ dataBufSize := by
        unfold dataBufSize
        exact Nat.le_trans (List.length_take_le _ _) (by decide)
      have line := text_typed sender stack short
      have newline : opsOf (requested (delivered sender stack (.putchar charNewline))) =
          [Op.putchar charNewline] := rfl
      unfold shown at ih ⊢
      simp only [List.flatMap_cons, List.cons_append, List.nil_append, ih, List.map_append,
        List.map_cons, List.append_assoc, newline]
      congr 1

/-- `ls` makes the terminal type the names of the directory that its path leads to, in their order
and each on a line, of a longer name 31 characters, and leaves volume and disk as they are. -/
theorem ls_types_directory (tree : Tree v) (stands : Stands noFailure service.fs v)
    (sender : isSender pid) (clean : ∀ s ∈ cwd :: args, 0 ∉ s) (telling : Telling (lsPath cwd args))
    (leads : Leads v (.directory []) (pieces (lsPath cwd args)) (.directory ds))
    (chain : Chain v (ds.headD v.rootCluster) cs) (few : (entriesOf v cs).length < 2 ^ 32)
    (name stack : Buf) (shell : UInt32) (received : Buf) :
    ∃ n, ∀ fuel rounds, n ≤ fuel → (entriesOf v cs).length < rounds →
      ∃ calls service', cmdLs fuel rounds pid cwd args name stack service =
          some (calls, service') ∧
        Stands noFailure service'.fs v ∧ core service'.fs = core service.fs ∧
        shown shell received calls = ((entriesOf v cs).flatMap fun found =>
          lineOf found.name ++ [charNewline]).map Op.putchar := by
  obtain ⟨short, text⟩ := ls_path_text cwd args clean
  have nonempty : lsPath cwd args ≠ [] := by
    intro empty
    rw [empty] at telling
    rcases telling with root | ⟨piece, member, _⟩
    · cases root
    · cases member
  have split := short_components short
  obtain ⟨n, entry, resolved⟩ := leads_to_directory tree stands nonempty split telling leads
  refine ⟨n + cs.length + 1, fun fuel rounds enough left => ?_⟩
  have reached : Reached v (core service.fs) fuel (contents (lsPath cwd args)) ds entry := by
    rw [text]
    exact ⟨nonempty, split, leads, resolved fuel (by omega)⟩
  unfold shellMaxPath at short
  obtain ⟨fs, known, quiet⟩ := (Quiet.mk stands rfl).stat tree reached
  obtain ⟨next, asked, rfl⟩ := stat_asked sender (by rw [text]; unfold bufSize; omega) known
  obtain ⟨last, run, quiet'⟩ := ls_loop_lists tree sender
    (by rw [text]; unfold listBufSize; omega) reached chain (by omega) few stack rounds 0
    (Nat.zero_le _) left name quiet
  refine ⟨_, last, ?_, quiet'.stands, quiet'.same, shown_lines shell received (entriesOf v cs)⟩
  unfold cmdLs
  dsimp only
  rw [asked]
  exact run

/-- Where there is no directory, `ls` says so. -/
theorem ls_refuses (tree : Tree v) {faults : Faults} (stands : Stands faults service.fs v)
    (sender : isSender pid) (clean : ∀ s ∈ cwd :: args, 0 ∉ s)
    (clear : NoFileInside v (.directory []) (pieces (lsPath cwd args)))
    (nowhere : ∀ ds, ¬ Leads v (.directory []) (pieces (lsPath cwd args)) (.directory ds))
    {fuel rounds : Nat} {name stack : Buf} {calls : List TerminalCall}
    (returned : cmdLs fuel rounds pid cwd args name stack service = some (calls, service')) :
    calls = [.write noSuchDirectory, .write (lsPath cwd args), .putchar charNewline] ∧
      Stands faults service'.fs v := by
  obtain ⟨short, text⟩ := ls_path_text cwd args clean
  unfold cmdLs at returned
  obtain ⟨⟨kind, next⟩, asked, rest⟩ := Option.bind_eq_some_iff.1 returned
  have answer : seen (Vfs.stat fuel pid (lsPath cwd args) service) =
      (Fat32.Operations.stat fuel (contents (lsPath cwd args)) service.fs).map
        fun r => (UInt32.ofNat r.1, r.2) := by
    refine path_served sender ?_ fun s => rfl
    rw [text]
    exact Nat.lt_trans short (by decide)
  rw [asked, text] at answer
  obtain ⟨⟨k, fs⟩, known, pair⟩ := Option.map_eq_some_iff.1 answer.symm
  obtain ⟨word, left⟩ := Prod.mk.inj pair
  dsimp only at word left
  rw [left] at known
  obtain ⟨stands', directory⟩ := stat_goes tree stands (short_components short) clear known
  have other : kind ≠ 2 := by
    intro two
    rw [← word] at two
    have small := stat_kind known
    have value := congrArg UInt32.toNat two
    rw [UInt32.toNat_ofNat', Nat.mod_eq_of_lt (by omega)] at value
    obtain ⟨ds, leads⟩ := directory value
    exact nowhere ds leads
  dsimp only at rest
  rw [if_pos other] at rest
  cases rest
  exact ⟨rfl, stands'⟩

/-- `ls` in the root directory with the directory `D` and the file `A`. -/
theorem root_listed : ∃ n, ∀ fuel rounds, n ≤ fuel → 2 < rounds → ∃ calls service',
    cmdLs fuel rounds 5 [charSlash] [] (fun _ => 0) (fun _ => 0)
        ⟨smallVolume, fun _ => 0x77⟩ = some (calls, service') ∧
      shown 7 (fun _ => 0) calls =
        ([0x44, charNewline, 0x41, charNewline] : List UInt8).map Op.putchar := by
  have names : (entriesOf (volumeOf smallVolume) [2]).map Found.name = [[0x44], [0x41]] := by
    decide +kernel
  have count : (entriesOf (volumeOf smallVolume) [2]).length = 2 := by
    have lengths := congrArg List.length names
    rwa [List.length_map] at lengths
  have stands : Stands noFailure (Service.mk smallVolume fun _ => 0x77).fs
      (volumeOf smallVolume) := small_volume_stands
  have leads : Leads (volumeOf smallVolume) (.directory []) (pieces (lsPath [charSlash] []))
      (.directory []) := rfl
  have chain : Chain (volumeOf smallVolume) (([] : List Nat).headD
      (volumeOf smallVolume).rootCluster) [2] := small_volume_chain (c := 2) (by decide)
  obtain ⟨n, lists⟩ := ls_types_directory small_volume_tree stands (show isSender 5 by decide)
    (by decide) (.inl rfl) leads chain (by rw [count]; decide) (fun _ => 0) (fun _ => 0) 7
    fun _ => 0
  refine ⟨n, fun fuel rounds enough left => ?_⟩
  obtain ⟨calls, service', run, _, _, types⟩ := lists fuel rounds enough (by rwa [count])
  refine ⟨calls, service', run, types.trans (congrArg (List.map Op.putchar) ?_)⟩
  have lines : ((entriesOf (volumeOf smallVolume) [2]).map Found.name).flatMap
      (fun name => lineOf name ++ [charNewline]) = [0x44, charNewline, 0x41, charNewline] := by
    rw [names]
    decide
  rw [List.flatMap_map] at lines
  exact lines

end Result

end CassiOS.Userland.ShellListing
