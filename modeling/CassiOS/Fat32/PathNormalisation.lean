import Mathlib.Data.List.TakeWhile
import CassiOS.Fat32.SettledLookups

/-!
# Detours in a path

A `./`, a second `/` or a `d/../` at the start of a component leads nowhere else. What
`resolvePath` makes of it is the same cluster, but not always the same entry: it stores one only
where it looks a name up or climbs, and it cuts a component that does not fit its buffer.
-/

namespace CassiOS.Fat32.PathNormalisation

open CassiOS.Support.PartialProgram
open CassiOS.Support.Chain
open CassiOS.Fat32.Types
open CassiOS.Fat32.Names
open CassiOS.Fat32.Device
open CassiOS.Fat32.Cache
open CassiOS.Fat32.Filesystem
open CassiOS.Fat32.Operations
open CassiOS.Fat32.VolumeModel
open CassiOS.Fat32.FatModel
open CassiOS.Fat32.FileModel
open CassiOS.Fat32.DirectoryModel
open CassiOS.Fat32.ReadOnly
open CassiOS.Fat32.LookupTermination
open CassiOS.Fat32.PathWalk
open CassiOS.Fat32.SettledLookups

set_option autoImplicit false

section Pieces

def pieces (path : List UInt8) : List (List UInt8) :=
  (path.splitOn charSlash).filter fun piece => decide (piece ≠ [])

def Boundary (front : List UInt8) : Prop := front = [] ∨ ∃ before, front = before ++ [charSlash]

variable {path front behind piece : List UInt8}

theorem pieces_append (front behind : List UInt8) :
    pieces (front ++ charSlash :: behind) = pieces front ++ pieces behind := by
  unfold pieces
  rw [List.splitOn_append_cons_self, List.filter_append]

theorem pieces_nil : pieces [] = [] := by decide

theorem pieces_slash (behind : List UInt8) : pieces (charSlash :: behind) = pieces behind :=
  pieces_append [] behind

theorem pieces_plain (nonempty : piece ≠ []) (plain : charSlash ∉ piece) :
    pieces piece = [piece] := by
  unfold pieces
  rw [List.splitOn_eq_singleton plain]
  simp [nonempty]

theorem pieces_cons (nonempty : piece ≠ []) (plain : charSlash ∉ piece) (behind : List UInt8) :
    pieces (piece ++ charSlash :: behind) = piece :: pieces behind := by
  rw [pieces_append, pieces_plain nonempty plain]
  rfl

theorem pieces_boundary (boundary : Boundary front) (behind : List UInt8) :
    pieces (front ++ behind) = pieces front ++ pieces behind := by
  rcases boundary with rfl | ⟨before, rfl⟩
  · rw [pieces_nil]
    rfl
  · rw [List.append_assoc, List.singleton_append, pieces_append, pieces_append, pieces_nil,
      List.append_nil]

theorem take_while_take (keeps : UInt8 → Bool) (n : Nat) (l : List UInt8) :
    (l.take n).takeWhile keeps = (l.takeWhile keeps).take n := by
  induction l generalizing n with
  | nil => simp
  | cons c l ih =>
      cases n with
      | zero => simp
      | succ n =>
          simp only [List.take_succ_cons, List.takeWhile_cons]
          cases keeps c with
          | false => simp
          | true => simp [ih]

theorem take_while_plain (plain : charSlash ∉ piece) :
    piece.takeWhile (· != charSlash) = piece := by
  apply List.takeWhile_eq_self_iff.2
  intro c member
  exact bne_iff_ne.2 fun same => plain (same ▸ member)

theorem take_component_cons (plain : charSlash ∉ piece) (short : piece.length ≤ 255)
    (behind : List UInt8) : takeComponent (piece ++ charSlash :: behind) = (piece, behind) := by
  have first : ((piece ++ charSlash :: behind).take 255).takeWhile (· != charSlash) = piece := by
    rw [take_while_take, List.takeWhile_append, take_while_plain plain]
    simp [List.take_of_length_le short]
  unfold takeComponent
  dsimp only [maxName]
  rw [first, List.drop_left]
  rfl

theorem take_component_plain (plain : charSlash ∉ piece) (short : piece.length ≤ 255) :
    takeComponent piece = (piece, []) := by
  have first : (piece.take 255).takeWhile (· != charSlash) = piece := by
    rw [take_while_take, take_while_plain plain, List.take_of_length_le short]
  unfold takeComponent
  dsimp only [maxName]
  rw [first, List.drop_length]
  rfl

theorem take_component_short (path : List UInt8) : (takeComponent path).1.length ≤ 255 :=
  ((List.takeWhile_prefix _).length_le).trans (List.length_take_le _ _)

theorem components_from_short (rounds : Nat) (path : List UInt8) :
    ∀ name ∈ componentsFrom rounds path, name.length ≤ 255 := by
  induction rounds generalizing path with
  | zero => exact fun name member => absurd member List.not_mem_nil
  | succ rounds ih =>
      intro name member
      unfold componentsFrom at member
      split at member
      · exact absurd member List.not_mem_nil
      split at member
      · exact ih _ name member
      · rcases List.mem_cons.1 member with rfl | later
        · exact take_component_short path
        · exact ih _ name later

theorem components_from_pieces {rounds : Nat} (enough : path.length < rounds)
    (short : ∀ piece ∈ pieces path, piece.length ≤ 255) :
    componentsFrom rounds path = pieces path := by
  induction rounds generalizing path with
  | zero => omega
  | succ rounds ih =>
      unfold componentsFrom
      by_cases done : path = []
      · rw [if_pos done, done, pieces_nil]
      rw [if_neg done]
      by_cases slash : charSlash ∈ path
      · obtain ⟨first, rest, rfl, plain⟩ := List.eq_append_cons_of_mem slash
        rw [List.length_append, List.length_cons] at enough
        by_cases empty : first = []
        · subst empty
          rw [List.nil_append] at short ⊢
          have fits : ([] : List UInt8).length ≤ 255 := Nat.zero_le _
          have taken : takeComponent (charSlash :: rest) = ([], rest) :=
            take_component_cons List.not_mem_nil fits rest
          rw [pieces_slash] at short ⊢
          rw [taken, if_pos rfl]
          exact ih (by simp at enough; omega) short
        · rw [pieces_cons empty plain] at short ⊢
          rw [take_component_cons plain (short first List.mem_cons_self), if_neg empty]
          dsimp only
          rw [ih (by omega) fun piece member => short piece (List.mem_cons_of_mem first member)]
      · rw [pieces_plain done slash] at short ⊢
        rw [take_component_plain slash (short path List.mem_cons_self), if_neg done]
        congr 1
        cases rounds with
        | zero => rfl
        | succ rounds => exact if_pos rfl

/-- `resolvePath` cuts a path at its slashes exactly when no part is too long for its buffer. -/
theorem components_iff (path : List UInt8) :
    components path = pieces path ↔ ∀ piece ∈ pieces path, piece.length ≤ 255 := by
  constructor
  · intro same piece member
    rw [← same] at member
    exact components_from_short _ _ piece member
  · intro short
    unfold components
    cases path with
    | nil => decide
    | cons c rest =>
        by_cases slash : c = charSlash
        · subst slash
          rw [pieces_slash] at short ⊢
          exact components_from_pieces (Nat.lt_succ_self _) short
        · have head : (c :: rest).head? ≠ some charSlash := fun same =>
            slash (Option.some.inj same)
          dsimp only
          rw [if_neg head]
          exact components_from_pieces (Nat.lt_succ_self _) short

end Pieces

section Detours

/-- `name` is the name of a directory in the directory `ds`, and can stand in a path. -/
structure Subdirectory (v : Volume) (ds : List Nat) (name : List UInt8) : Prop where
  nonempty : name ≠ []
  plain : charSlash ∉ name
  text : ∀ c ∈ name, c ≠ 0
  dot : name ≠ [charDot]
  dots : name ≠ [charDot, charDot]
  found : ∃ cs found, Chain v (ds.headD v.rootCluster) cs ∧ lookup v cs name = some found ∧
    isDirectory found.entry = true

/-- What leads nowhere else, behind `front`. -/
inductive Detour (v : Volume) (front : List UInt8) : List UInt8 → Prop
  | dot : Detour v front [charDot, charSlash]
  | slash : Detour v front [charSlash]
  | updown {ds : List Nat} {name : List UInt8}
      (reached : Leads v (.directory []) (pieces front) (.directory ds))
      (sub : Subdirectory v ds name) :
      Detour v front (name ++ [charSlash, charDot, charDot, charSlash])

/-- `path'` is `path` with a detour at the start of a component. -/
def Inserted (v : Volume) (path path' : List UInt8) : Prop :=
  ∃ front behind detour, path = front ++ behind ∧ Boundary front ∧ Detour v front detour ∧
    path' = front ++ (detour ++ behind)

/-- On the disk `d`, `resolvePath` gives this answer in every state in which nothing fails. The
entry buffer of the caller holds `out` before. -/
def Answer (d : Fat32Filesystem) (path : List UInt8) (out : PathOut)
    (answer : Option (Nat × PathOut)) : Prop :=
  ∃ fuel, Runs (Reading noFailure) (resolvePath fuel path out) d answer d

/-- Both fail, or both succeed with the same cluster and with the attribute and the first cluster
of the same entry. -/
def SameAnswer : Option (Nat × PathOut) → Option (Nat × PathOut) → Prop
  | none, none => True
  | some reached, some reached' => reached'.1 = reached.1 ∧
      attr reached'.2.entry = attr reached.2.entry ∧
        firstCluster reached'.2.entry = firstCluster reached.2.entry
  | _, _ => False

def SameAnswers (d : Fat32Filesystem) (path path' : List UInt8) : Prop :=
  ∀ out, (∀ answer, Answer d path out answer →
      ∃ answer', Answer d path' out answer' ∧ SameAnswer answer answer') ∧
    ∀ answer', Answer d path' out answer' →
      ∃ answer, Answer d path out answer ∧ SameAnswer answer answer'

/-- An entry that is reported does not depend on what the caller's buffer held. -/
def Assigned (d : Fat32Filesystem) (path : List UInt8) : Prop :=
  ∀ out out' reached, Answer d path out (some reached) →
    ∃ reached', Answer d path out' (some reached') ∧ reached'.2.entry = reached.2.entry

def Gives {α : Type} (f : Nat → Fs α) (s : Fat32Filesystem) (Q : α → Fat32Filesystem → Prop) :
    Prop := ∃ fuel a s', f fuel s = some (a, s') ∧ Q a s'

/-- `stat`, `listEntry` and `open` without creation cannot tell the paths apart while nothing
fails. -/
structure Indistinguishable (d : Fat32Filesystem) (path path' : List UInt8) : Prop where
  stat : ∀ s, Reading noFailure s d → ∀ k,
    Gives (fun fuel => Operations.stat fuel path) s (fun a _ => a = k) ↔
      Gives (fun fuel => Operations.stat fuel path') s fun a _ => a = k
  listEntry : ∀ s, Reading noFailure s d → ∀ index nameMax name,
    Gives (fun fuel => Operations.listEntry fuel path index nameMax) s (fun a _ => a = name) ↔
      Gives (fun fuel => Operations.listEntry fuel path' index nameMax) s fun a _ => a = name
  openExisting : ∀ s, Reading noFailure s d → ∀ handle handles,
    Gives (fun fuel => Operations.open fuel path false) s
        (fun a s' => a = handle ∧ s'.handles = handles) ↔
      Gives (fun fuel => Operations.open fuel path' false) s
        fun a s' => a = handle ∧ s'.handles = handles

structure Normalises (v : Volume) (d : Fat32Filesystem) (path : List UInt8) : Prop where
  split : components path = pieces path
  assigned : Assigned d path
  inserted : ∀ path', Inserted v path path' →
    SameAnswers d path path' ∧ Assigned d path' ∧ Indistinguishable d path path'

end Detours

section Reference

inductive Walked (v : Volume) (out : PathOut) : List (List UInt8) → List Nat → PathOut → Prop
  | start : Walked v out [] [] out
  | stay {names : List (List UInt8)} {ds : List Nat} {entry : PathOut}
      (before : Walked v out names ds entry) : Walked v out (names ++ [[charDot]]) ds entry
  | top {names : List (List UInt8)} {entry : PathOut} (before : Walked v out names [] entry) :
      Walked v out (names ++ [[charDot, charDot]]) [] entry
  | up {names : List (List UInt8)} {c : Nat} {ds : List Nat} {entry : PathOut}
      (before : Walked v out names (c :: ds) entry) :
      Walked v out (names ++ [[charDot, charDot]]) ds ⟨syntheticDir (ds.headD v.rootCluster), 0, 0⟩
  | down {names : List (List UInt8)} {name : List UInt8} {ds cs : List Nat} {entry : PathOut}
      {found : Found} (before : Walked v out names ds entry) (dot : name ≠ [charDot])
      (dots : name ≠ [charDot, charDot]) (chain : Chain v (ds.headD v.rootCluster) cs)
      (located : lookup v cs name = some found) (kind : isDirectory found.entry = true) :
      Walked v out (names ++ [name]) (firstCluster found.entry :: ds)
        ⟨found.entry, found.cluster, found.offset⟩

structure Normal (v : Volume) (path : List UInt8) : Prop where
  short : ∀ piece ∈ pieces path, piece.length ≤ 255
  named : ∃ piece ∈ pieces path, piece ≠ [charDot] ∧ piece ≠ [charDot, charDot]
  /-- Where `d/../` can stand at the end, the directory has been entered through an entry whose
  attribute byte is that of a plain directory. -/
  plainly : ∀ front behind, path = front ++ behind → Boundary front →
    (∀ piece ∈ pieces behind, piece = [charDot]) → ∀ out ds entry,
      Walked v out (pieces front) ds entry → (∃ name, Subdirectory v ds name) →
        attr entry.entry = DirAttr.directory

variable {v : Volume} {out entry : PathOut} {names : List (List UInt8)} {ds : List Nat}

theorem walked_leads (walked : Walked v out names ds entry) :
    Leads v (.directory []) names (.directory ds) := by
  induction walked with
  | start => rfl
  | stay before ih => exact leads_append.2 ⟨_, ih, _, .stay _, rfl⟩
  | top before ih => exact leads_append.2 ⟨_, ih, _, .top, rfl⟩
  | up before ih => exact leads_append.2 ⟨_, ih, _, .up _ _, rfl⟩
  | down before dot dots chain located kind ih =>
      exact leads_append.2 ⟨_, ih, _, .down dot dots chain located kind, rfl⟩

theorem leads_walked (out : PathOut)
    (leads : Leads v (.directory []) names (.directory ds)) :
    ∃ entry, Walked v out names ds entry := by
  induction names using List.reverseRecOn generalizing ds with
  | nil =>
      cases leads
      exact ⟨out, .start⟩
  | append_singleton names name ih =>
      obtain ⟨middle, before, _, step, rfl⟩ := leads_append.1 leads
      cases step with
      | stay =>
          obtain ⟨entry, walked⟩ := ih before
          exact ⟨entry, .stay walked⟩
      | top =>
          obtain ⟨entry, walked⟩ := ih before
          exact ⟨entry, .top walked⟩
      | up =>
          obtain ⟨entry, walked⟩ := ih before
          exact ⟨_, .up walked⟩
      | down dot dots chain located kind =>
          obtain ⟨entry, walked⟩ := ih before
          exact ⟨_, .down walked dot dots chain located kind⟩

theorem walked_directory (walked : Walked v out names ds entry) : Directory v ds := by
  induction walked with
  | start => exact .root
  | stay before ih => exact ih
  | top before ih => exact ih
  | up before ih => exact directory_above ih
  | down before dot dots chain located kind ih =>
      exact .sub ih chain (List.mem_of_find?_eq_some located) kind

theorem walked_detour {name : List UInt8} (walked : Walked v out names ds entry)
    (sub : Subdirectory v ds name) :
    Walked v out (names ++ [name, [charDot, charDot]]) ds
      ⟨syntheticDir (ds.headD v.rootCluster), 0, 0⟩ := by
  obtain ⟨cs, found, chain, located, kind⟩ := sub.found
  have down := Walked.down walked sub.dot sub.dots chain located kind
  rw [List.append_cons]
  exact .up down

end Reference

section Walks

variable {d : Fat32Filesystem} {fuel c : Nat}

theorem pure_and_then {α β : Type} (a : α) (f : α → Fs (Option β)) :
    andThen (pure (some a)) f = f a := rfl

theorem and_then_pure {α : Type} (x : Fs (Option α)) : andThen x (fun a => pure (some a)) = x :=
  calc andThen x (fun a => pure (some a)) = x >>= pure := bind_congr fun answer => by
        cases answer <;> rfl
    _ = x := bind_pure x

theorem and_then_congr {α β : Type} {x y : Fs (Option α)} {f : α → Fs (Option β)}
    {s : Fat32Filesystem} (same : x s = y s) : andThen x f s = andThen y f s := by
  change (x s).bind _ = (y s).bind _
  rw [same]

theorem runs_and_then {α β : Type} {R : Fat32Filesystem → Fat32Filesystem → Prop}
    {x : Fs (Option α)} {f : α → Fs (Option β)} {a : α} {answer : Option β}
    (first : Runs R x d (some a) d) (rest : Runs R (f a) d answer d) :
    Runs R (andThen x f) d answer d := runs_bind first rest

theorem runs_of_and_then {α β : Type} {s₀ : Fat32Filesystem} {x : Fs (Option α)}
    {f : α → Fs (Option β)} {a : α} {answer : Option β} (reading : Reading noFailure s₀ d)
    (settles : Lookup noFailure {none} (f a) d)
    (first : Runs (Reading noFailure) x d (some a) d)
    (whole : Runs (Reading noFailure) (andThen x f) d answer d) :
    Runs (Reading noFailure) (f a) d answer d := by
  obtain ⟨s₁, run, reading₁⟩ := first s₀ reading
  obtain ⟨s₂, run', _⟩ := whole s₀ reading
  rw [and_then_of_some run] at run'
  exact runs_of_run settles reading₁ run'

theorem walk_append (fuel : Nat) (xs ys : List (List UInt8)) (c : Nat) (out : PathOut) :
    walkComponents fuel (xs ++ ys) c out =
      andThen (walkComponents fuel xs c out) fun r => walkComponents fuel ys r.1 r.2 := by
  induction xs generalizing c out with
  | nil => rfl
  | cons x xs ih =>
      simp only [List.cons_append, walkComponents, and_then_assoc, ih]

theorem walk_single (fuel : Nat) (name : List UInt8) (c : Nat) (out : PathOut) :
    walkComponents fuel [name] c out = walkComponent fuel name c out :=
  and_then_pure (walkComponent fuel name c out)

theorem walk_dot (fuel c : Nat) (out : PathOut) :
    walkComponent fuel [charDot] c out = pure (some (c, out)) := if_pos rfl

theorem walk_skips_dot (fuel : Nat) (xs ys : List (List UInt8)) (c : Nat) (out : PathOut) :
    walkComponents fuel (xs ++ [charDot] :: ys) c out = walkComponents fuel (xs ++ ys) c out := by
  simp only [walk_append, walkComponents, walk_dot, pure_and_then]

theorem walk_top {s : Fat32Filesystem} (out : PathOut) :
    walkComponent fuel [charDot, charDot] s.rootCluster out s =
      some (some (s.rootCluster, out), s) := if_pos rfl

theorem walk_climbs {s : Fat32Filesystem} (fuel : Nat) (out : PathOut)
    (below : ¬ c = s.rootCluster) :
    walkComponent fuel [charDot, charDot] c out s = andThen (parentOf c)
      (fun parent => pure (some (parent, ⟨syntheticDir parent, 0, 0⟩))) s := if_neg below

/-- The components that store no entry, at cluster `c`. -/
def Idle (d : Fat32Filesystem) (c : Nat) (names : List (List UInt8)) : Prop :=
  ∀ name ∈ names, name = [charDot] ∨ name = [charDot, charDot] ∧ c = d.rootCluster

theorem walk_component_idle {name : List UInt8} (out : PathOut)
    (idle : name = [charDot] ∨ name = [charDot, charDot] ∧ c = d.rootCluster) :
    Runs (Reading noFailure) (walkComponent fuel name c out) d (some (c, out)) d := by
  intro s reading
  rcases idle with rfl | ⟨rfl, rfl⟩
  · rw [walk_dot]
    exact ⟨s, rfl, reading⟩
  · rw [← reading.layout.2.2.2.2, walk_top]
    exact ⟨s, rfl, reading⟩

theorem walk_idle {names : List (List UInt8)} (out : PathOut) (idle : Idle d c names) :
    Runs (Reading noFailure) (walkComponents fuel names c out) d (some (c, out)) d := by
  induction names with
  | nil => exact runs_pure _ _
  | cons name names ih =>
      apply runs_and_then (walk_component_idle out (idle name List.mem_cons_self))
      exact ih fun other member => idle other (List.mem_cons_of_mem name member)

theorem walk_component_stores {name : List UInt8}
    (busy : ¬ (name = [charDot] ∨ name = [charDot, charDot] ∧ c = d.rootCluster))
    (out out' : PathOut) {s : Fat32Filesystem} (reading : Reading noFailure s d) :
    walkComponent fuel name c out s = walkComponent fuel name c out' s := by
  rw [not_or, not_and] at busy
  unfold walkComponent
  rw [if_neg busy.1, if_neg busy.1]
  by_cases dots : name = [charDot, charDot]
  · rw [if_pos dots, if_pos dots]
    have below : ¬ c = s.rootCluster := by
      rw [reading.layout.2.2.2.2]
      exact busy.2 dots
    exact (if_neg below).trans (if_neg below).symm
  · rw [if_neg dots, if_neg dots]

theorem walk_stores {names : List (List UInt8)} {s₀ : Fat32Filesystem}
    (reading₀ : Reading noFailure s₀ d) (busy : ¬ Idle d c names) (out out' : PathOut)
    {answer : Option (Nat × PathOut)}
    (runs : Runs (Reading noFailure) (walkComponents fuel names c out) d answer d) :
    Runs (Reading noFailure) (walkComponents fuel names c out') d answer d := by
  induction names with
  | nil => exact absurd (fun name member => absurd member List.not_mem_nil) busy
  | cons name names ih =>
      by_cases first : name = [charDot] ∨ name = [charDot, charDot] ∧ c = d.rootCluster
      · have later : ¬ Idle d c names := by
          intro idle
          apply busy
          intro other member
          rcases List.mem_cons.1 member with rfl | later
          · exact first
          · exact idle other later
        apply runs_and_then (walk_component_idle out' first)
        apply ih later
        have whole : Runs (Reading noFailure) (andThen (walkComponent fuel name c out)
            fun reached => walkComponents fuel names reached.1 reached.2) d answer d := runs
        apply runs_of_and_then reading₀ _ (walk_component_idle out first) whole
        exact walk_components_settles fuel names c out
      · intro s reading
        obtain ⟨s', run, reading'⟩ := runs s reading
        refine ⟨s', ?_, reading'⟩
        rw [← run]
        exact and_then_congr (walk_component_stores first out' out reading)

end Walks

section Arrival

variable {v : Volume} {s : Fat32Filesystem} {out entry : PathOut} {names : List (List UInt8)}
  {ds : List Nat}

theorem stands_reading (stands : Stands noFailure s v) : Reading noFailure s (core s) :=
  ⟨stands.steady.transparent, stands.steady.granting, stands.steady.supplied, rfl⟩

theorem core_root (stands : Stands noFailure s v) : (core s).rootCluster = v.rootCluster :=
  stands.root

theorem find_entry_runs {cs : List Nat} {name : List UInt8} {found : Found}
    (stands : Stands noFailure s v) (chain : Chain v (ds.headD v.rootCluster) cs)
    (located : lookup v cs name = some found) : ∃ n, ∀ fuel, n ≤ fuel →
      Runs (Reading noFailure) (findEntry fuel (ds.headD v.rootCluster) name) (core s)
        (some found) (core s) := by
  refine ⟨cs.length + (entriesOf v cs).length + 1, fun fuel enough => ?_⟩
  have clusters : cs.length < fuel := by omega
  have rounds : (entriesOf v cs).length < fuel := by omega
  obtain ⟨answer, s', _, run, _, _, found' | ⟨_, fails⟩⟩ :=
    find_entry_total chain clusters rounds name s stands
  · rw [found', located] at run
    exact runs_of_run (find_entry_settles fuel _ name) (stands_reading stands) run
  · exact absurd fails no_failure_silent

theorem parent_of_runs (stands : Stands noFailure s v) {c : Nat} (valid : v.Valid c) :
    Runs (Reading noFailure) (parentOf c) (core s) (some (parentIn v c)) (core s) := by
  have reading := stands_reading stands
  obtain ⟨answer, s', _, run, _, _⟩ := parent_of_returns (core s) c s reading
  obtain ⟨_, _, _, found | ⟨_, fails⟩⟩ := parent_of_answers valid s stands answer s' run
  · rw [found] at run
    exact runs_of_run (parent_of_settles c) reading run
  · exact absurd fails no_failure_silent

/-- A step of the reference walk is made by `resolvePath`, given enough fuel. -/
theorem walk_snoc {name : List UInt8} {c c' : Nat} {out' : PathOut} {d : Fat32Filesystem}
    (before : ∃ n, ∀ fuel, n ≤ fuel → Runs (Reading noFailure)
      (walkComponents fuel names d.rootCluster out) d (some (c, entry)) d)
    (step : ∃ n, ∀ fuel, n ≤ fuel → Runs (Reading noFailure)
      (walkComponent fuel name c entry) d (some (c', out')) d) :
    ∃ n, ∀ fuel, n ≤ fuel → Runs (Reading noFailure)
      (walkComponents fuel (names ++ [name]) d.rootCluster out) d (some (c', out')) d := by
  obtain ⟨n, before⟩ := before
  obtain ⟨m, step⟩ := step
  refine ⟨max n m, fun fuel enough => ?_⟩
  rw [walk_append]
  apply runs_and_then (before fuel ((Nat.le_max_left n m).trans enough))
  rw [walk_single]
  exact step fuel ((Nat.le_max_right n m).trans enough)

theorem walked_runs (stands : Stands noFailure s v) (tree : Tree v)
    (walked : Walked v out names ds entry) : ∃ n, ∀ fuel, n ≤ fuel →
      Runs (Reading noFailure) (walkComponents fuel names (core s).rootCluster out) (core s)
        (some (ds.headD v.rootCluster, entry)) (core s) := by
  induction walked with
  | start =>
      rw [core_root stands]
      exact ⟨0, fun fuel _ => runs_pure _ _⟩
  | stay before ih => exact walk_snoc ih ⟨0, fun fuel _ => walk_component_idle _ (.inl rfl)⟩
  | top before ih =>
      exact walk_snoc ih
        ⟨0, fun fuel _ => walk_component_idle _ (.inr ⟨rfl, (core_root stands).symm⟩)⟩
  | @up names c ds entry before ih =>
      have inTree := walked_directory before
      have below : ¬ c = (core s).rootCluster := by
        rw [core_root stands]
        exact tree.below c ds inTree
      have climbs := parent_of_runs stands (directory_valid tree inTree)
      rw [List.headD_cons, tree.parent c ds inTree] at climbs
      refine walk_snoc ih ⟨0, fun fuel _ => ?_⟩
      intro t reading
      have leaves : ¬ c = t.rootCluster := reading.layout.2.2.2.2 ▸ below
      obtain ⟨t', run, reading'⟩ := climbs t reading
      refine ⟨t', ?_, reading'⟩
      exact (walk_climbs fuel entry leaves).trans (and_then_of_some run)
  | down before dot dots chain located kind ih =>
      obtain ⟨n, finds⟩ := find_entry_runs stands chain located
      refine walk_snoc ih ⟨n, fun fuel enough => ?_⟩
      unfold walkComponent
      rw [if_neg dot, if_neg dots]
      exact runs_and_then (finds fuel enough) (runs_pure _ _)

end Arrival

section Answers

variable {d s₀ : Fat32Filesystem} {path path' : List UInt8} {out : PathOut}
  {answer answer' : Option (Nat × PathOut)} {names : List (List UInt8)} {c : Nat}

def Ordinary (path : List UInt8) : Prop := path ≠ [] ∧ path ≠ [charSlash]

theorem ordinary_of_piece {piece : List UInt8} (member : piece ∈ pieces path) : Ordinary path := by
  constructor
  · rintro rfl
    exact absurd member List.not_mem_nil
  · rintro rfl
    exact absurd member List.not_mem_nil

/-- What the walk along the names leads to, given enough fuel. -/
def Yields (d : Fat32Filesystem) (names : List (List UInt8)) (c : Nat) (out : PathOut)
    (answer : Option (Nat × PathOut)) : Prop :=
  ∃ fuel, Runs (Reading noFailure) (walkComponents fuel names c out) d answer d

theorem runs_of_le {n m : Nat} (le : n ≤ m)
    (runs : Runs (Reading noFailure) (walkComponents n names c out) d answer d) :
    Runs (Reading noFailure) (walkComponents m names c out) d answer d :=
  runs_of_below (below_of_le (fun k => below_walk_components k names c out) le) runs

theorem runs_unique {α : Type} {f : Fs α} {a b : α} (reading : Reading noFailure s₀ d)
    (left : Runs (Reading noFailure) f d a d) (right : Runs (Reading noFailure) f d b d) :
    a = b := by
  obtain ⟨_, run, _⟩ := left s₀ reading
  exact (runs_result right reading run).1

theorem yields_unique (reading : Reading noFailure s₀ d) (left : Yields d names c out answer)
    (right : Yields d names c out answer') : answer = answer' := by
  obtain ⟨n, left⟩ := left
  obtain ⟨m, right⟩ := right
  exact runs_unique reading (runs_of_le (Nat.le_max_left n m) left)
    (runs_of_le (Nat.le_max_right n m) right)

theorem answer_iff (ordinary : Ordinary path) (split : components path = pieces path) :
    Answer d path out answer ↔ Yields d (pieces path) d.rootCluster out answer := by
  have walks : ∀ fuel s, Reading noFailure s d → resolvePath fuel path out s =
      walkComponents fuel (pieces path) d.rootCluster out s := by
    intro fuel s reading
    unfold resolvePath
    rw [if_neg ordinary.1, if_neg ordinary.2]
    dsimp only
    rw [walk_path_eq, reading.layout.2.2.2.2, ← split]
    rfl
  constructor
  · rintro ⟨fuel, runs⟩
    exact ⟨fuel, fun s reading => walks fuel s reading ▸ runs s reading⟩
  · rintro ⟨fuel, runs⟩
    exact ⟨fuel, fun s reading => (walks fuel s reading).symm ▸ runs s reading⟩

/-- Behind a part whose end is known only the rest matters. -/
theorem yields_behind (reading : Reading noFailure s₀ d) {xs ys : List (List UInt8)} {c' : Nat}
    {out' : PathOut} (front : ∃ n, ∀ fuel, n ≤ fuel → Runs (Reading noFailure)
      (walkComponents fuel xs c out) d (some (c', out')) d) :
    Yields d (xs ++ ys) c out answer ↔ Yields d ys c' out' answer := by
  obtain ⟨n, front⟩ := front
  constructor
  · rintro ⟨fuel, runs⟩
    have more := runs_of_le (Nat.le_max_left fuel n) runs
    rw [walk_append] at more
    refine ⟨max fuel n, ?_⟩
    apply runs_of_and_then reading _ (front _ (Nat.le_max_right fuel n)) more
    exact walk_components_settles (max fuel n) ys c' out'
  · rintro ⟨fuel, runs⟩
    refine ⟨max fuel n, ?_⟩
    rw [walk_append]
    apply runs_and_then (front _ (Nat.le_max_right fuel n))
    exact runs_of_le (Nat.le_max_left fuel n) runs

theorem idle_answer (ordinary : Ordinary path) (split : components path = pieces path)
    (idle : Idle d d.rootCluster (pieces path)) (out : PathOut) :
    Answer d path out (some (d.rootCluster, out)) :=
  (answer_iff ordinary split).2 ⟨0, walk_idle out idle⟩

theorem busy_of_named (named : ∃ piece ∈ pieces path, piece ≠ [charDot] ∧
    piece ≠ [charDot, charDot]) : ¬ Idle d d.rootCluster (pieces path) := by
  obtain ⟨piece, member, dot, dots⟩ := named
  intro idle
  rcases idle piece member with same | ⟨same, _⟩
  · exact dot same
  · exact dots same

theorem assigned_of_named (reading : Reading noFailure s₀ d)
    (split : components path = pieces path) (named : ∃ piece ∈ pieces path,
      piece ≠ [charDot] ∧ piece ≠ [charDot, charDot]) : Assigned d path := by
  intro out out' reached answers
  have busy : ¬ Idle d d.rootCluster (pieces path) := busy_of_named named
  obtain ⟨piece, member, _⟩ := named
  have ordinary := ordinary_of_piece member
  obtain ⟨fuel, runs⟩ := (answer_iff ordinary split).1 answers
  refine ⟨reached, ?_, rfl⟩
  exact (answer_iff ordinary split).2 ⟨fuel, walk_stores reading busy out out' runs⟩

end Answers

section Following

variable {d s : Fat32Filesystem} {path path' : List UInt8}

inductive Alike : Option (Nat × PathOut) → Option (Nat × PathOut) → Prop
  | same (answer : Option (Nat × PathOut)) : Alike answer answer
  | directory {c : Nat} {out out' : PathOut} (kind : attr out'.entry = attr out.entry)
      (first : firstCluster out'.entry = firstCluster out.entry)
      (set : isDirectory out.entry = true) : Alike (some (c, out)) (some (c, out'))

/-- Whatever is answered for `path` is answered for `path'`. -/
def Follows (d : Fat32Filesystem) (path path' : List UInt8) : Prop :=
  ∀ out answer, Answer d path out answer → ∃ answer', Answer d path' out answer' ∧
    Alike answer answer'

theorem is_directory_of_attr {e e' : DirEntry} (kind : attr e' = attr e) :
    isDirectory e' = isDirectory e := by
  unfold isDirectory
  rw [kind]

theorem same_answer_of_alike {answer answer' : Option (Nat × PathOut)}
    (alike : Alike answer answer') : SameAnswer answer answer' ∧ SameAnswer answer' answer := by
  cases alike with
  | same =>
      cases answer with
      | none => exact ⟨trivial, trivial⟩
      | some reached => exact ⟨⟨rfl, rfl, rfl⟩, rfl, rfl, rfl⟩
  | directory kind first set => exact ⟨⟨rfl, kind, first⟩, rfl, kind.symm, first.symm⟩

theorem same_answers_of_follows (there : Follows d path path') (back : Follows d path' path) :
    SameAnswers d path path' := by
  intro out
  constructor
  · intro answer answers
    obtain ⟨answer', answers', alike⟩ := there out answer answers
    exact ⟨answer', answers', (same_answer_of_alike alike).1⟩
  · intro answer' answers'
    obtain ⟨answer, answers, alike⟩ := back out answer' answers'
    exact ⟨answer, answers, (same_answer_of_alike alike).2⟩

/-- A run of an operation up to the answer of `resolvePath`, and the same for the other path. -/
theorem follows_run (follows : Follows d path path') (reading : Reading noFailure s d) {fuel : Nat}
    {answer : Option (Nat × PathOut)} {s₁ : Fat32Filesystem}
    (run : resolvePath fuel path (junkOf d) s = some (answer, s₁)) :
    Reading noFailure s₁ d ∧ ∃ answer' s₂, Alike answer answer' ∧ Reading noFailure s₂ d ∧
      ∃ n, ∀ m, n ≤ m → resolvePath m path' (junkOf d) s = some (answer', s₂) := by
  have settles : Lookup noFailure {none} (resolvePath fuel path (junkOf d)) d :=
    resolve_path_settles fuel path _
  obtain ⟨answer', ⟨n, runs⟩, alike⟩ :=
    follows _ answer ⟨fuel, runs_of_run settles reading run⟩
  obtain ⟨s₂, run', reading'⟩ := runs s reading
  refine ⟨settles.keeps reading run, answer', s₂, alike, reading', n, fun m le => ?_⟩
  exact below_of_le (fun k => below_resolve_path k path' (junkOf d)) le s _ run'

/-- An operation goes on from the answer for a path with `g`. What `g'` makes of an answer alike
is what is asked for, too. -/
theorem gives_follows {α : Type} {Q : α → Fat32Filesystem → Prop}
    {g g' : Nat → Option (Nat × PathOut) → Fs α} (follows : Follows d path path')
    (reading : Reading noFailure s d)
    (onward : ∀ fuel s₁ s₂ answer answer' a t, Reading noFailure s₁ d → Reading noFailure s₂ d →
      Alike answer answer' → g fuel answer s₁ = some (a, t) → Q a t →
        ∃ n, ∀ m, n ≤ m → ∃ a' t', g' m answer' s₂ = some (a', t') ∧ Q a' t')
    (gives : Gives (fun fuel => junkOut >>= fun out => resolvePath fuel path out >>= g fuel) s Q) :
    Gives (fun fuel => junkOut >>= fun out => resolvePath fuel path' out >>= g' fuel) s Q := by
  obtain ⟨fuel, a, t, run, holds⟩ := gives
  have start := junk_out_reading reading
  obtain ⟨_, _, first, rest⟩ := bind_eq_some.1 run
  cases start.symm.trans first
  obtain ⟨answer, s₁, resolved, rest⟩ := bind_eq_some.1 rest
  obtain ⟨reading₁, answer', s₂, alike, reading₂, n, run'⟩ :=
    follows_run follows reading resolved
  obtain ⟨m, ends⟩ := onward fuel s₁ s₂ answer answer' a t reading₁ reading₂ alike rest holds
  obtain ⟨a', t', last, holds'⟩ := ends (max n m) (Nat.le_max_right n m)
  refine ⟨max n m, a', t', ?_, holds'⟩
  exact (bind_of_some start).trans
    ((bind_of_some (run' _ (Nat.le_max_left n m))).trans last)

/-- The number that `stat` reports. -/
def kindOf : Option (Nat × PathOut) → Nat
  | none => 0
  | some reached => if isDirectory reached.2.entry then 2 else 1

theorem stat_walks (ordinary : Ordinary path) (fuel : Nat) : Operations.stat fuel path =
    junkOut >>= fun out => resolvePath fuel path out >>= fun answer => pure (kindOf answer) := by
  unfold Operations.stat
  rw [if_neg ordinary.1, if_neg ordinary.2]
  exact bind_congr fun out => bind_congr fun answer => by cases answer <;> rfl

theorem stat_follows (follows : Follows d path path') (ordinary : Ordinary path)
    (ordinary' : Ordinary path') (reading : Reading noFailure s d) {k : Nat}
    (gives : Gives (fun fuel => Operations.stat fuel path) s fun a _ => a = k) :
    Gives (fun fuel => Operations.stat fuel path') s fun a _ => a = k := by
  simp only [stat_walks ordinary, stat_walks ordinary'] at gives ⊢
  apply gives_follows follows reading _ gives
  intro fuel s₁ s₂ answer answer' a t _ _ alike run holds
  cases run
  refine ⟨0, fun m _ => ⟨_, s₂, rfl, ?_⟩⟩
  rw [← holds]
  cases alike with
  | same => rfl
  | directory kind first set =>
      unfold kindOf
      dsimp only
      rw [is_directory_of_attr kind]

/-- What `listEntry` makes of the answer for its path. -/
def listFrom (index nameMax fuel : Nat) : Option (Nat × PathOut) → Fs (Option (List UInt8))
  | none => pure none
  | some reached =>
      if isDirectory reached.2.entry then
        readDirEntry fuel reached.1 index nameMax >>= fun found => pure (found.map Found.name)
      else pure none

theorem list_entry_walks (fuel : Nat) (path : List UInt8) (index nameMax : Nat) :
    Operations.listEntry fuel path index nameMax = junkOut >>= fun out =>
      resolvePath fuel path out >>= listFrom index nameMax fuel :=
  bind_congr fun out => bind_congr fun answer => by cases answer <;> rfl

theorem list_from_alike {answer answer' : Option (Nat × PathOut)} (alike : Alike answer answer')
    (index nameMax fuel : Nat) :
    listFrom index nameMax fuel answer' = listFrom index nameMax fuel answer := by
  cases alike with
  | same => rfl
  | directory kind first set =>
      unfold listFrom
      dsimp only
      rw [is_directory_of_attr kind]

theorem list_from_settles (index nameMax fuel : Nat) (answer : Option (Nat × PathOut)) :
    Lookup noFailure Set.univ (listFrom index nameMax fuel answer) d := by
  cases answer with
  | none => exact settles_pure none
  | some reached =>
      unfold listFrom
      dsimp only
      by_cases directory : isDirectory reached.2.entry = true
      · rw [if_pos directory]
        apply settles_bind (read_dir_entry_settles fuel reached.1 index nameMax)
        · exact fun found => settles_pure _
        · exact fun found _ => ensures_pure (Set.mem_univ _)
      · rw [if_neg directory]
        exact settles_pure none

theorem below_list_from (index nameMax fuel : Nat) (answer : Option (Nat × PathOut)) :
    Below (listFrom index nameMax fuel answer) (listFrom index nameMax (fuel + 1) answer) := by
  cases answer with
  | none => exact below_refl _
  | some reached =>
      apply below_ite _ (below_refl _)
      exact below_bind (below_read_dir_entry fuel reached.1 index nameMax) fun _ => below_refl _

theorem list_entry_follows (follows : Follows d path path') (reading : Reading noFailure s d)
    {index nameMax : Nat} {name : Option (List UInt8)}
    (gives : Gives (fun fuel => Operations.listEntry fuel path index nameMax) s
      fun a _ => a = name) :
    Gives (fun fuel => Operations.listEntry fuel path' index nameMax) s fun a _ => a = name := by
  simp only [list_entry_walks] at gives ⊢
  apply gives_follows follows reading _ gives
  intro fuel s₁ s₂ answer answer' a t reading₁ reading₂ alike run holds
  have settles : Lookup noFailure Set.univ (listFrom index nameMax fuel answer) d :=
    list_from_settles index nameMax fuel answer
  obtain ⟨t', run', _⟩ := runs_of_run settles reading₁ run s₂ reading₂
  refine ⟨fuel, fun m le => ⟨a, t', ?_, holds⟩⟩
  rw [list_from_alike alike]
  exact below_of_le (fun k => below_list_from index nameMax k answer) le s₂ _ run'

/-- What `open` without creation makes of the answer for its path. -/
def openFrom (path : List UInt8) (fuel : Nat) : Option (Nat × PathOut) → Fs Nat
  | none => pure 0
  | some reached => openEntry fuel path false reached.2

theorem open_walks (fuel : Nat) (path : List UInt8) : Operations.open fuel path false =
    junkOut >>= fun out => resolvePath fuel path out >>= openFrom path fuel :=
  bind_congr fun out => bind_congr fun answer => by cases answer <;> rfl

theorem open_directory {out : PathOut} (set : isDirectory out.entry = true) (fuel : Nat)
    (s : Fat32Filesystem) : openEntry fuel path false out s = some (0, s) := if_pos set

/-- The handle given to an entry that exists depends on the entry and the table only. -/
theorem open_entry_agrees (m : Nat) (path' : List UInt8) {fuel : Nat} {out : PathOut}
    {s₁ s₂ t : Fat32Filesystem} {a : Nat} (table : s₂.handles = s₁.handles)
    (run : openEntry fuel path false out s₁ = some (a, t)) :
    ∃ t', openEntry m path' false out s₂ = some (a, t') ∧ t'.handles = t.handles := by
  by_cases directory : isDirectory out.entry = true
  · rw [open_directory directory] at run ⊢
    cases run
    exact ⟨s₂, rfl, table⟩
  · unfold openEntry at run ⊢
    rw [if_neg directory] at run ⊢
    rw [table]
    cases free : s₁.handles.findIdx? fun fh => !fh.inUse with
    | some i =>
        rw [free] at run
        cases run
        refine ⟨_, rfl, ?_⟩
        change s₂.handles.modify i _ = s₁.handles.modify i _
        rw [table]
    | none =>
        rw [free] at run
        cases run
        exact ⟨s₂, rfl, table⟩

theorem open_follows (follows : Follows d path path') (reading : Reading noFailure s d)
    {handle : Nat} {handles : List FileHandle}
    (gives : Gives (fun fuel => Operations.open fuel path false) s
      fun a s' => a = handle ∧ s'.handles = handles) :
    Gives (fun fuel => Operations.open fuel path' false) s
      fun a s' => a = handle ∧ s'.handles = handles := by
  simp only [open_walks] at gives ⊢
  apply gives_follows follows reading _ gives
  intro fuel s₁ s₂ answer answer' a t reading₁ reading₂ alike run holds
  have table : s₂.handles = s₁.handles := by
    have same : (core s₂).handles = (core s₁).handles := by rw [reading₁.same, reading₂.same]
    exact same
  refine ⟨0, fun m _ => ?_⟩
  cases alike with
  | same =>
      cases answer with
      | none =>
          cases run
          exact ⟨0, s₂, rfl, holds.1, table.trans holds.2⟩
      | some reached =>
          obtain ⟨t', run', same⟩ := open_entry_agrees m path' table run
          exact ⟨a, t', run', holds.1, same.trans holds.2⟩
  | directory kind first set =>
      have ended := (open_directory set fuel s₁).symm.trans run
      cases ended
      have set' := set
      rw [← is_directory_of_attr kind] at set'
      exact ⟨0, s₂, open_directory set' m s₂, holds.1, table.trans holds.2⟩

theorem indistinguishable_of_follows (there : Follows d path path') (back : Follows d path' path)
    (ordinary : Ordinary path) (ordinary' : Ordinary path') : Indistinguishable d path path' where
  stat _ reading _ :=
    ⟨stat_follows there ordinary ordinary' reading, stat_follows back ordinary' ordinary reading⟩
  listEntry _ reading _ _ _ :=
    ⟨list_entry_follows there reading, list_entry_follows back reading⟩
  openExisting _ reading _ _ :=
    ⟨open_follows there reading, open_follows back reading⟩

end Following

section Result

variable {v : Volume} {s : Fat32Filesystem} {path path' front behind name : List UInt8}
  {out entry : PathOut} {names : List (List UInt8)} {ds : List Nat}

/-- The stored entry names the directory that was reached; the root is entered by climbing. -/
theorem walked_entry (stands : Stands noFailure s v) (tree : Tree v)
    (walked : Walked v out names ds entry) :
    (∀ name ∈ names, name = [charDot] ∨ name = [charDot, charDot]) ∧ ds = [] ∨
      firstCluster entry.entry = ds.headD v.rootCluster ∧ isDirectory entry.entry = true ∧
        (ds = [] → attr entry.entry = DirAttr.directory) := by
  have dots_snoc : ∀ {names : List (List UInt8)} {name : List UInt8},
      (name = [charDot] ∨ name = [charDot, charDot]) →
      (∀ n ∈ names, n = [charDot] ∨ n = [charDot, charDot]) →
      ∀ n ∈ names ++ [name], n = [charDot] ∨ n = [charDot, charDot] := by
    intro names name last before n member
    rcases List.mem_append.1 member with left | right
    · exact before n left
    · rw [List.mem_singleton.1 right]
      exact last
  induction walked with
  | start => exact .inl ⟨fun name member => absurd member List.not_mem_nil, rfl⟩
  | stay before ih =>
      exact ih.imp_left fun unset => ⟨dots_snoc (.inl rfl) unset.1, unset.2⟩
  | top before ih =>
      exact ih.imp_left fun unset => ⟨dots_snoc (.inr rfl) unset.1, unset.2⟩
  | up before ih =>
      have valid := (directory_valid tree (directory_above (walked_directory before))).2
      have small := few_clusters stands
      refine .inr ⟨first_cluster_set_first_cluster _ _ (by omega), is_directory_synthetic _, ?_⟩
      exact fun _ => attr_set_first_cluster _ _
  | down before dot dots chain located kind ih => exact .inr ⟨rfl, kind, nofun⟩

theorem subdirectory_short (sub : Subdirectory v ds name) : name.length ≤ 255 := by
  obtain ⟨cs, found, _, located, _⟩ := sub.found
  have listed := listing_name_short (List.mem_of_find?_eq_some located)
  have same := List.find?_some located
  exact (name_equals_length same sub.text).trans listed

theorem detour_pieces (sub : Subdirectory v ds name) (behind : List UInt8) :
    pieces (name ++ [charSlash, charDot, charDot, charSlash] ++ behind) =
      [name, [charDot, charDot]] ++ pieces behind := by
  have dots : pieces ([charDot, charDot] ++ charSlash :: behind) =
      [charDot, charDot] :: pieces behind := pieces_cons (by decide) (by decide) behind
  rw [List.append_assoc]
  change pieces (name ++ charSlash :: ([charDot, charDot] ++ charSlash :: behind)) = _
  rw [pieces_cons sub.nonempty sub.plain, dots]
  rfl

theorem dot_pieces (behind : List UInt8) :
    pieces ([charDot, charSlash] ++ behind) = [charDot] :: pieces behind :=
  pieces_cons (List.cons_ne_nil charDot []) (by decide) behind

theorem inserted_pieces (inserted : Inserted v path path') :
    ∃ before new after, pieces path = before ++ after ∧ pieces path' = before ++ (new ++ after) ∧
      ∀ piece ∈ new, piece.length ≤ 255 := by
  obtain ⟨front, behind, detour, rfl, boundary, detours, rfl⟩ := inserted
  rw [pieces_boundary boundary, pieces_boundary boundary]
  cases detours with
  | dot =>
      refine ⟨_, [[charDot]], _, rfl, ?_, by decide⟩
      rw [dot_pieces]
      rfl
  | slash => exact ⟨_, [], _, rfl, congrArg _ (pieces_slash behind), nofun⟩
  | updown reached sub =>
      refine ⟨_, _, _, rfl, congrArg _ (detour_pieces sub behind), ?_⟩
      intro piece member
      rcases List.mem_cons.1 member with rfl | dots
      · exact subdirectory_short sub
      · rw [List.mem_singleton.1 dots]
        decide

theorem inserted_split (split : components path = pieces path) (inserted : Inserted v path path') :
    components path' = pieces path' := by
  have short := (components_iff path).1 split
  obtain ⟨before, new, after, whole, whole', fits⟩ := inserted_pieces inserted
  rw [components_iff, whole']
  rw [whole] at short
  intro piece member
  rcases List.mem_append.1 member with left | right
  · exact short piece (List.mem_append_left after left)
  · rcases List.mem_append.1 right with inside | right
    · exact fits piece inside
    · exact short piece (List.mem_append_right before right)

theorem inserted_piece (inserted : Inserted v path path') {piece : List UInt8}
    (member : piece ∈ pieces path) : piece ∈ pieces path' := by
  obtain ⟨before, new, after, whole, whole', _⟩ := inserted_pieces inserted
  rw [whole'] at *
  rw [whole] at member
  rcases List.mem_append.1 member with left | right
  · exact List.mem_append_left _ left
  · exact List.mem_append_right _ (List.mem_append_right _ right)

/-- What the walk along a path and the walk with a detour into a directory and back lead to. -/
structure Both (s : Fat32Filesystem) (v : Volume) (front : List (List UInt8)) (ds : List Nat)
    (name : List UInt8) (out entry : PathOut) : Prop where
  straight : ∀ {ys answer}, Yields (core s) (front ++ ys) (core s).rootCluster out answer ↔
    Yields (core s) ys (ds.headD v.rootCluster) entry answer
  detour : ∀ {ys answer},
    Yields (core s) (front ++ ([name, [charDot, charDot]] ++ ys)) (core s).rootCluster out answer ↔
      Yields (core s) ys (ds.headD v.rootCluster)
        ⟨syntheticDir (ds.headD v.rootCluster), 0, 0⟩ answer

theorem both_of_walked (stands : Stands noFailure s v) (tree : Tree v)
    (walked : Walked v out names ds entry) (sub : Subdirectory v ds name) :
    Both s v names ds name out entry where
  straight := yields_behind (stands_reading stands) (walked_runs stands tree walked)
  detour := by
    intro ys answer
    rw [← List.append_assoc]
    exact yields_behind (stands_reading stands)
      (walked_runs stands tree (walked_detour walked sub))

/-- A rest that stores no entry keeps the one before it. -/
theorem idle_yields {d s₀ : Fat32Filesystem} {c : Nat} {answer : Option (Nat × PathOut)}
    (reading : Reading noFailure s₀ d) (idle : Idle d c names)
    (yields : Yields d names c out answer) : answer = some (c, out) :=
  yields_unique reading yields ⟨0, walk_idle out idle⟩

theorem updown_alike (stands : Stands noFailure s v) (tree : Tree v) (normal : Normal v path)
    (whole : path = front ++ behind) (boundary : Boundary front)
    (reached : Leads v (.directory []) (pieces front) (.directory ds))
    (sub : Subdirectory v ds name) (out : PathOut) :
    ∃ entry, Both s v (pieces front) ds name out entry ∧
      (¬ Idle (core s) (ds.headD v.rootCluster) (pieces behind) ∨
        Idle (core s) (ds.headD v.rootCluster) (pieces behind) ∧
          firstCluster entry.entry = ds.headD v.rootCluster ∧
            attr entry.entry = DirAttr.directory) := by
  obtain ⟨entry, walked⟩ := leads_walked out reached
  refine ⟨entry, both_of_walked stands tree walked sub, ?_⟩
  by_cases idle : Idle (core s) (ds.headD v.rootCluster) (pieces behind)
  · right
    refine ⟨idle, ?_⟩
    rcases walked_entry stands tree walked with ⟨dots, _⟩ | ⟨first, _, climbed⟩
    · -- a path without a name
      obtain ⟨piece, member, dot, other⟩ := normal.named
      rw [whole, pieces_boundary boundary] at member
      have only : piece = [charDot] ∨ piece = [charDot, charDot] := by
        rcases List.mem_append.1 member with left | right
        · exact dots piece left
        · exact (idle piece right).imp_right fun both => both.1
      exact absurd only (not_or.2 ⟨dot, other⟩)
    · refine ⟨first, ?_⟩
      cases ds with
      | nil => exact climbed rfl
      | cons c ds =>
          have below := tree.below c ds (walked_directory walked)
          apply normal.plainly front behind whole boundary _ out _ entry walked ⟨name, sub⟩
          intro piece member
          apply (idle piece member).resolve_right
          rintro ⟨_, root⟩
          exact below (root.trans (core_root stands))
  · exact .inl idle

theorem is_directory_of_plain {e : DirEntry} (plain : attr e = DirAttr.directory) :
    isDirectory e = true := by
  unfold isDirectory
  rw [plain]
  decide

theorem inserted_yields (stands : Stands noFailure s v) (tree : Tree v) (normal : Normal v path)
    (inserted : Inserted v path path') (out : PathOut) (answer : Option (Nat × PathOut)) :
    (Yields (core s) (pieces path) (core s).rootCluster out answer → ∃ answer',
        Yields (core s) (pieces path') (core s).rootCluster out answer' ∧ Alike answer answer') ∧
      (Yields (core s) (pieces path') (core s).rootCluster out answer → ∃ answer',
        Yields (core s) (pieces path) (core s).rootCluster out answer' ∧ Alike answer answer') := by
  have reading := stands_reading stands
  obtain ⟨front, behind, detour, rfl, boundary, detours, rfl⟩ := inserted
  rw [pieces_boundary boundary, pieces_boundary boundary]
  cases detours with
  | dot =>
      rw [dot_pieces]
      unfold Yields
      simp only [walk_skips_dot]
      exact ⟨fun yields => ⟨answer, yields, .same _⟩, fun yields => ⟨answer, yields, .same _⟩⟩
  | slash =>
      have same : pieces ([charSlash] ++ behind) = pieces behind := pieces_slash behind
      rw [same]
      exact ⟨fun yields => ⟨answer, yields, .same _⟩, fun yields => ⟨answer, yields, .same _⟩⟩
  | @updown ds name reached sub =>
      rw [detour_pieces sub]
      obtain ⟨entry, both, rest⟩ := updown_alike stands tree normal rfl boundary reached sub out
      rcases rest with busy | ⟨idle, first, plain⟩
      · constructor
        · intro yields
          obtain ⟨fuel, runs⟩ := both.straight.1 yields
          exact ⟨answer, both.detour.2 ⟨fuel, walk_stores reading busy _ _ runs⟩, .same _⟩
        · intro yields
          obtain ⟨fuel, runs⟩ := both.detour.1 yields
          exact ⟨answer, both.straight.2 ⟨fuel, walk_stores reading busy _ _ runs⟩, .same _⟩
      · have climbed : firstCluster (syntheticDir (ds.headD v.rootCluster)) =
            ds.headD v.rootCluster := by
          obtain ⟨_, walked⟩ := leads_walked out reached
          have valid := (directory_valid tree (walked_directory walked)).2
          have small := few_clusters stands
          exact first_cluster_set_first_cluster _ _ (by omega)
        have kind : attr (syntheticDir (ds.headD v.rootCluster)) = DirAttr.directory :=
          attr_set_first_cluster _ _
        constructor
        · intro yields
          rw [idle_yields reading idle (both.straight.1 yields)]
          refine ⟨_, both.detour.2 ⟨0, walk_idle _ idle⟩, .directory ?_ ?_ ?_⟩
          · exact kind.trans plain.symm
          · exact climbed.trans first.symm
          · exact is_directory_of_plain plain
        · intro yields
          rw [idle_yields reading idle (both.detour.1 yields)]
          refine ⟨_, both.straight.2 ⟨0, walk_idle _ idle⟩, .directory ?_ ?_ ?_⟩
          · exact plain.trans kind.symm
          · exact first.trans climbed.symm
          · exact is_directory_synthetic _

theorem normalises_of_normal (stands : Stands noFailure s v) (tree : Tree v)
    (normal : Normal v path) : Normalises v (core s) path := by
  have reading := stands_reading stands
  have split := (components_iff path).2 normal.short
  obtain ⟨piece, member, other⟩ := normal.named
  refine ⟨split, assigned_of_named reading split ⟨piece, member, other⟩, ?_⟩
  intro path' inserted
  have split' := inserted_split split inserted
  have member' := inserted_piece inserted member
  have ordinary := ordinary_of_piece member
  have ordinary' := ordinary_of_piece member'
  have there : Follows (core s) path path' := by
    intro out answer answers
    obtain ⟨answer', yields, alike⟩ := (inserted_yields stands tree normal inserted out answer).1
      ((answer_iff ordinary split).1 answers)
    exact ⟨answer', (answer_iff ordinary' split').2 yields, alike⟩
  have back : Follows (core s) path' path := by
    intro out answer answers
    obtain ⟨answer', yields, alike⟩ := (inserted_yields stands tree normal inserted out answer).2
      ((answer_iff ordinary' split').1 answers)
    exact ⟨answer', (answer_iff ordinary split).2 yields, alike⟩
  exact ⟨same_answers_of_follows there back,
    assigned_of_named reading split' ⟨piece, member', other⟩,
    indistinguishable_of_follows there back ordinary ordinary'⟩

theorem not_assigned_of_idle {d s₀ : Fat32Filesystem} (reading : Reading noFailure s₀ d)
    (ordinary : Ordinary path) (split : components path = pieces path)
    (idle : Idle d d.rootCluster (pieces path)) : ¬ Assigned d path := by
  intro assigned
  let held : UInt8 → PathOut := fun byte => ⟨fun _ => byte, 0, 0⟩
  obtain ⟨reached, answers, same⟩ :=
    assigned (held 0) (held 1) _ (idle_answer ordinary split idle (held 0))
  have found := yields_unique reading ((answer_iff ordinary split).1 answers)
    ((answer_iff ordinary split).1 (idle_answer ordinary split idle (held 1)))
  cases found
  have bytes : (1 : UInt8) = 0 := congrFun same 0
  exact absurd bytes (by decide)

theorem slash_inserted (v : Volume) (path : List UInt8) : Inserted v path (charSlash :: path) :=
  ⟨[], path, [charSlash], rfl, .inl rfl, .slash, rfl⟩

theorem named_of_normalises (stands : Stands noFailure s v)
    (normalises : Normalises v (core s) path) :
    ∃ piece ∈ pieces path, piece ≠ [charDot] ∧ piece ≠ [charDot, charDot] := by
  have reading := stands_reading stands
  by_contra unnamed
  have idle : Idle (core s) (core s).rootCluster (pieces path) := by
    intro piece member
    by_contra other
    rw [not_or, not_and_or] at other
    exact unnamed ⟨piece, member, other.1, other.2.resolve_right (not_not_intro rfl)⟩
  by_cases ordinary : Ordinary path
  · exact not_assigned_of_idle reading ordinary normalises.split idle normalises.assigned
  by_cases empty : path = []
  · -- the empty path fails, `./` does not
    subst empty
    let out : PathOut := ⟨fun _ => 0, 0, 0⟩
    have dot : Inserted v [] [charDot, charSlash] :=
      ⟨[], [], [charDot, charSlash], rfl, .inl rfl, .dot, rfl⟩
    have fails : Answer (core s) [] out none := ⟨0, runs_pure none _⟩
    obtain ⟨answer', answers, same⟩ := ((normalises.inserted _ dot).1 out).1 none fails
    have here : Ordinary [charDot, charSlash] := ⟨by decide, by decide⟩
    have split : components [charDot, charSlash] = pieces [charDot, charSlash] := by decide
    have dots : Idle (core s) (core s).rootCluster (pieces [charDot, charSlash]) := by
      intro piece member
      have only : pieces [charDot, charSlash] = [[charDot]] := by decide
      rw [only] at member
      exact .inl (List.mem_singleton.1 member)
    have found := yields_unique reading ((answer_iff here split).1 answers)
      ((answer_iff here split).1 (idle_answer here split dots out))
    rw [found] at same
    exact same
  · -- what is left is the path of the root
    have root : path = [charSlash] := by
      by_contra other
      exact ordinary ⟨empty, other⟩
    subst root
    have twice := (normalises.inserted _ (slash_inserted v [charSlash])).2.1
    have here : Ordinary [charSlash, charSlash] := ⟨by decide, by decide⟩
    have split : components [charSlash, charSlash] = pieces [charSlash, charSlash] := by decide
    have none : Idle (core s) (core s).rootCluster (pieces [charSlash, charSlash]) := by
      have only : pieces [charSlash, charSlash] = [] := by decide
      rw [only]
      exact fun piece member => absurd member List.not_mem_nil
    exact not_assigned_of_idle reading here split none twice

theorem plainly_of_normalises (stands : Stands noFailure s v) (tree : Tree v)
    (normalises : Normalises v (core s) path) (whole : path = front ++ behind)
    (boundary : Boundary front) (dots : ∀ piece ∈ pieces behind, piece = [charDot])
    (walked : Walked v out (pieces front) ds entry) (sub : Subdirectory v ds name) :
    attr entry.entry = DirAttr.directory := by
  have reading := stands_reading stands
  have both := both_of_walked stands tree walked sub
  have idle : Idle (core s) (ds.headD v.rootCluster) (pieces behind) :=
    fun piece member => .inl (dots piece member)
  have inserted : Inserted v path
      (front ++ (name ++ [charSlash, charDot, charDot, charSlash] ++ behind)) :=
    ⟨front, behind, _, whole, boundary, .updown (walked_leads walked) sub, rfl⟩
  obtain ⟨piece, member, _⟩ := named_of_normalises stands normalises
  have split := normalises.split
  have split' := inserted_split split inserted
  have ordinary := ordinary_of_piece member
  have ordinary' := ordinary_of_piece (inserted_piece inserted member)
  have straight : Answer (core s) path out (some (ds.headD v.rootCluster, entry)) := by
    rw [answer_iff ordinary split, whole, pieces_boundary boundary, both.straight]
    exact ⟨0, walk_idle entry idle⟩
  obtain ⟨answer', answers, same⟩ := ((normalises.inserted _ inserted).1 out).1 _ straight
  rw [answer_iff ordinary' split', pieces_boundary boundary, detour_pieces sub, both.detour]
    at answers
  rw [idle_yields reading idle answers] at same
  exact same.2.1.symm.trans (attr_set_first_cluster _ _)

/-- A path is normalised exactly when its parts fit the buffer of `resolvePath`, one of them is a
name, and no detour at its end replaces an entry with a special attribute. -/
theorem normalises_iff (stands : Stands noFailure s v) (tree : Tree v) :
    Normalises v (core s) path ↔ Normal v path := by
  constructor
  · intro normalises
    refine ⟨(components_iff path).1 normalises.split, named_of_normalises stands normalises, ?_⟩
    intro front behind whole boundary dots out ds entry walked sub
    obtain ⟨name, sub⟩ := sub
    exact plainly_of_normalises stands tree normalises whole boundary dots walked sub
  · exact normalises_of_normal stands tree

/-- The directory `D` of the small volume has no subdirectory. -/
theorem small_directory_normalises :
    Normalises (volumeOf smallVolume) (core smallVolume) [charSlash, 0x44] := by
  apply (normalises_iff small_volume_stands small_volume_tree).2
  have only : pieces [charSlash, 0x44] = [[0x44]] := by decide
  refine ⟨by decide, ⟨[0x44], by decide, by decide, by decide⟩, ?_⟩
  intro front behind whole boundary dots out ds entry walked sub
  rw [whole, pieces_boundary boundary] at only
  rcases List.append_eq_singleton_iff.1 only with ⟨_, later⟩ | ⟨all, _⟩
  · rw [later] at dots
    exact absurd (dots _ (List.mem_singleton_self _)) (by decide)
  · rw [all] at walked
    rcases small_volume_directories (walked_directory walked) with rfl | rfl
    · obtain ⟨_, step, rfl⟩ := walked_leads walked
      cases step
    · obtain ⟨_, sub⟩ := sub
      obtain ⟨cs, found, chain, located, _⟩ := sub.found
      cases follows_unique chain.links (small_volume_chain (by decide)).links
      exact absurd (List.mem_of_find?_eq_some located) (small_volume_sub found)

/-- The path of the root: a second slash leaves the caller's entry as it was. -/
theorem root_not_normalised : Stands noFailure smallVolume (volumeOf smallVolume) ∧
    Tree (volumeOf smallVolume) ∧
      ¬ Normalises (volumeOf smallVolume) (core smallVolume) [charSlash] := by
  refine ⟨small_volume_stands, small_volume_tree, fun normalises => ?_⟩
  obtain ⟨piece, member, _⟩ := named_of_normalises small_volume_stands normalises
  have none : pieces [charSlash] = [] := by decide
  rw [none] at member
  exact List.not_mem_nil member

end Result

end CassiOS.Fat32.PathNormalisation
