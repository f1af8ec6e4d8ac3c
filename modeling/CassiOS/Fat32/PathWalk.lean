import CassiOS.Fat32.DirectoryModel
import CassiOS.Fat32.CacheTransparency

/-!
# Walking paths

`resolvePath` takes the components of a path one after the other and keeps only a cluster
number in between. On a volume whose directories form a tree it follows the tree exactly as
long as no component before the last one names a file: the source does not look at the
directory attribute of an entry it goes on from.
-/

namespace CassiOS.Fat32.PathWalk

open CassiOS.Support.PartialProgram
open CassiOS.Support.Chain
open CassiOS.Fat32.Types
open CassiOS.Fat32.Names
open CassiOS.Fat32.Device
open CassiOS.Fat32.Filesystem
open CassiOS.Fat32.VolumeModel
open CassiOS.Fat32.FatModel
open CassiOS.Fat32.FileModel
open CassiOS.Fat32.DirectoryModel

set_option autoImplicit false

section Components

def componentsFrom : Nat → List UInt8 → List (List UInt8)
  | 0, _ => []
  | rounds + 1, path =>
      if path = [] then []
      else if (takeComponent path).1 = [] then componentsFrom rounds (takeComponent path).2
      else (takeComponent path).1 :: componentsFrom rounds (takeComponent path).2

/-- The components of a path, as `resolvePath` cuts it. -/
def components (path : List UInt8) : List (List UInt8) :=
  let rest := if path.head? = some charSlash then path.tail else path
  componentsFrom (rest.length + 1) rest

/-- A step that ends the walk when it finds nothing. -/
def andThen {α β : Type} (x : Fs (Option α)) (f : α → Fs (Option β)) : Fs (Option β) := do
  match ← x with
  | none => pure none
  | some a => f a

/-- One round of `resolvePath` for a component that is not empty. -/
def walkComponent (fuel : Nat) (name : List UInt8) (cluster : Nat) (out : PathOut) :
    Fs (Option (Nat × PathOut)) :=
  if name = [charDot] then pure (some (cluster, out))
  else if name = [charDot, charDot] then fun s =>
    if cluster = s.rootCluster then some (some (cluster, out), s)
    else andThen (parentOf cluster)
      (fun parent => pure (some (parent, ⟨syntheticDir parent, 0, 0⟩))) s
  else andThen (findEntry fuel cluster name) fun found =>
    pure (some (firstCluster found.entry, ⟨found.entry, found.cluster, found.offset⟩))

def walkComponents (fuel : Nat) : List (List UInt8) → Nat → PathOut → Fs (Option (Nat × PathOut))
  | [], cluster, out => pure (some (cluster, out))
  | name :: rest, cluster, out =>
      andThen (walkComponent fuel name cluster out) fun reached =>
        walkComponents fuel rest reached.1 reached.2

theorem and_then_of_some {α β : Type} {x : Fs (Option α)} {f : α → Fs (Option β)}
    {s s' : Fat32Filesystem} {a : α} (first : x s = some (some a, s')) :
    andThen x f s = f a s' := bind_of_some first

theorem and_then_eq_some {α β : Type} {x : Fs (Option α)} {f : α → Fs (Option β)}
    {s t : Fat32Filesystem} {b : β} (run : andThen x f s = some (some b, t)) :
    ∃ a s', x s = some (some a, s') ∧ f a s' = some (some b, t) := by
  obtain ⟨_ | a, s', first, rest⟩ := bind_eq_some.1 run
  · cases rest
  · exact ⟨a, s', first, rest⟩

theorem and_then_assoc {α β γ : Type} (x : Fs (Option α)) (f : α → Fs (Option β))
    (g : β → Fs (Option γ)) : andThen (andThen x f) g = andThen x fun a => andThen (f a) g := by
  unfold andThen
  rw [bind_assoc]
  congr 1
  funext answer
  cases answer <;> rfl

/-- A step that looks at the state first, where it goes on with `g`. -/
theorem and_then_branch {α β : Type} {c : Fat32Filesystem → Prop} [DecidablePred c]
    {now : Fat32Filesystem → Option (Option α × Fat32Filesystem)} {g : Fs (Option α)}
    {f : α → Fs (Option β)} {s : Fat32Filesystem} (no : ¬ c s) :
    andThen (fun s => if c s then now s else g s) f s = andThen g f s := by
  have same : (fun s => if c s then now s else g s) s = g s := if_neg no
  change ((fun s => if c s then now s else g s) s).bind _ = (g s).bind _
  rw [same]

theorem walk_path_eq (fuel rounds : Nat) (path : List UInt8) (cluster : Nat) (out : PathOut) :
    walkPath fuel rounds path cluster out =
      walkComponents fuel (componentsFrom rounds path) cluster out := by
  induction rounds generalizing path cluster out with
  | zero => rfl
  | succ rounds ih =>
      unfold walkPath componentsFrom
      by_cases done : path = []
      · rw [if_pos done, if_pos done]
        rfl
      rw [if_neg done, if_neg done]
      dsimp only
      by_cases empty : (takeComponent path).1 = []
      · rw [if_pos (.inl empty), if_pos empty]
        exact ih _ _ _
      rw [if_neg empty]
      unfold walkComponents walkComponent
      by_cases dot : (takeComponent path).1 = [charDot]
      · rw [if_pos (.inr dot), if_pos dot, ih]
        rfl
      rw [if_neg (not_or.2 ⟨empty, dot⟩), if_neg dot]
      by_cases dots : (takeComponent path).1 = [charDot, charDot]
      · rw [if_pos dots, if_pos dots]
        funext s
        by_cases root : cluster = s.rootCluster
        · rw [if_pos root, ih]
          symm
          apply and_then_of_some (a := (cluster, out))
            (f := fun reached => walkComponents fuel _ reached.1 reached.2)
          exact if_pos root
        · rw [if_neg root]
          simp only [ih]
          refine Eq.trans ?_ (and_then_branch root).symm
          rw [and_then_assoc]
          exact congrFun (bind_congr fun answer => by cases answer <;> rfl) s
      · rw [if_neg dots, if_neg dots, and_then_assoc]
        simp only [ih]
        exact bind_congr fun answer => by cases answer <;> rfl

end Components

section Tree

/-- A directory of the tree: the first clusters of the directories on the way to it from the
root, itself first. -/
inductive Directory (v : Volume) : List Nat → Prop
  | root : Directory v []
  | sub {ds cs : List Nat} {found : Found} : Directory v ds →
      Chain v (ds.headD v.rootCluster) cs → found ∈ entriesOf v cs →
      isDirectory found.entry = true → Directory v (firstCluster found.entry :: ds)

/-- The cluster that the `..` slot of a directory names; 0 stands for the root. -/
def parentIn (v : Volume) (c : Nat) : Nat :=
  let parent := firstCluster (slotAt (v.cluster c) 1)
  if parent = 0 then v.rootCluster else parent

def FileCluster (v : Volume) (c : Nat) : Prop :=
  ∃ ds cs found fs, Directory v ds ∧ Chain v (ds.headD v.rootCluster) cs ∧
    found ∈ entriesOf v cs ∧ isDirectory found.entry = false ∧
    Chain v (firstCluster found.entry) fs ∧ c ∈ fs

/-- The directories form a tree and share no cluster with a file. -/
structure Tree (v : Volume) : Prop where
  chain : ∀ ds, Directory v ds → ∃ c cs, Chain v (ds.headD v.rootCluster) (c :: cs)
  parent : ∀ c ds, Directory v (c :: ds) → parentIn v c = ds.headD v.rootCluster
  below : ∀ c ds, Directory v (c :: ds) → c ≠ v.rootCluster
  files : ∀ ds cs, Directory v ds → Chain v (ds.headD v.rootCluster) cs →
    ∀ c ∈ cs, ¬ FileCluster v c

inductive Place where
  | directory (path : List Nat)
  | file (found : Found)

def Place.cluster (v : Volume) : Place → Nat
  | .directory ds => ds.headD v.rootCluster
  | .file found => firstCluster found.entry

def Place.isDirectory : Place → Bool
  | .directory _ => true
  | .file _ => false

/-- One component of the reference walk. It leads on from directories only. -/
inductive Step (v : Volume) : Place → List UInt8 → Place → Prop
  | stay (ds : List Nat) : Step v (.directory ds) [charDot] (.directory ds)
  | top : Step v (.directory []) [charDot, charDot] (.directory [])
  | up (c : Nat) (ds : List Nat) :
      Step v (.directory (c :: ds)) [charDot, charDot] (.directory ds)
  | down {ds cs : List Nat} {name : List UInt8} {found : Found} :
      name ≠ [charDot] → name ≠ [charDot, charDot] → Chain v (ds.headD v.rootCluster) cs →
      lookup v cs name = some found → isDirectory found.entry = true →
      Step v (.directory ds) name (.directory (firstCluster found.entry :: ds))
  | leaf {ds cs : List Nat} {name : List UInt8} {found : Found} :
      name ≠ [charDot] → name ≠ [charDot, charDot] → Chain v (ds.headD v.rootCluster) cs →
      lookup v cs name = some found → isDirectory found.entry = false →
      Step v (.directory ds) name (.file found)

def Leads (v : Volume) : Place → List (List UInt8) → Place → Prop
  | place, [], last => place = last
  | place, name :: rest, last => ∃ next, Step v place name next ∧ Leads v next rest last

variable {v : Volume}

theorem step_unique {place p q : Place} {name : List UInt8} (left : Step v place name p)
    (right : Step v place name q) : p = q := by
  cases left with
  | stay ds =>
      cases right with
      | stay => rfl
      | down other => exact absurd rfl other
      | leaf other => exact absurd rfl other
  | top =>
      cases right with
      | top => rfl
      | down _ other => exact absurd rfl other
      | leaf _ other => exact absurd rfl other
  | up c ds =>
      cases right with
      | up => rfl
      | down _ other => exact absurd rfl other
      | leaf _ other => exact absurd rfl other
  | down dot dots chain found kind =>
      cases right with
      | stay => exact absurd rfl dot
      | top => exact absurd rfl dots
      | up => exact absurd rfl dots
      | down _ _ chain' found' kind' =>
          cases follows_unique chain.links chain'.links
          cases found.symm.trans found'
          rfl
      | leaf _ _ chain' found' kind' =>
          cases follows_unique chain.links chain'.links
          cases found.symm.trans found'
          cases kind.symm.trans kind'
  | leaf dot dots chain found kind =>
      cases right with
      | stay => exact absurd rfl dot
      | top => exact absurd rfl dots
      | up => exact absurd rfl dots
      | down _ _ chain' found' kind' =>
          cases follows_unique chain.links chain'.links
          cases found.symm.trans found'
          cases kind.symm.trans kind'
      | leaf _ _ chain' found' kind' =>
          cases follows_unique chain.links chain'.links
          cases found.symm.trans found'
          rfl

/-- Only at the root does `..` lead nowhere else. -/
theorem root_of_climb_stays {ds : List Nat}
    (move : Step v (.directory ds) [charDot, charDot] (.directory ds)) : ds = [] := by
  cases ds with
  | nil => rfl
  | cons c ds =>
      have target := step_unique move (.up c ds)
      have lengths := congrArg List.length (Place.directory.inj target)
      exact absurd lengths (Nat.succ_ne_self ds.length)

theorem leads_append {place last : Place} {xs ys : List (List UInt8)} :
    Leads v place (xs ++ ys) last ↔ ∃ next, Leads v place xs next ∧ Leads v next ys last := by
  induction xs generalizing place with
  | nil =>
      constructor
      · exact fun leads => ⟨place, rfl, leads⟩
      · rintro ⟨next, rfl, leads⟩
        exact leads
  | cons x xs ih =>
      constructor
      · rintro ⟨next, step, leads⟩
        obtain ⟨middle, first, rest⟩ := ih.1 leads
        exact ⟨middle, ⟨next, step, first⟩, rest⟩
      · rintro ⟨middle, ⟨next, step, first⟩, rest⟩
        exact ⟨next, step, ih.2 ⟨middle, first, rest⟩⟩

theorem leads_unique {place p q : Place} {names : List (List UInt8)} (left : Leads v place names p)
    (right : Leads v place names q) : p = q := by
  induction names generalizing place with
  | nil => exact left.symm.trans right
  | cons name names ih =>
      obtain ⟨next, step, rest⟩ := left
      obtain ⟨next', step', rest'⟩ := right
      cases step_unique step step'
      exact ih rest rest'

theorem leads_from_file {found : Found} {names : List (List UInt8)} {place : Place}
    (leads : Leads v (.file found) names place) : names = [] := by
  cases names with
  | nil => rfl
  | cons name names =>
      obtain ⟨next, step, _⟩ := leads
      cases step

end Tree

section Walking

variable {faults : Faults} {v : Volume}

def NoFileInside (v : Volume) (place : Place) (names : List (List UInt8)) : Prop :=
  ∀ pre post, names = pre ++ post → post ≠ [] → ∀ found, ¬ Leads v place pre (.file found)

/-- The stored entry tells what the path leads to. -/
structure Described (v : Volume) (place : Place) (out : PathOut) : Prop where
  cluster : firstCluster out.entry = place.cluster v
  kind : isDirectory out.entry = place.isDirectory
  file : ∀ found, place = .file found → out = ⟨found.entry, found.cluster, found.offset⟩

/-- How a walk from the directory `ds` ends that stored `out` before. -/
structure Arrives (v : Volume) (ds : List Nat) (out : PathOut) (names : List (List UInt8))
    (place : Place) (reached : Nat × PathOut) : Prop where
  leads : Leads v (.directory ds) names place
  cluster : reached.1 = place.cluster v
  inTree : ∀ ds', place = .directory ds' → Directory v ds'
  entry : Described v place reached.2 ∨ place = .directory ds ∧ reached.2 = out ∧
    ∀ name ∈ names, name = [charDot] ∨ name = [charDot, charDot]

theorem is_directory_synthetic (c : Nat) : isDirectory (syntheticDir c) = true := by
  unfold isDirectory syntheticDir
  rw [attr_set_first_cluster]
  decide

theorem synthetic_described (ds : List Nat) (small : ds.headD v.rootCluster < 4294967296) :
    Described v (.directory ds) ⟨syntheticDir (ds.headD v.rootCluster), 0, 0⟩ where
  cluster := first_cluster_set_first_cluster _ _ small
  kind := is_directory_synthetic _
  file := nofun

theorem directory_valid (tree : Tree v) {ds : List Nat} (inTree : Directory v ds) :
    v.Valid (ds.headD v.rootCluster) := by
  obtain ⟨c, cs, chain⟩ := tree.chain ds inTree
  rw [chain.links.1]
  exact chain.valid c List.mem_cons_self

theorem first_sector_slot {s : Fat32Filesystem} (stands : Stands faults s v) {c : Nat}
    (valid : v.Valid c) :
    slotAt (fun j => sectorByte (s.ata.sectors (clusterToLba s c)) j) 1 =
      slotAt (v.cluster c) 1 := by
  have inRange := stands.valid valid
  have perCluster := stands.layout.perCluster
  funext k
  have low := k.isLt
  unfold slotAt
  rw [← stands.content]
  symm
  have inside : (2 ≤ c ∧ c < s.fatEntryCount) ∧
      dirEntrySize * 1 + k.val < 512 * s.sectorsPerCluster := by
    refine ⟨inRange, ?_⟩
    unfold dirEntrySize
    omega
  have first : (dirEntrySize * 1 + k.val) / 512 = 0 := by
    unfold dirEntrySize
    omega
  refine (if_pos inside).trans ?_
  rw [stands.layout.cluster_lba inRange, first]
  rfl

/-- What the `..` slot says, unless it cannot be read. -/
theorem parent_of_answers {c : Nat} (valid : v.Valid c) :
    Ensures (Stands faults) (parentOf c) v (Answers faults v (some (parentIn v c))) := by
  intro s stands
  have inRange := stands.valid valid
  have lba := stands.layout.cluster_lba inRange
  have outside : ¬ Cache.Mirror s (clusterToLba s c) :=
    stands.layout.data_unmirrored (by omega)
  obtain ⟨data, s', run, stands', _, outcome⟩ := read_sector_stands stands outside
  intro answer t returned
  have rest := (bind_of_some run).symm.trans returned
  rcases outcome with found | ⟨missing, fails⟩
  · rw [found] at rest
    cases rest
    refine ⟨v, stands', rfl, .inl ?_⟩
    rw [first_sector_slot stands valid, stands.root]
    rfl
  · rw [missing] at rest
    cases rest
    exact ⟨v, stands', answers_failed v _ (.inl fails)⟩

theorem ensures_and_then {α β : Type} {x : Fs (Option α)} {f : α → Fs (Option β)}
    {P : Option α → Volume → Prop} {Q : Option β → Volume → Prop}
    (first : Ensures (Stands faults) x v P)
    (rest : ∀ a w, P (some a) w → Ensures (Stands faults) (f a) w Q)
    (fails : ∀ w, P none w → Q none w) : Ensures (Stands faults) (andThen x f) v Q := by
  apply ensures_bind first
  rintro (_ | a) w holds
  · exact ensures_pure (fails w holds)
  · exact rest a w holds

theorem directory_above {c : Nat} {ds : List Nat} (inTree : Directory v (c :: ds)) :
    Directory v ds := by
  cases inTree with
  | sub above _ _ _ => exact above

/-- A walk from the directory `ds` that gives up or arrives where the reference walk does. -/
def Goes (v : Volume) (ds : List Nat) (out : PathOut) (names : List (List UInt8))
    (answer : Option (Nat × PathOut)) (w : Volume) : Prop :=
  w = v ∧ ∀ reached, answer = some reached → ∃ place, Arrives v ds out names place reached

theorem climb_arrives (tree : Tree v) (small : v.fatEntryCount ≤ 4294967296) {c : Nat}
    {ds : List Nat} (inTree : Directory v (c :: ds)) (out : PathOut) :
    Ensures (Stands faults) (andThen (parentOf c) fun parent =>
      pure (some (parent, ⟨syntheticDir parent, 0, 0⟩))) v
      (Goes v (c :: ds) out [[charDot, charDot]]) := by
  have above := directory_above inTree
  have valid := directory_valid tree above
  have named : parentIn v c = ds.headD v.rootCluster := tree.parent c ds inTree
  apply ensures_and_then (parent_of_answers (directory_valid tree inTree))
  · rintro parent w ⟨rfl, found | ⟨missing, _⟩⟩
    · obtain rfl := Option.some.inj found
      apply ensures_pure
      refine ⟨rfl, ?_⟩
      rintro _ ⟨⟩
      refine ⟨.directory ds, ⟨_, .up c ds, rfl⟩, named, ?_, .inl ?_⟩
      · rintro _ ⟨⟩
        exact above
      · have described := synthetic_described ds (Nat.lt_of_lt_of_le valid.2 small)
        rw [← named] at described
        exact described
    · cases missing
  · rintro w ⟨rfl, _⟩
    exact ⟨rfl, nofun⟩

/-- One component from a directory of the tree: where the walk goes on, the reference walk
does too, to the same place. -/
theorem walk_component_arrives (tree : Tree v) (small : v.fatEntryCount ≤ 4294967296)
    {ds : List Nat} (inTree : Directory v ds) (fuel : Nat) (name : List UInt8) (out : PathOut) :
    Ensures (Stands faults) (walkComponent fuel name (ds.headD v.rootCluster) out) v
      (Goes v ds out [name]) := by
  unfold walkComponent
  by_cases dot : name = [charDot]
  · rw [if_pos dot]
    apply ensures_pure
    refine ⟨rfl, ?_⟩
    rintro _ ⟨⟩
    subst dot
    refine ⟨.directory ds, ⟨_, .stay ds, rfl⟩, rfl, ?_, .inr ⟨rfl, rfl, ?_⟩⟩
    · rintro _ ⟨⟩
      exact inTree
    · exact fun n member => .inl (List.mem_singleton.1 member)
  rw [if_neg dot]
  by_cases dots : name = [charDot, charDot]
  · rw [if_pos dots]
    subst dots
    intro s stands
    cases ds with
    | nil =>
        -- above the root there is nothing
        rintro _ _ run
        have stays := (if_pos stands.root.symm).symm.trans run
        obtain ⟨rfl, rfl⟩ := Prod.mk.inj (Option.some.inj stays)
        refine ⟨v, stands, rfl, ?_⟩
        rintro _ ⟨⟩
        refine ⟨.directory [], ⟨_, .top, rfl⟩, rfl, ?_, .inr ⟨rfl, rfl, ?_⟩⟩
        · rintro _ ⟨⟩
          exact inTree
        · exact fun n member => .inr (List.mem_singleton.1 member)
    | cons c ds =>
        have below : ¬ c = s.rootCluster := stands.root ▸ tree.below c ds inTree
        intro answer t run
        exact climb_arrives tree small inTree out s stands answer t ((if_neg below).symm.trans run)
  · rw [if_neg dots]
    obtain ⟨c, cs, chain⟩ := tree.chain ds inTree
    apply ensures_and_then (find_entry_answers fuel chain name)
    · rintro found w ⟨rfl, located | ⟨missing, _⟩⟩
      · have listed := List.mem_of_find?_eq_some located.symm
        apply ensures_pure
        refine ⟨rfl, ?_⟩
        rintro _ ⟨⟩
        cases kind : isDirectory found.entry with
        | true =>
            refine ⟨.directory (firstCluster found.entry :: ds),
              ⟨_, .down dot dots chain located.symm kind, rfl⟩, rfl, ?_, .inl ⟨rfl, kind, nofun⟩⟩
            rintro _ ⟨⟩
            exact .sub inTree chain listed kind
        | false =>
            refine ⟨.file found, ⟨_, .leaf dot dots chain located.symm kind, rfl⟩, rfl, nofun,
              .inl ⟨rfl, kind, ?_⟩⟩
            rintro _ ⟨⟩
            rfl
      · cases missing
    · rintro w ⟨rfl, _⟩
      exact ⟨rfl, nofun⟩

theorem arrives_append {ds ds' : List Nat} {out : PathOut} {xs ys : List (List UInt8)}
    {place : Place} {middle reached : Nat × PathOut}
    (first : Arrives v ds out xs (.directory ds') middle)
    (rest : Arrives v ds' middle.2 ys place reached) :
    Arrives v ds out (xs ++ ys) place reached where
  leads := leads_append.2 ⟨_, first.leads, rest.leads⟩
  cluster := rest.cluster
  inTree := rest.inTree
  entry := by
    rcases rest.entry with described | ⟨stays, same, dots⟩
    · exact .inl described
    rw [stays, same]
    rcases first.entry with described | ⟨home, unset, dots'⟩
    · exact .inl described
    · refine .inr ⟨home, unset, fun name member => ?_⟩
      rcases List.mem_append.1 member with left | right
      · exact dots' name left
      · exact dots name right

/-- A walk that goes on from no file gives up or arrives where the reference walk does. -/
theorem walk_components_goes (tree : Tree v) (small : v.fatEntryCount ≤ 4294967296) (fuel : Nat)
    {ds : List Nat} {names : List (List UInt8)} (out : PathOut) (inTree : Directory v ds)
    (clear : NoFileInside v (.directory ds) names) :
    Ensures (Stands faults) (walkComponents fuel names (ds.headD v.rootCluster) out) v
      (Goes v ds out names) := by
  induction names generalizing ds out with
  | nil =>
      apply ensures_pure
      refine ⟨rfl, ?_⟩
      rintro _ ⟨⟩
      refine ⟨.directory ds, rfl, rfl, ?_, .inr ⟨rfl, rfl, nofun⟩⟩
      rintro _ ⟨⟩
      exact inTree
  | cons name rest ih =>
      apply ensures_and_then (walk_component_arrives tree small inTree fuel name out)
      · rintro middle w ⟨rfl, goes⟩
        obtain ⟨place, arrives⟩ := goes middle rfl
        cases place with
        | file found =>
            cases rest with
            | nil =>
                apply ensures_pure
                refine ⟨rfl, ?_⟩
                rintro _ ⟨⟩
                exact ⟨_, arrives⟩
            | cons other rest =>
                exact absurd arrives.leads (clear [name] (other :: rest) rfl nofun found)
        | directory ds' =>
            have clear' : NoFileInside w (.directory ds') rest := by
              intro pre post split more found leads
              apply clear (name :: pre) post (by rw [split]; rfl) more found
              obtain ⟨next, step, rfl⟩ := arrives.leads
              exact ⟨_, step, leads⟩
            have position : middle.1 = ds'.headD w.rootCluster := arrives.cluster
            rw [position]
            intro s stands answer t run
            obtain ⟨_, stands', rfl, goes'⟩ :=
              ih middle.2 (arrives.inTree ds' rfl) clear' s stands answer t run
            refine ⟨_, stands', rfl, fun reached same => ?_⟩
            obtain ⟨place, arrives'⟩ := goes' reached same
            exact ⟨place, arrives_append arrives arrives'⟩
      · rintro w ⟨rfl, _⟩
        exact ⟨rfl, nofun⟩

theorem walk_components_arrive (tree : Tree v) (small : v.fatEntryCount ≤ 4294967296)
    {fuel : Nat} {ds : List Nat} {names : List (List UInt8)} {out : PathOut}
    {s s' : Fat32Filesystem} {reached : Nat × PathOut} (inTree : Directory v ds)
    (clear : NoFileInside v (.directory ds) names) (stands : Stands faults s v)
    (run : walkComponents fuel names (ds.headD v.rootCluster) out s = some (some reached, s')) :
    Stands faults s' v ∧ ∃ place, Arrives v ds out names place reached := by
  obtain ⟨_, stands', rfl, goes⟩ :=
    walk_components_goes tree small fuel out inTree clear s stands _ _ run
  exact ⟨stands', goes reached rfl⟩

theorem walk_components_append {fuel : Nat} {xs ys : List (List UInt8)} {cluster : Nat}
    {out : PathOut} {s s' : Fat32Filesystem} {reached : Nat × PathOut}
    (run : walkComponents fuel (xs ++ ys) cluster out s = some (some reached, s')) :
    ∃ middle s₁, walkComponents fuel xs cluster out s = some (some middle, s₁) ∧
      walkComponents fuel ys middle.1 middle.2 s₁ = some (some reached, s') := by
  induction xs generalizing cluster out s with
  | nil => exact ⟨(cluster, out), s, rfl, run⟩
  | cons x xs ih =>
      obtain ⟨middle, s₁, first, others⟩ := and_then_eq_some run
      obtain ⟨last, s₂, before, behind⟩ := ih others
      exact ⟨last, s₂, (and_then_of_some first).trans before, behind⟩

theorem clear_of_leads {place : Place} {ds : List Nat} {names : List (List UInt8)}
    (leads : Leads v place names (.directory ds)) : NoFileInside v place names := by
  rintro pre post rfl more found toFile
  obtain ⟨next, before, behind⟩ := leads_append.1 leads
  cases leads_unique before toFile
  exact more (leads_from_file behind)

theorem clear_of_append {place : Place} {xs ys : List (List UInt8)}
    (clear : NoFileInside v place (xs ++ ys)) : NoFileInside v place xs := by
  rintro pre post rfl more
  apply clear pre (post ++ ys) (List.append_assoc ..)
  exact fun none => more (List.append_eq_nil_iff.1 none).1

end Walking

section Result

variable {faults : Faults} {v : Volume} {fuel : Nat} {path : List UInt8} {out : PathOut}
  {s s' : Fat32Filesystem} {reached : Nat × PathOut}

/-- `c` starts a directory of the tree, whose clusters no file has. -/
def DirectoryCluster (v : Volume) (c : Nat) : Prop :=
  v.Valid c ∧ ∃ ds cs, Directory v ds ∧ c = ds.headD v.rootCluster ∧ Chain v c cs ∧
    ∀ d ∈ cs, ¬ FileCluster v d

structure WalksDirectories (v : Volume) (fuel : Nat) (s : Fat32Filesystem) (path : List UInt8)
    (out : PathOut) (reached : Nat × PathOut) : Prop where
  /-- A component other than `.` with more behind it resolved to a directory. -/
  directories : ∀ pre name post, components path = pre ++ name :: post → name ≠ [charDot] →
    post ≠ [] → ∃ before s₁ after s₂,
      walkComponents fuel pre s.rootCluster out s = some (some before, s₁) ∧
      walkComponent fuel name before.1 before.2 s₁ = some (some after, s₂) ∧
      (isDirectory after.2.entry = true ∨
        name = [charDot, charDot] ∧ before.1 = s.rootCluster)
  /-- Every component was looked up in a directory. -/
  lookups : ∀ pre name post, components path = pre ++ name :: post → ∃ before s₁,
    walkComponents fuel pre s.rootCluster out s = some (some before, s₁) ∧
      DirectoryCluster v before.1
  /-- The result is that of the reference walk; a path of dots in the root stores no entry. -/
  agrees : ∃ place, Leads v (.directory []) (components path) place ∧
    reached.1 = place.cluster v ∧ (Described v place reached.2 ∨
      reached.2 = out ∧ ∀ name ∈ components path, name = [charDot] ∨ name = [charDot, charDot])

theorem resolve_path_eq (long : path ≠ [charSlash])
    (found : resolvePath fuel path out s = some (some reached, s')) :
    walkComponents fuel (components path) s.rootCluster out s = some (some reached, s') := by
  unfold resolvePath at found
  by_cases empty : path = []
  · rw [if_pos empty] at found
    cases found
  · rw [if_neg empty, if_neg long] at found
    unfold components
    rw [← walk_path_eq]
    exact found

theorem directory_cluster_of_tree (tree : Tree v) {ds : List Nat} (inTree : Directory v ds) :
    DirectoryCluster v (ds.headD v.rootCluster) := by
  obtain ⟨c, cs, chain⟩ := tree.chain ds inTree
  exact ⟨directory_valid tree inTree, ds, c :: cs, inTree, rfl, chain,
    tree.files ds (c :: cs) inTree chain⟩

theorem root_walks_directories (stands : Stands faults s v) (tree : Tree v)
    (found : resolvePath fuel [charSlash] out s = some (some reached, s')) :
    WalksDirectories v fuel s [charSlash] out reached := by
  have none : components [charSlash] = [] := rfl
  have top : Directory v [] := .root
  cases found
  constructor
  · intro pre name post split
    rw [none] at split
    exact absurd split.symm (List.append_ne_nil_of_right_ne_nil pre nofun)
  · intro pre name post split
    rw [none] at split
    exact absurd split.symm (List.append_ne_nil_of_right_ne_nil pre nofun)
  · refine ⟨.directory [], rfl, stands.root, .inl ⟨?_, is_directory_synthetic _, nofun⟩⟩
    have valid := (directory_valid tree top).2
    have entries := stands.layout.entries
    have count := stands.count
    have position : ([] : List Nat).headD v.rootCluster = v.rootCluster := rfl
    rw [position] at valid
    have small : v.rootCluster < 4294967296 := by omega
    rw [← stands.root] at small
    exact (first_cluster_set_first_cluster _ _ small).trans stands.root

theorem few_clusters (stands : Stands faults s v) : v.fatEntryCount ≤ 4294967296 := by
  have entries := stands.layout.entries
  have count := stands.count
  omega

theorem position_before (stands : Stands faults s v) (tree : Tree v) {pre : List (List UInt8)}
    {name : List UInt8} {post : List (List UInt8)} (split : components path = pre ++ name :: post)
    (clear : NoFileInside v (.directory []) (pre ++ name :: post))
    (run : walkComponents fuel (components path) s.rootCluster out s = some (some reached, s')) :
    ∃ before s₁ ds, walkComponents fuel pre s.rootCluster out s = some (some before, s₁) ∧
      walkComponents fuel (name :: post) before.1 before.2 s₁ = some (some reached, s') ∧
      Stands faults s₁ v ∧ Arrives v [] out pre (.directory ds) before := by
  rw [split] at run
  obtain ⟨before, s₁, first, rest⟩ := walk_components_append run
  have first' := first
  rw [stands.root] at first'
  obtain ⟨stands₁, place, arrives⟩ :=
    walk_components_arrive tree (few_clusters stands) .root (clear_of_append clear) stands first'
  cases place with
  | file found => exact absurd arrives.leads (clear pre (name :: post) rfl nofun found)
  | directory ds => exact ⟨before, s₁, ds, first, rest, stands₁, arrives⟩

theorem walks_directories_of_clear (stands : Stands faults s v) (tree : Tree v)
    (clear : NoFileInside v (.directory []) (components path))
    (run : walkComponents fuel (components path) s.rootCluster out s = some (some reached, s')) :
    WalksDirectories v fuel s path out reached where
  directories := by
    intro pre name post split notDot more
    rw [split] at clear
    obtain ⟨before, s₁, ds, first, rest, stands₁, arrives⟩ :=
      position_before stands tree split clear run
    obtain ⟨after, s₂, step, _⟩ := and_then_eq_some rest
    refine ⟨before, s₁, after, s₂, first, step, ?_⟩
    have here : before.1 = ds.headD v.rootCluster := arrives.cluster
    rw [here] at step ⊢
    obtain ⟨_, _, rfl, goes⟩ := walk_component_arrives tree (few_clusters stands)
      (arrives.inTree ds rfl) fuel name before.2 s₁ stands₁ _ _ step
    obtain ⟨place, next⟩ := goes after rfl
    rcases next.entry with described | ⟨home, _, dots⟩
    · left
      rw [described.kind]
      cases place with
      | directory _ => rfl
      | file found =>
          have leads := leads_append.2 ⟨_, arrives.leads, next.leads⟩
          exact absurd leads (clear (pre ++ [name]) post (List.append_cons ..) more found)
    · right
      have up : name = [charDot, charDot] :=
        (dots name List.mem_cons_self).resolve_left notDot
      subst up
      obtain ⟨_, move, same⟩ := next.leads
      rw [same, home] at move
      exact ⟨rfl, (root_of_climb_stays move).symm ▸ stands.root.symm⟩
  lookups := by
    intro pre name post split
    rw [split] at clear
    obtain ⟨before, s₁, ds, first, _, _, arrives⟩ := position_before stands tree split clear run
    have here : before.1 = ds.headD v.rootCluster := arrives.cluster
    refine ⟨before, s₁, first, ?_⟩
    rw [here]
    exact directory_cluster_of_tree tree (arrives.inTree ds rfl)
  agrees := by
    rw [stands.root] at run
    obtain ⟨_, place, arrives⟩ :=
      walk_components_arrive tree (few_clusters stands) .root clear stands run
    refine ⟨place, arrives.leads, arrives.cluster, ?_⟩
    exact arrives.entry.imp_right fun ⟨_, same, dots⟩ => ⟨same, dots⟩

/-- A path that resolves is walked through directories and to where the reference walk leads
exactly when no component before the last one names a file. -/
theorem walks_directories_iff (stands : Stands faults s v) (tree : Tree v)
    (found : resolvePath fuel path out s = some (some reached, s')) :
    WalksDirectories v fuel s path out reached ↔
      NoFileInside v (.directory []) (components path) := by
  constructor
  · rintro walks pre post split more file toFile
    obtain ⟨pre, name, rfl⟩ : ∃ before name, pre = before ++ [name] := by
      rcases List.eq_nil_or_concat pre with rfl | ⟨before, name, rfl⟩
      · cases toFile
      · exact ⟨before, name, List.concat_eq_append⟩
    obtain ⟨_, before, _, leaf, rfl⟩ := leads_append.1 toFile
    rw [← List.append_cons] at split
    cases leaf with
    | leaf dot dots chain located kind =>
        obtain ⟨middle, s₁, after, s₂, first, step, directory⟩ :=
          walks.directories pre name post split dot more
        have toParent := first
        rw [stands.root] at toParent
        obtain ⟨stands₁, place, arrives⟩ := walk_components_arrive tree (few_clusters stands)
          .root (clear_of_leads before) stands toParent
        obtain rfl := leads_unique before arrives.leads
        have here : middle.1 = _ := arrives.cluster
        rw [here] at step
        obtain ⟨_, _, rfl, goes⟩ := walk_component_arrives tree (few_clusters stands)
          (arrives.inTree _ rfl) fuel name middle.2 s₁ stands₁ _ _ step
        obtain ⟨place, next⟩ := goes after rfl
        obtain ⟨_, move, rfl⟩ := next.leads
        obtain rfl := step_unique (.leaf dot dots chain located kind) move
        rcases next.entry with described | ⟨home, _⟩
        · rcases directory with set | ⟨up, _⟩
          · rw [described.kind] at set
            cases set
          · exact dots up
        · cases home
  · intro clear
    by_cases root : path = [charSlash]
    · subst root
      exact root_walks_directories stands tree found
    · exact walks_directories_of_clear stands tree clear (resolve_path_eq root found)

/-- The root directory in cluster 2 names a directory `D` in cluster 3 and an empty file `A`. -/
def smallSectors (lba : Nat) : Sector := fun k =>
  if lba = 1 ∨ lba = 2 then
    if k.val % 4 = 0 then 0xF8 else if k.val % 4 = 3 then 0x0F else 0xFF
  else if lba = 3 then
    if k = 0 then 0x44 else if k.val < 11 then 0x20 else if k = 11 then DirAttr.directory
    else if k = 26 then 3
    else if k = 32 then 0x41 else if 32 < k.val ∧ k.val < 43 then 0x20
    else if k = 43 then DirAttr.archive else 0
  else if lba = 4 then
    if k = 0 ∨ k = 32 ∨ k = 33 then charDot else if k.val < 11 then 0x20
    else if k = 11 ∨ k = 43 then DirAttr.directory else if k = 26 then 3
    else if 32 < k.val ∧ k.val < 43 then 0x20 else 0
  else 0

def smallVolume : Fat32Filesystem where
  ata := ⟨smallSectors, []⟩
  heap := ⟨[], fun _ => 0⟩
  bytesPerSector := 512
  sectorsPerCluster := 1
  bytesPerCluster := 512
  reservedSectors := 1
  numFats := 2
  fatSize := 1
  fatStartSector := 1
  dataStartSector := 3
  rootCluster := 2
  totalClusters := 2
  fatEntryCount := 4
  handles := List.replicate 16 ⟨0, 0, 0, 0, false, false⟩
  cache := List.replicate cacheSize ⟨0, none, 0, false, false⟩
  cacheAge := 0
  lfnOverrun := false

theorem small_volume_stands : Stands ⟨false, false⟩ smallVolume (volumeOf smallVolume) where
  layout := by constructor <;> decide
  steady := CacheTransparency.steady_empty rfl rfl rfl
  content := rfl

/-- The FAT of the volume, its two directories, and where the `..` of the second one leads. -/
theorem small_volume_reads :
    (∀ c : Fin 4, (volumeOf smallVolume).fat c = fatEoc) ∧
      (entriesOf (volumeOf smallVolume) [2]).map
          (fun found => (firstCluster found.entry, isDirectory found.entry)) =
        [(3, true), (0, false)] ∧
      (entriesOf (volumeOf smallVolume) [3]).length = 0 ∧
      (lookup (volumeOf smallVolume) [2] [0x44]).map (fun found => isDirectory found.entry) =
        some true ∧
      parentIn (volumeOf smallVolume) 3 = smallVolume.rootCluster := by
  decide +kernel

theorem small_volume_fat {c : Nat} (inside : c < 4) : (volumeOf smallVolume).fat c = fatEoc :=
  small_volume_reads.1 ⟨c, inside⟩

theorem small_volume_chain {c : Nat} (valid : (volumeOf smallVolume).Valid c) :
    Chain (volumeOf smallVolume) c [c] where
  links := by
    have below : c < 4 := valid.2
    refine ⟨rfl, Nat.not_le.2 (by unfold fatEoc; omega), ?_⟩
    exact Nat.le_of_eq (small_volume_fat below).symm
  valid := by
    intro d member
    rw [List.mem_singleton.1 member]
    exact valid

theorem small_volume_root {found : Found}
    (listed : found ∈ entriesOf (volumeOf smallVolume) [2]) :
    firstCluster found.entry = 3 ∧ isDirectory found.entry = true ∨
      firstCluster found.entry = 0 ∧ isDirectory found.entry = false := by
  have image := List.mem_map_of_mem
    (f := fun found : Found => (firstCluster found.entry, isDirectory found.entry)) listed
  rw [small_volume_reads.2.1] at image
  rcases List.mem_cons.1 image with same | image
  · exact .inl (Prod.mk.inj same)
  · exact .inr (Prod.mk.inj (List.mem_singleton.1 image))

theorem small_volume_sub (found : Found) : found ∉ entriesOf (volumeOf smallVolume) [3] := by
  rw [List.eq_nil_of_length_eq_zero small_volume_reads.2.2.1]
  exact List.not_mem_nil

theorem small_volume_directories {ds : List Nat} (inTree : Directory (volumeOf smallVolume) ds) :
    ds = [] ∨ ds = [3] := by
  induction inTree with
  | root => exact .inl rfl
  | sub above chain listed kind known =>
      rcases known with rfl | rfl
      · cases follows_unique chain.links (small_volume_chain (by decide)).links
        rcases small_volume_root listed with ⟨at_, _⟩ | ⟨_, file⟩
        · right
          rw [at_]
        · rw [kind] at file
          cases file
      · cases follows_unique chain.links (small_volume_chain (by decide)).links
        exact absurd listed (small_volume_sub _)

theorem small_volume_no_files (c : Nat) : ¬ FileCluster (volumeOf smallVolume) c := by
  rintro ⟨ds, cs, found, fs, inTree, chain, listed, kind, clusters, member⟩
  rcases small_volume_directories inTree with rfl | rfl
  · cases follows_unique chain.links (small_volume_chain (by decide)).links
    rcases small_volume_root listed with ⟨_, directory⟩ | ⟨empty, _⟩
    · rw [kind] at directory
      cases directory
    · rw [empty] at clusters
      cases fs with
      | nil => cases member
      | cons d fs =>
          have first := clusters.links.1
          have valid := clusters.valid d List.mem_cons_self
          exact absurd (first ▸ valid) (by decide)
  · cases follows_unique chain.links (small_volume_chain (by decide)).links
    exact absurd listed (small_volume_sub found)

theorem small_volume_tree : Tree (volumeOf smallVolume) where
  chain := by
    intro ds inTree
    rcases small_volume_directories inTree with rfl | rfl
    · exact ⟨2, [], small_volume_chain (by decide)⟩
    · exact ⟨3, [], small_volume_chain (by decide)⟩
  parent := by
    intro c ds inTree
    rcases small_volume_directories inTree with none | only
    · cases none
    · cases only
      exact small_volume_reads.2.2.2.2
  below := by
    intro c ds inTree
    rcases small_volume_directories inTree with none | only
    · cases none
    · cases only
      decide
  files _ _ _ _ c _ := small_volume_no_files c

/-- Up and down again: `/D/..`. -/
def upAndDown : List UInt8 := [charSlash, 0x44, charSlash, charDot, charDot]

/-- On from a file: `/A/..`. -/
def throughFile : List UInt8 := [charSlash, 0x41, charSlash, charDot, charDot]

def noEntry : PathOut := ⟨fun _ => 0, 0, 0⟩

theorem up_and_down_clear :
    NoFileInside (volumeOf smallVolume) (.directory []) (components upAndDown) := by
  have names : components upAndDown = [[0x44], [charDot, charDot]] := by decide
  rw [names]
  rintro pre post split more found toFile
  cases pre with
  | nil => cases toFile
  | cons name pre =>
      obtain ⟨rfl, split⟩ := List.cons.inj split
      obtain ⟨next, step, rest⟩ := toFile
      cases pre with
      | nil =>
          cases rest
          cases step with
          | leaf _ _ chain located kind =>
              cases follows_unique chain.links (small_volume_chain (by decide)).links
              have directory := small_volume_reads.2.2.2.1
              have same := congrArg (Option.map fun found => isDirectory found.entry) located
              cases kind.symm.trans (Option.some.inj (same.symm.trans directory))
      | cons other pre =>
          have lengths := congrArg List.length split
          have behind := List.length_pos_of_ne_nil more
          simp only [List.length_cons, List.length_append, List.length_nil] at lengths
          omega

/-- The answers of the two lookups, and what `A` is for the second one. -/
theorem small_volume_resolves :
    ((resolvePath 4 upAndDown noEntry smallVolume).bind Prod.fst).map Prod.fst = some 2 ∧
      ((resolvePath 4 throughFile noEntry smallVolume).bind Prod.fst).map Prod.fst =
        some 0xFFF80FFF ∧
      ((walkComponent 4 [0x41] smallVolume.rootCluster noEntry smallVolume).bind
        Prod.fst).map (fun after => isDirectory after.2.entry) = some false := by
  decide +kernel

theorem up_and_down_walks : ∃ reached s',
    resolvePath 4 upAndDown noEntry smallVolume = some (some reached, s') ∧
      WalksDirectories (volumeOf smallVolume) 4 smallVolume upAndDown noEntry reached := by
  have run := small_volume_resolves.1
  obtain ⟨reached, found, _⟩ := Option.map_eq_some_iff.1 run
  obtain ⟨⟨answer, s'⟩, returned, same⟩ := Option.bind_eq_some_iff.1 found
  have answered : answer = some reached := same
  subst answered
  exact ⟨reached, s', returned,
    (walks_directories_iff small_volume_stands small_volume_tree returned).2 up_and_down_clear⟩

/-- The slot of the parent is read from the sector that cluster 0 is mapped to. -/
theorem walk_goes_on_from_file : ∃ reached s',
    resolvePath 4 throughFile noEntry smallVolume = some (some reached, s') ∧
      ¬ WalksDirectories (volumeOf smallVolume) 4 smallVolume throughFile noEntry reached := by
  have run := small_volume_resolves.2.1
  obtain ⟨reached, found, _⟩ := Option.map_eq_some_iff.1 run
  obtain ⟨⟨answer, s'⟩, returned, same⟩ := Option.bind_eq_some_iff.1 found
  have answered : answer = some reached := same
  subst answered
  refine ⟨reached, s', returned, fun walks => ?_⟩
  have names : components throughFile = [[0x41], [charDot, charDot]] := by decide
  obtain ⟨before, s₁, after, s₂, first, step, directory⟩ :=
    walks.directories [] [0x41] [[charDot, charDot]] names (by decide) nofun
  cases first
  have file := small_volume_resolves.2.2
  rw [step] at file
  rcases directory with set | ⟨up, _⟩
  · cases set.symm.trans (Option.some.inj file)
  · exact absurd up (by decide)

end Result

end CassiOS.Fat32.PathWalk
