import CassiOS.Fat32.CreatedNames
import CassiOS.Fat32.RemovedNames
import CassiOS.Support.DistinctRows
import CassiOS.Support.TransitionSystem

/-!
# A directory as a record of names

A record says for each name which attributes the entry has that is bound to it. Creations bind
names and removals unbind them; after any history of both `findEntry` finds what the record
says. Names are C strings, compared up to their first NUL.
-/

namespace CassiOS.Fat32.NameRecords

open CassiOS.Support.PartialProgram
open CassiOS.Support.DistinctRows
open CassiOS.Support.TransitionSystem
open CassiOS.Support.Chain
open CassiOS.Fat32.Types
open CassiOS.Fat32.Names
open CassiOS.Fat32.Device
open CassiOS.Fat32.Filesystem
open CassiOS.Fat32.VolumeModel
open CassiOS.Fat32.FileModel
open CassiOS.Fat32.DirectoryModel
open CassiOS.Fat32.SlotRuns
open CassiOS.Fat32.CreateEntry
open CassiOS.Fat32.StoredFile (chain_congr)
open CassiOS.Fat32.ShortNames (newEntry own_content_chain new_entry_cluster)
open CassiOS.Fat32.DirectoryItems
open CassiOS.Fat32.CreatedNames
open CassiOS.Fat32.RemovedNames

set_option autoImplicit false

section Statement

abbrev Record := List UInt8 → Option UInt8

def bind (r : Record) (name : List UInt8) (kind : UInt8) : Record := fun other =>
  if nameEquals name other then some kind else r other

def unbind (r : Record) (name : List UInt8) : Record := fun other =>
  if nameEquals name other then none else r other

inductive Act where
  | create (fuel : Nat) (name : List UInt8) (kind : UInt8)
  | remove (fuel : Nat) (name : List UInt8)

/-- `createEntry` with success where `findEntry` has found nothing before, or `removeEntry`; the
record follows the answers. -/
def recorded (start : Nat) : Fat32Filesystem × Record → Act → Option (Fat32Filesystem × Record)
  | (s, r), .create fuel name kind =>
      match findEntry fuel start name s with
      | some (none, s) =>
          match createEntry fuel start name kind s with
          | some (some _, s) => some (s, bind r (storedName name) kind)
          | _ => none
      | _ => none
  | (s, r), .remove fuel name =>
      (removeEntry fuel start name s).map fun (answer, s) =>
        (s, if answer then unbind r name else r)

/-- The name of a new entry is one that `EntryName` allows and that is not in use as it is stored.
A removal deletes the slots of its own entry only. -/
def Admits (start : Nat) : Fat32Filesystem × Record → Act → Prop
  | (s, _), .create _ name kind => EntryName name ∧ kind &&& DirAttr.volumeId = 0 ∧
      ∀ cs, Chain (volumeOf s) start cs → lookup (volumeOf s) cs (storedName name) = none
  | (s, _), .remove _ name => ∀ cs items longs short found,
      Directory (volumeOf s) start cs items → lookup (volumeOf s) cs name = some found →
      Item.entry longs short ∈ items → Item.listed maxName (.entry longs short) = some found →
        Removable items longs short

/-- The entries have different names and their contents are chains apart from the directory and
from each other. -/
structure Orderly (v : Volume) (start : Nat) (cs : List Nat) (contents : Found → List Nat) :
    Prop where
  directory : ∃ items, Directory v start cs items
  names : Distinct nameEquals Found.name (entriesOf v cs)
  content : ∀ found ∈ entriesOf v cs, Content v found (contents found)
  outside : ∀ found ∈ entriesOf v cs, (contents found).Disjoint cs
  apart : (entriesOf v cs).Pairwise fun a b => (contents a).Disjoint (contents b)

/-- The directory is in order and the record says what it lists. -/
def Keeps (start : Nat) (state : Fat32Filesystem × Record) : Prop :=
  ∃ v cs contents, Stands ⟨false, false⟩ state.1 v ∧ Orderly v start cs contents ∧
    ∀ name, state.2 name = (lookup v cs name).map fun found => attr found.entry

end Statement

section NamesAsStrings

theorem name_equals_iff (a b : List UInt8) :
    nameEquals a b = true ↔ a.takeWhile (· != 0) = b.takeWhile (· != 0) := by
  induction a generalizing b with
  | nil =>
      cases b with
      | nil => exact iff_of_true rfl rfl
      | cons y b =>
          rw [nameEquals, beq_iff_eq, List.takeWhile_nil, List.takeWhile_cons]
          by_cases zero : y = 0 <;> simp [zero]
  | cons x a ih =>
      cases b with
      | nil =>
          rw [nameEquals, beq_iff_eq, List.takeWhile_nil, List.takeWhile_cons]
          by_cases zero : x = 0 <;> simp [zero]
      | cons y b =>
          rw [nameEquals, List.takeWhile_cons, List.takeWhile_cons]
          by_cases differ : x = y
          · subst differ
            by_cases zero : x = 0
            · simp [zero]
            · simp [zero, ih]
          · by_cases zero : x = 0
            · subst zero
              simp [differ, Ne.symm differ]
            · by_cases zero' : y = 0 <;> simp [differ, zero, zero']

theorem name_equals_equivalence : Equivalence fun a b => nameEquals a b = true where
  refl := name_equals_self
  symm ab := (name_equals_iff _ _).2 ((name_equals_iff _ _).1 ab).symm
  trans ab bc := (name_equals_iff _ _).2
    (((name_equals_iff _ _).1 ab).trans ((name_equals_iff _ _).1 bc))

end NamesAsStrings

section Fuel

theorem below_find_previous (entryCluster fuel prev cur : Nat) :
    Below (findPrevious entryCluster fuel prev cur)
      (findPrevious entryCluster (fuel + 1) prev cur) := by
  induction fuel generalizing prev cur with
  | zero => exact below_none
  | succ fuel ih =>
      rw [findPrevious, findPrevious]
      apply below_ite _ (below_refl _)
      exact below_bind (below_refl _) fun next => ih cur next

theorem below_clean_previous (fuel start cluster : Nat) :
    Below (cleanPrevious fuel start cluster) (cleanPrevious (fuel + 1) start cluster) :=
  below_bind (below_find_previous cluster fuel start start) fun _ => below_refl _

theorem below_delete_slots (fuel start : Nat) (found : Found) :
    Below (deleteSlots fuel start found) (deleteSlots (fuel + 1) start found) := by
  unfold deleteSlots
  apply below_bind (below_refl _)
  rintro (_ | block)
  · exact below_refl _
  · apply below_bind (below_refl _)
    rintro ⟨ok, buf⟩
    apply below_ite _ (below_refl _)
    apply below_bind _ fun _ => below_refl _
    exact below_ite (below_clean_previous fuel start found.cluster) (below_refl _)

theorem below_free_chain (fuel c : Nat) : Below (freeChain fuel c) (freeChain (fuel + 1) c) := by
  induction fuel generalizing c with
  | zero => exact below_none
  | succ fuel ih =>
      intro s r run
      rw [freeChain] at run ⊢
      dsimp only at run ⊢
      split at run
      · next valid =>
        rw [if_pos valid]
        refine below_bind (below_refl _) (fun next => ?_) s r run
        exact below_bind (below_refl _) fun _ => below_ite (below_refl _) (ih next)
      · next valid =>
        rw [if_neg valid]
        exact run

theorem below_remove_entry (fuel start : Nat) (name : List UInt8) :
    Below (removeEntry fuel start name) (removeEntry (fuel + 1) start name) := by
  have deletes := fun found => below_delete_slots fuel start found
  unfold removeEntry
  apply below_bind (below_find_from fuel start name fuel 0)
  rintro (_ | found)
  · exact below_refl _
  · apply below_ite
    · apply below_bind (below_read_dir_entry fuel _ 0 maxName)
      rintro (_ | entry)
      · exact below_bind (below_free_chain fuel _) fun _ => deletes found
      · exact below_refl _
    · exact below_ite (below_bind (below_free_chain fuel _) fun _ => deletes found) (deletes found)

end Fuel

section Steps

variable {v w : Volume} {start : Nat} {cs : List Nat} {contents : Found → List Nat}
  {s s' : Fat32Filesystem} {r r' : Record} {name : List UInt8}

theorem lookup_search (v : Volume) (cs : List Nat) (name : List UInt8) :
    lookup v cs name = search nameEquals Found.name (entriesOf v cs) name := rfl

/-- A content stays what it is where its clusters keep their links. -/
theorem content_kept {found : Found} {ds : List Nat} (content : Content v found ds)
    (count : w.fatEntryCount = v.fatEntryCount) (same : ∀ d ∈ ds, w.fat d = v.fat d) :
    Content w found ds := by
  unfold Content at content ⊢
  split
  · next none =>
    rw [if_pos none] at content
    exact content
  · next some_ =>
    rw [if_neg some_] at content
    exact chain_congr content count same

theorem content_not_free {found : Found} {ds : List Nat} (content : Content v found ds) {d : Nat}
    (member : d ∈ ds) : ¬ v.Free d := by
  unfold Content at content
  split at content
  · rw [content] at member
    exact absurd member List.not_mem_nil
  · exact chain_not_free content member

/-- The content of a new entry: nothing for a file, a cluster that was free for a directory. -/
theorem new_content {kind : UInt8} {at_ : Nat × Nat} {extra : List Nat}
    {before run written behind : List Slot} {content : Nat} {new : Found}
    (small : v.fatEntryCount ≤ 0x0FFFFFF7)
    (done : Written v start cs name kind at_ w extra before run written behind content)
    (entry : new.entry = newEntry name kind content) :
    ∃ ds, Content w new ds ∧ (∀ d ∈ ds, v.Free d) ∧ ds.Disjoint (cs ++ extra) := by
  have cluster : firstCluster new.entry = content := entry ▸ new_entry_cluster small done
  have shape : isDirectory new.entry = (kind &&& DirAttr.directory != 0) := by
    rw [entry]
    rfl
  cases directory : isDirectory new.entry with
  | true =>
      obtain ⟨free, chain⟩ := own_content_chain small done (shape ▸ directory)
      refine ⟨[content], ?_, ?_, ?_⟩
      · unfold Content
        rw [if_neg (fun both => Bool.false_ne_true (both.2.symm.trans directory)), cluster]
        exact chain
      · intro d member
        rw [List.mem_singleton.1 member]
        exact free
      · exact List.disjoint_left.2 fun d member => List.mem_singleton.1 member ▸ done.apart
  | false =>
      have own := done.own
      unfold OwnContent at own
      rw [if_neg (by rw [← shape, directory]; exact Bool.false_ne_true)] at own
      refine ⟨[], ?_, fun d none => absurd none List.not_mem_nil, List.disjoint_nil_left _⟩
      unfold Content
      rw [if_pos ⟨by rw [cluster, own]; decide, directory⟩]

theorem orderly_created (orderly : Orderly v start cs contents) (valid : EntryName name)
    {kind : UInt8} (shown : kind &&& DirAttr.volumeId = 0)
    (fresh : lookup v cs (storedName name) = none) (small : v.fatEntryCount ≤ 0x0FFFFFF7)
    {at_ : Nat × Nat} {extra : List Nat} {before run written behind : List Slot} {content : Nat}
    (done : Written v start cs name kind at_ w extra before run written behind content) :
    (∃ contents', Orderly w start (cs ++ extra) contents') ∧ ∀ other,
      (lookup w (cs ++ extra) other).map (fun found => attr found.entry) =
        bind (fun other => (lookup v cs other).map fun found => attr found.entry) (storedName name)
          kind other := by
  obtain ⟨items, dir⟩ := orderly.directory
  obtain ⟨front, back, longs, short, new, _, _, dir', _, entry, inserted⟩ :=
    written_inserted dir valid shown done
  obtain ⟨front, back, old, now⟩ := inserted.listing
  obtain ⟨ds, content', free, away⟩ := new_content small done entry
  have unbound : search nameEquals Found.name (front ++ back) new.name = none := by
    rw [← old, ← lookup_search, inserted.name]
    exact fresh
  have differ : ∀ found ∈ entriesOf v cs, nameEquals found.name new.name = false := by
    rw [old]
    exact search_none.1 unbound
  -- a name in use has the content it had
  let contents' : Found → List Nat := fun found =>
    if found.name = new.name then ds else contents found
  have keeps : ∀ found ∈ entriesOf v cs, contents' found = contents found := by
    intro found member
    apply if_neg
    intro same
    have clash := differ found member
    rw [same, name_equals_self] at clash
    cases clash
  have gets : contents' new = ds := if_pos rfl
  have taken : ∀ found ∈ entriesOf v cs, ∀ d ∈ contents found, ¬ v.Free d :=
    fun found member d inside => content_not_free (orderly.content found member) inside
  have member_iff : ∀ found, found ∈ entriesOf w (cs ++ extra) →
      found = new ∨ found ∈ entriesOf v cs := by
    intro found member
    rw [now] at member
    rw [old]
    exact List.mem_cons.1 (List.perm_middle.mem_iff.1 member)
  constructor
  · refine ⟨contents', ⟨_, dir'⟩, ?_, ?_, ?_, ?_⟩
    · rw [now]
      refine (distinct_middle name_equals_equivalence).2 ⟨?_, ?_⟩
      · rw [← old]
        exact orderly.names
      · rw [← old]
        exact differ
    · intro found member
      rcases member_iff found member with rfl | was
      · rw [gets]
        exact content'
      · rw [keeps found was]
        refine content_kept (orderly.content found was) done.count fun d inside => ?_
        exact (done.others d (orderly.outside found was inside) (taken found was d inside)).2
    · intro found member
      rcases member_iff found member with rfl | was
      · rw [gets]
        exact away
      · rw [keeps found was]
        intro d inside both
        rcases List.mem_append.1 both with early | late
        · exact orderly.outside found was inside early
        · exact taken found was d inside (done.fresh d late)
    · rw [now]
      refine (List.pairwise_middle fun {a b} apart => List.disjoint_symm apart).2
        (List.pairwise_cons.2 ⟨?_, ?_⟩)
      · rw [← old]
        intro found was
        rw [gets, keeps found was]
        exact fun d inside both => taken found was d both (free d inside)
      · rw [← old]
        refine orderly.apart.imp_of_mem fun {a b} inA inB apart => ?_
        rw [keeps a inA, keeps b inB]
        exact apart
  · intro other
    unfold bind
    rw [lookup_search, now, search_insert name_equals_equivalence unbound, ← old, inserted.name]
    split
    · exact congrArg some inserted.kind
    · rfl

theorem orderly_dropped (orderly : Orderly v start cs contents) {found : Found}
    (looked : lookup v cs name = some found)
    (erasure : Erasure v w start cs (contents found) found) :
    Orderly w start cs contents ∧ ∀ other,
      (lookup w cs other).map (fun found => attr found.entry) =
        unbind (fun other => (lookup v cs other).map fun found => attr found.entry) name other := by
  obtain ⟨front, back, old, now⟩ := erasure.dropped
  have listed : ∀ other ∈ entriesOf w cs, other ∈ entriesOf v cs ∧
      (contents other).Disjoint (contents found) := by
    have apart := orderly.apart
    rw [old] at apart ⊢
    rw [now]
    have away := (List.pairwise_cons.1
      ((List.pairwise_middle fun {a b} apart => List.disjoint_symm apart).1 apart)).1
    exact fun other member => ⟨List.perm_middle.mem_iff.2 (List.mem_cons_of_mem found member),
      List.disjoint_symm (away other member)⟩
  have fewer : (entriesOf w cs).Sublist (entriesOf v cs) := by
    rw [old, now]
    exact List.Sublist.append_left (List.sublist_cons_self found back) front
  have named : nameEquals found.name name = true := by
    have hit := List.find?_some looked
    exact hit
  constructor
  · refine ⟨erasure.directory, orderly.names.sublist fewer, ?_, ?_, orderly.apart.sublist fewer⟩
    · intro other member
      obtain ⟨was, away⟩ := listed other member
      refine content_kept (orderly.content other was) erasure.count fun d inside => ?_
      exact (erasure.others d (orderly.outside other was inside) (away inside)).2
    · intro other member
      exact orderly.outside other (listed other member).1
  · intro other
    have distinct := orderly.names
    rw [old] at distinct
    have same : nameEquals found.name other = nameEquals name other := by
      rw [Bool.eq_iff_iff]
      exact ⟨name_equals_equivalence.trans (name_equals_equivalence.symm named),
        name_equals_equivalence.trans named⟩
    unfold unbind
    rw [lookup_search, now, search_erase name_equals_equivalence distinct, ← old, same]
    split
    · rfl
    · rfl

theorem remove_missing (chain : Chain v start cs) (missing : lookup v cs name = none)
    (fuel : Nat) : Ensures (Stands ⟨false, false⟩) (removeEntry fuel start name) v fun answer w =>
      answer = false ∧ w = v := by
  unfold removeEntry
  apply ensures_bind (find_entry_answers fuel chain name)
  rintro found w ⟨rfl, same | ⟨_, fails⟩⟩
  · rw [same, missing]
    exact ensures_pure ⟨rfl, rfl⟩
  · rcases fails with fails | fails
    · cases fails
    · cases fails

theorem keeps_create (keeps : Keeps start (s, r)) {fuel : Nat} {kind : UInt8}
    {state : Fat32Filesystem × Record} (admitted : Admits start (s, r) (.create fuel name kind))
    (next : recorded start (s, r) (.create fuel name kind) = some state) : Keeps start state := by
  obtain ⟨v, cs, contents, stands, orderly, told⟩ := keeps
  obtain ⟨items, dir⟩ := orderly.directory
  obtain ⟨valid, shown, fresh⟩ := admitted
  have unbound := fresh cs (stands.content ▸ dir.chain)
  have same : volumeOf s = v := stands.content
  rw [same] at unbound
  have record : r = fun other => (lookup v cs other).map fun found => attr found.entry :=
    funext told
  have small : v.fatEntryCount ≤ 0x0FFFFFF7 := stands.count ▸ stands.layout.entries
  unfold recorded at next
  dsimp only at next
  split at next
  · next t found =>
    split at next
    · next at_ u created =>
      obtain rfl := Option.some.inj next
      obtain ⟨w, standsT, rfl, _⟩ := find_entry_answers fuel dir.chain name s stands _ t found
      obtain ⟨w', standsU, writes⟩ :=
        create_entry_answers rfl dir.chain fuel name kind t standsT _ u created
      obtain ⟨extra, before, run, written, behind, content, done⟩ := writes at_ rfl
      obtain ⟨⟨contents', orderly'⟩, finds⟩ :=
        orderly_created orderly valid shown unbound small done
      refine ⟨w', cs ++ extra, contents', standsU, orderly', fun other => ?_⟩
      rw [finds other, ← record]
    · cases next
  · cases next

theorem keeps_remove (keeps : Keeps start (s, r)) {fuel : Nat}
    {state : Fat32Filesystem × Record} (admitted : Admits start (s, r) (.remove fuel name))
    (next : recorded start (s, r) (.remove fuel name) = some state) : Keeps start state := by
  obtain ⟨v, cs, contents, stands, orderly, told⟩ := keeps
  obtain ⟨items, dir⟩ := orderly.directory
  obtain ⟨⟨answer, t⟩, removed, rfl⟩ := Option.map_eq_some_iff.1 next
  have record : r = fun other => (lookup v cs other).map fun found => attr found.entry :=
    funext told
  cases looked : lookup v cs name with
  | none =>
      obtain ⟨w, stands', rfl, rfl⟩ :=
        remove_missing dir.chain looked fuel s stands answer t removed
      exact ⟨w, cs, contents, stands', orderly, told⟩
  | some found =>
      have listed := List.mem_of_find?_eq_some looked
      have removable := fun longs short => admitted cs items longs short found
        (stands.content ▸ dir) (stands.content ▸ looked)
      have small : v.fatEntryCount ≤ 0x0FFFFFF7 := stands.count ▸ stands.layout.entries
      have total := remove_entry_outcome dir looked removable
        (orderly.content found listed) (orderly.outside found listed) small
        (Nat.lt_of_lt_of_le (Nat.lt_succ_self _) (Nat.le_add_left _ fuel))
      obtain ⟨w, stands', outcome⟩ := ensures_of_below
        (below_of_le (fun n => below_remove_entry n start name) (Nat.le_add_right fuel _)) total s
        stands answer t removed
      split at outcome
      · obtain ⟨rfl, rfl⟩ := outcome
        exact ⟨w, cs, contents, stands', orderly, told⟩
      · obtain ⟨rfl, erasure⟩ := outcome
        obtain ⟨orderly', finds⟩ := orderly_dropped orderly looked erasure
        refine ⟨w, cs, contents, stands', orderly', fun other => ?_⟩
        rw [finds other, ← record]
        rfl

theorem small_directory_keeps : Keeps 3 (PathWalk.smallVolume, fun _ => none) := by
  have nothing : entriesOf (volumeOf PathWalk.smallVolume) [3] = [] :=
    List.eq_nil_iff_forall_not_mem.2 PathWalk.small_volume_sub
  refine ⟨_, [3], fun _ => [], PathWalk.small_volume_stands,
    ⟨⟨_, small_volume_items (.inr rfl)⟩, ?_, ?_, ?_, ?_⟩, ?_⟩
  · rw [nothing]
    exact List.Pairwise.nil
  · rw [nothing]
    exact fun found none => absurd none List.not_mem_nil
  · rw [nothing]
    exact fun found none => absurd none List.not_mem_nil
  · rw [nothing]
    exact List.Pairwise.nil
  · intro name
    unfold lookup
    rw [nothing]
    rfl

end Steps

end CassiOS.Fat32.NameRecords
