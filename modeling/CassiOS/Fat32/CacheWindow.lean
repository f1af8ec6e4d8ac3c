import CassiOS.Fat32.FatModel
import CassiOS.Fat32.PathWalk
import CassiOS.Support.RecentlyUsed
import CassiOS.Support.TransitionSystem

/-!
# The window of cached sectors

The sector cache gives up the entry whose stamp is lowest. Until the stamps wrap it holds the
sixteen sectors used last. A FAT sector that was written stays marked while it is cached, so
`flushFat` copies it to the second FAT if at most fifteen other sectors were used since.
-/

namespace CassiOS.Fat32.CacheWindow

open CassiOS.Support.PartialProgram
open CassiOS.Support.RecentlyUsed
open CassiOS.Support.TransitionSystem
open CassiOS.Fat32.Types
open CassiOS.Fat32.Device
open CassiOS.Fat32.Cache
open CassiOS.Fat32.VolumeModel

set_option autoImplicit false

section Statement

inductive Access where
  | read (lba : Nat)
  | write (lba : Nat) (data : Sector)
  | flush

def perform (s : Fat32Filesystem) : Access → Option Fat32Filesystem
  | .read lba => (cacheRead lba s).map Prod.snd
  | .write lba data => (cacheWrite lba data s).map Prod.snd
  | .flush => (flushFat s).map Prod.snd

def Access.sector : Access → Option Nat
  | .read lba => some lba
  | .write lba _ => some lba
  | .flush => none

/-- The sectors used by the accesses, in order. -/
def used (history : List Access) : List Nat := history.filterMap Access.sector

/-- The sectors that the cache has room for, the one used last in front. -/
def window (history : List Access) : List Nat := (recent (used history)).take cacheSize

structure Fresh (s : Fat32Filesystem) : Prop where
  layout : Layout s
  steady : Steady ⟨false, false⟩ s
  empty : ∀ e ∈ s.cache, e.valid = false
  age : s.cacheAge = 0

end Statement

section Splitting

variable {β : Type} {p : β → Bool} {l L R : List β} {x : β} {i : Nat}

theorem split_of_find (found : l.findIdx? p = some i) :
    ∃ L x R, l = L ++ x :: R ∧ L.length = i ∧ p x = true := by
  obtain ⟨bound, holds, _⟩ := List.findIdx?_eq_some_iff_getElem.1 found
  refine ⟨l.take i, l[i], l.drop (i + 1), ?_, ?_, holds⟩
  · rw [← List.drop_eq_getElem_cons bound, List.take_append_drop]
  · exact List.length_take_of_le (Nat.le_of_lt bound)

theorem none_of_find (missed : l.findIdx? p = none) : ∀ y ∈ l, p y = false :=
  List.findIdx?_eq_none_iff.1 missed

theorem modify_split (L R : List β) (x : β) (f : β → β) :
    (L ++ x :: R).modify L.length f = L ++ f x :: R := by
  induction L with
  | nil => rfl
  | cons y L ih =>
      change y :: (L ++ x :: R).modify L.length f = _
      rw [ih]
      rfl

theorem get_split (L R : List β) (x : β) : (L ++ x :: R)[L.length]? = some x := by
  rw [List.getElem?_append_right (Nat.le_refl _), Nat.sub_self]
  rfl

end Splitting

section Choosing

variable {cache : List CacheEntry}

def older (cache : List CacheEntry) (oldest i : Nat) : Nat :=
  match cache[i]?, cache[oldest]? with
  | some entry, some best => if entry.age < best.age then i else oldest
  | _, _ => oldest

theorem oldest_entry_least (size : cache.length = cacheSize) : ∃ L e R, cache = L ++ e :: R ∧
    L.length = oldestEntry cache ∧ ∀ f ∈ cache, e.age ≤ f.age := by
  have least : ∀ (is : List Nat) (best : Nat) (seen : List Nat), best < cacheSize →
      (∀ i ∈ is, i < cacheSize) →
      (∀ i ∈ seen, ∀ e f, cache[best]? = some e → cache[i]? = some f → e.age ≤ f.age) →
      ∃ r, r = is.foldl (older cache) best ∧ r < cacheSize ∧
        ∀ i ∈ best :: seen ++ is, ∀ e f, cache[r]? = some e → cache[i]? = some f →
          e.age ≤ f.age := by
    intro is
    induction is with
    | nil =>
        intro best seen low _ known
        refine ⟨best, rfl, low, fun i member e f atR atI => ?_⟩
        rw [List.append_nil] at member
        rcases List.mem_cons.1 member with rfl | old
        · rw [atR] at atI
          cases atI
          exact Nat.le_refl _
        · exact known i old e f atR atI
    | cons j is ih =>
        intro best seen low bound known
        have lowJ := bound j List.mem_cons_self
        have later := fun i member => bound i (List.mem_cons_of_mem j member)
        have atBest : cache[best]? = some cache[best] := List.getElem?_eq_getElem (by omega)
        have atJ : cache[j]? = some cache[j] := List.getElem?_eq_getElem (by omega)
        rw [List.foldl_cons, older, atJ, atBest]
        dsimp only
        split
        · next younger =>
          obtain ⟨r, chosen, inside, all⟩ := ih j (best :: seen) lowJ later (by
            intro i member e f atE atF
            rw [atJ] at atE
            cases atE
            rcases List.mem_cons.1 member with rfl | old
            · rw [atBest] at atF
              cases atF
              exact Nat.le_of_lt younger
            · exact Nat.le_trans (Nat.le_of_lt younger) (known i old _ f atBest atF))
          refine ⟨r, chosen, inside, fun i member => all i ?_⟩
          simp only [List.cons_append, List.mem_cons, List.mem_append] at member ⊢
          tauto
        · next older =>
          obtain ⟨r, chosen, inside, all⟩ := ih best (j :: seen) low later (by
            intro i member e f atE atF
            rcases List.mem_cons.1 member with rfl | old
            · rw [atBest] at atE
              rw [atJ] at atF
              cases atE
              cases atF
              exact Nat.not_lt.1 older
            · exact known i old e f atE atF)
          refine ⟨r, chosen, inside, fun i member => all i ?_⟩
          simp only [List.cons_append, List.mem_cons, List.mem_append] at member ⊢
          tauto
  obtain ⟨r, chosen, inside, all⟩ := least (List.range cacheSize) 0 [] (by decide)
    (fun i member => List.mem_range.1 member) fun i none => absurd none List.not_mem_nil
  have bound : r < cache.length := by omega
  refine ⟨cache.take r, cache[r], cache.drop (r + 1), ?_, ?_, ?_⟩
  · rw [← List.drop_eq_getElem_cons bound, List.take_append_drop]
  · rw [List.length_take_of_le (Nat.le_of_lt bound)]
    exact chosen
  · intro f member
    obtain ⟨i, low, same⟩ := List.mem_iff_getElem.1 member
    apply all i _ _ _ (List.getElem?_eq_getElem bound) (same ▸ List.getElem?_eq_getElem low)
    apply List.mem_append_right
    rw [List.mem_range]
    omega

end Choosing

section Touching

variable {s t s' : Fat32Filesystem} {lba i : Nat} {data : Sector}

/-- The entry that holds the sector, or else one that may be given up: an invalid one, or the
oldest of a full cache. -/
inductive Place (cache : List CacheEntry) (lba : Nat) (e : CacheEntry) : Prop
  | hit : e.valid = true → e.lba = lba → Place cache lba e
  | unused : (∀ f ∈ cache, f.valid = true → f.lba ≠ lba) → e.valid = false → Place cache lba e
  | oldest : (∀ f ∈ cache, f.valid = true → f.lba ≠ lba) → (∀ f ∈ cache, f.valid = true) →
      (∀ f ∈ cache, e.age ≤ f.age) → Place cache lba e

/-- What an access to the sector does to the cache. -/
structure Touched (s s' : Fat32Filesystem) (lba : Nat) (L R : List CacheEntry) (e e' : CacheEntry) :
    Prop where
  before : s.cache = L ++ e :: R
  after : s'.cache = L ++ e' :: R
  sector : e'.lba = lba
  valid : e'.valid = true
  stamp : e'.age = s'.cacheAge
  clock : s.cacheAge + 2 < 4294967296 → s.cacheAge < s'.cacheAge ∧ s'.cacheAge ≤ s.cacheAge + 2
  place : Place s.cache lba e
  marked : e.valid = true → e.dirty = true → e.lba = lba → e'.dirty = true

theorem cache_evict_places (steady : Steady ⟨false, false⟩ s)
    (missed : ∀ f ∈ s.cache, f.valid = true → f.lba ≠ lba) : ∃ L e e₁ R t,
    s.cache = L ++ e :: R ∧ cacheEvict s = some (some L.length, t) ∧ t.cache = L ++ e₁ :: R ∧
      t.cacheAge = s.cacheAge ∧ t.ata.sectors = s.ata.sectors ∧ Granting t ∧
      Place s.cache lba e := by
  have granting := steady.granting rfl
  unfold cacheEvict
  cases search : s.cache.findIdx? (fun entry => !entry.valid) with
  | some i =>
      obtain ⟨L, e, R, split, rfl, invalid⟩ := split_of_find search
      have unused : Place s.cache lba e := .unused missed (by simpa using invalid)
      dsimp only
      split
      · exact ⟨L, e, e, R, s, split, rfl, split, rfl, rfl, granting, unused⟩
      · obtain ⟨block, alloc, some_ | ⟨_, refused⟩⟩ := heap_alloc_cases s
        · subst some_
          refine ⟨L, e, { e with data := some (sectorOf s.heap.junk 0) }, R, _, split,
            (bind_of_some alloc).trans rfl, ?_, rfl, rfl, granting, unused⟩
          change s.cache.modify L.length _ = _
          rw [split, modify_split]
        · exact absurd (steady.supplied rfl) refused
  | none =>
      have full : ∀ f ∈ s.cache, f.valid = true := by
        intro f member
        simpa using none_of_find search f member
      obtain ⟨L, e, R, split, index, least⟩ := oldest_entry_least steady.transparent.size
      have oldest : Place s.cache lba e := .oldest missed full least
      have here : s.cache[L.length]? = some e := by rw [split, get_split]
      dsimp only
      rw [← index, here]
      dsimp only
      have valid := full e (by rw [split]; exact List.mem_append_right L List.mem_cons_self)
      have held := steady.transparent.holds L.length e here valid
      unfold writeBack
      rw [held]
      cases e.dirty with
      | false =>
          refine ⟨L, e, { e with valid := false }, R,
            { s with cache := s.cache.modify L.length fun e => { e with valid := false } }, split,
            rfl, ?_, rfl, rfl, granting, oldest⟩
          change s.cache.modify L.length _ = _
          rw [split, modify_split]
      | true =>
          obtain ⟨ok, write⟩ := ata_write_same s e.lba
          refine ⟨L, e, { e with dirty := false, valid := false }, R,
            { s with
              ata := ⟨s.ata.sectors, s.ata.outcomes.tail⟩
              cache := (s.cache.modify L.length fun e => { e with dirty := false }).modify L.length
                fun e => { e with valid := false } }, split, ?_, ?_, rfl, rfl,
            granting_tail granting, oldest⟩
          · change ((ataWrite e.lba (s.ata.sectors e.lba) >>= fun _ =>
              setEntry L.length fun e => { e with dirty := false }) >>= fun _ =>
                setEntry L.length (fun e => { e with valid := false }) >>= fun _ =>
                  pure (some L.length)) s = _
            exact (bind_of_some ((bind_of_some write).trans rfl)).trans rfl
          · change (s.cache.modify L.length _).modify L.length _ = _
            rw [split, modify_split, modify_split]

theorem missed_of_find (search : s.cache.findIdx? (fun entry => entry.valid && entry.lba == lba) =
    none) : ∀ f ∈ s.cache, f.valid = true → f.lba ≠ lba := by
  intro f member valid same
  have no := none_of_find search f member
  rw [valid, same] at no
  simp at no

theorem lookup_missed (search : s.cache.findIdx? (fun entry => entry.valid && entry.lba == lba) =
    none) : cacheLookup lba s = some (none, s) := by
  unfold cacheLookup
  rw [search]

theorem lookup_hit (search : s.cache.findIdx? (fun entry => entry.valid && entry.lba == lba) =
    some i) : ∃ L e R, s.cache = L ++ e :: R ∧ L.length = i ∧ e.valid = true ∧ e.lba = lba ∧
      cacheLookup lba s = some (some i, { s with
        cacheAge := u32 (s.cacheAge + 1)
        cache := L ++ { e with age := u32 (s.cacheAge + 1) } :: R }) := by
  obtain ⟨L, e, R, split, index, found⟩ := split_of_find search
  rw [Bool.and_eq_true, beq_iff_eq] at found
  refine ⟨L, e, R, split, index, found.1, found.2, ?_⟩
  unfold cacheLookup
  rw [search]
  dsimp only
  rw [← index, split, modify_split]

theorem one_tick (clock : s'.cacheAge = u32 (s.cacheAge + 1)) (room : s.cacheAge + 2 < 4294967296) :
    s.cacheAge < s'.cacheAge ∧ s'.cacheAge ≤ s.cacheAge + 2 := by
  rw [clock, u32_of_lt (by omega)]
  omega

/-- A read finds the sector in the cache, without a request to the drive, or takes it in. -/
theorem cache_read_touches (steady : Steady ⟨false, false⟩ s) (lba : Nat) : ∃ s' L R e e',
    cacheRead lba s = some (some (s.ata.sectors lba), s') ∧ Touched s s' lba L R e e' ∧
      (e.valid = true → e.lba = lba → s'.ata = s.ata) := by
  unfold cacheRead
  cases search : s.cache.findIdx? (fun entry => entry.valid && entry.lba == lba) with
  | some i =>
      obtain ⟨L, e, R, split, rfl, valid, here, lookup⟩ := lookup_hit search
      have held := steady.transparent.holds L.length e (by rw [split, get_split]) valid
      refine ⟨{ s with
        cacheAge := u32 (s.cacheAge + 1)
        cache := L ++ { e with age := u32 (s.cacheAge + 1) } :: R }, L, R, e,
        { e with age := u32 (s.cacheAge + 1) }, (bind_of_some lookup).trans ?_,
        ⟨split, rfl, here, valid, rfl, one_tick rfl, .hit valid here, fun _ dirty _ => dirty⟩,
        fun _ _ => rfl⟩
      change some ((L ++ _ :: R)[L.length]?.bind CacheEntry.data, _) = _
      rw [get_split]
      change some (e.data, _) = _
      rw [held, here]
  | none =>
      have missed := missed_of_find search
      obtain ⟨L, e, e₁, R, t, split, evict, cache, clock, sectors, granting, place⟩ :=
        cache_evict_places steady missed
      have other : e.valid = true → e.lba ≠ lba := missed e (by rw [split]; simp)
      obtain ⟨data, read, some_ | ⟨_, refused⟩⟩ := ata_read_cases t lba
      · subst some_
        refine ⟨{ t with
          ata := ⟨t.ata.sectors, t.ata.outcomes.tail⟩
          cacheAge := u32 (t.cacheAge + 1)
          cache := t.cache.modify L.length fun _ =>
            ⟨lba, some (t.ata.sectors lba), u32 (t.cacheAge + 1), true, false⟩ }, L, R, e,
          ⟨lba, some (t.ata.sectors lba), u32 (t.cacheAge + 1), true, false⟩, ?_,
          ⟨split, ?_, rfl, rfl, rfl, ?_, place, ?_⟩, ?_⟩
        · rw [← sectors]
          exact (bind_of_some (lookup_missed search)).trans
            ((bind_of_some evict).trans ((bind_of_some read).trans rfl))
        · change t.cache.modify L.length _ = _
          rw [cache, modify_split]
        · exact one_tick (congrArg (fun age => u32 (age + 1)) clock)
        · exact fun valid _ same => absurd same (other valid)
        · exact fun valid same => absurd same (other valid)
      · exact absurd granting refused

theorem fill_write_runs {L R : List CacheEntry} {e : CacheEntry} (cache : t.cache = L ++ e :: R)
    (granting : Granting t) (lba : Nat) (data : Sector) : ∃ rest,
    (do fillEntry L.length lba data true; ataWrite lba data : Fs Bool) t = some (true, { t with
      ata := ⟨putAt t.ata.sectors lba data, rest⟩
      cacheAge := u32 (t.cacheAge + 1)
      cache := L ++ ⟨lba, some data, u32 (t.cacheAge + 1), true, true⟩ :: R }) := by
  obtain ⟨rest, write, _⟩ := ata_write_granting
    (s := { t with
      cacheAge := u32 (t.cacheAge + 1)
      cache := L ++ ⟨lba, some data, u32 (t.cacheAge + 1), true, true⟩ :: R }) granting lba data
  refine ⟨rest, (bind_of_some (a := PUnit.unit) ?_).trans write⟩
  unfold fillEntry
  dsimp only
  rw [cache, modify_split]

theorem cache_write_touches (steady : Steady ⟨false, false⟩ s) (lba : Nat) (data : Sector) :
    ∃ s' L R e e', cacheWrite lba data s = some (true, s') ∧ Touched s s' lba L R e e' ∧
      e'.dirty = true := by
  unfold cacheWrite
  cases search : s.cache.findIdx? (fun entry => entry.valid && entry.lba == lba) with
  | some i =>
      obtain ⟨L, e, R, split, rfl, valid, here, lookup⟩ := lookup_hit search
      obtain ⟨rest, run⟩ := fill_write_runs (t := { s with
        cacheAge := u32 (s.cacheAge + 1)
        cache := L ++ { e with age := u32 (s.cacheAge + 1) } :: R }) rfl (steady.granting rfl) lba
        data
      refine ⟨_, L, R, e, _, (bind_of_some lookup).trans run,
        ⟨split, rfl, rfl, rfl, rfl, fun room => ?_, .hit valid here, fun _ _ _ => rfl⟩, rfl⟩
      -- the stamp of the lookup is overwritten by the one of the write
      change s.cacheAge < u32 (u32 (s.cacheAge + 1) + 1) ∧ u32 (u32 (s.cacheAge + 1) + 1) ≤ _
      rw [u32_of_lt (by omega : s.cacheAge + 1 < 4294967296), u32_of_lt (by omega)]
      omega
  | none =>
      have missed := missed_of_find search
      obtain ⟨L, e, e₁, R, t, split, evict, cache, clock, sectors, granting, place⟩ :=
        cache_evict_places steady missed
      obtain ⟨rest, run⟩ := fill_write_runs cache granting lba data
      exact ⟨_, L, R, e, _, (bind_of_some (lookup_missed search)).trans
        ((bind_of_some evict).trans run), ⟨split, rfl, rfl, rfl, rfl,
          one_tick (congrArg (fun age => u32 (age + 1)) clock), place, fun _ _ _ => rfl⟩, rfl⟩

end Touching

section Ranking

variable {s s' : Fat32Filesystem} {lba : Nat} {l : List Nat} {L R es : List CacheEntry}
  {e e' : CacheEntry}

/-- The valid entries, the one stamped last in front, hold the sectors `l`. -/
structure Ranked (s : Fat32Filesystem) (es : List CacheEntry) (l : List Nat) : Prop where
  perm : es.Perm (s.cache.filter CacheEntry.valid)
  sorted : es.Pairwise fun a b => b.age < a.age
  stamped : ∀ e ∈ es, e.age ≤ s.cacheAge
  sectors : es.map CacheEntry.lba = l

theorem Touched.filtered (touched : Touched s s' lba L R e e') :
    (s'.cache.filter CacheEntry.valid).Perm (e' :: (L ++ R).filter CacheEntry.valid) := by
  rw [touched.after, List.filter_append, List.filter_cons_of_pos touched.valid, List.filter_append]
  exact List.perm_middle

theorem touched_front (touched : Touched s s' lba L R e e') (room : s.cacheAge + 2 < 4294967296)
    {rest : List CacheEntry} (perm : rest.Perm ((L ++ R).filter CacheEntry.valid))
    (sorted : rest.Pairwise fun a b => b.age < a.age) (stamped : ∀ f ∈ rest, f.age ≤ s.cacheAge) :
    Ranked s' (e' :: rest) (lba :: rest.map CacheEntry.lba) := by
  obtain ⟨low, _⟩ := touched.clock room
  refine ⟨(perm.cons e').trans touched.filtered.symm, List.pairwise_cons.2 ⟨?_, sorted⟩, ?_, ?_⟩
  · intro f member
    rw [touched.stamp]
    exact Nat.lt_of_le_of_lt (stamped f member) low
  · intro f member
    rcases List.mem_cons.1 member with rfl | old
    · exact Nat.le_of_eq touched.stamp
    · exact Nat.le_trans (stamped f old) (Nat.le_of_lt low)
  · rw [List.map_cons, touched.sector]

theorem ranked_fits (size : s.cache.length = cacheSize) (ranked : Ranked s es l) :
    l.length ≤ cacheSize := by
  rw [← ranked.sectors, List.length_map, ranked.perm.length_eq, ← size]
  exact List.length_filter_le _ _

theorem touched_ranked (touched : Touched s s' lba L R e e') (room : s.cacheAge + 2 < 4294967296)
    (size : s.cache.length = cacheSize) (distinct : l.Nodup) (ranked : Ranked s es l) :
    ∃ es', Ranked s' es' (touch cacheSize l lba) := by
  have fits := ranked_fits size ranked
  obtain ⟨perm, sorted, stamped, sectors⟩ := ranked
  have absent : (∀ f ∈ s.cache, f.valid = true → f.lba ≠ lba) → lba ∉ l := by
    intro missed member
    rw [← sectors] at member
    obtain ⟨f, inside, here⟩ := List.mem_map.1 member
    obtain ⟨cached, valid⟩ := List.mem_filter.1 (perm.mem_iff.1 inside)
    exact missed f cached valid here
  have keep : ∀ {F B : List CacheEntry}, es = F ++ e :: B → e.valid = true →
      (F ++ B).Perm ((L ++ R).filter CacheEntry.valid) := by
    intro F B split valid
    apply List.Perm.cons_inv (a := e)
    apply List.perm_middle.symm.trans
    rw [split, touched.before, List.filter_append, List.filter_cons_of_pos valid] at perm
    rw [List.filter_append]
    exact perm.trans List.perm_middle
  rcases touched.place with ⟨valid, here⟩ | ⟨missed, free⟩ | ⟨missed, full, least⟩
  · have inside : e ∈ es := perm.mem_iff.2 (List.mem_filter.2 ⟨by rw [touched.before]; simp, valid⟩)
    obtain ⟨F, B, split⟩ := List.append_of_mem inside
    have fewer : (F ++ B).Sublist es := by
      rw [split]
      exact List.Sublist.append_left (List.sublist_cons_self e B) F
    have ranked' := touched_front touched room (keep split valid) (sorted.sublist fewer)
      fun f member => stamped f (fewer.subset member)
    refine ⟨e' :: (F ++ B), ?_⟩
    have listed : l = F.map CacheEntry.lba ++ lba :: B.map CacheEntry.lba := by
      rw [← sectors, split, List.map_append, List.map_cons, here]
    have apart : lba ∉ F.map CacheEntry.lba := by
      rw [listed] at distinct
      exact fun early => (List.nodup_append.1 distinct).2.2 lba early lba List.mem_cons_self rfl
    rw [touch_present (by rw [listed]; simp) fits, listed, List.erase_append_right _ apart,
      List.erase_cons_head, ← List.map_append]
    exact ranked'
  · have skipped : s.cache.filter CacheEntry.valid = (L ++ R).filter CacheEntry.valid := by
      rw [touched.before, List.filter_append, List.filter_append,
        List.filter_cons_of_neg (by rw [free]; exact Bool.false_ne_true)]
    have fewer : l.length < cacheSize := by
      have count := List.length_filter_le CacheEntry.valid (L ++ R)
      rw [← sectors, List.length_map, perm.length_eq, skipped, ← size, touched.before]
      rw [List.length_append, List.length_cons]
      rw [List.length_append] at count
      omega
    have ranked' := touched_front touched room (skipped ▸ perm) sorted stamped
    rw [touch_absent (absent missed) fewer, ← sectors]
    exact ⟨_, ranked'⟩
  · have valid := full e (by rw [touched.before]; simp)
    have inside : e ∈ es := perm.mem_iff.2 (List.mem_filter.2 ⟨by rw [touched.before]; simp, valid⟩)
    obtain ⟨F, B, split⟩ := List.append_of_mem inside
    have last : B = [] := by
      apply List.eq_nil_iff_forall_not_mem.2
      intro f member
      have behind : f ∈ es := by
        rw [split]
        exact List.mem_append_right _ (List.mem_cons_of_mem e member)
      have older : f.age < e.age := by
        rw [split] at sorted
        exact (List.pairwise_cons.1 (List.pairwise_append.1 sorted).2.1).1 f member
      have young := least f (List.mem_filter.1 (perm.mem_iff.1 behind)).1
      omega
    subst last
    have whole : s.cache.filter CacheEntry.valid = s.cache := List.filter_eq_self.2 full
    have rest := keep split valid
    rw [List.append_nil] at rest
    have front : F.Sublist es := by
      rw [split]
      exact List.sublist_append_left F [e]
    have ranked' := touched_front touched room rest (sorted.sublist front)
      fun f member => stamped f (front.subset member)
    have listed : l = F.map CacheEntry.lba ++ [e.lba] := by
      rw [← sectors, split, List.map_append, List.map_singleton]
    have count : l.length = cacheSize := by
      rw [← sectors, List.length_map, perm.length_eq, whole, size]
    rw [listed] at count absent ⊢
    rw [touch_full (absent missed) count]
    exact ⟨_, ranked'⟩

end Ranking

section Flushing

variable {s : Fat32Filesystem}

/-- `flushFat` copies the entry to the second FAT. -/
structure Mirrored (fatStartSector fatSize : Nat) (e : CacheEntry) : Prop where
  valid : e.valid = true
  dirty : e.dirty = true
  low : fatStartSector ≤ e.lba
  high : e.lba < fatStartSector + fatSize

theorem layout_mirror (layout : Layout s) :
    s.fatStartSector + 2 * s.fatSize ≤ s.dataStartSector ∧ s.dataStartSector ≤ 4294967296 := by
  have copies := Nat.mul_le_mul_right s.fatSize layout.copies
  have fits := layout.dataFits
  rw [layout.dataStart, layout.fatStart] at *
  omega

theorem mirrored_iff (bound : s.fatStartSector + 2 * s.fatSize ≤ 4294967296) (e : CacheEntry) :
    (e.valid = true ∧ e.dirty = true ∧ s.fatStartSector ≤ e.lba ∧
      e.lba < u32 (s.fatStartSector + s.fatSize)) ↔ Mirrored s.fatStartSector s.fatSize e := by
  have wrapped : u32 (s.fatStartSector + s.fatSize) ≤ s.fatStartSector + s.fatSize := Nat.mod_le _ _
  constructor
  · rintro ⟨valid, dirty, low, high⟩
    exact ⟨valid, dirty, low, by omega⟩
  · rintro ⟨valid, dirty, low, high⟩
    exact ⟨valid, dirty, low, by rw [u32_of_lt (by omega)]; exact high⟩

/-- The copies that a flush makes, and nothing else, change the drive. -/
theorem flush_entries_copies (bound : s.fatStartSector + 2 * s.fatSize ≤ 4294967296)
    (granting : Granting s) {entries : List CacheEntry} {content : Nat → Sector}
    (held : ∀ e ∈ entries, Mirrored s.fatStartSector s.fatSize e → e.data = some (content e.lba)) :
    ∃ sectors rest, flushEntries entries s = some (PUnit.unit, { s with ata := ⟨sectors, rest⟩ }) ∧
      (∀ ok ∈ rest, ok = true) ∧
      (∀ l, (∀ e ∈ entries, Mirrored s.fatStartSector s.fatSize e → l ≠ e.lba + s.fatSize) →
        sectors l = s.ata.sectors l) ∧
      ∀ e ∈ entries, Mirrored s.fatStartSector s.fatSize e →
        sectors (e.lba + s.fatSize) = content e.lba := by
  induction entries generalizing s with
  | nil =>
      exact ⟨s.ata.sectors, s.ata.outcomes, rfl, granting, fun _ _ => rfl,
        fun e none => absurd none List.not_mem_nil⟩
  | cons entry entries ih =>
      have later := fun e member => held e (List.mem_cons_of_mem entry member)
      by_cases mirrored : Mirrored s.fatStartSector s.fatSize entry
      · have copied := (mirrored_iff bound entry).2 mirrored
        obtain ⟨rest₁, write, granted⟩ := ata_write_granting granting
          (u32 (entry.lba + s.fatSize)) (content entry.lba)
        rw [u32_of_lt (by have := mirrored.high; omega)] at write
        obtain ⟨sectors, rest, run, granted', others, copies⟩ := ih
          (s := { s with ata := ⟨putAt s.ata.sectors (entry.lba + s.fatSize) (content entry.lba),
            rest₁⟩ }) bound granted later
        refine ⟨sectors, rest, ?_, granted', ?_, ?_⟩
        · rw [flushEntries, held entry List.mem_cons_self mirrored]
          dsimp only
          rw [if_pos copied, u32_of_lt (by have := mirrored.high; omega)]
          exact (bind_of_some write).trans run
        · intro l apart
          rw [others l fun e member => apart e (List.mem_cons_of_mem entry member)]
          exact if_neg (apart entry List.mem_cons_self mirrored)
        · intro e member mirrored'
          rcases List.mem_cons.1 member with rfl | old
          · -- it may be copied again, with the same content
            by_cases again : ∃ f ∈ entries, Mirrored s.fatStartSector s.fatSize f ∧ f.lba = e.lba
            · obtain ⟨f, inside, mirroredF, same⟩ := again
              rw [← same]
              exact copies f inside mirroredF
            · rw [others _ fun f inside mirroredF same =>
                again ⟨f, inside, mirroredF, (Nat.add_right_cancel same).symm⟩]
              exact if_pos rfl
          · exact copies e old mirrored'
      · obtain ⟨sectors, rest, run, granted', others, copies⟩ := ih bound granting later
        refine ⟨sectors, rest, ?_, granted', ?_, ?_⟩
        · rw [flushEntries, ← run]
          cases entry.data with
          | none => rfl
          | some data => exact if_neg fun copied => mirrored ((mirrored_iff bound entry).1 copied)
        · exact fun l apart => others l fun e member => apart e (List.mem_cons_of_mem entry member)
        · intro e member mirrored'
          rcases List.mem_cons.1 member with rfl | old
          · exact absurd mirrored' mirrored
          · exact copies e old mirrored'

theorem flush_fat_copies (layout : Layout s) (steady : Steady ⟨false, false⟩ s) :
    ∃ s', flushFat s = some (true, s') ∧ Steady ⟨false, false⟩ s' ∧
      core s' = core (withSectors s s'.ata.sectors) ∧ s'.cache = s.cache ∧
      s'.cacheAge = s.cacheAge ∧ (∀ l, ¬ Mirror s l → s'.ata.sectors l = s.ata.sectors l) ∧
      ∀ e ∈ s.cache, Mirrored s.fatStartSector s.fatSize e →
        s'.ata.sectors (e.lba + s.fatSize) = s'.ata.sectors e.lba := by
  obtain ⟨bound, high⟩ := layout_mirror layout
  obtain ⟨size, holds, unique⟩ := steady.transparent
  have held : ∀ e ∈ s.cache, Mirrored s.fatStartSector s.fatSize e →
      e.data = some (s.ata.sectors e.lba) := by
    intro e member mirrored
    obtain ⟨i, found⟩ := List.mem_iff_getElem?.1 member
    exact holds i e found mirrored.valid
  obtain ⟨sectors, rest, run, granted, others, copies⟩ :=
    flush_entries_copies (Nat.le_trans bound high) (steady.granting rfl) held
  have outside : ∀ l, ¬ Mirror s l → sectors l = s.ata.sectors l := by
    intro l apart
    apply others l
    rintro e _ mirrored rfl
    have low := mirrored.low
    have high := mirrored.high
    exact apart ⟨by omega, by omega⟩
  refine ⟨{ s with ata := ⟨sectors, rest⟩ }, ?_, ⟨⟨size, ?_, unique⟩, steady.unmirrored,
    fun _ => granted, steady.supplied⟩, rfl, rfl, rfl, outside, ?_⟩
  · exact (bind_of_some (x := get) rfl).trans ((bind_of_some run).trans rfl)
  · intro i e found valid
    rw [holds i e found valid]
    exact congrArg some (outside e.lba (steady.unmirrored e.lba ⟨i, e, found, valid, rfl⟩)).symm
  · intro e member mirrored
    have high := mirrored.high
    exact (copies e member mirrored).trans
      (outside e.lba fun inside => absurd inside.1 (Nat.not_le.2 high)).symm

end Flushing

section Running

variable {s₀ s s' : Fat32Filesystem} {lba : Nat} {data : Sector}
  {history before after : List Access}

theorem path_concat {a : Access} (reached : path perform s₀ (history ++ [a]) = some s') :
    ∃ s, path perform s₀ history = some s ∧ perform s a = some s' := by
  induction history generalizing s₀ with
  | nil =>
      obtain ⟨t, next, rest⟩ := Option.bind_eq_some_iff.1 reached
      cases rest
      exact ⟨s₀, rfl, next⟩
  | cons b history ih =>
      obtain ⟨t, next, rest⟩ := Option.bind_eq_some_iff.1 reached
      obtain ⟨s, there, last⟩ := ih rest
      exact ⟨s, Option.bind_eq_some_iff.2 ⟨t, next, there⟩, last⟩

/-- What holds after a history of accesses that started with the fresh cache of `s₀`. -/
structure Windowed (s₀ s : Fat32Filesystem) (history : List Access) : Prop where
  steady : Steady ⟨false, false⟩ s
  geometry : core s = core (withSectors s₀ s.ata.sectors)
  age : s.cacheAge ≤ 2 * (used history).length
  ranked : ∃ es, Ranked s es (window history)

theorem Windowed.mirror (windowed : Windowed s₀ s history) (l : Nat) : Mirror s l ↔ Mirror s₀ l :=
  mirror_of_core windowed.geometry l

theorem used_concat (history : List Access) (a : Access) :
    used (history ++ [a]) = used history ++ a.sector.toList := by
  unfold used
  rw [List.filterMap_append]
  cases a with
  | read lba => rfl
  | write lba data => rfl
  | flush => rfl

theorem windowed_touched {a : Access} (windowed : Windowed s₀ s history)
    (sector : a.sector = some lba) (outside : ¬ Mirror s₀ lba)
    (room : 2 * (used (history ++ [a])).length < 4294967296)
    {L R : List CacheEntry} {e e' : CacheEntry} (touched : Touched s s' lba L R e e')
    (serves : Serves s s' lba) (same : core s' = core (withSectors s s'.ata.sectors)) :
    Windowed s₀ s' (history ++ [a]) := by
  have grow : used (history ++ [a]) = used history ++ [lba] := by
    rw [used_concat, sector]
    rfl
  rw [grow, List.length_append, List.length_singleton] at room
  have age := windowed.age
  have clock := touched.clock (by omega)
  obtain ⟨es, ranked⟩ := windowed.ranked
  have distinct : (window history).Nodup :=
    (recent_nodup (used history)).sublist (List.take_sublist _ _)
  refine ⟨windowed.steady.served serves ?_ fun l => mirror_of_core same l, ?_, ?_, ?_⟩
  · rw [windowed.mirror]
    exact outside
  · exact same.trans (core_with_sectors windowed.geometry s'.ata.sectors)
  · rw [grow, List.length_append, List.length_singleton]
    omega
  · unfold window
    rw [grow, take_recent_concat]
    exact touched_ranked touched (by omega) windowed.steady.transparent.size distinct ranked

theorem windowed_read (windowed : Windowed s₀ s history) (outside : ¬ Mirror s₀ lba)
    (room : 2 * (used (history ++ [.read lba])).length < 4294967296)
    (next : perform s (.read lba) = some s') : Windowed s₀ s' (history ++ [.read lba]) := by
  obtain ⟨t, L, R, e, e', run, touched, _⟩ := cache_read_touches windowed.steady lba
  obtain ⟨u, run', serves, same⟩ :=
    cache_read_serves (windowed.steady.granting rfl) windowed.steady.transparent lba
  obtain ⟨⟨_, s'⟩, done, rfl⟩ := Option.map_eq_some_iff.1 next
  cases run.symm.trans done
  cases run'.symm.trans done
  have sectors := core_sectors same
  refine windowed_touched windowed rfl outside room touched serves ?_
  rw [same, sectors]
  rfl

theorem windowed_write (windowed : Windowed s₀ s history) (outside : ¬ Mirror s₀ lba)
    (room : 2 * (used (history ++ [.write lba data])).length < 4294967296)
    (next : perform s (.write lba data) = some s') :
    Windowed s₀ s' (history ++ [.write lba data]) := by
  obtain ⟨t, L, R, e, e', run, touched, _⟩ := cache_write_touches windowed.steady lba data
  obtain ⟨u, run', serves, same⟩ :=
    cache_write_serves (windowed.steady.granting rfl) windowed.steady.transparent lba data
  obtain ⟨⟨_, s'⟩, done, rfl⟩ := Option.map_eq_some_iff.1 next
  cases run.symm.trans done
  cases run'.symm.trans done
  have sectors := core_sectors same
  refine windowed_touched windowed rfl outside room touched serves ?_
  rw [same, sectors]
  rfl

theorem windowed_flush (windowed : Windowed s₀ s history) (layout : Layout s₀)
    (next : perform s .flush = some s') :
    Windowed s₀ s' (history ++ [.flush]) ∧ s'.cache = s.cache := by
  have layout' : Layout s := layout_of_core layout windowed.geometry
  obtain ⟨t, run, steady, same, cache, age, _⟩ := flush_fat_copies layout' windowed.steady
  obtain ⟨⟨_, s'⟩, done, rfl⟩ := Option.map_eq_some_iff.1 next
  cases run.symm.trans done
  have still : used (history ++ [.flush]) = used history := by
    rw [used_concat]
    exact List.append_nil _
  obtain ⟨es, ⟨perm, sorted, stamped, sectors⟩⟩ := windowed.ranked
  refine ⟨⟨steady, same.trans (core_with_sectors windowed.geometry _), ?_, es, ?_, sorted, ?_, ?_⟩,
    cache⟩
  · rw [still]
    exact Nat.le_trans (Nat.le_of_eq age) windowed.age
  · exact cache ▸ perm
  · exact fun e member => age ▸ stamped e member
  · unfold window
    rw [still]
    exact sectors

theorem windowed_path (fresh : Fresh s₀) (outside : ∀ l ∈ used history, ¬ Mirror s₀ l)
    (room : 2 * (used history).length < 4294967296)
    (reached : path perform s₀ history = some s) : Windowed s₀ s history := by
  induction history using List.reverseRecOn generalizing s with
  | nil =>
      cases reached
      have none : s₀.cache.filter CacheEntry.valid = [] :=
        List.filter_eq_nil_iff.2 fun e member => by
          rw [fresh.empty e member]
          exact Bool.false_ne_true
      exact ⟨fresh.steady, rfl, by rw [fresh.age]; exact Nat.zero_le _,
        [], none ▸ .refl _, .nil, fun e absent => absurd absent List.not_mem_nil, rfl⟩
  | append_singleton history a ih =>
      obtain ⟨t, earlier, next⟩ := path_concat reached
      rw [used_concat] at outside
      have fewer : 2 * (used history).length < 4294967296 := by
        rw [used_concat, List.length_append] at room
        omega
      have windowed := ih (fun l member => outside l (List.mem_append_left _ member)) fewer earlier
      cases a with
      | read lba => exact windowed_read windowed (outside lba (by simp [Access.sector])) room next
      | write lba data =>
          exact windowed_write windowed (outside lba (by simp [Access.sector])) room next
      | flush => exact (windowed_flush windowed fresh.layout next).1

theorem Windowed.cached_iff (windowed : Windowed s₀ s history) (l : Nat) :
    Cached s l ↔ l ∈ window history := by
  obtain ⟨es, ranked⟩ := windowed.ranked
  rw [← ranked.sectors, List.mem_map]
  constructor
  · rintro ⟨i, e, found, valid, here⟩
    exact ⟨e, ranked.perm.mem_iff.2 (List.mem_filter.2 ⟨List.mem_of_getElem? found, valid⟩), here⟩
  · rintro ⟨e, member, here⟩
    obtain ⟨inside, valid⟩ := List.mem_filter.1 (ranked.perm.mem_iff.1 member)
    obtain ⟨i, found⟩ := List.mem_iff_getElem?.1 inside
    exact ⟨i, e, found, valid, here⟩

/-- After any history of accesses the cache holds exactly the sixteen sectors used last. Such a
sector is read without a request to the drive. -/
theorem cache_holds_window (fresh : Fresh s₀) (outside : ∀ l ∈ used history, ¬ Mirror s₀ l)
    (room : 2 * (used history).length < 4294967296) (reached : path perform s₀ history = some s) :
    (∀ l, Cached s l ↔ l ∈ window history) ∧ ∀ l, ∃ s',
      cacheRead l s = some (some (s.ata.sectors l), s') ∧
        (l ∈ window history → s'.ata = s.ata) := by
  have windowed := windowed_path fresh outside room reached
  refine ⟨windowed.cached_iff, fun l => ?_⟩
  obtain ⟨s', L, R, e, e', run, touched, silent⟩ := cache_read_touches windowed.steady l
  refine ⟨s', run, fun member => ?_⟩
  obtain ⟨i, f, found, validF, hereF⟩ := (windowed.cached_iff l).2 member
  have inside := List.mem_of_getElem? found
  rcases touched.place with ⟨valid, here⟩ | ⟨missed, _⟩ | ⟨missed, _, _⟩
  · exact silent valid here
  · exact absurd hereF (missed f inside validF)
  · exact absurd hereF (missed f inside validF)

theorem small_volume_fresh : Fresh PathWalk.smallVolume where
  layout := PathWalk.small_volume_stands.layout
  steady := PathWalk.small_volume_stands.steady
  empty e member := by rw [List.eq_of_mem_replicate member]
  age := rfl

/-- After reads of sectors 1 and 3 both are cached. -/
theorem small_volume_window : ∃ s, path perform PathWalk.smallVolume [.read 1, .read 3] = some s ∧
    (Cached s 1 ∧ Cached s 3 ∧ ¬ Cached s 4) ∧
      ∃ s', cacheRead 1 s = some (some (s.ata.sectors 1), s') ∧ s'.ata = s.ata := by
  have possible : (path perform PathWalk.smallVolume [.read 1, .read 3]).isSome = true := by
    decide +kernel
  obtain ⟨s, reached⟩ := Option.isSome_iff_exists.1 possible
  have outside : ∀ l ∈ used [.read 1, .read 3], ¬ Mirror PathWalk.smallVolume l := by
    unfold Mirror
    decide
  obtain ⟨cached, reads⟩ := cache_holds_window small_volume_fresh outside (by decide) reached
  obtain ⟨s', run, silent⟩ := reads 1
  exact ⟨s, reached, ⟨(cached 1).2 (by decide), (cached 3).2 (by decide),
    fun held => absurd ((cached 4).1 held) (by decide)⟩, s', run, silent (by decide)⟩

end Running

section Mirroring

variable {s₀ s s' : Fat32Filesystem} {lba : Nat} {data : Sector}
  {history before after : List Access}

def Marked (s : Fat32Filesystem) (lba : Nat) : Prop :=
  ∃ e ∈ s.cache, e.valid = true ∧ e.dirty = true ∧ e.lba = lba

theorem unique_entry (transparent : Transparent s) {e f : CacheEntry} (inE : e ∈ s.cache)
    (inF : f ∈ s.cache) (validE : e.valid = true) (validF : f.valid = true) (same : e.lba = f.lba) :
    e = f := by
  obtain ⟨i, atE⟩ := List.mem_iff_getElem?.1 inE
  obtain ⟨j, atF⟩ := List.mem_iff_getElem?.1 inF
  obtain rfl := transparent.unique i j e f atE atF validE validF same
  exact Option.some.inj (atE.symm.trans atF)

theorem marked_touched {L R : List CacheEntry} {e e' : CacheEntry} (transparent : Transparent s)
    (touched : Touched s s' lba L R e e') {l : Nat} (marked : Marked s l) (cached : Cached s' l) :
    Marked s' l := by
  obtain ⟨f, inF, validF, dirty, rfl⟩ := marked
  obtain ⟨i, g, found, valid, here⟩ := cached
  have inG := List.mem_of_getElem? found
  refine ⟨g, inG, valid, ?_, here⟩
  rw [touched.after] at inG
  have inE : e ∈ s.cache := by
    rw [touched.before]
    exact List.mem_append_right _ List.mem_cons_self
  have old : g ∈ L ∨ g ∈ R → g.dirty = true := by
    intro side
    have inside : g ∈ s.cache := by
      rw [touched.before]
      exact side.elim (List.mem_append_left _) fun back =>
        List.mem_append_right _ (List.mem_cons_of_mem e back)
    rw [unique_entry transparent inside inF valid validF here]
    exact dirty
  rcases List.mem_append.1 inG with front | rest
  · exact old (.inl front)
  · rcases List.mem_cons.1 rest with rfl | back
    · rw [touched.sector] at here
      rcases touched.place with ⟨validE, hereE⟩ | ⟨missed, _⟩ | ⟨missed, _, _⟩
      · have same := unique_entry transparent inE inF validE validF (hereE.trans here)
        exact touched.marked validE (same ▸ dirty) hereE
      · exact absurd here.symm (missed f inF validF)
      · exact absurd here.symm (missed f inF validF)
    · exact old (.inr back)

theorem used_append (before after : List Access) :
    used (before ++ after) = used before ++ used after :=
  List.filterMap_append

/-- A sector that was written is marked while fewer than sixteen other sectors were used. -/
theorem written_marked (fresh : Fresh s₀)
    (outside : ∀ l ∈ used (before ++ .write lba data :: after), ¬ Mirror s₀ l)
    (room : 2 * (used (before ++ .write lba data :: after)).length < 4294967296)
    (few : ((used after).toFinset.erase lba).card < cacheSize)
    (reached : path perform s₀ (before ++ .write lba data :: after) = some s) : Marked s lba := by
  induction after using List.reverseRecOn generalizing s with
  | nil =>
      obtain ⟨t, earlier, next⟩ := path_concat reached
      rw [used_append] at outside room
      have windowed := windowed_path fresh
        (fun l member => outside l (List.mem_append_left _ member))
        (by rw [List.length_append] at room; omega) earlier
      obtain ⟨u, L, R, e, e', run, touched, dirty⟩ := cache_write_touches windowed.steady lba data
      obtain ⟨⟨_, s⟩, done, rfl⟩ := Option.map_eq_some_iff.1 next
      cases run.symm.trans done
      refine ⟨e', ?_, touched.valid, dirty, touched.sector⟩
      rw [touched.after]
      exact List.mem_append_right _ List.mem_cons_self
  | append_singleton after a ih =>
      have whole : before ++ .write lba data :: (after ++ [a]) =
          (before ++ .write lba data :: after) ++ [a] := by simp
      rw [whole] at reached outside room
      have here := windowed_path fresh outside room reached
      obtain ⟨t, earlier, next⟩ := path_concat reached
      rw [used_concat] at outside
      have fewer : 2 * (used (before ++ .write lba data :: after)).length < 4294967296 := by
        rw [used_concat, List.length_append] at room
        omega
      have outside' := fun l member => outside l (List.mem_append_left _ member)
      have windowed := windowed_path fresh outside' fewer earlier
      have marked := ih outside' fewer (Nat.lt_of_le_of_lt (Finset.card_le_card
        (Finset.erase_subset_erase _ (by
          rw [used_append]
          exact fun l member => List.mem_toFinset.2
            (List.mem_append_left _ (List.mem_toFinset.1 member))))) few) earlier
      have cached : Cached s lba := by
        rw [here.cached_iff, ← whole]
        unfold window
        rw [used_append]
        exact mem_take_recent few
      cases a with
      | read l =>
          obtain ⟨u, L, R, e, e', run, touched, _⟩ := cache_read_touches windowed.steady l
          obtain ⟨⟨_, s⟩, done, rfl⟩ := Option.map_eq_some_iff.1 next
          cases run.symm.trans done
          exact marked_touched windowed.steady.transparent touched marked cached
      | write l data' =>
          obtain ⟨u, L, R, e, e', run, touched, _⟩ := cache_write_touches windowed.steady l data'
          obtain ⟨⟨_, s⟩, done, rfl⟩ := Option.map_eq_some_iff.1 next
          cases run.symm.trans done
          exact marked_touched windowed.steady.transparent touched marked cached
      | flush =>
          have kept := (windowed_flush windowed fresh.layout next).2
          unfold Marked at marked ⊢
          rw [kept]
          exact marked

/-- After `flushFat` both FATs agree on each sector that was written and since whose last write at
most fifteen other sectors were used; outside the second FAT it changes nothing. -/
theorem flush_mirrors_written (fresh : Fresh s₀)
    (outside : ∀ l ∈ used (before ++ .write lba data :: after), ¬ Mirror s₀ l)
    (room : 2 * (used (before ++ .write lba data :: after)).length < 4294967296)
    (few : ((used after).toFinset.erase lba).card < cacheSize)
    (inFat : s₀.fatStartSector ≤ lba ∧ lba < s₀.fatStartSector + s₀.fatSize)
    (reached : path perform s₀ (before ++ .write lba data :: after) = some s) :
    ∃ s', flushFat s = some (true, s') ∧
      s'.ata.sectors (lba + s₀.fatSize) = s'.ata.sectors lba ∧
      ∀ l, ¬ Mirror s₀ l → s'.ata.sectors l = s.ata.sectors l := by
  have windowed := windowed_path fresh outside room reached
  have layout : Layout s := layout_of_core fresh.layout windowed.geometry
  have start : (core s).fatStartSector = s₀.fatStartSector := by
    rw [windowed.geometry]
    rfl
  have size : (core s).fatSize = s₀.fatSize := by
    rw [windowed.geometry]
    rfl
  change s.fatStartSector = _ at start
  change s.fatSize = _ at size
  obtain ⟨e, inside, valid, dirty, rfl⟩ := written_marked fresh outside room few reached
  obtain ⟨s', run, _, _, _, _, others, copies⟩ := flush_fat_copies layout windowed.steady
  have copied := copies e inside ⟨valid, dirty, start ▸ inFat.1, by rw [start, size]; exact inFat.2⟩
  refine ⟨s', run, size ▸ copied, fun l outside => others l ?_⟩
  unfold Mirror at outside ⊢
  rw [start, size]
  exact outside

/-- Sector 1, the first FAT of the volume, is written and copied to sector 2. -/
theorem small_volume_mirrors : ∃ s s', path perform PathWalk.smallVolume
    ([] ++ .write 1 (fun _ => 7) :: [.read 3]) = some s ∧ flushFat s = some (true, s') ∧
      s'.ata.sectors 2 = s'.ata.sectors 1 := by
  have possible : (path perform PathWalk.smallVolume
      ([] ++ .write 1 (fun _ => 7) :: [.read 3])).isSome = true := by
    decide +kernel
  obtain ⟨s, reached⟩ := Option.isSome_iff_exists.1 possible
  have outside : ∀ l ∈ used ([] ++ .write 1 (fun _ => 7) :: [.read 3]),
      ¬ Mirror PathWalk.smallVolume l := by
    unfold Mirror
    decide
  obtain ⟨s', run, copied, _⟩ := flush_mirrors_written small_volume_fresh outside (by decide)
    (by decide) (by decide) reached
  exact ⟨s, s', reached, run, copied⟩

end Mirroring

end CassiOS.Fat32.CacheWindow
