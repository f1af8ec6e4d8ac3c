import CassiOS.Fat32.Device

/-!
# The sector cache is invisible

While no request fails, `cacheRead` and `cacheWrite` behave as a drive without a cache,
whether or not a block can be allocated. `Transparent` is what the cache keeps: a valid
entry holds what the drive holds and no sector is cached twice. Reads keep it also when
requests fail. `Unmirrored` says that no sector of the second FAT is cached, since
`flushFat` writes those past the cache.
-/

namespace CassiOS.Fat32.Cache

open CassiOS.Support.PartialProgram
open CassiOS.Fat32.Types
open CassiOS.Fat32.Device

set_option autoImplicit false

/-- The sectors of the second FAT. -/
def Mirror (s : Fat32Filesystem) (lba : Nat) : Prop :=
  s.fatStartSector + s.fatSize ≤ lba ∧ lba < s.fatStartSector + 2 * s.fatSize

/-- Every request to come succeeds; allocations may fail. -/
def Granting (s : Fat32Filesystem) : Prop := ∀ ok ∈ s.ata.outcomes, ok = true

def Supplied (s : Fat32Filesystem) : Prop := ∀ ok ∈ s.heap.outcomes, ok = true

structure Transparent (s : Fat32Filesystem) : Prop where
  size : s.cache.length = cacheSize
  holds : ∀ (i : Nat) (e : CacheEntry), s.cache[i]? = some e → e.valid = true →
    e.data = some (s.ata.sectors e.lba)
  unique : ∀ (i j : Nat) (e f : CacheEntry), s.cache[i]? = some e → s.cache[j]? = some f →
    e.valid = true → f.valid = true → e.lba = f.lba → i = j

/-- The state without what the cache and the environment keep for themselves. -/
def core (s : Fat32Filesystem) : Fat32Filesystem :=
  { s with
    ata := ⟨s.ata.sectors, []⟩
    heap := ⟨[], s.heap.junk⟩
    cache := []
    cacheAge := 0
    lfnOverrun := false }

def withSectors (s : Fat32Filesystem) (sectors : Nat → Sector) : Fat32Filesystem :=
  { s with ata := ⟨sectors, s.ata.outcomes⟩ }

theorem put_at_same (sectors : Nat → Sector) (lba : Nat) :
    putAt sectors lba (sectors lba) = sectors := by
  funext l
  unfold putAt
  split
  · next same => rw [same]
  · rfl

theorem core_sectors {s s' : Fat32Filesystem} (same : core s' = core s) :
    s'.ata.sectors = s.ata.sectors := by
  have field : (core s').ata.sectors = (core s).ata.sectors := by rw [same]
  exact field

theorem core_with_sectors {s s' : Fat32Filesystem} (same : core s' = core s)
    (sectors : Nat → Sector) : core (withSectors s' sectors) = core (withSectors s sectors) := by
  have field : withSectors (core s') sectors = withSectors (core s) sectors := by rw [same]
  exact field

theorem mirror_of_core {s s' : Fat32Filesystem} (same : core s' = core s) (lba : Nat) :
    Mirror s' lba ↔ Mirror s lba := by
  have field : Mirror (core s') lba ↔ Mirror (core s) lba := by rw [same]
  exact field

section Environment

theorem head_tail_granted {script : List Bool} (granted : ∀ ok ∈ script, ok = true) :
    script.headD true = true ∧ ∀ ok ∈ script.tail, ok = true := by
  cases script with
  | nil => simp
  | cons ok rest => exact ⟨granted ok (by simp), fun b hb => granted b (List.mem_cons_of_mem _ hb)⟩

theorem ata_write_granting {s : Fat32Filesystem} (granting : Granting s) (lba : Nat)
    (data : Sector) :
    ∃ rest, ataWrite lba data s =
        some (true, { s with ata := ⟨putAt s.ata.sectors lba data, rest⟩ }) ∧
      ∀ ok ∈ rest, ok = true := by
  obtain ⟨granted, rest⟩ := head_tail_granted granting
  exact ⟨_, by simp only [ataWrite, granted, if_true], rest⟩

theorem granting_tail {s : Fat32Filesystem} (granting : Granting s) :
    ∀ ok ∈ s.ata.outcomes.tail, ok = true :=
  fun ok member => granting ok (List.mem_of_mem_tail member)

/-- Only a drive that may fail refuses a request. -/
theorem ata_read_cases (s : Fat32Filesystem) (lba : Nat) :
    ∃ data, ataRead lba s =
        some (data, { s with ata := ⟨s.ata.sectors, s.ata.outcomes.tail⟩ }) ∧
      (data = some (s.ata.sectors lba) ∨ data = none ∧ ¬ Granting s) := by
  refine ⟨_, rfl, ?_⟩
  cases granted : s.ata.outcomes.headD true with
  | true => exact .inl rfl
  | false =>
      refine .inr ⟨rfl, fun granting => ?_⟩
      rw [(head_tail_granted granting).1] at granted
      cases granted

/-- Storing what a sector holds changes no sector, whether or not the request fails. -/
theorem ata_write_same (s : Fat32Filesystem) (lba : Nat) :
    ∃ ok, ataWrite lba (s.ata.sectors lba) s =
      some (ok, { s with ata := ⟨s.ata.sectors, s.ata.outcomes.tail⟩ }) := by
  refine ⟨s.ata.outcomes.headD true, ?_⟩
  unfold ataWrite
  dsimp only
  cases s.ata.outcomes.headD true with
  | true => rw [if_pos rfl, put_at_same]
  | false => rw [if_neg Bool.false_ne_true]

theorem heap_alloc_cases (s : Fat32Filesystem) :
    ∃ block, heapAlloc s = some (block, { s with heap := ⟨s.heap.outcomes.tail, s.heap.junk⟩ }) ∧
      (block = some s.heap.junk ∨ block = none ∧ ¬ Supplied s) := by
  refine ⟨_, rfl, ?_⟩
  cases granted : s.heap.outcomes.headD true with
  | true => exact .inl rfl
  | false =>
      refine .inr ⟨rfl, fun supplied => ?_⟩
      rw [(head_tail_granted supplied).1] at granted
      cases granted

end Environment

section Transfer

/-- Changing one entry keeps the cache transparent when the new entry is. -/
theorem transparent_modify {s s' : Fat32Filesystem} (transparent : Transparent s) (i : Nat)
    (update : CacheEntry → CacheEntry)
    (cache : s'.cache = s.cache.modify i update)
    (sectors : ∀ j e, j ≠ i → s.cache[j]? = some e → e.valid = true →
      s'.ata.sectors e.lba = s.ata.sectors e.lba)
    (entry : ∀ e, s.cache[i]? = some e → (update e).valid = true →
      (update e).data = some (s'.ata.sectors (update e).lba) ∧
        ∀ j f, j ≠ i → s.cache[j]? = some f → f.valid = true → f.lba ≠ (update e).lba) :
    Transparent s' := by
  have lookup : ∀ j f, s'.cache[j]? = some f →
      (j = i ∧ ∃ e, s.cache[i]? = some e ∧ f = update e) ∨ (j ≠ i ∧ s.cache[j]? = some f) := by
    intro j f found
    rw [cache, List.getElem?_modify] at found
    by_cases same : i = j
    · subst same
      left
      simp only [if_true] at found
      cases old : s.cache[i]? with
      | none => simp [old] at found
      | some e => exact ⟨rfl, e, rfl, by simpa [old] using found.symm⟩
    · right
      simp only [if_neg same] at found
      exact ⟨fun h => same h.symm, by simpa using found⟩
  constructor
  · rw [cache, List.length_modify, transparent.size]
  · intro j f found valid
    rcases lookup j f found with ⟨rfl, e, old, rfl⟩ | ⟨other, old⟩
    · exact (entry e old valid).1
    · rw [transparent.holds j f old valid, sectors j f other old valid]
  · intro j k f g foundj foundk validj validk same
    rcases lookup j f foundj with ⟨rfl, e, oldj, rfl⟩ | ⟨otherj, oldj⟩ <;>
      rcases lookup k g foundk with ⟨rfl, e', oldk, rfl⟩ | ⟨otherk, oldk⟩
    · rfl
    · exact absurd same.symm ((entry e oldj validj).2 k g otherk oldk validk)
    · exact absurd same ((entry e' oldk validk).2 j f otherj oldj validj)
    · exact transparent.unique j k f g oldj oldk validj validk same

def Cached (s : Fat32Filesystem) (lba : Nat) : Prop :=
  ∃ (i : Nat) (e : CacheEntry), s.cache[i]? = some e ∧ e.valid = true ∧ e.lba = lba

/-- What an operation on sector `lba` leaves: a transparent cache with at most that
sector added, and a heap script of which a beginning may be used up. -/
structure Serves (s s' : Fat32Filesystem) (lba : Nat) : Prop where
  granting : Granting s → Granting s'
  transparent : Transparent s'
  blocks : ∀ ok ∈ s'.heap.outcomes, ok ∈ s.heap.outcomes
  cached : ∀ l, Cached s' l → l = lba ∨ Cached s l

theorem Serves.refl {s : Fat32Filesystem} (transparent : Transparent s) (lba : Nat) :
    Serves s s lba := ⟨id, transparent, fun _ member => member, fun _ cached => .inr cached⟩

theorem Serves.trans {s s' s'' : Fat32Filesystem} {lba : Nat} (first : Serves s s' lba)
    (second : Serves s' s'' lba) : Serves s s'' lba where
  granting := second.granting ∘ first.granting
  transparent := second.transparent
  blocks ok member := first.blocks ok (second.blocks ok member)
  cached l held := (second.cached l held).elim .inl (first.cached l)

/-- Where an entry is replaced, only its new sector can be newly cached. -/
theorem cached_modify {s s' : Fat32Filesystem} {lba : Nat} (i : Nat)
    (update : CacheEntry → CacheEntry) (cache : s'.cache = s.cache.modify i update)
    (entry : ∀ e, s.cache[i]? = some e → (update e).valid = true →
      (update e).lba = lba ∨ e.valid = true ∧ (update e).lba = e.lba) :
    ∀ l, Cached s' l → l = lba ∨ Cached s l := by
  rintro l ⟨j, f, found, valid, rfl⟩
  rw [cache, List.getElem?_modify] at found
  by_cases same : i = j
  · subst same
    simp only [if_true] at found
    cases old : s.cache[i]? with
    | none => simp [old] at found
    | some e =>
        obtain rfl : update e = f := by simpa [old] using found
        rcases entry e old valid with new | ⟨validOld, unchanged⟩
        · exact .inl new
        · exact .inr ⟨i, e, old, validOld, unchanged.symm⟩
  · simp only [if_neg same] at found
    exact .inr ⟨j, f, by simpa using found, valid, rfl⟩

def Unmirrored (s : Fat32Filesystem) : Prop := ∀ lba, Cached s lba → ¬ Mirror s lba

/-- Serving a sector outside the second FAT caches none of its sectors. -/
theorem Serves.unmirrored {s s' : Fat32Filesystem} {lba : Nat} (serves : Serves s s' lba)
    (before : Unmirrored s) (outside : ¬ Mirror s lba) (mirror : ∀ l, Mirror s' l ↔ Mirror s l) :
    Unmirrored s' := by
  intro l cached
  rw [mirror]
  rcases serves.cached l cached with rfl | old
  · exact outside
  · exact before l old

theorem Serves.supplied {s s' : Fat32Filesystem} {lba : Nat} (serves : Serves s s' lba)
    (supplied : Supplied s) : Supplied s' := fun ok member => supplied ok (serves.blocks ok member)

end Transfer

section CacheOperations

theorem cache_lookup_serves {s : Fat32Filesystem} (transparent : Transparent s) (lba : Nat) :
    ∃ hit s', cacheLookup lba s = some (hit, s') ∧ Serves s s' lba ∧ core s' = core s ∧
      match hit with
      | some i => ∃ e : CacheEntry, s'.cache[i]? = some e ∧ e.valid = true ∧ e.lba = lba
      | none => ∀ (j : Nat) (e : CacheEntry), s'.cache[j]? = some e → e.valid = true →
          e.lba ≠ lba := by
  unfold cacheLookup
  cases search : s.cache.findIdx? (fun entry => entry.valid && entry.lba == lba) with
  | none =>
      refine ⟨none, s, rfl, Serves.refl transparent lba, rfl, ?_⟩
      intro j e found valid same
      rw [List.findIdx?_eq_none_iff] at search
      have miss := search e (List.mem_of_getElem? found)
      simp [valid, same] at miss
  | some i =>
      obtain ⟨bound, hit, _⟩ := List.findIdx?_eq_some_iff_getElem.1 search
      have found : s.cache[i]? = some s.cache[i] := List.getElem?_eq_getElem bound
      simp only [Bool.and_eq_true, beq_iff_eq] at hit
      refine ⟨some i, _, rfl, ⟨id, ?_, fun _ member => member, ?_⟩, rfl, ?_⟩
      · refine transparent_modify transparent i _ rfl (fun _ _ _ _ _ => rfl) ?_
        intro e old valid
        refine ⟨transparent.holds i e old valid, ?_⟩
        intro j f other oldj validj same
        exact other (transparent.unique j i f e oldj old validj valid same)
      · exact cached_modify i _ rfl fun e _ valid => .inr ⟨valid, rfl⟩
      · refine ⟨{ s.cache[i] with age := u32 (s.cacheAge + 1) }, ?_, hit.1, hit.2⟩
        simp only [List.getElem?_modify, if_true, found]
        rfl

/-- A search that keeps its index or takes the next one stays in range. -/
theorem foldl_choice_lt {choose : Nat → Nat → Nat} {bound : Nat}
    (picks : ∀ kept i, choose kept i = kept ∨ choose kept i = i) (l : List Nat) (start : Nat)
    (members : ∀ i ∈ l, i < bound) (first : start < bound) : l.foldl choose start < bound := by
  induction l generalizing start with
  | nil => exact first
  | cons i rest ih =>
      have here := members i List.mem_cons_self
      rw [List.foldl_cons]
      apply ih _ fun j later => members j (List.mem_cons_of_mem i later)
      cases picks start i with
      | inl same =>
          rw [same]
          exact first
      | inr next =>
          rw [next]
          exact here

theorem oldest_entry_lt (cache : List CacheEntry) (size : cache.length = cacheSize) :
    oldestEntry cache < cache.length := by
  unfold oldestEntry
  rw [size]
  apply foldl_choice_lt
  · intro kept i
    split
    · split <;> simp
    · simp
  · intro i member
    exact List.mem_range.1 member
  · decide

theorem write_back_serves {s : Fat32Filesystem} (transparent : Transparent s) (lba i : Nat)
    (e : CacheEntry) (found : s.cache[i]? = some e) (valid : e.valid = true) :
    ∃ s', writeBack i e s = some (PUnit.unit, s') ∧ Serves s s' lba ∧ core s' = core s ∧
      (∀ j, j ≠ i → s'.cache[j]? = s.cache[j]?) := by
  unfold writeBack
  have data := transparent.holds i e found valid
  rw [data]
  cases e.dirty with
  | false => exact ⟨s, rfl, Serves.refl transparent lba, rfl, fun _ _ => rfl⟩
  | true =>
      obtain ⟨ok, write⟩ := ata_write_same s e.lba
      refine ⟨_, (bind_of_some write).trans rfl, ⟨granting_tail, ?_, fun _ member => member, ?_⟩,
        rfl, ?_⟩
      · refine transparent_modify transparent i _ rfl (fun _ _ _ _ _ => rfl) ?_
        intro f old validf
        refine ⟨transparent.holds i f old validf, ?_⟩
        intro j g other oldj validj same
        exact other (transparent.unique j i g f oldj old validj validf same)
      · exact cached_modify i _ rfl fun f _ validf => .inr ⟨validf, rfl⟩
      · intro j other
        have apart : ¬ i = j := fun h => other h.symm
        simp [apart]

/-- An evicted entry is invalid and the others are as they were; without a block for an
unused entry there is none to evict. -/
theorem cache_evict_serves {s : Fat32Filesystem} (transparent : Transparent s) (lba : Nat) :
    ∃ slot s', cacheEvict s = some (slot, s') ∧ Serves s s' lba ∧ core s' = core s ∧
      (slot = none → s'.cache = s.cache) ∧
      ∀ i, slot = some i → i < s'.cache.length ∧
        (∀ e : CacheEntry, s'.cache[i]? = some e → e.valid = false) ∧
        ∀ j, j ≠ i → s'.cache[j]? = s.cache[j]? := by
  unfold cacheEvict
  cases search : s.cache.findIdx? (fun entry => !entry.valid) with
  | some i =>
      obtain ⟨bound, invalid, _⟩ := List.findIdx?_eq_some_iff_getElem.1 search
      have found : s.cache[i]? = some s.cache[i] := List.getElem?_eq_getElem bound
      simp only [Bool.not_eq_true'] at invalid
      have still : ∀ e : CacheEntry, s.cache[i]? = some e → e.valid = false := by
        intro e same
        rw [found] at same
        cases same
        exact invalid
      by_cases held : (s.cache[i]?.bind CacheEntry.data).isSome = true
      · refine ⟨some i, s, if_pos held, Serves.refl transparent lba, rfl, nofun, ?_⟩
        rintro _ ⟨rfl⟩
        exact ⟨bound, still, fun _ _ => rfl⟩
      · have fewer : ∀ ok ∈ s.heap.outcomes.tail, ok ∈ s.heap.outcomes :=
          fun ok member => List.mem_of_mem_tail member
        cases outcome : s.heap.outcomes.headD true with
        | false =>
            have alloc : heapAlloc s =
                some (none, { s with heap := ⟨s.heap.outcomes.tail, s.heap.junk⟩ }) := by
              simp only [heapAlloc, outcome, Bool.false_eq_true, if_false]
            refine ⟨none, _, (if_neg held).trans (bind_of_some alloc), ?_, rfl, fun _ => rfl, nofun⟩
            exact ⟨id, ⟨transparent.size, transparent.holds, transparent.unique⟩, fewer,
              fun _ cached => .inr cached⟩
        | true =>
            have alloc : heapAlloc s = some (some s.heap.junk,
                { s with heap := ⟨s.heap.outcomes.tail, s.heap.junk⟩ }) := by
              simp only [heapAlloc, outcome, if_true]
            refine ⟨some i, { s with
                heap := ⟨s.heap.outcomes.tail, s.heap.junk⟩
                cache := s.cache.modify i fun e =>
                  { e with data := some (sectorOf s.heap.junk 0) } },
              (if_neg held).trans (bind_of_some alloc), ⟨id, ?_, fewer, ?_⟩, rfl, nofun, ?_⟩
            · refine transparent_modify transparent i _ rfl (fun _ _ _ _ _ => rfl) ?_
              intro e old valid
              have := still e old
              simp [this] at valid
            · exact cached_modify i _ rfl fun e _ valid => .inr ⟨valid, rfl⟩
            · rintro _ ⟨rfl⟩
              refine ⟨by simpa using bound, ?_, ?_⟩
              · intro e same
                simp only [List.getElem?_modify, if_true, found] at same
                cases same
                exact invalid
              · intro j other
                have apart : ¬ i = j := fun h => other h.symm
                simp [apart]
  | none =>
      have bound := oldest_entry_lt s.cache transparent.size
      have found : s.cache[oldestEntry s.cache]? = some s.cache[oldestEntry s.cache] :=
        List.getElem?_eq_getElem bound
      rw [List.findIdx?_eq_none_iff] at search
      have valid : s.cache[oldestEntry s.cache].valid = true := by
        simpa using search _ (List.getElem_mem bound)
      simp only [found]
      obtain ⟨s₁, run, serves₁, same, others⟩ :=
        write_back_serves transparent lba _ _ found valid
      have bound₁ : oldestEntry s.cache < s₁.cache.length := by
        rw [serves₁.transparent.size, ← transparent.size]
        exact bound
      refine ⟨some (oldestEntry s.cache), _, (bind_of_some run).trans rfl,
        serves₁.trans ⟨id, ?_, fun _ member => member, ?_⟩, same, nofun, ?_⟩
      · refine transparent_modify serves₁.transparent (oldestEntry s.cache) _ rfl
          (fun _ _ _ _ _ => rfl) ?_
        intro e _ impossible
        simp at impossible
      · exact cached_modify (oldestEntry s.cache) _ rfl fun e _ impossible => by simp at impossible
      · rintro _ ⟨rfl⟩
        refine ⟨by simpa using bound₁, ?_, ?_⟩
        · intro e same'
          simp only [List.getElem?_modify, if_true, List.getElem?_eq_getElem bound₁] at same'
          cases same'
          rfl
        · intro j other
          have apart : ¬ oldestEntry s.cache = j := fun h => other h.symm
          rw [← others j other]
          simp [apart]

/-- A read returns the drive's sector, if the drive grants it, and changes only the cache. -/
theorem cache_read_cases {s : Fat32Filesystem} (transparent : Transparent s) (lba : Nat) :
    ∃ data s', cacheRead lba s = some (data, s') ∧ Serves s s' lba ∧ core s' = core s ∧
      (data = some (s.ata.sectors lba) ∨ data = none ∧ ¬ Granting s) := by
  unfold cacheRead
  obtain ⟨hit, s₁, lookup, serves₁, same₁, hitSpec⟩ := cache_lookup_serves transparent lba
  cases hit with
  | some i =>
      obtain ⟨e, found, valid, rfl⟩ := hitSpec
      refine ⟨some (s.ata.sectors e.lba), s₁, (bind_of_some lookup).trans ?_, serves₁, same₁, .inl rfl⟩
      simp [entryData, found, serves₁.transparent.holds i e found valid, core_sectors same₁]
  | none =>
      obtain ⟨slot, s₂, evict, serves₂, same₂, _, slotSpec⟩ :=
        cache_evict_serves serves₁.transparent lba
      have same : core s₂ = core s := same₂.trans same₁
      have both := serves₁.trans serves₂
      have sectors := core_sectors same
      -- the state after the request, whose outcome decides what is cached
      have served : Serves s { s₂ with ata := ⟨s₂.ata.sectors, s₂.ata.outcomes.tail⟩ } lba :=
        both.trans ⟨granting_tail, ⟨both.transparent.size, both.transparent.holds,
          both.transparent.unique⟩, fun _ member => member, fun _ cached => .inr cached⟩
      obtain ⟨data, read, outcome⟩ := ata_read_cases s₂ lba
      rw [sectors] at outcome
      have reported : data = some (s.ata.sectors lba) ∨ data = none ∧ ¬ Granting s :=
        outcome.imp_right fun ⟨missing, refused⟩ =>
          ⟨missing, fun granting => refused (both.granting granting)⟩
      cases slot with
      | none =>
          exact ⟨data, _, (bind_of_some lookup).trans ((bind_of_some evict).trans read), served,
            same, reported⟩
      | some i =>
          obtain ⟨bound, invalid, others⟩ := slotSpec i rfl
          rcases outcome with rfl | ⟨rfl, _⟩
          · refine ⟨some (s.ata.sectors lba), { s₂ with
                ata := ⟨s₂.ata.sectors, s₂.ata.outcomes.tail⟩
                cacheAge := u32 (s₂.cacheAge + 1)
                cache := s₂.cache.modify i fun _ =>
                  ⟨lba, some (s.ata.sectors lba), u32 (s₂.cacheAge + 1), true, false⟩ },
              (bind_of_some lookup).trans ((bind_of_some evict).trans (bind_of_some read)),
              served.trans ⟨id, ?_, fun _ member => member, ?_⟩, same, reported⟩
            · refine transparent_modify served.transparent i _ rfl (fun _ _ _ _ _ => rfl) ?_
              intro e _ _
              refine ⟨by rw [← sectors], ?_⟩
              intro j f other old valid
              exact hitSpec j f (by rw [← others j other]; exact old) valid
            · exact cached_modify i _ rfl fun _ _ _ => .inl rfl
          · exact ⟨none, _,
              (bind_of_some lookup).trans ((bind_of_some evict).trans (bind_of_some read)),
              served, same, reported⟩

theorem cache_read_serves {s : Fat32Filesystem} (granting : Granting s)
    (transparent : Transparent s) (lba : Nat) :
    ∃ s', cacheRead lba s = some (some (s.ata.sectors lba), s') ∧ Serves s s' lba ∧
      core s' = core s := by
  obtain ⟨data, s', run, serves, same, rfl | ⟨_, refused⟩⟩ := cache_read_cases transparent lba
  · exact ⟨s', run, serves, same⟩
  · exact absurd granting refused

theorem cache_write_serves {s : Fat32Filesystem} (granting : Granting s)
    (transparent : Transparent s) (lba : Nat) (data : Sector) :
    ∃ s', cacheWrite lba data s = some (true, s') ∧ Serves s s' lba ∧
      core s' = core (withSectors s (putAt s.ata.sectors lba data)) := by
  -- the entry is filled first and the drive written second
  have finish : ∀ t i, Serves s t lba → core t = core s →
      (∀ (j : Nat) (f : CacheEntry), j ≠ i → t.cache[j]? = some f → f.valid = true →
        f.lba ≠ lba) →
      ∃ s', (do fillEntry i lba data true; ataWrite lba data : Fs Bool) t = some (true, s') ∧
        Serves s s' lba ∧ core s' = core (withSectors s (putAt s.ata.sectors lba data)) := by
    intro t i serves same alone
    let t₁ : Fat32Filesystem :=
      { t with
        cacheAge := u32 (t.cacheAge + 1)
        cache := t.cache.modify i fun _ => ⟨lba, some data, u32 (t.cacheAge + 1), true, true⟩ }
    have granting₁ : Granting t₁ := serves.granting granting
    obtain ⟨rest, write, rest_ok⟩ := ata_write_granting granting₁ lba data
    have sectors : t₁.ata.sectors = s.ata.sectors := core_sectors same
    rw [sectors] at write
    refine ⟨_, write, serves.trans ⟨fun _ => rest_ok, ?_, fun _ member => member, ?_⟩,
      core_with_sectors same _⟩
    · refine transparent_modify serves.transparent i _ rfl ?_ ?_
      · intro j f other old valid
        have apart := alone j f other old valid
        simp [putAt, apart, core_sectors same]
      · intro e _ _
        exact ⟨by simp [putAt], alone⟩
    · exact cached_modify i _ rfl fun _ _ _ => .inl rfl
  unfold cacheWrite
  obtain ⟨hit, s₁, lookup, serves₁, same₁, hitSpec⟩ := cache_lookup_serves transparent lba
  cases hit with
  | some i =>
      obtain ⟨e, found, valid, rfl⟩ := hitSpec
      obtain ⟨s₂, run, serves₂, same₂⟩ := finish s₁ i serves₁ same₁ (by
        intro j f other old validf same
        exact other (serves₁.transparent.unique j i f e old found validf valid same))
      exact ⟨s₂, (bind_of_some lookup).trans run, serves₂, same₂⟩
  | none =>
      obtain ⟨slot, s₂, evict, serves₂, same₂, untouched, slotSpec⟩ :=
        cache_evict_serves serves₁.transparent lba
      have same : core s₂ = core s := same₂.trans same₁
      have both := serves₁.trans serves₂
      cases slot with
      | none =>
          -- no entry holds the sector that is written past the cache
          obtain ⟨rest, write, rest_ok⟩ := ata_write_granting (both.granting granting) lba data
          rw [core_sectors same] at write
          refine ⟨_, (bind_of_some lookup).trans ((bind_of_some evict).trans write),
            both.trans ⟨fun _ => rest_ok, ⟨both.transparent.size, ?_, both.transparent.unique⟩,
              fun _ member => member, fun _ cached => .inr cached⟩, core_with_sectors same _⟩
          intro j f found valid
          have apart := hitSpec j f (by rw [← untouched rfl]; exact found) valid
          have held := both.transparent.holds j f found valid
          rw [core_sectors same] at held
          simp [putAt, apart, held]
      | some i =>
          obtain ⟨_, _, others⟩ := slotSpec i rfl
          obtain ⟨s₃, run, serves₃, same₃⟩ := finish s₂ i both same (by
            intro j f other old valid
            exact hitSpec j f (by rw [← others j other]; exact old) valid)
          exact ⟨s₃, (bind_of_some lookup).trans ((bind_of_some evict).trans run), serves₃, same₃⟩

end CacheOperations

end CassiOS.Fat32.Cache
