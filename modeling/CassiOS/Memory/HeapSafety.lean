import CassiOS.Memory.HeapBlocks
import CassiOS.Support.TransitionSystem

/-!
# The heap keeps its blocks and its clients' data

A client that allocates, frees live pointers, supplies more memory and writes into its
live payloads. `Tidy` is what the block list and the live payloads satisfy in every state,
and `Keeps` what an operation leaves of the data of the others.
-/

namespace CassiOS.Memory.HeapSafety

open CassiOS.Support.Words
open CassiOS.Support.Tiling
open CassiOS.Support.TransitionSystem
open CassiOS.Memory.Heap
open CassiOS.Memory.HeapBlocks

set_option autoImplicit false

/-- `live` lists the live pointers with the number of bytes asked for. -/
structure Machine where
  allocator : HeapAllocator
  memory : Cells
  live : List (Nat × Nat)

inductive Action where
  | allocate (n : Nat)
  | free (p : Nat)
  | extend (k : Nat)
  | store (a word : Nat)

section Steps

/-- More rounds than a list of distinct headers in the region can take; a longer walk
goes round in a circle. -/
def rounds (s : Machine) : Nat := s.allocator.regionEnd - s.allocator.regionStart + 2

/-- What the client may ask for: `u32` arguments, a live pointer to free, a multiple of 4
more bytes, a word of a live payload to write. -/
def Possible (s : Machine) : Action → Prop
  | .allocate n => n < 4294967296
  | .free p => p ∈ s.live.map Prod.fst
  | .extend k => k < 4294967296 ∧ k % 4 = 0
  | .store a _ => a % 4 = 0 ∧ ∃ e ∈ s.live, e.1 ≤ a ∧ a < e.1 + e.2

instance (s : Machine) (action : Action) : Decidable (Possible s action) :=
  match action with
  | .allocate n => inferInstanceAs (Decidable (n < 4294967296))
  | .free p => inferInstanceAs (Decidable (p ∈ s.live.map Prod.fst))
  | .extend k => inferInstanceAs (Decidable (k < 4294967296 ∧ k % 4 = 0))
  | .store a _ =>
      inferInstanceAs (Decidable (a % 4 = 0 ∧ ∃ e ∈ s.live, e.1 ≤ a ∧ a < e.1 + e.2))

def perform (s : Machine) : Action → Option Machine
  | .allocate n =>
      (allocate (rounds s) n s.allocator s.memory).map fun result =>
        { s with
          memory := result.2
          live := if result.1 = 0 then s.live else (result.1, n) :: s.live }
  | .free p =>
      (free (rounds s) p s.allocator s.memory).map fun m =>
        { s with memory := m, live := s.live.filter fun e => e.1 != p }
  | .extend k =>
      (extend (rounds s) k s.allocator s.memory).map fun result =>
        { s with allocator := result.1, memory := result.2 }
  | .store a word => some { s with memory := put s.memory a word }

/-- An operation that never returns has no next state either. -/
def step (s : Machine) (action : Action) : Option Machine :=
  if Possible s action then perform s action else none

end Steps

section Properties

structure Region where
  base : Nat
  size : Nat
  nonNull : 0 < base
  baseAligned : base % 4 = 0
  sizeAligned : size % 4 = 0
  large : 16 < size
  addressable : base + size ≤ 4294967296

def start (region : Region) (m : Cells) : Machine :=
  let built := construct region.base region.size m
  ⟨built.1, built.2, []⟩

/-- The block list covers the region, free neighbours are joined, and the payloads of the
live pointers lie apart from each other and from all headers inside the region. -/
structure Tidy (s : Machine) (blocks : List Block) : Prop where
  linked : Linked s.memory s.allocator.head blocks
  tiles : Tiles headerSize s.allocator.regionStart blocks s.allocator.regionEnd
  separated : Separated blocks
  aligned : ∀ e ∈ s.live, e.1 % 4 = 0
  inside : ∀ e ∈ s.live, s.allocator.regionStart ≤ e.1 ∧ e.1 + e.2 ≤ s.allocator.regionEnd
  apart : s.live.Pairwise fun e f => e.1 + e.2 ≤ f.1 ∨ f.1 + f.2 ≤ e.1
  offHeaders : ∀ e ∈ s.live, ∀ a, e.1 ≤ a → a < e.1 + e.2 → ¬ InHeader blocks a
  whole : s.live = [] → ∃ b, blocks = [b] ∧ b.free = true ∧
    s.allocator.regionStart + headerSize + b.size = s.allocator.regionEnd

def Keeps (s s' : Machine) : Prop :=
  ∀ e ∈ s.live, e ∈ s'.live → ∀ a, e.1 ≤ a → a < e.1 + e.2 → s'.memory a = s.memory a

/-- Requests that survive the rounding to words, and regions that end below 4 GiB. -/
def Sensible (s : Machine) : Action → Prop
  | .allocate n => n ≤ 0xFFFFFFFC
  | .extend k => headerSize < k → s.allocator.regionEnd + k < 4294967296
  | .free _ => True
  | .store _ _ => True

instance (s : Machine) (action : Action) : Decidable (Sensible s action) := by
  cases action with
  | allocate n => exact inferInstanceAs (Decidable (n ≤ 0xFFFFFFFC))
  | extend k =>
      exact inferInstanceAs (Decidable (headerSize < k → s.allocator.regionEnd + k < 4294967296))
  | free p => exact inferInstanceAs (Decidable True)
  | store a word => exact inferInstanceAs (Decidable True)

end Properties

section Invariant

/-- Each live pointer is the payload of a block in use, and each block in use is the
block of one live pointer. -/
structure Intact (s : Machine) (blocks : List Block) : Prop where
  positive : 0 < s.allocator.regionStart
  below : s.allocator.regionEnd < 4294967296
  linked : Linked s.memory s.allocator.head blocks
  tiles : Tiles headerSize s.allocator.regionStart blocks s.allocator.regionEnd
  nonempty : blocks ≠ []
  separated : Separated blocks
  words : ∀ b ∈ blocks, b.address % 4 = 0 ∧ b.size % 4 = 0
  owned : ∀ e ∈ s.live, ∃ b ∈ blocks, b.free = false ∧ e.1 = b.address + headerSize ∧ e.2 ≤ b.size
  asked : ∀ e ∈ s.live, 0 < e.2
  tracked : ∀ b ∈ blocks, b.free = false → ∃ e ∈ s.live, e.1 = b.address + headerSize
  distinct : (s.live.map Prod.fst).Nodup

variable {s : Machine} {blocks : List Block}

theorem Intact.tidy (intact : Intact s blocks) : Tidy s blocks where
  linked := intact.linked
  tiles := intact.tiles
  separated := intact.separated
  aligned := by
    intro e member
    obtain ⟨b, memberB, _, pointer, _⟩ := intact.owned e member
    have words := intact.words b memberB
    unfold headerSize at pointer
    omega
  inside := by
    intro e member
    obtain ⟨b, memberB, _, pointer, fits⟩ := intact.owned e member
    have bounds := tiles_member intact.tiles memberB
    omega
  apart := by
    have distinct := List.pairwise_map.1 intact.distinct
    apply distinct.imp_of_mem
    intro e f memberE memberF different
    obtain ⟨b, memberB, _, pointerE, fitsE⟩ := intact.owned e memberE
    obtain ⟨c, memberC, _, pointerF, fitsF⟩ := intact.owned f memberF
    have blocksDiffer : b ≠ c := by
      rintro rfl
      exact different (pointerE.trans pointerF.symm)
    have apart := tiles_apart intact.tiles memberB memberC blocksDiffer
    omega
  offHeaders := by
    intro e member a low high
    obtain ⟨b, memberB, _, pointer, fits⟩ := intact.owned e member
    exact payload_not_header intact.tiles memberB (by omega) (by omega)
  whole := by
    intro none
    have allFree : ∀ b ∈ blocks, b.free = true := by
      intro b member
      by_contra used
      obtain ⟨e, memberE, _⟩ := intact.tracked b member (by simpa using used)
      rw [none] at memberE
      cases memberE
    have tiles := intact.tiles
    cases blocks with
    | nil => exact absurd rfl intact.nonempty
    | cons b rest =>
        obtain rfl := separated_all_free intact.separated allFree
        exact ⟨b, rfl, allFree b List.mem_cons_self, tiles.2⟩

theorem Intact.enough (intact : Intact s blocks) : blocks.length < rounds s := by
  have length := tiles_length intact.tiles (by decide)
  unfold rounds
  omega

theorem Intact.payload (intact : Intact s blocks) {blocks' : List Block} {lo hi : Nat}
    (tiles : Tiles headerSize lo blocks' hi)
    (kept : ∀ b ∈ blocks, b.free = false → ∀ e ∈ s.live, e.1 = b.address + headerSize → b ∈ blocks')
    {e : Nat × Nat} (member : e ∈ s.live) {a : Nat} (low : e.1 ≤ a) (high : a < e.1 + e.2) :
    ¬ InHeader blocks' a := by
  obtain ⟨b, memberB, used, pointer, fits⟩ := intact.owned e member
  exact payload_not_header tiles (kept b memberB used e member pointer) (by omega) (by omega)

end Invariant

section Operations

variable {s : Machine} {blocks : List Block}

theorem align_up_spec {n : Nat} (sensible : n ≤ 0xFFFFFFFC) :
    n ≤ alignUp n ∧ alignUp n % 4 = 0 := by
  unfold alignUp
  rw [u32_of_lt (by omega)]
  omega

theorem words_taken {need : Nat} {b : Block} (aligned : need % 4 = 0)
    (words : b.address % 4 = 0 ∧ b.size % 4 = 0) :
    ∀ u ∈ taken headerSize minBlockSize need b, u.address % 4 = 0 ∧ u.size % 4 = 0 := by
  intro u member
  unfold taken minBlockSize headerSize at member
  split at member
  · rcases List.mem_cons.1 member with rfl | member
    · exact ⟨words.1, aligned⟩
    · rw [List.mem_singleton.1 member]
      dsimp only
      omega
  · rw [List.mem_singleton.1 member]
    exact words

theorem allocate_intact (intact : Intact s blocks) {n : Nat} (sensible : n ≤ 0xFFFFFFFC) :
    ∃ s' blocks', perform s (.allocate n) = some s' ∧ Intact s' blocks' ∧ Keeps s s' := by
  simp only [perform, allocate]
  by_cases zero : n = 0
  · rw [if_pos zero]
    exact ⟨_, blocks, rfl, intact, fun _ _ _ _ _ _ => rfl⟩
  rw [if_neg zero]
  obtain ⟨fits, aligned⟩ := align_up_spec sensible
  have search := allocate_from_linked (alignUp n) intact.linked intact.tiles
    intact.positive intact.below.le intact.enough
  cases found : fit headerSize minBlockSize (alignUp n) blocks with
  | none =>
      rw [found] at search
      rw [search]
      exact ⟨_, blocks, rfl, intact, fun _ _ _ _ _ _ => rfl⟩
  | some result =>
      obtain ⟨address, blocks'⟩ := result
      rw [found] at search
      obtain ⟨m', run, linked, frame⟩ := search
      have tiles := tiles_fit (by decide) intact.tiles found
      obtain ⟨pre, b, post, split, free, large, rfl, after⟩ := fit_cases found
      obtain ⟨size, room, new, only⟩ := taken_used headerSize minBlockSize b large
      have memberB : b ∈ blocks := by
        rw [split]
        exact List.mem_append_right _ List.mem_cons_self
      have nonNull : b.address + headerSize ≠ 0 := by
        unfold headerSize
        omega
      have pointer : u32 (b.address + headerSize) = b.address + headerSize := by
        have bounds := tiles_member intact.tiles memberB
        have below := intact.below
        exact u32_of_lt (by omega)
      rw [pointer] at run
      -- the blocks in use before are all still there
      have kept : ∀ u ∈ blocks, u.free = false → u ∈ blocks' := by
        intro u member used
        rw [split] at member
        rw [after]
        apply mem_replace _ member
        rintro rfl
        rw [free] at used
        cases used
      have origin : ∀ u ∈ blocks', u ∈ blocks ∨ u ∈ taken headerSize minBlockSize (alignUp n) b := by
        intro u member
        rw [after] at member
        rw [split]
        exact mem_of_replaced _ _ member
      have newMember : ⟨b.address, size, false⟩ ∈ blocks' := by
        rw [after]
        exact List.mem_append_right _ (List.mem_append_left _ new)
      have unused : ∀ e ∈ s.live, e.1 ≠ b.address + headerSize := by
        intro e member same
        obtain ⟨u, memberU, used, pointer, _⟩ := intact.owned e member
        have equal : u = b := tiles_unique intact.tiles (by decide) memberU memberB (by omega)
        rw [equal, free] at used
        cases used
      rw [run]
      refine ⟨_, blocks', rfl, ?_, ?_⟩
      · simp only [if_neg nonNull]
        constructor
        · exact intact.positive
        · exact intact.below
        · exact linked
        · exact tiles
        · intro none
          rw [none] at newMember
          cases newMember
        · rw [after]
          apply separated_taken free
          rw [← split]
          exact intact.separated
        · intro u member
          rcases origin u member with old | mid
          · exact intact.words u old
          · exact words_taken aligned (intact.words b memberB) u mid
        · intro e member
          rcases List.mem_cons.1 member with rfl | old
          · exact ⟨_, newMember, rfl, rfl, le_trans fits room⟩
          · obtain ⟨u, memberU, used, rest⟩ := intact.owned e old
            exact ⟨u, kept u memberU used, used, rest⟩
        · intro e member
          rcases List.mem_cons.1 member with rfl | old
          · exact Nat.pos_of_ne_zero zero
          · exact intact.asked e old
        · intro u member used
          rcases origin u member with old | mid
          · obtain ⟨e, memberE, pointer⟩ := intact.tracked u old used
            exact ⟨e, List.mem_cons_of_mem _ memberE, pointer⟩
          · rw [only u mid used]
            exact ⟨_, List.mem_cons_self, rfl⟩
        · refine List.nodup_cons.2 ⟨?_, intact.distinct⟩
          intro member
          obtain ⟨e, memberE, same⟩ := List.mem_map.1 member
          exact unused e memberE same
      · intro e member _ a low high
        apply frame
        exact intact.payload tiles (fun u memberU used _ _ _ => kept u memberU used) member low high

theorem free_intact (intact : Intact s blocks) {p : Nat} (live : p ∈ s.live.map Prod.fst) :
    ∃ s' blocks', perform s (.free p) = some s' ∧ Intact s' blocks' ∧ Keeps s s' := by
  obtain ⟨e, memberE, rfl⟩ := List.mem_map.1 live
  obtain ⟨b, memberB, used, pointer, fits⟩ := intact.owned e memberE
  have asked := intact.asked e memberE
  have bounds := tiles_member intact.tiles memberB
  have below := intact.below
  obtain ⟨pre, post, split⟩ := List.append_of_mem memberB
  have linked := intact.linked
  have tiles := intact.tiles
  rw [split] at linked tiles
  let freed : Block := ⟨b.address, b.size, true⟩
  have tilesFreed : Tiles headerSize s.allocator.regionStart (pre ++ freed :: post)
      s.allocator.regionEnd := tiles_replace [freed] tiles ⟨rfl, rfl⟩
  have others : ∀ u ∈ blocks, u.free = false → u ≠ b → u ∈ pre ++ freed :: post := by
    intro u member _ other
    rw [split] at member
    exact mem_replace [freed] member other
  have backwards : ∀ u ∈ pre ++ freed :: post, u.free = false → u ∈ blocks ∧ u ≠ b := by
    intro u member usedU
    have here : freed ∈ pre ++ freed :: post := List.mem_append_right _ List.mem_cons_self
    have apart : u ≠ freed := by
      rintro rfl
      cases usedU
    constructor
    · rw [split]
      rcases mem_of_replaced [freed] b member with old | new
      · exact old
      · exact absurd (List.mem_singleton.1 new) apart
    · rintro rfl
      exact apart (tiles_unique tilesFreed (by decide) member here rfl)
  obtain ⟨m', run, after, kept, _⟩ := free_linked linked tiles intact.positive below.le used
    (show ¬ b.address + headerSize < u32 (s.allocator.regionStart + headerSize) by
      rw [u32_of_lt (by omega : s.allocator.regionStart + headerSize < 4294967296)]
      omega)
    (by omega)
    (show (pre ++ b :: post).length < rounds s by
      have enough := intact.enough
      rw [split] at enough
      exact enough)
  have called : free (rounds s) e.1 s.allocator s.memory = some m' := by
    rw [pointer]
    exact run
  simp only [perform, called, Option.map_some]
  refine ⟨_, coalesce headerSize (pre ++ freed :: post), rfl, ?_, ?_⟩
  · constructor
    · exact intact.positive
    · exact below
    · exact after
    · exact tiles_coalesce tilesFreed
    · intro none
      have covered := tiles_coalesce tilesFreed
      rw [none] at covered
      have equal : s.allocator.regionStart = s.allocator.regionEnd := covered
      omega
    · exact separated_coalesce _
    · apply all_coalesce
      · intro c d wordsC wordsD
        unfold headerSize
        dsimp only
        omega
      · intro u member
        rcases List.mem_append.1 member with before | behind
        · apply intact.words u
          rw [split]
          exact List.mem_append_left _ before
        · rcases List.mem_cons.1 behind with rfl | behind
          · exact intact.words b memberB
          · apply intact.words u
            rw [split]
            exact List.mem_append_right _ (List.mem_cons_of_mem _ behind)
    · intro f memberF
      obtain ⟨memberF, differs⟩ := List.mem_filter.1 memberF
      obtain ⟨u, memberU, usedU, pointerU, rest⟩ := intact.owned f memberF
      have other : u ≠ b := by
        rintro rfl
        simp [pointerU, pointer] at differs
      exact ⟨u, (mem_coalesce usedU).2 (others u memberU usedU other), usedU, pointerU, rest⟩
    · intro f memberF
      exact intact.asked f (List.mem_filter.1 memberF).1
    · intro u memberU usedU
      obtain ⟨old, other⟩ := backwards u ((mem_coalesce usedU).1 memberU) usedU
      obtain ⟨f, memberF, pointerU⟩ := intact.tracked u old usedU
      refine ⟨f, List.mem_filter.2 ⟨memberF, ?_⟩, pointerU⟩
      have differs : f.1 ≠ e.1 := by
        intro same
        exact other (tiles_unique intact.tiles (by decide) old memberB (by omega))
      simpa using differs
    · exact List.Nodup.sublist (List.Sublist.map _ List.filter_sublist) intact.distinct
  · intro f memberF _ a low high
    obtain ⟨u, memberU, usedU, pointerU, fitsU⟩ := intact.owned f memberF
    have outside : ¬ InHeader blocks a :=
      payload_not_header intact.tiles memberU (by omega) (by omega)
    apply kept
    · rintro rfl
      exact outside ⟨b, memberB, Nat.le_add_right _ _, Nat.add_lt_add_left (by decide) _⟩
    · intro word
      rw [← split] at word
      exact outside (in_header_of_join_word word)

theorem extend_intact (intact : Intact s blocks) {k : Nat} (words : k % 4 = 0)
    (sensible : headerSize < k → s.allocator.regionEnd + k < 4294967296) :
    ∃ s' blocks', perform s (.extend k) = some s' ∧ Intact s' blocks' ∧ Keeps s s' := by
  by_cases small : k ≤ headerSize
  · refine ⟨s, blocks, ?_, intact, fun _ _ _ _ _ _ => rfl⟩
    simp only [perform, extend, if_pos (Or.inl small), Option.map_some]
  · have large : headerSize < k := Nat.lt_of_not_le small
    have top := sensible large
    cases list : blocks with
    | nil => exact absurd list intact.nonempty
    | cons b rest =>
        subst list
        have linked := intact.linked
        have tiles := intact.tiles
        have atHead := linked.1
        have start := tiles.1
        have positive := intact.positive
        have enough : rest.length < rounds s := by
          have all := intact.enough
          rw [List.length_cons] at all
          omega
        have nonNull : ¬ (k ≤ headerSize ∨ s.allocator.head = 0) := by omega
        have newEnd : u32 (s.allocator.regionEnd + k) = s.allocator.regionEnd + k := u32_of_lt top
        rw [atHead] at linked
        have last := last_block_linked linked tiles positive enough
        obtain ⟨after, frame⟩ := append_space_linked linked tiles top.le large
        have grown := tiles_grow large.le tiles
        rw [← atHead] at last after
        refine ⟨⟨{ s.allocator with regionEnd := s.allocator.regionEnd + k },
          appendSpace k ((b :: rest).getLast (List.cons_ne_nil b rest)).address s.memory, s.live⟩,
          grow headerSize k (b :: rest), ?_, ?_, ?_⟩
        · simp only [perform, extend, if_neg nonNull, last, newEnd, bind, Option.bind_some,
            Option.map_some]
        · constructor
          · exact positive
          · exact top
          · exact after
          · exact grown
          · obtain ⟨size, rest', same⟩ := grow_head headerSize k b rest
            rw [same]
            exact List.cons_ne_nil _ _
          · exact separated_grow intact.separated
          · apply all_grow
            · intro c wordsC
              dsimp only
              omega
            · intro c wordsC
              unfold headerSize at *
              dsimp only
              omega
            · exact intact.words
          · intro e member
            obtain ⟨u, memberU, used, rest'⟩ := intact.owned e member
            exact ⟨u, (mem_grow used).2 memberU, used, rest'⟩
          · exact intact.asked
          · intro u member used
            exact intact.tracked u ((mem_grow used).1 member) used
          · exact intact.distinct
        · intro e member _ a low high
          apply frame
          exact intact.payload grown (fun u memberU used _ _ _ => (mem_grow used).2 memberU)
            member low high

theorem store_intact (intact : Intact s blocks) {a : Nat} (word : Nat)
    (payload : ∃ e ∈ s.live, e.1 ≤ a ∧ a < e.1 + e.2) :
    ∃ s', perform s (.store a word) = some s' ∧ Intact s' blocks := by
  obtain ⟨e, member, low, high⟩ := payload
  refine ⟨_, rfl, ?_⟩
  have outside : ¬ InHeader blocks a :=
    intact.payload intact.tiles (fun u memberU _ _ _ _ => memberU) member low high
  constructor
  · exact intact.positive
  · exact intact.below
  · apply linked_frame intact.linked
    intro c inside
    apply put_other
    rintro rfl
    exact outside inside
  · exact intact.tiles
  · exact intact.nonempty
  · exact intact.separated
  · exact intact.words
  · exact intact.owned
  · exact intact.asked
  · exact intact.tracked
  · exact intact.distinct

theorem start_intact (region : Region) (m : Cells)
    (below : region.base + region.size < 4294967296) :
    Intact (start region m) [⟨region.base, region.size - headerSize, true⟩] := by
  have nonNull := region.nonNull
  have large := region.large
  have built := construct_eq (m := m) nonNull (show headerSize < region.size by
    unfold headerSize
    omega)
  rw [u32_of_lt below] at built
  unfold start
  rw [built]
  constructor
  · exact nonNull
  · exact below
  · exact new_block_linked _ _ m
  · refine ⟨rfl, ?_⟩
    change region.base + headerSize + (region.size - headerSize) = region.base + region.size
    unfold headerSize
    omega
  · exact List.cons_ne_nil _ _
  · exact List.isChain_singleton _
  · intro b member
    have baseAligned := region.baseAligned
    have sizeAligned := region.sizeAligned
    rw [List.mem_singleton.1 member]
    unfold headerSize
    dsimp only
    omega
  · exact nofun
  · exact nofun
  · intro b member used
    rw [List.mem_singleton.1 member] at used
    cases used
  · exact List.nodup_nil

end Operations

section Runs

/-- Every possible and sensible step returns and keeps the heap intact, and every one but
a store keeps the live payloads. -/
theorem step_intact {s : Machine} {blocks : List Block} (intact : Intact s blocks)
    {action : Action} (possible : Possible s action) (sensible : Sensible s action) :
    ∃ s' blocks', step s action = some s' ∧ Intact s' blocks' ∧
      ((∃ a word, action = .store a word) ∨ Keeps s s') := by
  unfold step
  rw [if_pos possible]
  cases action with
  | allocate n =>
      obtain ⟨s', blocks', run, after, keeps⟩ := allocate_intact intact sensible
      exact ⟨s', blocks', run, after, .inr keeps⟩
  | free p =>
      obtain ⟨s', blocks', run, after, keeps⟩ := free_intact intact possible
      exact ⟨s', blocks', run, after, .inr keeps⟩
  | extend k =>
      obtain ⟨s', blocks', run, after, keeps⟩ := extend_intact intact possible.2 sensible
      exact ⟨s', blocks', run, after, .inr keeps⟩
  | store a word =>
      obtain ⟨s', run, after⟩ := store_intact intact word possible.2
      exact ⟨s', blocks, run, after, .inl ⟨a, word, rfl⟩⟩

theorem run_intact (region : Region) (m : Cells)
    (below : region.base + region.size < 4294967296) {s : Machine}
    (run : Run step Sensible (start region m) s) : ∃ blocks, Intact s blocks := by
  apply run.invariant (fun s => ∃ blocks, Intact s blocks) ⟨_, start_intact region m below⟩
  rintro t action t' ⟨blocks, intact⟩ sensible next
  have possible : Possible t action := by
    by_contra refused
    rw [step, if_neg refused] at next
    cases next
  obtain ⟨t'', blocks', run', after, _⟩ := step_intact intact possible sensible
  cases run'.symm.trans next
  exact ⟨blocks', after⟩

/-- In every state the heap is tidy, and whatever the client may ask next returns and
leaves the payloads of the other live pointers as they are. -/
theorem heap_stays_tidy (region : Region) (m : Cells)
    (below : region.base + region.size < 4294967296) {s : Machine}
    (run : Run step Sensible (start region m) s) :
    (∃ blocks, Tidy s blocks) ∧
      ∀ action, Possible s action → Sensible s action →
        ∃ s', step s action = some s' ∧ ((∃ a word, action = .store a word) ∨ Keeps s s') := by
  obtain ⟨blocks, intact⟩ := run_intact region m below run
  refine ⟨⟨blocks, intact.tidy⟩, ?_⟩
  intro action possible sensible
  obtain ⟨s', _, next, _, keeps⟩ := step_intact intact possible sensible
  exact ⟨s', next, keeps⟩

/-- 64 bytes at `0x1000`. -/
def smallRegion : Region where
  base := 0x1000
  size := 64
  nonNull := by decide
  baseAligned := by decide
  sizeAligned := by decide
  large := by decide
  addressable := by decide

theorem heap_stays_tidy_in_small_region :
    ∃ s, admittedPath step Sensible (start smallRegion fun _ => 0)
        [.allocate 8, .allocate 5, .store 0x1020 77, .free 0x100C, .extend 32] = some s ∧
      (∃ blocks, Tidy s blocks) ∧
        ∀ action, Possible s action → Sensible s action →
          ∃ s', step s action = some s' ∧ ((∃ a word, action = .store a word) ∨ Keeps s s') := by
  have reached : ∃ s, admittedPath step Sensible (start smallRegion fun _ => 0)
      [.allocate 8, .allocate 5, .store 0x1020 77, .free 0x100C, .extend 32] = some s := ⟨_, rfl⟩
  obtain ⟨s, reached⟩ := reached
  exact ⟨s, reached,
    heap_stays_tidy smallRegion (fun _ => 0) (by decide) (run_of_admitted_path reached)⟩

/-- A request for almost 4 GiB is rounded to none and served with an empty block. -/
theorem huge_request_served :
    ∃ s, step (start smallRegion fun _ => 0) (.allocate 0xFFFFFFFD) = some s ∧
      ¬ ∃ blocks, Tidy s blocks := by
  refine ⟨_, rfl, ?_⟩
  rintro ⟨blocks, tidy⟩
  have inside := (tidy.inside (0x100C, 0xFFFFFFFD) List.mem_cons_self).2
  exact absurd inside (by decide)

end Runs

end CassiOS.Memory.HeapSafety
