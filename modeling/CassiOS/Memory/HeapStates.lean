import CassiOS.Memory.HeapSafety

/-!
# Every state of a heap

The calls of a client without the restraint of `HeapSafety`: requests of any size, and a
region that may end at the top of the address space, where `regionEnd` wraps to 0. The
block list still covers the region; `Formed` is what holds in each of these states.
-/

namespace CassiOS.Memory.HeapStates

open CassiOS.Support.Words
open CassiOS.Support.Tiling
open CassiOS.Support.TransitionSystem
open CassiOS.Memory.Heap
open CassiOS.Memory.HeapBlocks
open CassiOS.Memory.HeapSafety

set_option autoImplicit false

/-- No list of headers in the address space is this long. -/
def longestWalk : Nat := 4294967296

section Calls

def call (s : Machine) : Action → Option Machine
  | .allocate n =>
      (allocate longestWalk n s.allocator s.memory).map fun result =>
        { s with
          memory := result.2
          live := if result.1 = 0 then s.live else (result.1, n) :: s.live }
  | .free p =>
      (free longestWalk p s.allocator s.memory).map fun m =>
        { s with memory := m, live := s.live.filter fun e => e.1 != p }
  | .extend k =>
      (extend longestWalk k s.allocator s.memory).map fun result =>
        { s with allocator := result.1, memory := result.2 }
  | .store a word => some { s with memory := put s.memory a word }

/-- `u32` requests, live pointers, words right behind the region and below 4 GiB, and
stores into the blocks behind live pointers. -/
def Permitted (s : Machine) : Action → Prop
  | .allocate n => n < 4294967296
  | .free p => p ∈ s.live.map Prod.fst
  | .extend k =>
      k % 4 = 0 ∧
        (headerSize < k → s.allocator.regionEnd ≠ 0 ∧ s.allocator.regionEnd + k ≤ 4294967296)
  | .store a _ =>
      a % 4 = 0 ∧ ∃ e ∈ s.live, e.1 ≤ a ∧ a < e.1 + blockSize s.memory (e.1 - headerSize)

instance (s : Machine) (action : Action) : Decidable (Permitted s action) :=
  match action with
  | .allocate n => inferInstanceAs (Decidable (n < 4294967296))
  | .free p => inferInstanceAs (Decidable (p ∈ s.live.map Prod.fst))
  | .extend _ => inferInstanceAs (Decidable (_ ∧ (_ → _ ∧ _)))
  | .store a _ =>
      inferInstanceAs (Decidable (a % 4 = 0 ∧
        ∃ e ∈ s.live, e.1 ≤ a ∧ a < e.1 + blockSize s.memory (e.1 - headerSize)))

/-- The states of a heap over `region`, whose memory first held `m`. -/
def Reached (region : Region) (m : Cells) (s : Machine) : Prop :=
  Run call Permitted (start region m) s

end Calls

/-- The blocks cover the region up to `top`, and each live pointer is the payload of a
block in use, with room for what was asked if the rounding did not wrap. -/
structure Formed (s : Machine) (top : Nat) (blocks : List Block) : Prop where
  positive : 0 < s.allocator.regionStart
  roomy : s.allocator.regionStart + minBlockSize < top
  below : top ≤ 4294967296
  finish : s.allocator.regionEnd = u32 top
  linked : Linked s.memory s.allocator.head blocks
  tiles : Tiles headerSize s.allocator.regionStart blocks top
  words : ∀ b ∈ blocks, b.address % 4 = 0 ∧ b.size % 4 = 0
  owned : ∀ e ∈ s.live, ∃ b ∈ blocks, b.free = false ∧ e.1 = b.address + headerSize ∧
    (e.2 ≤ 0xFFFFFFFC → e.2 ≤ b.size)

section Formed

variable {s : Machine} {top : Nat} {blocks : List Block}

theorem Formed.enough (formed : Formed s top blocks) : blocks.length < longestWalk := by
  have length := tiles_length formed.tiles (by decide)
  have positive := formed.positive
  have below := formed.below
  unfold longestWalk
  omega

theorem Formed.frame (formed : Formed s top blocks) {m' : Cells}
    (same : ∀ a, InHeader blocks a → m' a = s.memory a) :
    Formed { s with memory := m' } top blocks where
  positive := formed.positive
  roomy := formed.roomy
  below := formed.below
  finish := formed.finish
  linked := linked_frame formed.linked same
  tiles := formed.tiles
  words := formed.words
  owned := formed.owned

theorem Formed.forget (formed : Formed s top blocks) {live : List (Nat × Nat)}
    (fewer : ∀ e ∈ live, e ∈ s.live) : Formed { s with live := live } top blocks where
  positive := formed.positive
  roomy := formed.roomy
  below := formed.below
  finish := formed.finish
  linked := formed.linked
  tiles := formed.tiles
  words := formed.words
  owned := fun e member => formed.owned e (fewer e member)

end Formed

section Steps

variable {s : Machine} {top : Nat} {blocks : List Block}

theorem start_formed (region : Region) (m : Cells) :
    Formed (start region m) (region.base + region.size)
      [⟨region.base, region.size - headerSize, true⟩] := by
  have large := region.large
  have room : headerSize < region.size := by
    unfold headerSize
    omega
  unfold start
  rw [construct_eq region.nonNull room]
  constructor
  · exact region.nonNull
  · exact Nat.add_lt_add_left large _
  · exact region.addressable
  · rfl
  · exact new_block_linked _ _ m
  · refine ⟨rfl, ?_⟩
    change region.base + headerSize + (region.size - headerSize) = region.base + region.size
    omega
  · intro b member
    have baseAligned := region.baseAligned
    have sizeAligned := region.sizeAligned
    rw [List.mem_singleton.1 member]
    unfold headerSize
    dsimp only
    omega
  · exact nofun

/-- A block handed out is a listed one in use, whatever the rounding made of the request. -/
theorem taken_formed {n address : Nat} {blocks' : List Block} {m' : Cells}
    (formed : Formed s top blocks)
    (found : fit headerSize minBlockSize (alignUp n) blocks = some (address, blocks'))
    (linked : Linked m' s.allocator.head blocks') :
    Formed ⟨s.allocator, m', (address + headerSize, n) :: s.live⟩ top blocks' := by
  obtain ⟨pre, b, post, split, free, large, rfl, after⟩ := fit_cases found
  obtain ⟨size, room, new, _⟩ := taken_used headerSize minBlockSize b large
  have memberB : b ∈ blocks := by
    rw [split]
    exact List.mem_append_right _ List.mem_cons_self
  have rounded : alignUp n % 4 = 0 := Nat.mul_mod_left _ _
  constructor
  · exact formed.positive
  · exact formed.roomy
  · exact formed.below
  · exact formed.finish
  · exact linked
  · exact tiles_fit (by decide) formed.tiles found
  · intro u member
    rw [after] at member
    rcases mem_of_replaced _ b member with old | mid
    · rw [← split] at old
      exact formed.words u old
    · exact words_taken rounded (formed.words b memberB) u mid
  · intro e member
    rcases List.mem_cons.1 member with rfl | older
    · refine ⟨⟨b.address, size, false⟩, ?_, rfl, rfl, ?_⟩
      · rw [after]
        exact List.mem_append_right _ (List.mem_append_left _ new)
      · intro sensible
        exact le_trans (align_up_spec sensible).1 room
    · obtain ⟨u, memberU, used, rest⟩ := formed.owned e older
      refine ⟨u, ?_, used, rest⟩
      rw [split] at memberU
      rw [after]
      apply mem_replace _ memberU
      rintro rfl
      rw [free] at used
      cases used

theorem allocate_formed (formed : Formed s top blocks) (n : Nat) :
    ∃ pointer m' blocks', allocate longestWalk n s.allocator s.memory = some (pointer, m') ∧
      Formed ⟨s.allocator, m', if pointer = 0 then s.live else (pointer, n) :: s.live⟩ top
        blocks' := by
  unfold allocate
  by_cases zero : n = 0
  · rw [if_pos zero]
    exact ⟨0, s.memory, blocks, rfl, formed⟩
  rw [if_neg zero]
  have search := allocate_from_linked (alignUp n) formed.linked formed.tiles formed.positive
    formed.below formed.enough
  cases found : fit headerSize minBlockSize (alignUp n) blocks with
  | none =>
      rw [found] at search
      exact ⟨0, s.memory, blocks, search, formed⟩
  | some result =>
      obtain ⟨address, blocks'⟩ := result
      rw [found] at search
      obtain ⟨m', run, linked, _⟩ := search
      have after := taken_formed formed found linked
      refine ⟨u32 (address + headerSize), m', blocks', run, ?_⟩
      -- a header in the last bytes below 4 GiB has its payload at the null pointer
      by_cases null : u32 (address + headerSize) = 0
      · rw [if_pos null]
        exact after.forget fun e member => List.mem_cons_of_mem _ member
      · have pointer : u32 (address + headerSize) = address + headerSize := by
          obtain ⟨b, member, _, place, _⟩ := after.owned _ List.mem_cons_self
          have bounds := tiles_member after.tiles member
          have below := after.below
          dsimp only at place
          unfold u32 at null ⊢
          omega
        rw [if_neg null, pointer]
        exact after

/-- The guards of `free` that come before the flag. -/
def OutOfRange (heap : HeapAllocator) (p : Nat) : Prop :=
  p < u32 (heap.regionStart + headerSize) ∨ heap.regionEnd ≤ p

theorem free_out_of_range {heap : HeapAllocator} {p : Nat} (outside : OutOfRange heap p)
    (fuel : Nat) (m : Cells) : free fuel p heap m = some m := by
  unfold free
  by_cases null : p = 0
  · rw [if_pos null]
  · rw [if_neg null]
    exact if_pos outside

/-- Freeing the block in use behind `p`: its neighbours are joined with it, and only its
flag and the sizes and links of listed blocks are written. -/
theorem free_in_range {pre post : List Block} {b : Block}
    (formed : Formed s top (pre ++ b :: post)) (used : b.free = false)
    (inRange : ¬ OutOfRange s.allocator (b.address + headerSize)) :
    ∃ m', free longestWalk (b.address + headerSize) s.allocator s.memory = some m' ∧
      Formed ⟨s.allocator, m', s.live.filter fun e => e.1 != b.address + headerSize⟩ top
        (coalesce headerSize (pre ++ ⟨b.address, b.size, true⟩ :: post)) ∧
      (∀ a, a ≠ b.address + 4 → ¬ JoinWord (pre ++ b :: post) a → m' a = s.memory a) ∧
      blockFree m' b.address = true := by
  obtain ⟨above, below⟩ := not_or.1 inRange
  have here : b ∈ pre ++ b :: post := List.mem_append_right _ List.mem_cons_self
  have tilesFreed : Tiles headerSize s.allocator.regionStart
      (pre ++ ⟨b.address, b.size, true⟩ :: post) top :=
    tiles_replace [⟨b.address, b.size, true⟩] formed.tiles ⟨rfl, rfl⟩
  obtain ⟨m', run, linked, frame, flag⟩ := free_linked formed.linked formed.tiles formed.positive
    formed.below used above (Nat.lt_of_not_le below) formed.enough
  refine ⟨m', run, ?_, frame, ?_⟩
  · constructor
    · exact formed.positive
    · exact formed.roomy
    · exact formed.below
    · exact formed.finish
    · exact linked
    · exact tiles_coalesce tilesFreed
    · apply all_coalesce
      · intro c d wordsC wordsD
        unfold headerSize
        dsimp only
        omega
      · intro u member
        rcases mem_of_replaced [⟨b.address, b.size, true⟩] b member with old | new
        · exact formed.words u old
        · rw [List.mem_singleton.1 new]
          exact formed.words b here
    · intro e member
      obtain ⟨member, differs⟩ := List.mem_filter.1 member
      obtain ⟨u, memberU, usedU, pointer, rest⟩ := formed.owned e member
      refine ⟨u, (mem_coalesce usedU).2 ?_, usedU, pointer, rest⟩
      apply mem_replace [⟨b.address, b.size, true⟩] memberU
      rintro rfl
      simp [pointer] at differs
  · apply block_free_of_cell (s.memory (b.address + 4)) true
    rw [flag]
    exact put_same _ _ _

theorem free_formed (formed : Formed s top blocks) {p : Nat} (live : p ∈ s.live.map Prod.fst) :
    ∃ m' blocks', free longestWalk p s.allocator s.memory = some m' ∧
      Formed ⟨s.allocator, m', s.live.filter fun e => e.1 != p⟩ top blocks' := by
  obtain ⟨e, memberE, rfl⟩ := List.mem_map.1 live
  obtain ⟨b, memberB, used, pointer, _⟩ := formed.owned e memberE
  obtain ⟨pre, post, rfl⟩ := List.append_of_mem memberB
  rw [pointer]
  by_cases outside : OutOfRange s.allocator (b.address + headerSize)
  · exact ⟨_, _, free_out_of_range outside _ _,
      formed.forget fun f member => (List.mem_filter.1 member).1⟩
  · obtain ⟨m', run, after, _⟩ := free_in_range formed used outside
    exact ⟨m', _, run, after⟩

theorem extend_formed (formed : Formed s top blocks) {k : Nat} (words : k % 4 = 0)
    (space : headerSize < k → s.allocator.regionEnd ≠ 0 ∧
      s.allocator.regionEnd + k ≤ 4294967296) :
    ∃ heap m' blocks', extend longestWalk k s.allocator s.memory = some (heap, m') ∧
      heap.regionStart = s.allocator.regionStart ∧
      Formed ⟨heap, m', s.live⟩ (if headerSize < k then top + k else top) blocks' := by
  by_cases large : headerSize < k
  · obtain ⟨nonzero, fits⟩ := space large
    have finish := formed.finish
    have below := formed.below
    have atEnd : s.allocator.regionEnd = top := by
      unfold u32 at finish
      omega
    cases list : blocks with
    | nil =>
        have tiles := formed.tiles
        have roomy := formed.roomy
        rw [list] at tiles
        have empty : s.allocator.regionStart = top := tiles
        omega
    | cons b rest =>
        subst list
        have linked := formed.linked
        have tiles := formed.tiles
        have atHead := linked.1
        have start := tiles.1
        have positive := formed.positive
        have enough : rest.length < longestWalk := by
          have all := formed.enough
          rw [List.length_cons] at all
          omega
        have nonNull : ¬ (k ≤ headerSize ∨ s.allocator.head = 0) := by omega
        have room : top + k ≤ 4294967296 := by omega
        rw [atHead] at linked
        have last := last_block_linked linked tiles positive enough
        obtain ⟨after, _⟩ := append_space_linked linked tiles room large
        have grown := tiles_grow large.le tiles
        rw [← atHead] at last after
        refine ⟨{ s.allocator with regionEnd := u32 (s.allocator.regionEnd + k) },
          appendSpace k ((b :: rest).getLast (List.cons_ne_nil b rest)).address s.memory,
          grow headerSize k (b :: rest), ?_, rfl, ?_⟩
        · simp only [extend, if_neg nonNull, last, bind, Option.bind_some]
        · rw [if_pos large]
          constructor
          · exact positive
          · exact lt_of_lt_of_le formed.roomy (Nat.le_add_right _ _)
          · exact room
          · change u32 (s.allocator.regionEnd + k) = _
            rw [atEnd]
          · exact after
          · exact grown
          · apply all_grow
            · intro c wordsC
              dsimp only
              omega
            · intro c wordsC
              unfold headerSize at *
              dsimp only
              omega
            · exact formed.words
          · intro e member
            obtain ⟨u, memberU, used, rest'⟩ := formed.owned e member
            exact ⟨u, (mem_grow used).2 memberU, used, rest'⟩
  · refine ⟨s.allocator, s.memory, blocks, ?_, rfl, ?_⟩
    · have small : k ≤ headerSize := Nat.le_of_not_lt large
      simp only [extend, if_pos (Or.inl small)]
    · rw [if_neg large]
      exact formed

theorem live_word_outside (formed : Formed s top blocks) {a : Nat}
    (payload : ∃ e ∈ s.live, e.1 ≤ a ∧ a < e.1 + blockSize s.memory (e.1 - headerSize)) :
    ∃ b ∈ blocks, b.free = false ∧ b.address + headerSize ≤ a ∧
      a < b.address + headerSize + b.size := by
  obtain ⟨e, member, low, high⟩ := payload
  obtain ⟨b, memberB, used, pointer, _⟩ := formed.owned e member
  have size : blockSize s.memory b.address = b.size := linked_size formed.linked memberB
  have block : e.1 - headerSize = b.address := by omega
  rw [block, size] at high
  exact ⟨b, memberB, used, by omega, by omega⟩

theorem store_formed (formed : Formed s top blocks) {a : Nat} (word : Nat)
    (payload : ∃ e ∈ s.live, e.1 ≤ a ∧ a < e.1 + blockSize s.memory (e.1 - headerSize)) :
    Formed { s with memory := put s.memory a word } top blocks := by
  obtain ⟨b, memberB, _, low, high⟩ := live_word_outside formed payload
  have outside : ¬ InHeader blocks a := payload_not_header formed.tiles memberB low high
  apply formed.frame
  intro c inside
  apply put_other
  rintro rfl
  exact outside inside

end Steps

section Runs

theorem call_formed {s s' : Machine} {top : Nat} {blocks : List Block} {action : Action}
    (formed : Formed s top blocks) (permitted : Permitted s action)
    (next : call s action = some s') : ∃ top' blocks', Formed s' top' blocks' := by
  cases action with
  | allocate n =>
      obtain ⟨pointer, m', blocks', run, after⟩ := allocate_formed formed n
      simp only [call, run] at next
      cases next
      exact ⟨top, blocks', after⟩
  | free p =>
      obtain ⟨m', blocks', run, after⟩ := free_formed formed permitted
      simp only [call, run] at next
      cases next
      exact ⟨top, blocks', after⟩
  | extend k =>
      obtain ⟨heap, m', blocks', run, _, after⟩ := extend_formed formed permitted.1 permitted.2
      simp only [call, run] at next
      cases next
      exact ⟨_, blocks', after⟩
  | store a word =>
      cases next
      exact ⟨top, blocks, store_formed formed word permitted.2⟩

theorem reached_formed {region : Region} {m : Cells} {s : Machine} (reached : Reached region m s) :
    ∃ top blocks, Formed s top blocks := by
  apply reached.invariant (fun s => ∃ top blocks, Formed s top blocks) ⟨_, _, start_formed region m⟩
  rintro t action t' ⟨top, blocks, formed⟩ permitted next
  exact call_formed formed permitted next

end Runs

end CassiOS.Memory.HeapStates
