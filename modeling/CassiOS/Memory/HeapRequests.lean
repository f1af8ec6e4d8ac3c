import CassiOS.Memory.HeapStates

/-!
# What a request is given

`allocate` rounds the request up to words before it searches. Free blocks are whole words
long, so the rounding changes no answer until it wraps: the three largest requests are
rounded to 0, which every free block can hold.
-/

namespace CassiOS.Memory.HeapRequests

open CassiOS.Support.Words
open CassiOS.Support.Tiling
open CassiOS.Support.TransitionSystem
open CassiOS.Memory.Heap
open CassiOS.Memory.HeapBlocks
open CassiOS.Memory.HeapSafety
open CassiOS.Memory.HeapStates

set_option autoImplicit false

/-- The headers from the head on list these blocks, and they cover the region. -/
def Listed (heap : HeapAllocator) (m : Cells) (top : Nat) (blocks : List Block) : Prop :=
  Linked m heap.head blocks ∧ Tiles headerSize heap.regionStart blocks top

/-- A request of `n` bytes: a pointer exactly when a free block has them, to a block that
is now in use and has them; else nothing changes. -/
def Serves (s : Machine) (top : Nat) (blocks : List Block) (n : Nat) : Prop :=
  ∃ result m', allocate longestWalk n s.allocator s.memory = some (result, m') ∧
    (result ≠ 0 ↔ ∃ b ∈ blocks, b.free = true ∧ n ≤ b.size) ∧
    (result ≠ 0 → ∃ blocks', Listed s.allocator m' top blocks' ∧
      ∃ b ∈ blocks', b.free = false ∧ result = b.address + headerSize ∧ n ≤ b.size) ∧
    (result = 0 → m' = s.memory)

section Rounding

theorem align_up_wraps {n : Nat} (huge : 0xFFFFFFFC < n) (word : n < 4294967296) :
    alignUp n = 0 := by
  unfold alignUp u32
  omega

/-- A block of whole words has room for a request exactly when it has room for its words. -/
theorem fits_iff_rounded {n size : Nat} (sensible : n ≤ 0xFFFFFFFC) (words : size % 4 = 0) :
    n ≤ size ↔ alignUp n ≤ size := by
  unfold alignUp
  rw [u32_of_lt (by omega)]
  omega

end Rounding

section Requests

variable {s : Machine} {top n : Nat} {blocks : List Block}

theorem sensible_request_served (formed : Formed s top blocks) (some : 0 < n)
    (sensible : n ≤ 0xFFFFFFFC) : Serves s top blocks n := by
  have search := allocate_from_linked (alignUp n) formed.linked formed.tiles formed.positive
    formed.below formed.enough
  have called : allocate longestWalk n s.allocator s.memory =
      allocateFrom (alignUp n) longestWalk s.allocator.head s.memory := if_neg some.ne'
  have fits : ∀ b ∈ blocks, n ≤ b.size ↔ alignUp n ≤ b.size := fun b member =>
    fits_iff_rounded sensible (formed.words b member).2
  unfold Serves
  rw [called]
  cases found : fit headerSize minBlockSize (alignUp n) blocks with
  | none =>
      rw [found] at search
      refine ⟨0, s.memory, search, ?_, nofun, fun _ => rfl⟩
      constructor
      · exact nofun
      · rintro ⟨b, member, free, enough⟩
        have small := fit_none found b member free
        have large := (fits b member).1 enough
        omega
  | some result =>
      obtain ⟨address, blocks'⟩ := result
      rw [found] at search
      obtain ⟨m', run, linked, _⟩ := search
      have after := taken_formed formed found linked
      obtain ⟨b, member, used, place, room⟩ := after.owned _ List.mem_cons_self
      obtain ⟨_, c, _, split, free, large, _, _⟩ := fit_cases found
      have memberC : c ∈ blocks := by
        rw [split]
        exact List.mem_append_right _ List.mem_cons_self
      dsimp only at place room
      -- room for a byte keeps the payload below 4 GiB
      have pointer : u32 (address + headerSize) = address + headerSize := by
        have bounds := tiles_member after.tiles member
        have below := after.below
        have bytes := room sensible
        exact u32_of_lt (by omega)
      have nonNull : address + headerSize ≠ 0 := by
        unfold headerSize
        omega
      rw [pointer] at run
      refine ⟨address + headerSize, m', run, ?_, ?_, fun null => absurd null nonNull⟩
      · exact iff_of_true nonNull ⟨c, memberC, free, (fits c memberC).2 large⟩
      · intro _
        exact ⟨blocks', ⟨linked, after.tiles⟩, b, member, used, place, room sensible⟩

/-- A request whose rounding wraps takes any free block there is. -/
theorem huge_request_served_iff (formed : Formed s top blocks) (huge : 0xFFFFFFFC < n)
    (word : n < 4294967296) : Serves s top blocks n ↔ ∀ b ∈ blocks, b.free = false := by
  have rounded := align_up_wraps huge word
  have search := allocate_from_linked (alignUp n) formed.linked formed.tiles formed.positive
    formed.below formed.enough
  have called : allocate longestWalk n s.allocator s.memory =
      allocateFrom (alignUp n) longestWalk s.allocator.head s.memory := if_neg (by omega)
  have none : ¬ ∃ b ∈ blocks, b.free = true ∧ n ≤ b.size := by
    rintro ⟨b, member, _, enough⟩
    have bounds := tiles_member formed.tiles member
    have below := formed.below
    unfold headerSize at bounds
    omega
  unfold Serves
  rw [called]
  constructor
  · rintro ⟨result, m', run, answer, _, same⟩ b member
    by_contra free
    have null : result = 0 := by
      by_contra pointer
      exact none (answer.1 pointer)
    cases found : fit headerSize minBlockSize (alignUp n) blocks with
    | none =>
        have small := fit_none found b member (by simpa using free)
        omega
    | some taken =>
        obtain ⟨address, blocks'⟩ := taken
        rw [found] at search
        obtain ⟨m'', run', linked, _⟩ := search
        rw [run] at run'
        obtain ⟨_, rfl⟩ := Prod.mk.inj (Option.some.inj run')
        -- the block taken changed its flag
        obtain ⟨pre, c, post, split, freeC, large, rfl, after⟩ := fit_cases found
        obtain ⟨size, _, new, _⟩ := taken_used headerSize minBlockSize c large
        have memberC : c ∈ blocks := by
          rw [split]
          exact List.mem_append_right _ List.mem_cons_self
        have memberNew : (⟨c.address, size, false⟩ : Block) ∈ blocks' := by
          rw [after]
          exact List.mem_append_right _ (List.mem_append_left _ new)
        have before : blockFree s.memory c.address = true :=
          (linked_member formed.linked memberC).trans freeC
        have behind : blockFree m' c.address = false := linked_member linked memberNew
        rw [same null, before] at behind
        cases behind
  · intro full
    have misfit : fit headerSize minBlockSize (alignUp n) blocks = Option.none := by
      by_contra found
      obtain ⟨⟨address, blocks'⟩, found⟩ := Option.ne_none_iff_exists'.1 found
      obtain ⟨_, b, _, split, free, _⟩ := fit_cases found
      have used := full b (by rw [split]; exact List.mem_append_right _ List.mem_cons_self)
      rw [free] at used
      cases used
    rw [misfit] at search
    refine ⟨0, s.memory, search, ?_, nofun, fun _ => rfl⟩
    exact iff_of_false (fun zero => zero rfl) none

/-- In every state, a request keeps its promise unless its rounding wraps while a block is
free. -/
theorem request_served_iff (region : Region) (m : Cells) {s : Machine}
    (reached : Reached region m s) :
    ∃ top blocks, Listed s.allocator s.memory top blocks ∧
      ∀ n, 0 < n → n < 4294967296 →
        (Serves s top blocks n ↔ n ≤ 0xFFFFFFFC ∨ ∀ b ∈ blocks, b.free = false) := by
  obtain ⟨top, blocks, formed⟩ := reached_formed reached
  refine ⟨top, blocks, ⟨formed.linked, formed.tiles⟩, ?_⟩
  intro n some word
  by_cases sensible : n ≤ 0xFFFFFFFC
  · exact iff_of_true (sensible_request_served formed some sensible) (.inl sensible)
  · rw [huge_request_served_iff formed (Nat.lt_of_not_le sensible) word]
    exact ⟨.inr, fun either => either.resolve_left sensible⟩

theorem small_request_served :
    ∃ s, admittedPath call Permitted (start smallRegion fun _ => 0)
        [.allocate 8, .extend 32] = some s ∧
      ∃ top blocks, Listed s.allocator s.memory top blocks ∧ Serves s top blocks 20 := by
  have reached : ∃ s, admittedPath call Permitted (start smallRegion fun _ => 0)
      [.allocate 8, .extend 32] = some s := ⟨_, rfl⟩
  obtain ⟨s, reached⟩ := reached
  obtain ⟨top, blocks, listed, served⟩ := request_served_iff smallRegion (fun _ => 0)
    (run_of_admitted_path reached)
  exact ⟨s, reached, top, blocks, listed, (served 20 (by decide) (by decide)).2 (.inl (by decide))⟩

/-- 0xFFFFFFFD bytes are granted in a region of 64. -/
theorem request_granted_without_room :
    Listed (start smallRegion fun _ => 0).allocator (start smallRegion fun _ => 0).memory 0x1040
        [⟨0x1000, 52, true⟩] ∧
      ¬ Serves (start smallRegion fun _ => 0) 0x1040 [⟨0x1000, 52, true⟩] 0xFFFFFFFD := by
  refine ⟨⟨⟨rfl, rfl, rfl, rfl⟩, rfl, rfl⟩, ?_⟩
  rintro ⟨result, m', run, answer, _⟩
  have granted : result = 0x100C := (Prod.mk.inj (Option.some.inj run)).1.symm
  obtain ⟨b, member, _, room⟩ := answer.1 (by rw [granted]; decide)
  rw [List.mem_singleton.1 member] at room
  exact absurd room (by decide)

end Requests

end CassiOS.Memory.HeapRequests
