import CassiOS.Kernel.HeapGrowth
import CassiOS.Memory.HeapRequests

/-!
# A process heap beside direct calls of `sbrk`

`heap::alloc` of `libs/heap` grows its region with `os::sbrk` and takes the new space to
lie right behind the region, whatever address the kernel returned. A process that calls
`os::sbrk` itself, as the terminal and the display do, moves the break away from the
region's end.
-/

namespace CassiOS.Userland.ProcessHeap

open CassiOS.Support.Words
open CassiOS.Support.Tiling
open CassiOS.Support.TransitionSystem
open CassiOS.Memory.Physical
open CassiOS.Memory.Paging
open CassiOS.Memory.Heap
open CassiOS.Memory.HeapBlocks
open CassiOS.Memory.HeapSafety
open CassiOS.Memory.HeapStates
open CassiOS.Memory.HeapRequests
open CassiOS.Kernel.ProcessMemory
open CassiOS.Kernel.FrameOwnership (accepted_break_checked)
open CassiOS.Kernel.HeapGrowth

set_option autoImplicit false

/-- `live` and `direct` list what the process has been given: pointers with the bytes asked
for, and the ranges that its own calls of `os::sbrk` returned. -/
structure UserHeap where
  process : UserProcess
  kernel : MemoryState
  allocator : Option HeapAllocator
  memory : Cells
  live : List (Nat × Nat)
  direct : List (Nat × Nat)

inductive Action where
  | alloc (n : Nat)
  | free (p : Nat)
  | sbrk (k : Nat)
  | store (a word : Nat)
  /-- Other processes take and give back frames. -/
  | elsewhere (kernel : MemoryState)

section Calls

def initialHeapSize : Nat := 4096

/-- `size + sizeof(BlockHeader) + 4096`, rounded up to pages, in `u32`. -/
def needed (n : Nat) : Nat := u32 (u32 (n + headerSize + 4096) + 4095) / 4096 * 4096

def osSbrk (k : Nat) (s : UserHeap) : Nat × UserHeap :=
  let (old, process, kernel) := sbrk k s.process s.kernel
  (old, { s with process := process, kernel := kernel })

/-- The part of `heap::alloc` behind a failed allocation. -/
def growAndRetry (n : Nat) (heap : HeapAllocator) (s : UserHeap) : Option (Nat × UserHeap) :=
  let (newMem, s) := osSbrk (needed n) s
  if newMem = 0 then some (0, s)
  else do
    -- `newMem` is not looked at any more
    let (heap, memory) ← extend longestWalk (needed n) heap s.memory
    let (pointer, memory) ← allocate longestWalk n heap memory
    some (pointer, { s with allocator := some heap, memory := memory })

def allocateOrGrow (n : Nat) (heap : HeapAllocator) (s : UserHeap) : Option (Nat × UserHeap) := do
  let (pointer, memory) ← allocate longestWalk n heap s.memory
  if pointer = 0 then growAndRetry n heap { s with memory := memory }
  else some (pointer, { s with memory := memory })

def heapAlloc (n : Nat) (s : UserHeap) : Option (Nat × UserHeap) :=
  match s.allocator with
  | some heap => allocateOrGrow n heap s
  | none =>
      let (base, s) := osSbrk initialHeapSize s
      if base = 0 then some (0, s)
      else
        let (heap, memory) := construct base initialHeapSize s.memory
        allocateOrGrow n heap { s with allocator := some heap, memory := memory }

def heapFree (p : Nat) (s : UserHeap) : Option UserHeap :=
  match s.allocator with
  | some heap => (free longestWalk p heap s.memory).map fun memory => { s with memory := memory }
  | none => some s

/-- The null pointer is no live one. -/
def grant (pointer n : Nat) (live : List (Nat × Nat)) : List (Nat × Nat) :=
  if pointer = 0 then live else (pointer, n) :: live

def call (s : UserHeap) : Action → Option UserHeap
  | .alloc n =>
      (heapAlloc n s).map fun result => { result.2 with live := grant result.1 n s.live }
  | .free p =>
      (heapFree p s).map fun after => { after with live := s.live.filter fun e => e.1 != p }
  | .sbrk k =>
      let (old, s) := osSbrk k s
      some (if old = 0 then s else { s with direct := (old, k) :: s.direct })
  | .store a word => some { s with memory := put s.memory a word }
  | .elsewhere kernel => some { s with kernel := kernel }

end Calls

section Specification

/-- `u32` arguments, live pointers, and stores into what the process has been given. -/
def Permitted (s : UserHeap) : Action → Prop
  | .alloc n => n < 4294967296
  | .free p => p ∈ s.live.map Prod.fst
  | .sbrk k => k < 4294967296
  | .store a _ => a % 4 = 0 ∧
      ((∃ e ∈ s.live, e.1 ≤ a ∧ a < e.1 + blockSize s.memory (e.1 - headerSize)) ∨
        ∃ r ∈ s.direct, r.1 ≤ a ∧ a < r.1 + r.2)
  | .elsewhere _ => True

/-- When `heap::alloc` grows its region, the region ends at the break. -/
def Adjacent (s : UserHeap) : Action → Prop
  | .alloc n => ∀ heap memory, s.allocator = some heap →
      allocate longestWalk n heap s.memory = some (0, memory) → needed n ≠ 0 →
        (sbrk (needed n) s.process s.kernel).1 ≠ 0 → s.process.heapBreak = heap.regionEnd
  | .free _ | .sbrk _ | .store _ _ | .elsewhere _ => True

def Admitted (s : UserHeap) (action : Action) : Prop := Permitted s action ∧ Adjacent s action

/-- A process that has not called its heap yet; `exec` leaves the break on a page. -/
def Fresh (s : UserHeap) : Prop :=
  s.process.heapBreak % frameSize = 0 ∧ s.process.heapBreak < 4294967296 ∧ s.allocator = none ∧
    s.live = [] ∧ s.direct = []

/-- No byte of a range that `os::sbrk` returned lies in a block header or in the block of a
live pointer, and each live pointer has what was asked for. -/
def Apart (s : UserHeap) : Prop :=
  ∀ heap, s.allocator = some heap → ∃ top blocks, Listed heap s.memory top blocks ∧
    (∀ r ∈ s.direct, ∀ a, r.1 ≤ a → a < r.1 + r.2 →
      ¬ InHeader blocks a ∧
        ∀ e ∈ s.live, ¬ (e.1 ≤ a ∧ a < e.1 + blockSize s.memory (e.1 - headerSize))) ∧
    ∀ e ∈ s.live, e.2 ≤ 0xFFFFFFFC → e.2 ≤ blockSize s.memory (e.1 - headerSize)

end Specification

section Breaks

variable {s : UserHeap} {k : Nat}

/-- A range that is empty or lies on one side of another. -/
def Beside (lo hi : Nat) (r : Nat × Nat) : Prop := r.1 + r.2 ≤ lo ∨ hi ≤ r.1 ∨ r.2 = 0

theorem accepted_break_lt {p : UserProcess} {newBreak : Nat}
    (accepted : acceptedBreak k p = some newBreak) : newBreak < p.heapBreak + k + frameSize := by
  obtain ⟨_, _, _, value, _⟩ := accepted_break_checked accepted
  rw [value]
  unfold u32 frameSize
  omega

/-- `sbrk` fails, or it returns the old break and the new one lies right behind the range. -/
theorem os_sbrk_cases (aligned : s.process.heapBreak % frameSize = 0)
    (word : s.process.heapBreak < 4294967296) (argument : k < 4294967296) :
    ∃ old process kernel, sbrk k s.process s.kernel = (old, process, kernel) ∧
      osSbrk k s = (old, { s with process := process, kernel := kernel }) ∧
      process.heapBreak % frameSize = 0 ∧ process.heapBreak < 4294967296 ∧
      s.process.heapBreak ≤ process.heapBreak ∧
      (old ≠ 0 → old = s.process.heapBreak ∧ old + k ≤ process.heapBreak ∧
        process.heapBreak < old + k + frameSize) := by
  have page : 0 < frameSize := by decide
  unfold osSbrk
  rcases accepted : acceptedBreak k s.process with _ | newBreak
  · rw [sbrk_refused accepted]
    refine ⟨_, _, _, rfl, rfl, aligned, word, le_refl _, ?_⟩
    intro answered
    by_cases zero : k = 0
    · rw [if_pos zero, zero]
      exact ⟨rfl, le_refl _, Nat.lt_add_of_pos_right page⟩
    · exact absurd (if_neg zero) answered
  · obtain ⟨_, rounded, enough, top⟩ := accepted_break_bounds word argument accepted
    have close := accepted_break_lt accepted
    rw [sbrk_accepted accepted]
    rcases growHeap s.process.pageDirectory (heapPages s.process.heapBreak newBreak) s.kernel
      with ⟨_ | _, after⟩
    · exact ⟨_, _, _, rfl, rfl, aligned, word, le_refl _, fun answered => absurd rfl answered⟩
    · refine ⟨_, _, _, rfl, rfl, rounded, lt_of_le_of_lt top (by decide), ?_, ?_⟩
      · exact le_trans (Nat.le_add_right _ _) enough
      · exact fun _ => ⟨rfl, enough, close⟩

theorem needed_pages (n : Nat) : needed n % 4096 = 0 ∧ needed n < 4294967296 := by
  unfold needed u32
  omega

end Breaks

section Invariant

/-- The heap below the break, and the ranges taken directly beside it. -/
structure Stands (s : UserHeap) (heap : HeapAllocator) (live : List (Nat × Nat)) (top : Nat)
    (blocks : List Block) : Prop where
  formed : Formed ⟨heap, s.memory, live⟩ top blocks
  below : top ≤ s.process.heapBreak
  beside : ∀ r ∈ s.direct, Beside heap.regionStart top r

structure Kept (s : UserHeap) : Prop where
  aligned : s.process.heapBreak % frameSize = 0
  word : s.process.heapBreak < 4294967296
  taken : ∀ r ∈ s.direct, r.1 + r.2 ≤ s.process.heapBreak
  unused : s.allocator = none → s.live = []
  stands : ∀ heap, s.allocator = some heap → ∃ top blocks, Stands s heap s.live top blocks

variable {s : UserHeap}

theorem fresh_kept (fresh : Fresh s) : Kept s := by
  obtain ⟨aligned, word, none, live, direct⟩ := fresh
  constructor
  · exact aligned
  · exact word
  · rw [direct]
    exact nofun
  · exact fun _ => live
  · intro heap some
    rw [none] at some
    cases some

theorem Kept.moved (kept : Kept s) {process : UserProcess} (kernel : MemoryState)
    (aligned : process.heapBreak % frameSize = 0) (word : process.heapBreak < 4294967296)
    (grown : s.process.heapBreak ≤ process.heapBreak) :
    Kept { s with process := process, kernel := kernel } where
  aligned := aligned
  word := word
  taken := fun r member => le_trans (kept.taken r member) grown
  unused := kept.unused
  stands := by
    intro heap some
    obtain ⟨top, blocks, formed, below, beside⟩ := kept.stands heap some
    exact ⟨top, blocks, formed, le_trans below grown, beside⟩

/-- Growing where the region ends at the break. -/
theorem grow_and_retry_kept {heap : HeapAllocator} {top n : Nat} {blocks : List Block}
    (kept : Kept s) (stands : Stands s heap s.live top blocks)
    (adjacent : needed n ≠ 0 → (sbrk (needed n) s.process s.kernel).1 ≠ 0 →
      s.process.heapBreak = heap.regionEnd) :
    ∃ pointer s', growAndRetry n heap s = some (pointer, s') ∧
      Kept { s' with live := grant pointer n s.live } := by
  obtain ⟨words, argument⟩ := needed_pages n
  obtain ⟨old, process, kernel, answer, run, aligned, word, grown, answered⟩ :=
    os_sbrk_cases kept.aligned kept.word argument
  rw [answer] at adjacent
  unfold growAndRetry
  rw [run]
  dsimp only
  by_cases null : old = 0
  · rw [if_pos null]
    exact ⟨0, _, rfl, kept.moved kernel aligned word grown⟩
  rw [if_neg null]
  obtain ⟨same, behind, _⟩ := answered null
  have below := stands.below
  have finish := stands.formed.finish
  have atEnd : heap.regionEnd = top := by
    rw [finish]
    exact u32_of_lt (lt_of_le_of_lt below kept.word)
  have positive : 0 < top := by
    have roomy := stands.formed.roomy
    omega
  -- the space behind the region is new: the break was at its end
  have room : headerSize < needed n → heap.regionEnd ≠ 0 ∧
      heap.regionEnd + needed n ≤ 4294967296 := by
    intro some
    have place := adjacent (by omega) null
    exact ⟨by omega, by omega⟩
  obtain ⟨heap', m₁, blocks₁, extended, start, wider⟩ :=
    extend_formed stands.formed (by omega) room
  obtain ⟨pointer, m₂, blocks₂, allocated, after⟩ := allocate_formed wider n
  dsimp only at extended allocated after start
  refine ⟨pointer, _, by rw [extended]; dsimp only [bind, Option.bind]; rw [allocated], ?_⟩
  constructor
  · exact aligned
  · exact word
  · exact fun r member => le_trans (kept.taken r member) grown
  · exact nofun
  · intro heap'' some
    cases some
    refine ⟨_, blocks₂, after, ?_, ?_⟩
    · dsimp only
      split
      · next large =>
        have place := adjacent (by omega) null
        omega
      · exact le_trans below grown
    · intro r member
      have taken := kept.taken r member
      have beside := stands.beside r member
      unfold Beside at *
      rw [start]
      split
      · next large =>
        have place := adjacent (by omega) null
        omega
      · exact beside

theorem allocate_or_grow_kept {heap : HeapAllocator} {top n : Nat} {blocks : List Block}
    (kept : Kept s) (stands : Stands s heap s.live top blocks)
    (adjacent : ∀ memory, allocate longestWalk n heap s.memory = some (0, memory) →
      needed n ≠ 0 → (sbrk (needed n) s.process s.kernel).1 ≠ 0 →
        s.process.heapBreak = heap.regionEnd) (present : s.allocator = some heap) :
    ∃ pointer s', allocateOrGrow n heap s = some (pointer, s') ∧
      Kept { s' with live := grant pointer n s.live } := by
  obtain ⟨pointer, m', blocks', run, after⟩ := allocate_formed stands.formed n
  dsimp only at run after
  have stands' : ∀ live, Formed ⟨heap, m', live⟩ top blocks' →
      ∀ other, some heap = some other →
        ∃ top blocks, Stands { s with memory := m', live := live } other live top blocks := by
    intro live formed other same
    cases same
    exact ⟨top, blocks', formed, stands.below, stands.beside⟩
  unfold allocateOrGrow
  rw [run]
  dsimp only [bind, Option.bind]
  by_cases null : pointer = 0
  · rw [if_pos null]
    rw [if_pos null] at after
    rw [null] at run
    have kept' : Kept { s with memory := m' } := by
      constructor
      · exact kept.aligned
      · exact kept.word
      · exact kept.taken
      · exact kept.unused
      · intro other same
        exact stands' s.live after other (present.symm.trans same)
    exact grow_and_retry_kept kept' ⟨after, stands.below, stands.beside⟩ (adjacent m' run)
  · rw [if_neg null]
    refine ⟨pointer, _, rfl, ?_⟩
    unfold grant
    rw [if_neg null] at after ⊢
    constructor
    · exact kept.aligned
    · exact kept.word
    · exact kept.taken
    · intro none
      rw [present] at none
      cases none
    · intro other same
      exact stands' _ after other (present.symm.trans same)

theorem first_region_stands {base : Nat} {process : UserProcess} (kept : Kept s)
    (kernel : MemoryState) (answered : base ≠ 0) (same : base = s.process.heapBreak)
    (behind : base + initialHeapSize ≤ process.heapBreak)
    (word : process.heapBreak < 4294967296) :
    Stands ⟨process, kernel, some (construct base initialHeapSize s.memory).1,
        (construct base initialHeapSize s.memory).2, [], s.direct⟩
      (construct base initialHeapSize s.memory).1 [] (base + initialHeapSize)
      [⟨base, initialHeapSize - headerSize, true⟩] := by
  have aligned := kept.aligned
  unfold frameSize at aligned
  let region : Region :=
    { base := base
      size := initialHeapSize
      nonNull := Nat.pos_of_ne_zero answered
      baseAligned := by omega
      sizeAligned := by decide
      large := by decide
      addressable := by omega }
  constructor
  · exact start_formed region s.memory
  · exact behind
  · intro r member
    left
    have taken := kept.taken r member
    have start : (construct base initialHeapSize s.memory).1.regionStart = base := by
      rw [construct_eq (Nat.pos_of_ne_zero answered) (by decide)]
    rw [start, same]
    exact taken

theorem heap_alloc_kept {n : Nat} (kept : Kept s) (adjacent : Adjacent s (.alloc n)) :
    ∃ pointer s', heapAlloc n s = some (pointer, s') ∧
      Kept { s' with live := grant pointer n s.live } := by
  unfold heapAlloc
  cases present : s.allocator with
  | some heap =>
      obtain ⟨top, blocks, stands⟩ := kept.stands heap present
      exact allocate_or_grow_kept kept stands (fun memory => adjacent heap memory present) present
  | none =>
      obtain ⟨base, process, kernel, _, run, aligned, word, grown, answered⟩ :=
        os_sbrk_cases kept.aligned kept.word (show initialHeapSize < 4294967296 by decide)
      have moved := kept.moved kernel aligned word grown
      dsimp only
      rw [run]
      dsimp only
      by_cases null : base = 0
      · rw [if_pos null]
        exact ⟨0, _, rfl, moved⟩
      · rw [if_neg null]
        obtain ⟨same, behind, close⟩ := answered null
        have live := kept.unused present
        have stands := first_region_stands kept kernel null same behind word
        have oldAligned := kept.aligned
        have placed : Kept ⟨process, kernel, some (construct base initialHeapSize s.memory).1,
            (construct base initialHeapSize s.memory).2, s.live, s.direct⟩ := by
          constructor
          · exact aligned
          · exact word
          · exact moved.taken
          · exact nofun
          · intro heap some
            cases some
            rw [live]
            exact ⟨_, _, stands⟩
        rw [← live] at stands
        apply allocate_or_grow_kept placed stands _ rfl
        -- nothing has come between the region and the break
        intro _ _ _ _
        rw [construct_eq (Nat.pos_of_ne_zero null) (by decide)]
        change process.heapBreak = u32 (base + initialHeapSize)
        rw [u32_of_lt (by omega)]
        unfold initialHeapSize frameSize at *
        omega

theorem heap_free_kept {p : Nat} (kept : Kept s) (live : p ∈ s.live.map Prod.fst) :
    ∃ s', heapFree p s = some s' ∧
      Kept { s' with live := s.live.filter fun e => e.1 != p } := by
  unfold heapFree
  cases present : s.allocator with
  | none =>
      rw [kept.unused present] at live
      cases live
  | some heap =>
      obtain ⟨top, blocks, stands⟩ := kept.stands heap present
      obtain ⟨m', blocks', run, after⟩ := free_formed stands.formed live
      dsimp only at run after ⊢
      rw [run]
      refine ⟨_, rfl, ?_⟩
      constructor
      · exact kept.aligned
      · exact kept.word
      · exact kept.taken
      · exact nofun
      · intro other same
        cases same
        exact ⟨top, blocks', after, stands.below, stands.beside⟩

theorem sbrk_kept {k : Nat} (kept : Kept s) (argument : k < 4294967296) :
    ∃ s', call s (.sbrk k) = some s' ∧ Kept s' := by
  obtain ⟨old, process, kernel, _, run, aligned, word, grown, answered⟩ :=
    os_sbrk_cases kept.aligned kept.word argument
  have moved := kept.moved kernel aligned word grown
  unfold call
  dsimp only
  rw [run]
  dsimp only
  by_cases null : old = 0
  · rw [if_pos null]
    exact ⟨_, rfl, moved⟩
  rw [if_neg null]
  obtain ⟨same, behind, _⟩ := answered null
  refine ⟨_, rfl, ?_⟩
  constructor
  · exact aligned
  · exact word
  · intro r member
    rcases List.mem_cons.1 member with rfl | older
    · exact behind
    · exact moved.taken r older
  · exact kept.unused
  · intro heap present
    obtain ⟨top, blocks, formed, below, beside⟩ := kept.stands heap present
    refine ⟨top, blocks, formed, le_trans below grown, ?_⟩
    intro r member
    rcases List.mem_cons.1 member with rfl | older
    · right
      left
      rw [same]
      exact below
    · exact beside r older

theorem store_kept {a : Nat} (kept : Kept s) (word : Nat) (permitted : Permitted s (.store a word)) :
    Kept { s with memory := put s.memory a word } := by
  constructor
  · exact kept.aligned
  · exact kept.word
  · exact kept.taken
  · exact kept.unused
  · intro heap present
    obtain ⟨top, blocks, formed, below, beside⟩ := kept.stands heap present
    refine ⟨top, blocks, ?_, below, beside⟩
    rcases permitted.2 with payload | ⟨r, member, low, high⟩
    · exact store_formed formed word payload
    · apply formed.frame
      intro c inside
      apply put_other
      rintro rfl
      have bounds := in_header_bounds formed.tiles inside
      have place := beside r member
      unfold Beside at place
      dsimp only at bounds
      omega

theorem step_kept {s' : UserHeap} {action : Action} (kept : Kept s) (admitted : Admitted s action)
    (next : call s action = some s') : Kept s' := by
  obtain ⟨permitted, adjacent⟩ := admitted
  cases action with
  | alloc n =>
      obtain ⟨pointer, t, run, after⟩ := heap_alloc_kept kept adjacent
      simp only [call, run, Option.map_some, Option.some.injEq] at next
      rw [← next]
      exact after
  | free p =>
      obtain ⟨t, run, after⟩ := heap_free_kept kept permitted
      simp only [call, run, Option.map_some, Option.some.injEq] at next
      rw [← next]
      exact after
  | sbrk k =>
      obtain ⟨t, run, after⟩ := sbrk_kept kept permitted
      cases run.symm.trans next
      exact after
  | store a word =>
      cases next
      exact store_kept kept word permitted
  | elsewhere kernel =>
      cases next
      exact kept.moved kernel kept.aligned kept.word (le_refl _)

theorem kept_apart (kept : Kept s) : Apart s := by
  intro heap present
  obtain ⟨top, blocks, formed, _, beside⟩ := kept.stands heap present
  refine ⟨top, blocks, ⟨formed.linked, formed.tiles⟩, ?_, ?_⟩
  · intro r member a low high
    have place := beside r member
    unfold Beside at place
    constructor
    · intro inside
      have bounds := in_header_bounds formed.tiles inside
      dsimp only at bounds
      omega
    · intro e live payload
      obtain ⟨b, memberB, _, lowB, highB⟩ := live_word_outside formed ⟨e, live, payload⟩
      have bounds := tiles_member formed.tiles memberB
      dsimp only at bounds
      omega
  · intro e live sensible
    obtain ⟨b, memberB, _, pointer, room⟩ := formed.owned e live
    have size : blockSize s.memory b.address = b.size := linked_size formed.linked memberB
    rw [pointer, Nat.add_sub_cancel, size]
    exact room sensible

end Invariant

section Runs

/-- As long as the region ends at the break whenever it grows, headers and live payloads
stay apart from the ranges that the process took with `os::sbrk`. -/
theorem heap_apart_from_direct_ranges {s s' : UserHeap} (fresh : Fresh s)
    (run : Run call Admitted s s') : Apart s' := by
  apply kept_apart
  apply run.invariant Kept (fresh_kept fresh)
  intro t action t' kept admitted next
  exact step_kept kept admitted next

/-- A process with an empty address space and seven free frames. -/
def smallProcess : UserHeap := ⟨emptyProcess, emptySpace, none, fun _ => 0, [], []⟩

theorem fresh_small_process : Fresh smallProcess := ⟨by decide, by decide, rfl, rfl, rfl⟩

/-- Grid memory taken before the first allocation stays out of the heap, even as that grows. -/
theorem grid_before_heap_apart :
    ∃ s, path call smallProcess [.sbrk 100, .alloc 4060, .alloc 64] = some s ∧
      s.direct = [(0x00700000, 100)] ∧ s.live = [(0x00701FF4, 64), (0x0070100C, 4060)] ∧
      Apart s := by
  have unused : (path call smallProcess [.sbrk 100]).map UserHeap.allocator = some none := by rfl
  have ends : (path call smallProcess [.sbrk 100, .alloc 4060]).map (fun s =>
      (s.process.heapBreak, s.allocator.map HeapAllocator.regionEnd)) =
      some (0x00702000, some 0x00702000) := by decide +kernel
  have given : (path call smallProcess [.sbrk 100, .alloc 4060, .alloc 64]).map (fun s =>
      (s.direct, s.live)) =
      some ([(0x00700000, 100)], [(0x00701FF4, 64), (0x0070100C, 4060)]) := by decide +kernel
  obtain ⟨s₃, third, lists⟩ := Option.map_eq_some_iff.1 given
  obtain ⟨s₁, first, onward⟩ := Option.bind_eq_some_iff.1 third
  obtain ⟨s₂, second, onward⟩ := Option.bind_eq_some_iff.1 onward
  obtain ⟨_, last, same⟩ := Option.bind_eq_some_iff.1 onward
  cases same
  have none : s₁.allocator = Option.none := by
    simpa only [path, first, Option.bind_some, Option.map_some, Option.some.injEq] using unused
  have edges : s₂.process.heapBreak = 0x00702000 ∧
      s₂.allocator.map HeapAllocator.regionEnd = some 0x00702000 := by
    simpa only [path, first, second, Option.bind_some, Option.map_some, Option.some.injEq,
      Prod.mk.injEq] using ends
  have run : Run call Admitted smallProcess s₃ := by
    refine .step (.step (.step .start ⟨?_, ?_⟩ first) ⟨?_, ?_⟩ second) ⟨?_, ?_⟩ last
    · exact show 100 < 4294967296 by decide
    · exact trivial
    · exact show 4060 < 4294967296 by decide
    · intro heap _ present
      rw [none] at present
      cases present
    · exact show 64 < 4294967296 by decide
    · intro heap _ present _ _ _
      have regionEnd := edges.2
      rw [present] at regionEnd
      exact edges.1.trans (Option.some.inj regionEnd).symm
  exact ⟨s₃, third, (Prod.mk.inj lists).1, (Prod.mk.inj lists).2,
    heap_apart_from_direct_ranges fresh_small_process run⟩

/-- A full region, a grid of 100 bytes behind it, and one more allocation: the header of the
new block is the start of the grid. -/
theorem growth_captures_grid :
    Fresh smallProcess ∧
      ∃ s, path call smallProcess [.alloc 4084, .sbrk 100, .alloc 16] = some s ∧ ¬ Apart s := by
  refine ⟨⟨by decide, by decide, rfl, rfl, rfl⟩, ?_⟩
  have after : (path call smallProcess [.alloc 4084, .sbrk 100, .alloc 16]).map (fun s =>
      (s.allocator.map HeapAllocator.head, s.direct, blockNext s.memory 0x00700000)) =
      some (some 0x00700000, [(0x00701000, 100)], 0x00701000) := by decide +kernel
  obtain ⟨s, reached, values⟩ := Option.map_eq_some_iff.1 after
  obtain ⟨head, rest⟩ := Prod.mk.inj values
  obtain ⟨direct, next⟩ := Prod.mk.inj rest
  refine ⟨s, reached, ?_⟩
  intro apart
  obtain ⟨heap, present, start⟩ := Option.map_eq_some_iff.1 head
  obtain ⟨top, blocks, ⟨linked, _⟩, clear, _⟩ := apart heap present
  rw [start] at linked
  -- the second header of the list is at the first byte of the grid
  have captured : InHeader blocks 0x00701000 := by
    cases blocks with
    | nil =>
        have null : 0x00700000 = 0 := linked
        cases null
    | cons b tail =>
        obtain ⟨_, _, _, onward⟩ := linked
        rw [next] at onward
        cases tail with
        | nil =>
            have null : 0x00701000 = 0 := onward
            cases null
        | cons c tail =>
            refine ⟨c, List.mem_cons_of_mem _ List.mem_cons_self, ?_⟩
            rw [← onward.1]
            decide
  apply (clear (0x00701000, 100) ?_ 0x00701000 (le_refl _) (by decide)).1 captured
  rw [direct]
  exact List.mem_cons_self

end Runs

end CassiOS.Userland.ProcessHeap
