import CassiOS.Kernel.FrameOwnership
import CassiOS.Memory.UserSpace

/-!
# Growing a heap

`sbrk` takes a frame for each page and `mapUserPage` one for each missing page table. What
was taken is not given back when the frames run out, and the lack of a frame for a page
table goes unnoticed.
-/

namespace CassiOS.Kernel.HeapGrowth

open CassiOS.Support.Words
open CassiOS.Support.TransitionSystem
open CassiOS.Memory.Physical
open CassiOS.Memory.Paging
open CassiOS.Memory.Ownership
open CassiOS.Memory.Owned
open CassiOS.Memory.UserSpace
open CassiOS.Kernel.ProcessMemory
open CassiOS.Kernel.FrameOwnership

set_option autoImplicit false

section Specification

/-- What a program can reach at a page: the directory entry and the page's entry allow
user-mode writes, and the frame behind them was free. -/
def ReachesNew (before after : MemoryState) (pd a : Nat) : Prop :=
  after.words pd (a / tableSpan) % 8 = 7 ∧ translation after (after.words pd) a % 8 = 7 ∧
    frameOf (translation after (after.words pd) a) < frameCount ∧
    ¬ before.Used (frameOf (translation after (after.words pd) a))

/-- The pages from `low` to `high` lie in frames of their own that were free. -/
structure Grown (before after : MemoryState) (pd low high : Nat) : Prop where
  reached : ∀ page, low ≤ page * frameSize → page * frameSize < high →
    ReachesNew before after pd (page * frameSize)
  apart : ∀ page other, low ≤ page * frameSize → page * frameSize < high →
    low ≤ other * frameSize → other * frameSize < high →
    frameOf (translation after (after.words pd) (page * frameSize)) =
      frameOf (translation after (after.words pd) (other * frameSize)) → page = other

/-- Neither the translations of the address space nor the frame bitmap have changed. -/
structure Unchanged (before after : MemoryState) (pd : Nat) : Prop where
  translations : ∀ a, translation after (after.words pd) a = translation before (before.words pd) a
  bitmap : ∀ frame, after.Used frame ↔ before.Used frame

/-- A call of `sbrk` grows the heap or changes nothing. -/
def AllOrNothing (increment : Nat) (p : UserProcess) (m : MemoryState) : Prop :=
  let (old, p', m') := sbrk increment p m
  let pd := p.pageDirectory / frameSize
  (old ≠ 0 → increment ≠ 0 →
    Grown m m' pd old p'.heapBreak ∧ p'.heapBreak % frameSize = 0 ∧
      old + increment ≤ p'.heapBreak ∧ p'.heapBreak ≤ userStackPage) ∧
  (old = 0 → p'.heapBreak = p.heapBreak ∧ Unchanged m m' pd)

end Specification

section Pages

variable {m : MemoryState} {pd : Nat}

structure Placed (before after : MemoryState) (pd : Nat) (pages : List Nat) : Prop where
  space : DirectSpace after pd
  kept : ∀ frame, before.Used frame → after.Used frame
  mapped : ∀ a ∈ pages, ∃ frame, 0 < frame ∧ frame < frameCount ∧ ¬ before.Used frame ∧
    after.Used frame ∧ pageEntry after pd a = makeEntry (frame * frameSize) userFlags
  once : (pages.map fun a => frameOf (pageEntry after pd a)).Nodup
  others : ∀ other, other / tableSpan < userEntries →
    (∀ a ∈ pages, other / frameSize ≠ a / frameSize) →
    pageEntry after pd other = pageEntry before pd other

theorem frame_of_entry {frame : Nat} (positive : 0 < frame) :
    frameOf (makeEntry (frame * frameSize) userFlags) = frame := by
  rw [frame_of_make_entry, (frame_address positive).2]

theorem placed_nil (space : DirectSpace m pd) : Placed m m pd [] where
  space := space
  kept := fun _ used => used
  mapped := fun _ member => absurd member List.not_mem_nil
  once := List.nodup_nil
  others := fun _ _ _ => rfl

theorem placed_cons {next after : MemoryState} {addr frame : Nat} {rest : List Nat}
    (positive : 0 < frame) (bound : frame < frameCount) (clear : ¬ m.Used frame)
    (user : addr / tableSpan < userEntries)
    (first : ∀ a ∈ rest, addr / frameSize ≠ a / frameSize)
    (head : Mapped m next pd addr frame) (tail : Placed next after pd rest) :
    Placed m after pd (addr :: rest) := by
  have entry : pageEntry after pd addr = makeEntry (frame * frameSize) userFlags := by
    rw [tail.others addr user first, head.entry]
  constructor
  · exact tail.space
  · exact fun f used => tail.kept f (head.kept f used)
  · intro a member
    rcases List.mem_cons.1 member with rfl | later
    · exact ⟨frame, positive, bound, clear, tail.kept frame head.taken, entry⟩
    · obtain ⟨f, above, below, unused, used, mapped⟩ := tail.mapped a later
      exact ⟨f, above, below, fun already => unused (head.kept f already), used, mapped⟩
  · rw [List.map_cons, List.nodup_cons]
    refine ⟨?_, tail.once⟩
    intro again
    obtain ⟨a, later, same⟩ := List.mem_map.1 again
    obtain ⟨f, above, _, unused, _, mapped⟩ := tail.mapped a later
    rw [entry, mapped, frame_of_entry positive, frame_of_entry above] at same
    exact unused (same ▸ head.taken)
  · intro other otherUser different
    rw [tail.others other otherUser fun a later => different a (List.mem_cons_of_mem _ later),
      head.others other otherUser (different addr List.mem_cons_self)]

theorem no_frame_left {frame : Nat} (bound : frame < frameCount) (clear : ¬ m.Used frame)
    (last : getFreeFrames m.pmm = 1) : Exhausted (m.mark frame) := by
  have taken := free_frames_mark bound clear
  apply exhausted_iff.2
  omega

/-- With a frame for each page and each missing page table, every page is mapped. -/
theorem grow_heap_placed (space : DirectSpace m pd) (pages : List Nat)
    (user : ∀ a ∈ pages, a / tableSpan < userEntries)
    (apart : pages.Pairwise fun a b => a / frameSize ≠ b / frameSize)
    (enough : frameDemand (hasTable m pd) pages ≤ getFreeFrames m.pmm) :
    ∃ after, growHeap (pd * frameSize) pages m = (true, after) ∧ Placed m after pd pages := by
  induction pages generalizing m with
  | nil => exact ⟨m, rfl, placed_nil space⟩
  | cons addr rest ih =>
      have addrUser := user addr List.mem_cons_self
      obtain ⟨first, others⟩ := List.pairwise_cons.1 apart
      have some : getFreeFrames m.pmm ≠ 0 := by
        unfold frameDemand at enough
        rw [List.length_cons] at enough
        omega
      rcases take_frame_cases space.zero with ⟨frame, positive, bound, clear, _, run⟩ | ⟨full, _⟩
      · have marked := direct_mark space bound
        have outcome := map_user_page_outcome marked.zero pd addr (frame * frameSize) userFlags
        rcases map_new_page space.toSpace addrUser bound clear outcome with
          head | ⟨absent, last, _⟩
        · have budget := head.demand rest
          obtain ⟨after, done, tail⟩ := ih (direct_map marked addrUser outcome)
            (fun a member => user a (List.mem_cons_of_mem _ member)) others (by omega)
          refine ⟨after, ?_, placed_cons positive bound clear addrUser first head tail⟩
          unfold growHeap
          rw [run]
          simp only [if_neg (frame_address positive).1]
          exact done
        · unfold frameDemand at enough
          rw [missing_tables_added absent, List.length_cons] at enough
          omega
      · exact absurd (exhausted_iff.1 full) some

/-- When the loop gets a frame for each page and the pages show up, there were that many. -/
theorem grow_heap_demand (space : DirectSpace m pd) (pages : List Nat) {after : MemoryState}
    (user : ∀ a ∈ pages, a / tableSpan < userEntries)
    (done : growHeap (pd * frameSize) pages m = (true, after))
    (shown : ∀ a ∈ pages, pageEntry after pd a ≠ 0) :
    frameDemand (hasTable m pd) pages ≤ getFreeFrames m.pmm := by
  induction pages generalizing m with
  | nil => exact Nat.zero_le _
  | cons addr rest ih =>
      have addrUser := user addr List.mem_cons_self
      unfold growHeap at done
      rcases take_frame_cases space.zero with ⟨frame, positive, bound, clear, _, run⟩ | ⟨_, run⟩
      · have marked := direct_mark space bound
        have outcome := map_user_page_outcome marked.zero pd addr (frame * frameSize) userFlags
        rw [run] at done
        simp only [if_neg (frame_address positive).1] at done
        rcases map_new_page space.toSpace addrUser bound clear outcome with
          head | ⟨absent, last, stays⟩
        · have budget := head.demand rest
          have later := ih (direct_map marked addrUser outcome)
            (fun a member => user a (List.mem_cons_of_mem _ member)) done
            fun a member => shown a (List.mem_cons_of_mem _ member)
          omega
        · -- the last frame went to a page without a table: no page can follow
          rw [stays] at done
          cases rest with
          | nil =>
              obtain rfl := (Prod.mk.inj done).2
              exact absurd (page_entry_absent absent) (shown addr List.mem_cons_self)
          | cons second rest =>
              have full := no_frame_left bound clear last
              unfold growHeap at done
              rcases take_frame_cases marked.zero with ⟨other, _, low, unused, _⟩ | ⟨_, none⟩
              · exact absurd (full other low) unused
              · rw [none] at done
                exact absurd (Prod.mk.inj done).1 Bool.false_ne_true
      · rw [run] at done
        exact absurd (Prod.mk.inj done).1 Bool.false_ne_true

theorem grow_heap_keeps (space : DirectSpace m pd) (pages : List Nat)
    (user : ∀ a ∈ pages, a / tableSpan < userEntries) :
    DirectSpace (growHeap (pd * frameSize) pages m).2 pd ∧
      ∀ frame, m.Used frame → (growHeap (pd * frameSize) pages m).2.Used frame := by
  induction pages generalizing m with
  | nil => exact ⟨space, fun _ used => used⟩
  | cons addr rest ih =>
      unfold growHeap
      rcases take_frame_cases space.zero with ⟨taken, positive, bound, _, _, run⟩ | ⟨_, run⟩
      · have marked := direct_mark space bound
        have outcome := map_user_page_outcome marked.zero pd addr (taken * frameSize) userFlags
        obtain ⟨final, kept⟩ := ih (direct_map marked (user addr List.mem_cons_self) outcome)
          fun a member => user a (List.mem_cons_of_mem _ member)
        rw [run]
        simp only [if_neg (frame_address positive).1]
        refine ⟨final, fun frame used => kept frame (map_keeps_used outcome ?_)⟩
        exact (MemoryState.used_mark _ _ bound frame).2 (.inl used)
      · rw [run]
        exact ⟨space, fun _ used => used⟩

theorem grow_heap_takes (space : DirectSpace m pd) {pages : List Nat} (nonempty : pages ≠ [])
    (user : ∀ a ∈ pages, a / tableSpan < userEntries) (some : getFreeFrames m.pmm ≠ 0) :
    ∃ frame, ¬ m.Used frame ∧ (growHeap (pd * frameSize) pages m).2.Used frame := by
  obtain ⟨addr, rest, rfl⟩ := List.exists_cons_of_ne_nil nonempty
  rcases take_frame_cases space.zero with ⟨frame, positive, bound, clear, _, run⟩ | ⟨full, _⟩
  · have marked := direct_mark space bound
    have outcome := map_user_page_outcome marked.zero pd addr (frame * frameSize) userFlags
    refine ⟨frame, clear, ?_⟩
    unfold growHeap
    rw [run]
    simp only [if_neg (frame_address positive).1]
    apply (grow_heap_keeps (direct_map marked (user addr List.mem_cons_self) outcome) rest
      fun a member => user a (List.mem_cons_of_mem _ member)).2
    exact map_keeps_used outcome ((MemoryState.used_mark _ _ bound frame).2 (.inr rfl))
  · exact absurd (exhausted_iff.1 full) some

theorem grow_heap_exhausted (space : DirectSpace m pd) {pages : List Nat} (nonempty : pages ≠ [])
    (none : getFreeFrames m.pmm = 0) : growHeap (pd * frameSize) pages m = (false, m) := by
  obtain ⟨addr, rest, rfl⟩ := List.exists_cons_of_ne_nil nonempty
  rcases take_frame_cases space.zero with ⟨frame, _, bound, clear, _⟩ | ⟨_, run⟩
  · exact absurd (exhausted_iff.2 none frame bound) clear
  · unfold growHeap
    rw [run]
    simp only [if_true]

end Pages

section Breaks

variable {increment newBreak : Nat} {p : UserProcess}

/-- What `sbrk` has checked when it starts to allocate. -/
theorem accepted_break_bounds (word : p.heapBreak < 4294967296) (argument : increment < 4294967296)
    (accepted : acceptedBreak increment p = some newBreak) :
    increment ≠ 0 ∧ newBreak % frameSize = 0 ∧ p.heapBreak + increment ≤ newBreak ∧
      newBreak ≤ userStackPage := by
  obtain ⟨started, some, sum, rfl, rounded, top⟩ := accepted_break_checked accepted
  refine ⟨some, Nat.mul_mod_left _ _, ?_, top⟩
  unfold u32 frameSize at *
  omega

theorem mem_heap_pages {oldBreak a : Nat} (aligned : oldBreak % frameSize = 0) :
    a ∈ heapPages oldBreak newBreak ↔
      ∃ page, a = page * frameSize ∧ oldBreak ≤ a ∧ a < newBreak := by
  constructor
  · intro member
    have high := heap_pages_range a member
    obtain ⟨i, _, rfl⟩ := List.mem_map.1 member
    refine ⟨oldBreak / frameSize + i, ?_, Nat.le_add_right _ _, high⟩
    unfold frameSize at aligned ⊢
    omega
  · rintro ⟨page, rfl, low, high⟩
    apply List.mem_map.2
    refine ⟨page - oldBreak / frameSize, List.mem_range.2 ?_, ?_⟩
    · unfold frameSize at *
      omega
    · unfold frameSize at *
      omega

theorem heap_pages_nonempty (word : p.heapBreak < 4294967296)
    (aligned : p.heapBreak % frameSize = 0) (argument : increment < 4294967296)
    (accepted : acceptedBreak increment p = some newBreak) :
    heapPages p.heapBreak newBreak ≠ [] := by
  obtain ⟨some, _, enough, _⟩ := accepted_break_bounds word argument accepted
  apply List.ne_nil_of_mem (a := p.heapBreak)
  refine (mem_heap_pages aligned).2 ⟨p.heapBreak / frameSize, ?_, le_rfl, by omega⟩
  unfold frameSize at aligned ⊢
  omega

theorem sbrk_refused (refused : acceptedBreak increment p = none) (m : MemoryState) :
    sbrk increment p m = (if increment = 0 then p.heapBreak else 0, p, m) := by
  unfold sbrk
  rw [refused]

theorem sbrk_accepted (accepted : acceptedBreak increment p = some newBreak) (m : MemoryState) :
    sbrk increment p m = match growHeap p.pageDirectory (heapPages p.heapBreak newBreak) m with
      | (false, m) => (0, p, m)
      | (true, m) => (p.heapBreak, { p with heapBreak := newBreak }, m) := by
  cases grown : growHeap p.pageDirectory (heapPages p.heapBreak newBreak) m with
  | mk ok after =>
      cases ok with
      | false => simp only [sbrk, accepted, grown]
      | true => simp only [sbrk, accepted, grown]

end Breaks

section Atomicity

variable {m : MemoryState} {pd increment : Nat} {p : UserProcess}

theorem unchanged_refl (m : MemoryState) (pd : Nat) : Unchanged m m pd :=
  ⟨fun _ => rfl, fun _ => Iff.rfl⟩

theorem grown_of_placed {oldBreak newBreak : Nat} {after : MemoryState}
    (aligned : oldBreak % frameSize = 0) (top : newBreak ≤ userStackPage)
    (placed : Placed m after pd (heapPages oldBreak newBreak)) :
    Grown m after pd oldBreak newBreak := by
  have pages : ∀ page, oldBreak ≤ page * frameSize → page * frameSize < newBreak →
      page * frameSize ∈ heapPages oldBreak newBreak := fun page low high =>
    (mem_heap_pages aligned).2 ⟨page, rfl, low, high⟩
  constructor
  · intro page low high
    obtain ⟨frame, positive, bound, clear, _, entry⟩ := placed.mapped _ (pages page low high)
    have reached : translation after (after.words pd) (page * frameSize) =
        makeEntry (frame * frameSize) userFlags := entry
    have table := table_of_user_entry (entry ▸ make_entry_user (frame * frameSize))
    have directory := placed.space.flags _ (user_page (high.le.trans top)) table
    unfold ReachesNew
    rw [reached, frame_of_entry positive]
    exact ⟨directory, make_entry_user _, bound, clear⟩
  · intro page other low high low' high' same
    exact frame_address_injective (List.inj_on_of_nodup_map placed.once (pages page low high)
      (pages other low' high') same)

theorem sbrk_partial (directory : p.pageDirectory = pd * frameSize) (space : DirectSpace m pd)
    (nonzero : p.heapBreak ≠ 0) (aligned : p.heapBreak % frameSize = 0)
    (word : p.heapBreak < 4294967296) (argument : increment < 4294967296) {newBreak : Nat}
    (accepted : acceptedBreak increment p = some newBreak) (some : getFreeFrames m.pmm ≠ 0)
    (few : getFreeFrames m.pmm < frameDemand (hasTable m pd) (heapPages p.heapBreak newBreak)) :
    ¬ AllOrNothing increment p m := by
  obtain ⟨moves, _, _, top⟩ := accepted_break_bounds word argument accepted
  have user : ∀ a ∈ heapPages p.heapBreak newBreak, a / tableSpan < userEntries :=
    fun a member => user_page ((heap_pages_range a member).le.trans top)
  unfold AllOrNothing
  rw [sbrk_accepted accepted, directory, frame_of_address]
  intro holds
  rcases run : growHeap (pd * frameSize) (heapPages p.heapBreak newBreak) m with ⟨_ | _, after⟩
  · -- the frames ran out: what was taken is still marked
    rw [run] at holds
    obtain ⟨_, _, bitmap⟩ := holds.2 rfl
    have nonempty := heap_pages_nonempty word aligned argument accepted
    obtain ⟨frame, clear, used⟩ := grow_heap_takes space nonempty user some
    rw [run] at used
    exact clear ((bitmap frame).1 used)
  · -- the last frame went to a page without a table
    rw [run] at holds
    obtain ⟨grown, _⟩ := holds.1 nonzero moves
    apply Nat.not_le.2 few
    apply grow_heap_demand space _ user run
    intro a member absent
    obtain ⟨page, rfl, low, high⟩ := (mem_heap_pages aligned).1 member
    have flags : translation after (after.words pd) (page * frameSize) % 8 = 7 :=
      (grown.reached page low high).2.1
    have zero : translation after (after.words pd) (page * frameSize) = 0 := absent
    rw [zero] at flags
    exact absurd flags (by decide)

/-- A process with an aligned heap break, whose page tables and free frames the direct map
reaches, gets its pages or keeps everything exactly when the break is refused, or no frame is
free, or there is one for each page and each missing page table. -/
theorem sbrk_all_or_nothing_iff (directory : p.pageDirectory = pd * frameSize)
    (space : DirectSpace m pd) (nonzero : p.heapBreak ≠ 0) (aligned : p.heapBreak % frameSize = 0)
    (word : p.heapBreak < 4294967296) (argument : increment < 4294967296) :
    AllOrNothing increment p m ↔ ∀ newBreak, acceptedBreak increment p = some newBreak →
      getFreeFrames m.pmm = 0 ∨
        frameDemand (hasTable m pd) (heapPages p.heapBreak newBreak) ≤ getFreeFrames m.pmm := by
  constructor
  · intro holds newBreak accepted
    by_contra short
    rw [not_or, Nat.not_le] at short
    exact sbrk_partial directory space nonzero aligned word argument accepted short.1 short.2 holds
  · intro condition
    unfold AllOrNothing
    rw [directory, frame_of_address]
    rcases accepted : acceptedBreak increment p with _ | newBreak
    · rw [sbrk_refused accepted]
      refine ⟨fun answered moves => absurd (if_neg moves) answered, ?_⟩
      exact fun _ => ⟨rfl, unchanged_refl m pd⟩
    · obtain ⟨_, rounded, enough, top⟩ := accepted_break_bounds word argument accepted
      rw [sbrk_accepted accepted, directory]
      rcases condition newBreak accepted with none | served
      · have nonempty := heap_pages_nonempty word aligned argument accepted
        rw [grow_heap_exhausted space nonempty none]
        exact ⟨fun impossible => absurd rfl impossible, fun _ => ⟨rfl, unchanged_refl m pd⟩⟩
      · have user : ∀ a ∈ heapPages p.heapBreak newBreak, a / tableSpan < userEntries :=
          fun a member => user_page ((heap_pages_range a member).le.trans top)
        obtain ⟨after, run, placed⟩ := grow_heap_placed space _ user (heap_pages_apart _ _) served
        rw [run]
        refine ⟨fun _ _ => ⟨grown_of_placed aligned top placed, rounded, enough, top⟩, ?_⟩
        exact fun impossible => absurd impossible nonzero

end Atomicity

section Life

variable {pd : Nat} {s s' : Life}

theorem map_device_pages_direct {m : MemoryState} (space : DirectSpace m pd)
    (pages : List (Nat × Nat)) (user : ∀ page ∈ pages, page.1 / tableSpan < userEntries) :
    DirectSpace (mapDevicePages (pd * frameSize) pages m) pd := by
  induction pages generalizing m with
  | nil => exact space
  | cons page rest ih =>
      have outcome := map_user_page_outcome space.zero pd page.1 page.2 userFlags
      exact ih (direct_map space (user page List.mem_cons_self) outcome)
        fun p member => user p (List.mem_cons_of_mem _ member)

theorem direct_step (directory : s.process.pageDirectory = pd * frameSize)
    (space : DirectSpace s.memory pd) {call : Call} (next : step s call = some s') :
    s'.process.pageDirectory = pd * frameSize ∧ DirectSpace s'.memory pd := by
  obtain rfl : perform s call = s' := Option.some.inj next
  cases call with
  | sbrk increment =>
      obtain ⟨same, _, memory⟩ := sbrk_outcome increment s.process s.memory
      refine ⟨same.trans directory, ?_⟩
      change DirectSpace (sbrk increment s.process s.memory).2.2 pd
      rcases memory with unchanged | ⟨newBreak, accepted, grown⟩
      · rw [unchanged]
        exact space
      · have top := accepted_break_le accepted
        rw [grown, directory]
        exact (grow_heap_keeps space _ fun a member =>
          user_page ((heap_pages_range a member).le.trans top)).1
  | mapDevice physical virt pages =>
      refine ⟨directory, ?_⟩
      unfold perform mapDevice
      dsimp only
      split
      · next accepted =>
        rw [directory]
        exact map_device_pages_direct space _ (device_pages_range_mem (device_pages_range accepted))
      · exact space

/-- Whatever a process calls, its page tables stay in use, apart and in the direct map. -/
theorem direct_life {admits : Life → Call → Prop} (run : Run step admits s s')
    (directory : s.process.pageDirectory = pd * frameSize) (space : DirectSpace s.memory pd) :
    s'.process.pageDirectory = pd * frameSize ∧ DirectSpace s'.memory pd := by
  apply run.invariant (fun s => s.process.pageDirectory = pd * frameSize ∧ DirectSpace s.memory pd)
    ⟨directory, space⟩
  intro s call s' held _ next
  exact direct_step held.1 held.2 next

end Life

section Examples

open CassiOS.Kernel.LoaderSafety

def emptySpace : MemoryState := (createAddressSpace smallMachine).2

def emptyProcess : UserProcess := ⟨256 * frameSize, 0, 0x00700000, 0x00700000⟩

theorem clear_empty_space : ∀ frame, 257 ≤ frame → frame < 264 → ¬ emptySpace.Used frame := by
  have listed : ∀ frame ∈ List.range' 257 7, ¬ emptySpace.Used frame := by decide +kernel
  intro frame low high
  exact listed frame (List.mem_range'_1.2 ⟨low, high⟩)

theorem empty_space_created :
    createAddressSpace smallMachine = (256 * frameSize, emptySpace) ∧
      ∀ frame, smallMachine.Used frame → emptySpace.Used frame := by
  have number : (createAddressSpace smallMachine).1 = 256 * frameSize := by decide +kernel
  refine ⟨Prod.ext number rfl, ?_⟩
  intro frame used
  rcases create_address_space_cases booted_small_machine.zeroUsed with
    ⟨new, _, bound, _, _, run⟩ | ⟨_, run⟩
  · have state : emptySpace = _ := congrArg Prod.snd run
    rw [state]
    exact (MemoryState.used_mark _ _ bound frame).2 (.inl used)
  · rw [run] at number
    exact absurd number (by decide)

theorem direct_empty_space : DirectSpace emptySpace 256 := by
  obtain ⟨created, grows⟩ := empty_space_created
  have target := (target_of_create booted_small_machine created (by decide)).2
  rw [frame_of_address] at target
  refine ⟨space_of_empty target.zeroUsed target.used target.user, by decide, ?_, ?_⟩
  · intro i low here
    exact Bool.noConfusion ((target.user i low).symm.trans here)
  · exact fun frame bound clear =>
      booted_small_machine.direct frame bound fun used => clear (grows frame used)

/-- The small process grows its heap by three pages, which takes one page table. -/
theorem small_heap_grows : AllOrNothing (3 * 4096) emptyProcess emptySpace := by
  have directory : emptyProcess.pageDirectory = 256 * frameSize := rfl
  apply (sbrk_all_or_nothing_iff directory direct_empty_space (by decide) (by decide)
    (by decide) (by decide)).2
  intro newBreak accepted
  have value : acceptedBreak (3 * 4096) emptyProcess = some 0x00703000 := by decide
  obtain rfl := Option.some.inj (value.symm.trans accepted)
  have demand : frameDemand (hasTable emptySpace 256)
      (heapPages emptyProcess.heapBreak 0x00703000) = 4 := by decide +kernel
  right
  rw [demand]
  apply free_frames_length_le [257, 258, 259, 260] (by decide)
  intro frame member
  have range : 257 ≤ frame ∧ frame < 261 := by
    simp only [List.mem_cons, List.not_mem_nil, or_false] at member
    omega
  exact ⟨by unfold frameCount bitmapSize; omega, clear_empty_space frame range.1 (by omega)⟩

/-- Seven frames are left and sixteen pages asked for: `sbrk` fails and keeps the frames. -/
theorem small_heap_fails_halfway :
    DirectSpace emptySpace 256 ∧ ¬ AllOrNothing (16 * 4096) emptyProcess emptySpace := by
  refine ⟨direct_empty_space, ?_⟩
  have value : acceptedBreak (16 * 4096) emptyProcess = some 0x00710000 := by decide
  have demand : frameDemand (hasTable emptySpace 256)
      (heapPages emptyProcess.heapBreak 0x00710000) = 17 := by decide +kernel
  have directory : emptyProcess.pageDirectory = 256 * frameSize := rfl
  apply sbrk_partial directory direct_empty_space (by decide) (by decide) (by decide) (by decide)
    value
  · intro none
    have full := exhausted_iff.2 none 257 (by decide)
    exact clear_empty_space 257 (by decide) (by decide) full
  · rw [demand]
    have few := free_frames_le_length (m := emptySpace) (List.range' 256 8) (by
      intro frame _ clear
      by_contra outside
      rw [List.mem_range'_1] at outside
      exact clear (empty_space_created.2 frame (used_small_machine (by omega))))
    exact few.trans_lt (by decide)

end Examples

end CassiOS.Kernel.HeapGrowth
