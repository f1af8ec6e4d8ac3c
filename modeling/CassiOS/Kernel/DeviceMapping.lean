import CassiOS.Kernel.FrameOwnership
import CassiOS.Memory.AddressSpaces

/-!
# Device ranges

`mapDevice` maps whole pages and reports success whatever becomes of them. The range asked
for is the range mapped when every missing page table finds a frame and the ends of the
range are page boundaries, or unaligned alike and mapped that way already.
-/

namespace CassiOS.Kernel.DeviceMapping

open CassiOS.Support.Words
open CassiOS.Support.TransitionSystem
open CassiOS.Memory.Physical
open CassiOS.Memory.Paging
open CassiOS.Memory.Ownership
open CassiOS.Memory.UserSpace
open CassiOS.Memory.AddressSpaces
open CassiOS.Kernel.ProcessMemory hiding step
open CassiOS.Kernel.FrameOwnership

set_option autoImplicit false

section Specification

/-- Address `a` translates to `target`, and both entries allow user programs to write. -/
structure Reaches (m : MemoryState) (pd a target : Nat) : Prop where
  table : m.words pd (a / tableSpan) % 8 = 7
  page : pageEntry m pd a % 8 = 7
  physical : frameOf (pageEntry m pd a) * frameSize + a % frameSize = target

/-- `size` bytes from `virt` reach those from `physical`, and no other translation changed. -/
structure RangeMapped (before after : MemoryState) (spaces : List Nat)
    (pd physical virt size : Nat) : Prop where
  reached : ∀ i, i < size → Reaches after pd (virt + i) (physical + i)
  outside : ∀ a, a < virt ∨ virt + size ≤ a → pageEntry after pd a = pageEntry before pd a
  elsewhere : ∀ other ∈ spaces, other ≠ pd → ∀ a,
    pageEntry after other a = pageEntry before other a
  kernel : ∀ a, kernelVbase ≤ a → translation after after.kernelDirectory a =
    translation before before.kernelDirectory a

/-- What `mapDevice` promises of its answer and the memory it leaves. -/
structure Exact (s : Spaces) (pd physical virt pages : Nat) (answer : Int × MemoryState) :
    Prop where
  success : answer.1 = 0 →
    RangeMapped s.memory answer.2 s.spaces pd physical virt (pages * frameSize)
  failure : answer.1 = -1 → answer.2 = s.memory

/-- Whole pages are what was asked for: the range starts at page boundaries, or its two ends
lie in pages that are mapped as asked already. -/
def EndsFit (m : MemoryState) (pd physical virt size : Nat) : Prop :=
  virt % frameSize = physical % frameSize ∧
    (virt % frameSize = 0 ∨
      pageEntry m pd virt = makeEntry physical userFlags ∧
        Reaches m pd (virt + (size - 1)) (physical + (size - 1)))

/-- The addresses of the pages `mapDevice` maps. -/
def deviceAddresses (physical virt pages : Nat) : List Nat :=
  (devicePages physical virt pages).map Prod.fst

end Specification

section Pages

variable {s : Spaces} {pd : Nat}

/-- The frames and translations a list of pages leaves alone. -/
structure Left (s : Spaces) (pd : Nat) (pages : List (Nat × Nat)) (next : MemoryState) :
    Prop where
  separate : Separate { s with memory := next }
  others : ∀ a, (∀ page ∈ pages, a / frameSize ≠ page.1 / frameSize) →
    pageEntry next pd a = pageEntry s.memory pd a
  elsewhere : ∀ other ∈ s.spaces, other ≠ pd → ∀ a,
    pageEntry next other a = pageEntry s.memory other a
  kernel : ∀ a, kernelVbase ≤ a → translation next next.kernelDirectory a =
    translation s.memory s.memory.kernelDirectory a

theorem pages_left (separate : Separate s) (member : pd ∈ s.spaces) (pages : List (Nat × Nat))
    (user : ∀ page ∈ pages, page.1 / tableSpan < userEntries) :
    Left s pd pages (mapDevicePages (pd * frameSize) pages s.memory) := by
  induction pages generalizing s with
  | nil => exact ⟨separate, fun _ _ => rfl, fun _ _ _ _ => rfl, fun _ _ => rfl⟩
  | cons page rest ih =>
      have low := user page List.mem_cons_self
      have outcome := map_user_page_outcome separate.zero pd page.1 page.2 userFlags
      have onward := @ih
        { s with memory := mapUserPage (pd * frameSize) page.1 page.2 userFlags s.memory }
        (separate_map separate member low outcome).1 member
        fun p inside => user p (List.mem_cons_of_mem _ inside)
      constructor
      · exact onward.separate
      · intro a apart
        exact (onward.others a fun p inside => apart p (List.mem_cons_of_mem _ inside)).trans
          (translation_own separate member low outcome (apart page List.mem_cons_self))
      · intro other member' different a
        exact (onward.elsewhere other member' different a).trans
          (translation_elsewhere separate member low outcome member' different a)
      · intro a high
        exact (onward.kernel a high).trans (translation_kernel separate member low outcome high)

theorem tables_kept (separate : Separate s) (member : pd ∈ s.spaces) (pages : List (Nat × Nat))
    (user : ∀ page ∈ pages, page.1 / tableSpan < userEntries)
    (none : getFreeFrames s.memory.pmm = 0) :
    hasTable (mapDevicePages (pd * frameSize) pages s.memory) pd = hasTable s.memory pd := by
  induction pages generalizing s with
  | nil => rfl
  | cons page rest ih =>
      have low := user page List.mem_cons_self
      have space := separate.space pd member
      have outcome := map_user_page_outcome separate.zero pd page.1 page.2 userFlags
      have onward := @ih
        { s with memory := mapUserPage (pd * frameSize) page.1 page.2 userFlags s.memory }
        (separate_map separate member low outcome).1 member
        fun p inside => user p (List.mem_cons_of_mem _ inside)
      rcases map_budget outcome space.directory fun table => (space.used _ low table).2.symm with
        ⟨_, free, after⟩ | ⟨_, some, _⟩ | ⟨_, _, stays⟩
      · exact (onward (free.trans none)).trans (funext after)
      · exact absurd none some
      · dsimp only at onward
        rw [stays] at onward
        change hasTable (mapDevicePages (pd * frameSize) rest
          (mapUserPage (pd * frameSize) page.1 page.2 userFlags s.memory)) pd = _
        rw [stays]
        exact onward none

theorem pages_mapped (separate : Separate s) (member : pd ∈ s.spaces) (pages : List (Nat × Nat))
    (user : ∀ page ∈ pages, page.1 / tableSpan < userEntries)
    (apart : pages.Pairwise fun a b => a.1 / frameSize ≠ b.1 / frameSize)
    (enough : missingTables (hasTable s.memory pd) (pages.map Prod.fst) ≤
      getFreeFrames s.memory.pmm) :
    ∀ page ∈ pages, pageEntry (mapDevicePages (pd * frameSize) pages s.memory) pd page.1 =
      makeEntry page.2 userFlags := by
  induction pages generalizing s with
  | nil => exact nofun
  | cons page rest ih =>
      have low := user page List.mem_cons_self
      have restUser := fun p inside => user p (List.mem_cons_of_mem _ inside)
      have space := separate.space pd member
      have outcome := map_user_page_outcome separate.zero pd page.1 page.2 userFlags
      have separate' := (separate_map separate member low outcome).1
      obtain ⟨first, others⟩ := List.pairwise_cons.1 apart
      have served : (present (s.memory.words pd (page.1 / tableSpan)) = true ∨
          ¬ Exhausted s.memory) ∧
          missingTables (hasTable (mapUserPage (pd * frameSize) page.1 page.2 userFlags s.memory)
            pd) (rest.map Prod.fst) ≤
          getFreeFrames (mapUserPage (pd * frameSize) page.1 page.2 userFlags s.memory).pmm := by
        rw [List.map_cons] at enough
        rcases map_budget outcome space.directory fun table =>
          (space.used _ low table).2.symm with
            ⟨table, free, after⟩ | ⟨absent, some, free, after⟩ | ⟨absent, none, _⟩
        · rw [missing_tables_served table] at enough
          rw [free, show hasTable _ pd = hasTable s.memory pd from funext after]
          exact ⟨.inl table, enough⟩
        · rw [missing_tables_added absent] at enough
          rw [free, show hasTable _ pd =
            fun i => decide (i = page.1 / tableSpan) || hasTable s.memory pd i from funext after]
          exact ⟨.inr fun full => some (exhausted_iff.1 full), Nat.le_sub_one_of_lt enough⟩
        · rw [missing_tables_added absent, none] at enough
          omega
      intro p inside
      rcases List.mem_cons.1 inside with rfl | later
      · have stays := (pages_left separate' member rest restUser).others p.1 first
        exact stays.trans (entry_mapped space.toTables low outcome served.1)
      · exact @ih { s with memory := mapUserPage (pd * frameSize) page.1 page.2 userFlags s.memory }
          separate' member restUser others served.2 p later

/-- When every page has its table in the end, the missing ones found frames. -/
theorem frames_sufficed (separate : Separate s) (member : pd ∈ s.spaces) (pages : List (Nat × Nat))
    (user : ∀ page ∈ pages, page.1 / tableSpan < userEntries)
    (served : ∀ page ∈ pages, hasTable (mapDevicePages (pd * frameSize) pages s.memory) pd
      (page.1 / tableSpan) = true) :
    missingTables (hasTable s.memory pd) (pages.map Prod.fst) ≤ getFreeFrames s.memory.pmm := by
  induction pages generalizing s with
  | nil => exact Nat.zero_le _
  | cons page rest ih =>
      have low := user page List.mem_cons_self
      have restUser := fun p inside => user p (List.mem_cons_of_mem _ inside)
      have space := separate.space pd member
      have outcome := map_user_page_outcome separate.zero pd page.1 page.2 userFlags
      have onward := @ih
        { s with memory := mapUserPage (pd * frameSize) page.1 page.2 userFlags s.memory }
        (separate_map separate member low outcome).1 member restUser
        fun p inside => served p (List.mem_cons_of_mem _ inside)
      rw [List.map_cons]
      rcases map_budget outcome space.directory fun table =>
        (space.used _ low table).2.symm with
          ⟨table, free, after⟩ | ⟨absent, some, free, after⟩ | ⟨absent, none, _⟩
      · rw [missing_tables_served table]
        dsimp only at onward
        rw [free, show hasTable _ pd = hasTable s.memory pd from funext after] at onward
        exact onward
      · rw [missing_tables_added absent]
        dsimp only at onward
        rw [free, show hasTable _ pd =
          fun i => decide (i = page.1 / tableSpan) || hasTable s.memory pd i from
            funext after] at onward
        omega
      · have same := served page List.mem_cons_self
        rw [tables_kept separate member (page :: rest) user none] at same
        exact absurd (absent.symm.trans same) Bool.noConfusion

end Pages

section Range

variable {s : Spaces} {pd physical virt pages : Nat}

theorem device_accepted {p : UserProcess} (accepted : deviceAccepted physical virt pages p = true) :
    0 < pages ∧ virt + pages * frameSize ≤ kernelVbase ∧
      physical + pages * frameSize < 4294967296 := by
  have low := device_pages_range accepted
  unfold deviceAccepted at accepted
  simp only [Bool.and_eq_true, Bool.not_eq_true', Bool.or_eq_false_iff, decide_eq_false_iff_not,
    beq_eq_false_iff_ne] at accepted
  obtain ⟨⟨⟨_, some, few⟩, wraps⟩, _⟩ := accepted
  refine ⟨Nat.pos_of_ne_zero some, low, ?_⟩
  unfold u32 at wraps
  unfold frameSize
  omega

/-- Inside an accepted range no address wraps. -/
theorem device_pages_eq (low : virt + pages * frameSize ≤ kernelVbase)
    (fits : physical + pages * frameSize < 4294967296) :
    devicePages physical virt pages =
      (List.range pages).map fun i => (virt + i * frameSize, physical + i * frameSize) := by
  apply List.map_congr_left
  intro i inside
  have few := List.mem_range.1 inside
  unfold frameSize kernelVbase at *
  simp only [u32, Prod.mk.injEq]
  omega

/-- The pages of the range are in place in `next`. -/
structure Placed (s : Spaces) (pd physical virt pages : Nat) (next : MemoryState) : Prop where
  inside : ∀ a, virt / frameSize ≤ a / frameSize → a / frameSize < virt / frameSize + pages →
    pageEntry next pd a =
      makeEntry (physical + (a / frameSize - virt / frameSize) * frameSize) userFlags
  outside : ∀ a, a / frameSize < virt / frameSize ∨ virt / frameSize + pages ≤ a / frameSize →
    pageEntry next pd a = pageEntry s.memory pd a

theorem pages_placed (low : virt + pages * frameSize ≤ kernelVbase)
    (fits : physical + pages * frameSize < 4294967296) {next : MemoryState}
    (left : Left s pd (devicePages physical virt pages) next)
    (mapped : ∀ page ∈ devicePages physical virt pages,
      pageEntry next pd page.1 = makeEntry page.2 userFlags) :
    Placed s pd physical virt pages next := by
  rw [device_pages_eq low fits] at left mapped
  constructor
  · intro a from' below
    let k := a / frameSize - virt / frameSize
    have here := mapped (virt + k * frameSize, physical + k * frameSize)
      (List.mem_map.2 ⟨k, List.mem_range.2 (by omega), rfl⟩)
    rw [← here]
    apply page_entry_congr
    unfold k frameSize
    unfold frameSize at from'
    omega
  · intro a apart
    apply left.others
    intro page member
    obtain ⟨i, inside, rfl⟩ := List.mem_map.1 member
    have few := List.mem_range.1 inside
    unfold frameSize at apart ⊢
    omega

/-- An address of a placed page reaches its target when both are unaligned alike. -/
theorem reaches_inside {next : MemoryState} (separate : Separate { s with memory := next })
    (member : pd ∈ s.spaces) (low : virt + pages * frameSize ≤ kernelVbase)
    (placed : Placed s pd physical virt pages next)
    (alike : virt % frameSize = physical % frameSize) {i : Nat} (inside : i < pages * frameSize)
    (covered : (virt + i) / frameSize < virt / frameSize + pages) :
    Reaches next pd (virt + i) (physical + i) := by
  have entry := placed.inside (virt + i) (Nat.div_le_div_right (Nat.le_add_right _ _)) covered
  have page : pageEntry next pd (virt + i) % 8 = 7 := by
    rw [entry]
    exact make_entry_user _
  refine ⟨?_, page, ?_⟩
  · apply (separate.space pd member).flags _ _ (table_of_user_entry page)
    exact user_address (by omega)
  · rw [entry, frame_of_make_entry]
    unfold frameSize at *
    omega

theorem reaches_shift {m : MemoryState} {a target d : Nat}
    (same : (a + d) / frameSize = a / frameSize) (reaches : Reaches m pd (a + d) (target + d)) :
    Reaches m pd a target := by
  have entry : pageEntry m pd a = pageEntry m pd (a + d) := page_entry_congr same.symm
  have table : a / tableSpan = (a + d) / tableSpan := by
    unfold frameSize at same
    unfold tableSpan
    omega
  constructor
  · rw [table]
    exact reaches.table
  · rw [entry]
    exact reaches.page
  · have there := reaches.physical
    rw [← entry] at there
    unfold frameSize at *
    omega

end Range

section Exactness

variable {s : Spaces} {pd physical virt pages : Nat}

theorem reaches_congr {m next : MemoryState} (space : Space next pd) {a target : Nat}
    (user : a < kernelVbase) (same : pageEntry next pd a = pageEntry m pd a)
    (reaches : Reaches m pd a target) : Reaches next pd a target := by
  have page : pageEntry next pd a % 8 = 7 := by
    rw [same]
    exact reaches.page
  refine ⟨space.flags _ (user_address user) (table_of_user_entry page), page, ?_⟩
  rw [same]
  exact reaches.physical

theorem range_mapped {next : MemoryState} (member : pd ∈ s.spaces) (some : 0 < pages)
    (low : virt + pages * frameSize ≤ kernelVbase)
    (left : Left s pd (devicePages physical virt pages) next)
    (placed : Placed s pd physical virt pages next)
    (ends : EndsFit s.memory pd physical virt (pages * frameSize)) :
    RangeMapped s.memory next s.spaces pd physical virt (pages * frameSize) := by
  obtain ⟨alike, aligned⟩ := ends
  constructor
  · intro i inside
    rcases Nat.lt_or_ge ((virt + i) / frameSize) (virt / frameSize + pages) with covered | beyond
    · exact reaches_inside left.separate member low placed alike inside covered
    · -- the page of the last address, which is mapped already
      rcases aligned with zero | ⟨_, last⟩
      · unfold frameSize at zero beyond inside
        omega
      · have user : virt + (pages * frameSize - 1) < kernelVbase := by omega
        have page : (virt + (pages * frameSize - 1)) / frameSize = (virt + i) / frameSize := by
          unfold frameSize at *
          omega
        have kept := reaches_congr (left.separate.space pd member) user
          (placed.outside _ (.inr (by rw [page]; exact beyond))) last
        have distance : pages * frameSize - 1 = i + (pages * frameSize - 1 - i) := by omega
        rw [distance, ← Nat.add_assoc] at page
        rw [distance, ← Nat.add_assoc, ← Nat.add_assoc] at kept
        exact reaches_shift page kept
  · intro a apart
    by_cases own : a / frameSize = virt / frameSize
    · -- the part of the first page below the range
      rcases aligned with zero | ⟨first, _⟩
      · unfold frameSize at zero own apart
        omega
      · rw [placed.inside a own.ge (by omega), own, Nat.sub_self, Nat.zero_mul, Nat.add_zero,
          ← first]
        exact page_entry_congr own.symm
    · apply placed.outside
      unfold frameSize at *
      omega
  · exact left.elsewhere
  · exact left.kernel

theorem ends_fit {next : MemoryState} (separate : Separate s) (member : pd ∈ s.spaces)
    (some : 0 < pages) (low : virt + pages * frameSize ≤ kernelVbase)
    (placed : Placed s pd physical virt pages next)
    (mapped : RangeMapped s.memory next s.spaces pd physical virt (pages * frameSize)) :
    EndsFit s.memory pd physical virt (pages * frameSize) := by
  have positive : 0 < pages * frameSize := Nat.mul_pos some (by decide)
  have first : pageEntry next pd virt = makeEntry physical userFlags := by
    rw [placed.inside virt le_rfl (by omega), Nat.sub_self, Nat.zero_mul, Nat.add_zero]
  have start := (mapped.reached 0 positive).physical
  rw [Nat.add_zero, Nat.add_zero, first, frame_of_make_entry] at start
  constructor
  · unfold frameSize at *
    omega
  · rcases Nat.eq_zero_or_pos (virt % frameSize) with zero | within
    · exact .inl zero
    · right
      -- the byte before the range lies in its first page
      have own : (virt - 1) / frameSize = virt / frameSize := by
        unfold frameSize at *
        omega
      constructor
      · rw [← first, ← @page_entry_congr s.memory pd _ _ own, ← @page_entry_congr next pd _ _ own]
        exact (mapped.outside (virt - 1) (.inl (by unfold frameSize at within; omega))).symm
      · apply reaches_congr (separate.space pd member) (by omega) _
          (mapped.reached (pages * frameSize - 1) (by omega))
        apply (placed.outside _ (.inr _)).symm
        unfold frameSize at *
        omega

/-- Where the direct map reaches the page tables and the free frames, `mapDevice` keeps its
promise exactly when the page tables it needs find frames and the ends of the range fit. -/
theorem map_device_exact_iff (direct : Direct s) (member : pd ∈ s.spaces) {p : UserProcess}
    (own : p.pageDirectory = pd * frameSize) (physical virt pages : Nat) :
    Exact s pd physical virt pages (mapDevice physical virt pages p s.memory) ↔
      (deviceAccepted physical virt pages p = true →
        missingTables (hasTable s.memory pd) (deviceAddresses physical virt pages) ≤
            getFreeFrames s.memory.pmm ∧
          EndsFit s.memory pd physical virt (pages * frameSize)) := by
  have separate := direct.toSeparate
  unfold mapDevice
  split
  · next accepted =>
    obtain ⟨some, low, fits⟩ := device_accepted accepted
    rw [own]
    have user := @device_pages_range_mem physical virt pages low
    have left := pages_left separate member _ user
    constructor
    · rintro ⟨success, _⟩ _
      have mapped := success rfl
      have enough := frames_sufficed separate member _ user (by
        intro page inside
        rw [device_pages_eq low fits] at inside
        obtain ⟨i, few, rfl⟩ := List.mem_map.1 inside
        have range : i * frameSize < pages * frameSize :=
          Nat.mul_lt_mul_of_pos_right (List.mem_range.1 few) (by decide)
        exact table_of_user_entry (mapped.reached _ range).page)
      have placed := pages_placed low fits left
        (pages_mapped separate member _ user (device_pages_apart low) enough)
      exact ⟨enough, ends_fit separate member some low placed mapped⟩
    · intro condition
      obtain ⟨enough, ends⟩ := condition accepted
      have placed := pages_placed low fits left
        (pages_mapped separate member _ user (device_pages_apart low) enough)
      exact ⟨fun _ => range_mapped member some low left placed ends,
        nofun⟩
  · next rejected =>
    constructor
    · exact fun _ accepted => absurd accepted rejected
    · exact fun _ => ⟨nofun, fun _ => rfl⟩

/-- A device page at the start of a 4 MiB span. -/
theorem device_page_exact :
    ∃ s, path step (atBoot sevenFrames) [.createAddressSpace] = some s ∧
      Exact s 1 0xFD000000 0x08000000 1
        (mapDevice 0xFD000000 0x08000000 1 ⟨1 * frameSize, 0, 0, 0⟩ s.memory) := by
  have reached : (path step (atBoot sevenFrames) [.createAddressSpace]).map
      (fun s => (s.spaces, decide (s.memory.Used 2))) = some ([1], false) := by decide +kernel
  obtain ⟨s, run, values⟩ := Option.map_eq_some_iff.1 reached
  obtain ⟨spaces, clear⟩ := Prod.mk.inj values
  have direct := reached_direct booted_seven_frames (run_of_path (fun _ _ _ => trivial) run)
  refine ⟨s, run, (map_device_exact_iff direct ?_ rfl 0xFD000000 0x08000000 1).2 ?_⟩
  · rw [spaces]
    exact List.mem_singleton.2 rfl
  · intro _
    have one : 1 ≤ getFreeFrames s.memory.pmm := free_frames_length_le [2] (by decide) (by
      intro frame member
      rw [List.mem_singleton.1 member]
      exact ⟨by decide, of_decide_eq_false clear⟩)
    exact ⟨(missing_tables_le _ _).trans one, by decide, .inl (by decide)⟩

/-- A range that starts in the middle of a physical page is mapped from the start of that page. -/
theorem unaligned_range_misplaced :
    ¬ ∀ s : Spaces, Direct s → ∀ pd ∈ s.spaces, ∀ p : UserProcess,
      p.pageDirectory = pd * frameSize → ∀ physical virt pages : Nat, physical < 2 ^ 32 →
        virt < 2 ^ 32 → pages < 2 ^ 32 →
          Exact s pd physical virt pages (mapDevice physical virt pages p s.memory) := by
  intro always
  have reached : (path step (atBoot sevenFrames) [.createAddressSpace]).map
      (fun s =>
        let answer := mapDevice 0xFD000800 0x08000000 1 ⟨1 * frameSize, 0, 0, 0⟩ s.memory
        (s.spaces, answer.1, frameOf (pageEntry answer.2 1 0x08000000))) =
          some ([1], 0, 0xFD000) := by decide +kernel
  obtain ⟨s, run, values⟩ := Option.map_eq_some_iff.1 reached
  simp only [Prod.mk.injEq] at values
  obtain ⟨spaces, success, frame⟩ := values
  have direct := reached_direct booted_seven_frames (run_of_path (fun _ _ _ => trivial) run)
  have exactly := always s direct 1 (by rw [spaces]; exact List.mem_singleton.2 rfl)
    ⟨1 * frameSize, 0, 0, 0⟩ rfl 0xFD000800 0x08000000 1 (by decide) (by decide) (by decide)
  have target := ((exactly.success success).reached 0 (by decide)).physical
  rw [Nat.add_zero, frame] at target
  exact absurd target (by decide)

end Exactness

end CassiOS.Kernel.DeviceMapping
