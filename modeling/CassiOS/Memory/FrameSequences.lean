import CassiOS.Memory.Physical
import CassiOS.Support.TransitionSystem

/-!
# Sequences of frame allocations

A user of the physical memory manager who keeps the addresses it was handed. It asks for
frames and gives back any it still holds; the manager it started from decides which frames
it can ever hold.
-/

namespace CassiOS.Memory.FrameSequences

open CassiOS.Support.TransitionSystem CassiOS.Memory.Physical

set_option autoImplicit false

/-- The manager and the addresses handed out and not given back. -/
structure FrameUser where
  pm : PhysicalMemoryManager
  outstanding : List Nat

inductive Request where
  | allocFrame
  | freeFrame (address : Nat)

/-- One call of the manager. Only a frame that is outstanding is freed. -/
def step (s : FrameUser) : Request → Option FrameUser
  | .allocFrame =>
      let (address, pm) := allocFrame s.pm
      -- the null pointer is no frame
      if address = 0 then some ⟨pm, s.outstanding⟩ else some ⟨pm, address :: s.outstanding⟩
  | .freeFrame address =>
      if address ∈ s.outstanding then
        some ⟨freeFrame address s.pm, s.outstanding.erase address⟩
      else none

def firstUse (pm : PhysicalMemoryManager) : FrameUser := ⟨pm, []⟩

/-- The frame at `address` was free in `initial`. -/
def FreeAt (initial : Bitmap) (address : Nat) : Prop :=
  ∃ frame, frame < frameCount ∧ address = frame * frameSize ∧ ¬ Used initial frame

/-- What any sequence of calls keeps, from a manager with the bitmap `initial`. -/
structure Sound (initial : Bitmap) (s : FrameUser) : Prop where
  distinct : s.outstanding.Nodup
  wereFree : ∀ address ∈ s.outstanding, FreeAt initial address
  bits : ∀ frame, frame < frameCount →
    (Used s.pm.bitmap frame ↔ Used initial frame ∨ frame * frameSize ∈ s.outstanding)

section Steps

variable {initial : Bitmap} {s s' : FrameUser}

theorem first_use_sound (pm : PhysicalMemoryManager) : Sound pm.bitmap (firstUse pm) := by
  constructor
  · exact List.nodup_nil
  · intro address member
    simp [firstUse] at member
  · intro frame _
    simp [firstUse]

/-- What a call for a frame leaves: the lowest clear frame joins those held, or the bitmap
is full and nothing changes. -/
theorem step_alloc_cases (sound : Sound initial s) (reserved : Used initial 0)
    (next : step s .allocFrame = some s') :
    (∃ frame, frame < frameCount ∧ ¬ Used s.pm.bitmap frame ∧
        (∀ other, other < frame → Used s.pm.bitmap other) ∧
        (allocFrame s.pm).1 = frame * frameSize ∧ frame * frameSize ≠ 0 ∧
        s' = ⟨{ s.pm with bitmap := markUsed s.pm.bitmap frame },
          frame * frameSize :: s.outstanding⟩) ∨
      ((∀ frame, frame < frameCount → Used s.pm.bitmap frame) ∧ (allocFrame s.pm).1 = 0 ∧
        s' = s) := by
  rcases alloc_frame_cases s.pm with ⟨frame, bound, clear, lowest, result⟩ | ⟨full, result⟩
  · left
    have first : Used s.pm.bitmap 0 := (sound.bits 0 (by decide)).2 (Or.inl reserved)
    have nonzero : frame ≠ 0 := by
      intro zero
      rw [zero] at clear
      exact clear first
    have address : frame * frameSize ≠ 0 := by
      unfold frameSize
      omega
    simp only [step, result, if_neg address, Option.some.injEq] at next
    exact ⟨frame, bound, clear, lowest, by rw [result], address, next.symm⟩
  · right
    simp only [step, result, if_true, Option.some.injEq] at next
    exact ⟨full, by rw [result], next.symm⟩

theorem step_free_cases {address : Nat} (next : step s (.freeFrame address) = some s') :
    address ∈ s.outstanding ∧
      s' = ⟨freeFrame address s.pm, s.outstanding.erase address⟩ := by
  by_cases held : address ∈ s.outstanding
  · simp only [step, if_pos held, Option.some.injEq] at next
    exact ⟨held, next.symm⟩
  · simp only [step, if_neg held] at next
    cases next

theorem alloc_sound (sound : Sound initial s) (reserved : Used initial 0)
    (next : step s .allocFrame = some s') : Sound initial s' := by
  rcases step_alloc_cases sound reserved next with
    ⟨frame, bound, clear, _, _, _, rfl⟩ | ⟨_, _, rfl⟩
  · have split := (not_congr (sound.bits frame bound)).1 clear
    rw [not_or] at split
    obtain ⟨wasFree, fresh⟩ := split
    constructor
    · exact List.nodup_cons.2 ⟨fresh, sound.distinct⟩
    · intro address member
      rcases List.mem_cons.1 member with rfl | older
      · exact ⟨frame, bound, rfl, wasFree⟩
      · exact sound.wereFree address older
    · intro other inside
      have here : other * frameSize = frame * frameSize ↔ other = frame :=
        ⟨frame_address_injective, fun equal => by rw [equal]⟩
      simp only [used_mark_used _ _ _ bound, sound.bits other inside, List.mem_cons, here]
      rw [or_assoc]
      exact or_congr_right or_comm
  · exact sound

theorem free_sound {address : Nat} (sound : Sound initial s)
    (next : step s (.freeFrame address) = some s') : Sound initial s' := by
  obtain ⟨held, rfl⟩ := step_free_cases next
  obtain ⟨frame, bound, rfl, wasFree⟩ := sound.wereFree _ held
  constructor
  · exact sound.distinct.erase _
  · intro address member
    exact sound.wereFree address (List.mem_of_mem_erase member)
  · intro other inside
    have here : other * frameSize ≠ frame * frameSize ↔ other ≠ frame :=
      not_congr ⟨frame_address_injective, fun equal => by rw [equal]⟩
    simp only [freeFrame, frame_of_address, used_mark_free _ _ _ bound, sound.bits other inside,
      sound.distinct.mem_erase_iff, here]
    constructor
    · rintro ⟨used | member, apart⟩
      · exact Or.inl used
      · exact Or.inr ⟨apart, member⟩
    · rintro (used | ⟨apart, member⟩)
      · exact ⟨Or.inl used, fun equal => wasFree (equal ▸ used)⟩
      · exact ⟨Or.inr member, apart⟩

theorem step_sound {request : Request} (sound : Sound initial s) (reserved : Used initial 0)
    (next : step s request = some s') : Sound initial s' := by
  cases request with
  | allocFrame => exact alloc_sound sound reserved next
  | freeFrame address => exact free_sound sound next

theorem run_sound {pm : PhysicalMemoryManager} (reserved : Used pm.bitmap 0)
    (run : Run step anyAction (firstUse pm) s) : Sound pm.bitmap s := by
  apply run.invariant (Sound pm.bitmap) (first_use_sound pm)
  intro t request t' sound _ next
  exact step_sound sound reserved next

end Steps

section Answers

variable {initial : Bitmap} {s : FrameUser}

/-- The null pointer is the answer exactly when no frame is clear. -/
theorem alloc_null_iff (sound : Sound initial s) (reserved : Used initial 0) :
    (allocFrame s.pm).1 = 0 ↔ ∀ frame, frame < frameCount → Used s.pm.bitmap frame := by
  have first : Used s.pm.bitmap 0 := (sound.bits 0 (by decide)).2 (Or.inl reserved)
  rcases alloc_frame_cases s.pm with ⟨frame, bound, clear, _, result⟩ | ⟨full, result⟩
  · rw [result]
    constructor
    · intro null
      have zero : frame = 0 := frame_address_injective (null.trans (Nat.zero_mul frameSize).symm)
      rw [zero] at clear
      exact absurd first clear
    · intro full
      exact absurd (full frame bound) clear
  · rw [result]
    exact ⟨fun _ => full, fun _ => rfl⟩

theorem step_alloc_total (s : FrameUser) : ∃ s', step s .allocFrame = some s' := by
  unfold step
  by_cases null : (allocFrame s.pm).1 = 0
  · exact ⟨_, if_pos null⟩
  · exact ⟨_, if_neg null⟩

/-- Allocating again and again hands out every clear frame, the lowest first. -/
theorem clear_frame_reached {frame : Nat} (bound : frame < frameCount) (reserved : Used initial 0)
    (n : Nat) (s : FrameUser) (sound : Sound initial s) (clear : ¬ Used s.pm.bitmap frame)
    (below : Nat.count (fun other => ¬ Used s.pm.bitmap other) frame = n) :
    ∃ k t, path step s (List.replicate k .allocFrame) = some t ∧
      (allocFrame t.pm).1 = frame * frameSize := by
  induction n generalizing s with
  | zero =>
      have full : ∀ other, other < frame → Used s.pm.bitmap other := by
        intro other lower
        have none := Nat.count_iff_forall_not.1 below other lower
        exact not_not.1 none
      refine ⟨0, s, rfl, ?_⟩
      rcases alloc_frame_cases s.pm with ⟨found, _, free, lowest, result⟩ | ⟨all, _⟩
      · have upper : ¬ found < frame := fun lower => free (full found lower)
        have lower : ¬ frame < found := fun upper => clear (lowest frame upper)
        have same : found = frame := by omega
        rw [result, same]
      · exact absurd (all frame bound) clear
  | succ n ih =>
      obtain ⟨s', next⟩ := step_alloc_total s
      rcases step_alloc_cases sound reserved next with
        ⟨found, inside, free, lowest, answer, _, after⟩ | ⟨all, _, _⟩
      · have upper : ¬ frame < found := fun upper => clear (lowest frame upper)
        by_cases same : found = frame
        · exact ⟨0, s, rfl, by rw [answer, same]⟩
        have marks : ∀ other, Used s'.pm.bitmap other ↔ Used s.pm.bitmap other ∨ other = found := by
          intro other
          rw [after]
          exact used_mark_used _ _ _ inside
        have still : ¬ Used s'.pm.bitmap frame := by
          rw [marks, not_or]
          exact ⟨clear, fun equal => same equal.symm⟩
        have fewer : Nat.count (fun other => ¬ Used s'.pm.bitmap other) frame = n := by
          have drop := count_without (p := fun other => ¬ Used s.pm.bitmap other)
            (q := fun other => ¬ Used s'.pm.bitmap other) (n := frame) (k := found)
            (by omega) free (fun i _ => by rw [marks, not_or])
          omega
        obtain ⟨k, t, run, result⟩ := ih s' (alloc_sound sound reserved next) still fewer
        refine ⟨k + 1, t, ?_, result⟩
        rw [List.replicate_succ, path, next]
        exact run
      · exact absurd (all frame bound) clear

theorem freed_allocatable {address : Nat} {s' : FrameUser} (sound : Sound initial s)
    (reserved : Used initial 0) (next : step s (.freeFrame address) = some s') :
    isFrameUsed s'.pm address = false ∧
      ∃ k t, path step s' (List.replicate k .allocFrame) = some t ∧
        (allocFrame t.pm).1 = address := by
  have after := free_sound sound next
  obtain ⟨held, rfl⟩ := step_free_cases next
  obtain ⟨frame, bound, rfl, _⟩ := sound.wereFree _ held
  have clear : ¬ Used (freeFrame (frame * frameSize) s.pm).bitmap frame := by
    simp only [freeFrame, frame_of_address, used_mark_free _ _ _ bound]
    exact fun marked => marked.2 rfl
  constructor
  · rw [← Bool.not_eq_true, is_frame_used_iff _ _ bound]
    exact clear
  · exact clear_frame_reached bound reserved _ _ after clear rfl

end Answers

section Sequences

/-- Over any sequence of calls the frames held are distinct, aligned and were free at the
start; the null pointer means a full bitmap; a freed frame is handed out again; and every
bit of a frame not held is what it was. -/
theorem frame_sequences_sound (pm : PhysicalMemoryManager) (reserved : Used pm.bitmap 0)
    {s : FrameUser} (run : Run step anyAction (firstUse pm) s) :
    s.outstanding.Nodup ∧
      (∀ address ∈ s.outstanding, frameSize ∣ address ∧ address < 4294967296 ∧
        isFrameUsed pm address = false) ∧
      ((allocFrame s.pm).1 = 0 ↔ ∀ frame, frame < frameCount → Used s.pm.bitmap frame) ∧
      (∀ address s', step s (.freeFrame address) = some s' →
        isFrameUsed s'.pm address = false ∧
          ∃ k t, path step s' (List.replicate k .allocFrame) = some t ∧
            (allocFrame t.pm).1 = address) ∧
      ∀ frame, frame < frameCount → frame * frameSize ∉ s.outstanding →
        (Used s.pm.bitmap frame ↔ Used pm.bitmap frame) := by
  have sound := run_sound reserved run
  refine ⟨sound.distinct, ?_, alloc_null_iff sound reserved, ?_, ?_⟩
  · intro address member
    obtain ⟨frame, bound, rfl, wasFree⟩ := sound.wereFree address member
    refine ⟨Nat.dvd_mul_left _ _, ?_, ?_⟩
    · unfold frameCount bitmapSize at bound
      unfold frameSize
      omega
    · rw [← Bool.not_eq_true, is_frame_used_iff _ _ bound]
      exact wasFree
  · intro address s' next
    exact freed_allocatable sound reserved next
  · intro frame bound notHeld
    rw [sound.bits frame bound]
    simp [notHeld]

/-- A bitmap whose first frame alone is used. -/
def nullPageUsed : PhysicalMemoryManager := ⟨fun i => if i = 0 then 1#8 else 0#8, frameCount - 1⟩

theorem two_frames_in_use :
    ∃ s, path step (firstUse nullPageUsed) [.allocFrame, .allocFrame, .freeFrame 4096] = some s ∧
      s.outstanding = [8192] ∧ s.outstanding.Nodup := by
  refine ⟨_, rfl, rfl, ?_⟩
  have reached : path step (firstUse nullPageUsed) [.allocFrame, .allocFrame, .freeFrame 4096] =
      some _ := rfl
  exact (frame_sequences_sound nullPageUsed rfl
    (run_of_path (fun _ _ _ => trivial) reached)).1

end Sequences

end CassiOS.Memory.FrameSequences
