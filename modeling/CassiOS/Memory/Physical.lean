import CassiOS.Support.Words
import Mathlib.Data.Nat.Count

/-!
# Physical memory manager

`PhysicalMemoryManager` of `memory/physical.cpp`: one bit for each 4 KiB frame below
4 GiB, set while the frame is in use. Every operation is specified by the set of used
frames it leaves; nothing above this module looks at the bytes of the bitmap.
-/

namespace CassiOS.Memory.Physical

open CassiOS.Support.Words

set_option autoImplicit false

def frameSize : Nat := 4096
def bitmapSize : Nat := 131072
def kernelVbase : Nat := 0xC0000000

/-- The frames below 4 GiB, one for each bit of the bitmap. -/
def frameCount : Nat := 8 * bitmapSize

abbrev Bitmap := Nat → BitVec 8

structure PhysicalMemoryManager where
  bitmap : Bitmap
  totalFrames : Nat

def construct : PhysicalMemoryManager := ⟨fun _ => 0xFF#8, 0⟩

section Bits

/-- `byte & (1 << bit)`. -/
def bitSet (byte : BitVec 8) (bit : Nat) : Bool := byte &&& (1#8 <<< bit) != 0#8

/-- `bitmap[frame / 8] |= (1 << frame % 8)` when the byte exists. -/
def markUsed (bitmap : Bitmap) (frame : Nat) : Bitmap := fun i =>
  if i = frame / 8 ∧ frame / 8 < bitmapSize then bitmap i ||| (1#8 <<< (frame % 8)) else bitmap i

/-- `bitmap[frame / 8] &= ~(1 << frame % 8)` when the byte exists. -/
def markFree (bitmap : Bitmap) (frame : Nat) : Bitmap := fun i =>
  if i = frame / 8 ∧ frame / 8 < bitmapSize then bitmap i &&& ~~~(1#8 <<< (frame % 8)) else bitmap i

/-- The loop `for (frame = start; frame < start + n; frame++)` of the two region helpers. -/
def markEach (mark : Bitmap → Nat → Bitmap) (start : Nat) : Nat → Bitmap → Bitmap
  | 0, bitmap => bitmap
  | n + 1, bitmap => markEach mark (start + 1) n (mark bitmap start)

def markRegionUsed (base length : Nat) (bitmap : Bitmap) : Bitmap :=
  let startFrame := base / frameSize
  let endFrame := u32 (base + length + (frameSize - 1)) / frameSize
  markEach markUsed startFrame (endFrame - startFrame) bitmap

def markRegionFree (base length : Nat) (bitmap : Bitmap) : Bitmap :=
  let startFrame := u32 (base + (frameSize - 1)) / frameSize
  let endFrame := u32 (base + length) / frameSize
  markEach markFree startFrame (endFrame - startFrame) bitmap

end Bits

section Frames

/-- The inner loop of `allocFrame` over the last `n` bits from `bit`. -/
def clearBit (byte : BitVec 8) (bit : Nat) : Nat → Option Nat
  | 0 => none
  | n + 1 => if bitSet byte bit then clearBit byte (bit + 1) n else some bit

/-- The outer loop of `allocFrame` over the last `n` bytes from `i`. -/
def clearFrame (bitmap : Bitmap) (i : Nat) : Nat → Option Nat
  | 0 => none
  | n + 1 =>
      if bitmap i = 0xFF#8 then clearFrame bitmap (i + 1) n
      else
        match clearBit (bitmap i) 0 8 with
        | some bit => some (i * 8 + bit)
        | none => clearFrame bitmap (i + 1) n

/-- The address of the frame and the manager; address 0 is the null pointer. -/
def allocFrame (pm : PhysicalMemoryManager) : Nat × PhysicalMemoryManager :=
  match clearFrame pm.bitmap 0 bitmapSize with
  | some frame => (frame * frameSize, { pm with bitmap := markUsed pm.bitmap frame })
  | none => (0, pm)

def freeFrame (address : Nat) (pm : PhysicalMemoryManager) : PhysicalMemoryManager :=
  { pm with bitmap := markFree pm.bitmap (address / frameSize) }

def isFrameUsed (pm : PhysicalMemoryManager) (address : Nat) : Bool :=
  let frame := address / frameSize
  if bitmapSize ≤ frame / 8 then true else bitSet (pm.bitmap (frame / 8)) (frame % 8)

/-- The counting loops of `init` and `getFreeFrames` over the first `n` bytes. -/
def countClear (bitmap : Bitmap) : Nat → Nat
  | 0 => 0
  | n + 1 => countClear bitmap n + Nat.count (fun bit => bitSet (bitmap n) bit = false) 8

def getFreeFrames (pm : PhysicalMemoryManager) : Nat := countClear pm.bitmap bitmapSize

end Frames

section Used

/-- Frame `frame` is marked in the bitmap. -/
def Used (bitmap : Bitmap) (frame : Nat) : Prop := bitSet (bitmap (frame / 8)) (frame % 8) = true

instance (bitmap : Bitmap) (frame : Nat) : Decidable (Used bitmap frame) :=
  inferInstanceAs (Decidable (bitSet (bitmap (frame / 8)) (frame % 8) = true))

theorem frame_of_address (frame : Nat) : frame * frameSize / frameSize = frame :=
  Nat.mul_div_cancel frame (by decide)

theorem frame_address_injective {frame other : Nat}
    (same : frame * frameSize = other * frameSize) : frame = other :=
  Nat.eq_of_mul_eq_mul_right (by decide) same

theorem bit_set_eq (byte : BitVec 8) (bit : Nat) : bitSet byte bit = byte.getLsbD bit := by
  unfold bitSet
  rw [← BitVec.twoPow_eq, BitVec.and_twoPow]
  cases set : byte.getLsbD bit with
  | false => simp
  | true =>
      have inside : bit < 8 := BitVec.lt_of_getLsbD set
      have nonzero : BitVec.twoPow 8 bit ≠ 0#8 := by
        intro zero
        have top : (BitVec.twoPow 8 bit).getLsbD bit = (0#8).getLsbD bit := by rw [zero]
        simp [inside] at top
      simpa using nonzero

theorem used_mark_used (bitmap : Bitmap) (frame other : Nat) (bound : frame < frameCount) :
    Used (markUsed bitmap frame) other ↔ Used bitmap other ∨ other = frame := by
  have byteBound : frame / 8 < bitmapSize := by
    unfold frameCount at bound
    omega
  have inside : frame % 8 < 8 := Nat.mod_lt _ (by decide)
  unfold Used markUsed
  simp only [bit_set_eq]
  by_cases same : other / 8 = frame / 8
  · have bits : frame % 8 = other % 8 ↔ other = frame := by omega
    rw [if_pos ⟨same, byteBound⟩, ← BitVec.twoPow_eq, BitVec.getLsbD_or, BitVec.getLsbD_twoPow]
    simp only [inside, decide_true, Bool.true_and, Bool.or_eq_true, decide_eq_true_eq, bits]
  · have apart : other ≠ frame := fun equal => same (by rw [equal])
    rw [if_neg fun hit => same hit.1]
    simp [apart]

theorem used_mark_free (bitmap : Bitmap) (frame other : Nat) (bound : frame < frameCount) :
    Used (markFree bitmap frame) other ↔ Used bitmap other ∧ other ≠ frame := by
  have byteBound : frame / 8 < bitmapSize := by
    unfold frameCount at bound
    omega
  have inside : frame % 8 < 8 := Nat.mod_lt _ (by decide)
  have insideOther : other % 8 < 8 := Nat.mod_lt _ (by decide)
  unfold Used markFree
  simp only [bit_set_eq]
  by_cases same : other / 8 = frame / 8
  · have bits : frame % 8 = other % 8 ↔ other = frame := by omega
    rw [if_pos ⟨same, byteBound⟩, ← BitVec.twoPow_eq, BitVec.getLsbD_and, BitVec.getLsbD_not,
      BitVec.getLsbD_twoPow]
    simp only [inside, insideOther, decide_true, Bool.true_and, Bool.and_eq_true,
      Bool.not_eq_true', decide_eq_false_iff_not, bits, ne_eq]
  · have apart : other ≠ frame := fun equal => same (by rw [equal])
    rw [if_neg fun hit => same hit.1]
    simp [apart]

theorem used_mark_each_used (start n : Nat) (bitmap : Bitmap) (other : Nat)
    (bound : start + n ≤ frameCount) :
    Used (markEach markUsed start n bitmap) other ↔
      Used bitmap other ∨ start ≤ other ∧ other < start + n := by
  induction n generalizing start bitmap with
  | zero => simp [markEach]
  | succ n ih =>
      rw [markEach, ih _ _ (by omega), used_mark_used _ _ _ (by omega)]
      have split : (other = start ∨ start + 1 ≤ other ∧ other < start + 1 + n) ↔
          start ≤ other ∧ other < start + (n + 1) := by omega
      rw [or_assoc, split]

theorem used_mark_each_free (start n : Nat) (bitmap : Bitmap) (other : Nat)
    (bound : start + n ≤ frameCount) :
    Used (markEach markFree start n bitmap) other ↔
      Used bitmap other ∧ ¬ (start ≤ other ∧ other < start + n) := by
  induction n generalizing start bitmap with
  | zero => simp [markEach]
  | succ n ih =>
      rw [markEach, ih _ _ (by omega), used_mark_free _ _ _ (by omega)]
      have split : (other ≠ start ∧ ¬ (start + 1 ≤ other ∧ other < start + 1 + n)) ↔
          ¬ (start ≤ other ∧ other < start + (n + 1)) := by omega
      rw [and_assoc, split]

/-- A region below 4 GiB is marked from the frame of its first byte to that of its last. -/
theorem used_mark_region_used (base length : Nat) (bitmap : Bitmap) (frame : Nat)
    (fits : base + length + (frameSize - 1) < 4294967296) (nonempty : 0 < length) :
    Used (markRegionUsed base length bitmap) frame ↔
      Used bitmap frame ∨ base < frame * frameSize + frameSize ∧ frame * frameSize < base + length := by
  unfold markRegionUsed
  rw [u32_of_lt fits]
  unfold frameSize at *
  rw [used_mark_each_used _ _ _ _ (by unfold frameCount bitmapSize; omega)]
  have window : base / 4096 ≤ frame ∧
      frame < base / 4096 + ((base + length + (4096 - 1)) / 4096 - base / 4096) ↔
      base < frame * 4096 + 4096 ∧ frame * 4096 < base + length := by omega
  rw [window]

/-- The frames cleared by `markRegionFree`, in the wrapping arithmetic of the source. -/
def FreedWindow (base length frame : Nat) : Prop :=
  u32 (base + (frameSize - 1)) / frameSize ≤ frame ∧ frame < u32 (base + length) / frameSize

instance (base length frame : Nat) : Decidable (FreedWindow base length frame) :=
  inferInstanceAs (Decidable (_ ∧ _))

theorem used_mark_region_free (base length : Nat) (bitmap : Bitmap) (frame : Nat) :
    Used (markRegionFree base length bitmap) frame ↔
      Used bitmap frame ∧ ¬ FreedWindow base length frame := by
  simp only [markRegionFree, FreedWindow]
  have top : u32 (base + length) / frameSize ≤ frameCount := by
    unfold u32 frameSize frameCount bitmapSize
    omega
  rcases Nat.lt_or_ge (u32 (base + length) / frameSize)
    (u32 (base + (frameSize - 1)) / frameSize) with empty | window
  · rw [Nat.sub_eq_zero_of_le empty.le]
    simp only [markEach]
    have none : ¬ (u32 (base + (frameSize - 1)) / frameSize ≤ frame ∧
        frame < u32 (base + length) / frameSize) := by omega
    simp only [none, not_false_eq_true, and_true]
  · rw [used_mark_each_free _ _ _ _ (by omega), Nat.add_sub_cancel' window]

end Used

section Allocation

theorem clear_bit_spec (byte : BitVec 8) (bit n : Nat) :
    match clearBit byte bit n with
    | some found => bit ≤ found ∧ found < bit + n ∧ bitSet byte found = false ∧
        ∀ k, bit ≤ k → k < found → bitSet byte k = true
    | none => ∀ k, bit ≤ k → k < bit + n → bitSet byte k = true := by
  induction n generalizing bit with
  | zero =>
      intro k low high
      omega
  | succ n ih =>
      unfold clearBit
      cases set : bitSet byte bit with
      | false =>
          simp only [Bool.false_eq_true, if_false]
          exact ⟨le_refl _, by omega, set, fun k low high => absurd high (by omega)⟩
      | true =>
          simp only [if_true]
          have rest := ih (bit + 1)
          cases search : clearBit byte (bit + 1) n with
          | none =>
              rw [search] at rest
              intro k low high
              rcases Nat.eq_or_lt_of_le low with rfl | later
              · exact set
              · exact rest k later (by omega)
          | some found =>
              rw [search] at rest
              obtain ⟨low, high, clear, before⟩ := rest
              refine ⟨by omega, by omega, clear, ?_⟩
              intro k lowk highk
              rcases Nat.eq_or_lt_of_le lowk with rfl | later
              · exact set
              · exact before k later highk

theorem used_byte (bitmap : Bitmap) (i bit : Nat) (inside : bit < 8) :
    Used bitmap (i * 8 + bit) ↔ bitSet (bitmap i) bit = true := by
  have byte : (i * 8 + bit) / 8 = i := by omega
  have rest : (i * 8 + bit) % 8 = bit := by omega
  unfold Used
  rw [byte, rest]

theorem bitmap_ext {bitmap bitmap' : Bitmap}
    (same : ∀ frame, Used bitmap frame ↔ Used bitmap' frame) : bitmap = bitmap' := by
  funext i
  apply BitVec.eq_of_getLsbD_eq
  intro bit inside
  have here := same (i * 8 + bit)
  rw [used_byte _ _ _ inside, used_byte _ _ _ inside, bit_set_eq, bit_set_eq] at here
  exact Bool.eq_iff_iff.2 here

theorem used_full_byte (bitmap : Bitmap) (frame : Nat) (full : bitmap (frame / 8) = 0xFF#8) :
    Used bitmap frame := by
  have ones : ∀ bit < 8, bitSet 0xFF#8 bit = true := by decide
  unfold Used
  rw [full]
  exact ones _ (Nat.mod_lt _ (by decide))

/-- The first clear frame from byte `i` on, if the last `n` bytes hold one. -/
theorem clear_frame_spec (bitmap : Bitmap) (i n : Nat) :
    match clearFrame bitmap i n with
    | some frame => i * 8 ≤ frame ∧ frame < (i + n) * 8 ∧ ¬ Used bitmap frame ∧
        ∀ other, i * 8 ≤ other → other < frame → Used bitmap other
    | none => ∀ other, i * 8 ≤ other → other < (i + n) * 8 → Used bitmap other := by
  induction n generalizing i with
  | zero =>
      intro other low high
      omega
  | succ n ih =>
      have later := ih (i + 1)
      -- what the search behind a byte without a clear bit gives
      have skip : (∀ other, other / 8 = i → Used bitmap other) →
          match clearFrame bitmap (i + 1) n with
          | some frame => i * 8 ≤ frame ∧ frame < (i + (n + 1)) * 8 ∧ ¬ Used bitmap frame ∧
              ∀ other, i * 8 ≤ other → other < frame → Used bitmap other
          | none => ∀ other, i * 8 ≤ other → other < (i + (n + 1)) * 8 → Used bitmap other := by
        intro full
        cases search : clearFrame bitmap (i + 1) n with
        | none =>
            rw [search] at later
            intro other low high
            by_cases here : other / 8 = i
            · exact full other here
            · exact later other (by omega) (by omega)
        | some frame =>
            rw [search] at later
            obtain ⟨low, high, clear, before⟩ := later
            refine ⟨by omega, by omega, clear, ?_⟩
            intro other lowOther highOther
            by_cases here : other / 8 = i
            · exact full other here
            · exact before other (by omega) highOther
      unfold clearFrame
      by_cases ones : bitmap i = 0xFF#8
      · rw [if_pos ones]
        apply skip
        intro other here
        apply used_full_byte
        rw [here]
        exact ones
      · rw [if_neg ones]
        have bits := clear_bit_spec (bitmap i) 0 8
        cases search : clearBit (bitmap i) 0 8 with
        | none =>
            rw [search] at bits
            apply skip
            intro other here
            have inside : other % 8 < 8 := Nat.mod_lt _ (by decide)
            unfold Used
            rw [here]
            exact bits (other % 8) (Nat.zero_le _) (by omega)
        | some bit =>
            rw [search] at bits
            obtain ⟨_, high, clear, before⟩ := bits
            refine ⟨by omega, by omega, ?_, ?_⟩
            · rw [used_byte _ _ _ (by omega), clear]
              decide
            · intro other lowOther highOther
              have here : other = i * 8 + (other - i * 8) := by omega
              rw [here, used_byte _ _ _ (by omega)]
              exact before _ (Nat.zero_le _) (by omega)

/-- `allocFrame` hands out the lowest clear frame and marks it, or nothing is clear. -/
theorem alloc_frame_cases (pm : PhysicalMemoryManager) :
    (∃ frame, frame < frameCount ∧ ¬ Used pm.bitmap frame ∧
        (∀ other, other < frame → Used pm.bitmap other) ∧
        allocFrame pm =
          (frame * frameSize, { pm with bitmap := markUsed pm.bitmap frame })) ∨
      ((∀ frame, frame < frameCount → Used pm.bitmap frame) ∧ allocFrame pm = (0, pm)) := by
  have spec := clear_frame_spec pm.bitmap 0 bitmapSize
  unfold allocFrame
  cases search : clearFrame pm.bitmap 0 bitmapSize with
  | none =>
      right
      rw [search] at spec
      refine ⟨?_, rfl⟩
      intro frame bound
      unfold frameCount at bound
      exact spec frame (by omega) (by omega)
  | some frame =>
      left
      rw [search] at spec
      obtain ⟨_, high, clear, before⟩ := spec
      refine ⟨frame, ?_, clear, ?_, rfl⟩
      · unfold frameCount
        omega
      · intro other lower
        exact before other (by omega) lower

theorem is_frame_used_iff (pm : PhysicalMemoryManager) (frame : Nat) (bound : frame < frameCount) :
    isFrameUsed pm (frame * frameSize) = true ↔ Used pm.bitmap frame := by
  have byte : ¬ bitmapSize ≤ frame / 8 := by
    unfold frameCount at bound
    omega
  unfold isFrameUsed Used
  simp only [frame_of_address, if_neg byte]

theorem count_eq_of_agree {p q : Nat → Prop} [DecidablePred p] [DecidablePred q] {n : Nat}
    (agree : ∀ k, k < n → (p k ↔ q k)) : Nat.count p n = Nat.count q n := by
  rw [Nat.count_eq_card_filter_range, Nat.count_eq_card_filter_range]
  congr 1
  apply Finset.filter_congr
  intro k member
  exact agree k (Finset.mem_range.1 member)

theorem count_clear_eq (bitmap : Bitmap) (n : Nat) :
    countClear bitmap n = Nat.count (fun frame => ¬ Used bitmap frame) (8 * n) := by
  induction n with
  | zero => rfl
  | succ n ih =>
      have bits : Nat.count (fun bit => bitSet (bitmap n) bit = false) 8 =
          Nat.count (fun bit => ¬ Used bitmap (8 * n + bit)) 8 := by
        apply count_eq_of_agree
        intro bit inside
        rw [Nat.mul_comm 8 n, used_byte _ _ _ inside]
        simp
      rw [countClear, ih, bits, Nat.mul_succ, Nat.count_add]

theorem count_without {p q : Nat → Prop} [DecidablePred p] [DecidablePred q] {n k : Nat}
    (bound : k < n) (here : p k) (agree : ∀ i, i < n → (q i ↔ p i ∧ i ≠ k)) :
    Nat.count p n = Nat.count q n + 1 := by
  rw [Nat.count_eq_card_filter_range, Nat.count_eq_card_filter_range]
  have member : k ∈ (Finset.range n).filter p :=
    Finset.mem_filter.2 ⟨Finset.mem_range.2 bound, here⟩
  have others : (Finset.range n).filter q = ((Finset.range n).filter p).erase k := by
    apply Finset.ext
    intro i
    simp only [Finset.mem_filter, Finset.mem_erase, Finset.mem_range]
    constructor
    · rintro ⟨inside, holds⟩
      obtain ⟨first, second⟩ := (agree i inside).1 holds
      exact ⟨second, inside, first⟩
    · rintro ⟨second, inside, first⟩
      exact ⟨inside, (agree i inside).2 ⟨first, second⟩⟩
  rw [others, Finset.card_erase_of_mem member]
  exact (Nat.sub_add_cancel (Finset.card_pos.2 ⟨k, member⟩)).symm

theorem free_frames_mark_used (pm : PhysicalMemoryManager) {frame : Nat}
    (bound : frame < frameCount) (clear : ¬ Used pm.bitmap frame) :
    getFreeFrames pm = getFreeFrames { pm with bitmap := markUsed pm.bitmap frame } + 1 := by
  unfold getFreeFrames
  rw [count_clear_eq, count_clear_eq]
  apply count_without (k := frame) bound clear
  intro i _
  rw [used_mark_used _ _ _ bound, not_or]

theorem free_frames_eq_zero (pm : PhysicalMemoryManager) :
    getFreeFrames pm = 0 ↔ ∀ frame, frame < frameCount → Used pm.bitmap frame := by
  unfold getFreeFrames
  rw [count_clear_eq, Nat.count_iff_forall_not]
  simp only [not_not]
  exact Iff.rfl

end Allocation

end CassiOS.Memory.Physical
