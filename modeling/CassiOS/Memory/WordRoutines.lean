import Mathlib.Algebra.GroupWithZero.Nat
import CassiOS.Support.RangeMoves
import CassiOS.Support.Words

/-!
# Copying, moving and setting memory by words

`libs/mem/src/mem.cpp`. No range wraps around the address space, so that the addresses are
natural numbers; the alignment of a pointer one behind the last address is that of zero. A
`u32` is loaded and stored with its low byte first.
-/

namespace CassiOS.Memory.WordRoutines

open CassiOS.Support.Words
open CassiOS.Support.RangeMoves

set_option autoImplicit false

abbrev Bytes := Nat → UInt8

def storeByte (m : Bytes) (address : Nat) (value : UInt8) : Bytes :=
  fun a => if a = address then value else m a

def store32 (m : Bytes) (address value : Nat) : Bytes :=
  fun a => if address ≤ a ∧ a < address + 4 then .ofNat (value / 256 ^ (a - address)) else m a

/-- Where a loop has left its pointers, and how many bytes are still to be done. -/
structure Progress where
  d : Nat
  s : Nat
  n : Nat
  m : Bytes

/-! ## `mem::copy` -/

/-- `while (n > 0 && (d & 3) != 0)`. -/
def alignStart (d s : Nat) : Nat → Bytes → Progress
  | 0, m => ⟨d, s, 0, m⟩
  | n + 1, m =>
      if d % 4 ≠ 0 then alignStart (d + 1) (s + 1) n (storeByte m d (m s)) else ⟨d, s, n + 1, m⟩

def copyWords (d s words : Nat) (m : Bytes) : Bytes :=
  (List.range words).foldl (fun m i => store32 m (d + 4 * i) (load32 m (s + 4 * i))) m

def copyBytes (d s n : Nat) (m : Bytes) : Bytes :=
  (List.range n).foldl (fun m i => storeByte m (d + i) (m (s + i))) m

def copy (dst src n : Nat) (m : Bytes) : Bytes :=
  if dst % 4 = src % 4 then
    let p := alignStart dst src n m
    let words := p.n / 4
    let m := copyWords p.d p.s words p.m
    copyBytes (p.d + 4 * words) (p.s + 4 * words) (p.n % 4) m
  else copyBytes dst src n m

/-! ## `mem::move` -/

/-- `while (n > 0 && (de & 3) != 0)`. -/
def alignEnd (de se : Nat) : Nat → Bytes → Progress
  | 0, m => ⟨de, se, 0, m⟩
  | n + 1, m =>
      if de % 4 ≠ 0 then alignEnd (de - 1) (se - 1) n (storeByte m (de - 1) (m (se - 1)))
      else ⟨de, se, n + 1, m⟩

/-- From the last word to the first. -/
def moveWords (d s words : Nat) (m : Bytes) : Bytes :=
  (List.range words).foldr (fun i m => store32 m (d + 4 * i) (load32 m (s + 4 * i))) m

/-- `d[i - 1] = s[i - 1]`, from the last byte to the first. -/
def moveBytes (d s n : Nat) (m : Bytes) : Bytes :=
  (List.range n).foldr (fun i m => storeByte m (d + i) (m (s + i))) m

/-- `*--de = *--se`, `n` times. -/
def moveBefore (de se : Nat) : Nat → Bytes → Bytes
  | 0, m => m
  | n + 1, m => moveBefore (de - 1) (se - 1) n (storeByte m (de - 1) (m (se - 1)))

def move (dst src n : Nat) (m : Bytes) : Bytes :=
  if dst < src then copy dst src n m
  else if src < dst then
    if (dst + n) % 4 = (src + n) % 4 then
      let p := alignEnd (dst + n) (src + n) n m
      let words := p.n / 4
      let d := p.d - 4 * words
      let s := p.s - 4 * words
      let m := moveWords d s words p.m
      moveBefore d s (p.n % 4) m
    else moveBytes dst src n m
  else m

/-! ## `mem::set` -/

def alignSet (d : Nat) (v : UInt8) : Nat → Bytes → Progress
  | 0, m => ⟨d, 0, 0, m⟩
  | n + 1, m =>
      if d % 4 ≠ 0 then alignSet (d + 1) v n (storeByte m d v) else ⟨d, 0, n + 1, m⟩

/-- `v32`. -/
def repeated (v : UInt8) : Nat :=
  v.toNat ||| v.toNat <<< 8 ||| v.toNat <<< 16 ||| v.toNat <<< 24

def setWords (d v32 words : Nat) (m : Bytes) : Bytes :=
  (List.range words).foldl (fun m i => store32 m (d + 4 * i) v32) m

def setBytes (d : Nat) (v : UInt8) (n : Nat) (m : Bytes) : Bytes :=
  (List.range n).foldl (fun m i => storeByte m (d + i) v) m

def set (dst : Nat) (val : Int) (n : Nat) (m : Bytes) : Bytes :=
  let v := UInt8.ofInt val
  let p := alignSet dst v n m
  let words := p.n / 4
  let m := setWords p.d (repeated v) words p.m
  setBytes (p.d + 4 * words) v (p.n % 4) m

section Words

variable {d s n : Nat} {m : Bytes}

theorem store_byte_eq (d s : Nat) (m : Bytes) : storeByte m d (m s) = moved d s 1 m := by
  funext a
  unfold storeByte moved
  by_cases here : a = d
  · subst here
    rw [if_pos rfl, if_pos (by omega), Nat.sub_self, Nat.add_zero]
  · rw [if_neg here, if_neg (by omega)]

theorem byte_of_load (s : Nat) (m : Bytes) {i : Nat} (inside : i < 4) :
    UInt8.ofNat (load32 m s / 256 ^ i) = m (s + i) := by
  have b0 := (m s).toNat_lt
  have b1 := (m (s + 1)).toNat_lt
  have b2 := (m (s + 2)).toNat_lt
  have b3 := (m (s + 3)).toNat_lt
  apply UInt8.toNat.inj
  rw [UInt8.toNat_ofNat']
  unfold load32 load16
  rw [Nat.add_assoc s 2 1]
  have cases : i = 0 ∨ i = 1 ∨ i = 2 ∨ i = 3 := by omega
  rcases cases with rfl | rfl | rfl | rfl <;>
    simp only [Nat.reducePow, Nat.reduceAdd, Nat.add_zero] <;> omega

theorem store_word_eq (d s : Nat) (m : Bytes) : store32 m d (load32 m s) = moved d s 4 m := by
  funext a
  unfold store32 moved
  split
  · next inside => exact byte_of_load s m (by omega)
  · rfl

theorem copy_words_eq (safe : d ≤ s ∨ s + 4 * n ≤ d) :
    copyWords d s n m = moved d s (4 * n) m := by
  unfold copyWords
  simp only [store_word_eq]
  exact moved_blocks_up 4 n safe

theorem copy_bytes_eq (safe : d ≤ s ∨ s + n ≤ d) : copyBytes d s n m = moved d s n m := by
  unfold copyBytes
  simp only [store_byte_eq]
  simpa using moved_blocks_up (m := m) 1 n (by simpa using safe)

theorem move_words_eq (safe : s ≤ d ∨ d + 4 * n ≤ s) :
    moveWords d s n m = moved d s (4 * n) m := by
  unfold moveWords
  simp only [store_word_eq]
  exact moved_blocks_down 4 n safe

theorem move_bytes_eq (safe : s ≤ d ∨ d + n ≤ s) : moveBytes d s n m = moved d s n m := by
  unfold moveBytes
  simp only [store_byte_eq]
  simpa using moved_blocks_down (m := m) 1 n (by simpa using safe)

/-- The first loop of `copy` moves some bytes from the start. -/
theorem align_start_eq (safe : d ≤ s ∨ s + n ≤ d) :
    ∃ k ≤ n, alignStart d s n m = ⟨d + k, s + k, n - k, moved d s k m⟩ := by
  induction n generalizing d s m with
  | zero => exact ⟨0, Nat.le_refl 0, by simp [alignStart]⟩
  | succ n ih =>
      by_cases aligned : d % 4 = 0
      · exact ⟨0, Nat.zero_le _, by simp [alignStart, aligned]⟩
      · have ⟨k, fits, all⟩ := ih (d := d + 1) (s := s + 1) (m := moved d s 1 m) (by omega)
        have parts : moved (d + 1) (s + 1) k (moved d s 1 m) = moved d s (k + 1) m := by
          rw [Nat.add_comm k 1]
          exact moved_up (by omega)
        refine ⟨k + 1, by omega, ?_⟩
        rw [alignStart, if_pos aligned, store_byte_eq, all, parts]
        simp [Nat.add_assoc, Nat.add_comm 1 k]

theorem align_end_eq (safe : s ≤ d) :
    ∃ k ≤ n, alignEnd (d + n) (s + n) n m =
      ⟨d + (n - k), s + (n - k), n - k, moved (d + (n - k)) (s + (n - k)) k m⟩ := by
  induction n generalizing m with
  | zero => exact ⟨0, Nat.le_refl 0, by simp [alignEnd]⟩
  | succ n ih =>
      by_cases aligned : (d + (n + 1)) % 4 = 0
      · exact ⟨0, Nat.zero_le _, by simp [alignEnd, aligned]⟩
      · have ⟨k, fits, all⟩ := ih (m := moved (d + n) (s + n) 1 m)
        have parts : moved (d + (n - k)) (s + (n - k)) k (moved (d + n) (s + n) 1 m) =
            moved (d + (n - k)) (s + (n - k)) (k + 1) m := by
          have there : d + n = d + (n - k) + k := by omega
          have from_ : s + n = s + (n - k) + k := by omega
          rw [there, from_]
          exact moved_down (by omega)
        have left : n + 1 - (k + 1) = n - k := by omega
        refine ⟨k + 1, by omega, ?_⟩
        rw [alignEnd, if_pos aligned, store_byte_eq, left]
        exact all.trans (by rw [parts])

theorem move_before_eq (safe : s ≤ d) :
    moveBefore (d + n) (s + n) n m = moved d s n m := by
  induction n generalizing m with
  | zero => simp [moveBefore]
  | succ n ih =>
      rw [moveBefore, store_byte_eq]
      exact (ih (m := moved (d + n) (s + n) 1 m)).trans (moved_down (by omega))

end Words

section Routines

variable {dst src n : Nat} {m : Bytes}

theorem copy_eq (safe : dst ≤ src ∨ src + n ≤ dst) : copy dst src n m = moved dst src n m := by
  unfold copy
  by_cases alike : dst % 4 = src % 4
  · rw [if_pos alike]
    have ⟨k, fits, all⟩ := align_start_eq (m := m) safe
    rw [all]
    dsimp only
    have total : 4 * ((n - k) / 4) + (n - k) % 4 = n - k := Nat.div_add_mod (n - k) 4
    have whole : k + (n - k) = n := Nat.add_sub_cancel' fits
    rw [copy_words_eq (by omega), copy_bytes_eq (by omega), moved_up (by omega), total,
      moved_up (by omega), whole]
  · rw [if_neg alike]
    exact copy_bytes_eq safe

theorem move_eq (dst src n : Nat) (m : Bytes) : move dst src n m = moved dst src n m := by
  unfold move
  by_cases down : dst < src
  · rw [if_pos down]
    exact copy_eq (.inl (Nat.le_of_lt down))
  rw [if_neg down]
  by_cases up : src < dst
  · rw [if_pos up]
    have safe : src ≤ dst := Nat.le_of_lt up
    by_cases alike : (dst + n) % 4 = (src + n) % 4
    · rw [if_pos alike]
      have ⟨k, fits, all⟩ := align_end_eq (n := n) (m := m) safe
      rw [all]
      dsimp only
      have total : (n - k) % 4 + 4 * ((n - k) / 4) = n - k := Nat.mod_add_div (n - k) 4
      have whole : n - k + k = n := Nat.sub_add_cancel fits
      have d : dst + (n - k) - 4 * ((n - k) / 4) = dst + (n - k) % 4 := by omega
      have s : src + (n - k) - 4 * ((n - k) / 4) = src + (n - k) % 4 := by omega
      have words : moved (dst + (n - k) % 4) (src + (n - k) % 4) (4 * ((n - k) / 4))
          (moved (dst + (n - k)) (src + (n - k)) k m) =
          moved (dst + (n - k) % 4) (src + (n - k) % 4) (4 * ((n - k) / 4) + k) m := by
        have d' : dst + (n - k) = dst + (n - k) % 4 + 4 * ((n - k) / 4) := by omega
        have s' : src + (n - k) = src + (n - k) % 4 + 4 * ((n - k) / 4) := by omega
        rw [d', s']
        exact moved_down (by omega)
      rw [d, s, move_words_eq (by omega), words, move_before_eq safe, moved_down (by omega),
        ← Nat.add_assoc, total, whole]
    · rw [if_neg alike]
      exact move_bytes_eq (.inl safe)
  · rw [if_neg up]
    have same : src = dst := by omega
    rw [same, moved_self]

end Routines

section Sets

variable {d n : Nat} {m : Bytes}

theorem set_byte_eq (d : Nat) (v : UInt8) (m : Bytes) : storeByte m d v = filled d v 1 m := by
  funext a
  unfold storeByte filled
  by_cases here : a = d
  · rw [if_pos here, if_pos (by omega)]
  · rw [if_neg here, if_neg (by omega)]

theorem or_shifted {x k : Nat} (y : Nat) (small : x < 2 ^ k) : x ||| y <<< k = x + y * 2 ^ k := by
  rw [Nat.or_comm, ← Nat.shiftLeft_add_eq_or_of_lt small, Nat.shiftLeft_eq, Nat.add_comm]

/-- `v32` is what would be loaded where every byte is `v`. -/
theorem repeated_eq (v : UInt8) : repeated v = load32 (fun _ => v) 0 := by
  have byte : v.toNat < 2 ^ 8 := v.toNat_lt
  have two : v.toNat + v.toNat * 2 ^ 8 < 2 ^ 16 := by omega
  have three : v.toNat + v.toNat * 2 ^ 8 + v.toNat * 2 ^ 16 < 2 ^ 24 := by omega
  unfold repeated load32 load16
  rw [or_shifted v.toNat byte, or_shifted v.toNat two, or_shifted v.toNat three]
  dsimp only
  omega

theorem set_word_eq (d : Nat) (v : UInt8) (m : Bytes) :
    store32 m d (repeated v) = filled d v 4 m := by
  funext a
  rw [repeated_eq]
  unfold store32 filled
  split
  · next inside => exact byte_of_load 0 (fun _ => v) (by omega)
  · rfl

theorem set_words_eq (d : Nat) (v : UInt8) (n : Nat) (m : Bytes) :
    setWords d (repeated v) n m = filled d v (4 * n) m := by
  unfold setWords
  simp only [set_word_eq]
  exact filled_blocks v 4 n

theorem set_bytes_eq (d : Nat) (v : UInt8) (n : Nat) (m : Bytes) :
    setBytes d v n m = filled d v n m := by
  unfold setBytes
  simp only [set_byte_eq]
  have blocks : _ = filled d v (1 * n) m := filled_blocks v 1 n
  simpa using blocks

theorem align_set_eq (v : UInt8) :
    ∃ k ≤ n, alignSet d v n m = ⟨d + k, 0, n - k, filled d v k m⟩ := by
  induction n generalizing d m with
  | zero => exact ⟨0, Nat.le_refl 0, by simp [alignSet]⟩
  | succ n ih =>
      by_cases aligned : d % 4 = 0
      · exact ⟨0, Nat.zero_le _, by simp [alignSet, aligned]⟩
      · have ⟨k, fits, all⟩ := ih (d := d + 1) (m := filled d v 1 m)
        refine ⟨k + 1, by omega, ?_⟩
        rw [alignSet, if_pos aligned, set_byte_eq, all, filled_add]
        simp [Nat.add_assoc, Nat.add_comm 1 k]

theorem set_eq (dst : Nat) (val : Int) (n : Nat) (m : Bytes) :
    set dst val n m = filled dst (UInt8.ofInt val) n m := by
  have ⟨k, fits, all⟩ := align_set_eq (d := dst) (n := n) (m := m) (UInt8.ofInt val)
  have total : 4 * ((n - k) / 4) + (n - k) % 4 = n - k := Nat.div_add_mod (n - k) 4
  have whole : k + (n - k) = n := Nat.add_sub_cancel' fits
  unfold set
  dsimp only
  rw [all]
  dsimp only
  rw [set_words_eq, set_bytes_eq, filled_add, total, filled_add, whole]

end Sets

/-- Two ranges of `n` bytes without a byte in common. -/
def Apart (dst src n : Nat) : Prop := dst + n ≤ src ∨ src + n ≤ dst

/-- By words or by bytes, the routines do the same. -/
theorem routines_eq (dst src n : Nat) (val : Int) (m : Bytes) :
    move dst src n m = moved dst src n m ∧
    (Apart dst src n → copy dst src n m = moved dst src n m) ∧
    set dst val n m = filled dst (UInt8.ofInt val) n m := by
  refine ⟨move_eq dst src n m, fun apart => ?_, set_eq dst val n m⟩
  cases apart with
  | inl below => exact copy_eq (.inl (by omega))
  | inr above => exact copy_eq (.inr above)

/-- Five bytes one place up, over their own start. -/
theorem overlapping_move : (List.range 6).map (move 1 0 5 fun a => .ofNat (a + 1)) =
    [1, 1, 2, 3, 4, 5] ∧ copy 8 0 6 (fun a => .ofNat (a + 1)) 13 = 6 := by
  have moves := (routines_eq 1 0 5 0 fun a => .ofNat (a + 1)).1
  have copies := (routines_eq 8 0 6 0 fun a => .ofNat (a + 1)).2.1 (.inr (by decide))
  rw [moves, copies]
  decide

end CassiOS.Memory.WordRoutines
