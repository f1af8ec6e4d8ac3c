import Mathlib.Algebra.GroupWithZero.Nat
import CassiOS.Support.RowMajor
import CassiOS.Support.Words

/-!
# Rasters in byte memory

A raster has `height` rows of `width` words in byte memory, `pitch` bytes apart, and shows
them from the row `offset` on, with the rows before it behind the others. `Painted` says what
a change of the memory is for the picture: the pixels that get a color and that nothing else
changes, the bytes between the rows included. Such changes compose, and loops over them are
painted by their latest round.
-/

namespace CassiOS.Support.Rasters

open CassiOS.Support.RowMajor
open CassiOS.Support.Words

set_option autoImplicit false

abbrev Bytes := Nat → UInt8

section Memory

def wordByte (value : UInt32) (k : Nat) : UInt8 := UInt8.ofNat (value.toNat / 256 ^ k % 256)

def storeWord (m : Bytes) (a : Nat) (value : UInt32) : Bytes := fun i =>
  if a ≤ i ∧ i < a + 4 then wordByte value (i - a) else m i

def loadWord (m : Bytes) (a : Nat) : UInt32 := UInt32.ofNat (load32 m a)

/-- The bytes of `source` from the address `a` on. -/
def copyBytes (m : Bytes) (a : Nat) (source : Bytes) (n : Nat) : Bytes := fun i =>
  if a ≤ i ∧ i < a + n then source (i - a) else m i

theorem copy_inside (m source : Bytes) {a i n : Nat} (low : a ≤ i) (high : i < a + n) :
    copyBytes m a source n i = source (i - a) := if_pos ⟨low, high⟩

theorem copy_apart (m source : Bytes) {a i n : Nat} (apart : i < a ∨ a + n ≤ i) :
    copyBytes m a source n i = m i := if_neg (by omega)

theorem load_congr {m m' : Bytes} {a b : Nat} (same : ∀ k < 4, m (a + k) = m' (b + k)) :
    loadWord m a = loadWord m' b := by
  have first := same 0 (by decide)
  have second := same 1 (by decide)
  have third := same 2 (by decide)
  have fourth : m (a + 2 + 1) = m' (b + 2 + 1) := same 3 (by decide)
  unfold loadWord load32 load16
  rw [Nat.add_zero, Nat.add_zero] at first
  rw [first, second, third, fourth]

theorem load_store (m : Bytes) (a : Nat) (value : UInt32) :
    loadWord (storeWord m a value) a = value := by
  have stored : ∀ k < 4, storeWord m a value (a + k) = wordByte value k := by
    intro k small
    unfold storeWord
    rw [if_pos (by omega), Nat.add_sub_cancel_left]
  have bytes : ∀ k, (wordByte value k).toNat = value.toNat / 256 ^ k % 256 := by
    intro k
    exact UInt8.toNat_ofNat_of_lt (Nat.mod_lt _ (by decide))
  have small := value.toNat_lt
  apply UInt32.toNat_inj.1
  have same : loadWord (storeWord m a value) a = loadWord (wordByte value) 0 :=
    load_congr (by simpa using stored)
  rw [same]
  have sum : load32 (wordByte value) 0 = value.toNat := by
    unfold load32 load16
    rw [bytes, bytes, bytes, bytes]
    omega
  unfold loadWord
  rw [sum]
  exact UInt32.toNat_ofNat_of_lt small

end Memory

structure Raster where
  width : Nat
  height : Nat
  pitch : Nat
  offset : Nat
  fits : 4 * width ≤ pitch
  inside : offset < height

namespace Raster

variable (g : Raster)

/-- Where row `r` of the picture is in memory. -/
def row (r : Nat) : Nat := (r + g.offset) % g.height

def place (c r : Nat) : Nat := g.row r * g.pitch + 4 * c

/-- The byte `i` belongs to a pixel. -/
def Covers (i : Nat) : Prop := ∃ a < g.height, ∃ j < 4 * g.width, i = a * g.pitch + j

variable {g}

theorem row_lt (r : Nat) : g.row r < g.height := Nat.mod_lt _ (Nat.zero_lt_of_lt g.inside)

theorem row_eq {r : Nat} (low : r < g.height) :
    g.row r = if r + g.offset < g.height then r + g.offset else r + g.offset - g.height := by
  have inside := g.inside
  unfold row
  split
  · next less => exact Nat.mod_eq_of_lt less
  · next more =>
    rw [Nat.mod_eq_sub_mod (Nat.le_of_not_lt more)]
    exact Nat.mod_eq_of_lt (by omega)

theorem row_unique {r s : Nat} (low : r < g.height) (low' : s < g.height)
    (same : g.row r = g.row s) : r = s := by
  have inside := g.inside
  rw [row_eq low, row_eq low'] at same
  split at same <;> split at same <;> omega

theorem place_unique {c r d s k l : Nat} (column : c < g.width) (low : r < g.height)
    (column' : d < g.width) (low' : s < g.height) (small : k < 4) (small' : l < 4)
    (same : g.place c r + k = g.place d s + l) : c = d ∧ r = s ∧ k = l := by
  have fits := g.fits
  unfold place at same
  rw [Nat.add_assoc, Nat.add_assoc] at same
  obtain ⟨rows, bytes⟩ := index_unique (by omega) (by omega) same
  have lines := row_unique low low' rows
  omega

theorem covers_place {c : Nat} (column : c < g.width) (r : Nat) {k : Nat} (small : k < 4) :
    g.Covers (g.place c r + k) :=
  ⟨g.row r, row_lt r, 4 * c + k, by omega, Nat.add_assoc _ _ _⟩

theorem place_add (c d r : Nat) : g.place c r + 4 * d = g.place (c + d) r := by
  unfold place
  omega

end Raster

/-- The pixels with a color in `paint` get it, the others and all else stay. -/
structure Painted (g : Raster) (m m' : Bytes) (paint : Nat → Nat → Option UInt32) : Prop where
  pixels : ∀ c < g.width, ∀ r < g.height,
    loadWord m' (g.place c r) = (paint c r).getD (loadWord m (g.place c r))
  outside : ∀ i, ¬ g.Covers i → m' i = m i

section Rules

variable {g : Raster} {m m' m'' : Bytes} {paint paint' : Nat → Nat → Option UInt32}

theorem Painted.refl (g : Raster) (m : Bytes) : Painted g m m fun _ _ => none :=
  ⟨fun _ _ _ _ => rfl, fun _ _ => rfl⟩

theorem Painted.congr (painted : Painted g m m' paint)
    (same : ∀ c < g.width, ∀ r < g.height, paint c r = paint' c r) : Painted g m m' paint' where
  pixels c column r low := by
    rw [← same c column r low]
    exact painted.pixels c column r low
  outside := painted.outside

theorem Painted.trans (first : Painted g m m' paint) (second : Painted g m' m'' paint') :
    Painted g m m'' fun c r => (paint' c r).or (paint c r) where
  pixels c column r low := by
    rw [second.pixels c column r low, first.pixels c column r low]
    cases paint' c r <;> rfl
  outside i apart := (second.outside i apart).trans (first.outside i apart)

theorem painted_store (m : Bytes) {x y : Nat} (column : x < g.width) (low : y < g.height)
    (color : UInt32) : Painted g m (storeWord m (g.place x y) color)
      fun c r => if c = x ∧ r = y then some color else none where
  pixels c column' r low' := by
    by_cases here : c = x ∧ r = y
    · obtain ⟨rfl, rfl⟩ := here
      rw [load_store, if_pos ⟨rfl, rfl⟩]
      rfl
    · rw [if_neg here]
      apply load_congr
      intro k small
      apply if_neg
      rintro ⟨low'', high⟩
      obtain ⟨sameC, sameR, _⟩ := g.place_unique (l := g.place c r + k - g.place x y)
        column' low' column low small (by omega) (by omega)
      exact here ⟨sameC, sameR⟩
  outside i apart := by
    apply if_neg
    rintro ⟨low'', high⟩
    apply apart
    have covered := g.covers_place column y (k := i - g.place x y) (by omega)
    rw [show g.place x y + (i - g.place x y) = i by omega] at covered
    exact covered

theorem painted_copy (m : Bytes) {x y n : Nat} (columns : x + n ≤ g.width) (low : y < g.height)
    (source : Bytes) : Painted g m (copyBytes m (g.place x y) source (4 * n))
      fun c r => if (x ≤ c ∧ c < x + n) ∧ r = y then some (loadWord source (4 * (c - x)))
        else none where
  pixels c column r low' := by
    by_cases here : (x ≤ c ∧ c < x + n) ∧ r = y
    · obtain ⟨⟨after, before⟩, rfl⟩ := here
      rw [if_pos ⟨⟨after, before⟩, rfl⟩]
      apply load_congr
      intro k small
      have address : g.place c r = g.place x r + 4 * (c - x) := by
        rw [g.place_add]
        congr 1
        omega
      unfold copyBytes
      rw [if_pos (by omega), address]
      congr 1
      omega
    · rw [if_neg here]
      apply load_congr
      intro k small
      apply if_neg
      rintro ⟨low'', high⟩
      have within : g.place c r + k - g.place x y < 4 * n := by omega
      obtain ⟨sameC, sameR, _⟩ := g.place_unique
        (d := x + (g.place c r + k - g.place x y) / 4) (l := (g.place c r + k - g.place x y) % 4)
        column low' (by omega) low small (Nat.mod_lt _ (by decide)) (by
          rw [← g.place_add]
          omega)
      exact here ⟨by omega, sameR⟩
  outside i apart := by
    apply if_neg
    rintro ⟨low'', high⟩
    apply apart
    have covered := g.covers_place (c := x + (i - g.place x y) / 4) (by omega) y
      (k := (i - g.place x y) % 4) (Nat.mod_lt _ (by decide))
    rw [← g.place_add, show g.place x y + 4 * ((i - g.place x y) / 4) + (i - g.place x y) % 4 = i
      by omega] at covered
    exact covered

/-- `n` rounds of a loop. -/
def iterate (body : Nat → Bytes → Bytes) : Nat → Bytes → Bytes
  | 0, m => m
  | n + 1, m => body n (iterate body n m)

def latest (paint : Nat → Nat → Nat → Option UInt32) : Nat → Nat → Nat → Option UInt32
  | 0, _, _ => none
  | n + 1, c, r => (paint n c r).or (latest paint n c r)

theorem painted_iterate {body : Nat → Bytes → Bytes} {paint : Nat → Nat → Nat → Option UInt32}
    {n : Nat} (round : ∀ j < n, ∀ m, Painted g m (body j m) (paint j)) (m : Bytes) :
    Painted g m (iterate body n m) (latest paint n) := by
  induction n with
  | zero => exact .refl g m
  | succ n ih =>
      exact (ih fun j before => round j (Nat.lt_succ_of_lt before)).trans
        (round n (Nat.lt_succ_self n) _)

theorem latest_none {paint : Nat → Nat → Nat → Option UInt32} {n c r : Nat}
    (none_ : ∀ i < n, paint i c r = none) : latest paint n c r = none := by
  induction n with
  | zero => rfl
  | succ n ih =>
      unfold latest
      rw [none_ n (Nat.lt_succ_self n), Option.none_or]
      exact ih fun i before => none_ i (Nat.lt_succ_of_lt before)

/-- Of the rounds only one paints the place. -/
theorem latest_of_one {paint : Nat → Nat → Nat → Option UInt32} {n c r j : Nat} (inside : j < n)
    (others : ∀ i < n, i ≠ j → paint i c r = none) : latest paint n c r = paint j c r := by
  induction n with
  | zero => omega
  | succ n ih =>
      unfold latest
      by_cases last : j = n
      · subst last
        rw [latest_none fun i before => others i (Nat.lt_succ_of_lt before) (Nat.ne_of_lt before),
          Option.or_none]
      · rw [others n (Nat.lt_succ_self n) (Ne.symm last), Option.none_or]
        exact ih (by omega) fun i before => others i (Nat.lt_succ_of_lt before)

theorem latest_lines {paint : Nat → Nat → Nat → Option UInt32} (line : Nat → Nat → Nat)
    (color : Nat → Nat → Option UInt32) {start n : Nat}
    (rounds : ∀ j c r, paint j c r = if line c r = start + j then color c r else none)
    (c r : Nat) : latest paint n c r =
      if start ≤ line c r ∧ line c r < start + n then color c r else none := by
  by_cases inside : start ≤ line c r ∧ line c r < start + n
  · rw [if_pos inside, latest_of_one (j := line c r - start) (by omega), rounds, if_pos (by omega)]
    intro i _ other
    rw [rounds, if_neg (by omega)]
  · rw [if_neg inside]
    apply latest_none
    intro i before
    rw [rounds, if_neg (by omega)]

end Rules

end CassiOS.Support.Rasters
