import CassiOS.Graphics.ScrollingImage
import CassiOS.Support.Overwriting

/-!
# Clipping

Which bytes the primitives of `PixelBuffer` can change, against the shapes that they are to
draw. A size is cut at the edge when the sum of coordinate and size, taken modulo `2 ^ 32`,
lies behind it; where the sum wraps around, it is not.
-/

namespace CassiOS.Graphics.Clipping

open CassiOS.Graphics.Drawing
open CassiOS.Graphics.ScrollingImage
open CassiOS.Support.Overwriting
open CassiOS.Support.Rasters
open CassiOS.Support.RowMajor
open CassiOS.Support.Words

set_option autoImplicit false

section Reference

inductive Primitive where
  | drawPixel (x y color : UInt32)
  | fillRect (x y w h color : UInt32)
  | drawRect (x y w h color : UInt32)
  | drawChar (x y : UInt32) (ch : UInt8) (fg bg : UInt32)
  | drawText (x y : UInt32) (text : List UInt8) (fg bg : UInt32)
  | blit (dx dy : UInt32) (src : PixelBuffer) (sx sy w h : UInt32)

namespace Primitive

variable (font : UInt8 → Nat → UInt8)

def draw : Primitive → PixelBuffer → PixelBuffer
  | drawPixel x y color, b => b.drawPixel x.toNat y.toNat color
  | fillRect x y w h color, b => b.fillRect x.toNat y.toNat w.toNat h.toNat color
  | drawRect x y w h color, b => b.drawRect x.toNat y.toNat w.toNat h.toNat color
  | drawChar x y ch fg bg, b => b.drawChar font x.toNat y.toNat ch fg bg
  | drawText x y text fg bg, b => b.drawText font x.toNat y.toNat text fg bg
  | blit dx dy src sx sy w h, b =>
      b.blit dx.toNat dy.toNat src sx.toNat sy.toNat w.toNat h.toNat

/-- The pixels that the primitive is to color, with coordinates of any size. -/
def shape : Primitive → Nat → Nat → Prop
  | drawPixel x y _, c, r => c = x.toNat ∧ r = y.toNat
  | fillRect x y w h _, c, r => rect x.toNat y.toNat w.toNat h.toNat c r
  | drawRect x y w h _, c, r => border x.toNat y.toNat w.toNat h.toNat c r
  | drawChar x y _ _ _, c, r => rect x.toNat y.toNat fontWidth fontHeight c r
  | drawText x y text _ _, c, r =>
      ∃ i, i < text.length ∧ rect (x.toNat + i * fontWidth) y.toNat fontWidth fontHeight c r
  | blit dx dy src sx sy w h, c, r =>
      rect dx.toNat dy.toNat w.toNat h.toNat c r ∧
        sx.toNat + (c - dx.toNat) < src.width ∧ sy.toNat + (r - dy.toNat) < src.height

/-- The arguments are those of the source: a text has a length of 32 bits, and the source of a
blit is a buffer itself. -/
def Valid : Primitive → Prop
  | drawText _ _ text _ _ => text.length < 2 ^ 32
  | blit _ _ src _ _ _ _ => Sound src
  | _ => True

def withSource : Primitive → Bytes → Primitive
  | blit dx dy src sx sy w h, m => blit dx dy { src with data := m } sx sy w h
  | p, _ => p

def sourceSize : Primitive → Nat
  | blit _ _ src _ _ _ _ => src.height * src.pitch
  | _ => 0

end Primitive

/-- The bytes of the pixels of a shape that are in the buffer. -/
def visible (b : PixelBuffer) (shape : Nat → Nat → Prop) : Set Nat :=
  {i | ∃ c r k, c < b.width ∧ r < b.height ∧ k < 4 ∧ shape c r ∧
    i = (r + b.scrollOffset) % b.height * b.pitch + 4 * c + k}

def onMemory (b : PixelBuffer) (draw : PixelBuffer → PixelBuffer) (m : Bytes) : Bytes :=
  (draw { b with data := m }).data

/-- The primitive changes exactly the visible pixels of its shape, and what it draws depends on
nothing outside of its source. -/
structure Clipped (font : UInt8 → Nat → UInt8) (b : PixelBuffer) (p : Primitive) : Prop where
  writes : changed (onMemory b (p.draw font)) = visible b p.shape
  reads : ∀ m m', (∀ i < p.sourceSize, m i = m' i) →
    (p.withSource m).draw font b = (p.withSource m').draw font b

/-- A rectangle of unbounded coordinates does not wrap around where it is drawn. -/
def RectFits (b : PixelBuffer) (x y w h : Nat) : Prop :=
  u32 x < b.width → u32 y < b.height → x + w < 2 ^ 32 ∧ y + h < 2 ^ 32

/-- The rectangles that `drawRect` fills. -/
def edges (x y w h : Nat) : List (Nat × Nat × Nat × Nat) :=
  [(x, y, w, 1), (x, y + h - 1, w, 1)] ++
    if 2 < h then [(x, y + 1, 1, h - 2), (x + w - 1, y + 1, 1, h - 2)] else []

/-- One direction of a blit: the sum with the source coordinate stays in range, or the target
cuts the size before the source has to. -/
def SpanFits (d width s sourceWidth n : Nat) : Prop :=
  s + n < 2 ^ 32 ∨ d + n < 2 ^ 32 ∧ width - d ≤ sourceWidth - s

def Fits (b : PixelBuffer) : Primitive → Prop
  | .drawPixel _ _ _ => True
  | .fillRect x y w h _ => w = 0 ∨ h = 0 ∨ RectFits b x.toNat y.toNat w.toNat h.toNat
  | .drawRect x y w h _ => w = 0 ∨ h = 0 ∨
      ∀ e ∈ edges x.toNat y.toNat w.toNat h.toNat, RectFits b e.1 e.2.1 e.2.2.1 e.2.2.2
  | .drawChar _ _ _ _ _ => True
  | .drawText x y text _ _ => b.height ≤ y.toNat ∨ ∀ i < text.length, i < 2 ^ 29 →
      u32 (x.toNat + i * fontWidth) < b.width → x.toNat + i * fontWidth < 2 ^ 32
  | .blit dx dy src sx sy w h => w = 0 ∨ h = 0 ∨ src.width ≤ sx.toNat ∨ src.height ≤ sy.toNat ∨
      b.width ≤ dx.toNat ∨ b.height ≤ dy.toNat ∨
      SpanFits dx.toNat b.width sx.toNat src.width w.toNat ∧
        SpanFits dy.toNat b.height sy.toNat src.height h.toNat

end Reference

section Regions

variable {b : PixelBuffer}

/-- Rows of `n` bytes, `h` of them, from the pixel in column `x` and row `y` on. -/
def rows (b : PixelBuffer) (x y n h : Nat) : Set Nat :=
  {i | ∃ row, row < h ∧
    i ∈ Set.Ico (b.pixelAt x (u32 (y + row))) (b.pixelAt x (u32 (y + row)) + n)}

theorem mem_visible (sound : Sound b) {shape : Nat → Nat → Prop} {c r k : Nat}
    (column : c < b.width) (low : r < b.height) (small : k < 4) :
    sound.raster.place c r + k ∈ visible b shape ↔ shape c r := by
  constructor
  · rintro ⟨c', r', k', column', low', small', inside, same⟩
    obtain ⟨rfl, rfl, _⟩ :=
      sound.raster.place_unique column low column' low' small small' same
    exact inside
  · intro inside
    exact ⟨c, r, k, column, low, small, inside, rfl⟩

theorem visible_congr {shape shape' : Nat → Nat → Prop}
    (same : ∀ c < b.width, ∀ r < b.height, shape c r ↔ shape' c r) :
    visible b shape = visible b shape' := by
  ext i
  constructor
  · rintro ⟨c, r, k, column, low, small, inside, address⟩
    exact ⟨c, r, k, column, low, small, (same c column r low).1 inside, address⟩
  · rintro ⟨c, r, k, column, low, small, inside, address⟩
    exact ⟨c, r, k, column, low, small, (same c column r low).2 inside, address⟩

theorem visible_nothing {shape : Nat → Nat → Prop}
    (none_ : ∀ c < b.width, ∀ r < b.height, ¬ shape c r) : visible b shape = ∅ := by
  ext i
  constructor
  · rintro ⟨c, r, k, column, low, small, inside, address⟩
    exact absurd inside (none_ c column r low)
  · exact nofun

theorem visible_union (shape shape' : Nat → Nat → Prop) :
    visible b shape ∪ visible b shape' = visible b fun c r => shape c r ∨ shape' c r := by
  ext i
  constructor
  · intro member
    rcases member with ⟨c, r, k, column, low, small, inside, address⟩ |
      ⟨c, r, k, column, low, small, inside, address⟩
    · exact ⟨c, r, k, column, low, small, Or.inl inside, address⟩
    · exact ⟨c, r, k, column, low, small, Or.inr inside, address⟩
  · intro ⟨c, r, k, column, low, small, inside, address⟩
    rcases inside with inside | inside
    · exact Or.inl ⟨c, r, k, column, low, small, inside, address⟩
    · exact Or.inr ⟨c, r, k, column, low, small, inside, address⟩

theorem visible_some {κ : Type*} (among : κ → Prop) (shape : κ → Nat → Nat → Prop) :
    visible b (fun c r => ∃ j, among j ∧ shape j c r) =
      {i | ∃ j, among j ∧ i ∈ visible b (shape j)} := by
  ext i
  constructor
  · rintro ⟨c, r, k, column, low, small, ⟨j, member, inside⟩, address⟩
    exact ⟨j, member, c, r, k, column, low, small, inside, address⟩
  · rintro ⟨j, member, c, r, k, column, low, small, inside, address⟩
    exact ⟨c, r, k, column, low, small, ⟨j, member, inside⟩, address⟩

theorem rect_empty {x y w h : Nat} (empty : w = 0 ∨ h = 0) (c r : Nat) : ¬ rect x y w h c r := by
  rintro ⟨⟨_, _⟩, _, _⟩
  omega

theorem visible_small (sound : Sound b) {shape : Nat → Nat → Prop} {i : Nat}
    (member : i ∈ visible b shape) : i < 2 ^ 32 := by
  obtain ⟨c, r, k, column, low, small, _, rfl⟩ := member
  have fits := sound.fits
  have inside := sound.inside
  have line : (r + b.scrollOffset) % b.height < b.height := Nat.mod_lt _ (by omega)
  have area := index_lt line (show 4 * c + k < b.pitch by omega)
  have small := sound.small
  omega

theorem rows_inside (sound : Sound b) {x y w h : Nat} (columns : x + w ≤ b.width)
    (lines : y + h ≤ b.height) : rows b x y (4 * w) h = visible b (rect x y w h) := by
  have short := sound.height_lt
  ext i
  constructor
  · rintro ⟨row, before, low, high⟩
    rw [u32_of_lt (by omega)] at low high
    have some_ : 0 < w := by omega
    rw [sound.pixel_at (by omega) (by omega)] at low high
    have address : i = sound.raster.place (x + (i - sound.raster.place x (y + row)) / 4) (y + row) +
        (i - sound.raster.place x (y + row)) % 4 := by
      rw [← sound.raster.place_add]
      omega
    rw [address]
    apply (mem_visible sound (by omega) (by omega) (Nat.mod_lt _ (by decide))).2
    unfold rect
    omega
  · rintro ⟨c, r, k, column, low, small, ⟨⟨left, right⟩, top, bottom⟩, rfl⟩
    refine ⟨r - y, by omega, ?_⟩
    rw [u32_of_lt (by omega), sound.pixel_at (by omega) (by omega),
      show y + (r - y) = r by omega]
    have address := sound.raster.place_add x (c - x) r
    rw [show x + (c - x) = c by omega] at address
    change sound.raster.place c r + k ∈ _
    rw [← address]
    constructor <;> omega

theorem rows_empty {x y n h : Nat} (empty : n = 0 ∨ h = 0) : rows b x y n h = ∅ := by
  ext i
  constructor
  · rintro ⟨row, before, low, high⟩
    omega
  · exact nofun

theorem rows_at (sound : Sound b) {x y n h row k : Nat} (column : x < b.width)
    (before : row < h) (low : y + row < b.height) (inside : k < n) :
    sound.raster.place x (y + row) + k ∈ rows b x y n h := by
  have short := sound.height_lt
  refine ⟨row, before, ?_⟩
  rw [u32_of_lt (by omega), sound.pixel_at column low]
  exact ⟨Nat.le_add_right _ k, Nat.add_lt_add_left inside _⟩

theorem rows_first (sound : Sound b) {x y n h : Nat} (column : x < b.width) (low : y < b.height)
    (bytes : 0 < n) (lines : 0 < h) : sound.raster.place x y ∈ rows b x y n h :=
  rows_at sound column lines (show y + 0 < _ from low) bytes

theorem pixel_at_height (sound : Sound b) {x : Nat} (column : x < b.width) :
    b.pixelAt x b.height = sound.raster.place x 0 := by
  have short := sound.height_lt
  have inside := sound.inside
  have around : b.wrap b.height = b.wrap 0 := by
    unfold PixelBuffer.wrap
    rw [if_pos (by omega), if_pos (by omega), u32_of_lt (by omega), u32_of_lt (by omega),
      Nat.add_mod_left, Nat.zero_add]
  have same : b.pixelAt x b.height = b.pixelAt x 0 := by
    unfold PixelBuffer.pixelAt
    rw [around]
  rw [same, sound.pixel_at column (by omega)]

theorem rows_around (sound : Sound b) {x y n h : Nat} (column : x < b.width) (low : y < b.height)
    (bytes : 0 < n) (lines : b.height < y + h) : sound.raster.place x 0 ∈ rows b x y n h := by
  have short := sound.height_lt
  refine ⟨b.height - y, by omega, ?_⟩
  rw [show y + (b.height - y) = b.height by omega, u32_of_lt (by omega),
    pixel_at_height sound column]
  exact ⟨Nat.le_refl _, by omega⟩

end Regions

section Rectangles

variable {b : PixelBuffer}

def cut (limit start size : Nat) : Nat := if limit < u32 (start + size) then limit - start else size

theorem cut_fits {limit start size : Nat} (inside : start < limit) (small : start + size < 2 ^ 32) :
    cut limit start size = min size (limit - start) := by
  unfold cut
  rw [u32_of_lt small]
  split <;> omega

theorem cut_wraps {limit start size : Nat} (inside : start < limit) (small : size < 2 ^ 32)
    (wraps : 2 ^ 32 ≤ start + size) : cut limit start size = size := by
  unfold cut u32
  exact if_neg (by omega)

theorem cut_positive {limit start size : Nat} (inside : start < limit) (some_ : 0 < size) :
    0 < cut limit start size := by
  unfold cut
  split <;> omega

/-- What `fillRect` changes. -/
def filled (b : PixelBuffer) (x y w h : Nat) : Set Nat :=
  if b.width ≤ x ∨ b.height ≤ y then ∅
  else rows b x y (4 * cut b.width x w) (cut b.height y h)

theorem fill_row_overwrites (color : UInt32) (dst w : Nat) :
    Overwrites (PixelBuffer.fillRow color dst w) (Set.Ico dst (dst + 4 * w)) := by
  have columns := overwrites_iterate w fun col => overwrites_store (dst + 4 * col) color
  apply columns.congr
  intro i
  constructor
  · rintro ⟨col, before, low, high⟩
    constructor <;> omega
  · rintro ⟨low, high⟩
    refine ⟨(i - dst) / 4, by omega, ?_⟩
    constructor <;> omega

theorem fill_rect_overwrites (x y w h : Nat) (color : UInt32) :
    Overwrites (onMemory b fun b => b.fillRect x y w h color) (filled b x y w h) := by
  unfold filled
  by_cases outside : b.width ≤ x ∨ b.height ≤ y
  · have same : onMemory b (fun b => b.fillRect x y w h color) = fun m => m :=
      funext fun m => congrArg PixelBuffer.data (if_pos outside)
    rw [if_pos outside, same]
    exact Overwrites.nothing
  · have same : onMemory b (fun b => b.fillRect x y w h color) =
        iterate (fun row m => PixelBuffer.fillRow color (b.pixelAt x (u32 (y + row)))
          (cut b.width x w) m) (cut b.height y h) :=
      funext fun m => congrArg PixelBuffer.data (if_neg outside)
    rw [if_neg outside, same]
    exact overwrites_iterate _ fun row => fill_row_overwrites color _ _

theorem filled_outside {x y w h : Nat} (outside : b.width ≤ x ∨ b.height ≤ y) :
    filled b x y w h = ∅ := if_pos outside

theorem cut_zero {limit start : Nat} (inside : start < limit) : cut limit start 0 = 0 := by
  unfold cut u32
  exact if_neg (by omega)

theorem filled_empty {x y w h : Nat} (empty : w = 0 ∨ h = 0) : filled b x y w h = ∅ := by
  unfold filled
  by_cases outside : b.width ≤ x ∨ b.height ≤ y
  · exact if_pos outside
  · rw [if_neg outside]
    apply rows_empty
    rcases empty with rfl | rfl
    · exact Or.inl (by rw [cut_zero (by omega)])
    · exact Or.inr (cut_zero (by omega))

theorem filled_fits (sound : Sound b) {x y w h : Nat} (column : x < b.width) (low : y < b.height)
    (wide : x + w < 2 ^ 32) (high : y + h < 2 ^ 32) :
    filled b x y w h = visible b (rect x y w h) := by
  unfold filled
  rw [if_neg (by omega), cut_fits column wide, cut_fits low high,
    rows_inside sound (by omega) (by omega)]
  apply visible_congr
  intro c column r low
  unfold rect
  omega

theorem filled_wide (sound : Sound b) {x y w h : Nat} (column : x < b.width) (low : y < b.height)
    (small : w < 2 ^ 32) (some_ : 0 < h) (wraps : 2 ^ 32 ≤ x + w) :
    ∃ i ∈ filled b x y w h, 2 ^ 32 ≤ i := by
  have narrow := sound.width_lt
  have short := sound.height_lt
  unfold filled
  rw [if_neg (by omega), cut_wraps column small wraps]
  refine ⟨sound.raster.place x y + 4 * (w - 1), ⟨0, cut_positive low some_, ?_⟩, by omega⟩
  rw [Nat.add_zero, u32_of_lt (by omega), sound.pixel_at column low]
  constructor <;> omega

theorem filled_high (sound : Sound b) {x y w h : Nat} (column : x < b.width) (low : y < b.height)
    (some_ : 0 < w) (small : h < 2 ^ 32) (wraps : 2 ^ 32 ≤ y + h) :
    sound.raster.place x 0 ∈ filled b x y w h := by
  have short := sound.height_lt
  unfold filled
  rw [if_neg (by omega), cut_wraps low small wraps]
  have columns := cut_positive column some_
  exact rows_around sound column low (by omega) (by omega)

theorem filled_first (sound : Sound b) {x y w h : Nat} (column : x < b.width) (low : y < b.height)
    (some_ : 0 < w) (some' : 0 < h) : sound.raster.place x y ∈ filled b x y w h := by
  have columns := cut_positive column some_
  unfold filled
  rw [if_neg (by omega)]
  exact rows_first sound column low (by omega) (cut_positive low some')

/-- A rectangle that does not wrap around where it is drawn. -/
theorem filled_of_fits (sound : Sound b) {x y w h : Nat} (fits : RectFits b x y w h) :
    filled b (u32 x) (u32 y) w h = visible b (rect x y w h) := by
  by_cases drawn : u32 x < b.width ∧ u32 y < b.height
  · obtain ⟨wide, high⟩ := fits drawn.1 drawn.2
    have column := drawn.1
    have low := drawn.2
    rw [u32_of_lt (show x < _ by omega)] at column ⊢
    rw [u32_of_lt (show y < _ by omega)] at low ⊢
    exact filled_fits sound column low wide high
  · rw [filled_outside (by omega), visible_nothing]
    rintro c column r low ⟨⟨left, _⟩, top, _⟩
    unfold u32 at drawn
    omega

/-- Where a rectangle wraps around, a byte behind the buffer is changed, or a pixel that lies
left of the rectangle or above it. -/
theorem filled_of_wrap (sound : Sound b) {x y w h : Nat} (column : 0 < w) (wide : w < 2 ^ 32)
    (line : 0 < h) (high : h < 2 ^ 32) (left : x < 2 ^ 33) (top : y < 2 ^ 33)
    (wraps : ¬ RectFits b x y w h) :
    ∃ i ∈ filled b (u32 x) (u32 y) w h, 2 ^ 32 ≤ i ∨ ∃ c r, c < b.width ∧ r < b.height ∧
      i = sound.raster.place c r ∧
        (c + 2 ^ 32 = x ∨ r + 2 ^ 32 = y ∨ r = 0 ∧ 0 < y ∧ 2 ^ 32 ≤ y + h) := by
  unfold RectFits at wraps
  simp only [not_forall] at wraps
  obtain ⟨inside, inside', beyond⟩ := wraps
  have rest : ∀ n < 2 ^ 33, n < 2 ^ 32 ∧ u32 n = n ∨ u32 n + 2 ^ 32 = n := by
    intro n small
    unfold u32
    omega
  have first := filled_first sound inside inside' column line
  rcases rest x left with ⟨small, same⟩ | around
  · rcases rest y top with ⟨small', same'⟩ | around
    · rw [same] at inside first ⊢
      rw [same'] at inside' first ⊢
      by_cases sum : 2 ^ 32 ≤ x + w
      · obtain ⟨i, member, behind⟩ := filled_wide sound inside inside' wide line sum
        exact ⟨i, member, Or.inl behind⟩
      · have sum' : 2 ^ 32 ≤ y + h := by omega
        exact ⟨_, filled_high sound inside inside' column high sum', Or.inr
          ⟨x, 0, inside, by omega, rfl, Or.inr (Or.inr ⟨rfl, by omega, sum'⟩)⟩⟩
    · exact ⟨_, first, Or.inr ⟨_, _, inside, inside', rfl, Or.inr (Or.inl around)⟩⟩
  · exact ⟨_, first, Or.inr ⟨_, _, inside, inside', rfl, Or.inl around⟩⟩

end Rectangles

section Primitives

variable {b : PixelBuffer} (font : UInt8 → Nat → UInt8)

theorem fill_rect_clipped_iff (sound : Sound b) (x y w h color : UInt32) :
    changed (onMemory b ((Primitive.fillRect x y w h color).draw font)) =
        visible b (Primitive.fillRect x y w h color).shape ↔
      Fits b (.fillRect x y w h color) := by
  have all := x.toNat_lt
  have all' := y.toNat_lt
  have wide := w.toNat_lt
  have high := h.toNat_lt
  have columns : w = 0 ↔ w.toNat = 0 := UInt32.toNat_inj.symm
  have lines : h = 0 ↔ h.toNat = 0 := UInt32.toNat_inj.symm
  have effect : changed (onMemory b ((Primitive.fillRect x y w h color).draw font)) =
      filled b (u32 x.toNat) (u32 y.toNat) w.toNat h.toNat := by
    rw [u32_of_lt all, u32_of_lt all']
    exact (fill_rect_overwrites _ _ _ _ color).changed_bytes
  rw [effect]
  change _ = visible b (rect x.toNat y.toNat w.toNat h.toNat) ↔ (w = 0 ∨ h = 0 ∨ _)
  rw [columns, lines]
  constructor
  · intro same
    by_contra wraps
    simp only [not_or] at wraps
    obtain ⟨i, member, bad⟩ := filled_of_wrap sound (by omega) wide (by omega) high (by omega)
      (by omega) wraps.2.2
    rw [same] at member
    rcases bad with behind | ⟨c, r, column, low, rfl, place⟩
    · exact absurd (visible_small sound member) (by omega)
    · have inside := (mem_visible (k := 0) sound column low (by decide)).1 member
      unfold rect at inside
      omega
  · intro fits
    by_cases empty : w.toNat = 0 ∨ h.toNat = 0
    · rw [filled_empty empty, visible_nothing fun c _ r _ => rect_empty empty c r]
    · rcases fits with zero | zero | fits
      · exact absurd (Or.inl zero) empty
      · exact absurd (Or.inr zero) empty
      · exact filled_of_fits sound fits

theorem fill_rect_on (m : Bytes) (x y w h : Nat) (color : UInt32) :
    ({ b with data := m }).fillRect x y w h color =
      { b with data := onMemory b (fun b => b.fillRect x y w h color) m } := by
  have keeps : ∀ b : PixelBuffer, b.fillRect x y w h color =
      { b with data := (b.fillRect x y w h color).data } := by
    intro b
    unfold PixelBuffer.fillRect
    split <;> rfl
  exact keeps _

/-- What `drawRect` changes. -/
def framed (b : PixelBuffer) (x y w h : Nat) : Set Nat :=
  {i | ∃ e, e ∈ edges x y w h ∧ i ∈ filled b (u32 e.1) (u32 e.2.1) e.2.2.1 e.2.2.2}

theorem draw_rect_overwrites {x y w h : Nat} (left : x < 2 ^ 32) (top : y < 2 ^ 32)
    (nonempty : ¬ (w = 0 ∨ h = 0)) (color : UInt32) :
    Overwrites (onMemory b fun b => b.drawRect x y w h color) (framed b x y w h) := by
  have fills := fun x y w h => fill_rect_overwrites (b := b) x y w h color
  have both := (fills x y w 1).trans (fills x (u32 (y + h - 1)) w 1)
  have same : onMemory b (fun b => b.drawRect x y w h color) = fun m =>
      (if 2 < h then
        (({ b with data := m }.fillRect x y w 1 color).fillRect x (u32 (y + h - 1)) w 1 color
          |>.fillRect x (u32 (y + 1)) 1 (h - 2) color
          |>.fillRect (u32 (x + w - 1)) (u32 (y + 1)) 1 (h - 2) color)
      else ({ b with data := m }.fillRect x y w 1 color).fillRect x (u32 (y + h - 1)) w 1
        color).data :=
    funext fun m => congrArg PixelBuffer.data (if_neg nonempty)
  rw [same]
  simp only [fill_rect_on]
  unfold framed edges
  by_cases sides : 2 < h
  · simp only [if_pos sides]
    have all := (both.trans (fills x (u32 (y + 1)) 1 (h - 2))).trans
      (fills (u32 (x + w - 1)) (u32 (y + 1)) 1 (h - 2))
    apply all.congr
    intro i
    simp [u32_of_lt left, u32_of_lt top, or_assoc]
  · simp only [if_neg sides]
    apply both.congr
    intro i
    simp [u32_of_lt left, u32_of_lt top]

theorem border_edges {x y w h : Nat} (nonempty : ¬ (w = 0 ∨ h = 0)) (c r : Nat) :
    border x y w h c r ↔ ∃ e, e ∈ edges x y w h ∧ rect e.1 e.2.1 e.2.2.1 e.2.2.2 c r := by
  unfold border rect edges
  by_cases sides : 2 < h
  · simp [if_pos sides]
    omega
  · simp [if_neg sides]
    omega

/-- What an edge of the rectangle is, and that it wraps around to the left of the rectangle or above
it. -/
structure EdgeRange (x y ex ey ew eh : Nat) : Prop where
  column : 0 < ew
  wide : ew < 2 ^ 32
  line : 0 < eh
  high : eh < 2 ^ 32
  left : ex < 2 ^ 33
  top : ey < 2 ^ 33
  apart : ∀ c r, (c + 2 ^ 32 = ex ∨ r + 2 ^ 32 = ey ∨ r = 0 ∧ 0 < ey ∧ 2 ^ 32 ≤ ey + eh) →
    c < x ∨ r < y

theorem edge_range {x y w h : Nat} (left : x < 2 ^ 32) (top : y < 2 ^ 32) (wide : w < 2 ^ 32)
    (high : h < 2 ^ 32) (nonempty : ¬ (w = 0 ∨ h = 0)) {e : Nat × Nat × Nat × Nat}
    (member : e ∈ edges x y w h) : EdgeRange x y e.1 e.2.1 e.2.2.1 e.2.2.2 := by
  have cases : e = (x, y, w, 1) ∨ e = (x, y + h - 1, w, 1) ∨
      2 < h ∧ (e = (x, y + 1, 1, h - 2) ∨ e = (x + w - 1, y + 1, 1, h - 2)) := by
    unfold edges at member
    by_cases sides : 2 < h
    · simpa [if_pos sides, sides] using member
    · simpa [if_neg sides, sides] using member
  rcases cases with rfl | rfl | ⟨sides, rfl | rfl⟩
  all_goals
    dsimp only
    constructor
    case apart =>
      intro c r
      omega
    all_goals omega

theorem draw_rect_clipped_iff (sound : Sound b) (x y w h color : UInt32) :
    changed (onMemory b ((Primitive.drawRect x y w h color).draw font)) =
        visible b (Primitive.drawRect x y w h color).shape ↔
      Fits b (.drawRect x y w h color) := by
  have left := x.toNat_lt
  have top := y.toNat_lt
  have wide := w.toNat_lt
  have high := h.toNat_lt
  have columns : w = 0 ↔ w.toNat = 0 := UInt32.toNat_inj.symm
  have lines : h = 0 ↔ h.toNat = 0 := UInt32.toNat_inj.symm
  change _ = visible b (border x.toNat y.toNat w.toNat h.toNat) ↔ (w = 0 ∨ h = 0 ∨ _)
  rw [columns, lines]
  by_cases empty : w.toNat = 0 ∨ h.toNat = 0
  · have same : onMemory b ((Primitive.drawRect x y w h color).draw font) = fun m => m :=
      funext fun m => congrArg PixelBuffer.data (if_pos empty)
    rw [same, Overwrites.nothing.changed_bytes,
      visible_nothing fun c _ r _ inside => rect_empty empty c r inside.1]
    simpa [or_assoc] using Or.inl empty
  · have effect : changed (onMemory b ((Primitive.drawRect x y w h color).draw font)) =
        framed b x.toNat y.toNat w.toNat h.toNat :=
      (draw_rect_overwrites left top empty color).changed_bytes
    rw [effect]
    constructor
    · intro same
      refine Or.inr (Or.inr fun e member => ?_)
      by_contra wraps
      have edge := edge_range left top wide high empty member
      obtain ⟨i, changes, bad⟩ := filled_of_wrap sound edge.column edge.wide edge.line edge.high
        edge.left edge.top wraps
      have drawn : i ∈ framed b x.toNat y.toNat w.toNat h.toNat := ⟨e, member, changes⟩
      rw [same] at drawn
      rcases bad with behind | ⟨c, r, column, low, rfl, place⟩
      · exact absurd (visible_small sound drawn) (by omega)
      · have inside := ((mem_visible (k := 0) sound column low (by decide)).1 drawn).1
        have apart := edge.apart c r place
        unfold rect at inside
        omega
    · intro fits
      rw [visible_congr fun c _ r _ => border_edges empty c r, visible_some]
      unfold framed
      ext i
      apply exists_congr
      intro e
      apply and_congr_right
      intro member
      have fit : RectFits b e.1 e.2.1 e.2.2.1 e.2.2.2 := by
        rcases fits with zero | zero | fits
        · exact absurd (Or.inl zero) empty
        · exact absurd (Or.inr zero) empty
        · exact fits e member
      rw [filled_of_fits sound fit]

end Primitives

section Text

variable {b : PixelBuffer} (font : UInt8 → Nat → UInt8)

theorem store_overwrites (sound : Sound b) {x y : Nat} (column : x < b.width) (low : y < b.height)
    (color : UInt32) : Overwrites (fun m => storeWord m (b.pixelAt x y) color)
      (visible b fun c r => c = x ∧ r = y) := by
  apply (overwrites_store (b.pixelAt x y) color).congr
  intro i
  rw [sound.pixel_at column low]
  constructor
  · rintro ⟨after, before⟩
    exact ⟨x, y, i - sound.raster.place x y, column, low, by omega, ⟨rfl, rfl⟩, by
      change i = sound.raster.place x y + _
      omega⟩
  · rintro ⟨_, _, k, _, _, small, ⟨rfl, rfl⟩, rfl⟩
    exact ⟨Nat.le_add_right _ k, Nat.add_lt_add_left small _⟩

theorem draw_pixel_clipped (sound : Sound b) (x y color : UInt32) :
    changed (onMemory b ((Primitive.drawPixel x y color).draw font)) =
      visible b (Primitive.drawPixel x y color).shape := by
  by_cases inside : x.toNat < b.width ∧ y.toNat < b.height
  · have same : onMemory b ((Primitive.drawPixel x y color).draw font) =
        fun m => storeWord m (b.pixelAt x.toNat y.toNat) color :=
      funext fun m => congrArg PixelBuffer.data (if_pos inside)
    rw [same]
    exact (store_overwrites sound inside.1 inside.2 color).changed_bytes
  · have same : onMemory b ((Primitive.drawPixel x y color).draw font) = fun m => m :=
      funext fun m => congrArg PixelBuffer.data (if_neg inside)
    rw [same, Overwrites.nothing.changed_bytes, visible_nothing]
    rintro c column r low ⟨rfl, rfl⟩
    exact inside ⟨column, low⟩

theorem glyph_cols_overwrites (sound : Sound b) {x py : Nat} (low : py < b.height) (bits : UInt8)
    (fg bg : UInt32) (n col : Nat) (small : x + col + n < 2 ^ 32) :
    Overwrites (PixelBuffer.glyphCols b x py bits fg bg col n)
      (visible b (rect (x + col) py n 1)) := by
  induction n generalizing col with
  | zero =>
      rw [visible_nothing fun c _ r _ => rect_empty (Or.inl rfl) c r]
      exact Overwrites.nothing
  | succ n ih =>
      by_cases outside : b.width ≤ u32 (x + col)
      · have same : PixelBuffer.glyphCols b x py bits fg bg col (n + 1) = fun m => m :=
          funext fun m => if_pos outside
        rw [u32_of_lt (by omega)] at outside
        rw [same, visible_nothing]
        · exact Overwrites.nothing
        · intro c column r _
          unfold rect
          omega
      · have same : PixelBuffer.glyphCols b x py bits fg bg col (n + 1) = fun m =>
            PixelBuffer.glyphCols b x py bits fg bg (col + 1) n
              (storeWord m (b.pixelAt (u32 (x + col)) py)
                (PixelBuffer.glyphColor bits col fg bg)) :=
          funext fun m => if_neg outside
        rw [u32_of_lt (by omega)] at outside same
        rw [same]
        have one := store_overwrites sound (Nat.not_le.1 outside) low
          (PixelBuffer.glyphColor bits col fg bg)
        have all := one.trans (ih (col + 1) (by omega))
        rw [visible_union] at all
        rw [visible_congr]
        · exact all
        · intro c _ r _
          unfold rect
          omega

theorem glyph_rows_overwrites (sound : Sound b) {x y : Nat} (glyph : Nat → UInt8)
    (fg bg : UInt32) (wide : x + fontWidth < 2 ^ 32) (n row : Nat) (small : y + row + n < 2 ^ 32) :
    Overwrites (PixelBuffer.glyphRows b x y glyph fg bg row n)
      (visible b (rect x (y + row) fontWidth n)) := by
  induction n generalizing row with
  | zero =>
      rw [visible_nothing fun c _ r _ => rect_empty (Or.inr rfl) c r]
      exact Overwrites.nothing
  | succ n ih =>
      by_cases outside : b.height ≤ u32 (y + row)
      · have same : PixelBuffer.glyphRows b x y glyph fg bg row (n + 1) = fun m => m :=
          funext fun m => if_pos outside
        rw [u32_of_lt (by omega)] at outside
        rw [same, visible_nothing]
        · exact Overwrites.nothing
        · intro c _ r low
          unfold rect
          omega
      · have same : PixelBuffer.glyphRows b x y glyph fg bg row (n + 1) = fun m =>
            PixelBuffer.glyphRows b x y glyph fg bg (row + 1) n
              (PixelBuffer.glyphCols b x (u32 (y + row)) (glyph row) fg bg 0 fontWidth m) :=
          funext fun m => if_neg outside
        rw [u32_of_lt (by omega)] at outside same
        rw [same]
        have line := glyph_cols_overwrites sound (x := x) (Nat.not_le.1 outside) (glyph row) fg bg
          fontWidth 0 wide
        have all := line.trans (ih (row + 1) (by omega))
        rw [visible_union] at all
        rw [visible_congr]
        · exact all
        · intro c _ r _
          unfold rect
          omega

theorem glyph_rows_outside {x y : Nat} (left : x < 2 ^ 32) (top : y < 2 ^ 32)
    (outside : b.width ≤ x ∨ b.height ≤ y) (glyph : Nat → UInt8) (fg bg : UInt32) (n : Nat)
    (m : Bytes) : PixelBuffer.glyphRows b x y glyph fg bg 0 n m = m := by
  by_cases column : b.width ≤ x
  · have cols : ∀ py bits m, PixelBuffer.glyphCols b x py bits fg bg 0 fontWidth m = m := by
      intro py bits m
      apply if_pos
      rwa [Nat.add_zero, u32_of_lt left]
    have rows : ∀ n row, PixelBuffer.glyphRows b x y glyph fg bg row n m = m := by
      intro n
      induction n with
      | zero => exact fun _ => rfl
      | succ n ih =>
          intro row
          unfold PixelBuffer.glyphRows
          dsimp only
          rw [cols, ih]
          exact ite_self m
    exact rows n 0
  · cases n with
    | zero => rfl
    | succ n =>
        apply if_pos
        rw [Nat.add_zero, u32_of_lt top]
        exact outside.resolve_left column

/-- Of the buffer a glyph uses only where its pixels are. -/
theorem glyph_cols_on (m : Bytes) (x py : Nat) (bits : UInt8) (fg bg : UInt32) (n col : Nat) :
    PixelBuffer.glyphCols { b with data := m } x py bits fg bg col n =
      PixelBuffer.glyphCols b x py bits fg bg col n := by
  have place : ∀ x y, ({ b with data := m } : PixelBuffer).pixelAt x y = b.pixelAt x y :=
    fun _ _ => rfl
  induction n generalizing col with
  | zero => rfl
  | succ n ih =>
      funext data
      unfold PixelBuffer.glyphCols
      dsimp only
      rw [ih, place]

theorem glyph_rows_on (m : Bytes) (x y : Nat) (glyph : Nat → UInt8) (fg bg : UInt32)
    (n row : Nat) : PixelBuffer.glyphRows { b with data := m } x y glyph fg bg row n =
      PixelBuffer.glyphRows b x y glyph fg bg row n := by
  induction n generalizing row with
  | zero => rfl
  | succ n ih =>
      funext data
      unfold PixelBuffer.glyphRows
      dsimp only
      rw [ih, glyph_cols_on]

theorem draw_char_overwrites (sound : Sound b) {x y : Nat} (left : x < 2 ^ 32) (top : y < 2 ^ 32)
    (ch : UInt8) (fg bg : UInt32) :
    Overwrites (onMemory b fun b => b.drawChar font x y ch fg bg)
      (visible b (rect x y fontWidth fontHeight)) := by
  have narrow := sound.width_lt
  have short := sound.height_lt
  have same : onMemory b (fun b => b.drawChar font x y ch fg bg) =
      PixelBuffer.glyphRows b x y (font ch) fg bg 0 fontHeight :=
    funext fun m => congrFun (glyph_rows_on m x y (font ch) fg bg fontHeight 0) m
  rw [same]
  by_cases outside : b.width ≤ x ∨ b.height ≤ y
  · have nothing : PixelBuffer.glyphRows b x y (font ch) fg bg 0 fontHeight = fun m => m :=
      funext fun m => glyph_rows_outside left top outside _ fg bg _ m
    rw [nothing, visible_nothing]
    · exact Overwrites.nothing
    · intro c column r low
      unfold rect
      omega
  · have wide : x + fontWidth < 2 ^ 32 := by
      unfold fontWidth
      omega
    have high : y + 0 + fontHeight < 2 ^ 32 := by
      unfold fontHeight
      omega
    exact glyph_rows_overwrites sound (font ch) fg bg wide fontHeight 0 high

theorem draw_text_overwrites (sound : Sound b) {x y : Nat} (top : y < 2 ^ 32) (fg bg : UInt32)
    (text : List UInt8) (i : Nat) :
    Overwrites (onMemory b (PixelBuffer.drawFrom font x y fg bg i text))
      (visible b fun c r => ∃ j, (i ≤ j ∧ j < i + text.length) ∧
        rect (u32 (x + j * fontWidth)) y fontWidth fontHeight c r) := by
  induction text generalizing i with
  | nil =>
      rw [visible_nothing]
      · exact Overwrites.nothing
      · rintro c _ r _ ⟨j, ⟨after, before⟩, _⟩
        exact absurd before (by simpa using after)
  | cons ch rest ih =>
      have first := draw_char_overwrites (x := u32 (x + i * fontWidth)) font sound
        (Nat.mod_lt _ (by decide)) top ch fg bg
      have all := first.trans (ih (i + 1))
      rw [visible_union] at all
      rw [visible_congr]
      · exact all
      · intro c _ r _
        rw [List.length_cons]
        constructor
        · rintro ⟨j, ⟨after, before⟩, inside⟩
          by_cases here : j = i
          · exact Or.inl (here ▸ inside)
          · exact Or.inr ⟨j, ⟨by omega, by omega⟩, inside⟩
        · rintro (inside | ⟨j, ⟨after, before⟩, inside⟩)
          · exact ⟨i, ⟨Nat.le_refl i, by omega⟩, inside⟩
          · exact ⟨j, ⟨by omega, by omega⟩, inside⟩

theorem draw_text_clipped_iff (sound : Sound b) (x y : UInt32) (text : List UInt8)
    (fg bg : UInt32) :
    changed (onMemory b ((Primitive.drawText x y text fg bg).draw font)) =
        visible b (Primitive.drawText x y text fg bg).shape ↔
      Fits b (.drawText x y text fg bg) := by
  have left := x.toNat_lt
  have narrow := sound.width_lt
  have effect : changed (onMemory b ((Primitive.drawText x y text fg bg).draw font)) = _ :=
    (draw_text_overwrites (x := x.toNat) font sound y.toNat_lt fg bg text 0).changed_bytes
  rw [effect]
  constructor
  · intro same
    by_contra wraps
    change ¬ (b.height ≤ y.toNat ∨ _) at wraps
    simp only [not_or, not_forall, Nat.not_le] at wraps
    obtain ⟨low, i, before, first, column, wraps⟩ := wraps
    have around : u32 (x.toNat + i * fontWidth) + 2 ^ 32 = x.toNat + i * fontWidth := by
      unfold u32 fontWidth at *
      omega
    have drawn : sound.raster.place (u32 (x.toNat + i * fontWidth)) y.toNat + 0 ∈ visible b
        (Primitive.drawText x y text fg bg).shape := by
      rw [← same]
      apply (mem_visible sound column low (by decide)).2
      refine ⟨i, ⟨Nat.zero_le i, by omega⟩, ?_⟩
      unfold rect fontHeight
      generalize u32 (x.toNat + i * fontWidth) = start
      unfold fontWidth
      omega
    obtain ⟨j, _, ⟨after, _⟩, _⟩ := (mem_visible sound column low (by decide)).1 drawn
    unfold fontWidth at after around
    omega
  · intro fits
    apply visible_congr
    intro c column r low
    constructor
    · rintro ⟨i, ⟨_, before⟩, inside⟩
      have drawn := inside
      unfold rect fontHeight at drawn
      have fit := fits.resolve_left (by omega)
      have round := fit (i % 2 ^ 29) (Nat.lt_of_le_of_lt (Nat.mod_le _ _) (by omega))
        (Nat.mod_lt _ (by decide))
      refine ⟨i % 2 ^ 29, Nat.lt_of_le_of_lt (Nat.mod_le _ _) (by omega), ?_⟩
      unfold rect fontWidth fontHeight u32 at *
      omega
    · rintro ⟨i, before, inside⟩
      refine ⟨i, ⟨Nat.zero_le i, by omega⟩, ?_⟩
      have drawn := inside
      unfold rect fontWidth fontHeight at drawn
      rw [u32_of_lt (by unfold fontWidth; omega)]
      exact inside

end Text

section Blit

variable {b src : PixelBuffer} (font : UInt8 → Nat → UInt8)

/-- A size as a blit cuts it, first by the source and then by the target. -/
def span (d width s sourceWidth n : Nat) : Nat := cut width d (cut sourceWidth s n)

theorem span_fits {d width s sourceWidth n : Nat} (inside : d < width) (inside' : s < sourceWidth)
    (small : width < 2 ^ 30) (small' : sourceWidth < 2 ^ 30)
    (fits : SpanFits d width s sourceWidth n) :
    span d width s sourceWidth n = min n (min (sourceWidth - s) (width - d)) := by
  unfold span
  by_cases sum : s + n < 2 ^ 32
  · rw [cut_fits inside' sum, cut_fits inside (by omega)]
    omega
  · rcases fits with fit | ⟨sum', narrow⟩
    · exact absurd fit sum
    · have short : n < 2 ^ 32 := by omega
      rw [cut_wraps inside' short (by omega), cut_fits inside sum']
      omega

theorem span_wraps {d width s sourceWidth n : Nat} (inside : d < width) (inside' : s < sourceWidth)
    (small : width < 2 ^ 30) (small' : sourceWidth < 2 ^ 30) (short : n < 2 ^ 32)
    (wraps : ¬ SpanFits d width s sourceWidth n) :
    2 ^ 32 ≤ s + n ∧ (2 ^ 32 ≤ d + n ∧ span d width s sourceWidth n = n ∨
      sourceWidth - s < width - d ∧ span d width s sourceWidth n = width - d) := by
  unfold SpanFits at wraps
  have sum : 2 ^ 32 ≤ s + n := by omega
  refine ⟨sum, ?_⟩
  unfold span
  rw [cut_wraps inside' short sum]
  by_cases sum' : 2 ^ 32 ≤ d + n
  · exact Or.inl ⟨sum', cut_wraps inside short sum'⟩
  · rw [cut_fits inside (by omega)]
    omega

theorem span_positive {d width s sourceWidth n : Nat} (inside : d < width)
    (inside' : s < sourceWidth) (some_ : 0 < n) : 0 < span d width s sourceWidth n :=
  cut_positive inside (cut_positive inside' some_)

theorem blit_overwrites {dx dy sx sy : Nat} (w h : Nat) (column : dx < b.width)
    (low : dy < b.height) (column' : sx < src.width) (low' : sy < src.height) :
    Overwrites (onMemory b fun b => b.blit dx dy src sx sy w h)
      (rows b dx dy (u32 (span dx b.width sx src.width w * 4))
        (span dy b.height sy src.height h)) := by
  have same : onMemory b (fun b => b.blit dx dy src sx sy w h) =
      iterate (fun row m => copyBytes m (b.pixelAt dx (u32 (dy + row)))
        (fun i => src.data (u32 (src.pixelAt sx (u32 (sy + row)) + i)))
        (u32 (span dx b.width sx src.width w * 4))) (span dy b.height sy src.height h) :=
    funext fun m => congrArg PixelBuffer.data ((if_neg (by omega)).trans (if_neg (by
      change ¬ (b.width ≤ dx ∨ b.height ≤ dy)
      omega)))
  rw [same]
  exact overwrites_iterate _ fun row => overwrites_copy _ _ _

/-- A row that is not cut goes on behind the last column, where no pixel of the shape is. -/
theorem row_runs_over (sound : Sound b) {x y h n : Nat} (shape : Nat → Nat → Prop)
    (column : x < b.width) (low : y < b.height) (left : 0 < x) (lines : 0 < h)
    (bytes : 4 * (b.width - x) < n) (right : ∀ c r, shape c r → x ≤ c) :
    ∃ i ∈ rows b x y n h, i ∉ visible b shape := by
  have fits := sound.fits
  refine ⟨_, rows_at sound column lines (show y + 0 < _ from low) bytes, ?_⟩
  rintro ⟨c, r, k, column', low', small, inside, address⟩
  have after := right c r inside
  change sound.raster.row y * b.pitch + 4 * x + 4 * (b.width - x) =
    sound.raster.row r * b.pitch + 4 * c + k at address
  by_cases gap : 4 * b.width < b.pitch
  · have unique := index_unique gap (show 4 * c + k < b.pitch by omega)
      (show sound.raster.row y * b.pitch + 4 * b.width =
        sound.raster.row r * b.pitch + (4 * c + k) by omega)
    omega
  · have next : (sound.raster.row y + 1) * b.pitch + 0 =
        sound.raster.row r * b.pitch + (4 * c + k) := by
      rw [Nat.succ_mul]
      omega
    have unique := index_unique (show 0 < b.pitch by omega) (by omega) next
    omega

theorem blit_wraps (sound : Sound b) (source : Sound src) {dx dy sx sy w h : Nat}
    (column : dx < b.width) (low : dy < b.height) (column' : sx < src.width)
    (low' : sy < src.height) (wide : w < 2 ^ 32) (high : h < 2 ^ 32) (some_ : 0 < w)
    (some' : 0 < h) (wraps : ¬ (SpanFits dx b.width sx src.width w ∧
      SpanFits dy b.height sy src.height h)) :
    rows b dx dy (u32 (span dx b.width sx src.width w * 4)) (span dy b.height sy src.height h) ≠
      visible b fun c r => rect dx dy w h c r ∧ sx + (c - dx) < src.width ∧
        sy + (r - dy) < src.height := by
  have narrow := sound.width_lt
  have narrow' := source.width_lt
  have short := sound.height_lt
  have short' := source.height_lt
  have lines := span_positive low low' some'
  by_cases columns : SpanFits dx b.width sx src.width w
  · have cols := span_fits column column' narrow narrow' columns
    have bytes : 0 < u32 (span dx b.width sx src.width w * 4) := by
      rw [cols, u32_of_lt (by omega)]
      omega
    obtain ⟨sum, around | ⟨less, target⟩⟩ := span_wraps low low' short short' high fun lines =>
      wraps ⟨columns, lines⟩
    · intro same
      have first := rows_around sound column low bytes
        (show b.height < dy + span dy b.height sy src.height h by omega)
      rw [same] at first
      have inside := (mem_visible (k := 0) sound column (by omega) (by decide)).1 first
      unfold rect at inside
      omega
    · intro same
      have last := rows_at (k := 0) sound column
        (show b.height - dy - 1 < span dy b.height sy src.height h by omega)
        (show dy + (b.height - dy - 1) < b.height by omega) bytes
      rw [same] at last
      have inside := (mem_visible sound column (by omega) (by decide)).1 last
      omega
  · obtain ⟨sum, ⟨sum', whole⟩ | ⟨less, target⟩⟩ :=
      span_wraps column column' narrow narrow' wide columns
    · intro same
      obtain ⟨i, member, apart⟩ := row_runs_over sound
        (fun c r => rect dx dy w h c r ∧ sx + (c - dx) < src.width ∧ sy + (r - dy) < src.height)
        column low (by omega) lines
        (show 4 * (b.width - dx) < u32 (span dx b.width sx src.width w * 4) by
          rw [whole]
          unfold u32
          omega) fun c r inside => inside.1.1.1
      exact apart (same ▸ member)
    · intro same
      have last := rows_at sound column lines (show dy + 0 < _ from low)
        (show 4 * (b.width - dx - 1) < u32 (span dx b.width sx src.width w * 4) by
          rw [target, u32_of_lt (by omega)]
          omega)
      rw [same, sound.raster.place_add] at last
      have inside := (mem_visible (k := 0) sound (by omega) low (by decide)).1 last
      omega

theorem fits_spans {dx dy sx sy w h : UInt32} (column : dx.toNat < b.width)
    (low : dy.toNat < b.height) (column' : sx.toNat < src.width) (low' : sy.toNat < src.height)
    (nonempty : ¬ (w.toNat = 0 ∨ h.toNat = 0)) (fits : Fits b (.blit dx dy src sx sy w h)) :
    SpanFits dx.toNat b.width sx.toNat src.width w.toNat ∧
      SpanFits dy.toNat b.height sy.toNat src.height h.toNat := by
  rcases fits with rfl | rfl | far | far | far | far | spans
  · exact absurd (Or.inl rfl) nonempty
  · exact absurd (Or.inr rfl) nonempty
  · omega
  · omega
  · omega
  · omega
  · exact spans

theorem blit_clipped_iff (sound : Sound b) (source : Sound src) (dx dy sx sy w h : UInt32) :
    changed (onMemory b ((Primitive.blit dx dy src sx sy w h).draw font)) =
        visible b (Primitive.blit dx dy src sx sy w h).shape ↔
      Fits b (.blit dx dy src sx sy w h) := by
  have narrow := sound.width_lt
  have narrow' := source.width_lt
  have short := sound.height_lt
  have short' := source.height_lt
  have columns : w = 0 ↔ w.toNat = 0 := UInt32.toNat_inj.symm
  have lines : h = 0 ↔ h.toNat = 0 := UInt32.toNat_inj.symm
  change _ = visible b (fun c r => rect dx.toNat dy.toNat w.toNat h.toNat c r ∧
    sx.toNat + (c - dx.toNat) < src.width ∧ sy.toNat + (r - dy.toNat) < src.height) ↔
      (w = 0 ∨ h = 0 ∨ _)
  rw [columns, lines]
  by_cases outside : src.width ≤ sx.toNat ∨ src.height ≤ sy.toNat ∨ b.width ≤ dx.toNat ∨
      b.height ≤ dy.toNat
  · have same : onMemory b ((Primitive.blit dx dy src sx sy w h).draw font) = fun m => m := by
      funext m
      by_cases first : src.width ≤ sx.toNat ∨ src.height ≤ sy.toNat
      · exact congrArg PixelBuffer.data (if_pos first)
      · exact congrArg PixelBuffer.data ((if_neg first).trans (if_pos (by
          change b.width ≤ dx.toNat ∨ b.height ≤ dy.toNat
          omega)))
    rw [same, Overwrites.nothing.changed_bytes, visible_nothing]
    · apply iff_of_true rfl
      rcases outside with far | far | far | far
      · exact Or.inr (Or.inr (Or.inl far))
      · exact Or.inr (Or.inr (Or.inr (Or.inl far)))
      · exact Or.inr (Or.inr (Or.inr (Or.inr (Or.inl far))))
      · exact Or.inr (Or.inr (Or.inr (Or.inr (Or.inr (Or.inl far)))))
    · rintro c column r low ⟨⟨⟨_, _⟩, _, _⟩, _, _⟩
      omega
  · have column : dx.toNat < b.width := by omega
    have low : dy.toNat < b.height := by omega
    have column' : sx.toNat < src.width := by omega
    have low' : sy.toNat < src.height := by omega
    have effect : changed (onMemory b ((Primitive.blit dx dy src sx sy w h).draw font)) = _ :=
      (blit_overwrites w.toNat h.toNat column low column' low').changed_bytes
    rw [effect]
    constructor
    · intro same
      by_contra wraps
      simp only [not_or] at wraps
      exact blit_wraps sound source column low column' low' w.toNat_lt h.toNat_lt (by omega)
        (by omega) wraps.2.2.2.2.2.2 same
    · intro fits
      by_cases empty : w.toNat = 0 ∨ h.toNat = 0
      · rw [visible_nothing fun c _ r _ inside => rect_empty empty c r inside.1]
        apply rows_empty
        unfold span
        rcases empty with zero | zero
        · rw [zero, cut_zero column', cut_zero column]
          exact Or.inl rfl
        · rw [zero, cut_zero low', cut_zero low]
          exact Or.inr rfl
      · have spans : SpanFits dx.toNat b.width sx.toNat src.width w.toNat ∧
            SpanFits dy.toNat b.height sy.toNat src.height h.toNat :=
          fits_spans column low column' low' empty (by
            change w = 0 ∨ h = 0 ∨ _
            rwa [columns, lines])
        rw [span_fits column column' narrow narrow' spans.1,
          span_fits low low' short short' spans.2, u32_of_lt (by omega), Nat.mul_comm,
          rows_inside sound (by omega) (by omega)]
        apply visible_congr
        intro c column r low
        unfold rect
        omega

theorem blit_reads (sound : Sound b) (source : Sound src) {dx dy sx sy w h : UInt32}
    (fits : Fits b (.blit dx dy src sx sy w h)) {m m' : Bytes}
    (same : ∀ i < src.height * src.pitch, m i = m' i) :
    b.blit dx.toNat dy.toNat { src with data := m } sx.toNat sy.toNat w.toNat h.toNat =
      b.blit dx.toNat dy.toNat { src with data := m' } sx.toNat sy.toNat w.toNat h.toNat := by
  have narrow := sound.width_lt
  have narrow' := source.width_lt
  have short := sound.height_lt
  have short' := source.height_lt
  have pitch := source.fits
  unfold PixelBuffer.blit
  dsimp only
  by_cases first : src.width ≤ sx.toNat ∨ src.height ≤ sy.toNat
  · rw [if_pos first, if_pos first]
  rw [if_neg first, if_neg first]
  by_cases second : b.width ≤ dx.toNat ∨ b.height ≤ dy.toNat
  · rw [if_pos second, if_pos second]
  rw [if_neg second, if_neg second]
  congr 1
  apply iterate_congr
  intro row before data
  apply copy_congr
  intro i inside
  change row < span dy.toNat b.height sy.toNat src.height h.toNat at before
  change i < u32 (span dx.toNat b.width sx.toNat src.width w.toNat * 4) at inside
  have column : dx.toNat < b.width := by omega
  have low : dy.toNat < b.height := by omega
  have column' : sx.toNat < src.width := by omega
  have low' : sy.toNat < src.height := by omega
  have spans : SpanFits dx.toNat b.width sx.toNat src.width w.toNat ∧
      SpanFits dy.toNat b.height sy.toNat src.height h.toNat := by
    apply fits_spans column low column' low' _ fits
    rintro (zero | zero)
    · unfold span at inside
      rw [zero, cut_zero column', cut_zero column] at inside
      exact absurd inside (Nat.not_lt_zero i)
    · unfold span at before
      rw [zero, cut_zero low', cut_zero low] at before
      exact absurd before (Nat.not_lt_zero row)
  rw [span_fits low low' short short' spans.2] at before
  rw [span_fits column column' narrow narrow' spans.1, u32_of_lt (by omega)] at inside
  have address : src.pixelAt sx.toNat (u32 (sy.toNat + row)) =
      source.raster.row (sy.toNat + row) * src.pitch + 4 * sx.toNat := by
    rw [u32_of_lt (by omega), source.pixel_at column' (by omega)]
    rfl
  have area := index_lt (source.raster.row_lt (sy.toNat + row))
    (show 4 * sx.toNat + i < src.pitch by omega)
  have size := source.small
  change source.raster.row (sy.toNat + row) * src.pitch + (4 * sx.toNat + i) <
    src.height * src.pitch at area
  change m (u32 (src.pixelAt sx.toNat (u32 (sy.toNat + row)) + i)) =
    m' (u32 (src.pixelAt sx.toNat (u32 (sy.toNat + row)) + i))
  apply same
  rw [address, u32_of_lt (by omega)]
  omega

end Blit

section Law

variable {b : PixelBuffer} (font : UInt8 → Nat → UInt8)

/-- A primitive is clipped exactly when no sum wraps around where it matters. -/
theorem clipped_iff (sound : Sound b) (p : Primitive) (valid : p.Valid) :
    Clipped font b p ↔ Fits b p := by
  have alone : (∀ m, p.withSource m = p) → (changed (onMemory b (p.draw font)) =
      visible b p.shape ↔ Fits b p) → (Clipped font b p ↔ Fits b p) := by
    intro plain writes
    rw [← writes]
    exact ⟨Clipped.writes, fun same => ⟨same, fun m m' _ => by rw [plain, plain]⟩⟩
  cases p with
  | drawPixel x y color =>
      exact alone (fun _ => rfl) (iff_of_true (draw_pixel_clipped font sound x y color) trivial)
  | fillRect x y w h color =>
      exact alone (fun _ => rfl) (fill_rect_clipped_iff font sound x y w h color)
  | drawRect x y w h color =>
      exact alone (fun _ => rfl) (draw_rect_clipped_iff font sound x y w h color)
  | drawChar x y ch fg bg =>
      exact alone (fun _ => rfl) (iff_of_true
        (draw_char_overwrites font sound x.toNat_lt y.toNat_lt ch fg bg).changed_bytes trivial)
  | drawText x y text fg bg =>
      exact alone (fun _ => rfl) (draw_text_clipped_iff font sound x y text fg bg)
  | blit dx dy src sx sy w h =>
      have writes := blit_clipped_iff font sound valid dx dy sx sy w h
      constructor
      · intro clipped
        exact writes.1 clipped.writes
      · intro fits
        exact ⟨writes.2 fits, fun m m' same => blit_reads sound valid fits same⟩

def twoPixels : PixelBuffer := .construct (fun _ => 0) 2 1 8

theorem two_pixels_sound : Sound twoPixels := by
  constructor <;> decide

/-- A rectangle that reaches out of the buffer on two sides. -/
theorem rectangle_clipped :
    Clipped (fun _ _ => 0) twoPixels (.fillRect 1 0 0xFFFFFFFE 5 0xFF) := by
  apply (clipped_iff _ two_pixels_sound (.fillRect 1 0 0xFFFFFFFE 5 0xFF) trivial).2
  exact Or.inr (Or.inr fun _ _ => by decide)

/-- One column more, and the row is not cut. -/
theorem rectangle_not_clipped : Sound twoPixels ∧
    ¬ Clipped (fun _ _ => 0) twoPixels (.fillRect 1 0 0xFFFFFFFF 1 0xFF) := by
  refine ⟨two_pixels_sound, ?_⟩
  intro clipped
  have fits := (fill_rect_clipped_iff _ two_pixels_sound _ _ _ _ _).1 clipped.writes
  rcases fits with zero | zero | fits
  · exact absurd zero (by decide)
  · exact absurd zero (by decide)
  · exact absurd (fits (by decide) (by decide)).1 (by decide)

end Law

end CassiOS.Graphics.Clipping
