import CassiOS.Graphics.Drawing
import Mathlib.Data.List.Induction

/-!
# The display shows a scrolling image

The reference is a plain image of rows and columns: a drawing call colors pixels of it, and
scrolling moves all rows up. The buffer of the display holds the image with its rows as a
ring, and a flush puts it in order.
-/

namespace CassiOS.Graphics.ScrollingImage

open CassiOS.Graphics.Drawing
open CassiOS.Support.RowMajor
open CassiOS.Support.Rasters
open CassiOS.Support.Words

set_option autoImplicit false

section Reference

abbrev Image := Nat → Nat → UInt32

def rect (x y w h c r : Nat) : Prop := (x ≤ c ∧ c < x + w) ∧ y ≤ r ∧ r < y + h

instance (x y w h c r : Nat) : Decidable (rect x y w h c r) :=
  inferInstanceAs (Decidable ((x ≤ c ∧ c < x + w) ∧ y ≤ r ∧ r < y + h))

def border (x y w h c r : Nat) : Prop :=
  rect x y w h c r ∧ (c = x ∨ c + 1 = x + w ∨ r = y ∨ r + 1 = y + h)

instance (x y w h c r : Nat) : Decidable (border x y w h c r) :=
  inferInstanceAs (Decidable (rect x y w h c r ∧ (c = x ∨ c + 1 = x + w ∨ r = y ∨ r + 1 = y + h)))

/-- A pixel of a source image of width `w`, in a memory with addresses of 32 bits. -/
def sourcePixel (pixels : Bytes) (w c r : Nat) : UInt32 :=
  loadWord (fun i => pixels (u32 (4 * (r * w + c) + i))) 0

variable (font : UInt8 → Nat → UInt8)

def painting : Call → Nat → Nat → Option UInt32
  | .fillRect x y w h color, c, r => if rect x y w h c r then some color else none
  | .drawRect x y w h color, c, r => if border x y w h c r then some color else none
  | .blit x y w h pixels, c, r =>
      if rect x y w h c r then some (sourcePixel pixels w (c - x) (r - y)) else none
  | .drawChar x y ch fg bg, c, r =>
      if rect x y fontWidth fontHeight c r then
        some (PixelBuffer.glyphColor (font ch (r - y)) (c - x) fg bg)
      else none
  | .scroll _ _, _, _ => none
  | .flush, _, _ => none

/-- What a call does to an image of `height` rows. -/
def Image.apply (height : Nat) (image : Image) : Call → Image
  | .scroll pixels color => fun c r => if r + pixels < height then image c (r + pixels) else color
  | call => fun c r => (painting font call c r).getD (image c r)

def Image.run (height : Nat) (image : Image) (calls : List Call) : Image :=
  calls.foldl (Image.apply font height) image

def imageOf (data : Bytes) (pitch : Nat) : Image := fun c r => loadWord data (r * pitch + 4 * c)

def InRange : Call → Prop
  | .fillRect x y w h _ => x + w < 2 ^ 32 ∧ y + h < 2 ^ 32
  | .drawRect x y w h _ => x + w < 2 ^ 32 ∧ y + h < 2 ^ 32
  | .blit x y w h _ => x + w < 2 ^ 32 ∧ y + h < 2 ^ 32
  | .drawChar x y _ _ _ => x + fontWidth < 2 ^ 32 ∧ y + fontHeight < 2 ^ 32
  | .scroll _ _ => True
  | .flush => True

instance : (call : Call) → Decidable (InRange call)
  | .fillRect x y w h _ => inferInstanceAs (Decidable (x + w < 2 ^ 32 ∧ y + h < 2 ^ 32))
  | .drawRect x y w h _ => inferInstanceAs (Decidable (x + w < 2 ^ 32 ∧ y + h < 2 ^ 32))
  | .blit x y w h _ => inferInstanceAs (Decidable (x + w < 2 ^ 32 ∧ y + h < 2 ^ 32))
  | .drawChar x y _ _ _ =>
      inferInstanceAs (Decidable (x + fontWidth < 2 ^ 32 ∧ y + fontHeight < 2 ^ 32))
  | .scroll _ _ => .isTrue trivial
  | .flush => .isTrue trivial

def isDrawing : Call → Prop
  | .flush => False
  | _ => True

instance : (call : Call) → Decidable (isDrawing call)
  | .flush => .isFalse id
  | .fillRect .. => .isTrue trivial
  | .drawRect .. => .isTrue trivial
  | .blit .. => .isTrue trivial
  | .drawChar .. => .isTrue trivial
  | .scroll .. => .isTrue trivial

end Reference

section Buffer

structure Sound (b : PixelBuffer) : Prop where
  fits : 4 * b.width ≤ b.pitch
  inside : b.scrollOffset < b.height
  small : b.height * b.pitch < 2 ^ 32
  column : 0 < b.width

variable {b : PixelBuffer}

def Sound.raster (sound : Sound b) : Raster :=
  ⟨b.width, b.height, b.pitch, b.scrollOffset, sound.fits, sound.inside⟩

theorem Sound.height_lt (sound : Sound b) : b.height < 2 ^ 30 := by
  have fits := sound.fits
  have column := sound.column
  have small := sound.small
  have area : b.height * 4 ≤ b.height * b.pitch := Nat.mul_le_mul_left _ (by omega)
  omega

theorem Sound.width_lt (sound : Sound b) : b.width < 2 ^ 30 := by
  have fits := sound.fits
  have inside := sound.inside
  have small := sound.small
  have area : 1 * b.pitch ≤ b.height * b.pitch := Nat.mul_le_mul_right _ (by omega)
  omega

theorem Sound.pixel_at (sound : Sound b) {x y : Nat} (column : x < b.width) (low : y < b.height) :
    b.pixelAt x y = sound.raster.place x y := by
  have fits := sound.fits
  have inside := sound.inside
  have rows := sound.height_lt
  have small := sound.small
  have line : (y + b.scrollOffset) % b.height < b.height := Nat.mod_lt _ (by omega)
  have area := index_lt line (show 4 * x < b.pitch by omega)
  have wrapped : b.wrap y = (y + b.scrollOffset) % b.height := by
    unfold PixelBuffer.wrap
    rw [if_pos (by omega), u32_of_lt (by omega)]
  unfold PixelBuffer.pixelAt
  rw [wrapped, u32_of_lt (show (y + b.scrollOffset) % b.height * b.pitch < _ by omega),
    u32_of_lt (by omega)]
  rfl

theorem painted_row (g : Raster) (data : Bytes) {x y w : Nat} (columns : x + w ≤ g.width)
    (low : y < g.height) (color : UInt32) :
    Painted g data (PixelBuffer.fillRow color (g.place x y) w data)
      fun c r => if (x ≤ c ∧ c < x + w) ∧ r = y then some color else none := by
  unfold PixelBuffer.fillRow
  have rounds : ∀ j < w, ∀ data, Painted g data (storeWord data (g.place x y + 4 * j) color)
      fun c r => if c = x + j then (if r = y then some color else none) else none := by
    intro j before data
    rw [g.place_add]
    apply (painted_store data (by omega) low color).congr
    intro c _ r _
    by_cases column : c = x + j
    · rw [if_pos column]
      exact if_congr (and_iff_right column) rfl rfl
    · rw [if_neg column, if_neg fun both => column both.1]
  apply (painted_iterate rounds data).congr
  intro c _ r _
  rw [latest_lines (fun c _ => c) (fun _ r => if r = y then some color else none)
    (fun _ _ _ => rfl)]
  by_cases inside : x ≤ c ∧ c < x + w
  · rw [if_pos inside]
    exact (if_congr (and_iff_right inside) rfl rfl).symm
  · rw [if_neg inside, if_neg fun both => inside both.1]

theorem painted_rows {g : Raster} {body : Nat → Bytes → Bytes} {h : Nat} (y : Nat)
    (color : Nat → Nat → Option UInt32)
    (rows : ∀ j < h, ∀ data, Painted g data (body j data)
      fun c r => if r = y + j then color c r else none) (data : Bytes) :
    Painted g data (iterate body h data)
      fun c r => if y ≤ r ∧ r < y + h then color c r else none := by
  apply (painted_iterate rows data).congr
  intro c _ r _
  exact latest_lines (fun _ r => r) color (fun _ _ _ => rfl) c r

theorem clipped {x w width : Nat} (column : x < width) (small : x + w < 2 ^ 32) :
    x + (if width < u32 (x + w) then width - x else w) ≤ width ∧
    ∀ c < width, c < x + (if width < u32 (x + w) then width - x else w) ↔ c < x + w := by
  rw [u32_of_lt small]
  split
  · exact ⟨by omega, fun c _ => by omega⟩
  · exact ⟨by omega, fun c _ => Iff.rfl⟩

/-- A drawing operation changes the pixels of the buffer and nothing else. -/
def Draws (sound : Sound b) (b' : PixelBuffer) (paint : Nat → Nat → Option UInt32) : Prop :=
  ∃ data, b' = { b with data := data } ∧ Painted sound.raster b.data data paint

variable {b' b'' : PixelBuffer} {paint paint' : Nat → Nat → Option UInt32}

theorem Draws.congr {sound : Sound b} (draws : Draws sound b' paint)
    (same : ∀ c < b.width, ∀ r < b.height, paint c r = paint' c r) : Draws sound b' paint' := by
  obtain ⟨data, equal, painted⟩ := draws
  exact ⟨data, equal, painted.congr same⟩

theorem Draws.nothing (sound : Sound b) : Draws sound b fun _ _ => none :=
  ⟨b.data, rfl, .refl _ _⟩

theorem Draws.sound {sound : Sound b} (draws : Draws sound b' paint) : Sound b' := by
  obtain ⟨data, rfl, _⟩ := draws
  exact ⟨sound.fits, sound.inside, sound.small, sound.column⟩

theorem Draws.trans {sound : Sound b} (first : Draws sound b' paint)
    (second : ∀ sound' : Sound b', Draws sound' b'' paint') :
    Draws sound b'' fun c r => (paint' c r).or (paint c r) := by
  have next := first.sound
  obtain ⟨data, rfl, painted⟩ := first
  obtain ⟨data', rfl, painted'⟩ := second next
  exact ⟨data', rfl, painted.trans painted'⟩

theorem fill_rect_draws (sound : Sound b) {x y w h : Nat} (wide : x + w < 2 ^ 32)
    (high : y + h < 2 ^ 32) (color : UInt32) : Draws sound (b.fillRect x y w h color)
      fun c r => if rect x y w h c r then some color else none := by
  have rows := sound.height_lt
  unfold PixelBuffer.fillRect
  by_cases outside : b.width ≤ x ∨ b.height ≤ y
  · rw [if_pos outside]
    refine ⟨b.data, rfl, (Painted.refl _ _).congr ?_⟩
    intro c column r low
    apply (if_neg _).symm
    rintro ⟨⟨_, _⟩, _, _⟩
    change c < b.width at column
    change r < b.height at low
    omega
  · rw [if_neg outside]
    rw [not_or, Nat.not_le, Nat.not_le] at outside
    have columns := clipped outside.1 wide
    have lines := clipped outside.2 high
    refine ⟨_, rfl, (painted_rows y (fun c _ => if x ≤ c ∧
      c < x + (if b.width < u32 (x + w) then b.width - x else w) then some color else none)
      ?_ _).congr ?_⟩
    · intro j before data
      rw [u32_of_lt (by omega), sound.pixel_at outside.1 (by omega)]
      apply (painted_row sound.raster data columns.1 (show y + j < b.height by omega) color).congr
      intro c _ r _
      by_cases line : r = y + j
      · rw [if_pos line]
        exact if_congr (and_iff_left line) rfl rfl
      · rw [if_neg line, if_neg fun both => line both.2]
    · intro c column r low
      have cut := columns.2 c column
      have cut' := lines.2 r low
      by_cases line : y ≤ r ∧ r < y + (if b.height < u32 (y + h) then b.height - y else h)
      · rw [if_pos line]
        apply if_congr _ rfl rfl
        rw [cut]
        exact ⟨fun place => ⟨place, line.1, cut'.1 line.2⟩, And.left⟩
      · rw [if_neg line, if_neg]
        exact fun inside => line ⟨inside.2.1, cut'.2 inside.2.2⟩

theorem or_of_color {p q : Prop} [Decidable p] [Decidable q] (color : UInt32) :
    (if p then some color else none).or (if q then some color else none) =
      if p ∨ q then some color else none := by
  by_cases left : p
  · rw [if_pos left, if_pos (Or.inl left : p ∨ q)]
    rfl
  · rw [if_neg left, Option.none_or]
    exact if_congr (or_iff_right left).symm rfl rfl

theorem draw_rect_draws (sound : Sound b) {x y w h : Nat} (wide : x + w < 2 ^ 32)
    (high : y + h < 2 ^ 32) (color : UInt32) : Draws sound (b.drawRect x y w h color)
      fun c r => if border x y w h c r then some color else none := by
  unfold PixelBuffer.drawRect
  by_cases empty : w = 0 ∨ h = 0
  · rw [if_pos empty]
    apply (Draws.nothing sound).congr
    intro c _ r _
    apply (if_neg _).symm
    rintro ⟨⟨_, _⟩, _⟩
    omega
  rw [if_neg empty, u32_of_lt (show y + h - 1 < _ by omega),
    u32_of_lt (show x + w - 1 < _ by omega)]
  rw [not_or] at empty
  have top := fill_rect_draws sound (y := y) (h := 1) wide (by omega) color
  have bottom := top.trans fun sound' =>
    fill_rect_draws sound' (y := y + h - 1) (h := 1) wide (by omega) color
  dsimp only
  by_cases sides : 2 < h
  · rw [if_pos sides, u32_of_lt (show y + 1 < _ by omega)]
    have left := bottom.trans fun sound' =>
      fill_rect_draws sound' (x := x) (w := 1) (y := y + 1) (h := h - 2) (by omega) (by omega) color
    have right := left.trans fun sound' =>
      fill_rect_draws sound' (x := x + w - 1) (w := 1) (y := y + 1) (h := h - 2) (by omega)
        (by omega) color
    apply right.congr
    intro c _ r _
    rw [or_of_color, or_of_color, or_of_color]
    apply if_congr _ rfl rfl
    unfold border rect
    omega
  · rw [if_neg sides]
    apply bottom.congr
    intro c _ r _
    rw [or_of_color]
    apply if_congr _ rfl rfl
    unfold border rect
    omega

theorem painted_glyph_cols (sound : Sound b) {x py : Nat} (low : py < b.height) (bits : UInt8)
    (fg bg : UInt32) (n col : Nat) (small : x + col + n < 2 ^ 32) (data : Bytes) :
    Painted sound.raster data (PixelBuffer.glyphCols b x py bits fg bg col n data)
      fun c r => if (x + col ≤ c ∧ c < x + col + n) ∧ r = py then
        some (PixelBuffer.glyphColor bits (c - x) fg bg) else none := by
  induction n generalizing col data with
  | zero =>
      apply (Painted.refl _ _).congr
      intro c _ r _
      exact (if_neg (by omega)).symm
  | succ n ih =>
      unfold PixelBuffer.glyphCols
      rw [u32_of_lt (by omega)]
      dsimp only
      by_cases outside : b.width ≤ x + col
      · rw [if_pos outside]
        apply (Painted.refl _ _).congr
        intro c column r _
        change c < b.width at column
        exact (if_neg (by omega)).symm
      · rw [if_neg outside, sound.pixel_at (Nat.not_le.1 outside) low]
        have one := painted_store (g := sound.raster) data (Nat.not_le.1 outside) low
          (PixelBuffer.glyphColor bits col fg bg)
        apply (one.trans (ih (col + 1) (by omega) _)).congr
        intro c _ r _
        by_cases here : c = x + col ∧ r = py
        · obtain ⟨rfl, rfl⟩ := here
          rw [if_neg (by omega), if_pos ⟨rfl, rfl⟩, if_pos (by omega),
            Nat.add_sub_cancel_left]
          rfl
        · rw [if_neg here, Option.or_none]
          apply if_congr _ rfl rfl
          omega

theorem painted_glyph_rows (sound : Sound b) {x y : Nat} (glyph : Nat → UInt8) (fg bg : UInt32)
    (wide : x + fontWidth < 2 ^ 32) (n row : Nat) (small : y + row + n < 2 ^ 32) (data : Bytes) :
    Painted sound.raster data (PixelBuffer.glyphRows b x y glyph fg bg row n data)
      fun c r => if (x ≤ c ∧ c < x + fontWidth) ∧ y + row ≤ r ∧ r < y + row + n then
        some (PixelBuffer.glyphColor (glyph (r - y)) (c - x) fg bg) else none := by
  induction n generalizing row data with
  | zero =>
      apply (Painted.refl _ _).congr
      intro c _ r _
      exact (if_neg (by omega)).symm
  | succ n ih =>
      unfold PixelBuffer.glyphRows
      rw [u32_of_lt (by omega)]
      dsimp only
      by_cases outside : b.height ≤ y + row
      · rw [if_pos outside]
        apply (Painted.refl _ _).congr
        intro c _ r low
        change r < b.height at low
        exact (if_neg (by omega)).symm
      · rw [if_neg outside]
        have line := painted_glyph_cols sound (x := x) (Nat.not_le.1 outside) (glyph row) fg bg
          fontWidth 0 wide data
        apply (line.trans (ih (row + 1) (by omega) _)).congr
        intro c _ r _
        simp only [Nat.add_zero]
        by_cases here : (x ≤ c ∧ c < x + fontWidth) ∧ r = y + row
        · obtain ⟨column, rfl⟩ := here
          rw [if_neg (by omega), if_pos ⟨column, rfl⟩, if_pos (by omega),
            Nat.add_sub_cancel_left]
          rfl
        · rw [if_neg here, Option.or_none]
          apply if_congr _ rfl rfl
          omega

theorem draw_char_draws (font : UInt8 → Nat → UInt8) (sound : Sound b) {x y : Nat} (ch : UInt8)
    (fg bg : UInt32) (wide : x + fontWidth < 2 ^ 32) (high : y + fontHeight < 2 ^ 32) :
    Draws sound (b.drawChar font x y ch fg bg) fun c r =>
      if rect x y fontWidth fontHeight c r then
        some (PixelBuffer.glyphColor (font ch (r - y)) (c - x) fg bg) else none :=
  ⟨_, rfl, painted_glyph_rows sound (font ch) fg bg wide fontHeight 0 high b.data⟩

theorem source_address (pixels : Bytes) {w h row : Nat} (inside : row < h) (small : h < 2 ^ 32) :
    (PixelBuffer.construct pixels w h (u32 (w * 4))).pixelAt 0 row = u32 (row * w * 4) := by
  have wrapped : (PixelBuffer.construct pixels w h (u32 (w * 4))).wrap row = row := by
    unfold PixelBuffer.wrap PixelBuffer.construct
    rw [if_pos (show 0 < h by omega), u32_of_lt (show row + 0 < _ by omega)]
    exact Nat.mod_eq_of_lt inside
  unfold PixelBuffer.pixelAt
  rw [wrapped]
  unfold PixelBuffer.construct u32
  dsimp only
  rw [Nat.mul_zero, Nat.add_zero, Nat.mod_mod, Nat.mul_mod_mod, Nat.mul_assoc]

theorem source_row (pixels : Bytes) {w h row c : Nat} (inside : row < h) (small : h < 2 ^ 32) :
    loadWord (fun i => pixels (u32
      ((PixelBuffer.construct pixels w h (u32 (w * 4))).pixelAt 0 row + i))) (4 * c) =
      sourcePixel pixels w c row := by
  apply load_congr
  intro k _
  rw [source_address pixels inside small]
  congr 1
  unfold u32
  generalize row * w = first
  omega

theorem blit_whole (b src : PixelBuffer) (x y : Nat) (wide : src.width < 2 ^ 32)
    (high : src.height < 2 ^ 32) :
    b.blit x y src 0 0 src.width src.height =
      if src.width = 0 ∨ src.height = 0 then b
      else if b.width ≤ x ∨ b.height ≤ y then b
      else
        let w := if b.width < u32 (x + src.width) then b.width - x else src.width
        let h := if b.height < u32 (y + src.height) then b.height - y else src.height
        { b with
          data := iterate (fun row data =>
              copyBytes data (b.pixelAt x (u32 (y + row)))
                (fun i => src.data (u32 (src.pixelAt 0 (u32 row) + i))) (u32 (w * 4)))
            h b.data } := by
  have whole : ∀ n < 2 ^ 32, (if n < u32 (0 + n) then n - 0 else n) = n := by
    intro n small
    rw [Nat.zero_add, u32_of_lt small, if_neg (Nat.lt_irrefl n)]
  unfold PixelBuffer.blit
  rw [whole _ wide, whole _ high]
  simp only [Nat.le_zero_eq, Nat.zero_add]

theorem blit_draws (sound : Sound b) {x y w h : Nat} (wide : x + w < 2 ^ 32)
    (high : y + h < 2 ^ 32) (pixels : Bytes) :
    Draws sound (b.blit x y (.construct pixels w h (u32 (w * 4))) 0 0 w h) fun c r =>
      if rect x y w h c r then some (sourcePixel pixels w (c - x) (r - y)) else none := by
  have rows := sound.height_lt
  have width := sound.width_lt
  have equation := blit_whole b (.construct pixels w h (u32 (w * 4))) x y
    (show w < 2 ^ 32 by omega) (show h < 2 ^ 32 by omega)
  have clear : (∀ c < b.width, ∀ r < b.height, ¬ rect x y w h c r) → Draws sound b fun c r =>
      if rect x y w h c r then some (sourcePixel pixels w (c - x) (r - y)) else none := by
    intro none
    apply (Draws.nothing sound).congr
    exact fun c column r low => (if_neg (none c column r low)).symm
  by_cases empty : w = 0 ∨ h = 0
  · rw [show b.blit x y (.construct pixels w h (u32 (w * 4))) 0 0 w h = b from
      equation.trans (if_pos empty)]
    apply clear
    rintro c _ r _ ⟨⟨_, _⟩, _, _⟩
    omega
  by_cases outside : b.width ≤ x ∨ b.height ≤ y
  · rw [show b.blit x y (.construct pixels w h (u32 (w * 4))) 0 0 w h = b from
      equation.trans ((if_neg empty).trans (if_pos outside))]
    apply clear
    rintro c column r low ⟨⟨_, _⟩, _, _⟩
    omega
  rw [not_or, Nat.not_le, Nat.not_le] at outside
  have columns := clipped outside.1 wide
  have lines := clipped outside.2 high
  refine ⟨_, equation.trans ((if_neg empty).trans (if_neg (by omega))), ?_⟩
  apply (painted_rows y (fun c r => if x ≤ c ∧
    c < x + (if b.width < u32 (x + w) then b.width - x else w) then
      some (sourcePixel pixels w (c - x) (r - y)) else none) _ _).congr
  · intro c column r low
    have cut := columns.2 c column
    have cut' := lines.2 r low
    by_cases line : y ≤ r ∧ r < y + (if b.height < u32 (y + h) then b.height - y else h)
    · have inside : (x ≤ c ∧ c < x + w) ↔ rect x y w h c r :=
        ⟨fun place => ⟨place, line.1, cut'.1 line.2⟩, And.left⟩
      rw [← cut] at inside
      exact (if_pos line).trans (if_congr inside rfl rfl)
    · apply (if_neg line).trans (if_neg _).symm
      exact fun inside => line ⟨inside.2.1, cut'.2 inside.2.2⟩
  · intro j before data
    change j < (if b.height < u32 (y + h) then b.height - y else h) at before
    have inside : j < h := by
      rw [u32_of_lt high] at before
      split at before <;> omega
    have low : y + j < b.height := by omega
    rw [u32_of_lt (show y + j < _ by omega), u32_of_lt (show j < _ by omega),
      sound.pixel_at outside.1 low]
    have bytes : u32 ((if b.width < u32 (x + w) then b.width - x else w) * 4) =
        4 * (if b.width < u32 (x + w) then b.width - x else w) := by
      rw [u32_of_lt (by omega), Nat.mul_comm]
    change Painted sound.raster data (copyBytes data _ _ (u32
      ((if b.width < u32 (x + w) then b.width - x else w) * 4))) _
    rw [bytes]
    apply (painted_copy (g := sound.raster) data columns.1 low _).congr
    intro c _ r _
    by_cases line : r = y + j
    · subst line
      rw [if_pos rfl]
      apply if_congr (and_iff_left rfl) _ rfl
      rw [Nat.add_sub_cancel_left]
      exact congrArg some (source_row pixels inside (by omega))
    · rw [if_neg line, if_neg fun both => line both.2]

end Buffer

section Simulation

/-- The buffer holds the image and has nothing else than at the start. -/
structure Shows (width height pitch : Nat) (start : Bytes) (b : PixelBuffer) (image : Image) :
    Prop where
  sound : Sound b
  width : b.width = width
  height : b.height = height
  pitch : b.pitch = pitch
  pixels : ∀ c < b.width, ∀ r < b.height, loadWord b.data (sound.raster.place c r) = image c r
  outside : ∀ i, ¬ sound.raster.Covers i → b.data i = start i

variable {width height pitch : Nat} {start : Bytes} {b b' : PixelBuffer} {image : Image}

theorem Shows.draws (shows_ : Shows width height pitch start b image)
    {paint : Nat → Nat → Option UInt32} (draws : ∀ sound : Sound b, Draws sound b' paint) :
    Shows width height pitch start b' fun c r => (paint c r).getD (image c r) := by
  have sound := (draws shows_.sound).sound
  obtain ⟨data, rfl, painted⟩ := draws shows_.sound
  refine ⟨sound, shows_.width, shows_.height, shows_.pitch, ?_, ?_⟩
  · intro c column r low
    exact (painted.pixels c column r low).trans (by rw [shows_.pixels c column r low])
  · exact fun i apart => (painted.outside i apart).trans (shows_.outside i apart)

theorem painted_first_rows (sound : Sound b) {pixels : Nat} (most : pixels ≤ b.height)
    (address : Nat → Nat) (rows : ∀ j < pixels, address j = sound.raster.place 0 j)
    (color : UInt32) : Painted sound.raster b.data
      (iterate (fun row data => PixelBuffer.fillRow color (address row) b.width data) pixels b.data)
      fun _ r => if r < pixels then some color else none := by
  apply (painted_rows 0 (fun _ _ => some color) _ _).congr
  · intro c _ r _
    apply if_congr _ rfl rfl
    omega
  · intro j before data
    rw [rows j before]
    apply (painted_row sound.raster data (x := 0) (w := b.width) (Nat.le_of_eq (Nat.zero_add _))
      (show j < b.height by omega) color).congr
    intro c column r _
    change c < b.width at column
    apply if_congr _ rfl rfl
    omega

theorem Sound.row_address (sound : Sound b) {a : Nat} (line : a < b.height) :
    u32 (a * b.pitch) = a * b.pitch := by
  have fits := sound.fits
  have column := sound.column
  have small := sound.small
  have area := index_lt line (show 0 < b.pitch by omega)
  exact u32_of_lt (by omega)

theorem shows_scroll_less (shows_ : Shows width height pitch start b image) {pixels : Nat}
    (some_ : pixels ≠ 0) (less : pixels < b.height) (color : UInt32) :
    Shows width height pitch start (b.scroll pixels color)
      fun c r => if r + pixels < height then image c (r + pixels) else color := by
  have sound := shows_.sound
  have inside := sound.inside
  have rows := sound.height_lt
  have painted := painted_first_rows sound (Nat.le_of_lt less)
    (fun row => u32 (u32 (b.scrollOffset + row) % b.height * b.pitch))
    (fun j before => by
      rw [u32_of_lt (show b.scrollOffset + j < _ by omega),
        sound.row_address (Nat.mod_lt _ (by omega)), Nat.add_comm b.scrollOffset j]
      rfl) color
  unfold PixelBuffer.scroll
  rw [if_neg (by omega), if_neg (Nat.not_le.2 less), u32_of_lt (show _ < 4294967296 by omega)]
  have next : (b.scrollOffset + pixels) % b.height < b.height := Nat.mod_lt _ (by omega)
  refine ⟨⟨sound.fits, next, sound.small, sound.column⟩, shows_.width, shows_.height,
    shows_.pitch, ?_, ?_⟩
  · intro c column r low
    change c < b.width at column
    change r < b.height at low
    -- the row `r` of the new picture is the row `r + pixels` of the old one, around the ring
    have older : (r + (b.scrollOffset + pixels) % b.height) % b.height =
        ((if r + pixels < b.height then r + pixels else r + pixels - b.height) +
          b.scrollOffset) % b.height := by
      rw [Nat.add_mod_mod]
      split
      · congr 1
        omega
      · next wrapped =>
        rw [← Nat.add_mod_right (r + pixels - b.height + b.scrollOffset)]
        congr 1
        omega
    have old := painted.pixels c column
      (if r + pixels < b.height then r + pixels else r + pixels - b.height)
      (show _ < b.height by split <;> omega)
    have place : sound.raster.place c
        (if r + pixels < b.height then r + pixels else r + pixels - b.height) =
        (r + (b.scrollOffset + pixels) % b.height) % b.height * b.pitch + 4 * c := by
      rw [older]
      rfl
    rw [place] at old
    rw [← shows_.height]
    apply old.trans
    by_cases stays : r + pixels < b.height
    · rw [if_pos stays, if_pos stays, if_neg (by omega), ← place, if_pos stays]
      exact shows_.pixels c column (r + pixels) stays
    · rw [if_neg stays, if_neg stays, if_pos (by omega)]
      rfl
  · exact fun i apart => (painted.outside i apart).trans (shows_.outside i apart)

/-- Scrolling by the height or more: all rows are colored, and the ring starts anew. -/
theorem shows_scroll_all (shows_ : Shows width height pitch start b image) {pixels : Nat}
    (most : b.height ≤ pixels) (color : UInt32) :
    Shows width height pitch start (b.scroll pixels color)
      fun c r => if r + pixels < height then image c (r + pixels) else color := by
  have sound := shows_.sound
  have inside := sound.inside
  have anew : Sound { b with scrollOffset := 0 } :=
    ⟨sound.fits, show 0 < b.height by omega, sound.small, sound.column⟩
  have painted := painted_first_rows anew (Nat.le_refl _) (fun row => u32 (row * b.pitch))
    (fun j before => by
      change j < b.height at before
      rw [sound.row_address before]
      have first : (j + 0) % b.height = j := Nat.mod_eq_of_lt before
      change j * b.pitch = (j + 0) % b.height * b.pitch + 4 * 0
      rw [first]
      rfl) color
  unfold PixelBuffer.scroll
  rw [if_neg (by omega), if_pos most]
  refine ⟨⟨sound.fits, anew.inside, sound.small, sound.column⟩, shows_.width, shows_.height,
    shows_.pitch, ?_, ?_⟩
  · intro c column r low
    apply (painted.pixels c column r low).trans
    change r < b.height at low
    rw [← shows_.height, if_pos (show r < b.height from low), if_neg (by omega)]
    rfl
  · exact fun i apart => (painted.outside i apart).trans (shows_.outside i apart)

theorem shows_scroll (shows_ : Shows width height pitch start b image) (pixels : Nat)
    (color : UInt32) : Shows width height pitch start (b.scroll pixels color)
      fun c r => if r + pixels < height then image c (r + pixels) else color := by
  by_cases zero : pixels = 0
  · have same : b.scroll pixels color = b := if_pos (.inl zero)
    rw [same]
    refine ⟨shows_.sound, shows_.width, shows_.height, shows_.pitch, ?_, shows_.outside⟩
    intro c column r low
    rw [zero, Nat.add_zero, if_pos (by rw [← shows_.height]; exact low)]
    exact shows_.pixels c column r low
  by_cases less : pixels < b.height
  · exact shows_scroll_less shows_ zero less color
  · exact shows_scroll_all shows_ (Nat.le_of_not_lt less) color

def Displayed (width height pitch : Nat) (framebuffer : Bytes) (image : Image) : Prop :=
  ∀ c < width, ∀ r < height, loadWord framebuffer (r * pitch + 4 * c) = image c r

theorem flush_at {data framebuffer : Bytes} {height pitch offset r j : Nat}
    (inside : offset < height) (low : r < height) (column : j < pitch) :
    let firstBytes := (height - offset) * pitch
    let first := copyBytes framebuffer 0 (fun i => data (offset * pitch + i)) firstBytes
    (if 0 < offset then copyBytes first firstBytes data (offset * pitch) else first)
      (r * pitch + j) =
      data ((if r + offset < height then r + offset else r + offset - height) * pitch + j) := by
  have area := index_lt low column
  have parts : (height - offset) * pitch + offset * pitch = height * pitch := by
    rw [← Nat.add_mul]
    congr 1
    omega
  dsimp only
  by_cases above : r + offset < height
  · -- the rows before the end of the buffer come first
    have before := index_lt (show r < height - offset by omega) column
    have address := Nat.add_mul r offset pitch
    generalize (height - offset) * pitch = firstBytes at *
    have first : copyBytes framebuffer 0 (fun i => data (offset * pitch + i)) firstBytes
        (r * pitch + j) = data (r * pitch + offset * pitch + j) := by
      rw [copy_inside _ _ (Nat.zero_le _) (by omega)]
      congr 1
      omega
    rw [if_pos above, address, ← first]
    split
    · exact copy_apart _ _ (.inl before)
    · rfl
  · -- the others follow, from the start of the buffer
    have address : r * pitch = (height - offset) * pitch + (r + offset - height) * pitch := by
      rw [← Nat.add_mul]
      congr 1
      omega
    generalize (height - offset) * pitch = firstBytes at *
    rw [if_neg above, if_pos (by omega), copy_inside _ _ (by omega) (by omega)]
    congr 1
    omega

theorem displayed_flush {d : Display} (shows_ : Shows width height pitch start d.backBuf image)
    (dirty : d.dirty = true) : Displayed width height pitch d.flush.framebuffer image := by
  have sound := shows_.sound
  have inside := sound.inside
  have small := sound.small
  have fits := sound.fits
  intro c column r low
  rw [← shows_.width] at column
  rw [← shows_.height] at low
  rw [← shows_.pitch, ← shows_.pixels c column r low]
  have rows : u32 (d.backBuf.scrollOffset * d.backBuf.pitch) =
      d.backBuf.scrollOffset * d.backBuf.pitch := sound.row_address inside
  have total : (d.backBuf.height - d.backBuf.scrollOffset) * d.backBuf.pitch ≤
      d.backBuf.height * d.backBuf.pitch := Nat.mul_le_mul_right _ (Nat.sub_le _ _)
  have firstRows : u32 ((d.backBuf.height - d.backBuf.scrollOffset) * d.backBuf.pitch) =
      (d.backBuf.height - d.backBuf.scrollOffset) * d.backBuf.pitch :=
    u32_of_lt (Nat.lt_of_le_of_lt total small)
  unfold Display.flush
  rw [if_pos dirty]
  dsimp only
  rw [rows, firstRows]
  apply load_congr
  intro k word
  have place : sound.raster.place c r + k = sound.raster.row r * d.backBuf.pitch + (4 * c + k) :=
    Nat.add_assoc _ _ _
  rw [place, sound.raster.row_eq low, Nat.add_assoc (r * _)]
  exact flush_at inside low (by omega)

variable (font : UInt8 → Nat → UInt8)

structure Follows (width height pitch : Nat) (start : Bytes) (drawn : Prop) (d : Display)
    (image : Image) : Prop where
  shown : Shows width height pitch start d.backBuf image
  clean : d.dirty = false → drawn → Displayed width height pitch d.framebuffer image

theorem follows_draws {drawn drawn' : Prop} {d d' : Display} {paint : Nat → Nat → Option UInt32}
    (follows : Follows width height pitch start drawn d image)
    (dirty : d'.dirty = true)
    (draws : ∀ sound : Sound d.backBuf, Draws sound d'.backBuf paint) :
    Follows width height pitch start drawn' d' fun c r => (paint c r).getD (image c r) where
  shown := follows.shown.draws draws
  clean clean := by
    rw [dirty] at clean
    cases clean

theorem follows_call {drawn : Prop} {d : Display}
    (follows : Follows width height pitch start drawn d image) {call : Call}
    (small : InRange call) :
    Follows width height pitch start (drawn ∨ isDrawing call) (d.call font call)
      (Image.apply font height image call) := by
  cases call with
  | fillRect x y w h color =>
      exact follows_draws follows rfl fun sound => fill_rect_draws sound small.1 small.2 color
  | drawRect x y w h color =>
      exact follows_draws follows rfl fun sound => draw_rect_draws sound small.1 small.2 color
  | blit x y w h pixels =>
      exact follows_draws follows rfl fun sound => blit_draws sound small.1 small.2 pixels
  | drawChar x y ch fg bg =>
      exact follows_draws follows rfl fun sound =>
        draw_char_draws font sound ch fg bg small.1 small.2
  | scroll pixels color => exact ⟨shows_scroll follows.shown pixels color, nofun⟩
  | flush =>
      by_cases dirty : d.dirty = true
      · have displayed := displayed_flush follows.shown dirty
        have same : d.flush.backBuf = d.backBuf := by
          unfold Display.flush
          rw [if_pos dirty]
        refine ⟨?_, fun _ _ => displayed⟩
        change Shows width height pitch start d.flush.backBuf image
        rw [same]
        exact follows.shown
      · have same : d.flush = d := if_neg dirty
        change Follows width height pitch start (drawn ∨ False) d.flush image
        rw [same, or_false]
        exact follows

theorem shows_start {backBuffer : Bytes} (columns : 1 ≤ width) (rows : 1 ≤ height)
    (wide : 4 * width ≤ pitch) (small : pitch * height < 2 ^ 32) :
    Shows width height pitch backBuffer (.construct backBuffer width height pitch)
      (imageOf backBuffer pitch) where
  sound := ⟨wide, rows, by rw [Nat.mul_comm]; exact small, columns⟩
  width := rfl
  height := rfl
  pitch := rfl
  pixels c _ r low := by
    have first : (r + 0) % height = r := Nat.mod_eq_of_lt low
    change loadWord backBuffer ((r + 0) % height * pitch + 4 * c) = _
    rw [first]
    rfl
  outside _ _ := rfl

theorem follows_run (framebuffer backBuffer : Bytes) (columns : 1 ≤ width) (rows : 1 ≤ height)
    (wide : 4 * width ≤ pitch) (small : pitch * height < 2 ^ 32) {calls : List Call}
    (inRange : ∀ call ∈ calls, InRange call) :
    Follows width height pitch backBuffer (∃ call ∈ calls, isDrawing call)
      ((Display.construct framebuffer backBuffer width height pitch).run font calls)
      (Image.run font height (imageOf backBuffer pitch) calls) := by
  induction calls using List.reverseRec with
  | nil =>
      refine ⟨shows_start columns rows wide small, fun _ drawn => ?_⟩
      obtain ⟨_, member, _⟩ := drawn
      cases member
  | append_singleton calls call ih =>
      have before := ih fun other member => inRange other (List.mem_append_left _ member)
      have next := follows_call font before (inRange call (List.mem_append_right _
        (List.mem_singleton_self call)))
      unfold Display.run Image.run at *
      rw [List.foldl_append, List.foldl_append]
      refine ⟨next.shown, fun clean drawn => next.clean clean ?_⟩
      obtain ⟨other, member, drawing⟩ := drawn
      rcases List.mem_append.1 member with old | new
      · exact .inl ⟨other, old, drawing⟩
      · rw [List.mem_singleton] at new
        exact .inr (new ▸ drawing)

/-- After any calls with at least one that draws, a flush shows the reference image, and the
back buffer has changed in its pixels only. -/
theorem display_shows_image (framebuffer backBuffer : Bytes) (columns : 1 ≤ width)
    (rows : 1 ≤ height) (wide : 4 * width ≤ pitch) (small : pitch * height < 2 ^ 32)
    {calls : List Call} (inRange : ∀ call ∈ calls, InRange call)
    (drawn : ∃ call ∈ calls, isDrawing call) :
    let d := ((Display.construct framebuffer backBuffer width height pitch).run font calls).flush
    Displayed width height pitch d.framebuffer
      (Image.run font height (imageOf backBuffer pitch) calls) ∧
    ∀ i, (∀ r < height, ∀ j < 4 * width, i ≠ r * pitch + j) → d.backBuf.data i = backBuffer i := by
  have follows := follows_run font framebuffer backBuffer columns rows wide small inRange
  have flushed := follows_call font follows (show InRange .flush from trivial)
  refine ⟨flushed.clean ?_ (.inl drawn), fun i apart => ?_⟩
  · change (Display.flush _).dirty = false
    unfold Display.flush
    split
    · rfl
    · next clean => exact Bool.eq_false_iff.2 clean
  · apply flushed.shown.outside
    rintro ⟨a, line, j, inside, here⟩
    have sizes := flushed.shown
    refine apart a (Nat.lt_of_lt_of_eq line sizes.height) j ?_ ?_
    · exact Nat.lt_of_lt_of_eq inside (congrArg (4 * ·) sizes.width)
    · exact here.trans (congrArg (fun p => a * p + j) sizes.pitch)

/-- A red pixel is drawn below a row, and the rows move up. -/
theorem one_pixel_is_shown :
    let calls := [Call.fillRect 0 1 5 1 0xFF0000, .scroll 1 0xFF]
    let d := ((Display.construct (fun _ => 0) (fun _ => 0) 1 2 5).run (fun _ _ => 0) calls).flush
    Displayed 1 2 5 d.framebuffer (Image.run (fun _ _ => 0) 2 (imageOf (fun _ => 0) 5) calls) ∧
    loadWord d.framebuffer 0 = 0xFF0000 ∧ loadWord d.framebuffer 5 = 0xFF :=
  ⟨(display_shows_image (fun _ _ => 0) (fun _ => 0) (fun _ => 0) (by decide) (by decide) (by decide)
    (by decide) (by decide) (by decide)).1, by decide, by decide⟩

end Simulation

end CassiOS.Graphics.ScrollingImage
