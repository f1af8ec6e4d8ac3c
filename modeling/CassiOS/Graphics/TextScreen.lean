import CassiOS.Graphics.ScrollingImage

/-!
# Text on an image

An image that shows a page of character cells in the glyphs of a font. The pixels beside and
below the cells are background. What each drawing call does to the image is an edit of the page.
-/

namespace CassiOS.Graphics.TextScreen

open CassiOS.Graphics.Drawing
open CassiOS.Graphics.ScrollingImage

set_option autoImplicit false

structure Cell where
  ch : UInt8
  inverted : Bool
deriving DecidableEq

abbrev Page := Nat → Nat → Cell

namespace Page

def blank : Cell := ⟨0x20, false⟩

def put (page : Page) (col row : Nat) (cell : Cell) : Page := fun c r =>
  if c = col ∧ r = row then cell else page c r

/-- The first `n` of the rows leave at the top. -/
def shift (page : Page) (rows n : Nat) : Page := fun c r =>
  if r + n < rows then page c (r + n) else blank

end Page

/-- The sizes of the image and of the page, and how a cell is drawn. -/
structure Format where
  width : Nat
  height : Nat
  cols : Nat
  rows : Nat
  fg : UInt32
  bg : UInt32
  font : UInt8 → Nat → UInt8

namespace Format

variable (f : Format)

def ink (cell : Cell) (c r : Nat) : UInt32 :=
  if cell.inverted then PixelBuffer.glyphColor (f.font cell.ch r) c f.bg f.fg
  else PixelBuffer.glyphColor (f.font cell.ch r) c f.fg f.bg

def pixel (page : Page) (c r : Nat) : UInt32 :=
  if c / fontWidth < f.cols ∧ r / fontHeight < f.rows then
    f.ink (page (c / fontWidth) (r / fontHeight)) (c % fontWidth) (r % fontHeight)
  else f.bg

def Renders (image : Image) (page : Page) : Prop :=
  ∀ c < f.width, ∀ r < f.height, image c r = f.pixel page c r

/-- The page fits into the image, and a blank has no ink. -/
structure Proper : Prop where
  cols : f.cols * fontWidth ≤ f.width
  rows : f.rows * fontHeight ≤ f.height
  blank : ∀ r < fontHeight, f.font Page.blank.ch r = 0

/-- What is seen of the cell on the image belongs to the page. -/
def OnPage (col row : Nat) : Prop :=
  ∀ c < f.width, ∀ r < f.height, c / fontWidth = col → r / fontHeight = row →
    col < f.cols ∧ row < f.rows

end Format

section Edits

variable {f : Format} {image : Image} {page : Page} {col row : Nat}

theorem on_page_inside (inside : col < f.cols ∧ row < f.rows) : f.OnPage col row :=
  fun _ _ _ _ _ _ => inside

theorem on_page_covered (covered : f.width = f.cols * fontWidth ∧ f.height = f.rows * fontHeight)
    (col row : Nat) : f.OnPage col row := by
  rintro c column r low rfl rfl
  rw [covered.1] at column
  rw [covered.2] at low
  exact ⟨Nat.div_lt_of_lt_mul (Nat.mul_comm _ _ ▸ column),
    Nat.div_lt_of_lt_mul (Nat.mul_comm _ _ ▸ low)⟩

theorem rect_cell (col row c r : Nat) :
    rect (col * fontWidth) (row * fontHeight) fontWidth fontHeight c r ↔
      c / fontWidth = col ∧ r / fontHeight = row := by
  unfold rect fontWidth fontHeight
  omega

theorem glyph_blank (c : Nat) (fg bg : UInt32) : PixelBuffer.glyphColor 0 c fg bg = bg := by
  unfold PixelBuffer.glyphColor
  rw [UInt8.zero_and]
  exact if_neg fun absent => absent rfl

theorem ink_blank (proper : f.Proper) (c : Nat) {r : Nat} (low : r < fontHeight) :
    f.ink Page.blank c r = f.bg := by
  unfold Format.ink
  rw [proper.blank r low]
  exact glyph_blank c f.fg f.bg

theorem pixel_blank (proper : f.Proper) (c r : Nat) :
    f.pixel (fun _ _ => Page.blank) c r = f.bg := by
  unfold Format.pixel
  rw [ink_blank proper _ (Nat.mod_lt r (by decide))]
  exact ite_self _

theorem renders_put (renders : f.Renders image page) (onPage : f.OnPage col row) {cell : Cell}
    {paint : Nat → Nat → Option UInt32}
    (inside : ∀ c r, c / fontWidth = col → r / fontHeight = row →
      paint c r = some (f.ink cell (c % fontWidth) (r % fontHeight)))
    (outside : ∀ c r, ¬ (c / fontWidth = col ∧ r / fontHeight = row) → paint c r = none) :
    f.Renders (fun c r => (paint c r).getD (image c r)) (page.put col row cell) := by
  intro c column r low
  dsimp only
  unfold Format.pixel Page.put
  by_cases here : c / fontWidth = col ∧ r / fontHeight = row
  · have seen := onPage c column r low here.1 here.2
    rw [inside c r here.1 here.2, if_pos here, if_pos (by rw [here.1, here.2]; exact seen)]
    rfl
  · rw [outside c r here, if_neg here]
    exact renders c column r low

theorem renders_char (renders : f.Renders image page) (onPage : f.OnPage col row) (ch : UInt8)
    (inverted : Bool) {fg bg : UInt32}
    (colors : fg = (if inverted then f.bg else f.fg) ∧ bg = if inverted then f.fg else f.bg) :
    f.Renders (Image.apply f.font f.height image
      (.drawChar (col * fontWidth) (row * fontHeight) ch fg bg))
      (page.put col row ⟨ch, inverted⟩) := by
  obtain ⟨rfl, rfl⟩ := colors
  apply renders_put renders onPage
  · rintro c r rfl rfl
    unfold painting
    dsimp only
    rw [if_pos ((rect_cell _ _ c r).2 ⟨rfl, rfl⟩)]
    have column : c - c / fontWidth * fontWidth = c % fontWidth := by
      rw [Nat.mul_comm, Nat.mod_eq_sub_mul_div]
    have line : r - r / fontHeight * fontHeight = r % fontHeight := by
      rw [Nat.mul_comm, Nat.mod_eq_sub_mul_div]
    rw [column, line]
    unfold Format.ink
    cases inverted with
    | false => rfl
    | true => rfl
  · intro c r apart
    exact if_neg fun inside => apart ((rect_cell _ _ c r).1 inside)

theorem renders_erase (proper : f.Proper) (renders : f.Renders image page)
    (onPage : f.OnPage col row) :
    f.Renders (Image.apply f.font f.height image
      (.fillRect (col * fontWidth) (row * fontHeight) fontWidth fontHeight f.bg))
      (page.put col row Page.blank) := by
  apply renders_put renders onPage
  · intro c r column line
    rw [ink_blank proper _ (Nat.mod_lt r (by decide))]
    exact if_pos ((rect_cell _ _ c r).2 ⟨column, line⟩)
  · intro c r apart
    exact if_neg fun inside => apart ((rect_cell _ _ c r).1 inside)

/-- The image and the page scroll together; what comes up from below the page is background. -/
theorem renders_scroll (proper : f.Proper) (renders : f.Renders image page) (n : Nat) :
    f.Renders (Image.apply f.font f.height image (.scroll (n * fontHeight) f.bg))
      (page.shift f.rows n) := by
  intro c column r low
  have rows := proper.rows
  change (if r + n * fontHeight < f.height then image c (r + n * fontHeight) else f.bg) = _
  have line : (r + n * fontHeight) / fontHeight = r / fontHeight + n :=
    Nat.add_mul_div_right r n (by decide)
  have inLine : (r + n * fontHeight) % fontHeight = r % fontHeight :=
    Nat.add_mul_mod_self_right r n fontHeight
  have background : r / fontHeight < f.rows → ¬ r / fontHeight + n < f.rows →
      f.pixel (page.shift f.rows n) c r = f.bg := by
    intro inside below
    unfold Format.pixel Page.shift
    rw [if_neg below, ink_blank proper _ (Nat.mod_lt r (by decide))]
    exact ite_self _
  by_cases seen : r + n * fontHeight < f.height
  · rw [if_pos seen, renders c column _ seen]
    by_cases above : r / fontHeight + n < f.rows
    · unfold Format.pixel Page.shift
      rw [line, inLine, if_pos above]
      by_cases inside : c / fontWidth < f.cols
      · have higher := Nat.lt_of_le_of_lt (Nat.le_add_right (r / fontHeight) n) above
        rw [if_pos ⟨inside, above⟩, if_pos ⟨inside, higher⟩]
      · rw [if_neg fun both => inside both.1, if_neg fun both => inside both.1]
    · have outside : f.pixel page c (r + n * fontHeight) = f.bg := by
        unfold Format.pixel
        rw [line]
        exact if_neg fun both => above both.2
      rw [outside]
      by_cases inside : r / fontHeight < f.rows
      · exact (background inside above).symm
      · exact (if_neg fun both => inside both.2).symm
  · rw [if_neg seen]
    by_cases inside : r / fontHeight < f.rows
    · refine (background inside fun above => seen ?_).symm
      unfold fontHeight at rows above ⊢
      omega
    · exact (if_neg fun both => inside both.2).symm

theorem renders_clear (proper : f.Proper) (renders : f.Renders image page) :
    f.Renders (Image.apply f.font f.height image
      (.fillRect 0 0 (f.cols * fontWidth) (f.rows * fontHeight) f.bg)) fun _ _ => Page.blank := by
  intro c column r low
  rw [pixel_blank proper]
  change (if rect 0 0 (f.cols * fontWidth) (f.rows * fontHeight) c r then some f.bg
    else none).getD (image c r) = _
  by_cases inside : rect 0 0 (f.cols * fontWidth) (f.rows * fontHeight) c r
  · rw [if_pos inside]
    rfl
  · rw [if_neg inside]
    refine (renders c column r low).trans (if_neg fun both => inside ?_)
    unfold rect fontWidth fontHeight at *
    omega

theorem renders_fill (proper : f.Proper) (image : Image) :
    f.Renders (Image.apply f.font f.height image (.fillRect 0 0 f.width f.height f.bg))
      fun _ _ => Page.blank := by
  intro c column r low
  rw [pixel_blank proper]
  have inside : rect 0 0 f.width f.height c r := by
    unfold rect
    omega
  change (if rect 0 0 f.width f.height c r then some f.bg else none).getD (image c r) = _
  rw [if_pos inside]
  rfl

end Edits

end CassiOS.Graphics.TextScreen
