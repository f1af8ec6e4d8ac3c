import CassiOS.Support.Rasters

/-!
# Drawing

`PixelBuffer` of `libs/gfx` and `Display` of the display driver. Rows of the buffer are used
as a ring: scrolling colors the old top rows and moves `scrollOffset`. Addresses are relative
to the buffer they belong to. The glyphs of the font are a parameter.
-/

namespace CassiOS.Graphics.Drawing

open CassiOS.Support.Rasters
open CassiOS.Support.Words

set_option autoImplicit false

def fontWidth : Nat := 8
def fontHeight : Nat := 16

structure PixelBuffer where
  data : Bytes
  width : Nat
  height : Nat
  pitch : Nat
  scrollOffset : Nat

namespace PixelBuffer

def construct (data : Bytes) (width height pitch : Nat) : PixelBuffer :=
  ⟨data, width, height, pitch, 0⟩

def wrap (b : PixelBuffer) (y : Nat) : Nat :=
  if 0 < b.height then u32 (y + b.scrollOffset) % b.height else 0

def pixelAt (b : PixelBuffer) (x y : Nat) : Nat := u32 (u32 (b.wrap y * b.pitch) + 4 * x)

def drawPixel (b : PixelBuffer) (x y : Nat) (color : UInt32) : PixelBuffer :=
  if x < b.width ∧ y < b.height then { b with data := storeWord b.data (b.pixelAt x y) color }
  else b

/-- The loop `dst[col] = color` over `w` columns. -/
def fillRow (color : UInt32) (dst w : Nat) (data : Bytes) : Bytes :=
  iterate (fun col data => storeWord data (dst + 4 * col) color) w data

def fillRect (b : PixelBuffer) (x y w h : Nat) (color : UInt32) : PixelBuffer :=
  if b.width ≤ x ∨ b.height ≤ y then b
  else
    let w := if b.width < u32 (x + w) then b.width - x else w
    let h := if b.height < u32 (y + h) then b.height - y else h
    { b with
      data := iterate (fun row data => fillRow color (b.pixelAt x (u32 (y + row))) w data) h
        b.data }

def drawRect (b : PixelBuffer) (x y w h : Nat) (color : UInt32) : PixelBuffer :=
  if w = 0 ∨ h = 0 then b
  else
    let b := b.fillRect x y w 1 color
    let b := b.fillRect x (u32 (y + h - 1)) w 1 color
    if 2 < h then
      let b := b.fillRect x (u32 (y + 1)) 1 (h - 2) color
      b.fillRect (u32 (x + w - 1)) (u32 (y + 1)) 1 (h - 2) color
    else b

def glyphColor (bits : UInt8) (col : Nat) (fg bg : UInt32) : UInt32 :=
  if bits &&& (0x80 >>> UInt8.ofNat col) ≠ 0 then fg else bg

/-- The columns of a glyph row, `n` of them from `col` on. -/
def glyphCols (b : PixelBuffer) (x py : Nat) (bits : UInt8) (fg bg : UInt32) (col : Nat) :
    Nat → Bytes → Bytes
  | 0, data => data
  | n + 1, data =>
      let px := u32 (x + col)
      if b.width ≤ px then data
      else
        glyphCols b x py bits fg bg (col + 1) n
          (storeWord data (b.pixelAt px py) (glyphColor bits col fg bg))

/-- The rows of a glyph, `n` of them from `row` on. -/
def glyphRows (b : PixelBuffer) (x y : Nat) (glyph : Nat → UInt8) (fg bg : UInt32) (row : Nat) :
    Nat → Bytes → Bytes
  | 0, data => data
  | n + 1, data =>
      let py := u32 (y + row)
      if b.height ≤ py then data
      else
        glyphRows b x y glyph fg bg (row + 1) n
          (glyphCols b x py (glyph row) fg bg 0 fontWidth data)

def drawChar (font : UInt8 → Nat → UInt8) (b : PixelBuffer) (x y : Nat) (ch : UInt8)
    (fg bg : UInt32) : PixelBuffer :=
  { b with data := glyphRows b x y (font ch) fg bg 0 fontHeight b.data }

/-- The loop of `drawText` from the character `i` on. -/
def drawFrom (font : UInt8 → Nat → UInt8) (x y : Nat) (fg bg : UInt32) (i : Nat) :
    List UInt8 → PixelBuffer → PixelBuffer
  | [], b => b
  | ch :: rest, b =>
      drawFrom font x y fg bg (i + 1) rest (b.drawChar font (u32 (x + i * fontWidth)) y ch fg bg)

def drawText (font : UInt8 → Nat → UInt8) (b : PixelBuffer) (x y : Nat) (text : List UInt8)
    (fg bg : UInt32) : PixelBuffer := drawFrom font x y fg bg 0 text b

def scroll (b : PixelBuffer) (pixels : Nat) (color : UInt32) : PixelBuffer :=
  if pixels = 0 ∨ b.height = 0 then b
  else if b.height ≤ pixels then
    { b with
      scrollOffset := 0
      data := iterate (fun row data => fillRow color (u32 (row * b.pitch)) b.width data) b.height
        b.data }
  else
    { b with
      scrollOffset := u32 (b.scrollOffset + pixels) % b.height
      data := iterate (fun row data =>
          let clearRow := u32 (b.scrollOffset + row) % b.height
          fillRow color (u32 (clearRow * b.pitch)) b.width data)
        pixels b.data }

/-- The source has a memory of its own, with addresses of 32 bits. -/
def blit (b : PixelBuffer) (dx dy : Nat) (src : PixelBuffer) (sx sy w h : Nat) : PixelBuffer :=
  if src.width ≤ sx ∨ src.height ≤ sy then b
  else
    let w := if src.width < u32 (sx + w) then src.width - sx else w
    let h := if src.height < u32 (sy + h) then src.height - sy else h
    if b.width ≤ dx ∨ b.height ≤ dy then b
    else
      let w := if b.width < u32 (dx + w) then b.width - dx else w
      let h := if b.height < u32 (dy + h) then b.height - dy else h
      { b with
        data := iterate (fun row data =>
            let srcRow := src.pixelAt sx (u32 (sy + row))
            let dstRow := b.pixelAt dx (u32 (dy + row))
            copyBytes data dstRow (fun i => src.data (u32 (srcRow + i))) (u32 (w * 4)))
          h b.data }

end PixelBuffer

structure Display where
  framebuffer : Bytes
  backBuf : PixelBuffer
  dirty : Bool

inductive Call where
  | fillRect (x y w h : Nat) (color : UInt32)
  | drawRect (x y w h : Nat) (color : UInt32)
  | blit (x y w h : Nat) (pixels : Bytes)
  | drawChar (x y : Nat) (ch : UInt8) (fg bg : UInt32)
  | scroll (pixels : Nat) (color : UInt32)
  | flush

namespace Display

def construct (framebuffer backBuffer : Bytes) (width height pitch : Nat) : Display :=
  ⟨framebuffer, .construct backBuffer width height pitch, false⟩

def flush (d : Display) : Display :=
  if d.dirty then
    let offset := d.backBuf.scrollOffset
    let pitch := d.backBuf.pitch
    let src := d.backBuf.data
    let firstRows := d.backBuf.height - offset
    let framebuffer := copyBytes d.framebuffer 0 (fun i => src (u32 (offset * pitch) + i))
      (u32 (firstRows * pitch))
    let framebuffer := if 0 < offset then
        copyBytes framebuffer (u32 (firstRows * pitch)) src (u32 (offset * pitch))
      else framebuffer
    { d with framebuffer := framebuffer, dirty := false }
  else d

def call (font : UInt8 → Nat → UInt8) (d : Display) : Call → Display
  | .fillRect x y w h color =>
      { d with dirty := true, backBuf := d.backBuf.fillRect x y w h color }
  | .drawRect x y w h color =>
      { d with dirty := true, backBuf := d.backBuf.drawRect x y w h color }
  | .blit x y w h pixels =>
      let src := PixelBuffer.construct pixels w h (u32 (w * 4))
      { d with dirty := true, backBuf := d.backBuf.blit x y src 0 0 w h }
  | .drawChar x y ch fg bg =>
      { d with dirty := true, backBuf := d.backBuf.drawChar font x y ch fg bg }
  | .scroll pixels color => { d with dirty := true, backBuf := d.backBuf.scroll pixels color }
  | .flush => d.flush

def run (font : UInt8 → Nat → UInt8) (d : Display) (calls : List Call) : Display :=
  calls.foldl (call font) d

end Display

end CassiOS.Graphics.Drawing
