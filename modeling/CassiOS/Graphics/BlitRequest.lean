import CassiOS.Graphics.Clipping
import CassiOS.Userland.VfsService

/-!
# Blits through the display service

The pixels of a `DisplayBlit` request come as bulk data into a buffer of 1024 bytes, and its
rectangle comes in the words of the message. The service takes as many pixels as the words
say, whether they were delivered or not.
-/

namespace CassiOS.Graphics.BlitRequest

open CassiOS.Graphics.Drawing
open CassiOS.Graphics.ScrollingImage
open CassiOS.Graphics.Clipping
open CassiOS.Support.Overwriting
open CassiOS.Support.Rasters
open CassiOS.Support.Words
open CassiOS.Userland.Messages
open CassiOS.Userland.VfsService (bulkCopy bulk_copy_at)

set_option autoImplicit false

section Source

/-- `sizeof(dataBuf)`. -/
def dataBufSize : Nat := 1024

/-- A message with bulk data, of which there are none if `len` is 0. -/
structure Sending where
  msg : Message
  data : Bytes
  len : UInt32

/-- `display::Display::blit`. -/
def clientBlit (x y w h : UInt32) (pixels : Bytes) : Sending where
  msg := { Message.zero with
    type := MessageType.displayBlit, arg1 := x, arg2 := y, arg3 := w, arg4 := h }
  data := pixels
  len := w * h * 4

/-- The memory at `dataBuf` when the message is there; `stack` is what it was before. -/
def received (s : Sending) (stack : Bytes) : Bytes :=
  bulkCopy s.data s.len.toNat stack dataBufSize

/-- The case of `DisplayBlit`. -/
def serveBlit (font : UInt8 → Nat → UInt8) (msg : Message) (dataBuf : Bytes) (d : Display) :
    Display :=
  d.call font (.blit msg.arg1.toNat msg.arg2.toNat msg.arg3.toNat msg.arg4.toNat dataBuf)

end Source

section Reference

def delivered (s : Sending) : Nat := min s.len.toNat dataBufSize

/-- Where the pixel of column `c` and row `r` is in the data of the client. -/
def pixelOffset (msg : Message) (c r : Nat) : Nat :=
  4 * ((r - msg.arg2.toNat) * msg.arg3.toNat + (c - msg.arg1.toNat))

def deliveredShape (s : Sending) (c r : Nat) : Prop :=
  rect s.msg.arg1.toNat s.msg.arg2.toNat s.msg.arg3.toNat s.msg.arg4.toNat c r ∧
    pixelOffset s.msg c r + 4 ≤ delivered s

/-- The service reads its buffer only, and draws delivered pixels only, each with the color that
the client sent. -/
structure UsesDelivered (font : UInt8 → Nat → UInt8) (s : Sending) (stack : Bytes) (d : Display) :
    Prop where
  reads : ∀ memory, (∀ i < dataBufSize, memory i = received s stack i) →
    serveBlit font s.msg memory d = serveBlit font s.msg (received s stack) d
  writes : changed (onMemory d.backBuf fun b =>
      (serveBlit font s.msg (received s stack) { d with backBuf := b }).backBuf) ⊆
    visible d.backBuf (deliveredShape s)
  colors : ∀ sound : Sound d.backBuf, ∀ c < d.backBuf.width, ∀ r < d.backBuf.height,
    sound.raster.place c r ∈ changed (onMemory d.backBuf fun b =>
      (serveBlit font s.msg (received s stack) { d with backBuf := b }).backBuf) →
    loadWord (serveBlit font s.msg (received s stack) d).backBuf.data (sound.raster.place c r) =
      loadWord s.data (pixelOffset s.msg c r)

/-- The part of the rectangle that is on the screen lies in the delivered data. -/
def Fits (width height : Nat) (s : Sending) : Prop :=
  let x := s.msg.arg1.toNat
  let y := s.msg.arg2.toNat
  let w := s.msg.arg3.toNat
  let h := s.msg.arg4.toNat
  w = 0 ∨ h = 0 ∨ width ≤ x ∨ height ≤ y ∨
    x + w < 2 ^ 32 ∧ y + h < 2 ^ 32 ∧
      4 * ((min h (height - y) - 1) * w + min w (width - x)) ≤ delivered s

instance (width height : Nat) (s : Sending) : Decidable (Fits width height s) :=
  inferInstanceAs (Decidable (_ ∨ _ ∨ _ ∨ _ ∨ _))

end Reference

section Blit

variable {b : PixelBuffer} {x y w h : Nat} (m : Bytes)

def source (m : Bytes) (w h : Nat) : PixelBuffer := .construct m w h (u32 (w * 4))

theorem cut_whole {n : Nat} (short : n < 2 ^ 32) : cut n 0 n = n := by
  unfold cut
  rw [Nat.zero_add, u32_of_lt short, if_neg (Nat.lt_irrefl n)]

theorem blit_nothing (empty : w = 0 ∨ h = 0 ∨ b.width ≤ x ∨ b.height ≤ y) :
    b.blit x y (source m w h) 0 0 w h = b := by
  by_cases first : (source m w h).width ≤ 0 ∨ (source m w h).height ≤ 0
  · exact if_pos first
  · have some_ : ¬ (w ≤ 0 ∨ h ≤ 0) := first
    exact (if_neg first).trans (if_pos (by omega))

theorem blit_changes (column : x < b.width) (low : y < b.height) (wide : w < 2 ^ 32)
    (high : h < 2 ^ 32) (some_ : 0 < w) (some' : 0 < h) :
    changed (onMemory b fun b => b.blit x y (source m w h) 0 0 w h) =
      rows b x y (u32 (cut b.width x w * 4)) (cut b.height y h) := by
  have writes := @blit_overwrites b (source m w h) x y 0 0 w h column low some_ some'
  unfold span at writes
  change Overwrites _ (rows b x y (u32 (cut b.width x (cut w 0 w) * 4))
    (cut b.height y (cut h 0 h))) at writes
  rw [cut_whole wide, cut_whole high] at writes
  exact writes.changed_bytes

theorem last_in_rows (sound : Sound b) (column : x < b.width) (low : y < b.height)
    (wide : x + w < 2 ^ 32) (high : y + h < 2 ^ 32) (some_ : 0 < w) (some' : 0 < h) :
    sound.raster.place (x + (min w (b.width - x) - 1)) (y + (min h (b.height - y) - 1)) ∈
      rows b x y (u32 (cut b.width x w * 4)) (cut b.height y h) := by
  have narrow := sound.width_lt
  have last := rows_at sound column (show min h (b.height - y) - 1 < cut b.height y h by
    rw [cut_fits low high]
    omega) (show y + (min h (b.height - y) - 1) < b.height by omega)
    (show 4 * (min w (b.width - x) - 1) < u32 (cut b.width x w * 4) by
      rw [cut_fits column wide, u32_of_lt (by omega)]
      omega)
  rwa [sound.raster.place_add] at last

end Blit

section Law

variable {font : UInt8 → Nat → UInt8} {d : Display} {s : Sending} {stack : Bytes}

theorem fits_of_uses (sound : Sound d.backBuf) (uses : UsesDelivered font s stack d) :
    Fits d.backBuf.width d.backBuf.height s := by
  have narrow := sound.width_lt
  have short := sound.height_lt
  have wide := s.msg.arg3.toNat_lt
  have high := s.msg.arg4.toNat_lt
  by_contra misfit
  unfold Fits at misfit
  simp only [not_or, Nat.not_le] at misfit
  obtain ⟨some_, some', column, low, wraps⟩ := misfit
  have writes := uses.writes
  change changed (onMemory d.backBuf fun b => b.blit s.msg.arg1.toNat s.msg.arg2.toNat
    (source (received s stack) s.msg.arg3.toNat s.msg.arg4.toNat) 0 0 s.msg.arg3.toNat
    s.msg.arg4.toNat) ⊆ _ at writes
  rw [blit_changes _ column low wide high (by omega) (by omega)] at writes
  by_cases sum : 2 ^ 32 ≤ s.msg.arg1.toNat + s.msg.arg3.toNat
  · obtain ⟨i, member, apart⟩ := row_runs_over sound (deliveredShape s) column low (by omega)
      (cut_positive low (by omega : 0 < s.msg.arg4.toNat))
      (show 4 * (d.backBuf.width - s.msg.arg1.toNat) <
          u32 (cut d.backBuf.width s.msg.arg1.toNat s.msg.arg3.toNat * 4) by
        rw [cut_wraps column wide sum]
        unfold u32
        omega) fun c r inside => inside.1.1.1
    exact apart (writes member)
  by_cases sum' : 2 ^ 32 ≤ s.msg.arg2.toNat + s.msg.arg4.toNat
  · have bytes : 0 < u32 (cut d.backBuf.width s.msg.arg1.toNat s.msg.arg3.toNat * 4) := by
      rw [cut_fits column (by omega), u32_of_lt (by omega)]
      omega
    have first := writes (rows_around sound column low bytes
      (show d.backBuf.height < s.msg.arg2.toNat +
          cut d.backBuf.height s.msg.arg2.toNat s.msg.arg4.toNat by
        rw [cut_wraps low high sum']
        omega))
    have inside := ((mem_visible (k := 0) sound column (by omega) (by decide)).1 first).1
    unfold rect at inside
    omega
  · have last := writes (last_in_rows sound column low (by omega) (by omega) (by omega) (by omega))
    have inside := (mem_visible (k := 0) sound (by omega) (by omega) (by decide)).1 last
    have bound := inside.2
    unfold pixelOffset at bound
    rw [Nat.add_sub_cancel_left, Nat.add_sub_cancel_left] at bound
    apply wraps
    refine ⟨by omega, by omega, ?_⟩
    generalize (min s.msg.arg4.toNat (d.backBuf.height - s.msg.arg2.toNat) - 1) *
      s.msg.arg3.toNat = before at *
    omega

theorem blit_congr {b : PixelBuffer} {x y w h : Nat} (sound : Sound b) (column : x < b.width)
    (low : y < b.height) (wide : x + w < 2 ^ 32) (high : y + h < 2 ^ 32) {m m' : Bytes} {n : Nat}
    (bound : 4 * ((min h (b.height - y) - 1) * w + min w (b.width - x)) ≤ n) (small : n < 2 ^ 32)
    (same : ∀ i < n, m i = m' i) :
    b.blit x y (source m w h) 0 0 w h = b.blit x y (source m' w h) 0 0 w h := by
  have narrow := sound.width_lt
  have short := sound.height_lt
  by_cases empty : w = 0 ∨ h = 0
  · rw [blit_nothing m (by omega), blit_nothing m' (by omega)]
  have run : ∀ m, b.blit x y (source m w h) 0 0 w h = { b with
      data := iterate (fun row data => copyBytes data (b.pixelAt x (u32 (y + row)))
        (fun i => m (u32 ((source m w h).pixelAt 0 (u32 row) + i))) (u32 (cut b.width x w * 4)))
        (cut b.height y h) b.data } := fun m =>
    (blit_whole b (source m w h) x y (show w < 2 ^ 32 by omega) (show h < 2 ^ 32 by omega)).trans
      ((if_neg empty).trans (if_neg (by omega)))
  rw [run, run]
  congr 1
  apply iterate_congr
  intro row before data
  apply copy_congr
  intro i inside
  rw [cut_fits low high] at before
  rw [cut_fits column wide, u32_of_lt (by omega)] at inside
  have upper : row * w ≤ (min h (b.height - y) - 1) * w := Nat.mul_le_mul_right w (by omega)
  have address : ∀ m, (source m w h).pixelAt 0 (u32 row) = row * w * 4 := by
    intro m
    rw [u32_of_lt (show row < _ by omega)]
    exact (source_address m (show row < h by omega) (by omega)).trans (u32_of_lt (by omega))
  rw [address, address, u32_of_lt (by omega)]
  exact same _ (by omega)

theorem shape_delivered (fits : 4 * ((min s.msg.arg4.toNat (d.backBuf.height - s.msg.arg2.toNat) -
      1) * s.msg.arg3.toNat + min s.msg.arg3.toNat (d.backBuf.width - s.msg.arg1.toNat)) ≤
        delivered s) {c r : Nat} (column : c < d.backBuf.width) (low : r < d.backBuf.height)
    (inside : rect s.msg.arg1.toNat s.msg.arg2.toNat s.msg.arg3.toNat s.msg.arg4.toNat c r) :
    deliveredShape s c r := by
  refine ⟨inside, ?_⟩
  have upper : (r - s.msg.arg2.toNat) * s.msg.arg3.toNat ≤
      (min s.msg.arg4.toNat (d.backBuf.height - s.msg.arg2.toNat) - 1) * s.msg.arg3.toNat := by
    apply Nat.mul_le_mul_right
    unfold rect at inside
    omega
  unfold pixelOffset
  unfold rect at inside
  omega

theorem pixel_received {c r : Nat} (inside : deliveredShape s c r) :
    sourcePixel (received s stack) s.msg.arg3.toNat (c - s.msg.arg1.toNat)
      (r - s.msg.arg2.toNat) = loadWord s.data (pixelOffset s.msg c r) := by
  have bound := inside.2
  have short : delivered s ≤ 1024 := Nat.min_le_right _ _
  unfold sourcePixel
  apply load_congr
  intro k small
  have address : 4 * ((r - s.msg.arg2.toNat) * s.msg.arg3.toNat + (c - s.msg.arg1.toNat)) =
      pixelOffset s.msg c r := rfl
  rw [address, Nat.zero_add, u32_of_lt (by omega)]
  unfold received
  rw [bulk_copy_at]
  exact if_pos (show pixelOffset s.msg c r + k < delivered s by omega)

theorem uses_of_fits (sound : Sound d.backBuf)
    (fits : Fits d.backBuf.width d.backBuf.height s) : UsesDelivered font s stack d := by
  by_cases empty : s.msg.arg3.toNat = 0 ∨ s.msg.arg4.toNat = 0 ∨
      d.backBuf.width ≤ s.msg.arg1.toNat ∨ d.backBuf.height ≤ s.msg.arg2.toNat
  · have nothing : ∀ (b : PixelBuffer) m, b.width = d.backBuf.width → b.height = d.backBuf.height →
        b.blit s.msg.arg1.toNat s.msg.arg2.toNat (source m s.msg.arg3.toNat s.msg.arg4.toNat) 0 0
          s.msg.arg3.toNat s.msg.arg4.toNat = b := by
      intro b m width height
      exact blit_nothing m (by omega)
    have unchanged : changed (onMemory d.backBuf fun b => (serveBlit font s.msg
        (received s stack) { d with backBuf := b }).backBuf) = ∅ := by
      have same : (onMemory d.backBuf fun b => (serveBlit font s.msg
          (received s stack) { d with backBuf := b }).backBuf) = fun m => m :=
        funext fun m => congrArg PixelBuffer.data (nothing { d.backBuf with data := m }
          (received s stack) rfl rfl)
      rw [same]
      exact Overwrites.nothing.changed_bytes
    exact {
      reads := fun memory _ => by
        change { d with dirty := true, backBuf := _ } = { d with dirty := true, backBuf := _ }
        exact congrArg (fun b => { d with dirty := true, backBuf := b })
          ((nothing d.backBuf memory rfl rfl).trans (nothing d.backBuf _ rfl rfl).symm)
      writes := by
        rw [unchanged]
        exact Set.empty_subset _
      colors := fun _ c _ r _ member => by
        rw [unchanged] at member
        exact absurd member (Set.notMem_empty _) }
  · have narrow := sound.width_lt
    have short := sound.height_lt
    have wide := s.msg.arg3.toNat_lt
    have high := s.msg.arg4.toNat_lt
    have size : delivered s ≤ dataBufSize := Nat.min_le_right _ _
    simp only [not_or, Nat.not_le] at empty
    obtain ⟨some_, some', column, low⟩ := empty
    obtain ⟨sum, sum', bound⟩ := (((fits.resolve_left some_).resolve_left some').resolve_left
      (Nat.not_le.2 column)).resolve_left (Nat.not_le.2 low)
    have changes := blit_changes (received s stack) column low wide high (by omega) (by omega)
    rw [cut_fits column sum, cut_fits low sum', u32_of_lt (by omega), Nat.mul_comm,
      rows_inside sound (by omega) (by omega)] at changes
    have shape : visible d.backBuf (rect s.msg.arg1.toNat s.msg.arg2.toNat
        (min s.msg.arg3.toNat (d.backBuf.width - s.msg.arg1.toNat))
        (min s.msg.arg4.toNat (d.backBuf.height - s.msg.arg2.toNat))) ⊆
          visible d.backBuf (deliveredShape s) := by
      rintro i ⟨c, r, k, column', low', small, inside, address⟩
      refine ⟨c, r, k, column', low', small, shape_delivered bound column' low' ?_, address⟩
      unfold rect at inside ⊢
      omega
    have writes := changes.symm ▸ shape
    exact {
      reads := fun memory same => by
        change { d with dirty := true, backBuf := _ } = { d with dirty := true, backBuf := _ }
        exact congrArg (fun b => { d with dirty := true, backBuf := b })
          (blit_congr sound column low sum sum' (Nat.le_trans bound size) (by decide) same)
      writes := writes
      colors := fun sound c column' r low' member => by
        have inside := (mem_visible (k := 0) sound column' low' (by decide)).1 (writes member)
        obtain ⟨data, equal, painted⟩ := blit_draws sound sum sum' (received s stack)
        have pixel := painted.pixels c column' r low'
        rw [if_pos inside.1, Option.getD_some, pixel_received inside] at pixel
        rw [← pixel]
        exact congrArg (fun b : PixelBuffer => loadWord b.data (sound.raster.place c r)) equal }

/-- A blit draws only what was delivered exactly when the visible part of its rectangle was. -/
theorem uses_delivered_iff (font : UInt8 → Nat → UInt8) (s : Sending) (stack : Bytes) {d : Display}
    (sound : Sound d.backBuf) :
    UsesDelivered font s stack d ↔ Fits d.backBuf.width d.backBuf.height s :=
  ⟨fits_of_uses sound, uses_of_fits sound⟩

def smallDisplay : Display := .construct (fun _ => 0) (fun _ => 0) 17 16 68

theorem small_display_sound : Sound smallDisplay.backBuf := by
  constructor <;> decide

/-- A glyph of eight columns and sixteen rows is drawn as it was sent. -/
theorem glyph_is_delivered : UsesDelivered (fun _ _ => 0)
    (clientBlit 0 0 8 16 fun _ => 0xFF) (fun _ => 0) smallDisplay :=
  (uses_delivered_iff _ _ _ small_display_sound).2 (by decide)

/-- Of a blit of the whole screen only the first 1024 bytes of 1088 are delivered. -/
theorem screen_is_not_delivered : Sound smallDisplay.backBuf ∧
    ¬ UsesDelivered (fun _ _ => 0) (clientBlit 0 0 17 16 fun _ => 0xFF) (fun _ => 0)
      smallDisplay := by
  refine ⟨small_display_sound, ?_⟩
  intro uses
  exact absurd (fits_of_uses small_display_sound uses) (by decide)

end Law

end CassiOS.Graphics.BlitRequest
