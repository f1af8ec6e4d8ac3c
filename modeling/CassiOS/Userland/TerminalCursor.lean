import CassiOS.Userland.TerminalGrid

/-!
# The terminal's cursor

What `putchar` does to the screen that is seen: the cursor and the cells once the pending
rows have been scrolled away. `Typed` is the law of one character on an ideal screen with
unbounded counters. The terminal keeps its cursor in bytes, so the law holds exactly as long
as neither counter nor the tab stop wraps around.
-/

namespace CassiOS.Userland.TerminalCursor

open CassiOS.Support.Words
open CassiOS.Userland.TerminalGrid

set_option autoImplicit false

section Law

structure View where
  col : Nat
  row : Nat
  cell : Nat → Nat → UInt8

namespace View

variable (cols rows : Nat)

def Inside (v : View) : Prop := v.col < cols ∧ v.row < rows

def Blank (v : View) : Prop := ∀ col row, v.cell col row = charSpace

def put (ch : UInt8) (v : View) : View :=
  { v with cell := fun col row => if col = v.col ∧ row = v.row then ch else v.cell col row }

def scroll (v : View) : View :=
  { v with cell := fun col row => if row + 1 < rows then v.cell col (row + 1) else charSpace }

/-- The first column of the next row; behind the last row the screen scrolls. -/
def nextLine (v : View) : View :=
  if v.row + 1 < rows then { v with col := 0, row := v.row + 1 }
  else { v.scroll rows with col := 0 }

/-- A column of this row, or the next row once the last column has been passed. -/
def goTo (col : Nat) (v : View) : View := if col < cols then { v with col } else v.nextLine rows

def print (ch : UInt8) (v : View) : View := (v.put ch).goTo cols rows (v.col + 1)

def blankTo (stop : Nat) (v : View) : View :=
  { v with cell := fun col row =>
      if row = v.row ∧ v.col ≤ col ∧ col < stop then charSpace else v.cell col row }

end View

def tabStop (cols col : Nat) : Nat := min ((col / 8 + 1) * 8) cols

def View.tab (cols rows : Nat) (v : View) : View :=
  (v.blankTo (tabStop cols v.col)).goTo cols rows (tabStop cols v.col)

/-- What one character does. The two erasing characters may put the cursor anywhere. -/
def Typed (cols rows : Nat) (ch : UInt8) (v v' : View) : Prop :=
  if ch = charNewline then v' = v.nextLine rows
  else if ch = charTab then v' = v.tab cols rows
  else if ch = charBackspace ∨ ch = charDelete then True
  else v' = v.print cols rows ch

/-- The cursor and the cells once the pending rows have been scrolled away. -/
def view (t : Terminal) : View where
  col := t.x.toNat
  row := t.y.toNat
  cell := t.flushScroll.cellAt

/-- `putchar` returns, the cursor stays on the screen and the screen obeys the law. -/
structure Obeys (t : Terminal) (ch : UInt8) : Prop where
  returns : ∃ fuel, t.putcharWithin fuel ch = some (t.putchar ch)
  inside : (view (t.putchar ch)).Inside t.cols t.rows
  typed : Typed t.cols t.rows ch (view t) (view (t.putchar ch))

def Lawful : Terminal → List UInt8 → Prop
  | _, [] => True
  | t, ch :: rest => Obeys t ch ∧ Lawful (t.putchar ch) rest

end Law

section Condition

/-- The byte `y` can be incremented, and in the last row so can `pendingScroll`, unless there
is nothing to scroll away. -/
def LineFits (t : Terminal) : Prop :=
  t.y.toNat < 255 ∧ (t.y.toNat + 1 = t.rows →
    t.pendingScroll + 1 < 4294967296 ∨ ∀ col row, t.cellAt col row = charSpace)

/-- The byte `x` can be incremented, and in the last column so can `y`. On a screen of 256
columns `x` wraps around to the next line; it is in the same row, which is as well when the
screen is blank and the row is the last one. -/
def CellFits (t : Terminal) (ch : UInt8) : Prop :=
  (t.x.toNat < 255 ∧ (t.x.toNat + 1 = t.cols → t.y.toNat < 255)) ∨
    (t.x.toNat = 255 ∧ t.cols = 256 ∧ t.y.toNat + 1 = t.rows ∧ ((view t).put ch).Blank)

/-- The tab stop is a byte. -/
def TabFits (t : Terminal) : Prop :=
  t.x.toNat < 248 ∧ (tabStop t.cols t.x.toNat = t.cols → t.y.toNat < 255)

def Fits (t : Terminal) (ch : UInt8) : Prop :=
  if ch = charNewline then LineFits t
  else if ch = charTab then TabFits t
  else if ch = charBackspace ∨ ch = charDelete then True
  else CellFits t ch

def AllFit : Terminal → List UInt8 → Prop
  | _, [] => True
  | t, ch :: rest => Fits t ch ∧ AllFit (t.putchar ch) rest

end Condition

section Views

variable {t : Terminal}

structure InRow (t : Terminal) : Prop where
  row : t.y.toNat < t.rows
  pending : t.pendingScroll < 4294967296
  allocated : t.cells.isSome = true

structure Ready (t : Terminal) : Prop extends InRow t where
  col : t.x.toNat < t.cols

theorem view_of_shows {e : Eager} (agrees : Shows t e) :
    view t = ⟨e.x.toNat, e.y.toNat, e.cellAt⟩ := by
  unfold view
  rw [agrees.x, agrees.y]
  congr 1
  funext col row
  exact agrees.flush.cell (pending_flush t) col row

theorem cell_outside (t : Terminal) {col row : Nat} (outside : t.cols ≤ col ∨ t.rows ≤ row) :
    t.cellAt col row = charSpace := by
  unfold Terminal.cellAt
  cases t.cells with
  | none => rfl
  | some cells => exact if_pos outside

theorem seen_cell (allocated : t.cells.isSome = true) (col row : Nat) :
    (view t).cell col row =
      if row + t.pendingScroll < t.rows then t.cellAt col (row + t.pendingScroll)
      else charSpace := by
  rw [view_of_shows (shows_eager_of allocated)]
  change Eager.cellAt (eagerOf t) col row = _
  unfold Eager.cellAt eagerOf
  dsimp only
  by_cases inside : col < t.cols ∧ row < t.rows
  · rw [if_pos inside]
  · rw [if_neg inside]
    split
    · exact (cell_outside t (by omega)).symm
    · rfl

@[simp] theorem view_move (t : Terminal) (x y : UInt8) :
    view { t with x := x, y := y } = { view t with col := x.toNat, row := y.toNat } := by
  unfold view Terminal.flushScroll
  simp only [View.mk.injEq, true_and]
  split <;> rfl

end Views

section Lines

variable {t : Terminal}

/-- A newline, before the cursor is brought back into the last row. -/
def lowered (t : Terminal) : Terminal := { t with x := 0, y := t.y + 1 }

def advanced (t : Terminal) : Terminal := { t with x := t.x + 1 }

theorem next_line_inside (v : View) {rows : Nat} (room : v.row + 1 < rows) :
    v.nextLine rows = { v with col := 0, row := v.row + 1 } := if_pos room

theorem next_line_last (v : View) {rows : Nat} (last : ¬ v.row + 1 < rows) :
    v.nextLine rows = { v.scroll rows with col := 0 } := if_neg last

theorem succ_toNat {b : UInt8} (low : b.toNat < 255) : (b + 1).toNat = b.toNat + 1 := by
  rw [UInt8.toNat_add]
  exact Nat.mod_eq_of_lt (by change b.toNat + 1 < 256; omega)

theorem settle_lowered_inside (room : t.y.toNat + 1 < t.rows) (low : t.y.toNat < 255) :
    (lowered t).settle = lowered t := by
  have below : (lowered t).y.toNat = t.y.toNat + 1 := succ_toNat low
  unfold Terminal.settle
  exact if_neg (by rw [below]; exact Nat.not_le.2 room)

theorem settle_lowered_last (last : t.y.toNat + 1 = t.rows) (low : t.y.toNat < 255) :
    (lowered t).settle = { t with x := 0, pendingScroll := u32 (t.pendingScroll + 1) } := by
  have below : (lowered t).y.toNat = t.y.toNat + 1 := succ_toNat low
  have size : (lowered t).rows = t.y.toNat + 1 := last.symm
  unfold Terminal.settle
  rw [below, size, if_pos (Nat.le_refl _), Nat.sub_self, Nat.add_sub_cancel, UInt8.ofNat_toNat,
    last]
  rfl

/-- In the last row the screen scrolls, unless the count of pending rows starts anew. -/
theorem scrolled_iff (ready : InRow t) (last : t.y.toNat + 1 = t.rows) (low : t.y.toNat < 255) :
    view (lowered t).settle = (view t).nextLine t.rows ↔
      t.pendingScroll + 1 < 4294967296 ∨ ∀ col row, t.cellAt col row = charSpace := by
  have cell : ∀ col row, (view (lowered t).settle).cell col row =
      if row + u32 (t.pendingScroll + 1) < t.rows then
        t.cellAt col (row + u32 (t.pendingScroll + 1)) else charSpace := by
    rw [settle_lowered_last last low]
    exact seen_cell ready.allocated
  have cursor : view (lowered t).settle = (view t).nextLine t.rows ↔
      ∀ col row, (view (lowered t).settle).cell col row =
        if row + 1 < t.rows then (view t).cell col (row + 1) else charSpace := by
    have atEnd : ¬ (view t).row + 1 < t.rows := by
      change ¬ t.y.toNat + 1 < t.rows
      omega
    rw [next_line_last _ atEnd, settle_lowered_last last low]
    simp only [view, View.scroll, View.mk.injEq, true_and, funext_iff]
    exact ⟨And.right, fun same => ⟨rfl, same⟩⟩
  have pending := ready.pending
  rw [cursor]
  by_cases few : t.pendingScroll + 1 < 4294967296
  · refine iff_of_true (fun col row => ?_) (Or.inl few)
    rw [cell, seen_cell ready.allocated, u32_of_lt few, Nat.add_assoc, Nat.add_comm 1]
    by_cases stays : row + (t.pendingScroll + 1) < t.rows
    · rw [if_pos stays, if_pos (by omega)]
    · rw [if_neg stays, ite_self]
  · have full : t.pendingScroll = 4294967295 := by omega
    have anew : u32 (t.pendingScroll + 1) = 0 := by rw [full]; rfl
    simp only [cell, seen_cell ready.allocated, anew, Nat.add_zero]
    constructor
    · intro same
      refine Or.inr (fun col row => ?_)
      have blank := same col row
      have gone : ¬ row + 1 + t.pendingScroll < t.rows := by omega
      rw [if_neg gone, ite_self] at blank
      by_cases inside : row < t.rows
      · rwa [if_pos inside] at blank
      · exact cell_outside t (by omega)
    · rintro (few' | blank) col row
      · exact absurd few' few
      · simp [blank]

/-- A new line is a line of the ideal screen exactly when the counters do not wrap around. -/
theorem next_line_iff (ready : InRow t) :
    view (lowered t).settle = (view t).nextLine t.rows ↔ LineFits t := by
  have inside := ready.row
  by_cases low : t.y.toNat < 255
  · by_cases last : t.y.toNat + 1 = t.rows
    · rw [scrolled_iff ready last low]
      exact ⟨fun fits => ⟨low, fun _ => fits⟩, fun fits => fits.2 last⟩
    · have room : t.y.toNat + 1 < t.rows := by omega
      refine iff_of_true ?_ ⟨low, fun same => absurd same last⟩
      rw [settle_lowered_inside room low, next_line_inside _ room, lowered, view_move,
        succ_toNat low]
      rfl
  · -- The byte `y` starts anew in the first row.
    refine iff_of_false ?_ (fun fits => low fits.1)
    intro same
    have top : (lowered t).y = 0 := by
      have last : t.y = 255 := UInt8.toNat_inj.1 (by have := t.y.toNat_lt; change _ = 255; omega)
      change t.y + 1 = 0
      rw [last]
      rfl
    have rows := congrArg View.row same
    have unsettled : (lowered t).settle = lowered t := by
      unfold Terminal.settle
      refine if_neg ?_
      rw [top]
      change ¬ t.rows ≤ 0
      omega
    rw [unsettled] at rows
    change (lowered t).y.toNat = _ at rows
    rw [top] at rows
    unfold View.nextLine at rows
    split at rows
    · exact absurd rows (Nat.succ_ne_zero _).symm
    · change 0 = t.y.toNat at rows
      omega

end Lines

section Cells

variable {t : Terminal}

theorem in_row_of_shows {t' : Terminal} {e : Eager} (agrees : Shows t' e) (row : e.y.toNat < e.rows)
    (pending : t'.pendingScroll < 4294967296) : InRow t' := by
  obtain ⟨cells, allocated, _⟩ := agrees.grid
  constructor
  · rw [← agrees.y, ← agrees.rows]
    exact row
  · exact pending
  · rw [allocated]
    rfl

theorem putchar_moves {s : Terminal} (column : s.x.toNat < s.cols) (row : s.y.toNat < s.rows) :
    s.wrapLine.settle = s := by
  have unwrapped : s.wrapLine = s := if_neg (Nat.not_le.2 column)
  rw [unwrapped]
  exact if_neg (Nat.not_le.2 row)

theorem putchar_wraps {s : Terminal} (column : s.cols ≤ s.x.toNat) :
    s.wrapLine.settle = (lowered s).settle := by
  have wrapped : s.wrapLine = lowered s := if_pos column
  rw [wrapped]

theorem scroll_fixed_iff {v : View} {rows : Nat} :
    (v.scroll rows).cell = v.cell ↔ v.Blank := by
  constructor
  · intro same
    have blank : ∀ k col row, rows ≤ row + k → v.cell col row = charSpace := by
      intro k
      induction k with
      | zero =>
          intro col row below
          rw [← same]
          exact if_neg (by omega)
      | succ k ih =>
          intro col row near
          rw [← same]
          change (if row + 1 < rows then v.cell col (row + 1) else charSpace) = charSpace
          rw [ih col (row + 1) (by omega), ite_self]
    exact fun col row => blank rows col row (by omega)
  · intro blank
    funext col row
    change (if row + 1 < rows then v.cell col (row + 1) else charSpace) = _
    rw [blank, blank, ite_self]

theorem advance_iff (ready : Ready t) (settled : t.pendingScroll = 0) :
    view (advanced t).wrapLine.settle = (view t).goTo t.cols t.rows (t.x.toNat + 1) ↔
      (t.x.toNat < 255 ∧ (t.x.toNat + 1 = t.cols → t.y.toNat < 255)) ∨
        (t.x.toNat = 255 ∧ t.cols = 256 ∧ t.y.toNat + 1 = t.rows ∧ (view t).Blank) := by
  have column := ready.col
  have byte := t.x.toNat_lt
  unfold View.goTo
  by_cases low : t.x.toNat < 255
  · have next : (advanced t).x.toNat = t.x.toNat + 1 := succ_toNat low
    by_cases room : t.x.toNat + 1 < t.cols
    · have fits : (advanced t).x.toNat < (advanced t).cols := by
        rw [next]
        exact room
      rw [if_pos room, putchar_moves fits ready.row]
      refine iff_of_true ?_ (Or.inl ⟨low, fun last => by omega⟩)
      rw [← next]
      exact view_move t (t.x + 1) t.y
    · have last : t.x.toNat + 1 = t.cols := by omega
      have past : (advanced t).cols ≤ (advanced t).x.toNat := by
        rw [next]
        exact Nat.le_of_eq last.symm
      rw [if_neg room, putchar_wraps past]
      refine (next_line_iff ready.toInRow).trans ⟨fun fits => Or.inl ⟨low, fun _ => fits.1⟩, ?_⟩
      rintro (fits | lucky)
      · exact ⟨fits.2 last, fun _ => Or.inl (by omega)⟩
      · omega
  · -- The byte `x` starts anew in the same row.
    have full : t.x.toNat = 255 := by omega
    have first : advanced t = { t with x := 0 } := by
      rw [advanced, show t.x = 255 from UInt8.toNat_inj.1 full]
      rfl
    have fits : (advanced t).x.toNat < (advanced t).cols := by
      rw [first]
      exact Nat.zero_lt_of_lt column
    have seen : view (advanced t) = { view t with col := 0 } := by
      rw [first]
      exact view_move t 0 t.y
    rw [putchar_moves fits ready.row, seen]
    constructor
    · intro same
      right
      split at same
      · exact absurd (congrArg View.col same) (Nat.succ_ne_zero _).symm
      · have wide : t.cols = 256 := by omega
        by_cases room : (view t).row + 1 < t.rows
        · rw [next_line_inside _ room] at same
          exact absurd (congrArg View.row same) (Nat.succ_ne_self _).symm
        · have last : t.y.toNat + 1 = t.rows := by
            have inside := ready.row
            change ¬ t.y.toNat + 1 < t.rows at room
            omega
          rw [next_line_last _ room] at same
          exact ⟨full, wide, last, scroll_fixed_iff.1 (congrArg View.cell same).symm⟩
    · rintro (fits | ⟨-, wide, last, blank⟩)
      · exact absurd fits.1 low
      · rw [if_neg (by omega), next_line_last _ (by change ¬ t.y.toNat + 1 < t.rows; omega)]
        have fixed : ((view t).scroll t.rows).cell = (view t).cell := scroll_fixed_iff.2 blank
        rw [View.scroll, View.mk.injEq]
        exact ⟨rfl, rfl, fixed.symm⟩

theorem eager_put_cell (e : Eager) {x y : Nat} (inside : x < e.cols ∧ y < e.rows) (ch : UInt8)
    (col row : Nat) :
    (e.put x y ch).cellAt col row = if col = x ∧ row = y then ch else e.cellAt col row := by
  unfold Eager.put Eager.cellAt
  dsimp only
  by_cases here : col = x ∧ row = y
  · rw [if_pos here, if_pos here, if_pos (by rw [here.1, here.2]; exact inside)]
  · rw [if_neg here, if_neg here]

theorem drawn_ready (ready : Ready t) (ch : UInt8) :
    Ready (t.drawGlyph ch t.x.toNat t.y.toNat) ∧
      (t.drawGlyph ch t.x.toNat t.y.toNat).pendingScroll = 0 := by
  have agrees := (shows_eager_of ready.allocated).draw_glyph ch t.x.toNat t.y.toNat
  have settled : (t.drawGlyph ch t.x.toNat t.y.toNat).pendingScroll = 0 :=
    (pending_set _ _ _ _).trans (pending_flush t)
  refine ⟨⟨in_row_of_shows agrees ready.row (by rw [settled]; decide), ?_⟩, settled⟩
  rw [← agrees.x, ← agrees.cols]
  exact ready.col

theorem view_drawn (ready : Ready t) (ch : UInt8) :
    view (t.drawGlyph ch t.x.toNat t.y.toNat) = (view t).put ch := by
  have agrees := shows_eager_of ready.allocated
  rw [view_of_shows (agrees.draw_glyph ch t.x.toNat t.y.toNat), view_of_shows agrees]
  unfold View.put
  congr 1
  funext col row
  exact eager_put_cell (eagerOf t) ⟨ready.col, ready.row⟩ ch col row

/-- A character is printed exactly when the counters do not wrap around. -/
theorem print_iff (ready : Ready t) {ch : UInt8}
    (plain : ch ≠ charNewline ∧ ch ≠ charBackspace ∧ ch ≠ charDelete ∧ ch ≠ charTab) :
    view (t.typed ch).wrapLine.settle = (view t).print t.cols t.rows ch ↔ CellFits t ch := by
  have drawn := drawn_ready ready ch
  have agrees := (shows_eager_of ready.allocated).draw_glyph ch t.x.toNat t.y.toNat
  have typed : t.typed ch = advanced (t.drawGlyph ch t.x.toNat t.y.toNat) := by
    unfold Terminal.typed
    rw [if_neg plain.1, if_neg plain.2.1, if_neg plain.2.2.1, if_neg plain.2.2.2]
    rfl
  have moved := advance_iff drawn.1 drawn.2
  rw [view_drawn ready, ← agrees.x, ← agrees.y, ← agrees.cols, ← agrees.rows] at moved
  rw [typed]
  exact moved

end Cells

section Tabs

variable {t : Terminal}

theorem next_tab_low {cols : Nat} {x : UInt8} (low : x.toNat < 248) :
    Terminal.nextTab cols x = tabStop cols x.toNat := by
  unfold Terminal.nextTab tabStop
  dsimp only
  split <;> omega

theorem next_tab_high {cols : Nat} {x : UInt8} (inside : x.toNat < cols) (high : 248 ≤ x.toNat) :
    Terminal.nextTab cols x = 0 := by
  have byte := x.toNat_lt
  unfold Terminal.nextTab
  dsimp only
  split <;> omega

theorem tab_stop_gt {cols col : Nat} (inside : col < cols) : col < tabStop cols col := by
  unfold tabStop
  omega

theorem tab_stop_le (cols col : Nat) : tabStop cols col ≤ cols := Nat.min_le_right _ _

theorem eager_tab (n : Nat) (e : Eager) (byte : e.x.toNat + n < 256)
    (inside : e.x.toNat + n ≤ e.cols ∧ e.y.toNat < e.rows) :
    (e.tabLoop n).x.toNat = e.x.toNat + n ∧ (e.tabLoop n).y = e.y ∧
      ∀ col row, (e.tabLoop n).cellAt col row =
        if row = e.y.toNat ∧ e.x.toNat ≤ col ∧ col < e.x.toNat + n then charSpace
        else e.cellAt col row := by
  induction n generalizing e with
  | zero => exact ⟨rfl, rfl, fun col row => (if_neg (by omega)).symm⟩
  | succ n ih =>
      have step : (e.x + 1).toNat = e.x.toNat + 1 := succ_toNat (by omega)
      let next : Eager := { e.clearCell e.x.toNat e.y.toNat with x := e.x + 1 }
      have rest := ih next (by change (e.x + 1).toNat + n < 256; omega)
        ⟨by change (e.x + 1).toNat + n ≤ e.cols; omega, inside.2⟩
      have column : next.x.toNat = e.x.toNat + 1 := step
      refine ⟨?_, rest.2.1, fun col row => ?_⟩
      · change (next.tabLoop n).x.toNat = _
        rw [rest.1, column]
        omega
      · have cleared : next.cellAt col row = _ :=
          eager_put_cell e ⟨by omega, inside.2⟩ charSpace col row
        have cells := rest.2.2 col row
        have sameRow : next.y = e.y := rfl
        rw [column, cleared, sameRow] at cells
        refine cells.trans ?_
        by_cases here : row = e.y.toNat ∧ e.x.toNat ≤ col ∧ col < e.x.toNat + (n + 1)
        · rw [if_pos here]
          by_cases first : col = e.x.toNat ∧ row = e.y.toNat
          · rw [if_pos first, ite_self]
          · rw [if_pos (by omega)]
        · rw [if_neg here, if_neg (by omega), if_neg (by omega)]

theorem tab_settled {n : Nat} (some : 0 < n) (t : Terminal) : (t.tabLoop n).pendingScroll = 0 := by
  induction n generalizing t with
  | zero => exact absurd some (Nat.lt_irrefl 0)
  | succ n ih =>
      unfold Terminal.tabLoop
      cases n with
      | zero => exact (pending_set _ _ _ _).trans (pending_flush t)
      | succ n => exact ih (Nat.succ_pos n) _

theorem view_tab (ready : Ready t) {stop : Nat} (right : t.x.toNat < stop) (byte : stop < 256)
    (inside : stop ≤ t.cols) :
    view (t.tabLoop (stop - t.x.toNat)) = { (view t).blankTo stop with col := stop } ∧
      InRow (t.tabLoop (stop - t.x.toNat)) := by
  have agrees := shows_eager_of ready.allocated
  have after := agrees.tab_loop (stop - t.x.toNat)
  have reached : t.x.toNat + (stop - t.x.toNat) = stop := by omega
  have effect := eager_tab (stop - t.x.toNat) (eagerOf t) (by change t.x.toNat + _ < 256; omega)
    ⟨by change t.x.toNat + _ ≤ t.cols; omega, ready.row⟩
  change _ = t.x.toNat + _ ∧ _ = t.y ∧ ∀ col row, _ = if row = t.y.toNat ∧ t.x.toNat ≤ col ∧
    col < t.x.toNat + _ then _ else _ at effect
  rw [reached] at effect
  constructor
  · rw [view_of_shows after, view_of_shows agrees, effect.1, effect.2.1]
    unfold View.blankTo
    congr 1
    funext col row
    exact effect.2.2 col row
  · have settled := tab_settled (show 0 < stop - t.x.toNat by omega) t
    apply in_row_of_shows after
    · rw [effect.2.1, (size_tab_loop _ _).2]
      exact ready.row
    · rw [settled]
      decide

theorem tab_high (ready : Ready t) (high : 248 ≤ t.x.toNat) :
    (t.tabLoop (Terminal.nextTab t.cols t.x - t.x.toNat)).wrapLine.settle = t := by
  rw [next_tab_high ready.col high, Nat.zero_sub]
  exact putchar_moves ready.col ready.row

theorem next_line_col (v : View) (rows : Nat) : (v.nextLine rows).col = 0 := by
  unfold View.nextLine
  split <;> rfl

theorem tab_moves (v : View) {cols : Nat} (rows : Nat) (inside : v.col < cols)
    (right : 0 < v.col) : (v.tab cols rows).col ≠ v.col := by
  have stop := tab_stop_gt inside
  unfold View.tab View.goTo
  split
  · change tabStop cols v.col ≠ v.col
    omega
  · rw [next_line_col]
    omega

/-- A tab goes to its stop exactly when the stop is a byte and the row counter does not wrap
around. -/
theorem tab_iff (ready : Ready t) :
    view (t.typed charTab).wrapLine.settle = (view t).tab t.cols t.rows ↔ TabFits t := by
  have column := ready.col
  change view (t.tabLoop (Terminal.nextTab t.cols t.x - t.x.toNat)).wrapLine.settle = _ ↔ _
  by_cases low : t.x.toNat < 248
  · rw [next_tab_low low]
    have right : t.x.toNat < tabStop t.cols t.x.toNat := tab_stop_gt column
    have byte : tabStop t.cols t.x.toNat < 256 := by
      unfold tabStop
      omega
    have inside := tab_stop_le t.cols t.x.toNat
    generalize reached : tabStop t.cols t.x.toNat = stop at right byte inside
    have same : (view t).tab t.cols t.rows = ((view t).blankTo stop).goTo t.cols t.rows stop := by
      rw [← reached]
      rfl
    obtain ⟨seen, inRow⟩ := view_tab ready right byte inside
    have agrees := (shows_eager_of ready.allocated).tab_loop (stop - t.x.toNat)
    have cols : (t.tabLoop (stop - t.x.toNat)).cols = t.cols :=
      agrees.cols.symm.trans (size_tab_loop _ _).1
    have rows : (t.tabLoop (stop - t.x.toNat)).rows = t.rows :=
      agrees.rows.symm.trans (size_tab_loop _ _).2
    have settled := tab_settled (show 0 < stop - t.x.toNat by omega) t
    have stopped : (t.tabLoop (stop - t.x.toNat)).x.toNat = stop := congrArg View.col seen
    have stays : (t.tabLoop (stop - t.x.toNat)).y.toNat = t.y.toNat := congrArg View.row seen
    generalize t.tabLoop (stop - t.x.toNat) = s at *
    rw [same]
    unfold View.goTo TabFits
    rw [reached]
    by_cases room : stop < t.cols
    · rw [if_pos room, putchar_moves (by omega) inRow.row, seen]
      exact iff_of_true rfl ⟨low, fun last => by omega⟩
    · have line := next_line_iff inRow
      have lineFits : LineFits s ↔ t.y.toNat < 255 := by
        unfold LineFits
        rw [stays]
        exact ⟨And.left, fun low => ⟨low, fun _ => Or.inl (by omega)⟩⟩
      rw [seen, rows, lineFits] at line
      rw [if_neg room, putchar_wraps (by omega)]
      refine line.trans ?_
      exact ⟨fun fits => ⟨low, fun _ => fits⟩, fun fits => fits.2 (by omega)⟩
  · rw [tab_high ready (Nat.not_lt.1 low)]
    refine iff_of_false (fun same => ?_) (fun fits => low fits.1)
    apply tab_moves (view t) t.rows column
    · change 0 < t.x.toNat
      omega
    · exact (congrArg View.col same).symm

theorem clear_cell_x (t : Terminal) (col row : Nat) : (t.clearCell col row).x = t.x := by
  have flushed : t.flushScroll.x = t.x := by
    unfold Terminal.flushScroll
    split <;> rfl
  have set : (t.flushScroll.setCellAt col row charSpace).x = t.flushScroll.x := by
    unfold Terminal.setCellAt
    cases t.flushScroll.cells with
    | none => rfl
    | some cells =>
        dsimp only
        split <;> rfl
  exact set.trans flushed

theorem tab_within {next fuel : Nat} (t : Terminal) (byte : next < 256)
    (enough : next - t.x.toNat ≤ fuel) :
    t.tabWithin next fuel = some (t.tabLoop (next - t.x.toNat)) := by
  induction fuel generalizing t with
  | zero =>
      have done : next - t.x.toNat = 0 := by omega
      rw [done]
      exact if_neg (by omega)
  | succ fuel ih =>
      unfold Terminal.tabWithin
      by_cases more : t.x.toNat < next
      · let after : Terminal := advanced (t.clearCell t.x.toNat t.y.toNat)
        have step : after.x.toNat = t.x.toNat + 1 := by
          change ((t.clearCell _ _).x + 1).toNat = _
          rw [clear_cell_x]
          exact succ_toNat (by omega)
        have left : next - t.x.toNat = (next - after.x.toNat) + 1 := by omega
        rw [if_pos more, left]
        exact ih after (by omega)
      · have done : next - t.x.toNat = 0 := by omega
        rw [if_neg more, done]
        rfl

theorem next_tab_lt (cols : Nat) (x : UInt8) : Terminal.nextTab cols x < 256 := by
  unfold Terminal.nextTab
  dsimp only
  split <;> omega

end Tabs

section Runs

variable {t : Terminal}

theorem putchar_eq (ready : Ready t) (ch : UInt8) :
    t.putchar ch = (t.typed ch).wrapLine.settle := by
  have col := ready.col
  have row := ready.row
  exact if_neg (by omega)

theorem putchar_returns (ready : Ready t) (ch : UInt8) :
    t.putcharWithin 256 ch = some (t.putchar ch) := by
  have byte := next_tab_lt t.cols t.x
  have col := ready.col
  have row := ready.row
  unfold Terminal.putcharWithin
  rw [putchar_eq ready, if_neg (by omega)]
  by_cases tab : ch = charTab
  · rw [if_pos tab, tab_within t byte (by omega), tab]
    rfl
  · rw [if_neg tab]
    rfl

theorem typed_pending (t : Terminal) (ch : UInt8) :
    (t.typed ch).pendingScroll ≤ t.pendingScroll := by
  have cleared : ∀ (s : Terminal) col row, (s.clearCell col row).pendingScroll = 0 :=
    fun s _ _ => (pending_set _ _ _ _).trans (pending_flush s)
  unfold Terminal.typed
  split
  · exact Nat.le_refl _
  split
  · dsimp only
    rw [cleared]
    exact Nat.zero_le _
  split
  · rw [cleared]
    exact Nat.zero_le _
  split
  · cases Terminal.nextTab t.cols t.x - t.x.toNat with
    | zero => exact Nat.le_refl _
    | succ n =>
        rw [tab_settled (Nat.succ_pos n)]
        exact Nat.zero_le _
  · have drawn : (t.drawGlyph ch t.x.toNat t.y.toNat).pendingScroll = 0 :=
      (pending_set _ _ _ _).trans (pending_flush t)
    change (t.drawGlyph ch t.x.toNat t.y.toNat).pendingScroll ≤ _
    rw [drawn]
    exact Nat.zero_le _

/-- Whatever is typed, the cursor ends up on the screen. -/
theorem settle_ready {s : Terminal} (size : 0 < s.cols ∧ 0 < s.rows)
    (pending : s.pendingScroll < 4294967296) (allocated : s.cells.isSome = true) :
    Ready s.wrapLine.settle ∧ s.wrapLine.settle.cols = s.cols ∧
      s.wrapLine.settle.rows = s.rows := by
  have wrapped : s.wrapLine.x.toNat < s.cols ∧ s.wrapLine.cols = s.cols ∧
      s.wrapLine.rows = s.rows ∧ s.wrapLine.pendingScroll = s.pendingScroll ∧
      s.wrapLine.cells = s.cells := by
    unfold Terminal.wrapLine
    split
    · exact ⟨size.1, rfl, rfl, rfl, rfl⟩
    · exact ⟨Nat.not_le.1 ‹_›, rfl, rfl, rfl, rfl⟩
  obtain ⟨column, cols, rows, same, cells⟩ := wrapped
  unfold Terminal.settle
  split
  · refine ⟨⟨⟨?_, Nat.mod_lt _ (by decide), ?_⟩, ?_⟩, cols, rows⟩
    · have small : (UInt8.ofNat (s.wrapLine.rows - 1)).toNat ≤ s.wrapLine.rows - 1 := by
        rw [UInt8.toNat_ofNat']
        exact Nat.mod_le _ _
      change (UInt8.ofNat (s.wrapLine.rows - 1)).toNat < s.wrapLine.rows
      omega
    · change s.wrapLine.cells.isSome = true
      rw [cells]
      exact allocated
    · change s.wrapLine.x.toNat < s.wrapLine.cols
      omega
  · exact ⟨⟨⟨Nat.not_le.1 ‹_›, by omega, by rw [cells]; exact allocated⟩, by omega⟩, cols, rows⟩

theorem putchar_ready (ready : Ready t) (ch : UInt8) :
    Ready (t.putchar ch) ∧ (t.putchar ch).cols = t.cols ∧ (t.putchar ch).rows = t.rows := by
  have agrees := (shows_eager_of ready.allocated).typed ch
  obtain ⟨cells, allocated, _⟩ := agrees.grid
  have cols : (t.typed ch).cols = t.cols := agrees.cols.symm.trans (size_typed ch _).1
  have rows : (t.typed ch).rows = t.rows := agrees.rows.symm.trans (size_typed ch _).2
  have column := ready.col
  have row := ready.row
  rw [putchar_eq ready, ← cols, ← rows]
  apply settle_ready
  · omega
  · exact Nat.lt_of_le_of_lt (typed_pending t ch) ready.pending
  · rw [allocated]
    rfl

/-- One character obeys the law exactly when no byte and no count wraps around. -/
theorem obeys_iff (ready : Ready t) (ch : UInt8) : Obeys t ch ↔ Fits t ch := by
  have after := putchar_ready ready ch
  have typed : Obeys t ch ↔ Typed t.cols t.rows ch (view t) (view (t.putchar ch)) := by
    refine ⟨Obeys.typed, fun law => ⟨⟨256, putchar_returns ready ch⟩, ?_, law⟩⟩
    rw [← after.2.1, ← after.2.2]
    exact ⟨after.1.col, after.1.row⟩
  rw [typed, putchar_eq ready]
  unfold Typed Fits
  by_cases newline : ch = charNewline
  · rw [if_pos newline, if_pos newline, newline]
    have column := ready.col
    have same : (t.typed charNewline).wrapLine = lowered t := if_neg (by
      change ¬ t.cols ≤ 0
      omega)
    rw [same]
    exact next_line_iff ready.toInRow
  rw [if_neg newline, if_neg newline]
  by_cases tab : ch = charTab
  · rw [if_pos tab, if_pos tab, tab]
    exact tab_iff ready
  rw [if_neg tab, if_neg tab]
  by_cases erases : ch = charBackspace ∨ ch = charDelete
  · rw [if_pos erases, if_pos erases]
  · rw [if_neg erases, if_neg erases]
    exact print_iff ready ⟨newline, mt Or.inl erases, mt Or.inr erases, tab⟩

theorem all_fit_iff (ready : Ready t) (bytes : List UInt8) : Lawful t bytes ↔ AllFit t bytes := by
  induction bytes generalizing t with
  | nil => exact Iff.rfl
  | cons ch rest ih => exact and_congr (obeys_iff ready ch) (ih (putchar_ready ready ch).1)

end Runs

section Printing

variable {cols rows : Nat} {v v' : View} {s : List UInt8}

def View.printAll (cols rows : Nat) : View → List UInt8 → View :=
  List.foldl fun v ch => v.print cols rows ch

/-- The column of the `i`th character of a text that begins at the cursor. -/
def View.column (cols : Nat) (v : View) (i : Nat) : Nat := (v.col + i) % cols

/-- Its line, counted from the row that is the first one before the text is printed. -/
def View.line (cols : Nat) (v : View) (i : Nat) : Nat := v.row + (v.col + i) / cols

/-- A text fills consecutive cells from left to right and line by line. The cursor stands
behind it, and `gone` lines have been scrolled away to keep it on the screen. -/
structure Printed (cols rows : Nat) (v : View) (s : List UInt8) (gone : Nat) (v' : View) :
    Prop where
  scrolled : gone = v.line cols s.length - (rows - 1)
  col : v'.col = v.column cols s.length
  row : v'.row + gone = v.line cols s.length
  cell : ∀ i, (inside : i < s.length) → gone ≤ v.line cols i →
    v'.cell (v.column cols i) (v.line cols i - gone) = s[i]

theorem next_place (v : View) (i : Nat) (some : 0 < cols) :
    (v.column cols i + 1 < cols ∧ v.column cols (i + 1) = v.column cols i + 1 ∧
        v.line cols (i + 1) = v.line cols i) ∨
      (v.column cols i + 1 = cols ∧ v.column cols (i + 1) = 0 ∧
        v.line cols (i + 1) = v.line cols i + 1) := by
  have here := Nat.mod_add_div (v.col + i) cols
  have below := Nat.mod_lt (v.col + i) some
  unfold View.column View.line
  rw [← Nat.add_assoc]
  by_cases room : (v.col + i) % cols + 1 < cols
  · have next : (v.col + i + 1) / cols = (v.col + i) / cols ∧
        (v.col + i + 1) % cols = (v.col + i) % cols + 1 :=
      (Nat.div_mod_unique some).2 ⟨by omega, room⟩
    exact Or.inl ⟨room, next.2, by rw [next.1]⟩
  · have last : (v.col + i) % cols + 1 = cols := by omega
    have next : (v.col + i + 1) / cols = (v.col + i) / cols + 1 ∧ (v.col + i + 1) % cols = 0 :=
      (Nat.div_mod_unique some).2 ⟨by rw [Nat.mul_succ]; omega, some⟩
    exact Or.inr ⟨last, next.2, by rw [next.1, Nat.add_assoc]⟩

theorem line_mono (v : View) {i j : Nat} (before : i ≤ j) : v.line cols i ≤ v.line cols j :=
  Nat.add_le_add_left (Nat.div_le_div_right (Nat.add_le_add_left before v.col)) v.row

theorem places_differ (v : View) {i j : Nat} (before : i < j) :
    ¬ (v.column cols i = v.column cols j ∧ v.line cols i = v.line cols j) := by
  rintro ⟨column, line⟩
  have first := Nat.mod_add_div (v.col + i) cols
  have second := Nat.mod_add_div (v.col + j) cols
  have same : (v.col + i) / cols = (v.col + j) / cols := Nat.add_left_cancel line
  unfold View.column at column
  rw [column, same] at first
  omega

theorem Printed.snoc {gone : Nat} (size : 0 < cols ∧ 0 < rows)
    (printed : Printed cols rows v s gone v') (ch : UInt8) :
    ∃ gone', Printed cols rows v (s ++ [ch]) gone' (v'.print cols rows ch) := by
  have scrolled := printed.scrolled
  have row := printed.row
  -- What is in the cells after the character has been put, before the cursor moves on.
  have cell : ∀ i, (inside : i < (s ++ [ch]).length) → gone ≤ v.line cols i →
      (v'.put ch).cell (v.column cols i) (v.line cols i - gone) = (s ++ [ch])[i] := by
    intro i inside visible
    change (if _ = v'.col ∧ _ = v'.row then ch else v'.cell _ _) = _
    rw [List.length_append, List.length_singleton] at inside
    by_cases last : i = s.length
    · subst last
      rw [if_pos ⟨printed.col.symm, by omega⟩]
      simp
    · have earlier : i < s.length := by omega
      have apart : ¬ (v.column cols i = v'.col ∧ v.line cols i - gone = v'.row) := by
        rintro ⟨column, line⟩
        exact places_differ v earlier ⟨column.trans printed.col, by omega⟩
      rw [if_neg apart, printed.cell i earlier visible, List.getElem_append_left earlier]
  have length : (s ++ [ch]).length = s.length + 1 := by simp
  unfold View.print View.goTo
  rw [printed.col]
  obtain ⟨room, column, line⟩ | ⟨last, column, line⟩ := next_place v s.length size.1
  · rw [if_pos room]
    refine ⟨gone, ?_, ?_, ?_, cell⟩
    · rw [length, line]
      exact scrolled
    · rw [length, column]
    · rw [length, line]
      exact row
  · rw [if_neg (by omega)]
    by_cases more : v'.row + 1 < rows
    · rw [next_line_inside (v'.put ch) more]
      refine ⟨gone, ?_, ?_, ?_, cell⟩
      · rw [length, line]
        omega
      · rw [length, column]
      · change v'.row + 1 + gone = _
        rw [length, line]
        omega
    · rw [next_line_last (v'.put ch) more]
      refine ⟨gone + 1, ?_, ?_, ?_, ?_⟩
      · rw [length, line]
        omega
      · rw [length, column]
      · change v'.row + (gone + 1) = _
        rw [length, line]
        omega
      · intro i inside visible
        have below : v.line cols i ≤ v.line cols s.length := line_mono v (by omega)
        have up : v.line cols i - (gone + 1) + 1 = v.line cols i - gone := by omega
        change (if v.line cols i - (gone + 1) + 1 < rows then
          (v'.put ch).cell (v.column cols i) (v.line cols i - (gone + 1) + 1) else charSpace) = _
        rw [up, if_pos (by omega)]
        exact cell i inside (by omega)

theorem Printed.append {gone : Nat} (size : 0 < cols ∧ 0 < rows)
    (printed : Printed cols rows v s gone v') (rest : List UInt8) :
    ∃ gone', Printed cols rows v (s ++ rest) gone' (v'.printAll cols rows rest) := by
  induction rest generalizing s gone v' with
  | nil => exact ⟨gone, by rw [List.append_nil]; exact printed⟩
  | cons ch rest ih =>
      obtain ⟨gone', printed'⟩ := printed.snoc size ch
      rw [List.append_cons]
      exact ih printed'

theorem print_all (inside : v.Inside cols rows) (s : List UInt8) :
    ∃ gone, Printed cols rows v s gone (v.printAll cols rows s) := by
  have column : v.column cols 0 = v.col := Nat.mod_eq_of_lt inside.1
  have line : v.line cols 0 = v.row := by
    unfold View.line
    rw [Nat.add_zero, Nat.div_eq_of_lt inside.1, Nat.add_zero]
  have row := inside.2
  have nothing : Printed cols rows v [] 0 v := by
    refine ⟨?_, column.symm, line.symm, fun i none => absurd none (Nat.not_lt_zero i)⟩
    rw [List.length_nil, line]
    omega
  exact nothing.append ⟨Nat.zero_lt_of_lt inside.1, Nat.zero_lt_of_lt inside.2⟩ s

end Printing

section Screen

variable {t : Terminal}

def typeAll : Terminal → List UInt8 → Terminal := List.foldl fun t ch => t.putchar ch

/-- A character that `putchar` draws. -/
def Plain (ch : UInt8) : Prop :=
  ch ≠ charNewline ∧ ch ≠ charTab ∧ ch ≠ charBackspace ∧ ch ≠ charDelete

theorem type_all_ready (ready : Ready t) (bytes : List UInt8) :
    Ready (typeAll t bytes) ∧ (typeAll t bytes).cols = t.cols ∧
      (typeAll t bytes).rows = t.rows := by
  induction bytes generalizing t with
  | nil => exact ⟨ready, rfl, rfl⟩
  | cons ch rest ih =>
      have after := putchar_ready ready ch
      have last := ih after.1
      exact ⟨last.1, last.2.1.trans after.2.1, last.2.2.trans after.2.2⟩

theorem all_fit_append (t : Terminal) (bytes rest : List UInt8) :
    AllFit t (bytes ++ rest) ↔ AllFit t bytes ∧ AllFit (typeAll t bytes) rest := by
  induction bytes generalizing t with
  | nil => exact (and_iff_right trivial).symm
  | cons ch bytes ih => exact (and_congr_right fun _ => ih (t.putchar ch)).trans and_assoc.symm

theorem plain_view (ready : Ready t) {ch : UInt8} (plain : Plain ch) (fits : Fits t ch) :
    view (t.putchar ch) = (view t).print t.cols t.rows ch := by
  have law := ((obeys_iff ready ch).2 fits).typed
  unfold Typed at law
  rwa [if_neg plain.1, if_neg plain.2.1, if_neg (not_or.2 plain.2.2)] at law

theorem text_view (ready : Ready t) {text : List UInt8} (plain : ∀ ch ∈ text, Plain ch)
    (fits : AllFit t text) :
    view (typeAll t text) = (view t).printAll t.cols t.rows text := by
  induction text generalizing t with
  | nil => rfl
  | cons ch rest ih =>
      have after := putchar_ready ready ch
      have first := plain_view ready (plain ch List.mem_cons_self) fits.1
      have tail := ih after.1 (fun ch inside => plain ch (List.mem_cons_of_mem _ inside)) fits.2
      rw [first, after.2.1, after.2.2] at tail
      exact tail

/-- A text that fits fills consecutive cells from left to right, goes on in the first column
of the next row behind the last column, and scrolls the screen behind the last row. -/
theorem text_printed (ready : Ready t) {text : List UInt8} (plain : ∀ ch ∈ text, Plain ch)
    (fits : AllFit t text) :
    ∃ gone, Printed t.cols t.rows (view t) text gone (view (typeAll t text)) := by
  rw [text_view ready plain fits]
  exact print_all ⟨ready.col, ready.row⟩ text

section Small

theorem add_one_le (b : UInt8) : (b + 1).toNat ≤ b.toNat + 1 := by
  rw [UInt8.toNat_add]
  exact Nat.mod_le _ _

theorem eager_tab_row (n : Nat) (e : Eager) : (e.tabLoop n).y = e.y := by
  induction n generalizing e with
  | zero => rfl
  | succ n ih => exact ih _

/-- Only a newline leaves the row before the end of the row is looked at. -/
theorem typed_row (ready : Ready t) {ch : UInt8} (same : ch ≠ charNewline) :
    (t.typed ch).y.toNat ≤ t.y.toNat := by
  have back : (eagerOf t).stepBack.y.toNat ≤ t.y.toNat := by
    unfold Eager.stepBack
    split
    · exact Nat.le_refl _
    · split
      · rename_i _ below
        have positive : 0 < t.y.toNat := UInt8.lt_iff_toNat_lt.1 below
        have some : (1 : UInt8) ≤ t.y := UInt8.le_iff_toNat_le.2 positive
        change (t.y - 1).toNat ≤ t.y.toNat
        rw [UInt8.toNat_sub_of_le _ _ some]
        exact Nat.sub_le _ _
      · exact Nat.le_refl _
  rw [← ((shows_eager_of ready.allocated).typed ch).y]
  unfold Eager.typed
  rw [if_neg same]
  split
  · exact back
  split
  · exact Nat.le_refl _
  split
  · rw [eager_tab_row]
    exact Nat.le_refl _
  · exact Nat.le_refl _

theorem putchar_pending (ready : Ready t) (ch : UInt8) :
    (t.putchar ch).pendingScroll ≤ t.pendingScroll + 1 := by
  have few := typed_pending t ch
  have row := ready.row
  have after : (t.typed ch).wrapLine.y.toNat ≤ t.y.toNat + 1 ∧
      (t.typed ch).wrapLine.pendingScroll ≤ t.pendingScroll := by
    by_cases newline : ch = charNewline
    · have column := ready.col
      have same : (t.typed ch).wrapLine = lowered t := by
        rw [newline]
        exact if_neg (by change ¬ t.cols ≤ 0; omega)
      rw [same]
      exact ⟨add_one_le t.y, Nat.le_refl _⟩
    · have before := typed_row ready newline
      unfold Terminal.wrapLine
      split
      · exact ⟨Nat.le_trans (add_one_le _) (Nat.succ_le_succ before), few⟩
      · exact ⟨Nat.le_succ_of_le before, few⟩
  have agrees := ((shows_eager_of ready.allocated).typed ch).wrap_line
  have rows : (t.typed ch).wrapLine.rows = t.rows := by
    rw [← agrees.rows, (size_wrap_line _).2, (size_typed ch _).2]
    rfl
  rw [putchar_eq ready]
  unfold Terminal.settle
  split
  · have small := Nat.mod_le ((t.typed ch).wrapLine.pendingScroll +
      ((t.typed ch).wrapLine.y.toNat - (t.typed ch).wrapLine.rows + 1)) 4294967296
    change u32 _ ≤ _
    unfold u32
    omega
  · omega

theorem small_fits (ready : Ready t) (small : t.cols ≤ 248 ∧ t.rows ≤ 255)
    {bytes : List UInt8} (few : t.pendingScroll + bytes.length < 4294967296) :
    AllFit t bytes := by
  induction bytes generalizing t with
  | nil => trivial
  | cons ch rest ih =>
      have column := ready.col
      have row := ready.row
      have after := putchar_ready ready ch
      have pending := putchar_pending ready ch
      rw [List.length_cons] at few
      constructor
      · unfold Fits
        split
        · exact ⟨by omega, fun _ => Or.inl (by omega)⟩
        split
        · exact ⟨by omega, fun _ => by omega⟩
        split
        · trivial
        · exact Or.inl ⟨by omega, fun _ => by omega⟩
      · exact ih after.1 (by rw [after.2.1, after.2.2]; exact small) (by omega)

end Small

section Large

def letter : UInt8 := 0x41

theorem letter_plain : Plain letter := by
  unfold Plain
  decide

theorem letters_typed (ready : Ready t) (n : Nat) (room : t.x.toNat + n < t.cols)
    (byte : t.x.toNat + n ≤ 255) :
    AllFit t (List.replicate n letter) ∧
      (typeAll t (List.replicate n letter)).x.toNat = t.x.toNat + n := by
  induction n generalizing t with
  | zero => exact ⟨trivial, rfl⟩
  | succ n ih =>
      have fits : Fits t letter := Or.inl ⟨by omega, fun last => by omega⟩
      have after := putchar_ready ready letter
      have column : (t.putchar letter).x.toNat = t.x.toNat + 1 := by
        have printed := congrArg View.col (plain_view ready letter_plain fits)
        unfold View.print View.goTo at printed
        rw [if_pos (by change t.x.toNat + 1 < _; omega)] at printed
        exact printed
      have rest := ih after.1 (by rw [column, after.2.1]; omega) (by rw [column]; omega)
      rw [column] at rest
      exact ⟨⟨fits, rest.1⟩, by rw [← Nat.add_assoc, Nat.add_right_comm]; exact rest.2⟩

theorem tab_fails (ready : Ready t) (first : t.x = 0) (wide : 249 ≤ t.cols) :
    ¬ AllFit t (List.replicate 248 letter ++ [charTab]) := by
  have zero : t.x.toNat = 0 := by rw [first]; rfl
  have letters := letters_typed ready 248 (by omega) (by omega)
  rw [all_fit_append]
  rintro ⟨_, fits, _⟩
  have low : TabFits (typeAll t (List.replicate 248 letter)) := fits
  have column := low.1
  omega

theorem newlines_typed (ready : Ready t) (n : Nat) (room : t.y.toNat + n < t.rows)
    (byte : t.y.toNat + n ≤ 255) :
    AllFit t (List.replicate n charNewline) ∧
      (typeAll t (List.replicate n charNewline)).y.toNat = t.y.toNat + n := by
  induction n generalizing t with
  | zero => exact ⟨trivial, rfl⟩
  | succ n ih =>
      have fits : Fits t charNewline := ⟨by omega, fun last => by omega⟩
      have after := putchar_ready ready charNewline
      have row : (t.putchar charNewline).y.toNat = t.y.toNat + 1 := by
        have law : _ = (view t).nextLine t.rows := ((obeys_iff ready charNewline).2 fits).typed
        have line := congrArg View.row law
        rw [next_line_inside _ (by change t.y.toNat + 1 < _; omega)] at line
        exact line
      have rest := ih after.1 (by rw [row, after.2.2]; omega) (by rw [row]; omega)
      rw [row] at rest
      exact ⟨⟨fits, rest.1⟩, by rw [← Nat.add_assoc, Nat.add_right_comm]; exact rest.2⟩

theorem newline_fails (ready : Ready t) (first : t.y = 0) (high : 256 ≤ t.rows) :
    ¬ AllFit t (List.replicate 255 charNewline ++ [charNewline]) := by
  have zero : t.y.toNat = 0 := by rw [first]; rfl
  have lines := newlines_typed ready 255 (by omega) (by omega)
  rw [all_fit_append]
  rintro ⟨_, fits, _⟩
  have low : LineFits (typeAll t (List.replicate 255 charNewline)) := fits
  have row := low.1
  omega

end Large

/-- The terminal of a screen of the given size in pixels. Its grid has been allocated. -/
structure OnScreen (width height : UInt32) (t : Terminal) : Prop where
  cols : t.cols = width.toNat / fontWidth
  rows : t.rows = height.toNat / fontHeight
  visible : 1 ≤ t.cols ∧ 1 ≤ t.rows
  fits : t.cols * t.rows < 4294967296
  allocated : t.cells.isSome = true

theorem construct_on_screen {width height : UInt32} (granted : Nat → UInt8)
    (visible : 1 ≤ width.toNat / fontWidth ∧ 1 ≤ height.toNat / fontHeight)
    (fits : width.toNat / fontWidth * (height.toNat / fontHeight) < 4294967296) :
    OnScreen width height (.construct width height granted) := by
  have some : 0 < u32 (width.toNat / fontWidth * (height.toNat / fontHeight)) := by
    rw [u32_of_lt fits]
    exact Nat.mul_pos visible.1 visible.2
  refine ⟨rfl, rfl, visible, fits, ?_⟩
  unfold Terminal.construct
  dsimp only
  rw [if_pos some]
  rfl

theorem clear_ready {width height : UInt32} (screen : OnScreen width height t) :
    Ready t.clear := by
  have visible := screen.visible
  refine ⟨⟨?_, ?_, ?_⟩, ?_⟩
  · exact visible.2
  · change 0 < 4294967296
    decide
  · change (t.cells.map _).isSome = true
    rw [Option.isSome_map]
    exact screen.allocated
  · exact visible.1

/-- Every string of fewer than `2 ^ 32` bytes obeys the law exactly on the screens of at most
248 columns and 255 rows. -/
theorem small_screen_iff {width height : UInt32} (screen : OnScreen width height t) :
    (∀ bytes : List UInt8, bytes.length < 4294967296 → Lawful t.clear bytes) ↔
      t.cols ≤ 248 ∧ t.rows ≤ 255 := by
  have ready := clear_ready screen
  constructor
  · intro lawful
    constructor
    · by_contra wide
      apply tab_fails ready rfl (Nat.not_le.1 wide)
      apply (all_fit_iff ready _).1
      apply lawful
      rw [List.length_append, List.length_replicate]
      decide
    · by_contra high
      apply newline_fails ready rfl (Nat.not_le.1 high)
      apply (all_fit_iff ready _).1
      apply lawful
      rw [List.length_append, List.length_replicate]
      decide
  · intro small bytes few
    apply (all_fit_iff ready bytes).2
    apply small_fits ready small
    change 0 + bytes.length < 4294967296
    omega

/-- Typed on a cleared screen, a string obeys the law exactly when each of its characters fits
where it is typed; for the short strings this is a matter of the size of the screen. -/
theorem lawful_iff {width height : UInt32} (screen : OnScreen width height t) :
    (∀ bytes, Lawful t.clear bytes ↔ AllFit t.clear bytes) ∧
      ((∀ bytes : List UInt8, bytes.length < 4294967296 → Lawful t.clear bytes) ↔
        t.cols ≤ 248 ∧ t.rows ≤ 255) :=
  ⟨all_fit_iff (clear_ready screen), small_screen_iff screen⟩

def terminalOf (width height : UInt32) : Terminal := .construct width height fun _ => 0

theorem vga_on_screen : OnScreen 640 480 (terminalOf 640 480) :=
  construct_on_screen _ (by decide) (by decide)

theorem lawful_on_vga : Lawful (terminalOf 640 480).clear [letter, charTab, letter, charNewline] :=
  (lawful_iff vga_on_screen).2.2 (by decide) _ (by decide)

/-- On a screen of 256 columns, a tab behind 248 letters does nothing. -/
theorem tab_is_not_lawful : OnScreen 2048 1152 (terminalOf 2048 1152) ∧
    ¬ Lawful (terminalOf 2048 1152).clear (List.replicate 248 letter ++ [charTab]) := by
  have screen : OnScreen 2048 1152 (terminalOf 2048 1152) :=
    construct_on_screen _ (by decide) (by decide)
  have ready := clear_ready screen
  refine ⟨screen, ?_⟩
  rw [all_fit_iff ready]
  exact tab_fails ready rfl (by decide)

end Screen

end CassiOS.Userland.TerminalCursor
