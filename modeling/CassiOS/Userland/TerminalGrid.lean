import CassiOS.Support.RowMajor
import CassiOS.Support.Words

/-!
# Terminal

`Terminal` of `userspace/core/terminal`: a grid of characters that is drawn through the
display service. A newline in the last row does not move the grid at once; the rows to
scroll by are counted in `pendingScroll` and the grid is shifted before the next cell is
drawn or read. `eager` is the terminal that shifts at once, and every sequence of calls
keeps the two in step.
-/

namespace CassiOS.Userland.TerminalGrid

open CassiOS.Support.RowMajor
open CassiOS.Support.Words

set_option autoImplicit false

def fontWidth : Nat := 8
def fontHeight : Nat := 16

def charSpace : UInt8 := 0x20
def charNewline : UInt8 := 0x0A
def charBackspace : UInt8 := 0x08
def charTab : UInt8 := 0x09
def charDelete : UInt8 := 0x7F

inductive DisplayCall where
  | fillRect (x y w h color : Nat)
  | drawChar (x y : Nat) (ch : UInt8) (fg bg : Nat)
  | scroll (pixels color : Nat)

/-- `cells` is null before the grid has been allocated. -/
structure Terminal where
  cols : Nat
  rows : Nat
  x : UInt8
  y : UInt8
  fg : Nat
  bg : Nat
  cells : Option (Nat → UInt8)
  pendingScroll : Nat
  calls : List DisplayCall

namespace Terminal

def emit (t : Terminal) (call : DisplayCall) : Terminal := { t with calls := t.calls ++ [call] }

def cellAt (t : Terminal) (col row : Nat) : UInt8 :=
  match t.cells with
  | none => charSpace
  | some cells => if t.cols ≤ col ∨ t.rows ≤ row then charSpace else cells (row * t.cols + col)

def setCellAt (t : Terminal) (col row : Nat) (ch : UInt8) : Terminal :=
  match t.cells with
  | none => t
  | some cells =>
      if col < t.cols ∧ row < t.rows then
        { t with cells := some fun i => if i = row * t.cols + col then ch else cells i }
      else t

/-- `mem::set(cells + start, ' ', n)`. -/
def blankFrom (start n : Nat) (cells : Nat → UInt8) : Nat → UInt8 := fun i =>
  if start ≤ i ∧ i < start + n then charSpace else cells i

/-- `mem::move(cells, cells + start, n)`. -/
def moveDown (start n : Nat) (cells : Nat → UInt8) : Nat → UInt8 := fun i =>
  if i < n then cells (start + i) else cells i

/-- The grid after `scrollRows` rows have left at the top. -/
def shiftCells (cols rows scrollRows : Nat) (cells : Nat → UInt8) : Nat → UInt8 :=
  if rows ≤ scrollRows then blankFrom 0 (cols * rows) cells
  else blankFrom ((rows - scrollRows) * cols) (scrollRows * cols)
    (moveDown (scrollRows * cols) ((rows - scrollRows) * cols) cells)

def flushScroll (t : Terminal) : Terminal :=
  if 0 < t.pendingScroll then
    { t.emit (.scroll (u32 (t.pendingScroll * fontHeight)) t.bg) with
      cells := t.cells.map (shiftCells t.cols t.rows t.pendingScroll)
      pendingScroll := 0 }
  else t

def drawGlyph (ch : UInt8) (col row : Nat) (t : Terminal) : Terminal :=
  let t := t.flushScroll.setCellAt col row ch
  t.emit (.drawChar (col * fontWidth) (row * fontHeight) ch t.fg t.bg)

def clearCell (col row : Nat) (t : Terminal) : Terminal :=
  let t := t.flushScroll.setCellAt col row charSpace
  t.emit (.fillRect (col * fontWidth) (row * fontHeight) fontWidth fontHeight t.bg)

/-- The loop of the tab case, with `n` columns to go. -/
def tabLoop : Nat → Terminal → Terminal
  | 0, t => t
  | n + 1, t =>
      let t := t.clearCell t.x.toNat t.y.toNat
      tabLoop n { t with x := t.x + 1 }

/-- `(x + 8) & ~7` as a byte, at most the number of columns. -/
def nextTab (cols : Nat) (x : UInt8) : Nat :=
  let next := (x.toNat + 8) / 8 * 8 % 256
  if cols ≤ next then cols % 256 else next

/-- One cell to the left, from the first column to the end of the line above. -/
def stepBack (t : Terminal) : Terminal :=
  if 0 < t.x then { t with x := t.x - 1 }
  else if 0 < t.y then { t with y := t.y - 1, x := UInt8.ofNat (t.cols - 1) }
  else t

/-- The switch of `putchar`. -/
def typed (ch : UInt8) (t : Terminal) : Terminal :=
  if ch = charNewline then { t with y := t.y + 1, x := 0 }
  else if ch = charBackspace then
    let t := t.stepBack
    t.clearCell t.x.toNat t.y.toNat
  else if ch = charDelete then t.clearCell t.x.toNat t.y.toNat
  else if ch = charTab then t.tabLoop (nextTab t.cols t.x - t.x.toNat)
  else
    let t := t.drawGlyph ch t.x.toNat t.y.toNat
    { t with x := t.x + 1 }

/-- A cursor behind the last column goes to the next line. -/
def wrapLine (t : Terminal) : Terminal :=
  if t.cols ≤ t.x.toNat then { t with y := t.y + 1, x := 0 } else t

def rowsPast (t : Terminal) : Nat := if t.rows ≤ t.y.toNat then t.y.toNat - t.rows + 1 else 0

def settle (t : Terminal) : Terminal :=
  if t.rows ≤ t.y.toNat then
    { t with
      pendingScroll := u32 (t.pendingScroll + (t.y.toNat - t.rows + 1))
      y := UInt8.ofNat (t.rows - 1) }
  else t

def putchar (ch : UInt8) (t : Terminal) : Terminal :=
  if t.cols = 0 ∨ t.rows = 0 then t else (t.typed ch).wrapLine.settle

/-- The loop `while (x < next)` of the tab case, for at most `fuel` rounds. -/
def tabWithin (next : Nat) : Nat → Terminal → Option Terminal
  | 0, t => if t.x.toNat < next then none else some t
  | fuel + 1, t =>
      if t.x.toNat < next then
        let t := t.clearCell t.x.toNat t.y.toNat
        tabWithin next fuel { t with x := t.x + 1 }
      else some t

/-- `putchar` with a bound on the rounds of its loop. -/
def putcharWithin (fuel : Nat) (ch : UInt8) (t : Terminal) : Option Terminal :=
  if t.cols = 0 ∨ t.rows = 0 then some t
  else
    (if ch = charTab then t.tabWithin (nextTab t.cols t.x) fuel else some (t.typed ch)).map
      fun t => t.wrapLine.settle

/-- The constructor; `granted` is the memory that `sbrk` returns. -/
def construct (screenWidth screenHeight : UInt32) (granted : Nat → UInt8) : Terminal :=
  let cols := screenWidth.toNat / fontWidth
  let rows := screenHeight.toNat / fontHeight
  let gridSize := u32 (cols * rows)
  { cols, rows, x := 0, y := 0, fg := 0x00AAAAAA, bg := 0x00000000
    cells := if 0 < gridSize then some (blankFrom 0 gridSize granted) else none
    pendingScroll := 0, calls := [] }

def clear (t : Terminal) : Terminal :=
  let t := { t with
    pendingScroll := 0
    cells := t.cells.map (blankFrom 0 (t.cols * t.rows)) }
  let t := t.emit (.fillRect 0 0 (t.cols * fontWidth) (t.rows * fontHeight) t.bg)
  { t with x := 0, y := 0 }

def drawCursor (t : Terminal) : Terminal :=
  let t := t.flushScroll
  let ch := t.cellAt t.x.toNat t.y.toNat
  t.emit (.drawChar (t.x.toNat * fontWidth) (t.y.toNat * fontHeight) ch t.bg t.fg)

def eraseCursor (t : Terminal) : Terminal :=
  let t := t.flushScroll
  let ch := t.cellAt t.x.toNat t.y.toNat
  t.emit (.drawChar (t.x.toNat * fontWidth) (t.y.toNat * fontHeight) ch t.fg t.bg)

def setCursor (col row : UInt8) (t : Terminal) : Terminal := { t with x := col, y := row }

end Terminal

inductive Op where
  | putchar (ch : UInt8)
  | clear
  | setCursor (col row : UInt8)
  | drawCursor
  | eraseCursor

def perform (t : Terminal) : Op → Terminal
  | .putchar ch => t.putchar ch
  | .clear => t.clear
  | .setCursor col row => t.setCursor col row
  | .drawCursor => t.drawCursor
  | .eraseCursor => t.eraseCursor

def performAll : Terminal → List Op → Terminal
  | t, [] => t
  | t, op :: rest => performAll (perform t op) rest

section Reference

/-- A terminal that shifts its grid at once. `drawn` are the requests that draw a cell. -/
structure Eager where
  cols : Nat
  rows : Nat
  x : UInt8
  y : UInt8
  fg : Nat
  bg : Nat
  grid : Nat → Nat → UInt8
  drawn : List DisplayCall

namespace Eager

def cellAt (e : Eager) (col row : Nat) : UInt8 :=
  if col < e.cols ∧ row < e.rows then e.grid col row else charSpace

def put (e : Eager) (col row : Nat) (ch : UInt8) : Eager :=
  { e with grid := fun c r => if c = col ∧ r = row then ch else e.grid c r }

def emit (e : Eager) (call : DisplayCall) : Eager := { e with drawn := e.drawn ++ [call] }

def drawGlyph (ch : UInt8) (col row : Nat) (e : Eager) : Eager :=
  (e.put col row ch).emit (.drawChar (col * fontWidth) (row * fontHeight) ch e.fg e.bg)

def clearCell (col row : Nat) (e : Eager) : Eager :=
  (e.put col row charSpace).emit
    (.fillRect (col * fontWidth) (row * fontHeight) fontWidth fontHeight e.bg)

/-- Every row moves up by `n`. -/
def scrollUp (n : Nat) (e : Eager) : Eager :=
  { e with grid := fun c r => if r + n < e.rows then e.grid c (r + n) else charSpace }

def tabLoop : Nat → Eager → Eager
  | 0, e => e
  | n + 1, e =>
      let e := e.clearCell e.x.toNat e.y.toNat
      tabLoop n { e with x := e.x + 1 }

def stepBack (e : Eager) : Eager :=
  if 0 < e.x then { e with x := e.x - 1 }
  else if 0 < e.y then { e with y := e.y - 1, x := UInt8.ofNat (e.cols - 1) }
  else e

def typed (ch : UInt8) (e : Eager) : Eager :=
  if ch = charNewline then { e with y := e.y + 1, x := 0 }
  else if ch = charBackspace then
    let e := e.stepBack
    e.clearCell e.x.toNat e.y.toNat
  else if ch = charDelete then e.clearCell e.x.toNat e.y.toNat
  else if ch = charTab then e.tabLoop (Terminal.nextTab e.cols e.x - e.x.toNat)
  else
    let e := e.drawGlyph ch e.x.toNat e.y.toNat
    { e with x := e.x + 1 }

def wrapLine (e : Eager) : Eager :=
  if e.cols ≤ e.x.toNat then { e with y := e.y + 1, x := 0 } else e

/-- A cursor below the last row scrolls the grid until it is in the last row. -/
def settle (e : Eager) : Eager :=
  if e.rows ≤ e.y.toNat then
    { e.scrollUp (e.y.toNat - e.rows + 1) with y := UInt8.ofNat (e.rows - 1) }
  else e

def putchar (ch : UInt8) (e : Eager) : Eager := (e.typed ch).wrapLine.settle

def clear (e : Eager) : Eager :=
  let e := { e with grid := fun _ _ => charSpace }
  let e := e.emit (.fillRect 0 0 (e.cols * fontWidth) (e.rows * fontHeight) e.bg)
  { e with x := 0, y := 0 }

def drawCursor (e : Eager) : Eager :=
  e.emit (.drawChar (e.x.toNat * fontWidth) (e.y.toNat * fontHeight)
    (e.cellAt e.x.toNat e.y.toNat) e.bg e.fg)

def eraseCursor (e : Eager) : Eager :=
  e.emit (.drawChar (e.x.toNat * fontWidth) (e.y.toNat * fontHeight)
    (e.cellAt e.x.toNat e.y.toNat) e.fg e.bg)

def setCursor (col row : UInt8) (e : Eager) : Eager := { e with x := col, y := row }

def perform (e : Eager) : Op → Eager
  | .putchar ch => e.putchar ch
  | .clear => e.clear
  | .setCursor col row => e.setCursor col row
  | .drawCursor => e.drawCursor
  | .eraseCursor => e.eraseCursor

def performAll : Eager → List Op → Eager
  | e, [] => e
  | e, op :: rest => performAll (e.perform op) rest

end Eager

end Reference

section Simulation

def DisplayCall.draws : DisplayCall → Bool
  | .fillRect .. => true
  | .drawChar .. => true
  | .scroll .. => false

/-- The eager terminal shows the grid that is left once the pending rows have been scrolled
away, and the same cells have been drawn. -/
structure Shows (t : Terminal) (e : Eager) : Prop where
  cols : e.cols = t.cols
  rows : e.rows = t.rows
  x : e.x = t.x
  y : e.y = t.y
  fg : e.fg = t.fg
  bg : e.bg = t.bg
  drawn : e.drawn = t.calls.filter DisplayCall.draws
  grid : ∃ cells, t.cells = some cells ∧ ∀ col row, col < t.cols → row < t.rows →
    e.grid col row = if row + t.pendingScroll < t.rows then
      cells ((row + t.pendingScroll) * t.cols + col) else charSpace

variable {t : Terminal} {e : Eager}

theorem Shows.move (agrees : Shows t e) {x x' y y' : UInt8} (column : x' = x) (row : y' = y) :
    Shows { t with x := x, y := y } { e with x := x', y := y' } :=
  ⟨agrees.cols, agrees.rows, column, row, agrees.fg, agrees.bg, agrees.drawn, agrees.grid⟩

theorem Shows.column (agrees : Shows t e) {x x' : UInt8} (same : x' = x) :
    Shows { t with x := x } { e with x := x' } :=
  ⟨agrees.cols, agrees.rows, same, agrees.y, agrees.fg, agrees.bg, agrees.drawn, agrees.grid⟩

theorem Shows.emit (agrees : Shows t e) {call call' : DisplayCall} (same : call' = call)
    (draws : call.draws = true) : Shows (t.emit call) (e.emit call') where
  cols := agrees.cols
  rows := agrees.rows
  x := agrees.x
  y := agrees.y
  fg := agrees.fg
  bg := agrees.bg
  drawn := by
    unfold Terminal.emit Eager.emit
    dsimp only
    rw [List.filter_append, agrees.drawn, same, List.filter_cons_of_pos draws, List.filter_nil]
  grid := agrees.grid

theorem shift_cells_at {cols rows n col row : Nat} (cells : Nat → UInt8) (inCols : col < cols)
    (inRows : row < rows) :
    Terminal.shiftCells cols rows n cells (row * cols + col) =
      if row + n < rows then cells ((row + n) * cols + col) else charSpace := by
  unfold Terminal.shiftCells Terminal.blankFrom Terminal.moveDown
  have inside := index_lt inRows inCols
  by_cases all : rows ≤ n
  · rw [if_pos all, Nat.mul_comm cols rows, Nat.zero_add, if_pos ⟨Nat.zero_le _, inside⟩,
      if_neg (by omega)]
  · rw [if_neg all]
    have total : (rows - n) * cols + n * cols = rows * cols := by
      rw [← Nat.add_mul, Nat.sub_add_cancel (by omega)]
    have moved : (row + n) * cols + col = n * cols + (row * cols + col) := by
      rw [Nat.add_mul]
      omega
    by_cases stays : row + n < rows
    · have above := index_lt (show row < rows - n by omega) inCols
      rw [if_neg (by omega), if_pos above, if_pos stays, moved]
    · have below : (rows - n) * cols ≤ row * cols + col :=
        (le_index_iff inCols).2 (by omega)
      rw [if_pos ⟨below, by omega⟩, if_neg stays]

/-- Carrying out the pending scroll changes nothing that is seen. -/
theorem Shows.flush (agrees : Shows t e) : Shows t.flushScroll e := by
  unfold Terminal.flushScroll
  split
  · obtain ⟨cells, allocated, grid⟩ := agrees.grid
    refine ⟨agrees.cols, agrees.rows, agrees.x, agrees.y, agrees.fg, agrees.bg, ?_,
      Terminal.shiftCells t.cols t.rows t.pendingScroll cells, ?_, ?_⟩
    · unfold Terminal.emit
      dsimp only
      rw [List.filter_append, agrees.drawn]
      exact (List.append_nil _).symm
    · rw [allocated]
      rfl
    · intro col row inCols inRows
      refine Eq.trans ?_ (if_pos inRows).symm
      exact (grid col row inCols inRows).trans (shift_cells_at cells inCols inRows).symm
  · exact agrees

theorem pending_flush (t : Terminal) : t.flushScroll.pendingScroll = 0 := by
  unfold Terminal.flushScroll
  split
  · rfl
  · omega

@[simp] theorem cols_flush (t : Terminal) : t.flushScroll.cols = t.cols := by
  unfold Terminal.flushScroll
  split <;> rfl

@[simp] theorem rows_flush (t : Terminal) : t.flushScroll.rows = t.rows := by
  unfold Terminal.flushScroll
  split <;> rfl

/-- With nothing pending the two grids are the same. -/
theorem Shows.cell (agrees : Shows t e) (settled : t.pendingScroll = 0) (col row : Nat) :
    t.cellAt col row = e.cellAt col row := by
  obtain ⟨cells, allocated, grid⟩ := agrees.grid
  unfold Terminal.cellAt Eager.cellAt
  rw [allocated, agrees.cols, agrees.rows]
  dsimp only
  by_cases inside : col < t.cols ∧ row < t.rows
  · have seen := grid col row inside.1 inside.2
    rw [settled, Nat.add_zero, if_pos inside.2] at seen
    rw [if_neg (by omega), if_pos inside, seen]
  · rw [if_pos (by omega), if_neg inside]

theorem Shows.set (agrees : Shows t e) (settled : t.pendingScroll = 0) (col row : Nat)
    (ch : UInt8) : Shows (t.setCellAt col row ch) (e.put col row ch) := by
  obtain ⟨cells, allocated, grid⟩ := agrees.grid
  unfold Terminal.setCellAt Eager.put
  rw [allocated]
  dsimp only
  by_cases inside : col < t.cols ∧ row < t.rows
  · rw [if_pos inside]
    refine ⟨agrees.cols, agrees.rows, agrees.x, agrees.y, agrees.fg, agrees.bg, agrees.drawn, _,
      rfl, ?_⟩
    intro c r inCols inRows
    have seen := grid c r inCols inRows
    rw [settled, Nat.add_zero, if_pos inRows] at seen
    dsimp only
    rw [settled, Nat.add_zero, if_pos inRows]
    by_cases same : c = col ∧ r = row
    · rw [if_pos same, if_pos (by rw [same.1, same.2])]
    · rw [if_neg same, if_neg, seen]
      intro equal
      obtain ⟨rows, cols⟩ := index_unique inCols inside.1 equal
      exact same ⟨cols, rows⟩
  · rw [if_neg inside]
    refine ⟨agrees.cols, agrees.rows, agrees.x, agrees.y, agrees.fg, agrees.bg, agrees.drawn,
      cells, allocated, ?_⟩
    intro c r inCols inRows
    have apart : ¬ (c = col ∧ r = row) := by
      rintro ⟨rfl, rfl⟩
      exact inside ⟨inCols, inRows⟩
    dsimp only
    rw [if_neg apart]
    exact grid c r inCols inRows

@[simp] theorem pending_set (t : Terminal) (col row : Nat) (ch : UInt8) :
    (t.setCellAt col row ch).pendingScroll = t.pendingScroll := by
  unfold Terminal.setCellAt
  cases t.cells with
  | none => rfl
  | some cells =>
      dsimp only
      split <;> rfl

theorem Shows.draw_glyph (agrees : Shows t e) (ch : UInt8) (col row : Nat) :
    Shows (t.drawGlyph ch col row) (e.drawGlyph ch col row) := by
  have after := agrees.flush.set (pending_flush t) col row ch
  have fg : e.fg = (t.flushScroll.setCellAt col row ch).fg := after.fg
  have bg : e.bg = (t.flushScroll.setCellAt col row ch).bg := after.bg
  unfold Terminal.drawGlyph Eager.drawGlyph
  rw [fg, bg]
  exact after.emit rfl rfl

theorem Shows.clear_cell (agrees : Shows t e) (col row : Nat) :
    Shows (t.clearCell col row) (e.clearCell col row) := by
  have after := agrees.flush.set (pending_flush t) col row charSpace
  have bg : e.bg = (t.flushScroll.setCellAt col row charSpace).bg := after.bg
  unfold Terminal.clearCell Eager.clearCell
  rw [bg]
  exact after.emit rfl rfl

theorem Shows.tab_loop (n : Nat) (agrees : Shows t e) : Shows (t.tabLoop n) (e.tabLoop n) := by
  induction n generalizing t e with
  | zero => exact agrees
  | succ n ih =>
      unfold Terminal.tabLoop Eager.tabLoop
      rw [agrees.x, agrees.y]
      have after := agrees.clear_cell t.x.toNat t.y.toNat
      exact ih (after.column (congrArg (· + 1) after.x))

theorem Shows.step_back (agrees : Shows t e) : Shows t.stepBack e.stepBack := by
  unfold Terminal.stepBack Eager.stepBack
  have sameColumn : 0 < e.x ↔ 0 < t.x := by rw [agrees.x]
  have sameRow : 0 < e.y ↔ 0 < t.y := by rw [agrees.y]
  by_cases right : 0 < t.x
  · rw [if_pos right, if_pos (sameColumn.2 right)]
    exact agrees.column (congrArg (· - 1) agrees.x)
  rw [if_neg right, if_neg (mt sameColumn.1 right)]
  by_cases down : 0 < t.y
  · rw [if_pos down, if_pos (sameRow.2 down)]
    exact agrees.move (congrArg (fun cols => UInt8.ofNat (cols - 1)) agrees.cols)
      (congrArg (· - 1) agrees.y)
  · rw [if_neg down, if_neg (mt sameRow.1 down)]
    exact agrees

theorem Shows.typed (agrees : Shows t e) (ch : UInt8) : Shows (t.typed ch) (e.typed ch) := by
  unfold Terminal.typed Eager.typed
  by_cases newline : ch = charNewline
  · rw [if_pos newline, if_pos newline]
    exact agrees.move rfl (congrArg (· + 1) agrees.y)
  rw [if_neg newline, if_neg newline]
  by_cases backspace : ch = charBackspace
  · rw [if_pos backspace, if_pos backspace]
    have back := agrees.step_back
    dsimp only
    rw [back.x, back.y]
    exact back.clear_cell _ _
  rw [if_neg backspace, if_neg backspace]
  by_cases delete : ch = charDelete
  · rw [if_pos delete, if_pos delete, agrees.x, agrees.y]
    exact agrees.clear_cell _ _
  rw [if_neg delete, if_neg delete]
  by_cases tab : ch = charTab
  · rw [if_pos tab, if_pos tab, agrees.x, agrees.cols]
    exact agrees.tab_loop _
  · rw [if_neg tab, if_neg tab, agrees.x, agrees.y]
    have after := agrees.draw_glyph ch t.x.toNat t.y.toNat
    exact after.column (congrArg (· + 1) after.x)

theorem Shows.wrap_line (agrees : Shows t e) : Shows t.wrapLine e.wrapLine := by
  unfold Terminal.wrapLine Eager.wrapLine
  have same : e.cols ≤ e.x.toNat ↔ t.cols ≤ t.x.toNat := by rw [agrees.cols, agrees.x]
  by_cases behind : t.cols ≤ t.x.toNat
  · rw [if_pos behind, if_pos (same.2 behind)]
    exact agrees.move rfl (congrArg (· + 1) agrees.y)
  · rw [if_neg behind, if_neg (mt same.1 behind)]
    exact agrees

theorem Shows.settle (agrees : Shows t e) (few : t.pendingScroll + t.rowsPast < 4294967296) :
    Shows t.settle e.settle := by
  unfold Terminal.settle Eager.settle
  have same : e.rows ≤ e.y.toNat ↔ t.rows ≤ t.y.toNat := by rw [agrees.rows, agrees.y]
  by_cases below : t.rows ≤ t.y.toNat
  · rw [if_pos below, if_pos (same.2 below)]
    obtain ⟨cells, allocated, grid⟩ := agrees.grid
    unfold Terminal.rowsPast at few
    rw [if_pos below] at few
    rw [u32_of_lt few, agrees.y, agrees.rows]
    refine ⟨agrees.cols, agrees.rows, agrees.x, rfl, agrees.fg, agrees.bg, agrees.drawn, cells,
      allocated, ?_⟩
    intro col row inCols inRows
    have total : row + (t.pendingScroll + (t.y.toNat - t.rows + 1)) =
        row + (t.y.toNat - t.rows + 1) + t.pendingScroll := by omega
    dsimp only [Eager.scrollUp] at inCols inRows ⊢
    rw [agrees.rows, total]
    by_cases stays : row + (t.y.toNat - t.rows + 1) < t.rows
    · rw [if_pos stays]
      exact grid col _ inCols stays
    · rw [if_neg stays, if_neg (by omega)]
  · rw [if_neg below, if_neg (mt same.1 below)]
    exact agrees

theorem Shows.clear (agrees : Shows t e) : Shows t.clear e.clear := by
  obtain ⟨cells, allocated, _⟩ := agrees.grid
  have blank : Shows
      { t with
        pendingScroll := 0
        cells := t.cells.map (Terminal.blankFrom 0 (t.cols * t.rows)) }
      { e with grid := fun _ _ => charSpace } := by
    refine ⟨agrees.cols, agrees.rows, agrees.x, agrees.y, agrees.fg, agrees.bg, agrees.drawn,
      Terminal.blankFrom 0 (t.cols * t.rows) cells, by rw [allocated]; rfl, ?_⟩
    intro col row inCols inRows
    have inside : row * t.cols + col < t.rows * t.cols := index_lt inRows inCols
    refine Eq.symm ((if_pos inRows).trans ?_)
    apply if_pos
    dsimp only
    rw [Nat.add_zero, Nat.zero_add, Nat.mul_comm t.cols t.rows]
    exact ⟨Nat.zero_le _, inside⟩
  have same : DisplayCall.fillRect 0 0 (e.cols * fontWidth) (e.rows * fontHeight) e.bg =
      .fillRect 0 0 (t.cols * fontWidth) (t.rows * fontHeight) t.bg := by
    rw [agrees.cols, agrees.rows, agrees.bg]
  exact (blank.emit same rfl).move rfl rfl

theorem Shows.draw_cursor (agrees : Shows t e) : Shows t.drawCursor e.drawCursor := by
  have after := agrees.flush
  unfold Terminal.drawCursor Eager.drawCursor
  dsimp only
  rw [← after.cell (pending_flush t), after.x, after.y, after.fg, after.bg]
  exact after.emit rfl rfl

theorem Shows.erase_cursor (agrees : Shows t e) : Shows t.eraseCursor e.eraseCursor := by
  have after := agrees.flush
  unfold Terminal.eraseCursor Eager.eraseCursor
  dsimp only
  rw [← after.cell (pending_flush t), after.x, after.y, after.fg, after.bg]
  exact after.emit rfl rfl

/-- A row count that does not wrap when `putchar` adds to it. -/
def Fits (t : Terminal) : Op → Prop
  | .putchar ch =>
      (t.typed ch).wrapLine.pendingScroll + (t.typed ch).wrapLine.rowsPast < 4294967296
  | _ => True

/-- Fewer than `2 ^ 32` rows are pending all along. -/
def FewPending : Terminal → List Op → Prop
  | _, [] => True
  | t, op :: rest => Fits t op ∧ FewPending (perform t op) rest

instance : (t : Terminal) → (op : Op) → Decidable (Fits t op)
  | t, .putchar ch =>
      inferInstanceAs (Decidable ((t.typed ch).wrapLine.pendingScroll +
        (t.typed ch).wrapLine.rowsPast < 4294967296))
  | _, .clear => .isTrue trivial
  | _, .setCursor _ _ => .isTrue trivial
  | _, .drawCursor => .isTrue trivial
  | _, .eraseCursor => .isTrue trivial

instance decidableFewPending : (t : Terminal) → (ops : List Op) → Decidable (FewPending t ops)
  | _, [] => .isTrue trivial
  | t, op :: rest =>
      haveI := decidableFewPending (perform t op) rest
      inferInstanceAs (Decidable (Fits t op ∧ FewPending (perform t op) rest))

theorem Shows.putchar (agrees : Shows t e) (notEmpty : t.cols ≠ 0 ∧ t.rows ≠ 0) {ch : UInt8}
    (fits : Fits t (.putchar ch)) : Shows (t.putchar ch) (e.putchar ch) := by
  unfold Terminal.putchar Eager.putchar
  rw [if_neg (not_or.2 notEmpty)]
  exact (agrees.typed ch).wrap_line.settle fits

theorem shows_perform (agrees : Shows t e) (notEmpty : t.cols ≠ 0 ∧ t.rows ≠ 0) {op : Op}
    (fits : Fits t op) : Shows (perform t op) (e.perform op) := by
  cases op with
  | putchar ch => exact agrees.putchar notEmpty fits
  | clear => exact agrees.clear
  | setCursor col row => exact agrees.move rfl rfl
  | drawCursor => exact agrees.draw_cursor
  | eraseCursor => exact agrees.erase_cursor

def SameSize (e e' : Eager) : Prop := e'.cols = e.cols ∧ e'.rows = e.rows

theorem size_tab_loop (n : Nat) (e : Eager) : SameSize e (e.tabLoop n) := by
  induction n generalizing e with
  | zero => exact ⟨rfl, rfl⟩
  | succ n ih => exact ih _

theorem size_step_back (e : Eager) : SameSize e e.stepBack := by
  unfold Eager.stepBack
  split
  · exact ⟨rfl, rfl⟩
  · split <;> exact ⟨rfl, rfl⟩

theorem size_typed (ch : UInt8) (e : Eager) : SameSize e (e.typed ch) := by
  unfold Eager.typed
  split
  · exact ⟨rfl, rfl⟩
  split
  · exact size_step_back e
  split
  · exact ⟨rfl, rfl⟩
  split
  · exact size_tab_loop _ e
  · exact ⟨rfl, rfl⟩

theorem size_wrap_line (e : Eager) : SameSize e e.wrapLine := by
  unfold Eager.wrapLine
  split <;> exact ⟨rfl, rfl⟩

theorem size_settle (e : Eager) : SameSize e e.settle := by
  unfold Eager.settle
  split <;> exact ⟨rfl, rfl⟩

theorem size_perform (e : Eager) (op : Op) : SameSize e (e.perform op) := by
  cases op with
  | putchar ch =>
      have first := size_typed ch e
      have second := size_wrap_line (e.typed ch)
      have third := size_settle (e.typed ch).wrapLine
      exact ⟨third.1.trans (second.1.trans first.1), third.2.trans (second.2.trans first.2)⟩
  | clear => exact ⟨rfl, rfl⟩
  | setCursor col row => exact ⟨rfl, rfl⟩
  | drawCursor => exact ⟨rfl, rfl⟩
  | eraseCursor => exact ⟨rfl, rfl⟩

theorem shows_perform_all (agrees : Shows t e) (notEmpty : t.cols ≠ 0 ∧ t.rows ≠ 0)
    {ops : List Op} (few : FewPending t ops) : Shows (performAll t ops) (e.performAll ops) := by
  induction ops generalizing t e with
  | nil => exact agrees
  | cons op rest ih =>
      have after := shows_perform agrees notEmpty few.1
      have size := size_perform e op
      apply ih after _ few.2
      rw [← after.cols, ← after.rows, size.1, size.2, agrees.cols, agrees.rows]
      exact notEmpty

structure Sized (t : Terminal) : Prop where
  cols : 1 ≤ t.cols ∧ t.cols ≤ 255
  rows : 1 ≤ t.rows ∧ t.rows ≤ 255
  allocated : t.cells.isSome = true

/-- The terminal that has scrolled the pending rows away. -/
def eagerOf (t : Terminal) : Eager where
  cols := t.cols
  rows := t.rows
  x := t.x
  y := t.y
  fg := t.fg
  bg := t.bg
  grid col row := if row + t.pendingScroll < t.rows then
    t.cellAt col (row + t.pendingScroll) else charSpace
  drawn := t.calls.filter DisplayCall.draws

theorem shows_eager_of (allocated : t.cells.isSome = true) : Shows t (eagerOf t) where
  cols := rfl
  rows := rfl
  x := rfl
  y := rfl
  fg := rfl
  bg := rfl
  drawn := rfl
  grid := by
    obtain ⟨cells, allocated⟩ := Option.isSome_iff_exists.1 allocated
    refine ⟨cells, allocated, fun col row inCols _ => ?_⟩
    unfold eagerOf Terminal.cellAt
    dsimp only
    rw [allocated]
    dsimp only
    by_cases stays : row + t.pendingScroll < t.rows
    · rw [if_pos stays, if_pos stays, if_neg (by omega)]
    · rw [if_neg stays, if_neg stays]

theorem shows_eager (sized : Sized t) : Shows t (eagerOf t) := shows_eager_of sized.allocated

/-- Whatever the calls and however they are mixed, the terminal draws the characters that a
terminal with immediate scrolling draws, at the same places, and once its pending rows have
been scrolled away it holds the same grid. -/
theorem deferred_scrolling_is_eager (sized : Sized t) {ops : List Op} (few : FewPending t ops) :
    (performAll t ops).calls.filter DisplayCall.draws = ((eagerOf t).performAll ops).drawn ∧
      (performAll t ops).x = ((eagerOf t).performAll ops).x ∧
      (performAll t ops).y = ((eagerOf t).performAll ops).y ∧
      ∀ col row, (performAll t ops).flushScroll.cellAt col row =
        ((eagerOf t).performAll ops).cellAt col row := by
  have notEmpty : t.cols ≠ 0 ∧ t.rows ≠ 0 := by
    have cols := sized.cols
    have rows := sized.rows
    omega
  have agrees := shows_perform_all (shows_eager sized) notEmpty few
  refine ⟨agrees.drawn.symm, agrees.x.symm, agrees.y.symm, fun col row => ?_⟩
  exact agrees.flush.cell (pending_flush _) col row

def smallTerminal : Terminal := ⟨2, 2, 0, 0, 7, 0, some fun _ => charSpace, 0, []⟩

/-- Two lines, of which the first leaves the screen when the third one begins. -/
def threeLines : List Op :=
  [.putchar 0x41, .putchar charNewline, .putchar 0x42, .putchar charNewline, .setCursor 1 9,
    .putchar charNewline, .drawCursor]

theorem deferred_scrolling_of_three_lines :
    (performAll smallTerminal threeLines).flushScroll.cellAt 0 0 =
      ((eagerOf smallTerminal).performAll threeLines).cellAt 0 0 ∧
    (performAll smallTerminal threeLines).calls.filter DisplayCall.draws =
      ((eagerOf smallTerminal).performAll threeLines).drawn := by
  have few : FewPending smallTerminal threeLines := by decide
  have sized : Sized smallTerminal := ⟨by decide, by decide, rfl⟩
  have same := deferred_scrolling_is_eager sized few
  exact ⟨same.2.2.2 0 0, same.1⟩

end Simulation

end CassiOS.Userland.TerminalGrid
