import CassiOS.Graphics.TextScreen
import CassiOS.Userland.KeyboardService
import CassiOS.Userland.TerminalCursor

/-!
# The terminal on the screen

The service loop of `userspace/core/terminal` with the display service behind it. The terminal
scrolls late and the display scrolls by moving the origin of its back buffer, and both work on
what the other one has left; after a flush the framebuffer shows the characters of the eager
terminal, with the cell of the cursor in inverted colors.
-/

namespace CassiOS.Userland.TerminalScreen

open CassiOS.Graphics
open CassiOS.Graphics.Drawing (Call Display PixelBuffer)
open CassiOS.Graphics.ScrollingImage (Image InRange Displayed)
open CassiOS.Graphics.TextScreen
open CassiOS.Support.Rasters
open CassiOS.Support.Words
open CassiOS.Userland.KeyboardService (Reply)
open CassiOS.Userland.Messages
open CassiOS.Userland.TerminalCursor (view seen_cell Ready putchar_ready)
open CassiOS.Userland.TerminalGrid

set_option autoImplicit false

section Service

/-- The stub of the display client, whose arguments are words. -/
def sent : DisplayCall → Call
  | .fillRect x y w h color => .fillRect (u32 x) (u32 y) (u32 w) (u32 h) (UInt32.ofNat color)
  | .drawChar x y ch fg bg =>
      .drawChar (u32 x) (u32 y) ch (UInt32.ofNat fg) (UInt32.ofNat bg)
  | .scroll pixels color => .scroll (u32 pixels) (UInt32.ofNat color)

/-- The display has carried out all the calls of the terminal. -/
structure Session where
  terminal : Terminal
  display : Display

/-- What the service does: a call of the terminal, or a flush of the display. -/
inductive Step where
  | op (op : Op)
  | flush

def Session.step (font : UInt8 → Nat → UInt8) (s : Session) : Step → Session
  | .op op =>
      let t := perform s.terminal op
      ⟨t, s.display.run font ((t.calls.drop s.terminal.calls.length).map sent)⟩
  | .flush => { s with display := s.display.call font .flush }

def Session.steps (font : UInt8 → Nat → UInt8) (s : Session) (steps : List Step) : Session :=
  steps.foldl (Session.step font) s

structure Received where
  sender : UInt32
  msg : Message
  dataBuf : Nat → UInt8

/-- `sizeof(dataBuf)` of the loop. -/
def dataBufSize : Nat := 256

def requested (r : Received) : List Step :=
  if r.msg.type = MessageType.terminalPutchar then [.op (.putchar r.msg.arg1.toUInt8)]
  else if r.msg.type = MessageType.terminalWrite then
    let len := if dataBufSize < r.msg.arg1.toNat then dataBufSize else r.msg.arg1.toNat
    (List.range len).map fun i => .op (.putchar (r.dataBuf i))
  else if r.msg.type = MessageType.terminalClear then [.op .clear]
  else if r.msg.type = MessageType.terminalSetCursor then
    [.op (.setCursor r.msg.arg1.toUInt8 r.msg.arg2.toUInt8)]
  else if r.msg.type = MessageType.terminalGetCursor then []
  else if r.msg.type = MessageType.terminalFlush then
    [.op .drawCursor, .flush, .op .eraseCursor]
  else []

/-- One round of the loop in `_start`. -/
def serve (font : UInt8 → Nat → UInt8) (s : Session) (r : Received) : Session × Option Reply :=
  let s := s.steps font (requested r)
  let reply : Message :=
    { Message.zero with arg1 := s.terminal.x.toUInt32, arg2 := s.terminal.y.toUInt32 }
  (s, if isSender r.sender then some ⟨r.sender, reply⟩ else none)

def serveAll (font : UInt8 → Nat → UInt8) (s : Session) (history : List Received) : Session :=
  history.foldl (fun s r => (serve font s r).1) s

def welcome : List UInt8 :=
  "Welcome to the Cassio Operating System!\n".toList.map fun ch => UInt8.ofNat ch.toNat

def greeting : List Step := welcome.map (fun ch => .op (.putchar ch)) ++ [.op .drawCursor, .flush]

def blankDisplay (font : UInt8 → Nat → UInt8) (width height : UInt32) (pitch : Nat)
    (framebuffer backBuffer : Bytes) : Display :=
  let d := Display.construct framebuffer backBuffer width.toNat height.toNat pitch
  (d.call font (.fillRect 0 0 width.toNat height.toNat 0)).call font .flush

def boot (font : UInt8 → Nat → UInt8) (width height : UInt32) (pitch : Nat)
    (framebuffer backBuffer : Bytes) (granted : Nat → UInt8) : Session :=
  let s : Session :=
    ⟨.construct width height granted, blankDisplay font width height pitch framebuffer backBuffer⟩
  s.steps font greeting

end Service

section Simulation

/-- The display shows the page once it has carried out the calls behind the first `n`. -/
structure Synced (f : Format) (pitch : Nat) (start : Bytes) (n : Nat) (t : Terminal)
    (d : Display) (page : Page) : Prop where
  size : t.cols = f.cols ∧ t.rows = f.rows
  colors : UInt32.ofNat t.fg = f.fg ∧ UInt32.ofNat t.bg = f.bg
  allocated : t.cells.isSome = true
  behind : n ≤ t.calls.length
  shown : ∃ image, ScrollingImage.Follows f.width f.height pitch start True
    (d.run f.font ((t.calls.drop n).map sent)) image ∧ f.Renders image page
  chars : ∀ col row, col < f.cols → row < f.rows → (page col row).ch = t.cellAt col row

/-- The cells of the page that are drawn in inverted colors. -/
def Plain (f : Format) (page : Page) : Prop :=
  ∀ col row, col < f.cols → row < f.rows → (page col row).inverted = false

variable {f : Format} {pitch n : Nat} {start : Bytes} {t : Terminal} {d : Display} {page : Page}

theorem Synced.emit {t' : Terminal} {page' : Page} {call : DisplayCall}
    (synced : Synced f pitch start n t d page) (range : InRange (sent call))
    (edits : ∀ image, f.Renders image page →
      f.Renders (Image.apply f.font f.height image (sent call)) page')
    (size : t'.cols = t.cols ∧ t'.rows = t.rows) (colors : t'.fg = t.fg ∧ t'.bg = t.bg)
    (allocated : t'.cells.isSome = true) (calls : t'.calls = t.calls ++ [call])
    (chars : ∀ col row, col < f.cols → row < f.rows → (page' col row).ch = t'.cellAt col row) :
    Synced f pitch start n t' d page' where
  size := by
    rw [size.1, size.2]
    exact synced.size
  colors := by
    rw [colors.1, colors.2]
    exact synced.colors
  allocated := allocated
  behind := by
    rw [calls, List.length_append]
    exact Nat.le_trans synced.behind (Nat.le_add_right _ _)
  shown := by
    obtain ⟨image, follows, renders⟩ := synced.shown
    have next := ScrollingImage.follows_call f.font follows range
    refine ⟨_, ?_, edits image renders⟩
    rw [calls, List.drop_append_of_le_length synced.behind, List.map_append]
    unfold Display.run at *
    rw [List.foldl_append]
    exact ⟨next.shown, fun clean _ => next.clean clean (.inl trivial)⟩
  chars := chars

theorem cell_set (allocated : t.cells.isSome = true) {col row c r : Nat} (ch : UInt8)
    (column : c < t.cols) (low : r < t.rows) :
    (t.setCellAt col row ch).cellAt c r = if c = col ∧ r = row then ch else t.cellAt c r := by
  obtain ⟨cells, allocated⟩ := Option.isSome_iff_exists.1 allocated
  unfold Terminal.setCellAt
  rw [allocated]
  dsimp only
  have outside : ¬ (t.cols ≤ c ∨ t.rows ≤ r) := by omega
  by_cases inside : col < t.cols ∧ row < t.rows
  · rw [if_pos inside]
    unfold Terminal.cellAt
    rw [allocated]
    dsimp only
    rw [if_neg outside, if_neg outside]
    by_cases same : c = col ∧ r = row
    · rw [if_pos same, if_pos (by rw [same.1, same.2])]
    · rw [if_neg same, if_neg]
      intro equal
      obtain ⟨rows, cols⟩ := Support.RowMajor.index_unique column inside.1 equal
      exact same ⟨cols, rows⟩
  · rw [if_neg inside, if_neg]
    rintro ⟨rfl, rfl⟩
    exact inside ⟨column, low⟩

theorem same_set (t : Terminal) (col row : Nat) (ch : UInt8) : ∃ cells,
    cells.isSome = t.cells.isSome ∧ t.setCellAt col row ch = { t with cells := cells } := by
  obtain ⟨cols, rows, x, y, fg, bg, cells, pending, calls⟩ := t
  unfold Terminal.setCellAt
  cases cells with
  | none => exact ⟨none, rfl, rfl⟩
  | some inner =>
      dsimp only
      split
      · exact ⟨some fun i => if i = row * cols + col then ch else inner i, rfl, rfl⟩
      · exact ⟨some inner, rfl, rfl⟩

theorem Synced.set {call : DisplayCall} (synced : Synced f pitch start n t d page) (cell : Cell)
    (col row : Nat) (range : InRange (sent call))
    (edits : ∀ image, f.Renders image page →
      f.Renders (Image.apply f.font f.height image (sent call)) (page.put col row cell)) :
    Synced f pitch start n ((t.setCellAt col row cell.ch).emit call) d (page.put col row cell) := by
  obtain ⟨cells, some_, same⟩ := same_set t col row cell.ch
  have chars : ∀ c r, c < f.cols → r < f.rows → (page.put col row cell c r).ch =
      (t.setCellAt col row cell.ch).cellAt c r := by
    intro c r column low
    rw [← synced.size.1] at column
    rw [← synced.size.2] at low
    rw [cell_set synced.allocated cell.ch column low]
    unfold Page.put
    split
    · rfl
    · exact synced.chars c r (synced.size.1 ▸ column) (synced.size.2 ▸ low)
  rw [same] at chars ⊢
  exact synced.emit range edits ⟨rfl, rfl⟩ ⟨rfl, rfl⟩ (some_.trans synced.allocated) rfl chars

theorem plain_put (plain : Plain f page) (col row : Nat) (ch : UInt8) :
    Plain f (page.put col row ⟨ch, false⟩) := by
  intro c r column low
  unfold Page.put
  split
  · rfl
  · exact plain c r column low

theorem Synced.flush (proper : f.Proper) (synced : Synced f pitch start n t d page)
    (few : t.pendingScroll < 2 ^ 28) :
    ∃ page', Synced f pitch start n t.flushScroll d page' ∧ (Plain f page → Plain f page') := by
  have seen := seen_cell synced.allocated
  unfold view at seen
  unfold Terminal.flushScroll at seen ⊢
  by_cases pending : 0 < t.pendingScroll
  · have pixels : u32 (t.pendingScroll * fontHeight) = t.pendingScroll * fontHeight := by
      unfold fontHeight
      exact u32_of_lt (by omega)
    have call : sent (.scroll (u32 (t.pendingScroll * fontHeight)) t.bg) =
        .scroll (t.pendingScroll * fontHeight) f.bg := by
      unfold sent
      dsimp only
      rw [pixels, pixels, synced.colors.2]
    rw [if_pos pending] at seen ⊢
    refine ⟨page.shift f.rows t.pendingScroll, ?_, ?_⟩
    · have range : InRange (sent (.scroll (u32 (t.pendingScroll * fontHeight)) t.bg)) := trivial
      apply synced.emit range
      · intro image renders
        rw [call]
        exact renders_scroll proper renders t.pendingScroll
      · exact ⟨rfl, rfl⟩
      · exact ⟨rfl, rfl⟩
      · exact (Option.isSome_map).trans synced.allocated
      · rfl
      · intro col row column low
        refine Eq.trans ?_ (seen col row).symm
        unfold Page.shift
        rw [synced.size.2]
        split
        · exact synced.chars col _ column ‹_›
        · rfl
    · intro plain col row column low
      unfold Page.shift
      split
      · exact plain col _ column ‹_›
      · rfl
  · rw [if_neg pending]
    exact ⟨page, synced, id⟩

theorem cell_words {col row : Nat} (small : col < 256 ∧ row < 256) :
    u32 (col * fontWidth) = col * fontWidth ∧ u32 (row * fontHeight) = row * fontHeight := by
  unfold fontWidth fontHeight
  exact ⟨u32_of_lt (by omega), u32_of_lt (by omega)⟩

theorem sent_char {col row : Nat} (small : col < 256 ∧ row < 256) (ch : UInt8) (fg bg : Nat) :
    sent (.drawChar (col * fontWidth) (row * fontHeight) ch fg bg) =
      .drawChar (col * fontWidth) (row * fontHeight) ch (UInt32.ofNat fg) (UInt32.ofNat bg) := by
  obtain ⟨left, top⟩ := cell_words small
  unfold sent
  dsimp only
  rw [left, top]

theorem sent_erase {col row : Nat} (small : col < 256 ∧ row < 256) (bg : Nat) :
    sent (.fillRect (col * fontWidth) (row * fontHeight) fontWidth fontHeight bg) =
      .fillRect (col * fontWidth) (row * fontHeight) fontWidth fontHeight (UInt32.ofNat bg) := by
  obtain ⟨left, top⟩ := cell_words small
  unfold sent
  dsimp only
  rw [left, top]
  rfl

theorem cell_range {col row : Nat} (small : col < 256 ∧ row < 256) :
    col * fontWidth + fontWidth < 2 ^ 32 ∧ row * fontHeight + fontHeight < 2 ^ 32 := by
  unfold fontWidth fontHeight
  omega

theorem flush_same (t : Terminal) : t.flushScroll.x = t.x ∧ t.flushScroll.y = t.y ∧
    t.flushScroll.pendingScroll = 0 := by
  refine ⟨?_, ?_, pending_flush t⟩
  · unfold Terminal.flushScroll
    split <;> rfl
  · unfold Terminal.flushScroll
    split <;> rfl

theorem Synced.draw_glyph (proper : f.Proper) (synced : Synced f pitch start n t d page)
    (few : t.pendingScroll < 2 ^ 28) {col row : Nat} (small : col < 256 ∧ row < 256)
    (onPage : f.OnPage col row) (ch : UInt8) :
    ∃ page', Synced f pitch start n (t.drawGlyph ch col row) d page' ∧
      (Plain f page → Plain f page') := by
  obtain ⟨shifted, flushed, plain⟩ := synced.flush proper few
  obtain ⟨cells, _, same⟩ := same_set t.flushScroll col row ch
  refine ⟨shifted.put col row ⟨ch, false⟩, ?_, fun clean => plain_put (plain clean) col row ch⟩
  unfold Terminal.drawGlyph
  apply flushed.set ⟨ch, false⟩ col row
  · rw [sent_char small]
    exact cell_range small
  · intro image renders
    rw [sent_char small, same]
    exact renders_char renders onPage ch false flushed.colors

theorem Synced.clear_cell (proper : f.Proper) (synced : Synced f pitch start n t d page)
    (few : t.pendingScroll < 2 ^ 28) {col row : Nat} (small : col < 256 ∧ row < 256)
    (onPage : f.OnPage col row) :
    ∃ page', Synced f pitch start n (t.clearCell col row) d page' ∧
      (Plain f page → Plain f page') := by
  obtain ⟨shifted, flushed, plain⟩ := synced.flush proper few
  obtain ⟨cells, _, same⟩ := same_set t.flushScroll col row charSpace
  refine ⟨shifted.put col row Page.blank, ?_, fun clean => plain_put (plain clean) col row _⟩
  unfold Terminal.clearCell
  apply flushed.set Page.blank col row
  · rw [sent_erase small]
    exact cell_range small
  · intro image renders
    rw [sent_erase small, same]
    have bg : UInt32.ofNat t.flushScroll.bg = f.bg := flushed.colors.2
    dsimp only
    rw [bg]
    exact renders_erase proper renders onPage

/-- Moving the cursor or counting a row draws nothing. -/
theorem Synced.move {t' : Terminal} (synced : Synced f pitch start n t d page)
    (size : t'.cols = t.cols ∧ t'.rows = t.rows) (colors : t'.fg = t.fg ∧ t'.bg = t.bg)
    (cells : t'.cells = t.cells) (calls : t'.calls = t.calls) :
    Synced f pitch start n t' d page where
  size := by
    rw [size.1, size.2]
    exact synced.size
  colors := by
    rw [colors.1, colors.2]
    exact synced.colors
  allocated := by
    rw [cells]
    exact synced.allocated
  behind := by
    rw [calls]
    exact synced.behind
  shown := by
    rw [calls]
    exact synced.shown
  chars := by
    intro col row column low
    have same : t'.cellAt col row = t.cellAt col row := by
      unfold Terminal.cellAt
      rw [cells, size.1, size.2]
    rw [same]
    exact synced.chars col row column low

/-- The page covers the image, or the cursor is on the page. -/
def Steady (f : Format) (x y : UInt8) : Prop :=
  (f.width = f.cols * Drawing.fontWidth ∧ f.height = f.rows * Drawing.fontHeight) ∨
    (x.toNat < f.cols ∧ y.toNat < f.rows)

theorem Steady.on_page {x y : UInt8} (steady : Steady f x y) : f.OnPage x.toNat y.toNat := by
  rcases steady with covered | inside
  · exact on_page_covered covered _ _
  · exact on_page_inside inside

theorem byte_cell (x y : UInt8) : x.toNat < 256 ∧ y.toNat < 256 := ⟨x.toNat_lt, y.toNat_lt⟩

theorem Synced.tab_loop (proper : f.Proper) (synced : Synced f pitch start n t d page)
    (few : t.pendingScroll < 2 ^ 28) {stop : Nat} (byte : stop < 256) (within : stop ≤ f.cols)
    (left : Nat) (room : t.x.toNat + left ≤ stop)
    (steady : left ≠ 0 → Steady f t.x t.y) :
    ∃ page', Synced f pitch start n (t.tabLoop left) d page' ∧
      (Plain f page → Plain f page') := by
  induction left generalizing t page with
  | zero => exact ⟨page, synced, id⟩
  | succ left ih =>
      have here := steady (Nat.succ_ne_zero left)
      obtain ⟨erased, cleared, plain⟩ :=
        synced.clear_cell proper few (byte_cell t.x t.y) here.on_page
      have x : (t.clearCell t.x.toNat t.y.toNat).x = t.x := TerminalCursor.clear_cell_x t _ _
      have y : (t.clearCell t.x.toNat t.y.toNat).y = t.y := by
        obtain ⟨cells, _, same⟩ := same_set t.flushScroll t.x.toNat t.y.toNat charSpace
        unfold Terminal.clearCell
        rw [same]
        exact (flush_same t).2.1
      have settled : (t.clearCell t.x.toNat t.y.toNat).pendingScroll = 0 :=
        (pending_set _ _ _ _).trans (pending_flush t)
      have next : (t.x + 1).toNat = t.x.toNat + 1 := TerminalCursor.succ_toNat (by omega)
      have moved : Synced f pitch start n
          (TerminalCursor.advanced (t.clearCell t.x.toNat t.y.toNat)) d erased :=
        cleared.move ⟨rfl, rfl⟩ ⟨rfl, rfl⟩ rfl rfl
      unfold Terminal.tabLoop
      have calm : (t.clearCell t.x.toNat t.y.toNat).pendingScroll < 2 ^ 28 := by
        rw [settled]
        decide
      have room' : ((t.clearCell t.x.toNat t.y.toNat).x + 1).toNat + left ≤ stop := by
        rw [x, next]
        omega
      have steady' : left ≠ 0 → Steady f ((t.clearCell t.x.toNat t.y.toNat).x + 1)
          (t.clearCell t.x.toNat t.y.toNat).y := by
        intro more
        rw [x, y]
        rcases here with covered | inside
        · exact .inl covered
        · refine .inr ⟨?_, inside.2⟩
          rw [next]
          omega
      obtain ⟨page', synced', plain'⟩ := ih moved calm room' steady'
      exact ⟨page', synced', plain' ∘ plain⟩

theorem typed_steady (t : Terminal) (size : t.cols = f.cols ∧ t.rows = f.rows)
    (steady : Steady f t.x t.y) (few : 0 < t.cols) :
    Steady f t.stepBack.x t.stepBack.y := by
  rcases steady with covered | inside
  · exact .inl covered
  · unfold Terminal.stepBack
    split
    · next right =>
      refine .inr ⟨?_, inside.2⟩
      change (t.x - 1).toNat < f.cols
      have positive : 0 < t.x.toNat := UInt8.lt_iff_toNat_lt.1 right
      have back : (t.x - 1).toNat = t.x.toNat - 1 :=
        UInt8.toNat_sub_of_le _ _ (UInt8.le_iff_toNat_le.2 positive)
      omega
    · split
      · next below =>
        refine .inr ⟨?_, ?_⟩
        · change (UInt8.ofNat (t.cols - 1)).toNat < f.cols
          rw [UInt8.toNat_ofNat']
          have low := Nat.mod_le (t.cols - 1) (2 ^ 8)
          omega
        · change (t.y - 1).toNat < f.rows
          have positive : 0 < t.y.toNat := UInt8.lt_iff_toNat_lt.1 below
          have back : (t.y - 1).toNat = t.y.toNat - 1 :=
            UInt8.toNat_sub_of_le _ _ (UInt8.le_iff_toNat_le.2 positive)
          omega
      · exact .inr inside

theorem Synced.typed (proper : f.Proper) (synced : Synced f pitch start n t d page)
    (few : t.pendingScroll < 2 ^ 28) (steady : Steady f t.x t.y) (some_ : 0 < t.cols) (ch : UInt8) :
    ∃ page', Synced f pitch start n (t.typed ch) d page' ∧ (Plain f page → Plain f page') := by
  unfold Terminal.typed
  split
  · exact ⟨page, synced.move ⟨rfl, rfl⟩ ⟨rfl, rfl⟩ rfl rfl, id⟩
  split
  · have back : Synced f pitch start n t.stepBack d page := by
      unfold Terminal.stepBack
      split
      · exact synced.move ⟨rfl, rfl⟩ ⟨rfl, rfl⟩ rfl rfl
      · split
        · exact synced.move ⟨rfl, rfl⟩ ⟨rfl, rfl⟩ rfl rfl
        · exact synced
    have pending : t.stepBack.pendingScroll = t.pendingScroll := by
      unfold Terminal.stepBack
      split
      · rfl
      · split <;> rfl
    exact back.clear_cell proper (pending ▸ few) (byte_cell _ _)
      (typed_steady t synced.size steady some_).on_page
  split
  · exact synced.clear_cell proper few (byte_cell _ _) steady.on_page
  split
  · have byte := TerminalCursor.next_tab_lt t.cols t.x
    have within : Terminal.nextTab t.cols t.x ≤ f.cols := by
      rw [← synced.size.1]
      unfold Terminal.nextTab
      dsimp only
      split
      · exact Nat.mod_le _ _
      · exact Nat.le_of_lt (Nat.not_le.1 ‹_›)
    by_cases right : t.x.toNat ≤ Terminal.nextTab t.cols t.x
    · exact synced.tab_loop proper few byte within _ (by omega) fun _ => steady
    · have nothing : Terminal.nextTab t.cols t.x - t.x.toNat = 0 := by omega
      rw [nothing]
      exact ⟨page, synced, id⟩
  · obtain ⟨page', drawn, plain⟩ :=
      synced.draw_glyph proper few (byte_cell t.x t.y) steady.on_page ch
    exact ⟨page', drawn.move ⟨rfl, rfl⟩ ⟨rfl, rfl⟩ rfl rfl, plain⟩

theorem Synced.putchar (proper : f.Proper) (synced : Synced f pitch start n t d page)
    (few : t.pendingScroll < 2 ^ 28) (steady : Steady f t.x t.y) (ch : UInt8) :
    ∃ page', Synced f pitch start n (t.putchar ch) d page' ∧ (Plain f page → Plain f page') := by
  unfold Terminal.putchar
  split
  · exact ⟨page, synced, id⟩
  · obtain ⟨page', typed, plain⟩ := synced.typed proper few steady (by omega) ch
    have wrapped : Synced f pitch start n (t.typed ch).wrapLine d page' := by
      unfold Terminal.wrapLine
      split
      · exact typed.move ⟨rfl, rfl⟩ ⟨rfl, rfl⟩ rfl rfl
      · exact typed
    refine ⟨page', ?_, plain⟩
    unfold Terminal.settle
    split
    · exact wrapped.move ⟨rfl, rfl⟩ ⟨rfl, rfl⟩ rfl rfl
    · exact wrapped

theorem Synced.width_lt (synced : Synced f pitch start n t d page) :
    f.width < 2 ^ 30 ∧ f.height < 2 ^ 30 := by
  obtain ⟨image, follows, _⟩ := synced.shown
  have sound := follows.shown.sound
  rw [← follows.shown.width, ← follows.shown.height]
  exact ⟨sound.width_lt, sound.height_lt⟩

theorem Synced.clear (proper : f.Proper) (synced : Synced f pitch start n t d page) :
    Synced f pitch start n t.clear d fun _ _ => Page.blank := by
  obtain ⟨wide, high⟩ := synced.width_lt
  have cols := proper.cols
  have rows := proper.rows
  have words : u32 (t.cols * fontWidth) = f.cols * Drawing.fontWidth ∧
      u32 (t.rows * fontHeight) = f.rows * Drawing.fontHeight := by
    rw [synced.size.1, synced.size.2]
    unfold Drawing.fontWidth at cols
    unfold Drawing.fontHeight at rows
    exact ⟨u32_of_lt (by unfold fontWidth; omega), u32_of_lt (by unfold fontHeight; omega)⟩
  have call : sent (.fillRect 0 0 (t.cols * fontWidth) (t.rows * fontHeight) t.bg) =
      .fillRect 0 0 (f.cols * Drawing.fontWidth) (f.rows * Drawing.fontHeight) f.bg := by
    unfold sent
    dsimp only
    rw [words.1, words.2, synced.colors.2]
    rfl
  have range : InRange (sent (.fillRect 0 0 (t.cols * fontWidth) (t.rows * fontHeight) t.bg)) := by
    rw [call]
    exact ⟨by omega, by omega⟩
  unfold Terminal.clear
  apply synced.emit range
  · intro image renders
    rw [call]
    exact renders_clear proper renders
  · exact ⟨rfl, rfl⟩
  · exact ⟨rfl, rfl⟩
  · exact Option.isSome_map.trans synced.allocated
  · rfl
  · intro col row column low
    obtain ⟨cells, allocated⟩ := Option.isSome_iff_exists.1 synced.allocated
    have inside := Support.RowMajor.index_lt (synced.size.2 ▸ low : row < t.rows)
      (synced.size.1 ▸ column : col < t.cols)
    change charSpace = Terminal.cellAt { t with cells := t.cells.map _ } col row
    unfold Terminal.cellAt Terminal.blankFrom
    rw [allocated]
    dsimp only [Option.map]
    rw [if_neg (by rw [synced.size.1, synced.size.2]; omega), Nat.zero_add, Nat.mul_comm t.cols,
      if_pos ⟨Nat.zero_le _, inside⟩]

theorem Synced.redraw (synced : Synced f pitch start n t d page) {x y : UInt8}
    (onPage : f.OnPage x.toNat y.toNat) (inverted : Bool) {fg bg : Nat}
    (colors : UInt32.ofNat fg = (if inverted then f.bg else f.fg) ∧
      UInt32.ofNat bg = if inverted then f.fg else f.bg) :
    Synced f pitch start n (t.emit (.drawChar (x.toNat * fontWidth) (y.toNat * fontHeight)
      (t.cellAt x.toNat y.toNat) fg bg)) d
      (page.put x.toNat y.toNat ⟨t.cellAt x.toNat y.toNat, inverted⟩) := by
  have call := sent_char (byte_cell x y) (t.cellAt x.toNat y.toNat) fg bg
  have range : InRange (sent (.drawChar (x.toNat * fontWidth) (y.toNat * fontHeight)
      (t.cellAt x.toNat y.toNat) fg bg)) := by
    rw [call]
    exact cell_range (byte_cell x y)
  apply synced.emit range
  · intro image renders
    rw [call]
    exact renders_char renders onPage _ inverted colors
  · exact ⟨rfl, rfl⟩
  · exact ⟨rfl, rfl⟩
  · exact synced.allocated
  · rfl
  · intro col row column low
    change _ = t.cellAt col row
    unfold Page.put
    split
    · next here => rw [here.1, here.2]
    · exact synced.chars col row column low

def Marked (f : Format) (x y : UInt8) (page : Page) : Prop :=
  ∀ col row, col < f.cols → row < f.rows →
    (page col row).inverted = decide (col = x.toNat ∧ row = y.toNat)

theorem Synced.draw_cursor (proper : f.Proper) (synced : Synced f pitch start n t d page)
    (few : t.pendingScroll < 2 ^ 28) (steady : Steady f t.x t.y) :
    ∃ page', Synced f pitch start n t.drawCursor d page' ∧
      (Plain f page → Marked f t.x t.y page') := by
  obtain ⟨shifted, flushed, plain⟩ := synced.flush proper few
  obtain ⟨x, y, _⟩ := flush_same t
  have onPage : f.OnPage t.flushScroll.x.toNat t.flushScroll.y.toNat := by
    rw [x, y]
    exact steady.on_page
  refine ⟨_, flushed.redraw onPage true ⟨flushed.colors.2, flushed.colors.1⟩, fun clean => ?_⟩
  intro col row column low
  rw [x, y]
  unfold Page.put
  split
  · next here => exact (decide_eq_true here).symm
  · next apart =>
    rw [decide_eq_false apart]
    exact plain clean col row column low

theorem Synced.erase_cursor (synced : Synced f pitch start n t d page)
    (settled : t.pendingScroll = 0) (steady : Steady f t.x t.y) :
    ∃ page', Synced f pitch start n t.eraseCursor d page' ∧
      (Marked f t.x t.y page → Plain f page') := by
  have same : t.flushScroll = t := if_neg (by omega)
  unfold Terminal.eraseCursor
  rw [same]
  refine ⟨_, synced.redraw steady.on_page false synced.colors, fun marked => ?_⟩
  intro col row column low
  unfold Page.put
  split
  · rfl
  · next apart =>
    rw [marked col row column low]
    exact decide_eq_false apart

end Simulation

section Histories

/-- The cursor is not put beside the page, and fewer than `2 ^ 28` rows are pending. -/
def Allowed (f : Format) (t : Terminal) : Op → Prop
  | .putchar ch =>
      (t.typed ch).wrapLine.pendingScroll + (t.typed ch).wrapLine.rowsPast < 2 ^ 28
  | .setCursor col row => Steady f col row
  | _ => True

def Orderly (f : Format) : Terminal → List Op → Prop
  | _, [] => True
  | t, op :: rest => Allowed f t op ∧ Orderly f (perform t op) rest

def opsOf (steps : List Step) : List Op := steps.filterMap fun
  | .op op => some op
  | .flush => none

variable {f : Format} {pitch n : Nat} {start : Bytes} {t : Terminal} {d : Display} {page : Page}
variable {s : Session}

theorem orderly_append (f : Format) (t : Terminal) (ops rest : List Op) :
    Orderly f t (ops ++ rest) ↔ Orderly f t ops ∧ Orderly f (performAll t ops) rest := by
  induction ops generalizing t with
  | nil => exact ⟨fun rest => ⟨trivial, rest⟩, And.right⟩
  | cons op ops ih =>
      change Allowed f t op ∧ Orderly f (perform t op) (ops ++ rest) ↔ _
      rw [ih]
      exact and_assoc.symm

theorem few_of_orderly {ops : List Op} (orderly : Orderly f t ops) : FewPending t ops := by
  induction ops generalizing t with
  | nil => trivial
  | cons op rest ih =>
      refine ⟨?_, ih orderly.2⟩
      have allowed := orderly.1
      cases op with
      | putchar ch => exact Nat.lt_trans allowed (by decide)
      | clear => trivial
      | setCursor col row => trivial
      | drawCursor => trivial
      | eraseCursor => trivial

theorem steps_terminal (font : UInt8 → Nat → UInt8) (s : Session) (steps : List Step) :
    (s.steps font steps).terminal = performAll s.terminal (opsOf steps) := by
  induction steps generalizing s with
  | nil => rfl
  | cons step rest ih =>
      cases step with
      | op op => exact ih (s.step font (.op op))
      | flush => exact ih (s.step font .flush)

/-- The display shows the page, and the next call may be carried out. -/
structure Live (f : Format) (pitch : Nat) (start : Bytes) (s : Session) (page : Page) : Prop where
  synced : Synced f pitch start s.terminal.calls.length s.terminal s.display page
  few : s.terminal.pendingScroll < 2 ^ 28
  steady : Steady f s.terminal.x s.terminal.y

def quiet : Op → Bool
  | .drawCursor => false
  | .eraseCursor => false
  | _ => true

theorem Synced.perform (proper : f.Proper) (synced : Synced f pitch start n t d page)
    (few : t.pendingScroll < 2 ^ 28) (steady : Steady f t.x t.y) (op : Op) :
    ∃ page', Synced f pitch start n (perform t op) d page' ∧
      (quiet op = true → Plain f page → Plain f page') := by
  cases op with
  | putchar ch =>
      obtain ⟨page', after, plain⟩ := synced.putchar proper few steady ch
      exact ⟨page', after, fun _ => plain⟩
  | clear => exact ⟨_, synced.clear proper, fun _ _ _ _ _ _ => rfl⟩
  | setCursor col row => exact ⟨page, synced.move ⟨rfl, rfl⟩ ⟨rfl, rfl⟩ rfl rfl, fun _ => id⟩
  | drawCursor =>
      obtain ⟨page', after, _⟩ := synced.draw_cursor proper few steady
      exact ⟨page', after, fun loud => absurd loud Bool.false_ne_true⟩
  | eraseCursor =>
      obtain ⟨shifted, flushed, _⟩ := synced.flush proper few
      obtain ⟨x, y, _⟩ := flush_same t
      have onPage : f.OnPage t.flushScroll.x.toNat t.flushScroll.y.toNat := by
        rw [x, y]
        exact steady.on_page
      exact ⟨_, flushed.redraw onPage false flushed.colors,
        fun loud => absurd loud Bool.false_ne_true⟩

theorem perform_steady (size : t.cols = f.cols ∧ t.rows = f.rows)
    (allocated : t.cells.isSome = true) (visible : 0 < f.cols ∧ 0 < f.rows)
    (few : t.pendingScroll < 2 ^ 28) (steady : Steady f t.x t.y) {op : Op}
    (allowed : Allowed f t op) :
    (perform t op).pendingScroll < 2 ^ 28 ∧ Steady f (perform t op).x (perform t op).y := by
  obtain ⟨x, y, pending⟩ := flush_same t
  cases op with
  | putchar ch =>
      constructor
      · change (t.putchar ch).pendingScroll < 2 ^ 28
        have most : (t.typed ch).wrapLine.pendingScroll + (t.typed ch).wrapLine.rowsPast < 2 ^ 28 :=
          allowed
        unfold Terminal.putchar
        rw [if_neg (by omega)]
        unfold Terminal.settle
        split
        · next below =>
          unfold Terminal.rowsPast at most
          rw [if_pos below] at most
          change u32 _ < 2 ^ 28
          rw [u32_of_lt (by omega)]
          exact most
        · exact Nat.lt_of_le_of_lt (Nat.le_add_right _ _) most
      · rcases steady with covered | inside
        · exact .inl covered
        · have ready : Ready t :=
            ⟨⟨by omega, Nat.lt_trans few (by decide), allocated⟩, by omega⟩
          obtain ⟨after, cols, rows⟩ := putchar_ready ready ch
          have col := after.col
          have row := after.row
          rw [cols, size.1] at col
          rw [rows, size.2] at row
          exact .inr ⟨col, row⟩
  | clear => exact ⟨Nat.two_pow_pos 28, .inr visible⟩
  | setCursor col row => exact ⟨few, allowed⟩
  | drawCursor =>
      change t.flushScroll.pendingScroll < 2 ^ 28 ∧ Steady f t.flushScroll.x t.flushScroll.y
      rw [x, y, pending]
      exact ⟨by decide, steady⟩
  | eraseCursor =>
      change t.flushScroll.pendingScroll < 2 ^ 28 ∧ Steady f t.flushScroll.x t.flushScroll.y
      rw [x, y, pending]
      exact ⟨by decide, steady⟩

theorem Synced.carried (synced : Synced f pitch start n t d page) :
    Synced f pitch start t.calls.length t (d.run f.font ((t.calls.drop n).map sent)) page where
  size := synced.size
  colors := synced.colors
  allocated := synced.allocated
  behind := Nat.le_refl _
  shown := by
    rw [List.drop_length]
    exact synced.shown
  chars := synced.chars

theorem Live.op (proper : f.Proper) (visible : 0 < f.cols ∧ 0 < f.rows)
    (live : Live f pitch start s page) {op : Op} (allowed : Allowed f s.terminal op) :
    ∃ page', Live f pitch start (s.step f.font (.op op)) page' ∧
      (quiet op = true → Plain f page → Plain f page') := by
  obtain ⟨page', after, plain⟩ := live.synced.perform proper live.few live.steady op
  obtain ⟨few, steady⟩ := perform_steady live.synced.size live.synced.allocated visible live.few
    live.steady allowed
  exact ⟨page', ⟨after.carried, few, steady⟩, plain⟩

theorem Live.flush (live : Live f pitch start s page) :
    Live f pitch start (s.step f.font .flush) page ∧
      Displayed f.width f.height pitch (s.step f.font .flush).display.framebuffer
        (f.pixel page) := by
  obtain ⟨image, follows, renders⟩ := live.synced.shown
  rw [List.drop_length] at follows
  have flushed := ScrollingImage.follows_call f.font follows (show InRange .flush from trivial)
  have clean : (s.step f.font .flush).display.dirty = false := by
    change (Display.flush _).dirty = false
    unfold Display.flush
    split
    · rfl
    · next clean => exact Bool.eq_false_iff.2 clean
  constructor
  · refine ⟨⟨live.synced.size, live.synced.colors, live.synced.allocated, Nat.le_refl _, ?_,
      live.synced.chars⟩, live.few, live.steady⟩
    rw [List.drop_length]
    exact ⟨image, ⟨flushed.shown, fun clean _ => flushed.clean clean (.inl trivial)⟩, renders⟩
  · intro c column r low
    exact (flushed.clean clean (.inl trivial) c column r low).trans (renders c column r low)

theorem Live.steps (proper : f.Proper) (visible : 0 < f.cols ∧ 0 < f.rows)
    (live : Live f pitch start s page) {steps : List Step}
    (orderly : Orderly f s.terminal (opsOf steps)) :
    ∃ page', Live f pitch start (s.steps f.font steps) page' ∧
      ((∀ step ∈ steps, ∃ op, step = .op op ∧ quiet op = true) → Plain f page →
        Plain f page') := by
  induction steps generalizing s page with
  | nil => exact ⟨page, live, fun _ => id⟩
  | cons step rest ih =>
      cases step with
      | op op =>
          obtain ⟨page₁, after, plain⟩ := live.op proper visible orderly.1
          obtain ⟨page₂, last, plain'⟩ := ih after orderly.2
          refine ⟨page₂, last, fun allQuiet clean => ?_⟩
          apply plain' fun step member => allQuiet step (List.mem_cons_of_mem _ member)
          obtain ⟨_, same, silent⟩ := allQuiet _ List.mem_cons_self
          cases same
          exact plain silent clean
      | flush =>
          obtain ⟨page₂, last, _⟩ := ih live.flush.1 orderly
          refine ⟨page₂, last, fun allQuiet _ => ?_⟩
          obtain ⟨op, absent, _⟩ := allQuiet _ List.mem_cons_self
          cases absent

/-- The grid of the terminal, with the cell of the cursor inverted. -/
def textPage (e : Eager) : Page := fun col row =>
  ⟨e.cellAt col row, decide (col = e.x.toNat ∧ row = e.y.toNat)⟩

theorem framebuffer_steps (font : UInt8 → Nat → UInt8) (s : Session) (op : Op) :
    (s.step font (.op op)).display.framebuffer = s.display.framebuffer := by
  change (Display.run font s.display _).framebuffer = _
  generalize (perform s.terminal op).calls.drop s.terminal.calls.length = calls
  generalize s.display = d
  unfold Display.run
  induction calls generalizing d with
  | nil => rfl
  | cons call rest ih =>
      rw [List.map_cons, List.foldl_cons, ih]
      cases call <;> rfl

theorem Live.flush_request (proper : f.Proper) (live : Live f pitch start s page)
    (plain : Plain f page) {e : Eager} (agrees : Shows s.terminal e) :
    let s' := s.steps f.font [.op .drawCursor, .flush, .op .eraseCursor]
    (∃ page', Live f pitch start s' page' ∧ Plain f page') ∧
      Displayed f.width f.height pitch s'.display.framebuffer (f.pixel (textPage e)) := by
  obtain ⟨marked, drawn, cursor⟩ := live.synced.draw_cursor proper live.few live.steady
  obtain ⟨x, y, settled⟩ := flush_same s.terminal
  have steady : Steady f s.terminal.drawCursor.x s.terminal.drawCursor.y := by
    change Steady f s.terminal.flushScroll.x s.terminal.flushScroll.y
    rw [x, y]
    exact live.steady
  have calm : s.terminal.drawCursor.pendingScroll = 0 := settled
  have live₁ : Live f pitch start (s.step f.font (.op .drawCursor)) marked := by
    refine ⟨drawn.carried, ?_, steady⟩
    change s.terminal.drawCursor.pendingScroll < 2 ^ 28
    rw [calm]
    decide
  obtain ⟨live₂, displayed⟩ := live₁.flush
  obtain ⟨page', erased, clean⟩ := live₂.synced.erase_cursor calm steady
  have here : Marked f s.terminal.drawCursor.x s.terminal.drawCursor.y marked := by
    change Marked f s.terminal.flushScroll.x s.terminal.flushScroll.y marked
    rw [x, y]
    exact cursor plain
  have settled' : s.terminal.drawCursor.eraseCursor.pendingScroll = 0 := pending_flush _
  constructor
  · refine ⟨page', ⟨erased.carried, ?_, ?_⟩, clean here⟩
    · change s.terminal.drawCursor.eraseCursor.pendingScroll < 2 ^ 28
      rw [settled']
      decide
    · change Steady f s.terminal.drawCursor.flushScroll.x s.terminal.drawCursor.flushScroll.y
      rw [(flush_same _).1, (flush_same _).2.1]
      exact steady
  · change Displayed f.width f.height pitch
      (((s.step f.font (.op .drawCursor)).step f.font .flush).step f.font
        (.op .eraseCursor)).display.framebuffer (f.pixel (textPage e))
    rw [framebuffer_steps]
    intro c column r low
    rw [displayed c column r low]
    unfold Format.pixel
    split
    · next inside =>
      have cell : marked (c / Drawing.fontWidth) (r / Drawing.fontHeight) =
          textPage e (c / Drawing.fontWidth) (r / Drawing.fontHeight) := by
        have ch := drawn.chars _ _ inside.1 inside.2
        have inverted := cursor plain _ _ inside.1 inside.2
        have seen : s.terminal.drawCursor.cellAt (c / Drawing.fontWidth) (r / Drawing.fontHeight) =
            e.cellAt (c / Drawing.fontWidth) (r / Drawing.fontHeight) :=
          agrees.flush.cell (pending_flush _) _ _
        unfold textPage
        rw [← seen, ← ch, agrees.x, agrees.y, ← inverted]
      rw [cell]
    · rfl

theorem requested_flush {r : Received} (flush : r.msg.type = MessageType.terminalFlush) :
    requested r = [.op .drawCursor, .flush, .op .eraseCursor] := by
  unfold requested
  rw [flush]
  rfl

theorem requested_clear {r : Received} (clear : r.msg.type = MessageType.terminalClear) :
    requested r = [.op .clear] := by
  unfold requested
  rw [clear]
  rfl

theorem requested_quiet {r : Received} (other : r.msg.type ≠ MessageType.terminalFlush)
    {step : Step} (member : step ∈ requested r) : ∃ op, step = .op op ∧ quiet op = true := by
  unfold requested at member
  split at member
  · exact ⟨_, List.mem_singleton.1 member, rfl⟩
  split at member
  · obtain ⟨i, _, rfl⟩ := List.mem_map.1 member
    exact ⟨_, rfl, rfl⟩
  split at member
  · exact ⟨_, List.mem_singleton.1 member, rfl⟩
  split at member
  · exact ⟨_, List.mem_singleton.1 member, rfl⟩
  rw [ite_self] at member
  cases member

theorem Live.request (proper : f.Proper) (visible : 0 < f.cols ∧ 0 < f.rows)
    (live : Live f pitch start s page) (plain : Plain f page) {r : Received}
    (orderly : Orderly f s.terminal (opsOf (requested r))) :
    ∃ page', Live f pitch start (s.steps f.font (requested r)) page' ∧ Plain f page' := by
  by_cases flush : r.msg.type = MessageType.terminalFlush
  · rw [requested_flush flush]
    exact (live.flush_request proper plain (shows_eager_of live.synced.allocated)).1
  · obtain ⟨page', after, plain'⟩ := live.steps proper visible orderly
    exact ⟨page', after, plain' (fun _ member => requested_quiet flush member) plain⟩

theorem steps_append (font : UInt8 → Nat → UInt8) (s : Session) (steps rest : List Step) :
    s.steps font (steps ++ rest) = (s.steps font steps).steps font rest := List.foldl_append

theorem ops_append (steps rest : List Step) : opsOf (steps ++ rest) = opsOf steps ++ opsOf rest :=
  List.filterMap_append

theorem Live.requests (proper : f.Proper) (visible : 0 < f.cols ∧ 0 < f.rows)
    (live : Live f pitch start s page) (plain : Plain f page) {history : List Received}
    (orderly : Orderly f s.terminal (opsOf (history.flatMap requested))) :
    ∃ page', Live f pitch start (s.steps f.font (history.flatMap requested)) page' ∧
      Plain f page' := by
  induction history generalizing s page with
  | nil => exact ⟨page, live, plain⟩
  | cons r rest ih =>
      rw [List.flatMap_cons, ops_append, orderly_append, ← steps_terminal f.font] at orderly
      obtain ⟨page₁, after, clean⟩ := live.request proper visible plain orderly.1
      rw [List.flatMap_cons, steps_append]
      exact ih after clean orderly.2

theorem serve_all_steps (font : UInt8 → Nat → UInt8) (s : Session) (history : List Received) :
    serveAll font s history = s.steps font (history.flatMap requested) := by
  induction history generalizing s with
  | nil => rfl
  | cons r rest ih =>
      rw [List.flatMap_cons, steps_append, ← ih]
      rfl

end Histories

section Boot

def formatOf (width height : UInt32) (font : UInt8 → Nat → UInt8) : Format where
  width := width.toNat
  height := height.toNat
  cols := width.toNat / fontWidth
  rows := height.toNat / fontHeight
  fg := 0x00AAAAAA
  bg := 0x00000000
  font := font

variable {width height : UInt32} {pitch : Nat} {font : UInt8 → Nat → UInt8}

theorem format_proper (blank : ∀ r < 16, font charSpace r = 0) :
    (formatOf width height font).Proper where
  cols := Nat.div_mul_le_self _ _
  rows := Nat.div_mul_le_self _ _
  blank := blank

theorem live_start (columns : 8 ≤ width.toNat) (lines : 16 ≤ height.toNat)
    (wide : 4 * width.toNat ≤ pitch) (small : pitch * height.toNat < 2 ^ 32)
    (blank : ∀ r < 16, font charSpace r = 0) (framebuffer backBuffer : Bytes)
    (granted : Nat → UInt8) :
    ∃ page, Live (formatOf width height font) pitch backBuffer
      ⟨.construct width height granted,
        blankDisplay font width height pitch framebuffer backBuffer⟩ page := by
  have range : ∀ call ∈ [Call.fillRect 0 0 width.toNat height.toNat 0, .flush], InRange call := by
    intro call member
    rcases List.mem_cons.1 member with rfl | last
    · have wide := width.toNat_lt
      have high := height.toNat_lt
      exact ⟨by omega, by omega⟩
    · rw [List.mem_singleton.1 last]
      trivial
  have follows := ScrollingImage.follows_run font framebuffer backBuffer (by omega) (by omega) wide
    small range
  have visible : 0 < width.toNat / fontWidth ∧ 0 < height.toNat / fontHeight := by
    unfold fontWidth fontHeight
    omega
  have area : width.toNat / fontWidth * (height.toNat / fontHeight) < 4294967296 := by
    have cols : width.toNat / fontWidth ≤ pitch :=
      Nat.le_trans (Nat.div_le_self _ _) (by omega)
    exact Nat.lt_of_le_of_lt (Nat.mul_le_mul cols (Nat.div_le_self _ _)) small
  have screen := TerminalCursor.construct_on_screen granted visible area
  refine ⟨fun _ _ => Page.blank, ⟨⟨rfl, rfl⟩, ⟨rfl, rfl⟩, screen.allocated, Nat.le_refl _, ?_, ?_⟩,
    Nat.two_pow_pos 28, .inr visible⟩
  · refine ⟨_, ⟨follows.shown, fun clean _ => follows.clean clean ?_⟩, ?_⟩
    · exact ⟨_, List.mem_cons_self, trivial⟩
    · exact renders_fill (format_proper blank) _
  · intro col row column low
    have inside := Support.RowMajor.index_lt low column
    have total : u32 (width.toNat / fontWidth * (height.toNat / fontHeight)) =
        height.toNat / fontHeight * (width.toNat / fontWidth) := by
      rw [u32_of_lt area, Nat.mul_comm]
    unfold formatOf at column low inside
    dsimp only at column low inside
    unfold Terminal.cellAt Terminal.construct Terminal.blankFrom
    dsimp only
    rw [total, if_pos (Nat.mul_pos visible.2 visible.1)]
    dsimp only
    rw [if_neg (by omega), Nat.zero_add, if_pos ⟨Nat.zero_le _, inside⟩]
    rfl

def opsFrom (history : List Received) : List Op := opsOf (greeting ++ history.flatMap requested)

/-- Once the screen has been cleared, a flush shows the characters of the eager terminal, with the
cell of the cursor in inverted colors. -/
theorem screen_shows_text (columns : 8 ≤ width.toNat) (lines : 16 ≤ height.toNat)
    (wide : 4 * width.toNat ≤ pitch) (small : pitch * height.toNat < 2 ^ 32)
    (blank : ∀ r < 16, font charSpace r = 0) (framebuffer backBuffer : Bytes)
    (granted : Nat → UInt8) {before after : List Received} {clear flush : Received}
    (clears : clear.msg.type = MessageType.terminalClear)
    (flushes : flush.msg.type = MessageType.terminalFlush)
    (orderly : Orderly (formatOf width height font) (.construct width height granted)
      (opsFrom (before ++ clear :: after))) :
    let s := boot font width height pitch framebuffer backBuffer granted
    let served := serveAll font s (before ++ clear :: after ++ [flush])
    let shown := (eagerOf (.construct width height granted)).performAll
      (opsFrom (before ++ clear :: after))
    Displayed width.toNat height.toNat pitch served.display.framebuffer
      ((formatOf width height font).pixel (textPage shown)) := by
  have proper : (formatOf width height font).Proper := format_proper blank
  have visible : 0 < (formatOf width height font).cols ∧ 0 < (formatOf width height font).rows :=
    ⟨Nat.div_pos columns (by decide), Nat.div_pos lines (by decide)⟩
  obtain ⟨page₀, live₀⟩ := live_start columns lines wide small blank framebuffer backBuffer granted
  intro s served shown
  let first : Session :=
    ⟨.construct width height granted, blankDisplay font width height pitch framebuffer backBuffer⟩
  have agrees : Shows ((first.steps font
      (greeting ++ (before ++ clear :: after).flatMap requested)).terminal) shown := by
    rw [steps_terminal]
    exact shows_perform_all (shows_eager_of live₀.synced.allocated)
      ⟨Nat.ne_of_gt visible.1, Nat.ne_of_gt visible.2⟩ (few_of_orderly orderly)
  unfold opsFrom at orderly
  have cut : greeting ++ (before ++ clear :: after).flatMap requested =
      (greeting ++ before.flatMap requested) ++ ([.op .clear] ++ after.flatMap requested) := by
    rw [List.flatMap_append, List.flatMap_cons, requested_clear clears, List.append_assoc]
  have whole : served = (first.steps font
      (greeting ++ (before ++ clear :: after).flatMap requested)).steps font (requested flush) := by
    change serveAll font (first.steps font greeting) _ = _
    rw [serve_all_steps, List.flatMap_append, List.flatMap_singleton, steps_append,
      steps_append font first]
  rw [whole, requested_flush flushes]
  rw [cut] at agrees orderly ⊢
  rw [ops_append (greeting ++ before.flatMap requested), orderly_append,
    ← steps_terminal font first, ops_append [.op .clear], orderly_append] at orderly
  obtain ⟨page₁, live₁, _⟩ := live₀.steps proper visible orderly.1
  have live₂ : Live (formatOf width height font) pitch backBuffer
      ((first.steps font (greeting ++ before.flatMap requested)).step font (.op .clear))
      fun _ _ => Page.blank :=
    ⟨(live₁.synced.clear proper).carried, Nat.two_pow_pos 28, .inr visible⟩
  obtain ⟨page₃, live₃, plain⟩ := live₂.requests proper visible (fun _ _ _ _ => rfl) orderly.2.2
  rw [steps_append, steps_append] at agrees ⊢
  exact (live₃.flush_request proper plain agrees).2

instance (f : Format) (x y : UInt8) : Decidable (Steady f x y) :=
  inferInstanceAs (Decidable (_ ∨ _))

instance (f : Format) (t : Terminal) : (op : Op) → Decidable (Allowed f t op)
  | .putchar _ => inferInstanceAs (Decidable (_ < 2 ^ 28))
  | .setCursor col row => inferInstanceAs (Decidable (Steady f col row))
  | .clear => .isTrue trivial
  | .drawCursor => .isTrue trivial
  | .eraseCursor => .isTrue trivial

instance decidableOrderly (f : Format) : (t : Terminal) → (ops : List Op) →
    Decidable (Orderly f t ops)
  | _, [] => .isTrue trivial
  | t, op :: rest =>
      haveI := decidableOrderly f (perform t op) rest
      inferInstanceAs (Decidable (Allowed f t op ∧ Orderly f (perform t op) rest))

/-- The glyph of `A`. -/
def letterFont (ch : UInt8) (row : Nat) : UInt8 :=
  if ch = 0x41 then
    ([0, 0, 0x10, 0x38, 0x6C, 0xC6, 0xC6, 0xFE, 0xC6, 0xC6, 0xC6, 0xC6] : List UInt8).getD row 0
  else 0

def request (type arg1 : UInt32) : Received := ⟨7, { Message.zero with type, arg1 }, fun _ => 0⟩

/-- A screen of four cells: the tip of the letter, and the cursor behind it. -/
theorem letter_on_screen :
    let s := boot letterFont 16 32 64 (fun _ => 0) (fun _ => 0) fun _ => 0
    let served := serveAll letterFont s
      [request MessageType.terminalClear 0, request MessageType.terminalPutchar 0x41,
        request MessageType.terminalFlush 0]
    loadWord served.display.framebuffer (2 * 64 + 4 * 3) = 0x00AAAAAA ∧
      loadWord served.display.framebuffer (2 * 64 + 4 * 2) = 0 ∧
      loadWord served.display.framebuffer (2 * 64 + 4 * 8) = 0x00AAAAAA := by
  have orderly : Orderly (formatOf 16 32 letterFont) (.construct 16 32 fun _ => 0)
      (opsFrom ([] ++ request MessageType.terminalClear 0 ::
        [request MessageType.terminalPutchar 0x41])) := by
    decide +kernel
  have wide : 4 * (16 : UInt32).toNat ≤ 64 := by decide
  have flushes : (request MessageType.terminalFlush 0).msg.type = MessageType.terminalFlush := rfl
  have shown := screen_shows_text (by decide) (by decide) wide (by decide) (by decide)
    (fun _ => 0) (fun _ => 0) (fun _ => 0) rfl flushes orderly
  have line : 2 < (32 : UInt32).toNat := by decide
  refine ⟨(shown 3 (by decide) 2 line).trans ?_, (shown 2 (by decide) 2 line).trans ?_,
    (shown 8 (by decide) 2 line).trans ?_⟩
  · decide +kernel
  · decide +kernel
  · decide +kernel

end Boot

end CassiOS.Userland.TerminalScreen
