import CassiOS.Userland.ShellInput
import Mathlib.Data.List.Induction
import Mathlib.Data.List.InsertIdx

/-!
# Editing a line

`Line` is a bounded text with a cursor, `Editor` a reference editor that hands over its line
at every Enter and starts an empty one. The shell keeps in step with it until Enter is
pressed on a line of blanks: that line is not handed to a command, but it is not cleared
either.
-/

namespace CassiOS.Userland.LineEditing

open CassiOS.Userland.ShellInput

set_option autoImplicit false

/-- A text of at most `max` characters and a position in it. -/
structure Line (α : Type*) (max : Nat) where
  text : List α
  cursor : Nat
  inside : cursor ≤ text.length
  bound : text.length ≤ max

namespace Line

variable {α : Type*} {max : Nat}

def empty : Line α max := ⟨[], 0, Nat.le_refl 0, Nat.zero_le max⟩

/-- The character goes to the cursor, unless the text is full. -/
def insert (l : Line α max) (a : α) : Line α max :=
  if room : l.text.length < max then
    { text := l.text.insertIdx l.cursor a
      cursor := l.cursor + 1
      inside := by
        rw [List.length_insertIdx_of_le_length l.inside]
        exact Nat.succ_le_succ l.inside
      bound := by
        rw [List.length_insertIdx_of_le_length l.inside]
        exact room }
  else l

/-- The character before the cursor goes away. -/
def backspace (l : Line α max) : Line α max :=
  if before : 0 < l.cursor then
    { text := l.text.eraseIdx (l.cursor - 1)
      cursor := l.cursor - 1
      inside := by
        have inside := l.inside
        rw [List.length_eraseIdx_of_lt (by omega)]
        omega
      bound := Nat.le_trans (List.length_eraseIdx_le _ _) l.bound }
  else l

def delete (l : Line α max) : Line α max :=
  if behind : l.cursor < l.text.length then
    { text := l.text.eraseIdx l.cursor
      cursor := l.cursor
      inside := by
        rw [List.length_eraseIdx_of_lt behind]
        omega
      bound := Nat.le_trans (List.length_eraseIdx_le _ _) l.bound }
  else l

def left (l : Line α max) : Line α max :=
  { l with cursor := l.cursor - 1, inside := Nat.le_trans (Nat.sub_le _ _) l.inside }

def right (l : Line α max) : Line α max :=
  if behind : l.cursor < l.text.length then { l with cursor := l.cursor + 1, inside := behind }
  else l

end Line

section Reference

structure Editor where
  line : Line UInt8 shellMaxInput
  entered : List (List UInt8)

def Editor.start : Editor := ⟨Line.empty, []⟩

def printable (key : UInt8) : Prop := 0x20 ≤ key ∧ key ≤ 0x7E

instance (key : UInt8) : Decidable (printable key) :=
  inferInstanceAs (Decidable (0x20 ≤ key ∧ key ≤ 0x7E))

def Editor.press (e : Editor) (key : UInt8) : Editor :=
  if key = KeyCode.enter then ⟨Line.empty, e.entered ++ [e.line.text]⟩
  else if key = KeyCode.backspace then { e with line := e.line.backspace }
  else if key = KeyCode.delete then { e with line := e.line.delete }
  else if key = KeyCode.leftArrow then { e with line := e.line.left }
  else if key = KeyCode.rightArrow then { e with line := e.line.right }
  else if printable key then { e with line := e.line.insert key }
  else e

def Editor.run (keys : List UInt8) : Editor := keys.foldl Editor.press .start

end Reference

section Buffers

variable {buffer : Chars}

theorem length_text (buffer : Chars) (n : Nat) : (text buffer n).length = n := by
  unfold text
  rw [List.length_map, List.length_range]

theorem text_at (buffer : Chars) (n j : Nat) :
    (text buffer n)[j]? = if j < n then some (buffer j) else none := by
  unfold text
  rw [List.getElem?_map]
  by_cases inside : j < n
  · rw [if_pos inside, List.getElem?_range inside]
    rfl
  · rw [if_neg inside, List.getElem?_eq_none (by rw [List.length_range]; omega)]
    rfl

theorem close_gap_at (n i : Nat) (buffer : Chars) (j : Nat) :
    closeGap i n buffer j = if i ≤ j ∧ j < i + n then buffer (j + 1) else buffer j := by
  induction n generalizing i buffer with
  | zero => exact (if_neg (by omega)).symm
  | succ n ih =>
      unfold closeGap
      rw [ih]
      unfold put
      by_cases here : j = i
      · subst here
        rw [if_neg (by omega), if_pos rfl, if_pos (by omega)]
      · by_cases later : i + 1 ≤ j ∧ j < i + 1 + n
        · rw [if_pos later, if_neg (by omega), if_pos (by omega)]
        · rw [if_neg later, if_neg here, if_neg (by omega)]

theorem open_gap_at (n i : Nat) (low : n ≤ i) (buffer : Chars) (j : Nat) :
    openGap i n buffer j = if i - n < j ∧ j ≤ i then buffer (j - 1) else buffer j := by
  induction n generalizing i buffer with
  | zero => exact (if_neg (by omega)).symm
  | succ n ih =>
      unfold openGap
      rw [ih (i - 1) (by omega)]
      unfold put
      by_cases here : j = i
      · subst here
        rw [if_neg (by omega), if_pos rfl, if_pos (by omega)]
      · by_cases earlier : i - 1 - n < j ∧ j ≤ i - 1
        · rw [if_pos earlier, if_neg (by omega), if_pos (by omega)]
        · rw [if_neg earlier, if_neg here, if_neg (by omega)]

theorem text_close_gap {c n : Nat} (inside : c < n) :
    text (closeGap c (n - 1 - c) buffer) (n - 1) = (text buffer n).eraseIdx c := by
  apply List.ext_getElem?
  intro j
  rw [text_at, List.getElem?_eraseIdx, text_at, text_at, close_gap_at]
  by_cases before : j < c
  · rw [if_pos before, if_pos (show j < n by omega), if_pos (show j < n - 1 by omega),
      if_neg (by omega)]
  · rw [if_neg before]
    by_cases behind : j < n - 1
    · rw [if_pos behind, if_pos (show j + 1 < n by omega), if_pos (by omega)]
    · rw [if_neg behind, if_neg (by omega)]

theorem text_open_gap {c n : Nat} (inside : c ≤ n) (key : UInt8) :
    text (put (openGap n (n - c) buffer) c key) (n + 1) = (text buffer n).insertIdx c key := by
  apply List.ext_getElem?
  intro j
  rw [text_at, List.getElem?_insertIdx, text_at, text_at, length_text]
  unfold put
  rw [open_gap_at _ _ (Nat.sub_le n c)]
  by_cases before : j < c
  · rw [if_pos before, if_pos (show j < n + 1 by omega), if_pos (show j < n by omega),
      if_neg (by omega), if_neg (by omega)]
  rw [if_neg before]
  by_cases here : j = c
  · rw [if_pos here, if_pos here, if_pos (show j < n + 1 by omega), if_pos (by omega)]
  rw [if_neg here, if_neg here]
  by_cases behind : j < n + 1
  · rw [if_pos behind, if_pos (show j - 1 < n by omega), if_pos (by omega)]
  · rw [if_neg behind, if_neg (by omega)]

end Buffers

section Arguments

theorem parse_from_keeps (maxArgs n i : Nat) (state : Parsing) (found : state.args ≠ []) :
    (parseFrom maxArgs i n state).args ≠ [] := by
  induction n generalizing i state with
  | zero => exact found
  | succ n ih =>
      unfold parseFrom
      split
      · exact ih _ _ found
      split
      · exact ih _ _ found
      · apply ih
        dsimp only
        split
        · exact List.append_ne_nil_of_left_ne_nil found _
        · exact found

theorem parse_from_finds {maxArgs : Nat} (some_ : 0 < maxArgs) (n i : Nat) (state : Parsing)
    (inside : state.inWord = true → state.args ≠ []) {k : Nat} (low : i ≤ k) (high : k < i + n)
    (space : state.buf k ≠ charSpace) (nul : state.buf k ≠ 0) :
    (parseFrom maxArgs i n state).args ≠ [] := by
  induction n generalizing i state with
  | zero => omega
  | succ n ih =>
      unfold parseFrom
      by_cases blank : state.buf i = charSpace ∨ state.buf i = 0
      · rw [if_pos blank]
        have apart : k ≠ i := by
          rintro rfl
          exact blank.elim space nul
        have kept : put state.buf i 0 k = state.buf k := if_neg apart
        apply ih (i + 1) _ (fun started => absurd started Bool.false_ne_true) (by omega) (by omega)
        · exact fun same => space (kept.symm.trans same)
        · exact fun same => nul (kept.symm.trans same)
      rw [if_neg blank]
      split
      · next started => exact parse_from_keeps _ _ _ _ (inside started)
      · apply parse_from_keeps
        dsimp only
        split
        · exact List.append_ne_nil_of_right_ne_nil _ nofun
        · next full =>
          intro none
          rw [none] at full
          exact full some_

end Arguments

section Simulation

structure Edits (s : Shell) (e : Editor) : Prop where
  text : text s.buffer s.length.toNat = e.line.text
  cursor : s.cursor.toNat = e.line.cursor
  entered : s.executed.map Executed.line = e.entered
  printable : ∀ ch ∈ e.line.text, printable ch

variable {s s' : Shell} {e : Editor}

theorem Edits.length (edits : Edits s e) : s.length.toNat = e.line.text.length := by
  rw [← edits.text, length_text]

structure SameLine (s s' : Shell) : Prop where
  buffer : s'.buffer = s.buffer
  length : s'.length = s.length
  cursor : s'.cursor = s.cursor
  executed : s'.executed = s.executed

theorem Edits.same (edits : Edits s e) (same : SameLine s s') : Edits s' e where
  text := by
    rw [same.buffer, same.length]
    exact edits.text
  cursor := by
    rw [same.cursor]
    exact edits.cursor
  entered := by
    rw [same.executed]
    exact edits.entered
  printable := edits.printable

theorem same_emit (s : Shell) (calls : List TerminalCall) : SameLine s (s.emit calls) :=
  ⟨rfl, rfl, rfl, rfl⟩

theorem same_print_prompt (s : Shell) : SameLine s s.printPrompt := by
  unfold Shell.printPrompt
  dsimp only
  split <;> exact ⟨rfl, rfl, rfl, rfl⟩

theorem same_redraw_line (s : Shell) : SameLine s s.redrawLine := by
  unfold Shell.redrawLine
  dsimp only
  split <;> exact ⟨rfl, rfl, rfl, rfl⟩

theorem same_place_cursor (s : Shell) : SameLine s s.placeCursor := same_emit s _

theorem to_nat_pred {n : UInt8} (positive : 0 < n.toNat) : (n - 1).toNat = n.toNat - 1 := by
  apply UInt8.toNat_sub_of_le
  exact UInt8.le_iff_toNat_le.2 positive

theorem to_nat_succ {n : UInt8} (small : n.toNat < 255) : (n + 1).toNat = n.toNat + 1 := by
  have one : (1 : UInt8).toNat = 1 := rfl
  rw [UInt8.toNat_add, one]
  omega

theorem Edits.bounds (edits : Edits s e) :
    s.cursor.toNat ≤ s.length.toNat ∧ s.length.toNat ≤ shellMaxInput := by
  rw [edits.length, edits.cursor]
  exact ⟨e.line.inside, e.line.bound⟩

theorem edits_backspace (edits : Edits s e) :
    Edits s.backspace { e with line := e.line.backspace } := by
  have cursor := edits.cursor
  have bounds := edits.bounds
  unfold Shell.backspace
  by_cases before : 0 < e.line.cursor
  · have start : 0 < s.cursor := by
      rw [UInt8.lt_iff_toNat_lt, cursor]
      exact before
    rw [if_pos start]
    dsimp only
    have closed : Edits
        { s with
          buffer := closeGap (s.cursor.toNat - 1) (s.length.toNat - 1 - (s.cursor.toNat - 1))
            s.buffer
          length := s.length - 1
          cursor := s.cursor - 1 }
        { e with line := e.line.backspace } := by
      unfold Line.backspace
      rw [dif_pos before]
      constructor
      · dsimp only
        rw [to_nat_pred (by omega), text_close_gap (by omega), edits.text, cursor]
      · dsimp only
        rw [to_nat_pred (by omega), cursor]
      · exact edits.entered
      · exact fun ch member => edits.printable ch (List.mem_of_mem_eraseIdx member)
    split
    · exact closed.same (same_emit _ _)
    · exact closed.same (same_redraw_line _)
  · have start : ¬ 0 < s.cursor := by
      rw [UInt8.lt_iff_toNat_lt, cursor]
      exact before
    have same : e.line.backspace = e.line := dif_neg before
    rw [if_neg start, same]
    exact edits

theorem edits_delete (edits : Edits s e) : Edits s.delete { e with line := e.line.delete } := by
  have cursor := edits.cursor
  have length := edits.length
  unfold Shell.delete Line.delete
  by_cases behind : e.line.cursor < e.line.text.length
  · have inside : s.cursor < s.length := by
      rw [UInt8.lt_iff_toNat_lt, cursor, length]
      exact behind
    rw [if_pos inside, dif_pos behind]
    apply Edits.same _ (same_redraw_line _)
    constructor
    · dsimp only
      rw [to_nat_pred (by omega), text_close_gap (by omega), edits.text, cursor]
    · exact cursor
    · exact edits.entered
    · exact fun ch member => edits.printable ch (List.mem_of_mem_eraseIdx member)
  · have inside : ¬ s.cursor < s.length := by
      rw [UInt8.lt_iff_toNat_lt, cursor, length]
      exact behind
    rw [if_neg inside, dif_neg behind]
    exact edits

theorem edits_left (edits : Edits s e) : Edits s.left { e with line := e.line.left } := by
  have cursor := edits.cursor
  unfold Shell.left Line.left
  split
  · next before =>
    have positive : 0 < s.cursor.toNat := UInt8.lt_iff_toNat_lt.1 before
    apply Edits.same _ (same_place_cursor _)
    refine ⟨edits.text, ?_, edits.entered, edits.printable⟩
    dsimp only
    rw [to_nat_pred positive, cursor]
  · next first =>
    have zero : s.cursor.toNat = 0 := by
      rw [UInt8.lt_iff_toNat_lt] at first
      exact Nat.eq_zero_of_not_pos first
    refine ⟨edits.text, ?_, edits.entered, edits.printable⟩
    dsimp only
    omega

theorem edits_right (edits : Edits s e) : Edits s.right { e with line := e.line.right } := by
  have cursor := edits.cursor
  have length := edits.length
  have bounds := edits.bounds
  unfold shellMaxInput at bounds
  unfold Shell.right Line.right
  by_cases behind : e.line.cursor < e.line.text.length
  · have inside : s.cursor < s.length := by
      rw [UInt8.lt_iff_toNat_lt, cursor, length]
      exact behind
    rw [if_pos inside, dif_pos behind]
    apply Edits.same _ (same_place_cursor _)
    refine ⟨edits.text, ?_, edits.entered, edits.printable⟩
    dsimp only
    rw [to_nat_succ (by omega), cursor]
  · have inside : ¬ s.cursor < s.length := by
      rw [UInt8.lt_iff_toNat_lt, cursor, length]
      exact behind
    rw [if_neg inside, dif_neg behind]
    exact edits

theorem edits_insert (edits : Edits s e) {key : UInt8} (shown : printable key) :
    Edits (s.insert key) { e with line := e.line.insert key } := by
  have cursor := edits.cursor
  have length := edits.length
  have bounds := edits.bounds
  unfold Shell.insert
  by_cases room : e.line.text.length < shellMaxInput
  · rw [← length] at room
    rw [if_pos ⟨shown.1, shown.2, room⟩]
    unfold shellMaxInput at bounds
    have stored : Edits
        { s with
          buffer := put (openGap s.length.toNat (s.length.toNat - s.cursor.toNat) s.buffer)
            s.cursor.toNat key
          length := s.length + 1
          cursor := s.cursor + 1 }
        { e with line := e.line.insert key } := by
      unfold Line.insert
      rw [dif_pos (length ▸ room)]
      constructor
      · dsimp only
        rw [to_nat_succ (by omega), text_open_gap bounds.1, edits.text, cursor]
      · dsimp only
        rw [to_nat_succ (by omega), cursor]
      · exact edits.entered
      · intro ch member
        rcases (List.mem_insertIdx (by exact e.line.inside)).1 member with rfl | old
        · exact shown
        · exact edits.printable ch old
    dsimp only
    split
    · exact stored.same (same_emit _ _)
    · exact stored.same (same_redraw_line _)
  · rw [← length] at room
    have same : e.line.insert key = e.line := dif_neg (length ▸ room)
    rw [if_neg fun all => room all.2.2, same]
    exact edits

/-- Enter on such a line hands nothing to a command and clears nothing. -/
def BlankLine (s : Shell) : Prop :=
  0 < s.length ∧ ∀ ch ∈ ShellInput.text s.buffer s.length.toNat, ch = charSpace

instance (s : Shell) : Decidable (BlankLine s) :=
  inferInstanceAs (Decidable (0 < s.length ∧
    ∀ ch ∈ ShellInput.text s.buffer s.length.toNat, ch = charSpace))

theorem text_terminated (s : Shell) :
    ShellInput.text (put s.buffer s.length.toNat 0) s.length.toNat =
      ShellInput.text s.buffer s.length.toNat := by
  apply List.ext_getElem?
  intro j
  rw [text_at, text_at]
  by_cases inside : j < s.length.toNat
  · rw [if_pos inside, if_pos inside]
    exact congrArg some (if_neg (by omega))
  · rw [if_neg inside, if_neg inside]

theorem arguments_of_text (edits : Edits s e) {ch : UInt8} (member : ch ∈ e.line.text)
    (visible : ch ≠ charSpace) :
    (parseArgs (put s.buffer s.length.toNat 0) s.length.toNat shellMaxArgs).1 ≠ [] := by
  obtain ⟨k, found⟩ := List.getElem?_of_mem member
  rw [← edits.text, text_at] at found
  split at found
  · next inside =>
    have here : put s.buffer s.length.toNat 0 k = ch :=
      (if_neg (by omega)).trans (Option.some.inj found)
    apply parse_from_finds (by decide) (k := k) _ _ _
      (fun started => absurd started Bool.false_ne_true) (Nat.zero_le k) (by omega)
    · dsimp only
      rw [here]
      exact visible
    · dsimp only
      rw [here]
      rintro rfl
      exact absurd (edits.printable 0 member).1 (by decide)
  · cases found

/-- What `execute` looks for in the line. -/
def arguments (s : Shell) : List Nat :=
  (parseArgs (put s.buffer s.length.toNat 0) s.length.toNat shellMaxArgs).1

theorem execute_entered (edits : Edits s e) :
    (s.executed ++ [Executed.mk (ShellInput.text (put s.buffer s.length.toNat 0) s.length.toNat)
      (arguments s)]).map Executed.line = e.entered ++ [e.line.text] := by
  rw [List.map_append, edits.entered, List.map_singleton, text_terminated, edits.text]

/-- `execute` before it looks at the arguments. -/
def Shell.noted (s : Shell) : Shell :=
  { s with
    buffer := put s.buffer s.length.toNat 0
    calls := s.calls ++ [.putchar charNewline]
    executed := s.executed ++
      [Executed.mk (ShellInput.text (put s.buffer s.length.toNat 0) s.length.toNat)
        (arguments s)] }

theorem execute_noted (s : Shell) :
    s.execute = if s.length = 0 then (Shell.noted s).printPrompt
      else if (arguments s).length = 0 then (Shell.noted s).printPrompt
      else { Shell.noted s with length := 0, cursor := 0 }.printPrompt := rfl

theorem edits_execute (edits : Edits s e) (handled : s.length = 0 ∨ arguments s ≠ []) :
    Edits s.execute ⟨Line.empty, e.entered ++ [e.line.text]⟩ := by
  have bounds := edits.bounds
  have logged := execute_entered edits
  rw [execute_noted]
  by_cases none : s.length = 0
  · rw [if_pos none]
    apply Edits.same _ (same_print_prompt _)
    have zero : s.length.toNat = 0 := by rw [none]; rfl
    have first : s.cursor.toNat = 0 := by omega
    have empty : ShellInput.text (Shell.noted s).buffer s.length.toNat = [] := by
      rw [zero]
      rfl
    exact ⟨empty, first, logged, nofun⟩
  · rw [if_neg none]
    have found : ¬ (arguments s).length = 0 := fun empty =>
      handled.resolve_left none (List.eq_nil_of_length_eq_zero empty)
    rw [if_neg found]
    apply Edits.same _ (same_print_prompt _)
    exact ⟨rfl, rfl, logged, nofun⟩

theorem edits_execute_blank (edits : Edits s e) (some_ : s.length ≠ 0) (none : arguments s = []) :
    Edits s.execute ⟨e.line, e.entered ++ [e.line.text]⟩ := by
  have logged := execute_entered edits
  have empty : (arguments s).length = 0 := by rw [none]; rfl
  rw [execute_noted, if_neg some_, if_pos empty]
  apply Edits.same _ (same_print_prompt _)
  exact ⟨(text_terminated s).trans edits.text, edits.cursor, logged, edits.printable⟩

theorem edits_enter (edits : Edits s e) (clear : ¬ BlankLine s) :
    Edits s.execute ⟨Line.empty, e.entered ++ [e.line.text]⟩ := by
  apply edits_execute edits
  by_cases none : s.length = 0
  · exact .inl none
  · right
    have positive : 0 < s.length := UInt8.pos_iff_ne_zero.2 none
    by_contra nothing
    apply clear
    refine ⟨positive, fun ch member => ?_⟩
    by_contra visible
    rw [edits.text] at member
    exact arguments_of_text edits member visible nothing

theorem edits_key (edits : Edits s e) {key : UInt8} (other : key ≠ KeyCode.enter) :
    Edits (s.press key) (e.press key) := by
  unfold Shell.press Editor.press
  rw [if_neg other, if_neg other]
  by_cases none : key = 0
  · subst none
    exact edits
  rw [if_neg none]
  by_cases backspace : key = KeyCode.backspace
  · rw [if_pos backspace, if_pos backspace]
    exact edits_backspace edits
  rw [if_neg backspace, if_neg backspace]
  by_cases delete : key = KeyCode.delete
  · rw [if_pos delete, if_pos delete]
    exact edits_delete edits
  rw [if_neg delete, if_neg delete]
  by_cases left : key = KeyCode.leftArrow
  · rw [if_pos left, if_pos left]
    exact edits_left edits
  rw [if_neg left, if_neg left]
  by_cases right : key = KeyCode.rightArrow
  · rw [if_pos right, if_pos right]
    exact edits_right edits
  rw [if_neg right, if_neg right]
  by_cases shown : printable key
  · rw [if_pos shown]
    exact edits_insert edits shown
  · rw [if_neg shown]
    unfold Shell.insert
    rw [if_neg fun all => shown ⟨all.1, all.2.1⟩]
    exact edits

theorem edits_press (edits : Edits s e) {key : UInt8}
    (clear : key = KeyCode.enter → ¬ BlankLine s) : Edits (s.press key) (e.press key) := by
  by_cases enter : key = KeyCode.enter
  · subst enter
    exact edits_enter edits (clear rfl)
  · exact edits_key edits enter

/-- Whatever is pressed, the buffer holds some line. -/
theorem press_edits_some (edits : Edits s e) (key : UInt8) : ∃ e', Edits (s.press key) e' := by
  by_cases enter : key = KeyCode.enter
  · subst enter
    by_cases handled : s.length = 0 ∨ arguments s ≠ []
    · exact ⟨_, edits_execute edits handled⟩
    · rw [not_or, not_not] at handled
      exact ⟨_, edits_execute_blank edits handled.1 handled.2⟩
  · exact ⟨_, edits_key edits enter⟩

theorem edits_start (positions : List (UInt8 × UInt8)) :
    Edits (construct positions).printPrompt Editor.start := by
  apply Edits.same _ (same_print_prompt _)
  exact ⟨rfl, rfl, rfl, nofun⟩

def NoBlankLine (positions : List (UInt8 × UInt8)) (keys : List UInt8) : Prop :=
  ∀ n < keys.length, keys[n]? = some KeyCode.enter → ¬ BlankLine (run positions (keys.take n))

instance (positions : List (UInt8 × UInt8)) (keys : List UInt8) :
    Decidable (NoBlankLine positions keys) :=
  inferInstanceAs (Decidable (∀ n < keys.length, keys[n]? = some KeyCode.enter →
    ¬ BlankLine (run positions (keys.take n))))

theorem run_concat (positions : List (UInt8 × UInt8)) (keys : List UInt8) (key : UInt8) :
    run positions (keys ++ [key]) = (run positions keys).press key := by
  unfold run
  rw [List.foldl_append]
  rfl

theorem editor_run_concat (keys : List UInt8) (key : UInt8) :
    Editor.run (keys ++ [key]) = (Editor.run keys).press key := by
  unfold Editor.run
  rw [List.foldl_append]
  rfl

theorem run_edits_some (positions : List (UInt8 × UInt8)) (keys : List UInt8) :
    ∃ e, Edits (run positions keys) e := by
  induction keys using List.reverseRecOn with
  | nil => exact ⟨_, edits_start positions⟩
  | append_singleton keys key ih =>
      obtain ⟨e, edits⟩ := ih
      rw [run_concat]
      exact press_edits_some edits key

theorem run_edits {positions : List (UInt8 × UInt8)} {keys : List UInt8}
    (clear : NoBlankLine positions keys) : Edits (run positions keys) (Editor.run keys) := by
  induction keys using List.reverseRecOn with
  | nil => exact edits_start positions
  | append_singleton keys key ih =>
      have before : NoBlankLine positions keys := by
        intro n inside enter
        have earlier := clear n (by rw [List.length_append]; omega)
        rw [List.getElem?_append_left inside,
          List.take_append_of_le_length (Nat.le_of_lt inside)] at earlier
        exact earlier enter
      have last := clear keys.length (by rw [List.length_append]; exact Nat.lt_succ_self _)
      rw [List.getElem?_concat_length, List.take_left] at last
      rw [run_concat, editor_run_concat]
      apply edits_press (ih before)
      rintro rfl
      exact last rfl

/-- After any keys the cursor is in the line and the line in the buffer. As long as Enter is
not pressed on a line of blanks, each Enter hands over what the reference editor holds. -/
theorem lines_are_edited (positions : List (UInt8 × UInt8)) (keys : List UInt8) :
    ((run positions keys).cursor ≤ (run positions keys).length ∧
      (run positions keys).length.toNat ≤ shellMaxInput) ∧
    (NoBlankLine positions keys →
      (run positions keys).executed.map Executed.line = (Editor.run keys).entered) := by
  obtain ⟨e, edits⟩ := run_edits_some positions keys
  refine ⟨⟨UInt8.le_iff_toNat_le.2 edits.bounds.1, edits.bounds.2⟩, fun clear => ?_⟩
  exact (run_edits clear).entered

/-- A character goes between two others, and an empty line follows. -/
theorem two_lines_edited :
    (run [] [0x61, 0x62, KeyCode.leftArrow, charSpace, KeyCode.enter, KeyCode.enter]).executed.map
      Executed.line = [[0x61, charSpace, 0x62], []] :=
  ((lines_are_edited [] _).2 (by decide)).trans (by decide)

/-- Two blanks that were entered stand before the next line, and the cursor goes into them:
the second line has the two arguments `b` and `a`. -/
theorem blank_line_is_kept :
    (run [] [charSpace, charSpace, KeyCode.enter, 0x61, KeyCode.leftArrow, KeyCode.leftArrow, 0x62,
      KeyCode.enter]).executed.map Executed.line =
      [[charSpace, charSpace], [charSpace, 0x62, charSpace, 0x61]] ∧
    (Editor.run [charSpace, charSpace, KeyCode.enter, 0x61, KeyCode.leftArrow, KeyCode.leftArrow,
      0x62, KeyCode.enter]).entered = [[charSpace, charSpace], [0x62, 0x61]] := by
  decide

end Simulation

end CassiOS.Userland.LineEditing
