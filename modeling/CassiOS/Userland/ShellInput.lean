import Mathlib.Tactic.Common

/-!
# Shell input

The line buffer of `Shell` in `userspace/core/shell`: one round of `run` for each key,
`execute` and `parseArgs`. What the commands do with their arguments is not part of it; an
executed line is recorded with the text it had and the arguments that were found in it. The
terminal answers `getCursor` with the next position of a script.
-/

namespace CassiOS.Userland.ShellInput

set_option autoImplicit false

def shellMaxInput : Nat := 78
def shellMaxArgs : Nat := 16

namespace KeyCode

def backspace : UInt8 := 0x08
def enter : UInt8 := 0x0D
def delete : UInt8 := 0x7F
def leftArrow : UInt8 := 0x8C
def rightArrow : UInt8 := 0x8D

end KeyCode

def charSpace : UInt8 := 0x20
def charNewline : UInt8 := 0x0A
def charBackspace : UInt8 := 0x08

/-- `"$ "`. -/
def prompt : List UInt8 := [0x24, charSpace]

abbrev Chars := Nat → UInt8

def put (chars : Chars) (i : Nat) (ch : UInt8) : Chars := fun j => if j = i then ch else chars j

/-- The first `n` characters. -/
def text (chars : Chars) (n : Nat) : List UInt8 := (List.range n).map chars

inductive TerminalCall where
  | putchar (ch : UInt8)
  | write (text : List UInt8)
  | setCursor (col row : UInt8)
  | getCursor
  | flush

/-- A line for which Enter was pressed, and the start of each argument found in it. -/
structure Executed where
  line : List UInt8
  args : List Nat

structure Shell where
  buffer : Chars
  length : UInt8
  cursor : UInt8
  promptCol : UInt8
  promptRow : UInt8
  positions : List (UInt8 × UInt8)
  calls : List TerminalCall
  executed : List Executed

def construct (positions : List (UInt8 × UInt8)) : Shell where
  buffer _ := 0
  length := 0
  cursor := 0
  promptCol := 0
  promptRow := 0
  positions := positions
  calls := []
  executed := []

section Arguments

structure Parsing where
  buf : Chars
  args : List Nat
  inWord : Bool

/-- The loop of `parseArgs` over the last `n` characters from `i`. -/
def parseFrom (maxArgs i : Nat) : Nat → Parsing → Parsing
  | 0, state => state
  | n + 1, state =>
      if state.buf i = charSpace ∨ state.buf i = 0 then
        parseFrom maxArgs (i + 1) n { state with buf := put state.buf i 0, inWord := false }
      else if state.inWord then parseFrom maxArgs (i + 1) n state
      else
        let args := if state.args.length < maxArgs then state.args ++ [i] else state.args
        parseFrom maxArgs (i + 1) n { state with args := args, inWord := true }

/-- The starts of the arguments, and the buffer with a NUL behind each word. -/
def parseArgs (buf : Chars) (len maxArgs : Nat) : List Nat × Chars :=
  let state := parseFrom maxArgs 0 (len + 1) ⟨buf, [], false⟩
  (state.args, state.buf)

end Arguments

section Editing

/-- The loop `buffer[i] = buffer[i + 1]` over the last `n` indices from `i`. -/
def closeGap (i : Nat) : Nat → Chars → Chars
  | 0, buffer => buffer
  | n + 1, buffer => closeGap (i + 1) n (put buffer i (buffer (i + 1)))

/-- The loop `buffer[i] = buffer[i - 1]` over `n` indices down from `i`. -/
def openGap (i : Nat) : Nat → Chars → Chars
  | 0, buffer => buffer
  | n + 1, buffer => openGap (i - 1) n (put buffer i (buffer (i - 1)))

namespace Shell

def emit (s : Shell) (calls : List TerminalCall) : Shell := { s with calls := s.calls ++ calls }

def printPrompt (s : Shell) : Shell :=
  let s := s.emit [.write prompt, .flush, .getCursor]
  match s.positions with
  | [] => s
  | (col, row) :: rest => { s with promptCol := col, promptRow := row, positions := rest }

def redrawLine (s : Shell) : Shell :=
  let s := s.emit [.setCursor s.promptCol s.promptRow]
  let s := if 0 < s.length then s.emit [.write (text s.buffer s.length.toNat)] else s
  s.emit [.putchar charSpace, .setCursor (s.promptCol + s.cursor) s.promptRow, .flush]

/-- The arguments are parsed in a copy of the buffer. -/
def execute (s : Shell) : Shell :=
  let s := { s with buffer := put s.buffer s.length.toNat 0 }
  let s := s.emit [.putchar charNewline]
  let args := (parseArgs s.buffer s.length.toNat shellMaxArgs).1
  let s := { s with executed := s.executed ++ [Executed.mk (text s.buffer s.length.toNat) args] }
  if s.length = 0 then s.printPrompt
  else if args.length = 0 then s.printPrompt
  else { s with length := 0, cursor := 0 }.printPrompt

def backspace (s : Shell) : Shell :=
  if 0 < s.cursor then
    let start := s.cursor.toNat - 1
    let buffer := closeGap start (s.length.toNat - 1 - start) s.buffer
    let s := { s with buffer := buffer, length := s.length - 1, cursor := s.cursor - 1 }
    if s.cursor = s.length then
      s.emit [.putchar charBackspace, .putchar charSpace, .putchar charBackspace, .flush]
    else s.redrawLine
  else s

def delete (s : Shell) : Shell :=
  if s.cursor < s.length then
    let start := s.cursor.toNat
    let buffer := closeGap start (s.length.toNat - 1 - start) s.buffer
    { s with buffer := buffer, length := s.length - 1 }.redrawLine
  else s

def placeCursor (s : Shell) : Shell :=
  s.emit [.setCursor (s.promptCol + s.cursor) s.promptRow, .flush]

def left (s : Shell) : Shell :=
  if 0 < s.cursor then { s with cursor := s.cursor - 1 }.placeCursor else s

def right (s : Shell) : Shell :=
  if s.cursor < s.length then { s with cursor := s.cursor + 1 }.placeCursor else s

def insert (s : Shell) (key : UInt8) : Shell :=
  if 0x20 ≤ key ∧ key ≤ 0x7E ∧ s.length.toNat < shellMaxInput then
    let buffer := openGap s.length.toNat (s.length.toNat - s.cursor.toNat) s.buffer
    let buffer := put buffer s.cursor.toNat key
    let s := { s with buffer := buffer, length := s.length + 1, cursor := s.cursor + 1 }
    if s.cursor = s.length then s.emit [.putchar key, .flush] else s.redrawLine
  else s

/-- One round of `run`. -/
def press (s : Shell) (key : UInt8) : Shell :=
  if key = 0 then s
  else if key = KeyCode.enter then s.execute
  else if key = KeyCode.backspace then s.backspace
  else if key = KeyCode.delete then s.delete
  else if key = KeyCode.leftArrow then s.left
  else if key = KeyCode.rightArrow then s.right
  else s.insert key

end Shell

/-- `run` after the given keys. -/
def run (positions : List (UInt8 × UInt8)) (keys : List UInt8) : Shell :=
  keys.foldl Shell.press (construct positions).printPrompt

end Editing

end CassiOS.Userland.ShellInput
