import CassiOS.Fat32.ParentPaths
import CassiOS.Userland.ShellInput

/-!
# Changing directory

`cmdCd` of `userspace/core/shell`, with `resolvePath` and `parentDir`. The shell keeps the path
of its working directory as text: an argument is put behind it, `cd ..` cuts it at the last
slash, and only `stat` asks the file system. The buffers have 64 bytes, and what does not fit
is left out.
-/

namespace CassiOS.Userland.ChangeDirectory

open CassiOS.Fat32.Names
open CassiOS.Fat32.Device
open CassiOS.Fat32.ParentPaths (Split)
open CassiOS.Userland.ShellInput (TerminalCall charNewline)

set_option autoImplicit false

section Source

def shellMaxPath : Nat := 64

/-- `StringView::copyTo`. No caller gives 0 for `max`. -/
def copyTo (src : List UInt8) (max : Nat) : List UInt8 :=
  src.take (if src.length < max - 1 then src.length else max - 1)

/-- The loops of `resolvePath` that copy a string behind `out`. -/
def pushChars (limit : Nat) : List UInt8 → List UInt8 → List UInt8
  | out, [] => out
  | out, c :: rest => if out.length < limit then pushChars limit (out ++ [c]) rest else out

/-- The loop of `parentDir`. -/
def lastSlash (path : List UInt8) : Nat → Nat
  | 0 => 0
  | last + 1 => if path[last + 1]? = some charSlash then last + 1 else lastSlash path last

/-- `"cd: no such directory: "`. -/
def noSuchDirectory : List UInt8 :=
  [0x63, 0x64, 0x3A, 0x20, 0x6E, 0x6F, 0x20, 0x73, 0x75, 0x63, 0x68, 0x20, 0x64, 0x69, 0x72, 0x65,
    0x63, 0x74, 0x6F, 0x72, 0x79, 0x3A, 0x20]

/-- `".."`. -/
def dotDot : List UInt8 := [charDot, charDot]

/-- The file system that the VFS service answers from is part of the state. -/
structure Shell where
  cwd : List UInt8
  fs : Fat32Filesystem
  calls : List TerminalCall

namespace Shell

def resolvePath (cwdPath input : List UInt8) (maxLen : Nat) : List UInt8 :=
  if input.head? = some charSlash then copyTo input maxLen
  else
    let out := pushChars (maxLen - 1) [] cwdPath
    let out := if 1 < cwdPath.length ∧ out.length < maxLen - 1 then out ++ [charSlash] else out
    pushChars (maxLen - 1) out input

def parentDir (path : List UInt8) : List UInt8 :=
  if path.length ≤ 1 then path
  else
    let last := lastSlash path (path.length - 1)
    if last = 0 then path.take 1 else path.take last

def cmdCd (fuel : Nat) (args : List (List UInt8)) (s : Shell) : Option Shell :=
  match args with
  | _ :: arg :: _ =>
      if arg = dotDot then some { s with cwd := parentDir s.cwd }
      else
        let path := resolvePath s.cwd arg shellMaxPath
        match Fat32.Operations.stat fuel path s.fs with
        | none => none
        | some (kind, fs) =>
            if kind ≠ 2 then
              some { s with
                fs := fs
                calls := s.calls ++ [.write noSuchDirectory, .write arg, .putchar charNewline] }
            else some { s with fs := fs, cwd := copyTo path shellMaxPath }
  | _ => some { s with cwd := [charSlash] }

end Shell

end Source

section Text

variable {cwd input path front segment : List UInt8}

/-- The path that an argument stands for, before it is cut. -/
def joined (cwd input : List UInt8) : List UInt8 :=
  if input.head? = some charSlash then input
  else cwd ++ ((if 1 < cwd.length then [charSlash] else []) ++ input)

def kept (cwd input : List UInt8) : List UInt8 := (joined cwd input).take (shellMaxPath - 1)

theorem copy_to_take (src : List UInt8) (max : Nat) : copyTo src max = src.take (max - 1) := by
  unfold copyTo
  by_cases fits : src.length < max - 1
  · rw [if_pos fits, List.take_length, List.take_of_length_le (Nat.le_of_lt fits)]
  · rw [if_neg fits]

theorem push_chars_take (limit : Nat) (src : List UInt8) (out : List UInt8)
    (room : out.length ≤ limit) : pushChars limit out src = (out ++ src).take limit := by
  induction src generalizing out with
  | nil => simp [pushChars, List.take_of_length_le room]
  | cons c rest ih =>
      unfold pushChars
      by_cases more : out.length < limit
      · rw [if_pos more, ih _ (by simp; omega)]
        simp
      · have full : limit = out.length := by omega
        rw [if_neg more, full, List.take_left]

theorem resolve_path_take (cwd input : List UInt8) (maxLen : Nat) :
    Shell.resolvePath cwd input maxLen = (joined cwd input).take (maxLen - 1) := by
  unfold Shell.resolvePath joined
  by_cases absolute : input.head? = some charSlash
  · rw [if_pos absolute, if_pos absolute, copy_to_take]
  rw [if_neg absolute, if_neg absolute]
  have copied : pushChars (maxLen - 1) [] cwd = cwd.take (maxLen - 1) :=
    push_chars_take _ _ _ (Nat.zero_le _)
  have bounded : (cwd.take (maxLen - 1)).length ≤ maxLen - 1 := List.length_take_le _ _
  dsimp only
  rw [copied]
  by_cases fits : cwd.length < maxLen - 1
  · have whole : cwd.take (maxLen - 1) = cwd := List.take_of_length_le (Nat.le_of_lt fits)
    rw [whole] at bounded ⊢
    by_cases below : 1 < cwd.length
    · rw [if_pos ⟨below, fits⟩, if_pos below, push_chars_take _ _ _ (by simp; omega)]
      simp
    · rw [if_neg fun both => below both.1, if_neg below, push_chars_take _ _ _ bounded]
      simp
  · -- the working directory fills the buffer
    have full : (cwd.take (maxLen - 1)).length = maxLen - 1 := by
      rw [List.length_take]
      omega
    rw [if_neg fun both => absurd both.2 (by omega), push_chars_take _ _ _ bounded,
      List.take_append_of_le_length (by omega), List.take_append_of_le_length (by omega),
      List.take_take, Nat.min_self]

theorem copy_kept (cwd input : List UInt8) :
    copyTo (kept cwd input) shellMaxPath = kept cwd input := by
  rw [copy_to_take]
  unfold kept
  rw [List.take_take, Nat.min_self]

theorem cd_cases {fuel : Nat} {name arg : List UInt8} {rest : List (List UInt8)} {s s' : Shell}
    (other : arg ≠ dotDot) (moved : Shell.cmdCd fuel (name :: arg :: rest) s = some s') :
    ∃ kind, Fat32.Operations.stat fuel (kept s.cwd arg) s.fs = some (kind, s'.fs) ∧
      (kind ≠ 2 ∧ s'.cwd = s.cwd ∨ kind = 2 ∧ s'.cwd = kept s.cwd arg) := by
  have path : Shell.resolvePath s.cwd arg shellMaxPath = kept s.cwd arg :=
    resolve_path_take s.cwd arg shellMaxPath
  unfold Shell.cmdCd at moved
  simp only [if_neg other, path] at moved
  cases answer : Fat32.Operations.stat fuel (kept s.cwd arg) s.fs with
  | none => simp [answer] at moved
  | some reply =>
      obtain ⟨kind, fs⟩ := reply
      simp only [answer] at moved
      by_cases directory : kind = 2
      · rw [if_neg (not_not_intro directory)] at moved
        cases moved
        exact ⟨kind, rfl, .inr ⟨directory, copy_kept s.cwd arg⟩⟩
      · rw [if_pos directory] at moved
        cases moved
        exact ⟨kind, rfl, .inl ⟨directory, rfl⟩⟩

theorem cd_moves {fuel : Nat} {name arg : List UInt8} {rest : List (List UInt8)} {s : Shell}
    {fs : Fat32Filesystem} (other : arg ≠ dotDot)
    (found : Fat32.Operations.stat fuel (kept s.cwd arg) s.fs = some (2, fs)) :
    Shell.cmdCd fuel (name :: arg :: rest) s =
      some { s with fs := fs, cwd := kept s.cwd arg } := by
  have path : Shell.resolvePath s.cwd arg shellMaxPath = kept s.cwd arg :=
    resolve_path_take s.cwd arg shellMaxPath
  simp [Shell.cmdCd, other, path, found, copy_kept]

theorem last_slash_split (split : Split path front segment) (k : Nat) (behind : front.length ≤ k)
    (inside : k < path.length) : lastSlash path k = front.length := by
  induction k with
  | zero => exact (Nat.le_zero.1 behind).symm
  | succ k ih =>
      have whole := split.whole
      unfold lastSlash
      by_cases here : front.length = k + 1
      · have slash : path[k + 1]? = some charSlash := by
          rw [whole, ← here]
          simp
        rw [if_pos slash, here]
      · have other : path[k + 1]? ≠ some charSlash := by
          intro slash
          rw [whole, List.getElem?_append_right behind] at slash
          obtain ⟨n, next⟩ : ∃ n, k + 1 - front.length = n + 1 := ⟨k - front.length, by omega⟩
          rw [next, List.getElem?_cons_succ] at slash
          exact split.last (List.mem_of_getElem? slash)
        rw [if_neg other]
        exact ih (by omega) (by omega)

/-- `parentDir` keeps what is in front of the last slash, and at least the first character. -/
theorem parent_dir_split (split : Split path front segment) :
    Shell.parentDir path = if front = [] then [charSlash] else front := by
  have whole := split.whole
  have lengths : path.length = front.length + (segment.length + 1) := by
    rw [whole, List.length_append, List.length_cons]
  unfold Shell.parentDir
  by_cases short : path.length ≤ 1
  · have none : front = [] := List.eq_nil_of_length_eq_zero (by omega)
    have bare : segment = [] := List.eq_nil_of_length_eq_zero (by omega)
    rw [if_pos short, if_pos none, whole, none, bare]
    rfl
  · rw [if_neg short, last_slash_split split _ (by omega) (by omega)]
    by_cases none : front = []
    · simp [none, whole]
    · have behind : front.length ≠ 0 := fun zero => none (List.eq_nil_of_length_eq_zero zero)
      simp only [if_neg behind, if_neg none]
      rw [whole, List.take_left]

end Text

end CassiOS.Userland.ChangeDirectory
