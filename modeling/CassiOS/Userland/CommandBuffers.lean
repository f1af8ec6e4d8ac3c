import CassiOS.Userland.ArgumentWords

/-!
# The buffers of a command

`execute` with its accesses to the line buffer, to the local copy that `parseArgs` cuts into
words, and to the array of arguments. The copy has one byte less than the buffer, so that a
full line does not fit with its NUL.
-/

namespace CassiOS.Userland.CommandBuffers

open CassiOS.Userland.ShellInput
open CassiOS.Userland.LineEditing (Edits)
open CassiOS.Userland.ArgumentWords (Parse Visited starts)

set_option autoImplicit false

def bufferSize : Nat := shellMaxInput + 1
def copySize : Nat := shellMaxInput

inductive Access where
  | buffer (i : Nat)
  | copy (i : Nat)
  | args (i : Nat)

def Access.Inside : Access → Prop
  | .buffer i => i < bufferSize
  | .copy i => i < copySize
  | .args i => i < shellMaxArgs

/-- `parseArgs` is given the copy. -/
def inCopy : ArgumentWords.Access → Access
  | .buf i => .copy i
  | .args i => .args i

/-- What `mem::copy` leaves of `dst`. -/
def copied (dst src : Chars) (n : Nat) : Chars := fun i => if i < n then src i else dst i

/-- The local variables of `execute`, and the accesses it has made. -/
structure Locals where
  copy : Chars
  args : Nat → Nat
  argc : UInt8
  accesses : List Access

/-- `execute` up to the choice of the command. Nothing is stored in its local variables when it
begins. -/
def locals (s : Shell) (copy : Chars) (args : Nat → Nat) : Option Locals :=
  let n := s.length.toNat + 1
  let buffer := put s.buffer s.length.toNat 0
  let accesses := [Access.buffer s.length.toNat]
  if s.length = 0 then some ⟨copy, args, 0, accesses⟩
  else
    let copy := copied copy buffer n
    let accesses := accesses ++ (List.range n).flatMap fun i => [.buffer i, .copy i]
    match ArgumentWords.parseArgs copy s.length args (.ofNat shellMaxArgs) with
    | none => none
    | some parse =>
        let accesses := accesses ++ parse.accesses.map inCopy
        if parse.argc = 0 then some ⟨parse.buf, parse.args, 0, accesses⟩
        else some ⟨parse.buf, parse.args, parse.argc, accesses ++ [.args 0]⟩

/-- Every access is inside, and so is the string of every argument. -/
structure InBounds (l : Locals) : Prop where
  accesses : ∀ access ∈ l.accesses, access.Inside
  strings : ∀ k < l.argc.toNat, ∃ n, l.args k + n < copySize ∧ l.copy (l.args k + n) = 0

/-- Enter in this state; whatever the local variables hold before. -/
def Safe (s : Shell) : Prop :=
  ∀ copy args, ∃ l, locals s copy args = some l ∧ InBounds l

section Executions

variable {s : Shell} {copy : Chars} {args : Nat → Nat} {l : Locals} {parse : Parse}

/-- The copy as `parseArgs` receives it. -/
def handed (s : Shell) (copy : Chars) : Chars :=
  copied copy (put s.buffer s.length.toNat 0) (s.length.toNat + 1)

/-- What `parseArgs` does to the copy. -/
def parsing (s : Shell) (copy : Chars) (args : Nat → Nat) : Option Parse :=
  ArgumentWords.parseArgs (handed s copy) s.length args (.ofNat shellMaxArgs)

theorem locals_empty (empty : s.length = 0) :
    locals s copy args = some ⟨copy, args, 0, [Access.buffer s.length.toNat]⟩ := by
  simp [locals, empty]

theorem locals_parsed (some_ : s.length ≠ 0)
    (parsed : parsing s copy args = some parse) :
    ∃ last, (∀ access ∈ last, access = Access.args 0) ∧
      locals s copy args = some ⟨parse.buf, parse.args, parse.argc,
        Access.buffer s.length.toNat ::
          ((List.range (s.length.toNat + 1)).flatMap fun i => [.buffer i, .copy i]) ++
          parse.accesses.map inCopy ++ last⟩ := by
  unfold parsing handed at parsed
  by_cases none : parse.argc = 0
  · refine ⟨[], nofun, ?_⟩
    simp [locals, some_, parsed, none]
  · refine ⟨[.args 0], by simp, ?_⟩
    simp [locals, some_, parsed, none]

theorem parsing_visited (short : s.length.toNat < 255) (copy : Chars) (args : Nat → Nat) :
    ∃ parse, parsing s copy args = some parse ∧
      Visited (handed s copy) (.ofNat shellMaxArgs) (s.length.toNat + 1) parse :=
  ArgumentWords.parse_args_visited (handed s copy) args (.ofNat shellMaxArgs) short

theorem handed_terminated (s : Shell) (copy : Chars) : handed s copy s.length.toNat = 0 := by
  simp [handed, copied, put]

theorem safe_of_short (short : s.length.toNat < shellMaxInput) : Safe s := by
  unfold shellMaxInput at short
  intro copy args
  have first : (Access.buffer s.length.toNat).Inside := by
    show s.length.toNat < bufferSize
    unfold bufferSize shellMaxInput
    omega
  by_cases empty : s.length = 0
  · refine ⟨_, locals_empty empty, ?_, nofun⟩
    intro access member
    rw [List.mem_singleton] at member
    exact member ▸ first
  have fits : s.length.toNat < 255 := by omega
  have ⟨parse, parsed, visited⟩ := parsing_visited fits copy args
  have ⟨last, zero, all⟩ := locals_parsed empty parsed
  refine ⟨_, all, ?_, ?_⟩
  · intro access member
    simp only [List.mem_append, List.mem_cons, List.mem_flatMap, List.mem_range, List.mem_map,
      List.not_mem_nil, or_false] at member
    rcases member with ((rfl | ⟨i, inside, either⟩) | ⟨access', old, rfl⟩) | final
    · exact first
    · cases either with
      | inl here =>
          subst here
          show i < shellMaxInput + 1
          unfold shellMaxInput
          omega
      | inr here =>
          subst here
          show i < shellMaxInput
          unfold shellMaxInput
          omega
    · cases access' with
      | buf j =>
          have inside := visited.bufAccesses j old
          show j < shellMaxInput
          unfold shellMaxInput
          omega
      | args k => exact visited.argsAccesses k old
    · rw [zero access final]
      show 0 < shellMaxArgs
      decide
  · intro k found
    have before := ArgumentWords.lt_of_starts (visited.args k found)
    have ends : parse.args k + (s.length.toNat - parse.args k) = s.length.toNat := by omega
    refine ⟨s.length.toNat - parse.args k, ?_, ?_⟩
    · dsimp only
      rw [ends]
      exact short
    · dsimp only
      rw [ends, visited.cut, handed_terminated]
      simp

theorem copies_nul (some_ : s.length ≠ 0) (all : locals s copy args = some l) :
    Access.copy s.length.toNat ∈ l.accesses := by
  cases parsed : parsing s copy args with
  | none =>
      unfold parsing handed at parsed
      simp [locals, some_, parsed] at all
  | some parse =>
      have ⟨last, _, all'⟩ := locals_parsed some_ parsed
      rw [all, Option.some.injEq] at all'
      rw [all']
      simp

theorem not_safe_of_full (full : shellMaxInput ≤ s.length.toNat) : ¬ Safe s := by
  intro safe
  have ⟨l, all, inside⟩ := safe (fun _ => 0) (fun _ => 0)
  have some_ : s.length ≠ 0 := by
    intro empty
    rw [empty] at full
    exact absurd full (by decide)
  exact absurd (inside.accesses _ (copies_nul some_ all)) (Nat.not_lt.2 full)

/-- The arguments are those that `execute` is recorded with. -/
theorem locals_arguments (short : s.length.toNat < 255) (some_ : s.length ≠ 0)
    (all : locals s copy args = some l) :
    (List.range l.argc.toNat).map l.args = LineEditing.arguments s := by
  have ⟨parse, parsed, visited⟩ := parsing_visited short copy args
  have ⟨last, _, all'⟩ := locals_parsed some_ parsed
  rw [all, Option.some.injEq] at all'
  have same : starts (handed s copy) (s.length.toNat + 1) =
      starts (put s.buffer s.length.toNat 0) (s.length.toNat + 1) := by
    apply List.filter_congr
    intro i member
    have inside := List.mem_range.1 member
    have before : i - 1 < s.length.toNat + 1 := by omega
    simp [ArgumentWords.begins, handed, copied, inside, before]
  have found : LineEditing.arguments s =
      (starts (put s.buffer s.length.toNat 0) (0 + (s.length.toNat + 1))).take shellMaxArgs :=
    ArgumentWords.parse_from_starts _ _ 0 _ (fun _ _ => rfl) rfl rfl
  rw [found, Nat.zero_add, ← same, all']
  exact visited.args_eq

end Executions

/-- In the states of a run `execute` stays in its buffers exactly when the line is not full. -/
theorem execute_in_bounds_iff (positions : List (UInt8 × UInt8)) (keys : List UInt8) :
    Safe (run positions keys) ↔ (run positions keys).length.toNat < shellMaxInput := by
  constructor
  · intro safe
    by_contra full
    exact not_safe_of_full (Nat.le_of_not_lt full) safe
  · exact safe_of_short

set_option maxRecDepth 4000 in
/-- As many characters as the line takes. -/
theorem full_line_overruns : ¬ Safe (run [] (List.replicate 78 0x61)) :=
  not_safe_of_full (by decide)

end CassiOS.Userland.CommandBuffers
