import CassiOS.Userland.LineEditing
import Mathlib.Data.List.TakeWhile

/-!
# The words of a line

`parseArgs` of the shell with its counters of eight bits and the accesses it makes. It finds
the maximal runs of characters other than blanks, in their order, and cuts the line behind each
of them; when there are more than it may return, it goes on cutting.
-/

namespace CassiOS.Userland.ArgumentWords

open CassiOS.Userland.ShellInput (Chars charSpace put text)

set_option autoImplicit false

/-! ## The loop -/

inductive Access where
  | buf (i : Nat)
  | args (i : Nat)

/-- The variables of `parseArgs`; a pointer into `buf` is an index. -/
structure Parse where
  buf : Chars
  args : Nat → Nat
  argc : UInt8
  inWord : Bool
  accesses : List Access

def isBlank (ch : UInt8) : Bool := ch = charSpace || ch = 0

def Parse.addArg (s : Parse) (i : UInt8) : Parse :=
  { s with
    args := fun k => if k = s.argc.toNat then i.toNat else s.args k
    argc := s.argc + 1
    accesses := s.accesses ++ [Access.args s.argc.toNat] }

def Parse.visit (maxArgs : UInt8) (s : Parse) (i : UInt8) : Parse :=
  let s := { s with accesses := s.accesses ++ [Access.buf i.toNat] }
  if isBlank (s.buf i.toNat) then { s with buf := put s.buf i.toNat 0, inWord := false }
  else if s.inWord then s
  else
    let s := if s.argc < maxArgs then s.addArg i else s
    { s with inWord := true }

/-- The loop; `none` when it has not ended after `fuel` rounds. -/
def parseLoop (len maxArgs : UInt8) : Nat → UInt8 → Parse → Option Parse
  | 0, _, _ => none
  | fuel + 1, i, s =>
      if i ≤ len then parseLoop len maxArgs fuel (i + 1) (s.visit maxArgs i) else some s

def parseArgs (buf : Chars) (len : UInt8) (args : Nat → Nat) (maxArgs : UInt8) : Option Parse :=
  parseLoop len maxArgs 256 0 ⟨buf, args, 0, false, []⟩

/-! ## What the loop has done -/

/-- A word begins at `i`. -/
def begins (buf : Chars) (i : Nat) : Bool :=
  !isBlank (buf i) && (i = 0 || isBlank (buf (i - 1)))

def starts (buf : Chars) (n : Nat) : List Nat := (List.range n).filter (begins buf)

theorem starts_succ (buf : Chars) (n : Nat) :
    starts buf (n + 1) = if begins buf n then starts buf n ++ [n] else starts buf n := by
  cases here : begins buf n <;> simp [starts, List.range_succ, here]

theorem lt_of_starts {buf : Chars} {n k start : Nat} (found : (starts buf n)[k]? = some start) :
    start < n := by
  have member : start ∈ starts buf n := List.mem_of_getElem? found
  simp only [starts, List.mem_filter, List.mem_range] at member
  exact member.1

/-- The positions before `i` have been visited. -/
structure Visited (buf : Chars) (maxArgs : UInt8) (i : Nat) (s : Parse) : Prop where
  cut : ∀ j, s.buf j = if j < i ∧ isBlank (buf j) then 0 else buf j
  count : s.argc.toNat = min (starts buf i).length maxArgs.toNat
  args : ∀ k < s.argc.toNat, (starts buf i)[k]? = some (s.args k)
  inWord : s.inWord = (decide (0 < i) && !isBlank (buf (i - 1)))
  bufAccesses : ∀ j, Access.buf j ∈ s.accesses → j < i
  argsAccesses : ∀ k, Access.args k ∈ s.accesses → k < maxArgs.toNat

section Steps

variable {buf : Chars} {len maxArgs i : UInt8} {s : Parse}

theorem visited_start (buf : Chars) (args : Nat → Nat) (maxArgs : UInt8) :
    Visited buf maxArgs 0 ⟨buf, args, 0, false, []⟩ := by
  constructor <;> simp [starts]

theorem visit_blank (blank : isBlank (s.buf i.toNat) = true) :
    s.visit maxArgs i = { s with
      buf := put s.buf i.toNat 0
      inWord := false
      accesses := s.accesses ++ [Access.buf i.toNat] } := by
  simp [Parse.visit, blank]

theorem visit_inside (char : isBlank (s.buf i.toNat) = false) (inside : s.inWord = true) :
    s.visit maxArgs i = { s with accesses := s.accesses ++ [Access.buf i.toNat] } := by
  simp [Parse.visit, char, inside]

theorem visit_first (char : isBlank (s.buf i.toNat) = false) (outside : s.inWord = false)
    (room : s.argc < maxArgs) :
    s.visit maxArgs i = { s with
      args := fun k => if k = s.argc.toNat then i.toNat else s.args k
      argc := s.argc + 1
      inWord := true
      accesses := s.accesses ++ [Access.buf i.toNat] ++ [Access.args s.argc.toNat] } := by
  simp [Parse.visit, Parse.addArg, char, outside, room]

theorem visit_full (char : isBlank (s.buf i.toNat) = false) (outside : s.inWord = false)
    (full : ¬ s.argc < maxArgs) :
    s.visit maxArgs i = { s with
      inWord := true
      accesses := s.accesses ++ [Access.buf i.toNat] } := by
  simp [Parse.visit, char, outside, full]

namespace Visited

variable (visited : Visited buf maxArgs i.toNat s)

include visited

theorem buf_at : s.buf i.toNat = buf i.toNat := by
  rw [visited.cut, if_neg fun both => Nat.lt_irrefl _ both.1]

theorem begins_iff (char : isBlank (buf i.toNat) = false) :
    begins buf i.toNat = !s.inWord := by
  have word := visited.inWord
  rw [word, begins, char]
  by_cases first : i.toNat = 0
  · simp [first]
  · simp [first, Nat.pos_of_ne_zero first]

theorem cut_char (char : isBlank (buf i.toNat) = false) (j : Nat) :
    s.buf j = if j < i.toNat + 1 ∧ isBlank (buf j) then 0 else buf j := by
  rw [visited.cut]
  by_cases here : j = i.toNat
  · simp [here, char]
  · have same : j < i.toNat + 1 ↔ j < i.toNat := by omega
    simp [same]

theorem buf_access {j : Nat} (access : Access.buf j ∈ s.accesses ++ [Access.buf i.toNat]) :
    j < i.toNat + 1 := by
  simp only [List.mem_append, List.mem_singleton, Access.buf.injEq] at access
  cases access with
  | inl old => exact Nat.lt_succ_of_lt (visited.bufAccesses j old)
  | inr new => exact new ▸ Nat.lt_succ_self _

theorem args_access {k : Nat} (access : Access.args k ∈ s.accesses ++ [Access.buf i.toNat]) :
    k < maxArgs.toNat := by
  simp only [List.mem_append, List.mem_singleton, reduceCtorEq, or_false] at access
  exact visited.argsAccesses k access

theorem visit_of_blank (blank : isBlank (buf i.toNat) = true) :
    Visited buf maxArgs (i.toNat + 1) (s.visit maxArgs i) := by
  have same : starts buf (i.toNat + 1) = starts buf i.toNat := by
    simp [starts_succ, begins, blank]
  rw [visit_blank (by rw [visited.buf_at, blank])]
  constructor
  · intro j
    by_cases here : j = i.toNat
    · simp [put, here, blank]
    · have earlier : j < i.toNat + 1 ↔ j < i.toNat := by omega
      simp [put, here, earlier, visited.cut]
  · simpa [same] using visited.count
  · simpa [same] using visited.args
  · simp [blank]
  · exact fun j => visited.buf_access
  · exact fun k => visited.args_access

theorem visit_of_inside (char : isBlank (buf i.toNat) = false) (inside : s.inWord = true) :
    Visited buf maxArgs (i.toNat + 1) (s.visit maxArgs i) := by
  have same : starts buf (i.toNat + 1) = starts buf i.toNat := by
    simp [starts_succ, visited.begins_iff char, inside]
  rw [visit_inside (by rw [visited.buf_at, char]) inside]
  constructor
  · exact visited.cut_char char
  · simpa [same] using visited.count
  · simpa [same] using visited.args
  · simp [inside, char]
  · exact fun j => visited.buf_access
  · exact fun k => visited.args_access

theorem starts_first (char : isBlank (buf i.toNat) = false) (outside : s.inWord = false) :
    starts buf (i.toNat + 1) = starts buf i.toNat ++ [i.toNat] := by
  simp [starts_succ, visited.begins_iff char, outside]

theorem visit_of_first (char : isBlank (buf i.toNat) = false) (outside : s.inWord = false)
    (room : s.argc < maxArgs) : Visited buf maxArgs (i.toNat + 1) (s.visit maxArgs i) := by
  have more := visited.starts_first char outside
  have count := visited.count
  have below : s.argc.toNat < maxArgs.toNat := UInt8.lt_iff_toNat_lt.1 room
  have all : s.argc.toNat = (starts buf i.toNat).length := by omega
  have next : (s.argc + 1).toNat = s.argc.toNat + 1 := by
    have top : maxArgs.toNat < 256 := maxArgs.toNat_lt
    exact LineEditing.to_nat_succ (by omega)
  rw [visit_first (by rw [visited.buf_at, char]) outside room]
  constructor
  · exact visited.cut_char char
  · rw [more, List.length_append, List.length_singleton]
    dsimp only
    omega
  · intro k found
    dsimp only at found ⊢
    rw [more]
    by_cases last : k = s.argc.toNat
    · simp [last, all]
    · have old : k < s.argc.toNat := by omega
      rw [List.getElem?_append_left (by omega), if_neg last]
      exact visited.args k old
  · simp [char]
  · intro j access
    dsimp only at access
    rw [List.mem_append, List.mem_singleton] at access
    exact visited.buf_access (access.resolve_right nofun)
  · intro k access
    dsimp only at access
    rw [List.mem_append, List.mem_singleton, Access.args.injEq] at access
    cases access with
    | inl old => exact visited.args_access old
    | inr new => exact new ▸ below

/-- Where no argument is left, it opens none. -/
theorem visit_of_full (char : isBlank (buf i.toNat) = false) (outside : s.inWord = false)
    (full : ¬ s.argc < maxArgs) : Visited buf maxArgs (i.toNat + 1) (s.visit maxArgs i) := by
  have more := visited.starts_first char outside
  have count := visited.count
  have top : maxArgs.toNat ≤ s.argc.toNat := by
    rw [UInt8.lt_iff_toNat_lt] at full
    exact Nat.le_of_not_lt full
  rw [visit_full (by rw [visited.buf_at, char]) outside full]
  constructor
  · exact visited.cut_char char
  · rw [more, List.length_append, List.length_singleton]
    dsimp only
    omega
  · intro k found
    dsimp only at found
    rw [more, List.getElem?_append_left (by omega)]
    exact visited.args k found
  · simp [char]
  · exact fun j => visited.buf_access
  · exact fun k => visited.args_access

theorem visit : Visited buf maxArgs (i.toNat + 1) (s.visit maxArgs i) := by
  cases char : isBlank (buf i.toNat) with
  | true => exact visited.visit_of_blank char
  | false =>
      cases word : s.inWord with
      | true => exact visited.visit_of_inside char word
      | false =>
          by_cases room : s.argc < maxArgs
          · exact visited.visit_of_first char word room
          · exact visited.visit_of_full char word room

end Visited

/-- The loop ends, since `len` is not the largest value of its counter. -/
theorem parse_loop_visited (small : len.toNat < 255) {rounds fuel : Nat}
    (left : i.toNat + rounds = len.toNat + 1) (enough : rounds < fuel)
    (visited : Visited buf maxArgs i.toNat s) :
    ∃ s', parseLoop len maxArgs fuel i s = some s' ∧ Visited buf maxArgs (len.toNat + 1) s' := by
  induction rounds generalizing i s fuel with
  | zero =>
      cases fuel with
      | zero => exact absurd enough (Nat.not_lt_zero _)
      | succ fuel =>
          have past : ¬ i ≤ len := by
            rw [UInt8.le_iff_toNat_le]
            omega
          refine ⟨s, by simp [parseLoop, past], ?_⟩
          simpa [← left] using visited
  | succ rounds ih =>
      cases fuel with
      | zero => exact absurd enough (Nat.not_lt_zero _)
      | succ fuel =>
          have more : i ≤ len := by
            rw [UInt8.le_iff_toNat_le]
            omega
          have next : (i + 1).toNat = i.toNat + 1 := LineEditing.to_nat_succ (by omega)
          have visited' : Visited buf maxArgs (i + 1).toNat (s.visit maxArgs i) := by
            rw [next]
            exact visited.visit
          have shorter : rounds < fuel := by omega
          have ⟨s', finished, all⟩ := ih (by omega) shorter visited'
          exact ⟨s', by simpa [parseLoop, more] using finished, all⟩

theorem parse_args_visited (buf : Chars) (args : Nat → Nat) (maxArgs : UInt8)
    (small : len.toNat < 255) :
    ∃ s, parseArgs buf len args maxArgs = some s ∧ Visited buf maxArgs (len.toNat + 1) s := by
  have whole : (0 : UInt8).toNat + (len.toNat + 1) = len.toNat + 1 := by simp
  exact parse_loop_visited small whole (by omega) (visited_start buf args maxArgs)

theorem Visited.args_eq {n : Nat} (visited : Visited buf maxArgs n s) :
    (List.range s.argc.toNat).map s.args = (starts buf n).take maxArgs.toNat := by
  have count := visited.count
  apply List.ext_getElem?
  intro k
  by_cases inside : k < s.argc.toNat
  · have below : k < maxArgs.toNat := by omega
    simp [inside, below, visited.args k inside]
  · have past : ((starts buf n).take maxArgs.toNat).length ≤ k := by
      rw [List.length_take]
      omega
    rw [List.getElem?_eq_none past]
    simp [inside]

theorem parse_from_starts (max n i : Nat) (state : ShellInput.Parsing)
    (rest : ∀ j, i ≤ j → state.buf j = buf j) (found : state.args = (starts buf i).take max)
    (inWord : state.inWord = (decide (0 < i) && !isBlank (buf (i - 1)))) :
    (ShellInput.parseFrom max i n state).args = (starts buf (i + n)).take max := by
  induction n generalizing i state with
  | zero => exact found
  | succ n ih =>
      have here := rest i (Nat.le_refl i)
      have step : i + 1 + n = i + (n + 1) := by omega
      have later : ∀ j, i + 1 ≤ j → state.buf j = buf j := fun j after => rest j (by omega)
      rw [ShellInput.parseFrom, here, ← step]
      cases char : isBlank (buf i) with
      | true =>
          have same : starts buf (i + 1) = starts buf i := by simp [starts_succ, begins, char]
          have blank : buf i = charSpace ∨ buf i = 0 := by simpa [isBlank] using char
          rw [if_pos blank]
          apply ih
          · intro j after
            have apart : j ≠ i := by omega
            simp [put, apart, later j after]
          · rw [same]
            exact found
          · simp [char]
      | false =>
          have visible : ¬ (buf i = charSpace ∨ buf i = 0) := by simpa [isBlank] using char
          have begins_ : begins buf i = !state.inWord := by
            rw [inWord, begins, char]
            by_cases first : i = 0
            · simp [first]
            · simp [first, Nat.pos_of_ne_zero first]
          rw [if_neg visible]
          cases inside : state.inWord with
          | true =>
              have same : starts buf (i + 1) = starts buf i := by
                simp [starts_succ, begins_, inside]
              rw [if_pos rfl]
              apply ih (i + 1) state later
              · rw [same]
                exact found
              · simp [char, inside]
          | false =>
              have more : starts buf (i + 1) = starts buf i ++ [i] := by
                simp [starts_succ, begins_, inside]
              rw [if_neg Bool.false_ne_true]
              apply ih
              · exact later
              · dsimp only
                rw [more, found, List.length_take]
                by_cases room : (starts buf i).length < max
                · rw [if_pos (by omega), List.take_of_length_le (by omega),
                    List.take_of_length_le (by simp; omega)]
                · rw [if_neg (by omega), List.take_append_of_le_length (by omega)]
              · simp [char]

end Steps

/-! ## The words -/

/-- The characters from `start` on up to the next blank. -/
def wordAt (input : List UInt8) (start : Nat) : List UInt8 :=
  (input.drop start).takeWhile (· ≠ charSpace)

def startsRun (input : List UInt8) (i : Nat) : Bool :=
  input[i]? ≠ some charSpace && (i = 0 || input[i - 1]? = some charSpace)

def maximalRuns (input : List UInt8) : List (Nat × List UInt8) :=
  ((List.range input.length).filter (startsRun input)).map fun i => (i, wordAt input i)

structure MaximalRun (input : List UInt8) (start : Nat) (word : List UInt8) : Prop where
  some_ : word ≠ []
  solid : ∀ ch ∈ word, ch ≠ charSpace
  between : ∃ before after, input = before ++ (word ++ after) ∧ before.length = start ∧
    (∀ ch, before.getLast? = some ch → ch = charSpace) ∧
    (∀ ch, after.head? = some ch → ch = charSpace)

section Runs

variable {input word : List UInt8} {start : Nat}

theorem word_at_split (input : List UInt8) (start : Nat) :
    ∃ after, input.drop start = wordAt input start ++ after ∧
      ∀ ch, after.head? = some ch → ch = charSpace := by
  refine ⟨(input.drop start).dropWhile (· ≠ charSpace), ?_, ?_⟩
  · exact List.takeWhile_append_dropWhile.symm
  · intro ch first
    have stop := List.head?_dropWhile_not (fun ch => decide (ch ≠ charSpace)) (input.drop start)
    rw [first] at stop
    simpa using stop

theorem solid_word_at : ∀ ch ∈ wordAt input start, ch ≠ charSpace := by
  intro ch member
  simpa using List.mem_takeWhile_imp member

theorem maximal_run_of_starts (inside : start < input.length) (starts : startsRun input start) :
    MaximalRun input start (wordAt input start) := by
  have ⟨after, split, stop⟩ := word_at_split input start
  simp only [startsRun, Bool.and_eq_true, Bool.or_eq_true, decide_eq_true_eq] at starts
  constructor
  · have first : (input.drop start).head? = input[start]? := List.head?_drop
    intro none
    rw [none, List.nil_append] at split
    rw [split, List.getElem?_eq_getElem inside] at first
    exact starts.1 (by rw [List.getElem?_eq_getElem inside, stop _ first])
  · exact solid_word_at
  · refine ⟨input.take start, after, ?_, List.length_take_of_le (Nat.le_of_lt inside), ?_, stop⟩
    · rw [← split, List.take_append_drop]
    · intro ch last
      cases starts.2 with
      | inl zero => simp [zero] at last
      | inr space =>
          rw [List.getLast?_take] at last
          by_cases zero : start = 0
          · simp [zero] at last
          · simpa [zero, space, eq_comm] using last

theorem starts_of_maximal_run (run : MaximalRun input start word) :
    start < input.length ∧ startsRun input start ∧ wordAt input start = word := by
  have ⟨before, after, split, place, last, next⟩ := run.between
  subst place
  have behind : input.drop before.length = word ++ after := by rw [split, List.drop_left]
  cases shape : word with
  | nil => exact absurd shape run.some_
  | cons ch rest =>
      have first : input[before.length]? = some ch := by
        rw [← List.head?_drop, behind, shape]
        rfl
      have solid : ch ≠ charSpace := run.solid ch (by simp [shape])
      have stops : after.takeWhile (· ≠ charSpace) = [] := by
        cases after with
        | nil => rfl
        | cons stop after => simp [next stop rfl]
      refine ⟨?_, ?_, ?_⟩
      · rw [split, shape]
        simp
      · simp only [startsRun, first, Bool.and_eq_true, Bool.or_eq_true, decide_eq_true_eq]
        refine ⟨fun same => solid (Option.some.inj same), ?_⟩
        cases final : before.getLast? with
        | none =>
            left
            simp [List.getLast?_eq_none_iff.1 final]
        | some ch' =>
            right
            have some_ : 0 < before.length := List.length_pos_of_mem (List.mem_of_getLast? final)
            rw [split, List.getElem?_append_left (by omega), ← List.getLast?_eq_getElem?, final,
              last ch' final]
      · rw [wordAt, behind, List.takeWhile_append_of_pos, stops, List.append_nil, shape]
        intro ch member
        simpa using run.solid ch member

theorem mem_maximal_runs : (start, word) ∈ maximalRuns input ↔ MaximalRun input start word := by
  simp only [maximalRuns, List.mem_map, List.mem_filter, List.mem_range, Prod.mk.injEq]
  constructor
  · intro ⟨i, ⟨inside, starts⟩, here, same⟩
    subst here same
    exact maximal_run_of_starts inside starts
  · intro run
    have ⟨inside, starts, same⟩ := starts_of_maximal_run run
    exact ⟨start, ⟨inside, starts⟩, rfl, same⟩

end Runs

section Buffers

variable {buf buf' : Chars} {n i start : Nat}

/-- The string of the given characters at a position of the buffer. -/
structure StringAt (buf : Chars) (start : Nat) (word : List UInt8) : Prop where
  chars : ∀ i ch, word[i]? = some ch → buf (start + i) = ch
  nonzero : ∀ ch ∈ word, ch ≠ 0
  terminated : buf (start + word.length) = 0

/-- The first NUL of the buffer is at `n`. -/
structure Terminated (buf : Chars) (n : Nat) : Prop where
  before : ∀ i < n, buf i ≠ 0
  here : buf n = 0

theorem text_inside (inside : i < n) : (text buf n)[i]? = some (buf i) := by
  rw [LineEditing.text_at, if_pos inside]

theorem is_blank_iff (terminated : Terminated buf n) (inside : i < n) :
    isBlank (buf i) = decide ((text buf n)[i]? = some charSpace) := by
  rw [text_inside inside]
  simp [isBlank, terminated.before i inside]

theorem begins_eq (terminated : Terminated buf n) (inside : i < n) :
    begins buf i = startsRun (text buf n) i := by
  have here := is_blank_iff terminated inside
  have before := is_blank_iff terminated (show i - 1 < n by omega)
  simp only [begins, startsRun, here, before]
  simp

theorem starts_eq (terminated : Terminated buf n) :
    starts buf (n + 1) = (maximalRuns (text buf n)).map Prod.fst := by
  have last : begins buf n = false := by simp [begins, isBlank, terminated.here]
  have same : starts buf n = (List.range n).filter (startsRun (text buf n)) := by
    apply List.filter_congr
    intro i member
    exact begins_eq terminated (List.mem_range.1 member)
  rw [starts_succ, last, maximalRuns, LineEditing.length_text, same]
  simp [Function.comp_def]

theorem string_at_run {word : List UInt8} (terminated : Terminated buf n)
    (cut : ∀ j, buf' j = if j < n + 1 ∧ isBlank (buf j) then 0 else buf j)
    (run : MaximalRun (text buf n) start word) : StringAt buf' start word := by
  have ⟨before, after, split, place, _, next⟩ := run.between
  subst place
  have total : before.length + (word.length + after.length) = n := by
    have lengths := congrArg List.length split
    simp only [LineEditing.length_text, List.length_append] at lengths
    exact lengths.symm
  have at_ : ∀ i, before.length + i < n →
      (word ++ after)[i]? = some (buf (before.length + i)) := by
    intro i inside
    rw [← text_inside inside, split, List.getElem?_append_right (Nat.le_add_right _ _),
      Nat.add_sub_cancel_left]
  have solid : ∀ i ch, word[i]? = some ch →
      before.length + i < n ∧ buf (before.length + i) = ch := by
    intro i ch found
    have inside : i < word.length := (List.getElem?_eq_some_iff.1 found).1
    have within : before.length + i < n := by omega
    have same := at_ i within
    rw [List.getElem?_append_left inside, found] at same
    exact ⟨within, (Option.some.inj same).symm⟩
  constructor
  · intro i ch found
    have ⟨within, same⟩ := solid i ch found
    have other : isBlank (buf (before.length + i)) = false := by
      have nonzero := terminated.before _ within
      have visible : ch ≠ charSpace := run.solid ch (List.mem_of_getElem? found)
      rw [same] at nonzero ⊢
      simp [isBlank, visible, nonzero]
    rw [cut, other]
    simpa using same
  · intro ch member
    have ⟨i, found⟩ := List.getElem?_of_mem member
    have ⟨within, same⟩ := solid i ch found
    exact same ▸ terminated.before _ within
  · have blank : isBlank (buf (before.length + word.length)) = true := by
      cases after with
      | nil =>
          have last : before.length + word.length = n := by simpa using total
          simp [isBlank, last, terminated.here]
      | cons ch after =>
          rw [List.length_cons] at total
          have same := at_ word.length (by omega)
          rw [List.getElem?_append_right (Nat.le_refl _)] at same
          have space : buf (before.length + word.length) = charSpace := by
            rw [← next ch rfl]
            simpa [eq_comm] using same
          simp [isBlank, space]
    have inside : before.length + word.length < n + 1 := by omega
    simp [cut, blank, inside]

end Buffers

/-- The arguments are the first words of the line. -/
theorem parse_args_words (buf : Chars) (len : UInt8) (args : Nat → Nat) (maxArgs : UInt8)
    (small : len < 255) (terminated : Terminated buf len.toNat) :
    ∃ s, parseArgs buf len args maxArgs = some s ∧
      s.argc.toNat = min (maximalRuns (text buf len.toNat)).length maxArgs.toNat ∧
      (∀ k < s.argc.toNat, ∃ word,
        (maximalRuns (text buf len.toNat))[k]? = some (s.args k, word) ∧
        StringAt s.buf (s.args k) word) ∧
      ∀ i, buf i ≠ charSpace → s.buf i = buf i := by
  have below : len.toNat < 255 := UInt8.lt_iff_toNat_lt.1 small
  have ⟨s, finished, visited⟩ := parse_args_visited buf args maxArgs below
  have starts := starts_eq terminated
  refine ⟨s, finished, ?_, ?_, ?_⟩
  · rw [visited.count, starts, List.length_map]
  · intro k inside
    have found := visited.args k inside
    rw [starts, List.getElem?_map, Option.map_eq_some_iff] at found
    have ⟨(start, word), here, same⟩ := found
    dsimp only at same
    subst same
    have run := mem_maximal_runs.1 (List.mem_of_getElem? here)
    exact ⟨word, here, string_at_run terminated visited.cut run⟩
  · intro i visible
    rw [visited.cut]
    by_cases nul : buf i = 0
    · simp [nul]
    · simp [isBlank, visible, nul]

/-- `ls  a`, with room for one argument. -/
def lsLine : Chars := fun i => [0x6C, 0x73, charSpace, charSpace, 0x61].getD i 0

theorem ls_words : ∃ s, parseArgs lsLine 5 (fun _ => 0) 1 = some s ∧ s.argc.toNat = 1 ∧
    s.buf 2 = 0 ∧ s.buf 4 = 0x61 := by
  have terminated : Terminated lsLine (5 : UInt8).toNat := by
    constructor <;> decide
  have ⟨s, finished, count, words, others⟩ :=
    parse_args_words lsLine 5 (fun _ => 0) 1 (by decide) terminated
  refine ⟨s, finished, count.trans (by decide), ?_, others 4 (by decide)⟩
  have ⟨word, here, string⟩ := words 0 (by rw [count]; decide)
  have first : (maximalRuns (text lsLine (5 : UInt8).toNat))[0]? = some (0, [0x6C, 0x73]) := by
    decide
  rw [first, Option.some.injEq, Prod.mk.injEq] at here
  have ends := string.terminated
  rwa [← here.1, ← here.2] at ends

end CassiOS.Userland.ArgumentWords
