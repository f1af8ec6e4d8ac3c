import Mathlib.Data.List.Chain
import Mathlib.Tactic.Common

/-!
# Block lists that tile a region

A first-fit allocator seen as a list of blocks, each a header of `header` bytes followed
by its payload. `Tiles header lo blocks hi` says that the blocks cover `[lo, hi)` without
gap or overlap, and `Separated` that no two neighbours are both free. `fit` splits the
first block that is large enough, `coalesce` joins neighbouring free blocks and `grow`
appends free space at the end.
-/

namespace CassiOS.Support.Tiling

set_option autoImplicit false

structure Block where
  address : Nat
  size : Nat
  free : Bool
deriving DecidableEq

def Tiles (header : Nat) : Nat → List Block → Nat → Prop
  | lo, [], hi => lo = hi
  | lo, b :: rest, hi => b.address = lo ∧ Tiles header (lo + header + b.size) rest hi

def Separated (blocks : List Block) : Prop :=
  blocks.IsChain fun a b => a.free = false ∨ b.free = false

section Tilings

variable {header lo hi : Nat}

theorem tiles_append {xs ys : List Block} :
    Tiles header lo (xs ++ ys) hi ↔ ∃ mid, Tiles header lo xs mid ∧ Tiles header mid ys hi := by
  induction xs generalizing lo with
  | nil =>
      constructor
      · intro tiles
        exact ⟨lo, rfl, tiles⟩
      · rintro ⟨_, rfl, tiles⟩
        exact tiles
  | cons b rest ih =>
      simp only [List.cons_append, Tiles, ih]
      constructor
      · rintro ⟨start, mid, first, second⟩
        exact ⟨mid, ⟨start, first⟩, second⟩
      · rintro ⟨mid, ⟨start, first⟩, second⟩
        exact ⟨start, mid, first, second⟩

theorem tiles_le {blocks : List Block} (tiles : Tiles header lo blocks hi) : lo ≤ hi := by
  induction blocks generalizing lo with
  | nil => exact Nat.le_of_eq tiles
  | cons b rest ih =>
      have onward := ih tiles.2
      omega

theorem tiles_member {blocks : List Block} (tiles : Tiles header lo blocks hi) {b : Block}
    (member : b ∈ blocks) : lo ≤ b.address ∧ b.address + header + b.size ≤ hi := by
  induction blocks generalizing lo with
  | nil => cases member
  | cons c rest ih =>
      obtain ⟨start, onward⟩ := tiles
      rcases List.mem_cons.1 member with rfl | later
      · have bound := tiles_le onward
        omega
      · have inside := ih onward later
        omega

theorem tiles_apart {blocks : List Block} (tiles : Tiles header lo blocks hi) {a b : Block}
    (memberA : a ∈ blocks) (memberB : b ∈ blocks) (distinct : a ≠ b) :
    a.address + header + a.size ≤ b.address ∨ b.address + header + b.size ≤ a.address := by
  induction blocks generalizing lo with
  | nil => cases memberA
  | cons c rest ih =>
      obtain ⟨start, onward⟩ := tiles
      rcases List.mem_cons.1 memberA with rfl | laterA <;>
        rcases List.mem_cons.1 memberB with rfl | laterB
      · exact absurd rfl distinct
      · have inside := tiles_member onward laterB
        omega
      · have inside := tiles_member onward laterA
        omega
      · exact ih onward laterA laterB

theorem tiles_unique {blocks : List Block} (tiles : Tiles header lo blocks hi) {a b : Block}
    (width : 0 < header) (memberA : a ∈ blocks) (memberB : b ∈ blocks)
    (same : a.address = b.address) : a = b := by
  by_contra distinct
  have apart := tiles_apart tiles memberA memberB distinct
  omega

theorem tiles_length {blocks : List Block} (tiles : Tiles header lo blocks hi)
    (width : 0 < header) : blocks.length ≤ hi - lo := by
  induction blocks generalizing lo with
  | nil => exact Nat.zero_le _
  | cons b rest ih =>
      have shorter := ih tiles.2
      have bound := tiles_le tiles.2
      rw [List.length_cons]
      omega

/-- A tiling stays one when a block is replaced by blocks that tile its place. -/
theorem tiles_replace {pre post : List Block} (mid : List Block) {b : Block}
    (tiles : Tiles header lo (pre ++ b :: post) hi)
    (fills : Tiles header b.address mid (b.address + header + b.size)) :
    Tiles header lo (pre ++ (mid ++ post)) hi := by
  obtain ⟨_, before, start, after⟩ := tiles_append.1 tiles
  subst start
  exact tiles_append.2 ⟨b.address, before, tiles_append.2 ⟨_, fills, after⟩⟩

theorem mem_replace {pre post : List Block} (mid : List Block) {b u : Block}
    (member : u ∈ pre ++ b :: post) (other : u ≠ b) : u ∈ pre ++ (mid ++ post) := by
  rcases List.mem_append.1 member with before | behind
  · exact List.mem_append_left _ before
  · rcases List.mem_cons.1 behind with same | behind
    · exact absurd same other
    · exact List.mem_append_right _ (List.mem_append_right _ behind)

theorem mem_of_replaced {pre post : List Block} (mid : List Block) (b : Block) {u : Block}
    (member : u ∈ pre ++ (mid ++ post)) : u ∈ pre ++ b :: post ∨ u ∈ mid := by
  rcases List.mem_append.1 member with before | behind
  · exact .inl (List.mem_append_left _ before)
  · rcases List.mem_append.1 behind with new | behind
    · exact .inr new
    · exact .inl (List.mem_append_right _ (List.mem_cons_of_mem _ behind))

end Tilings

section Fit

variable {header least need : Nat}

/-- First fit: the address of the block taken and the list afterwards. The rest of the
block becomes a free one when it has at least `least` bytes. -/
def fit (header least need : Nat) : List Block → Option (Nat × List Block)
  | [] => none
  | b :: rest =>
      if b.free && decide (need ≤ b.size) then
        some (b.address,
          if least ≤ b.size - need then
            ⟨b.address, need, false⟩ ::
              ⟨b.address + header + need, b.size - need - header, true⟩ :: rest
          else ⟨b.address, b.size, false⟩ :: rest)
      else (fit header least need rest).map fun taken => (taken.1, b :: taken.2)

def taken (header least need : Nat) (b : Block) : List Block :=
  if least ≤ b.size - need then
    [⟨b.address, need, false⟩, ⟨b.address + header + need, b.size - need - header, true⟩]
  else [⟨b.address, b.size, false⟩]

theorem fit_cases {blocks blocks' : List Block} {address : Nat}
    (found : fit header least need blocks = some (address, blocks')) :
    ∃ pre b post, blocks = pre ++ b :: post ∧ b.free = true ∧ need ≤ b.size ∧
      address = b.address ∧ blocks' = pre ++ (taken header least need b ++ post) := by
  induction blocks generalizing blocks' with
  | nil => cases found
  | cons b rest ih =>
      unfold fit at found
      split at found
      · next fits =>
        simp only [Bool.and_eq_true, decide_eq_true_eq] at fits
        cases found
        refine ⟨[], b, rest, rfl, fits.1, fits.2, rfl, ?_⟩
        unfold taken
        split
        · rfl
        · rfl
      · obtain ⟨⟨address', rest'⟩, inner, same⟩ := Option.map_eq_some_iff.1 found
        cases same
        obtain ⟨pre, c, post, split, free, large, at_, after⟩ := ih inner
        exact ⟨b :: pre, c, post, by rw [split]; rfl, free, large, at_, by rw [after]; rfl⟩

theorem fit_none {blocks : List Block} (none : fit header least need blocks = none) :
    ∀ b ∈ blocks, b.free = true → b.size < need := by
  induction blocks with
  | nil => exact nofun
  | cons c rest ih =>
      unfold fit at none
      split at none
      · cases none
      · next misfit =>
        simp only [Bool.and_eq_true, decide_eq_true_eq, not_and, Nat.not_le] at misfit
        intro b member free
        rcases List.mem_cons.1 member with rfl | later
        · exact misfit free
        · exact ih (Option.map_eq_none_iff.1 none) b later free

theorem tiles_taken {b : Block} (roomy : header ≤ least) (large : need ≤ b.size) :
    Tiles header b.address (taken header least need b) (b.address + header + b.size) := by
  unfold taken
  split
  · next wide =>
    refine ⟨rfl, rfl, ?_⟩
    change b.address + header + need + header + (b.size - need - header) = _
    omega
  · exact ⟨rfl, rfl⟩

theorem taken_used (header least : Nat) (b : Block) (large : need ≤ b.size) :
    ∃ size, need ≤ size ∧ ⟨b.address, size, false⟩ ∈ taken header least need b ∧
      ∀ u ∈ taken header least need b, u.free = false → u = ⟨b.address, size, false⟩ := by
  unfold taken
  split
  · refine ⟨need, le_refl _, List.mem_cons_self, ?_⟩
    intro u member used
    rcases List.mem_cons.1 member with rfl | member
    · rfl
    · rw [List.mem_singleton.1 member] at used
      cases used
  · refine ⟨b.size, large, List.mem_cons_self, ?_⟩
    intro u member _
    exact List.mem_singleton.1 member

theorem tiles_fit {lo hi address : Nat} {blocks blocks' : List Block} (roomy : header ≤ least)
    (tiles : Tiles header lo blocks hi)
    (found : fit header least need blocks = some (address, blocks')) :
    Tiles header lo blocks' hi := by
  obtain ⟨pre, b, post, rfl, _, large, _, rfl⟩ := fit_cases found
  exact tiles_replace _ tiles (tiles_taken roomy large)

theorem separated_taken {pre post : List Block} {b : Block} (free : b.free = true)
    (separated : Separated (pre ++ b :: post)) :
    Separated (pre ++ (taken header least need b ++ post)) := by
  obtain ⟨before, after, _⟩ := List.isChain_append.1 separated
  obtain ⟨next, rest⟩ := List.isChain_cons.1 after
  have behind : ∀ c ∈ post.head?, c.free = false := by
    intro c head
    rcases next c head with used | used
    · rw [free] at used
      cases used
    · exact used
  refine List.isChain_append.2 ⟨before, ?_, ?_⟩
  · unfold taken
    split
    · refine List.isChain_cons_cons.2 ⟨.inl rfl, List.isChain_cons.2 ⟨?_, rest⟩⟩
      intro c head
      exact .inr (behind c head)
    · exact List.isChain_cons.2 ⟨fun c _ => .inl rfl, rest⟩
  · intro a _ c head
    right
    unfold taken at head
    split at head
    · cases head
      rfl
    · cases head
      rfl

end Fit

section Coalesce

variable {header lo hi : Nat}

/-- Joins free neighbours from block `b` on. -/
def coalesceFrom (header : Nat) (b : Block) : List Block → List Block
  | [] => [b]
  | c :: rest =>
      if b.free && c.free then
        coalesceFrom header ⟨b.address, b.size + (header + c.size), true⟩ rest
      else b :: coalesceFrom header c rest

def coalesce (header : Nat) : List Block → List Block
  | [] => []
  | b :: rest => coalesceFrom header b rest

theorem tiles_coalesce_from {b : Block} {rest : List Block}
    (tiles : Tiles header lo (b :: rest) hi) :
    Tiles header lo (coalesceFrom header b rest) hi := by
  induction rest generalizing lo b with
  | nil => exact tiles
  | cons c rest ih =>
      obtain ⟨start, next, onward⟩ := tiles
      unfold coalesceFrom
      split
      · refine ih ⟨start, ?_⟩
        have joined : lo + header + (b.size + (header + c.size)) =
            lo + header + b.size + header + c.size := by omega
        rw [joined]
        exact onward
      · exact ⟨start, ih ⟨next, onward⟩⟩

theorem tiles_coalesce {blocks : List Block} (tiles : Tiles header lo blocks hi) :
    Tiles header lo (coalesce header blocks) hi := by
  cases blocks with
  | nil => exact tiles
  | cons b rest => exact tiles_coalesce_from tiles

theorem coalesce_from_head (header : Nat) (b : Block) (rest : List Block) :
    ∃ size rest', coalesceFrom header b rest = ⟨b.address, size, b.free⟩ :: rest' := by
  induction rest generalizing b with
  | nil => exact ⟨b.size, [], rfl⟩
  | cons c rest ih =>
      unfold coalesceFrom
      split
      · next both =>
        obtain ⟨size, rest', same⟩ := ih ⟨b.address, b.size + (header + c.size), true⟩
        simp only [Bool.and_eq_true] at both
        rw [same, both.1]
        exact ⟨size, rest', rfl⟩
      · exact ⟨b.size, coalesceFrom header c rest, rfl⟩

theorem coalesce_from_covers {b u : Block} {rest : List Block}
    (tiles : Tiles header lo (b :: rest) hi) (member : u ∈ b :: rest) (free : u.free = true) :
    ∃ c ∈ coalesceFrom header b rest, c.free = true ∧ c.address ≤ u.address ∧
      u.address + header + u.size ≤ c.address + header + c.size := by
  induction rest generalizing lo b u with
  | nil => exact ⟨u, member, free, le_refl _, le_refl _⟩
  | cons d rest ih =>
      obtain ⟨start, next, onward⟩ := tiles
      unfold coalesceFrom
      split
      · have joined : Tiles header lo (⟨b.address, b.size + (header + d.size), true⟩ :: rest) hi := by
          refine ⟨start, ?_⟩
          have sum : lo + header + (b.size + (header + d.size)) =
              lo + header + b.size + header + d.size := by omega
          rw [sum]
          exact onward
        have first : (⟨b.address, b.size + (header + d.size), true⟩ : Block) ∈
            ⟨b.address, b.size + (header + d.size), true⟩ :: rest := List.mem_cons_self
        rcases List.mem_cons.1 member with rfl | later
        · obtain ⟨c, inside, freeC, low, high⟩ := ih joined first rfl
          dsimp only at low high
          exact ⟨c, inside, freeC, low, by omega⟩
        · rcases List.mem_cons.1 later with rfl | later
          · obtain ⟨c, inside, freeC, low, high⟩ := ih joined first rfl
            dsimp only at low high
            exact ⟨c, inside, freeC, by omega, by omega⟩
          · exact ih joined (List.mem_cons_of_mem _ later) free
      · rcases List.mem_cons.1 member with rfl | later
        · exact ⟨u, List.mem_cons_self, free, le_refl _, le_refl _⟩
        · obtain ⟨c, inside, rest⟩ := ih ⟨next, onward⟩ later free
          exact ⟨c, List.mem_cons_of_mem _ inside, rest⟩

theorem coalesce_covers {u : Block} {blocks : List Block} (tiles : Tiles header lo blocks hi)
    (member : u ∈ blocks) (free : u.free = true) :
    ∃ c ∈ coalesce header blocks, c.free = true ∧ c.address ≤ u.address ∧
      u.address + header + u.size ≤ c.address + header + c.size := by
  cases blocks with
  | nil => cases member
  | cons b rest => exact coalesce_from_covers tiles member free

theorem separated_coalesce_from (b : Block) (rest : List Block) :
    Separated (coalesceFrom header b rest) := by
  induction rest generalizing b with
  | nil => exact List.isChain_singleton b
  | cons c rest ih =>
      unfold coalesceFrom
      split
      · exact ih _
      · next apart =>
        refine List.isChain_cons.2 ⟨?_, ih c⟩
        intro d head
        obtain ⟨size, rest', same⟩ := coalesce_from_head header c rest
        rw [same] at head
        cases head
        simp only [Bool.and_eq_true, not_and, Bool.not_eq_true] at apart
        cases first : b.free with
        | false => exact .inl rfl
        | true => exact .inr (apart first)

theorem separated_coalesce (blocks : List Block) : Separated (coalesce header blocks) := by
  cases blocks with
  | nil => exact List.isChain_nil
  | cons b rest => exact separated_coalesce_from b rest

/-- The blocks in use are the same ones as before. -/
theorem mem_coalesce_from {b u : Block} {rest : List Block} (used : u.free = false) :
    u ∈ coalesceFrom header b rest ↔ u ∈ b :: rest := by
  induction rest generalizing b with
  | nil => exact Iff.rfl
  | cons c rest ih =>
      unfold coalesceFrom
      split
      · next both =>
        simp only [Bool.and_eq_true] at both
        have notB : u ≠ b := by
          rintro rfl
          rw [used] at both
          cases both.1
        have notC : u ≠ c := by
          rintro rfl
          rw [used] at both
          cases both.2
        have notJoined : u ≠ ⟨b.address, b.size + (header + c.size), true⟩ := by
          rintro rfl
          cases used
        rw [ih]
        simp only [List.mem_cons, notB, notC, notJoined, false_or]
      · rw [List.mem_cons, ih, List.mem_cons (b := b)]

theorem mem_coalesce {u : Block} {blocks : List Block} (used : u.free = false) :
    u ∈ coalesce header blocks ↔ u ∈ blocks := by
  cases blocks with
  | nil => exact Iff.rfl
  | cons b rest => exact mem_coalesce_from used

theorem all_coalesce {P : Block → Prop} {blocks : List Block}
    (join : ∀ b c, P b → P c → P ⟨b.address, b.size + (header + c.size), true⟩)
    (all : ∀ b ∈ blocks, P b) : ∀ b ∈ coalesce header blocks, P b := by
  have walk : ∀ (rest : List Block) (b : Block), P b → (∀ c ∈ rest, P c) →
      ∀ d ∈ coalesceFrom header b rest, P d := by
    intro rest
    induction rest with
    | nil =>
        intro b first _ d member
        rw [List.mem_singleton.1 member]
        exact first
    | cons c rest ih =>
        intro b first others
        have next := others c List.mem_cons_self
        have later : ∀ d ∈ rest, P d := fun d member => others d (List.mem_cons_of_mem _ member)
        unfold coalesceFrom
        split
        · exact ih _ (join b c first next) later
        · intro d member
          rcases List.mem_cons.1 member with rfl | member
          · exact first
          · exact ih c next later d member
  cases blocks with
  | nil => exact all
  | cons b rest =>
      exact walk rest b (all b List.mem_cons_self) fun c member =>
        all c (List.mem_cons_of_mem _ member)

end Coalesce

section Grow

variable {header lo hi extra : Nat}

/-- `extra` bytes more at the end, in the last block when it is free. -/
def grow (header extra : Nat) : List Block → List Block
  | [] => []
  | [b] =>
      if b.free then [⟨b.address, b.size + extra, true⟩]
      else [b, ⟨b.address + header + b.size, extra - header, true⟩]
  | b :: c :: rest => b :: grow header extra (c :: rest)

theorem tiles_grow {b : Block} {rest : List Block} (roomy : header ≤ extra)
    (tiles : Tiles header lo (b :: rest) hi) :
    Tiles header lo (grow header extra (b :: rest)) (hi + extra) := by
  induction rest generalizing lo b with
  | nil =>
      obtain ⟨start, finish⟩ := tiles
      have last : lo + header + b.size = hi := finish
      unfold grow
      split
      · refine ⟨start, ?_⟩
        change lo + header + (b.size + extra) = hi + extra
        omega
      · refine ⟨start, by rw [start], ?_⟩
        change lo + header + b.size + header + (extra - header) = hi + extra
        omega
  | cons c rest ih =>
      obtain ⟨start, onward⟩ := tiles
      exact ⟨start, ih onward⟩

theorem grow_head (header extra : Nat) (b : Block) (rest : List Block) :
    ∃ size rest', grow header extra (b :: rest) = ⟨b.address, size, b.free⟩ :: rest' := by
  cases rest with
  | nil =>
      unfold grow
      split
      · next free => exact ⟨_, [], by rw [free]⟩
      · exact ⟨b.size, _, rfl⟩
  | cons c rest => exact ⟨b.size, grow header extra (c :: rest), rfl⟩

theorem separated_grow {b : Block} {rest : List Block} (separated : Separated (b :: rest)) :
    Separated (grow header extra (b :: rest)) := by
  induction rest generalizing b with
  | nil =>
      unfold grow
      split
      · exact List.isChain_singleton _
      · next used =>
        exact List.isChain_cons_cons.2 ⟨.inl (by simpa using used), List.isChain_singleton _⟩
  | cons c rest ih =>
      obtain ⟨apart, onward⟩ := List.isChain_cons_cons.1 separated
      refine List.isChain_cons.2 ⟨?_, ih onward⟩
      intro d head
      obtain ⟨size, rest', same⟩ := grow_head header extra c rest
      change d ∈ (grow header extra (c :: rest)).head? at head
      rw [same] at head
      cases head
      exact apart

theorem mem_grow {b u : Block} {rest : List Block} (used : u.free = false) :
    u ∈ grow header extra (b :: rest) ↔ u ∈ b :: rest := by
  induction rest generalizing b with
  | nil =>
      unfold grow
      split
      · next free =>
        have notOld : u ≠ b := by
          rintro rfl
          rw [used] at free
          cases free
        have notNew : u ≠ ⟨b.address, b.size + extra, true⟩ := by
          rintro rfl
          cases used
        simp only [List.mem_singleton, notOld, notNew]
      · have notNew : u ≠ ⟨b.address + header + b.size, extra - header, true⟩ := by
          rintro rfl
          cases used
        simp only [List.mem_cons, notNew, List.not_mem_nil, or_false]
  | cons c rest ih =>
      have tail : u ∈ grow header extra (b :: c :: rest) ↔
          u = b ∨ u ∈ grow header extra (c :: rest) := List.mem_cons
      rw [tail, ih, List.mem_cons (b := b)]

theorem all_grow {P : Block → Prop} {b : Block} {rest : List Block}
    (larger : ∀ b, P b → P ⟨b.address, b.size + extra, true⟩)
    (behind : ∀ b, P b → P ⟨b.address + header + b.size, extra - header, true⟩)
    (all : ∀ c ∈ b :: rest, P c) : ∀ c ∈ grow header extra (b :: rest), P c := by
  induction rest generalizing b with
  | nil =>
      have first := all b List.mem_cons_self
      intro c member
      unfold grow at member
      split at member
      · rw [List.mem_singleton.1 member]
        exact larger b first
      · rcases List.mem_cons.1 member with rfl | member
        · exact first
        · rw [List.mem_singleton.1 member]
          exact behind b first
  | cons d rest ih =>
      intro c member
      change c ∈ b :: grow header extra (d :: rest) at member
      rcases List.mem_cons.1 member with rfl | member
      · exact all c List.mem_cons_self
      · exact ih (fun x inside => all x (List.mem_cons_of_mem _ inside)) c member

end Grow

theorem separated_all_free {b : Block} {rest : List Block} (separated : Separated (b :: rest))
    (free : ∀ c ∈ b :: rest, c.free = true) : rest = [] := by
  cases rest with
  | nil => rfl
  | cons c rest =>
      obtain ⟨apart, _⟩ := List.isChain_cons_cons.1 separated
      have first := free b List.mem_cons_self
      have second := free c (List.mem_cons_of_mem _ List.mem_cons_self)
      rw [first, second] at apart
      rcases apart with impossible | impossible
      · cases impossible
      · cases impossible

end CassiOS.Support.Tiling
