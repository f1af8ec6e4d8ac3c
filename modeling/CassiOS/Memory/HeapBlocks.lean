import CassiOS.Memory.Heap
import CassiOS.Support.Tiling

/-!
# The block list behind the headers

`Linked m p blocks` reads a list of blocks off the headers in memory. Over it the
allocator's walks are the operations of `Support.Tiling`, and they write headers only.
-/

namespace CassiOS.Memory.HeapBlocks

open CassiOS.Support.Words
open CassiOS.Support.Tiling
open CassiOS.Memory.Heap

set_option autoImplicit false

/-- The headers from address `p` on describe `blocks`, and the last one ends the list. -/
def Linked (m : Cells) : Nat → List Block → Prop
  | p, [] => p = 0
  | p, b :: rest =>
      p = b.address ∧ blockSize m p = b.size ∧ blockFree m p = b.free ∧
        Linked m (blockNext m p) rest

def InHeader (blocks : List Block) (a : Nat) : Prop :=
  ∃ b ∈ blocks, b.address ≤ a ∧ a < b.address + headerSize

/-- The address is that of the size or the link of one of the blocks: what joining writes. -/
def JoinWord (blocks : List Block) (a : Nat) : Prop :=
  ∃ b ∈ blocks, a = b.address ∨ a = b.address + 8

section Cells

theorem put_same (m : Cells) (a v : Nat) : put m a v a = v := if_pos rfl

theorem put_other (m : Cells) {a address : Nat} (v : Nat) (apart : a ≠ address) :
    put m address v a = m a := if_neg apart

theorem block_free_of_cell {m : Cells} {block : Nat} (word : Nat) (flag : Bool)
    (cell : m (block + 4) = word / 256 * 256 + flag.toNat) : blockFree m block = flag := by
  unfold blockFree
  rw [cell]
  cases flag with
  | false =>
      have low : (word / 256 * 256 + false.toNat) % 256 = 0 := by
        simp only [Bool.toNat_false]
        omega
      rw [low]
      rfl
  | true =>
      have low : (word / 256 * 256 + true.toNat) % 256 = 1 := by
        simp only [Bool.toNat_true]
        omega
      rw [low]
      rfl

theorem linked_frame {m m' : Cells} {p : Nat} {blocks : List Block} (linked : Linked m p blocks)
    (same : ∀ a, InHeader blocks a → m' a = m a) : Linked m' p blocks := by
  induction blocks generalizing p with
  | nil => exact linked
  | cons b rest ih =>
      obtain ⟨start, size, free, onward⟩ := linked
      subst start
      have here : ∀ k, k < headerSize → m' (b.address + k) = m (b.address + k) := by
        intro k inside
        apply same
        exact ⟨b, List.mem_cons_self, Nat.le_add_right _ _, Nat.add_lt_add_left inside _⟩
      have next : blockNext m' b.address = blockNext m b.address := here 8 (by decide)
      refine ⟨rfl, ?_, ?_, ?_⟩
      · exact (here 0 (by decide)).trans size
      · unfold blockFree at free ⊢
        rw [here 4 (by decide)]
        exact free
      · rw [next]
        apply ih onward
        rintro a ⟨c, member, inside⟩
        exact same a ⟨c, List.mem_cons_of_mem _ member, inside⟩

/-- In front of blocks that were changed elsewhere a block is as it was. -/
theorem linked_cons_of_rest {m m' : Cells} {lo hi : Nat} {b : Block} {rest rest' : List Block}
    (touched : Nat → Prop) (linked : Linked m b.address (b :: rest))
    (tiles : Tiles headerSize lo (b :: rest') hi)
    (changed : Linked m' (blockNext m b.address) rest')
    (within : ∀ a, touched a → lo + headerSize + b.size ≤ a)
    (frame : ∀ a, ¬ touched a → m' a = m a) : Linked m' b.address (b :: rest') := by
  obtain ⟨_, size, free, _⟩ := linked
  have start := tiles.1
  have here : ∀ k, k < headerSize → m' (b.address + k) = m (b.address + k) := by
    intro k inside
    apply frame
    intro touch
    have behind := within _ touch
    omega
  have next : blockNext m' b.address = blockNext m b.address := here 8 (by decide)
  refine ⟨rfl, (here 0 (by decide)).trans size, ?_, ?_⟩
  · unfold blockFree at free ⊢
    rw [here 4 (by decide)]
    exact free
  · rw [next]
    exact changed

theorem linked_member {m : Cells} {p : Nat} {b : Block} {blocks : List Block}
    (linked : Linked m p blocks) (member : b ∈ blocks) : blockFree m b.address = b.free := by
  induction blocks generalizing p with
  | nil => cases member
  | cons c rest ih =>
      obtain ⟨start, _, free, onward⟩ := linked
      rcases List.mem_cons.1 member with rfl | later
      · rw [← start]
        exact free
      · exact ih onward later

theorem linked_size {m : Cells} {p : Nat} {b : Block} {blocks : List Block}
    (linked : Linked m p blocks) (member : b ∈ blocks) : blockSize m b.address = b.size := by
  induction blocks generalizing p with
  | nil => cases member
  | cons c rest ih =>
      obtain ⟨start, size, _, onward⟩ := linked
      rcases List.mem_cons.1 member with rfl | later
      · rw [← start]
        exact size
      · exact ih onward later

theorem in_header_bounds {lo hi a : Nat} {blocks : List Block}
    (tiles : Tiles headerSize lo blocks hi) (inside : InHeader blocks a) : lo ≤ a ∧ a < hi := by
  obtain ⟨b, member, low, high⟩ := inside
  have bounds := tiles_member tiles member
  omega

theorem in_header_of_join_word {blocks : List Block} {a : Nat} (word : JoinWord blocks a) :
    InHeader blocks a := by
  obtain ⟨b, member, place⟩ := word
  refine ⟨b, member, ?_⟩
  unfold headerSize
  omega

end Cells

section Construct

variable {base length : Nat} {m : Cells}

def newBlock (base size : Nat) (m : Cells) : Cells :=
  setNext (setFree (setSize m base size) base true) base 0

theorem construct_eq (nonNull : 0 < base) (large : headerSize < length) :
    construct base length m =
      (⟨base, base, u32 (base + length)⟩, newBlock base (length - headerSize) m) :=
  if_neg (by omega)

theorem new_block_linked (base size : Nat) (m : Cells) :
    Linked (newBlock base size m) base [⟨base, size, true⟩] := by
  unfold newBlock
  refine ⟨rfl, ?_, ?_, ?_⟩
  · simp (disch := omega) only [blockSize, setSize, setFree, setNext, put_same, put_other]
  · apply block_free_of_cell (m (base + 4)) true
    simp (disch := omega) only [setSize, setFree, setNext, put_same, put_other]
  · exact put_same _ _ _

end Construct

section Allocate

variable {need lo hi : Nat} {m : Cells}

theorem take_block_linked {b : Block} {rest : List Block}
    (linked : Linked m b.address (b :: rest)) (tiles : Tiles headerSize lo (b :: rest) hi)
    (top : hi ≤ 4294967296) (large : need ≤ b.size) :
    Linked (takeBlock need b.address m) b.address
        (taken headerSize minBlockSize need b ++ rest) ∧
      ∀ a, ¬ InHeader (taken headerSize minBlockSize need b) a →
        takeBlock need b.address m a = m a := by
  obtain ⟨_, size, _, onward⟩ := linked
  have bound := (tiles_member tiles List.mem_cons_self).2
  have behind := tiles.2
  unfold headerSize at bound
  have start := tiles.1
  unfold takeBlock taken
  simp only [size]
  by_cases wide : minBlockSize ≤ b.size - need
  · have newBlock : u32 (b.address + headerSize + need) = b.address + headerSize + need := by
      have room := wide
      apply u32_of_lt
      unfold minBlockSize headerSize at room
      unfold headerSize
      omega
    simp only [if_pos wide, newBlock]
    unfold headerSize
    generalize atNew : b.address + 12 + need = n
    refine ⟨⟨rfl, ?_, ?_, ?_⟩, ?_⟩
    · simp (disch := omega) only [blockSize, setFree, setNext, setSize, put_same, put_other]
    · exact block_free_of_cell _ false (put_same _ _ _)
    · have toNew : blockNext (setFree (setNext (setSize (setNext (setFree (setSize m n
          (b.size - need - 12)) n true) n (blockNext (setFree (setSize m n (b.size - need - 12)) n
          true) b.address)) b.address need) b.address n) b.address false) b.address = n := by
        simp (disch := omega) only [blockNext, setFree, setNext, setSize, put_same, put_other]
      rw [toNew]
      refine ⟨rfl, ?_, ?_, ?_⟩
      · simp (disch := omega) only [blockSize, setFree, setNext, setSize, put_same, put_other]
      · apply block_free_of_cell (m (n + 4)) true
        simp (disch := omega) only [setFree, setNext, setSize, put_same, put_other]
      · have toRest : blockNext (setFree (setNext (setSize (setNext (setFree (setSize m n
            (b.size - need - 12)) n true) n (blockNext (setFree (setSize m n (b.size - need - 12)) n
            true) b.address)) b.address need) b.address n) b.address false) n =
            blockNext m b.address := by
          simp (disch := omega) only [blockNext, setFree, setNext, setSize, put_same, put_other]
        rw [toRest]
        apply linked_frame onward
        intro a inside
        have low := (in_header_bounds behind inside).1
        unfold headerSize at low
        unfold minBlockSize headerSize at wide
        simp (disch := omega) only [blockNext, setFree, setNext, setSize, put_other]
    · intro a outside
      have first : ¬ (b.address ≤ a ∧ a < b.address + 12) := fun inside =>
        outside ⟨_, List.mem_cons_self, inside⟩
      have second : ¬ (n ≤ a ∧ a < n + 12) := fun inside =>
        outside ⟨_, List.mem_cons_of_mem _ List.mem_cons_self, inside⟩
      simp (disch := omega) only [setFree, setNext, setSize, put_other]
  · simp only [if_neg wide]
    refine ⟨⟨rfl, ?_, block_free_of_cell _ false (put_same _ _ _), ?_⟩, ?_⟩
    · simp (disch := omega) only [blockSize, setFree, put_other]
      exact size
    · have next : blockNext (setFree m b.address false) b.address = blockNext m b.address := by
        simp (disch := omega) only [blockNext, setFree, put_other]
      rw [next]
      apply linked_frame onward
      intro a inside
      have low := (in_header_bounds behind inside).1
      unfold headerSize at low
      simp (disch := omega) only [setFree, put_other]
    · intro a outside
      have first : ¬ (b.address ≤ a ∧ a < b.address + 12) := fun inside =>
        outside ⟨_, List.mem_cons_self, inside⟩
      simp (disch := omega) only [setFree, put_other]

/-- The search is first fit on the block list, and it writes headers only. -/
theorem allocate_from_linked (need : Nat) {p fuel : Nat} {blocks : List Block}
    (linked : Linked m p blocks) (tiles : Tiles headerSize lo blocks hi) (positive : 0 < lo)
    (top : hi ≤ 4294967296) (enough : blocks.length < fuel) :
    match fit headerSize minBlockSize need blocks with
    | none => allocateFrom need fuel p m = some (0, m)
    | some (address, blocks') =>
        ∃ m', allocateFrom need fuel p m = some (u32 (address + headerSize), m') ∧
          Linked m' p blocks' ∧ ∀ a, ¬ InHeader blocks' a → m' a = m a := by
  induction blocks generalizing lo p fuel with
  | nil =>
      obtain rfl : p = 0 := linked
      cases fuel with
      | zero => exact absurd enough (Nat.not_lt_zero _)
      | succ fuel => rfl
  | cons b rest ih =>
      cases fuel with
      | zero => exact absurd enough (Nat.not_lt_zero _)
      | succ fuel =>
          obtain ⟨rfl, size, free, onward⟩ := id linked
          have start := tiles.1
          have bound := (tiles_member tiles List.mem_cons_self).2
          have nonzero : b.address ≠ 0 := by omega
          unfold allocateFrom fit
          rw [if_neg nonzero, free, size]
          by_cases fits : b.free = true ∧ need ≤ b.size
          · rw [if_pos fits, if_pos (by simpa using fits)]
            obtain ⟨after, frame⟩ := take_block_linked linked tiles top fits.2
            unfold taken at after frame
            refine ⟨_, rfl, ?_, ?_⟩
            · split at after
              · next wide =>
                rw [if_pos wide]
                exact after
              · next narrow =>
                rw [if_neg narrow]
                exact after
            · intro a outside
              apply frame
              rintro ⟨c, member, inside⟩
              apply outside
              refine ⟨c, ?_, inside⟩
              split at member
              · next wide =>
                rw [if_pos wide]
                exact List.mem_append_left rest member
              · next narrow =>
                rw [if_neg narrow]
                exact List.mem_append_left rest member
          · rw [if_neg fits, if_neg (by simpa using fits)]
            have later := ih onward tiles.2 (by omega) (Nat.lt_of_succ_lt_succ enough)
            cases found : fit headerSize minBlockSize need rest with
            | none =>
                rw [found] at later
                exact later
            | some result =>
                obtain ⟨address, rest'⟩ := result
                rw [found] at later
                obtain ⟨m', run, changed, frame⟩ := later
                have behind : Tiles headerSize (lo + headerSize + b.size) rest' hi :=
                  tiles_fit (by decide) tiles.2 found
                refine ⟨m', run, ?_, ?_⟩
                · exact linked_cons_of_rest _ linked ⟨start, behind⟩ changed
                    (fun a touch => (in_header_bounds behind touch).1) frame
                · intro a outside
                  apply frame
                  rintro ⟨c, member, inside⟩
                  exact outside ⟨c, List.mem_cons_of_mem _ member, inside⟩

end Allocate

section Free

variable {lo hi : Nat} {m : Cells}

theorem set_free_linked {p : Nat} {pre post : List Block} {b : Block} (flag : Bool)
    (linked : Linked m p (pre ++ b :: post))
    (tiles : Tiles headerSize lo (pre ++ b :: post) hi) :
    Linked (setFree m b.address flag) p (pre ++ ⟨b.address, b.size, flag⟩ :: post) := by
  induction pre generalizing lo p with
  | nil =>
      obtain ⟨rfl, size, _, onward⟩ := linked
      refine ⟨rfl, ?_, block_free_of_cell _ flag (put_same _ _ _), ?_⟩
      · simp (disch := omega) only [blockSize, setFree, put_other]
        exact size
      · have next : blockNext (setFree m b.address flag) b.address = blockNext m b.address := by
          simp (disch := omega) only [blockNext, setFree, put_other]
        rw [next]
        apply linked_frame onward
        intro a inside
        have start := tiles.1
        have low := (in_header_bounds tiles.2 inside).1
        unfold headerSize at low
        simp (disch := omega) only [setFree, put_other]
  | cons c pre ih =>
      obtain ⟨rfl, _, _, onward⟩ := id linked
      have behind := tiles_member tiles.2 (b := b) (List.mem_append_right _ List.mem_cons_self)
      have kept : Tiles headerSize lo (c :: (pre ++ ⟨b.address, b.size, flag⟩ :: post)) hi := by
        refine ⟨tiles.1, ?_⟩
        exact tiles_replace [⟨b.address, b.size, flag⟩] tiles.2 ⟨rfl, rfl⟩
      apply linked_cons_of_rest (fun a => a = b.address + 4) linked kept (ih onward tiles.2)
      · intro a same
        omega
      · intro a apart
        exact put_other _ _ apart

/-- One round of the walk that takes block `c` into the free block `b` before it. -/
theorem join_linked {b c : Block} {rest : List Block}
    (linked : Linked m b.address (b :: c :: rest))
    (tiles : Tiles headerSize lo (b :: c :: rest) hi) (top : hi ≤ 4294967296)
    (free : b.free = true) :
    let joined := setSize m b.address
      (u32 (blockSize m b.address + u32 (headerSize + blockSize m (blockNext m b.address))))
    let m' := setNext joined b.address (blockNext joined (blockNext joined b.address))
    Linked m' b.address (⟨b.address, b.size + (headerSize + c.size), true⟩ :: rest) ∧
      ∀ a, ¬ JoinWord (b :: c :: rest) a → m' a = m a := by
  obtain ⟨_, sizeB, freeB, atC, sizeC, _, onward⟩ := linked
  have boundC := (tiles_member tiles (List.mem_cons_of_mem _ List.mem_cons_self)).2
  have order : c.address = b.address + headerSize + b.size := by
    have start := tiles.1
    have next := tiles.2.1
    omega
  have behind : ∀ a, InHeader rest a → c.address + headerSize ≤ a := by
    intro a inside
    have low := (in_header_bounds tiles.2.2 inside).1
    have next := tiles.2.1
    omega
  rw [atC] at sizeC
  have sum : u32 (blockSize m b.address + u32 (headerSize + blockSize m (blockNext m b.address))) =
      b.size + (headerSize + c.size) := by
    have header : 0 < headerSize := by decide
    rw [sizeB, atC, sizeC, u32_of_lt (by omega : headerSize + c.size < 4294967296)]
    exact u32_of_lt (by omega)
  simp only [sum]
  unfold headerSize at order behind ⊢
  have toC : blockNext (setSize m b.address (b.size + (12 + c.size))) b.address = c.address := by
    simp (disch := omega) only [blockNext, setSize, put_other]
    exact atC
  rw [toC]
  have toRest : blockNext (setSize m b.address (b.size + (12 + c.size))) c.address =
      blockNext m c.address := by
    simp (disch := omega) only [blockNext, setSize, put_other]
  rw [toRest]
  refine ⟨⟨rfl, ?_, ?_, ?_⟩, ?_⟩
  · simp (disch := omega) only [blockSize, setSize, setNext, put_same, put_other]
  · rw [← free, ← freeB]
    simp (disch := omega) only [blockFree, setSize, setNext, put_other]
  · have next : blockNext (setNext (setSize m b.address (b.size + (12 + c.size))) b.address
        (blockNext m c.address)) b.address = blockNext m c.address := put_same _ _ _
    rw [next, ← atC]
    apply linked_frame onward
    intro a inside
    have low := behind a inside
    simp (disch := omega) only [setSize, setNext, put_other]
  · intro a outside
    have first : ¬ (a = b.address ∨ a = b.address + 8) := fun place =>
      outside ⟨_, List.mem_cons_self, place⟩
    simp (disch := omega) only [setSize, setNext, put_other]

/-- The coalescing walk joins free neighbours, and it writes sizes and links only. -/
theorem coalesce_blocks_linked {fuel : Nat} {b : Block} {rest : List Block}
    (linked : Linked m b.address (b :: rest)) (tiles : Tiles headerSize lo (b :: rest) hi)
    (positive : 0 < lo) (top : hi ≤ 4294967296) (enough : rest.length + 1 < fuel) :
    ∃ m', coalesceBlocks fuel b.address m = some m' ∧
      Linked m' b.address (coalesceFrom headerSize b rest) ∧
      ∀ a, ¬ JoinWord (b :: rest) a → m' a = m a := by
  induction rest generalizing lo b m fuel with
  | nil =>
      obtain ⟨_, _, _, last⟩ := id linked
      have nonzero : b.address ≠ 0 := by
        have start := tiles.1
        omega
      have atEnd : blockNext m b.address = 0 := last
      cases fuel with
      | zero => exact absurd enough (Nat.not_lt_zero _)
      | succ fuel =>
          cases fuel with
          | zero => exact absurd enough (by simp)
          | succ fuel =>
              refine ⟨m, ?_, linked, fun _ _ => rfl⟩
              rw [coalesceBlocks, if_neg nonzero, if_neg (fun both => both.2.1 atEnd), atEnd]
              rfl
  | cons c rest ih =>
      cases fuel with
      | zero => exact absurd enough (Nat.not_lt_zero _)
      | succ fuel =>
          obtain ⟨_, _, free, onward⟩ := id linked
          obtain ⟨atC, _, freeC, _⟩ := id onward
          have start := tiles.1
          have startC := tiles.2.1
          have nonzero : b.address ≠ 0 := by omega
          have nonzeroC : blockNext m b.address ≠ 0 := by omega
          have shorter : rest.length + 1 < fuel := by
            rw [List.length_cons] at enough
            omega
          unfold coalesceBlocks coalesceFrom
          rw [if_neg nonzero, free, freeC]
          by_cases both : b.free = true ∧ c.free = true
          · have joinedTiles : Tiles headerSize lo
                (⟨b.address, b.size + (headerSize + c.size), true⟩ :: rest) hi := by
              refine ⟨start, ?_⟩
              have sum : lo + headerSize + (b.size + (headerSize + c.size)) =
                  lo + headerSize + b.size + headerSize + c.size := by omega
              rw [sum]
              exact tiles.2.2
            obtain ⟨joined, frame⟩ := join_linked linked tiles top both.1
            obtain ⟨m', run, after, frame'⟩ := ih joined joinedTiles positive shorter
            rw [if_pos ⟨both.1, nonzeroC, both.2⟩, if_pos (by simpa using both)]
            refine ⟨m', run, after, ?_⟩
            intro a outside
            rw [frame' a, frame a outside]
            rintro ⟨d, member, inside⟩
            rcases List.mem_cons.1 member with rfl | later
            · exact outside ⟨b, List.mem_cons_self, inside⟩
            · exact outside ⟨d, List.mem_cons_of_mem _ (List.mem_cons_of_mem _ later), inside⟩
          · rw [if_neg (fun all => both ⟨all.1, all.2.2⟩), if_neg (by simpa using both), atC]
            rw [atC] at onward
            obtain ⟨m', run, after, frame⟩ := ih onward tiles.2 (by omega) shorter
            refine ⟨m', run, ?_, ?_⟩
            · rw [← atC] at after
              exact linked_cons_of_rest _ linked ⟨start, tiles_coalesce_from tiles.2⟩ after
                (fun a touch => (in_header_bounds tiles.2 (in_header_of_join_word touch)).1) frame
            · intro a outside
              apply frame
              rintro ⟨d, member, inside⟩
              exact outside ⟨d, List.mem_cons_of_mem _ member, inside⟩

theorem coalesce_list_linked {p fuel : Nat} {blocks : List Block} (linked : Linked m p blocks)
    (tiles : Tiles headerSize lo blocks hi) (positive : 0 < lo) (top : hi ≤ 4294967296)
    (enough : blocks.length < fuel) :
    ∃ m', coalesceBlocks fuel p m = some m' ∧ Linked m' p (coalesce headerSize blocks) ∧
      ∀ a, ¬ JoinWord blocks a → m' a = m a := by
  cases blocks with
  | nil =>
      obtain rfl : p = 0 := linked
      cases fuel with
      | zero => exact absurd enough (Nat.not_lt_zero _)
      | succ fuel => exact ⟨m, rfl, rfl, fun _ _ => rfl⟩
  | cons b rest =>
      obtain rfl := linked.1
      exact coalesce_blocks_linked linked tiles positive top enough

theorem join_word_of_freed {pre post : List Block} {b : Block} {flag : Bool} {a : Nat}
    (word : JoinWord (pre ++ ⟨b.address, b.size, flag⟩ :: post) a) :
    JoinWord (pre ++ b :: post) a := by
  obtain ⟨c, member, place⟩ := word
  rcases List.mem_append.1 member with before | behind
  · exact ⟨c, List.mem_append_left _ before, place⟩
  · rcases List.mem_cons.1 behind with rfl | behind
    · exact ⟨b, List.mem_append_right _ List.mem_cons_self, place⟩
    · exact ⟨c, List.mem_append_right _ (List.mem_cons_of_mem _ behind), place⟩

/-- Freeing the payload of a block in use sets its flag and joins free neighbours. -/
theorem free_linked {fuel : Nat} {heap : HeapAllocator} {pre post : List Block} {b : Block}
    (linked : Linked m heap.head (pre ++ b :: post))
    (tiles : Tiles headerSize heap.regionStart (pre ++ b :: post) hi)
    (positive : 0 < heap.regionStart) (top : hi ≤ 4294967296) (used : b.free = false)
    (above : ¬ b.address + headerSize < u32 (heap.regionStart + headerSize))
    (below : b.address + headerSize < heap.regionEnd)
    (enough : (pre ++ b :: post).length < fuel) :
    ∃ m', free fuel (b.address + headerSize) heap m = some m' ∧
      Linked m' heap.head (coalesce headerSize (pre ++ ⟨b.address, b.size, true⟩ :: post)) ∧
      (∀ a, a ≠ b.address + 4 → ¬ JoinWord (pre ++ b :: post) a → m' a = m a) ∧
      m' (b.address + 4) = setFree m b.address true (b.address + 4) := by
  have linkedFreed := set_free_linked true linked tiles
  have tilesFreed : Tiles headerSize heap.regionStart (pre ++ ⟨b.address, b.size, true⟩ :: post) hi :=
    tiles_replace [⟨b.address, b.size, true⟩] tiles ⟨rfl, rfl⟩
  obtain ⟨m', run, after, frame⟩ := coalesce_list_linked linkedFreed tilesFreed positive top
    (show (pre ++ (⟨b.address, b.size, true⟩ : Block) :: post).length < fuel by
      simpa using enough)
  have flag : blockFree m b.address = false :=
    (linked_member linked (List.mem_append_right _ List.mem_cons_self)).trans used
  have nonNull : b.address + headerSize ≠ 0 := by
    unfold headerSize
    omega
  have guards : ¬ (b.address + headerSize < u32 (heap.regionStart + headerSize) ∨
      heap.regionEnd ≤ b.address + headerSize) := by
    rintro (low | high)
    · exact above low
    · omega
  have block : b.address + headerSize - headerSize = b.address := Nat.add_sub_cancel _ _
  -- a flag lies in no size and no link, as headers do not overlap
  have flagWord : ¬ JoinWord (pre ++ (⟨b.address, b.size, true⟩ : Block) :: post)
      (b.address + 4) := by
    rintro ⟨c, member, place⟩
    have here : (⟨b.address, b.size, true⟩ : Block) ∈
        pre ++ (⟨b.address, b.size, true⟩ : Block) :: post :=
      List.mem_append_right _ List.mem_cons_self
    by_cases same : (⟨b.address, b.size, true⟩ : Block) = c
    · rw [← same] at place
      dsimp only at place
      omega
    · have apart := tiles_apart tilesFreed here member same
      dsimp only at apart
      unfold headerSize at apart
      omega
  refine ⟨m', ?_, after, ?_, frame _ flagWord⟩
  · unfold free
    rw [if_neg nonNull, if_neg guards]
    simp only [block, flag, Bool.false_eq_true, if_false]
    exact run
  · intro a apart outside
    rw [frame a fun word => outside (join_word_of_freed word)]
    exact put_other _ _ apart

end Free

section Extend

variable {lo hi extra : Nat} {m : Cells}

theorem last_block_linked {fuel : Nat} {b : Block} {rest : List Block}
    (linked : Linked m b.address (b :: rest)) (tiles : Tiles headerSize lo (b :: rest) hi)
    (positive : 0 < lo) (enough : rest.length < fuel) :
    lastBlock fuel b.address m = some ((b :: rest).getLast (List.cons_ne_nil b rest)).address := by
  induction rest generalizing lo b fuel with
  | nil =>
      obtain ⟨_, _, _, last⟩ := linked
      cases fuel with
      | zero => exact absurd enough (Nat.not_lt_zero _)
      | succ fuel => exact if_pos last
  | cons c rest ih =>
      cases fuel with
      | zero => exact absurd enough (Nat.not_lt_zero _)
      | succ fuel =>
          obtain ⟨_, _, _, onward⟩ := linked
          have atC := onward.1
          have startC := tiles.2.1
          have nonzero : blockNext m b.address ≠ 0 := by omega
          rw [lastBlock, if_neg nonzero, atC]
          rw [atC] at onward
          rw [ih onward tiles.2 (by omega) (Nat.lt_of_succ_lt_succ enough)]
          rfl

theorem append_space_last {b : Block} (linked : Linked m b.address [b])
    (tiles : Tiles headerSize lo [b] hi) (top : hi + extra ≤ 4294967296)
    (roomy : headerSize < extra) :
    Linked (appendSpace extra b.address m) b.address (grow headerSize extra [b]) ∧
      ∀ a, ¬ InHeader (grow headerSize extra [b]) a → appendSpace extra b.address m a = m a := by
  obtain ⟨start, finish⟩ := tiles
  have last : lo + headerSize + b.size = hi := finish
  have header : 0 < headerSize := by decide
  obtain ⟨_, size, free, atEnd⟩ := linked
  unfold appendSpace grow
  rw [free, size]
  cases state : b.free with
  | true =>
      have sum : u32 (b.size + extra) = b.size + extra := u32_of_lt (by omega)
      simp only [if_true, sum]
      refine ⟨⟨rfl, put_same _ _ _, ?_, ?_⟩, ?_⟩
      · rw [← state, ← free]
        simp (disch := omega) only [blockFree, setSize, put_other]
      · have next : blockNext (setSize m b.address (b.size + extra)) b.address =
            blockNext m b.address := by
          simp (disch := omega) only [blockNext, setSize, put_other]
        rw [next]
        exact atEnd
      · intro a outside
        have first : ¬ (b.address ≤ a ∧ a < b.address + headerSize) := fun inside =>
          outside ⟨_, List.mem_cons_self, inside⟩
        unfold headerSize at first
        simp (disch := omega) only [setSize, put_other]
  | false =>
      have newBlock : u32 (b.address + headerSize + b.size) = b.address + headerSize + b.size :=
        u32_of_lt (by omega)
      simp only [Bool.false_eq_true, if_false, newBlock]
      unfold headerSize at last ⊢
      generalize atNew : b.address + 12 + b.size = n
      have toNew : blockNext (setNext (setNext (setFree (setSize m n (extra - 12)) n true) n 0)
          b.address n) b.address = n := put_same _ _ _
      refine ⟨⟨rfl, ?_, ?_, ?_⟩, ?_⟩
      · simp (disch := omega) only [blockSize, setSize, setFree, setNext, put_other]
        exact size
      · rw [← free]
        simp (disch := omega) only [blockFree, setSize, setFree, setNext, put_other]
      · rw [toNew]
        refine ⟨rfl, ?_, ?_, ?_⟩
        · simp (disch := omega) only [blockSize, setSize, setFree, setNext, put_same, put_other]
        · apply block_free_of_cell (m (n + 4)) true
          simp (disch := omega) only [setSize, setFree, setNext, put_same, put_other]
        · change blockNext _ n = 0
          simp (disch := omega) only [blockNext, setNext, put_same, put_other]
      · intro a outside
        have first : ¬ (b.address ≤ a ∧ a < b.address + 12) := fun inside =>
          outside ⟨_, List.mem_cons_self, inside⟩
        have second : ¬ (n ≤ a ∧ a < n + 12) := fun inside =>
          outside ⟨_, List.mem_cons_of_mem _ List.mem_cons_self, inside⟩
        simp (disch := omega) only [setSize, setFree, setNext, put_other]

/-- Space behind the last block, which `grow` adds; only headers are written. -/
theorem append_space_linked {b : Block} {rest : List Block}
    (linked : Linked m b.address (b :: rest)) (tiles : Tiles headerSize lo (b :: rest) hi)
    (top : hi + extra ≤ 4294967296) (roomy : headerSize < extra) :
    Linked (appendSpace extra ((b :: rest).getLast (List.cons_ne_nil b rest)).address m) b.address
        (grow headerSize extra (b :: rest)) ∧
      ∀ a, ¬ InHeader (grow headerSize extra (b :: rest)) a →
        appendSpace extra ((b :: rest).getLast (List.cons_ne_nil b rest)).address m a = m a := by
  induction rest generalizing lo b with
  | nil => exact append_space_last linked tiles top roomy
  | cons c rest ih =>
      obtain ⟨_, _, _, onward⟩ := id linked
      have atC := onward.1
      rw [atC] at onward
      obtain ⟨after, frame⟩ := ih onward tiles.2
      have grown : Tiles headerSize (lo + headerSize + b.size)
          (grow headerSize extra (c :: rest)) (hi + extra) := tiles_grow roomy.le tiles.2
      refine ⟨?_, ?_⟩
      · rw [← atC] at after
        exact linked_cons_of_rest _ linked ⟨tiles.1, grown⟩ after
          (fun a touch => (in_header_bounds grown touch).1) frame
      · intro a outside
        apply frame
        rintro ⟨d, member, inside⟩
        exact outside ⟨d, List.mem_cons_of_mem _ member, inside⟩

end Extend

theorem payload_not_header {lo hi a : Nat} {b : Block} {blocks : List Block}
    (tiles : Tiles headerSize lo blocks hi) (member : b ∈ blocks)
    (low : b.address + headerSize ≤ a) (high : a < b.address + headerSize + b.size) :
    ¬ InHeader blocks a := by
  rintro ⟨c, memberC, lowC, highC⟩
  by_cases same : b = c
  · subst same
    omega
  · have apart := tiles_apart tiles member memberC same
    omega

end CassiOS.Memory.HeapBlocks
