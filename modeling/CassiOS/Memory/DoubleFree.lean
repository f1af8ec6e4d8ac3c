import CassiOS.Memory.HeapStates

/-!
# Freeing twice

A block that was joined with the one before it leaves its header behind inside a free
block. Joining writes sizes and links of listed blocks only, and no listed header overlaps
the one left behind, so its flag still stops a second `free`.
-/

namespace CassiOS.Memory.DoubleFree

open CassiOS.Support.Words
open CassiOS.Support.Tiling
open CassiOS.Support.TransitionSystem
open CassiOS.Memory.Heap
open CassiOS.Memory.HeapBlocks
open CassiOS.Memory.HeapSafety
open CassiOS.Memory.HeapStates

set_option autoImplicit false

/-- Live pointers are freed and live payloads written; nothing is handed out. -/
def OnlyFrees (s : Machine) (action : Action) : Prop :=
  match action with
  | .free _ | .store _ _ => Permitted s action
  | .allocate _ | .extend _ => False

instance (s : Machine) (action : Action) : Decidable (OnlyFrees s action) :=
  match action with
  | .allocate _ => inferInstanceAs (Decidable False)
  | .free p => inferInstanceAs (Decidable (Permitted s (.free p)))
  | .extend _ => inferInstanceAs (Decidable False)
  | .store a word => inferInstanceAs (Decidable (Permitted s (.store a word)))

/-- The header in front of `p` has its flag set, lies in a free block and overlaps no
listed header but itself. -/
structure LeftBehind (s : Machine) (blocks : List Block) (p : Nat) : Prop where
  flag : blockFree s.memory (p - headerSize) = true
  apart : ∀ b ∈ blocks, b.address + headerSize = p ∨ b.address + 2 * headerSize ≤ p ∨
    p ≤ b.address
  within : ∃ b ∈ blocks, b.free = true ∧ b.address + headerSize ≤ p ∧
    p ≤ b.address + headerSize + b.size

/-- Another `free` of `p` stops at a guard. -/
def Guarded (s : Machine) (blocks : List Block) (p : Nat) : Prop :=
  OutOfRange s.allocator p ∨ LeftBehind s blocks p

section Guards

variable {s : Machine} {top : Nat} {blocks : List Block} {p : Nat}

theorem free_guarded (guarded : Guarded s blocks p) (fuel : Nat) :
    free fuel p s.allocator s.memory = some s.memory := by
  by_cases outside : OutOfRange s.allocator p
  · exact free_out_of_range outside fuel s.memory
  · have flag := (guarded.resolve_left outside).flag
    unfold free
    by_cases null : p = 0
    · rw [if_pos null]
    · have inRange : ¬ (p < u32 (s.allocator.regionStart + headerSize) ∨
          s.allocator.regionEnd ≤ p) := outside
      rw [if_neg null, if_neg inRange]
      simp only [flag, if_true]

theorem flag_not_joined (left : LeftBehind s blocks p) : ¬ JoinWord blocks (p - headerSize + 4) := by
  rintro ⟨b, member, place⟩
  have apart := left.apart b member
  obtain ⟨_, _, _, low, _⟩ := left.within
  unfold headerSize at *
  omega

theorem same_flag {m m' : Cells} {block : Nat} (same : m' (block + 4) = m (block + 4)) :
    blockFree m' block = blockFree m block := by
  unfold blockFree
  rw [same]

theorem left_behind_free {pre post : List Block} {b : Block} {live : List (Nat × Nat)} {m' : Cells}
    (formed : Formed s top (pre ++ b :: post)) (used : b.free = false)
    (left : LeftBehind s (pre ++ b :: post) p)
    (frame : ∀ a, a ≠ b.address + 4 → ¬ JoinWord (pre ++ b :: post) a → m' a = s.memory a) :
    LeftBehind ⟨s.allocator, m', live⟩
      (coalesce headerSize (pre ++ ⟨b.address, b.size, true⟩ :: post)) p := by
  have tilesFreed : Tiles headerSize s.allocator.regionStart
      (pre ++ ⟨b.address, b.size, true⟩ :: post) top :=
    tiles_replace [⟨b.address, b.size, true⟩] formed.tiles ⟨rfl, rfl⟩
  obtain ⟨c, member, freeC, low, high⟩ := left.within
  have notC : c ≠ b := by
    rintro rfl
    rw [freeC] at used
    cases used
  constructor
  · -- the flag of a listed block in use is clear, so this is another header's
    have otherFlag : p - headerSize + 4 ≠ b.address + 4 := by
      intro same
      have here : blockFree s.memory b.address = false :=
        (linked_member formed.linked (List.mem_append_right _ List.mem_cons_self)).trans used
      have flag := left.flag
      rw [Nat.add_right_cancel same, here] at flag
      cases flag
    exact (same_flag (frame _ otherFlag (flag_not_joined left))).trans left.flag
  · apply all_coalesce
    · intro u v placeU _
      exact placeU
    · intro u memberU
      rcases mem_of_replaced [⟨b.address, b.size, true⟩] b memberU with old | new
      · exact left.apart u old
      · rw [List.mem_singleton.1 new]
        exact left.apart b (List.mem_append_right _ List.mem_cons_self)
  · have still : c ∈ pre ++ ⟨b.address, b.size, true⟩ :: post :=
      mem_replace [⟨b.address, b.size, true⟩] member notC
    obtain ⟨d, memberD, freeD, lowD, highD⟩ := coalesce_covers tilesFreed still freeC
    exact ⟨d, memberD, freeD, by omega, by omega⟩

theorem left_behind_store (formed : Formed s top blocks) (left : LeftBehind s blocks p)
    {a : Nat} (word : Nat)
    (payload : ∃ e ∈ s.live, e.1 ≤ a ∧ a < e.1 + blockSize s.memory (e.1 - headerSize)) :
    LeftBehind { s with memory := put s.memory a word } blocks p := by
  obtain ⟨b, memberB, used, low, high⟩ := live_word_outside formed payload
  obtain ⟨c, memberC, free, lowC, highC⟩ := left.within
  have differ : b ≠ c := by
    rintro rfl
    rw [used] at free
    cases free
  have apart := tiles_apart formed.tiles memberB memberC differ
  constructor
  · refine (same_flag (put_other _ _ ?_)).trans left.flag
    unfold headerSize at *
    omega
  · exact left.apart
  · exact left.within

end Guards

section Frees

variable {s s' : Machine} {top : Nat} {blocks : List Block} {p : Nat}

theorem first_free (formed : Formed s top blocks) (live : p ∈ s.live.map Prod.fst)
    (next : call s (.free p) = some s') : ∃ blocks', Formed s' top blocks' ∧ Guarded s' blocks' p := by
  obtain ⟨e, memberE, rfl⟩ := List.mem_map.1 live
  obtain ⟨b, memberB, used, pointer, _⟩ := formed.owned e memberE
  obtain ⟨pre, post, rfl⟩ := List.append_of_mem memberB
  rw [pointer] at next ⊢
  simp only [call] at next
  by_cases outside : OutOfRange s.allocator (b.address + headerSize)
  · rw [free_out_of_range outside] at next
    cases next
    exact ⟨_, formed.forget fun f member => (List.mem_filter.1 member).1, .inl outside⟩
  · obtain ⟨m', run, after, _, flag⟩ := free_in_range formed used outside
    rw [run] at next
    cases next
    have tilesFreed : Tiles headerSize s.allocator.regionStart
        (pre ++ ⟨b.address, b.size, true⟩ :: post) top :=
      tiles_replace [⟨b.address, b.size, true⟩] formed.tiles ⟨rfl, rfl⟩
    have freed : (⟨b.address, b.size, true⟩ : Block) ∈ pre ++ ⟨b.address, b.size, true⟩ :: post :=
      List.mem_append_right _ List.mem_cons_self
    refine ⟨_, after, .inr ?_⟩
    constructor
    · rw [Nat.add_sub_cancel]
      exact flag
    · apply all_coalesce
      · intro u v placeU _
        exact placeU
      · intro u memberU
        by_cases same : u = ⟨b.address, b.size, true⟩
        · rw [same]
          exact .inl rfl
        · have apart := tiles_apart tilesFreed freed memberU (Ne.symm same)
          dsimp only at apart
          unfold headerSize at *
          omega
    · obtain ⟨d, memberD, freeD, low, high⟩ := coalesce_covers tilesFreed freed rfl
      dsimp only at low high
      exact ⟨d, memberD, freeD, by omega, by omega⟩

theorem later_step {action : Action} (formed : Formed s top blocks) (guarded : Guarded s blocks p)
    (allowed : OnlyFrees s action) (next : call s action = some s') :
    ∃ blocks', Formed s' top blocks' ∧ Guarded s' blocks' p := by
  cases action with
  | allocate n => exact absurd allowed id
  | extend k => exact absurd allowed id
  | store a word =>
      cases next
      refine ⟨blocks, store_formed formed word allowed.2, ?_⟩
      rcases guarded with outside | left
      · exact .inl outside
      · exact .inr (left_behind_store formed left word allowed.2)
  | free q =>
      obtain ⟨e, memberE, rfl⟩ := List.mem_map.1 (show q ∈ s.live.map Prod.fst from allowed)
      obtain ⟨b, memberB, used, pointer, _⟩ := formed.owned e memberE
      obtain ⟨pre, post, rfl⟩ := List.append_of_mem memberB
      rw [pointer] at next
      simp only [call] at next
      by_cases rejected : OutOfRange s.allocator (b.address + headerSize)
      · rw [free_out_of_range rejected] at next
        cases next
        refine ⟨_, formed.forget fun f member => (List.mem_filter.1 member).1, ?_⟩
        rcases guarded with outside | left
        · exact .inl outside
        · exact .inr ⟨left.flag, left.apart, left.within⟩
      · obtain ⟨m', run, after, frame, _⟩ := free_in_range formed used rejected
        rw [run] at next
        cases next
        refine ⟨_, after, ?_⟩
        rcases guarded with outside | left
        · exact .inl outside
        · exact .inr (left_behind_free formed used left frame)

/-- However many live pointers are freed and live payloads written in between, a second
`free` of a pointer changes nothing. -/
theorem double_free_ignored (region : Region) (m : Cells) {s s' t : Machine} {p : Nat}
    (reached : Reached region m s) (live : p ∈ s.live.map Prod.fst)
    (first : call s (.free p) = some s') (frees : Run call OnlyFrees s' t) (fuel : Nat) :
    free fuel p t.allocator t.memory = some t.memory := by
  obtain ⟨top, blocks, formed⟩ := reached_formed reached
  have kept : ∃ blocks', Formed t top blocks' ∧ Guarded t blocks' p := by
    apply frees.invariant (fun t => ∃ blocks', Formed t top blocks' ∧ Guarded t blocks' p)
    · exact first_free formed live first
    · rintro u action u' ⟨blocks', formed', guarded⟩ allowed next
      exact later_step formed' guarded allowed next
  obtain ⟨blocks', _, guarded⟩ := kept
  exact free_guarded guarded fuel

/-- Three neighbours are freed, the first two into one block, and the second once more. -/
theorem middle_block_freed_twice :
    ∃ s s' t, admittedPath call Permitted (start smallRegion fun _ => 0)
        [.allocate 4, .allocate 4, .allocate 4] = some s ∧
      call s (.free 0x101C) = some s' ∧
      admittedPath call OnlyFrees s' [.free 0x100C, .store 0x102C 7] = some t ∧
      free 1 0x101C t.allocator t.memory = some t.memory := by
  have reached : ∃ s, admittedPath call Permitted (start smallRegion fun _ => 0)
      [.allocate 4, .allocate 4, .allocate 4] = some s ∧ 0x101C ∈ s.live.map Prod.fst ∧
      ∃ s', call s (.free 0x101C) = some s' ∧
        ∃ t, admittedPath call OnlyFrees s' [.free 0x100C, .store 0x102C 7] = some t :=
    ⟨_, rfl, by decide, _, rfl, _, rfl⟩
  obtain ⟨s, allocated, live, s', first, t, frees⟩ := reached
  exact ⟨s, s', t, allocated, first, frees, double_free_ignored smallRegion (fun _ => 0)
    (run_of_admitted_path allocated) live first (run_of_admitted_path frees) 1⟩

end Frees

end CassiOS.Memory.DoubleFree
