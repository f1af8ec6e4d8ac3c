import CassiOS.Fat32.CreateEntry

/-!
# The long-name codec

`createEntry` cuts a name into slots of thirteen characters, the highest number first, and
`extractLfn` puts it together again. The characters of the slots in order are the padded
name; the reader stops at the NUL behind the name or, where the name fills its last slot, at
the end of the slots.
-/

namespace CassiOS.Fat32.LongNames

open CassiOS.Fat32.Types
open CassiOS.Fat32.Names
open CassiOS.Fat32.Device
open CassiOS.Fat32.CreateEntry

set_option autoImplicit false

structure LongName (name : List UInt8) : Prop where
  nonempty : 1 ≤ name.length
  short : name.length ≤ 255
  ascii : ∀ c ∈ name, 0x01 ≤ c ∧ c ≤ 0x7F

/-- The slots that `createEntry` builds for a long name, in on-disk order. -/
def createdSlots (name : List UInt8) : List DirEntry :=
  longSlots name (lfnChecksum (nameToShort name)) (lfnCount name)

section Encoder

theorem wide_char_ascii {c : UInt8} (ascii : c ≤ 0x7F) : wideChar c = c.toNat := by
  have small : c.toNat ≤ 127 := ascii
  apply if_pos
  omega

theorem wide_char_lt (c : UInt8) : wideChar c < 65536 := by
  have byte := c.toNat_lt
  unfold wideChar
  split <;> omega

theorem lfn_char_at_lt (name : List UInt8) (pos : Nat) : lfnCharAt name pos < 65536 := by
  unfold lfnCharAt
  cases name[pos]? with
  | some c => exact wide_char_lt c
  | none =>
      dsimp only
      split <;> omega

theorem lfn_chars_bytes (name : List UInt8) (checksum : UInt8) (seq : Nat) :
    lfnChars (lfnSlot name checksum (seq + 1)) = (List.range lfnCharsPerEntry).map fun i =>
      le16 (byteOf (lfnCharAt name (seq * lfnCharsPerEntry + i)) 0)
        (byteOf (lfnCharAt name (seq * lfnCharsPerEntry + i)) 1) := rfl

theorem lfn_chars_slot (name : List UInt8) (checksum : UInt8) (seq : Nat) :
    lfnChars (lfnSlot name checksum (seq + 1)) =
      (List.range lfnCharsPerEntry).map fun i => lfnCharAt name (seq * lfnCharsPerEntry + i) := by
  rw [lfn_chars_bytes]
  apply List.map_congr_left
  intro i _
  rw [le16_byte_of]
  exact Nat.mod_eq_of_lt (lfn_char_at_lt name _)

/-- Read from number 1 upwards, the slots hold the first characters of the padded name. -/
theorem long_slots_chars (name : List UInt8) (checksum : UInt8) (seq : Nat) :
    (longSlots name checksum seq).reverse.flatMap lfnChars =
      (List.range (seq * lfnCharsPerEntry)).map (lfnCharAt name) := by
  induction seq with
  | zero =>
      rw [Nat.zero_mul]
      rfl
  | succ seq ih =>
      rw [longSlots, List.reverse_cons, List.flatMap_append, List.flatMap_singleton, ih,
        lfn_chars_slot, Nat.succ_mul, List.range_add, List.map_append, List.map_map]
      rfl

theorem padded_name (name : List UInt8) {size : Nat} (fits : name.length ≤ size) :
    ∃ padding, (List.range size).map (lfnCharAt name) = name.map wideChar ++ padding ∧
      ∀ c, padding.head? = some c → c = 0x0000 := by
  refine ⟨(List.range (size - name.length)).map fun i => lfnCharAt name (name.length + i), ?_, ?_⟩
  · obtain ⟨more, rfl⟩ := Nat.exists_eq_add_of_le fits
    rw [Nat.add_sub_cancel_left, List.range_add, List.map_append, List.map_map]
    congr 1
    apply List.ext_getElem
    · rw [List.length_map, List.length_range, List.length_map]
    · intro i _ inside
      rw [List.length_map] at inside
      rw [List.getElem_map, List.getElem_map, List.getElem_range, lfnCharAt,
        List.getElem?_eq_getElem inside]
  · intro c head
    cases more : size - name.length with
    | zero =>
        rw [more] at head
        cases head
    | succ count =>
        rw [more, List.range_succ_eq_map, List.map_cons] at head
        cases head
        rw [Nat.add_zero, lfnCharAt, List.getElem?_eq_none (Nat.le_refl _)]
        exact if_pos rfl

end Encoder

section Decoder

theorem collect_chars_text {room : Nat} {text : List UInt8} {padding : List Nat}
    (fits : text.length ≤ room) (ascii : ∀ c ∈ text, 0x01 ≤ c ∧ c ≤ 0x7F)
    (ends : ∀ c, padding.head? = some c → c = 0x0000) :
    collectChars room (text.map wideChar ++ padding) = text := by
  induction text generalizing room with
  | nil =>
      cases room with
      | zero => rfl
      | succ room =>
          cases padding with
          | nil => rfl
          | cons c padding =>
              cases ends c rfl
              rfl
  | cons c text ih =>
      obtain _ | room := room
      · cases fits
      obtain ⟨low, high⟩ := ascii c List.mem_cons_self
      have positive : 1 ≤ c.toNat := low
      have small : c.toNat ≤ 127 := high
      have goes : ¬ (wideChar c = 0x0000 ∨ wideChar c = 0xFFFF) := by
        rw [wide_char_ascii high]
        omega
      rw [List.map_cons, List.cons_append, collectChars, if_neg goes, wide_char_ascii high,
        UInt8.ofNat_toNat]
      rw [ih (Nat.le_of_succ_le_succ fits) fun d member => ascii d (List.mem_cons_of_mem _ member)]

theorem lfn_count_covers (name : List UInt8) :
    name.length ≤ lfnCount name * lfnCharsPerEntry ∧
      lfnCount name * lfnCharsPerEntry < name.length + lfnCharsPerEntry := by
  unfold lfnCount lfnCharsPerEntry
  omega

theorem created_slots_length (name : List UInt8) : (createdSlots name).length = lfnCount name :=
  long_slots_length ..

theorem extract_created_slots {name : List UInt8} (long : LongName name) :
    extractLfn (createdSlots name) maxName = name := by
  have room : name.length ≤ nameRoom maxName := long.short
  obtain ⟨padding, padded, ends⟩ := padded_name name (lfn_count_covers name).1
  rw [extractLfn, createdSlots, long_slots_chars, padded]
  exact collect_chars_text room long.ascii ends

end Decoder

/-- The slots made for a name are read back as the name, and no other name has the same slots. -/
theorem long_name_round_trip (name : List UInt8) (long : LongName name) :
    (createdSlots name).length = (name.length + 12) / 13 ∧
      extractLfn (createdSlots name) 256 = name ∧
      ∀ other, LongName other → other ≠ name → createdSlots other ≠ createdSlots name := by
  refine ⟨created_slots_length name, extract_created_slots long, ?_⟩
  intro other long' differ same
  apply differ
  rw [← extract_created_slots long', same]
  exact extract_created_slots long

/-- A name of thirteen characters fills its only slot, and no NUL is stored. -/
theorem full_slot_round_trip :
    (createdSlots (List.replicate 13 0x61)).length = (13 + 12) / 13 ∧
      extractLfn (createdSlots (List.replicate 13 0x61)) 256 = List.replicate 13 0x61 ∧
      ∀ other, LongName other → other ≠ List.replicate 13 0x61 →
        createdSlots other ≠ createdSlots (List.replicate 13 0x61) :=
  long_name_round_trip (List.replicate 13 0x61) {
    nonempty := by decide
    short := by decide
    ascii := by
      intro c member
      rw [List.eq_of_mem_replicate member]
      decide }

end CassiOS.Fat32.LongNames
