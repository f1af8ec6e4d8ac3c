import CassiOS.Fat32.Types
import CassiOS.Userland.NameRegistration
import CassiOS.Userland.VfsService

/-!
# Listing the nameserver

`ns::listAll` with the kernel's copy of the reply and the server's case that answers it. The
server has room for 16 entries and does not know how many the client has room for: the count
comes back in the message, and of the entries as many bytes as fit.
-/

namespace CassiOS.Userland.NameserverListing

open CassiOS.Fat32.Types (Buf)
open CassiOS.Support.FirstWins
open CassiOS.Userland.Messages
open CassiOS.Userland.Nameserver
open CassiOS.Userland.NameRegistration
open CassiOS.Userland.VfsService (bulkCopy bulk_copy_at)

set_option autoImplicit false

section Source

/-- `sizeof(ns::Entry)`. -/
def entrySize : Nat := 24

/-- The entries one behind the other, each with its name and then its PID. -/
def encode (entries : List NsEntry) : Buf := fun k =>
  match entries[k / entrySize]? with
  | none => 0
  | some e =>
      if k % entrySize < 20 then charAt e.name (k % entrySize)
      else byteOf e.pid (k % entrySize - 20)

def le32 (b₀ b₁ b₂ b₃ : UInt8) : UInt32 :=
  UInt32.ofNat (CassiOS.Fat32.Types.le32 b₀ b₁ b₂ b₃)

/-- `buf[i]` of the client. -/
def entryAt (buf : Buf) (i : Nat) : NsEntry where
  name := (List.range 20).map fun j => buf (entrySize * i + j)
  pid := le32 (buf (entrySize * i + 20)) (buf (entrySize * i + 21)) (buf (entrySize * i + 22))
    (buf (entrySize * i + 23))

/-- What stands on the server's stack where its sixteen entries are. -/
abbrev Stack := Vector (Vector UInt8 20 × UInt32) 16

def Stack.entries (stack : Stack) : List NsEntry :=
  stack.toList.map fun slot => ⟨slot.1.toList, slot.2⟩

def listRequest : Message := { Message.zero with type := MessageType.nsListAll }

/-- `ns::listAll`, with the count and what `buf` holds afterwards. -/
def listAll (table : NsTable) (stack : Stack) (sender : UInt32) (buf : Buf) (maxEntries : UInt32) :
    Option (UInt32 × Buf) :=
  (handle table ⟨sender, listRequest, none, stack.entries⟩).2.map fun reply =>
    (reply.msg.arg1, bulkCopy (encode reply.data) (reply.data.length * entrySize) buf
      (maxEntries * UInt32.ofNat entrySize).toNat)

end Source

section Listing

/-- What `listAll` owes its caller. -/
structure Lists (table : NsTable) (maxEntries count : UInt32) (buf : Buf) : Prop where
  bounded : count ≤ maxEntries
  registered : ∀ i, i < count.toNat → ∃ e ∈ table.entries,
    contents (entryAt buf i).name = contents e.name ∧ (entryAt buf i).pid = e.pid
  different : ∀ i j, i < j → j < count.toNat →
    contents (entryAt buf i).name ≠ contents (entryAt buf j).name
  complete : table.entries.length ≤ maxEntries.toNat → ∀ e ∈ table.entries, ∃ i, i < count.toNat ∧
    contents (entryAt buf i).name = contents e.name ∧ (entryAt buf i).pid = e.pid

/-- The client has room for the entries that the server sends, and these are all unless the
client has too little room for all. -/
def Fits (registered : Nat) (maxEntries : UInt32) : Prop :=
  entrySize * min registered 16 ≤ (maxEntries * UInt32.ofNat entrySize).toNat ∧
    (registered ≤ 16 ∨ maxEntries.toNat < registered)

instance (registered : Nat) (maxEntries : UInt32) : Decidable (Fits registered maxEntries) :=
  inferInstanceAs (Decidable (_ ∧ _))

end Listing

section Entries

variable {field : Vector UInt8 17} {calls : List Call}

theorem entry_registered {e : Entry} (member : e ∈ (tableAfter field calls).entries) :
    (contents e.name).length ≤ 16 ∧ isSender e.pid := by
  have held : (contents e.name, e.pid) ∈ (Registry.ofHistory (history calls)).entries := by
    rw [← (holds_after field calls).entries]
    exact List.mem_map_of_mem member
  rcases List.mem_cons.1 (Registry.mem_history held) with own | registered
  · obtain ⟨name, pid⟩ := Prod.mk.inj own
    rw [name, pid]
    decide
  · obtain ⟨call, _, made⟩ := List.mem_filterMap.1 registered
    split at made
    · next positive =>
      split at made
      · next name _ =>
        obtain ⟨key, pid⟩ := Prod.mk.inj (Option.some.inj made)
        rw [← key, ← pid]
        exact ⟨length_key name, positive⟩
      · cases made
    · cases made

theorem stack_entries_at (stack : Stack) {i : Nat} (inside : i < stack.entries.length) :
    (stack.entries[i]).name.length = 20 := by
  simp [Stack.entries]

theorem sent_at (stack : Stack) {table : NsTable} {i : Nat} {e : Entry}
    (found : table.entries[i]? = some e) (short : (contents e.name).length ≤ 16) (small : i < 16) :
    ∃ sent, (table.listAll stack.entries)[i]? = some sent ∧ sent.name.length = 20 ∧
      contents sent.name = contents e.name ∧ sent.pid = e.pid := by
  have room : i < stack.entries.length := by
    simpa [Stack.entries] using small
  have twenty := stack_entries_at stack room
  have slot : stack.entries[i]? = some stack.entries[i] := List.getElem?_eq_getElem room
  refine ⟨⟨(StringView.ofChars e.name).copyTo stack.entries[i].name 20, e.pid⟩, ?_, ?_, ?_, rfl⟩
  · unfold NsTable.listAll
    rw [List.getElem?_zipWith, found, slot]
  · dsimp only
    unfold StringView.copyTo
    rw [if_neg (by decide), List.length_set, length_copy_from, twenty]
  · exact contents_copy e.name _ (by omega) (Nat.le_of_eq twenty.symm)

theorem length_list_all (stack : Stack) (table : NsTable) :
    (table.listAll stack.entries).length = min table.entries.length 16 := by
  simp [NsTable.listAll, Stack.entries]

theorem byte_of_nat (value : UInt32) {k : Nat} (small : k < 4) :
    (byteOf value k).toNat = value.toNat / 256 ^ k % 256 := by
  have mask : ∀ n : Nat, n &&& 255 = n % 256 := fun n => Nat.and_two_pow_sub_one_eq_mod n 8
  unfold byteOf
  interval_cases k <;> simp [mask, Nat.shiftRight_eq_div_pow]

theorem le32_bytes (value : UInt32) :
    le32 (byteOf value 0) (byteOf value 1) (byteOf value 2) (byteOf value 3) = value := by
  have small := value.toNat_lt
  apply UInt32.toNat_inj.1
  unfold le32 CassiOS.Fat32.Types.le32
  rw [UInt32.toNat_ofNat', byte_of_nat _ (by decide), byte_of_nat _ (by decide),
    byte_of_nat _ (by decide), byte_of_nat _ (by decide)]
  norm_num
  omega

theorem encode_at {sent : List NsEntry} {i j : Nat} {e : NsEntry} (found : sent[i]? = some e)
    (inside : j < entrySize) : encode sent (entrySize * i + j) =
      if j < 20 then charAt e.name j else byteOf e.pid (j - 20) := by
  unfold encode
  rw [Nat.mul_add_div (by decide), Nat.div_eq_of_lt inside, Nat.add_zero, found]
  rw [Nat.mul_add_mod, Nat.mod_eq_of_lt inside]

theorem entry_delivered {sent : List NsEntry} {i room : Nat} {e : NsEntry}
    (found : sent[i]? = some e) (twenty : e.name.length = 20) (buf : Buf)
    (fits : entrySize * (i + 1) ≤ room) :
    entryAt (bulkCopy (encode sent) (sent.length * entrySize) buf room) i = e := by
  have within : i < sent.length := (List.getElem?_eq_some_iff.1 found).1
  have byte : ∀ j, j < entrySize →
      bulkCopy (encode sent) (sent.length * entrySize) buf room (entrySize * i + j) =
        if j < 20 then charAt e.name j else byteOf e.pid (j - 20) := by
    intro j inside
    unfold entrySize at fits inside
    rw [bulk_copy_at, if_pos (by unfold entrySize; omega), encode_at found inside]
  have name : (List.range 20).map (fun j =>
      bulkCopy (encode sent) (sent.length * entrySize) buf room (entrySize * i + j)) = e.name := by
    apply List.ext_getElem (by simp [twenty])
    intro j inside inside'
    have small : j < 20 := by omega
    rw [List.getElem_map, List.getElem_range, byte j (by unfold entrySize; omega), if_pos small]
    simp [charAt, inside']
  have pid : le32 (byteOf e.pid 0) (byteOf e.pid 1) (byteOf e.pid 2) (byteOf e.pid 3) = e.pid :=
    le32_bytes e.pid
  unfold entryAt
  rw [name, byte 20 (by decide), byte 21 (by decide), byte 22 (by decide), byte 23 (by decide)]
  exact congrArg (NsEntry.mk e.name) pid

end Entries

section Composition

variable (field : Vector UInt8 17) (calls : List Call) (maxEntries : UInt32) (stack : Stack)

def sentCount (table : NsTable) : Nat := min table.entries.length 16

theorem list_all_returns (table : NsTable) {sender : UInt32} (positive : isSender sender)
    (buf : Buf) : listAll table stack sender buf maxEntries =
      some (UInt32.ofNat (sentCount table), bulkCopy (encode (table.listAll stack.entries))
        ((table.listAll stack.entries).length * entrySize) buf
        (maxEntries * UInt32.ofNat entrySize).toNat) := by
  have handled : handle table ⟨sender, listRequest, none, stack.entries⟩ =
      (table, some ⟨sender, { Message.zero with
        arg1 := UInt32.ofNat (table.listAll stack.entries).length },
        table.listAll stack.entries⟩) := by
    have register : ¬ listRequest.type = MessageType.nsRegister := by decide
    have lookup : ¬ listRequest.type = MessageType.nsLookup := by decide
    unfold handle
    exact (if_neg (not_not.2 positive)).trans
      ((if_neg register).trans ((if_neg lookup).trans (if_pos rfl)))
  unfold listAll sentCount
  rw [handled, ← length_list_all stack table]
  rfl

theorem sent_count_word (table : NsTable) :
    (UInt32.ofNat (sentCount table)).toNat = sentCount table := by
  unfold sentCount
  rw [UInt32.toNat_ofNat']
  omega

def received (table : NsTable) (buf : Buf) : Buf :=
  bulkCopy (encode (table.listAll stack.entries))
    ((table.listAll stack.entries).length * entrySize) buf
    (maxEntries * UInt32.ofNat entrySize).toNat

variable {maxEntries stack} {table : NsTable}

/-- The entries of the client are those of the table when they all fit. -/
theorem entry_received
    (short : ∀ e ∈ table.entries, (contents e.name).length ≤ 16)
    (fits : entrySize * sentCount table ≤ (maxEntries * UInt32.ofNat entrySize).toNat) (buf : Buf)
    {i : Nat} (small : i < 16) {e : Entry} (found : table.entries[i]? = some e) :
    contents (entryAt (received maxEntries stack table buf) i).name = contents e.name ∧
      (entryAt (received maxEntries stack table buf) i).pid = e.pid := by
  have within : i < table.entries.length := (List.getElem?_eq_some_iff.1 found).1
  obtain ⟨sent, sentAt, twenty, name, pid⟩ :=
    sent_at stack found (short e (List.mem_of_getElem? found)) small
  have room : entrySize * (i + 1) ≤ (maxEntries * UInt32.ofNat entrySize).toNat := by
    refine Nat.le_trans (Nat.mul_le_mul_left _ ?_) fits
    unfold sentCount
    omega
  unfold received
  rw [entry_delivered sentAt twenty buf room]
  exact ⟨name, pid⟩

theorem last_byte_kept {room : Nat} {i : Nat} (more : room < entrySize * (i + 1)) (src buf : Buf)
    (n : Nat) : (entryAt (bulkCopy src n buf room) i).pid.toNat / 2 ^ 24 =
      (buf (entrySize * i + 23)).toNat := by
  unfold entrySize at more
  have kept : bulkCopy src n buf room (entrySize * i + 23) = buf (entrySize * i + 23) := by
    rw [bulk_copy_at, if_neg (by unfold entrySize; omega)]
  unfold entryAt le32 CassiOS.Fat32.Types.le32
  dsimp only
  rw [kept, UInt32.toNat_ofNat']
  have b₀ := (bulkCopy src n buf room (entrySize * i + 20)).toNat_lt
  have b₁ := (bulkCopy src n buf room (entrySize * i + 21)).toNat_lt
  have b₂ := (bulkCopy src n buf room (entrySize * i + 22)).toNat_lt
  have b₃ := (buf (entrySize * i + 23)).toNat_lt
  omega

theorem sender_small {pid : UInt32} (positive : isSender pid) : pid.toNat / 2 ^ 24 ≠ 255 := by
  have above : (0 : Int) < pid.toBitVec.toInt := Int32.lt_iff_toInt_lt.1 positive
  rw [BitVec.toInt_eq_toNat_cond] at above
  have small := pid.toNat_lt
  change (0 : Int) < if 2 * pid.toNat < 2 ^ 32 then (pid.toNat : Int)
    else pid.toNat - (2 ^ 32 : Nat) at above
  split at above <;> omega

end Composition

section Law

variable {maxEntries : UInt32} {stack : Stack} (field : Vector UInt8 17) (calls : List Call)

theorem position_unique {table : NsTable}
    (distinct : table.entries.Pairwise fun a b =>
      (StringView.ofChars a.name).equals (StringView.ofChars b.name) = false)
    {i j : Nat} {a b : Entry} (before : i < j) (first : table.entries[i]? = some a)
    (second : table.entries[j]? = some b) : contents a.name ≠ contents b.name := by
  intro same
  have apart := List.pairwise_iff_getElem.1 distinct
  obtain ⟨inside, rfl⟩ := List.getElem?_eq_some_iff.1 first
  obtain ⟨inside', rfl⟩ := List.getElem?_eq_some_iff.1 second
  have differ := apart i j inside inside' before
  rw [(equals_iff _ _).2 same] at differ
  cases differ

theorem fits_of_lists (stack : Stack) {table : NsTable} (all : ∀ e ∈ table.entries,
      (contents e.name).length ≤ 16 ∧ isSender e.pid)
    (distinct : table.entries.Pairwise fun a b =>
      (StringView.ofChars a.name).equals (StringView.ofChars b.name) = false)
    (lists : ∀ buf, Lists table maxEntries (UInt32.ofNat (sentCount table))
      (received maxEntries stack table buf)) :
    Fits table.entries.length maxEntries := by
  have fits : entrySize * sentCount table ≤ (maxEntries * UInt32.ofNat entrySize).toNat := by
    by_contra more
    obtain ⟨last, same⟩ : ∃ last, sentCount table = last + 1 :=
      Nat.exists_eq_succ_of_ne_zero (by rintro zero; rw [zero] at more; omega)
    rw [same] at more
    obtain ⟨e, member, _, pid⟩ := (lists fun _ => 0xFF).registered last
      (by rw [sent_count_word, same]; exact Nat.lt_succ_self last)
    have kept := last_byte_kept (Nat.lt_of_not_le more) (encode (table.listAll stack.entries))
      (fun _ => 0xFF) ((table.listAll stack.entries).length * entrySize)
    unfold received at pid
    rw [pid] at kept
    exact sender_small (all e member).2 kept
  refine ⟨fits, ?_⟩
  by_contra neither
  have many : 16 < table.entries.length ∧ table.entries.length ≤ maxEntries.toNat := by omega
  have found := List.getElem?_eq_getElem many.1
  obtain ⟨i, small, name, _⟩ := (lists fun _ => 0).complete many.2 _ (List.getElem_mem many.1)
  have within : i < 16 := by
    rw [sent_count_word] at small
    exact Nat.lt_of_lt_of_le small (Nat.min_le_right _ _)
  have here := List.getElem?_eq_getElem (show i < table.entries.length by omega)
  have same : contents (entryAt (received maxEntries stack table fun _ => 0) i).name = _ :=
    (entry_received (fun e member => (all e member).1) fits (fun _ => 0) within here).1
  exact position_unique distinct within here found (same.symm.trans name)

theorem lists_of_fits {table : NsTable} (all : ∀ e ∈ table.entries,
      (contents e.name).length ≤ 16 ∧ isSender e.pid)
    (distinct : table.entries.Pairwise fun a b =>
      (StringView.ofChars a.name).equals (StringView.ofChars b.name) = false)
    (fits : Fits table.entries.length maxEntries) (buf : Buf) :
    Lists table maxEntries (UInt32.ofNat (sentCount table))
      (received maxEntries stack table buf) := by
  have arrives : ∀ i, i < sentCount table → ∃ e, table.entries[i]? = some e ∧
      contents (entryAt (received maxEntries stack table buf) i).name = contents e.name ∧
      (entryAt (received maxEntries stack table buf) i).pid = e.pid := by
    intro i small
    unfold sentCount at small
    have here := List.getElem?_eq_getElem (show i < table.entries.length by omega)
    exact ⟨_, here, entry_received (fun e member => (all e member).1) fits.1 buf (by omega) here⟩
  have room : sentCount table ≤ maxEntries.toNat := by
    have product : (maxEntries * UInt32.ofNat entrySize).toNat ≤ maxEntries.toNat * entrySize := by
      rw [UInt32.toNat_mul]
      exact Nat.mod_le _ _
    have enough := Nat.le_trans fits.1 product
    unfold entrySize at enough
    change 24 * sentCount table ≤ _ at enough
    omega
  exact {
    bounded := by
      rw [UInt32.le_iff_toNat_le, sent_count_word]
      exact room
    registered := fun i small => by
      rw [sent_count_word] at small
      obtain ⟨e, here, same⟩ := arrives i small
      exact ⟨e, List.mem_of_getElem? here, same⟩
    different := fun i j before small => by
      rw [sent_count_word] at small
      obtain ⟨a, first, name, _⟩ := arrives i (by omega)
      obtain ⟨b, second, name', _⟩ := arrives j small
      rw [name, name']
      exact position_unique distinct before first second
    complete := fun enough e member => by
      obtain ⟨i, here⟩ := List.getElem?_of_mem member
      have within := (List.getElem?_eq_some_iff.1 here).1
      have few : table.entries.length ≤ 16 := by
        rcases fits.2 with few | less
        · exact few
        · omega
      have small : i < sentCount table := by
        unfold sentCount
        omega
      obtain ⟨e', here', same⟩ := arrives i small
      obtain rfl := Option.some.inj (here.symm.trans here')
      exact ⟨i, by rwa [sent_count_word], same⟩ }

/-- After any requests a client gets what it is owed, whatever its buffer held, exactly when the
entries fit. -/
theorem listing_bounded_iff (maxEntries : UInt32) (stack : Stack) {sender : UInt32}
    (positive : isSender sender) :
    (∀ buf, ∃ count after,
      listAll (tableAfter field calls) stack sender buf maxEntries = some (count, after) ∧
        Lists (tableAfter field calls) maxEntries count after) ↔
      Fits (tableAfter field calls).entries.length maxEntries := by
  have all : ∀ e ∈ (tableAfter field calls).entries,
      (contents e.name).length ≤ 16 ∧ isSender e.pid := fun _ => entry_registered
  have distinct := (holds_after field calls).distinct
  have returns := fun buf =>
    list_all_returns maxEntries stack (tableAfter field calls) positive buf
  constructor
  · intro lists
    apply fits_of_lists stack all distinct
    intro buf
    obtain ⟨count, after, run, listed⟩ := lists buf
    obtain ⟨rfl, rfl⟩ := Prod.mk.inj (Option.some.inj ((returns buf).symm.trans run))
    exact listed
  · intro fits buf
    exact ⟨_, _, returns buf, lists_of_fits all distinct fits buf⟩

/-- `vfs` and `ata` are registered by processes 3 and 4, and `vfs` once more by process 5. -/
def registering : List Call :=
  [⟨3, .register [0x76, 0x66, 0x73], Vector.replicate 17 0⟩,
    ⟨4, .register [0x61, 0x74, 0x61], Vector.replicate 17 0⟩,
    ⟨5, .register [0x76, 0x66, 0x73], Vector.replicate 17 0⟩]

/-- The client has room for the three names exactly. -/
theorem registered_names_listed :
    let table := tableAfter (Vector.replicate 17 0) registering
    let stack : Stack := Vector.replicate 16 (Vector.replicate 20 0, 0)
    table.entries.length = 3 ∧ ∀ buf, ∃ count after,
      listAll table stack 2 buf 3 = some (count, after) ∧ Lists table 3 count after := by
  intro table stack
  have three : table.entries.length = 3 := by decide
  refine ⟨three, (listing_bounded_iff (Vector.replicate 17 0) registering 3 stack
    (show isSender 2 by decide)).2 ?_⟩
  change Fits table.entries.length 3
  rw [three]
  decide

/-- With room for no entry the count is still 1. -/
theorem count_exceeds_buffer :
    let table := tableAfter (Vector.replicate 17 0) []
    let stack : Stack := Vector.replicate 16 (Vector.replicate 20 0, 0)
    (listAll table stack 2 (fun _ => 0) 0).map Prod.fst = some 1 ∧
      ∀ count after, listAll table stack 2 (fun _ => 0) 0 = some (count, after) →
        ¬ Lists table 0 count after := by
  intro table stack
  have counted : (listAll table stack 2 (fun _ => 0) 0).map Prod.fst = some 1 := by decide
  refine ⟨counted, ?_⟩
  intro count after run lists
  rw [run] at counted
  obtain rfl := Option.some.inj counted
  exact absurd lists.bounded (by decide)

end Law

end CassiOS.Userland.NameserverListing
