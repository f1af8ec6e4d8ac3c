import CassiOS.Support.FirstWins
import CassiOS.Userland.Nameserver
import Mathlib.Tactic.IntervalCases

/-!
# Registered names

Names go through four words of a message, so two names are one name for the server when
their first sixteen bytes are. The table is a registry in which the first registration of a
name stays, and the first of all is the server's own.
-/

namespace CassiOS.Userland.NameRegistration

open CassiOS.Support.FirstWins
open CassiOS.Userland.Messages
open CassiOS.Userland.Nameserver

set_option autoImplicit false

section Packing

def nameKey (name : Chars) : Chars := (contents name).take maxNameLen

theorem byte_bit (value : UInt32) {k : Nat} (small : k < 4) {i : Nat} (inside : i < 8) :
    (byteOf value k).toBitVec.getLsbD i = value.toBitVec.getLsbD (k * 8 + i) := by
  have mask : ∀ i, (inside : i < 8) → (255#8)[i] = true := by decide
  unfold byteOf
  simp [inside, mask]
  rw [Nat.mod_eq_of_lt (by omega)]

theorem byte_or (value : UInt32) (ch : UInt8) {k m : Nat} (small : k < 4) (small' : m < 4) :
    byteOf (value ||| ch.toUInt32 <<< UInt32.ofNat (m * 8)) k =
      if k = m then byteOf value k ||| ch else byteOf value k := by
  apply UInt8.eq_of_toBitVec_eq
  apply BitVec.eq_of_getLsbD_eq
  intro i inside
  have old := byte_bit value small inside
  rw [byte_bit _ small inside]
  simp
  rw [Nat.mod_eq_of_lt (by omega), ← old]
  by_cases same : k = m
  · subst same
    rw [if_pos rfl]
    simp [show i < 32 by omega, show k * 8 + i < 32 by omega]
  · rw [if_neg same]
    have outside : ch.toBitVec.getLsbD (k * 8 + i - m * 8) = true → k * 8 + i < m * 8 := by
      intro bit
      have := BitVec.lt_of_getLsbD bit
      omega
    grind

def packed (msg : Message) (j : Nat) : UInt8 := byteOf (word msg (j / 4)) (j % 4)

theorem word_set (msg : Message) (value : UInt32) {i j : Nat} (small : i < 4) (small' : j < 4) :
    word (setWord msg i value) j = if j = i then value else word msg j := by
  interval_cases i <;> interval_cases j <;> rfl

theorem packed_char (msg : Message) (ch : UInt8) {i j : Nat} (small : i < 16) (small' : j < 16) :
    packed (setWord msg (i / 4) (word msg (i / 4) ||| ch.toUInt32 <<< UInt32.ofNat (i % 4 * 8))) j =
      if j = i then packed msg j ||| ch else packed msg j := by
  unfold packed
  rw [word_set _ _ (by omega) (by omega)]
  by_cases here : j / 4 = i / 4
  · rw [if_pos here, here, byte_or _ _ (by omega) (by omega)]
    by_cases same : j = i
    · rw [if_pos same, if_pos (by rw [same])]
    · rw [if_neg same, if_neg (by omega)]
  · rw [if_neg here, if_neg (by rintro rfl; exact here rfl)]

theorem contents_drop {name : Chars} {i : Nat} (here : charAt name i ≠ 0) :
    contents (name.drop i) = charAt name i :: contents (name.drop (i + 1)) := by
  have inside : i < name.length := by
    by_contra outside
    apply here
    unfold charAt
    rw [List.getD_eq_getElem?_getD, List.getElem?_eq_none (Nat.le_of_not_lt outside)]
    rfl
  have head : charAt name i = name[i] := by
    unfold charAt
    rw [List.getD_eq_getElem?_getD, List.getElem?_eq_getElem inside]
    rfl
  rw [List.drop_eq_getElem_cons inside, ← head]
  exact List.takeWhile_cons_of_pos (decide_eq_true here)

theorem contents_drop_nil {name : Chars} {i : Nat} (here : charAt name i = 0) :
    contents (name.drop i) = [] := by
  by_cases inside : i < name.length
  · have head : charAt name i = name[i] := by
      unfold charAt
      rw [List.getD_eq_getElem?_getD, List.getElem?_eq_getElem inside]
      rfl
    rw [List.drop_eq_getElem_cons inside, ← head, here]
    rfl
  · rw [List.drop_eq_nil_of_le (Nat.le_of_not_lt inside)]
    rfl

/-- The loop of `packName` from the character `i`, whose bytes are still empty. -/
theorem packed_from (name : Chars) (n i : Nat) (msg : Message) (short : i + n ≤ 16)
    (empty : ∀ j, i ≤ j → j < 16 → packed msg j = 0) {j : Nat} (small : j < 16) :
    packed (packFrom name i n msg) j =
      if j < i then packed msg j else charAt ((contents (name.drop i)).take n) (j - i) := by
  induction n generalizing i msg with
  | zero =>
      unfold packFrom
      split
      · rfl
      · exact empty j (by omega) small
  | succ n ih =>
      unfold packFrom
      by_cases here : charAt name i ≠ 0
      · rw [if_pos here, contents_drop here]
        dsimp only
        rw [ih (i + 1) _ (by omega)]
        · by_cases before : j < i
          · rw [if_pos (by omega), if_pos before, packed_char _ _ (by omega) small,
              if_neg (by omega)]
          · rw [if_neg before]
            by_cases same : j = i
            · subst same
              rw [if_pos (by omega), packed_char _ _ small small, if_pos rfl,
                empty j (Nat.le_refl j) small, Nat.sub_self]
              exact UInt8.zero_or
            · obtain ⟨d, rfl⟩ : ∃ d, j = i + 1 + d := ⟨j - (i + 1), by omega⟩
              rw [if_neg (by omega), show i + 1 + d - i = d + 1 by omega,
                show i + 1 + d - (i + 1) = d by omega]
              rfl
        · intro k later inside
          rw [packed_char _ _ (by omega) inside, if_neg (by omega)]
          exact empty k (by omega) inside
      · rw [if_neg here, contents_drop_nil (not_not.1 here)]
        split
        · rfl
        · rw [empty j (by omega) small]
          rfl

theorem packed_name (name : Chars) (msg : Message) {j : Nat} (small : j < 16) :
    packed (packName name msg) j = charAt (nameKey name) j := by
  unfold packName
  rw [packed_from name _ 0 _ (by decide) _ small, if_neg (by omega)]
  · rfl
  · intro k _ inside
    have cleared : word { msg with arg1 := 0, arg2 := 0, arg3 := 0, arg4 := 0 } (k / 4) = 0 := by
      interval_cases k <;> rfl
    unfold packed
    rw [cleared]
    interval_cases k <;> decide

theorem length_key (name : Chars) : (nameKey name).length ≤ 16 := by
  unfold nameKey
  rw [List.length_take]
  exact Nat.min_le_left _ _

theorem key_clean (name : Chars) : 0 ∉ nameKey name := fun member =>
  no_nul_in_contents name (List.mem_of_mem_take member)

theorem char_at_end (s : Chars) {i : Nat} (inside : i ≤ s.length) :
    (s ++ [0])[i]? = some (charAt s i) := by
  unfold charAt
  rw [List.getD_eq_getElem?_getD]
  by_cases last : i = s.length
  · subst last
    rw [List.getElem?_concat_length, List.getElem?_eq_none (Nat.le_refl _)]
    rfl
  · have before : i < s.length := by omega
    rw [List.getElem?_append_left before, List.getElem?_eq_getElem before]
    rfl

theorem unpack_at (name : Chars) (msg : Message) {i : Nat} (inside : i ≤ 16) :
    (unpackName (packName name msg))[i]? = some (charAt (nameKey name) i) := by
  unfold unpackName maxNameLen
  by_cases last : i = 16
  · subst last
    have behind : charAt (nameKey name) 16 = 0 := by
      unfold charAt
      rw [List.getD_eq_getElem?_getD, List.getElem?_eq_none (length_key name)]
      rfl
    rw [List.getElem?_append_right (by simp), behind]
    simp
  · have before : i < 16 := by omega
    rw [List.getElem?_append_left (by simpa using before), List.getElem?_map,
      List.getElem?_range before, ← packed_name name msg before]
    rfl

/-- What comes out is the name, as far as it fits, with a NUL behind it. -/
theorem contents_unpack (name : Chars) (msg : Message) :
    contents (unpackName (packName name msg)) = nameKey name := by
  have short := length_key name
  apply contents_of_start (key_clean name)
  apply List.prefix_iff_getElem?.2
  intro i inside
  rw [← List.getElem?_eq_getElem inside]
  rw [List.length_append, List.length_singleton] at inside
  rw [unpack_at name msg (by omega), char_at_end _ (by omega)]

end Packing

section Table

structure Holds (table : NsTable) (r : Registry Chars UInt32) : Prop where
  entries : table.entries.map (fun e => (contents e.name, e.pid)) = r.entries
  pids : ∀ key pid, r.lookup key = some pid → pid ≠ 0

variable {table : NsTable} {r : Registry Chars UInt32}

theorem lookup_first (entries : List Entry) (name : Chars) :
    NsTable.lookupFrom (StringView.ofChars name) entries =
      (first (entries.map fun e => (contents e.name, e.pid)) (contents name)).getD 0 := by
  induction entries with
  | nil => rfl
  | cons e rest ih =>
      unfold NsTable.lookupFrom
      rw [List.map_cons, first_cons, ih]
      by_cases same : contents e.name = contents name
      · rw [if_pos ((equals_iff _ _).2 same), if_pos same]
        rfl
      · rw [if_neg (fun equal => same ((equals_iff _ _).1 equal)), if_neg same]

theorem Holds.lookup (holds : Holds table r) (name : Chars) :
    table.lookup name = (r.lookup (contents name)).getD 0 := by
  unfold NsTable.lookup Registry.lookup
  rw [lookup_first, holds.entries]

theorem Holds.known (holds : Holds table r) (name : Chars) :
    table.lookup name ≠ 0 ↔ r.lookup (contents name) ≠ none := by
  rw [holds.lookup]
  cases found : r.lookup (contents name) with
  | none => exact ⟨fun absent => absurd rfl absent, fun absent => absurd rfl absent⟩
  | some pid => exact ⟨fun _ => nofun, fun _ => holds.pids _ _ found⟩

theorem Holds.register (holds : Holds table r) (name field : Chars) {pid : UInt32}
    (fits : (contents name).length ≤ 16) (room : field.length = 17) (some_ : pid ≠ 0) :
    Holds (table.registerName name pid (some field)).1 (r.register (contents name) pid) ∧
    (table.registerName name pid (some field)).2 =
      if r.lookup (contents name) = none then 1 else 0 := by
  unfold NsTable.registerName
  by_cases known : table.lookup name ≠ 0
  · have taken := (holds.known name).1 known
    rw [if_pos known, Registry.register_known taken, if_neg taken]
    exact ⟨holds, rfl⟩
  · have fresh : r.lookup (contents name) = none := by
      by_contra taken
      exact known ((holds.known name).2 taken)
    rw [if_neg known, if_pos fresh]
    refine ⟨⟨?_, ?_⟩, rfl⟩
    · rw [Registry.register_entries fresh, List.map_cons, holds.entries]
      dsimp only
      rw [contents_copy name field (by unfold maxNameLen; omega) (by unfold maxNameLen; omega)]
    · intro key found here
      rw [Registry.lookup_register] at here
      cases old : r.lookup key with
      | some pid' =>
          rw [old] at here
          cases here
          exact holds.pids key _ old
      | none =>
          rw [old, Option.none_or] at here
          split at here
          · cases here
            exact some_
          · cases here

end Table

section Runs

/-- A request of a client, and the memory for the entry it may make. -/
structure Call where
  sender : UInt32
  request : Request
  field : Vector UInt8 17

def Call.received (call : Call) : Received :=
  ⟨call.sender, call.request.message, some call.field.toList, []⟩

/-- The registrations among the requests, by what the server gets of the names. A sender that
is negative as `i32` is passed over. -/
def registrations (calls : List Call) : List (Chars × UInt32) :=
  calls.filterMap fun call =>
    if isSender call.sender then
      match call.request with
      | .register name => some (nameKey name, call.sender)
      | .lookup _ => none
    else none

/-- The server registers itself before it takes requests. -/
def history (calls : List Call) : List (Chars × UInt32) :=
  (ownName, serverPid) :: registrations calls

def tableAfter (field : Vector UInt8 17) (calls : List Call) : NsTable :=
  serve (start (some field.toList)) (calls.map Call.received)

def answer (before : List Call) (call : Call) : Option Reply :=
  if isSender call.sender then
    let value := match call.request with
      | .lookup name => (first (history before) (nameKey name)).getD 0
      | .register name => if first (history before) (nameKey name) = none then 1 else 0
    some ⟨call.sender, { Message.zero with arg1 := value }, []⟩
  else none

theorem contents_clean {name : Chars} (clean : 0 ∉ name) : contents name = name := by
  unfold contents
  apply List.takeWhile_eq_self_iff.2
  intro ch member
  apply decide_eq_true
  rintro rfl
  exact clean member

theorem pack_type (name : Chars) (n i : Nat) (msg : Message) :
    (packFrom name i n msg).type = msg.type := by
  induction n generalizing i msg with
  | zero => rfl
  | succ n ih =>
      unfold packFrom
      split
      · rw [ih]
        unfold setWord
        split <;> rfl
      · rfl

theorem holds_start (field : Vector UInt8 17) :
    Holds (start (some field.toList)) (Registry.ofHistory (history [])) := by
  have none : Holds NsTable.empty (Registry.empty : Registry Chars UInt32) := ⟨rfl, nofun⟩
  have own := none.register ownName field.toList (by decide) (by rw [Vector.length_toList])
    (show serverPid ≠ 0 by decide)
  rw [contents_clean (by decide)] at own
  exact own.1

theorem register_handled (table : NsTable) {call : Call} {name : Chars}
    (positive : isSender call.sender) (request : call.request = .register name) :
    handle table call.received =
      let registered := table.registerName (unpackName call.request.message) call.sender
        (some call.field.toList)
      (registered.1, some ⟨call.sender, { Message.zero with arg1 := registered.2 }, []⟩) := by
  have type : call.request.message.type = MessageType.nsRegister := by
    rw [request]
    exact pack_type _ _ _ _
  unfold handle
  exact (if_neg (not_not.2 positive)).trans (if_pos type)

theorem lookup_handled (table : NsTable) {call : Call} {name : Chars}
    (positive : isSender call.sender) (request : call.request = .lookup name) :
    handle table call.received =
      (table, some ⟨call.sender,
        { Message.zero with arg1 := table.lookup (unpackName call.request.message) }, []⟩) := by
  have type : call.request.message.type = MessageType.nsLookup := by
    rw [request]
    exact pack_type _ _ _ _
  have other : ¬ call.request.message.type = MessageType.nsRegister := by
    rw [type]
    decide
  unfold handle
  exact (if_neg (not_not.2 positive)).trans ((if_neg other).trans (if_pos type))

theorem registrations_concat (calls : List Call) (call : Call) :
    registrations (calls ++ [call]) = registrations calls ++ registrations [call] :=
  List.filterMap_append

theorem handle_call {table : NsTable} {before : List Call}
    (holds : Holds table (Registry.ofHistory (history before))) (call : Call) :
    Holds (handle table call.received).1 (Registry.ofHistory (history (before ++ [call]))) ∧
    (handle table call.received).2 = answer before call := by
  have known : ∀ name, (Registry.ofHistory (history before)).lookup name =
    first (history before) name := Registry.lookup_of_history _
  unfold answer history
  rw [registrations_concat]
  by_cases positive : isSender call.sender
  · rw [if_pos positive]
    cases request : call.request with
    | register name =>
        have one : registrations [call] = [(nameKey name, call.sender)] := by
          unfold registrations
          rw [List.filterMap_cons, if_pos positive, request]
          rfl
        have came : contents (unpackName call.request.message) = nameKey name := by
          rw [request]
          exact contents_unpack name _
        have registered := holds.register (unpackName call.request.message) call.field.toList
          (by rw [came]; exact length_key name) (by rw [Vector.length_toList])
          (sender_ne_zero positive)
        rw [came, known] at registered
        rw [register_handled table positive request, one, ← List.cons_append,
          Registry.of_history_concat]
        dsimp only
        rw [registered.2]
        exact ⟨registered.1, rfl⟩
    | lookup name =>
        have none : registrations [call] = [] := by
          unfold registrations
          rw [List.filterMap_cons, if_pos positive, request]
          rfl
        have came : contents (unpackName call.request.message) = nameKey name := by
          rw [request]
          exact contents_unpack name _
        rw [lookup_handled table positive request, none, List.append_nil]
        refine ⟨holds, ?_⟩
        dsimp only
        rw [holds.lookup, came, known]
        rfl
  · have none : registrations [call] = [] := by
      unfold registrations
      rw [List.filterMap_cons, if_neg positive]
      rfl
    have passed : handle table call.received = (table, Option.none) := if_pos positive
    rw [passed, none, List.append_nil, if_neg positive]
    exact ⟨holds, rfl⟩

theorem holds_after (field : Vector UInt8 17) (calls : List Call) :
    Holds (tableAfter field calls) (Registry.ofHistory (history calls)) := by
  induction calls using List.reverseRec with
  | nil => exact holds_start field
  | append_singleton calls call ih =>
      have next : tableAfter field (calls ++ [call]) =
          (handle (tableAfter field calls) call.received).1 := by
        unfold tableAfter serve
        rw [List.map_append, List.foldl_append]
        rfl
      rw [next]
      exact (handle_call ih call).1

theorem Holds.distinct {table : NsTable} {r : Registry Chars UInt32} (holds : Holds table r) :
    table.entries.Pairwise fun a b =>
      (StringView.ofChars a.name).equals (StringView.ofChars b.name) = false := by
  have distinct := r.distinct
  rw [← holds.entries, List.map_map] at distinct
  apply (List.pairwise_map.1 distinct).imp
  intro a b apart
  apply Bool.eq_false_iff.2
  exact fun same => apart ((equals_iff _ _).1 same)

/-- After any requests a lookup gets the process that registered the name first, and a
registration succeeds when there is none; no two entries have one name. -/
theorem first_registration_wins (field : Vector UInt8 17) (calls : List Call) (call : Call) :
    (handle (tableAfter field calls) call.received).2 = answer calls call ∧
    (tableAfter field calls).entries.Pairwise fun a b =>
      (StringView.ofChars a.name).equals (StringView.ofChars b.name) = false :=
  ⟨(handle_call (holds_after field calls) call).2, (holds_after field calls).distinct⟩

/-- The server's own name has a process though no client registered it, and a sender that is
negative as `i32` gets no reply. -/
theorem own_name_is_taken :
    let field := Vector.replicate 17 0
    let call := Call.mk 5 (.lookup ownName) field
    ((handle (tableAfter field []) call.received).2.map fun reply => reply.msg.arg1) = some 1 ∧
    (first (registrations []) (nameKey ownName)).getD 0 = 0 ∧
    (handle (tableAfter field []) { call with sender := 0x80000000 }.received).2.isNone := by
  decide

end Runs

end CassiOS.Userland.NameRegistration
