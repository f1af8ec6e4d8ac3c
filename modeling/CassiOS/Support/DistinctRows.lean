import Mathlib.Data.List.Pairwise

/-!
# Rows looked up by a key

A list of rows is searched for the first one whose key is the same as a given one, where "the
same" is any decidable equivalence. Where no two rows have the same key, the order of the rows
and the place of a new one do not matter to a search.
-/

namespace CassiOS.Support.DistinctRows

set_option autoImplicit false

variable {Row Key : Type*}

def Distinct (same : Key → Key → Bool) (key : Row → Key) (rows : List Row) : Prop :=
  rows.Pairwise fun a b => same (key a) (key b) = false

def search (same : Key → Key → Bool) (key : Row → Key) (rows : List Row) (k : Key) : Option Row :=
  rows.find? fun row => same (key row) k

variable {same : Key → Key → Bool} {key : Row → Key} {front back rows : List Row} {row : Row}
  {k : Key}

theorem search_none : search same key rows k = none ↔ ∀ row ∈ rows, same (key row) k = false := by
  unfold search
  rw [List.find?_eq_none]
  exact ⟨fun none row member => Bool.eq_false_iff.2 (none row member),
    fun none row member => Bool.eq_false_iff.1 (none row member)⟩

theorem search_middle (apart : same (key row) k = false) :
    search same key (front ++ row :: back) k = search same key (front ++ back) k := by
  have skipped : (row :: back).find? (fun row => same (key row) k) =
      back.find? fun row => same (key row) k := List.find?_cons_of_neg (Bool.eq_false_iff.1 apart)
  unfold search
  rw [List.find?_append, List.find?_append, skipped]

section Same

variable (equivalence : Equivalence fun a b => same a b = true)
include equivalence

theorem same_symm (a b : Key) : same a b = same b a :=
  Bool.eq_iff_iff.2 ⟨fun ab => equivalence.symm ab, fun ba => equivalence.symm ba⟩

theorem distinct_middle : Distinct same key (front ++ row :: back) ↔
    Distinct same key (front ++ back) ∧
      ∀ other ∈ front ++ back, same (key other) (key row) = false := by
  unfold Distinct
  rw [List.pairwise_middle fun {a b} apart => (same_symm equivalence _ _).trans apart,
    List.pairwise_cons, and_comm]
  apply and_congr_right
  intro _
  apply forall₂_congr
  intro other _
  rw [same_symm equivalence]

/-- A new row is found under its key, and hides nothing. -/
theorem search_insert (fresh : search same key (front ++ back) (key row) = none) :
    search same key (front ++ row :: back) k =
      if same (key row) k then some row else search same key (front ++ back) k := by
  split
  · next here =>
    have missed : search same key front k = none := by
      apply search_none.2
      intro other member
      apply Bool.eq_false_iff.2
      intro hit
      have clash := search_none.1 fresh other (List.mem_append_left back member)
      rw [equivalence.trans hit (equivalence.symm here)] at clash
      cases clash
    have hit : (row :: back).find? (fun row => same (key row) k) = some row :=
      List.find?_cons_of_pos here
    unfold search at missed ⊢
    rw [List.find?_append, missed, Option.none_or, hit]
  · next apart => exact search_middle (Bool.eq_false_iff.2 apart)

/-- Nothing is found under the key of a row that is gone. -/
theorem search_erase (distinct : Distinct same key (front ++ row :: back)) :
    search same key (front ++ back) k =
      if same (key row) k then none else search same key (front ++ row :: back) k := by
  split
  · next here =>
    apply search_none.2
    intro other member
    apply Bool.eq_false_iff.2
    intro hit
    have clash := ((distinct_middle equivalence).1 distinct).2 other member
    rw [equivalence.trans hit (equivalence.symm here)] at clash
    cases clash
  · next apart => exact (search_middle (Bool.eq_false_iff.2 apart)).symm

end Same

end CassiOS.Support.DistinctRows
