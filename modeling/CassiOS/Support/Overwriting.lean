import CassiOS.Support.Rasters
import Mathlib.Data.Set.Basic
import Mathlib.Order.Interval.Set.Defs

/-!
# Operations that overwrite places

An operation on a memory that puts values of its own at some places and leaves the others
alone. Such operations compose, and the places are those that the operation can change.
-/

namespace CassiOS.Support.Overwriting

open CassiOS.Support.Rasters

set_option autoImplicit false

section Rules

variable {ι α : Type*} {f g : (ι → α) → ι → α} {s t : Set ι}

structure Overwrites (f : (ι → α) → ι → α) (s : Set ι) : Prop where
  inside : ∀ i ∈ s, ∃ value, ∀ m, f m i = value
  outside : ∀ i, i ∉ s → ∀ m, f m i = m i

/-- The places where the operation changes some memory. -/
def changed (f : (ι → α) → ι → α) : Set ι := {i | ∃ m, f m i ≠ m i}

theorem Overwrites.changed_eq [Nontrivial α] (overwrites : Overwrites f s) : changed f = s := by
  ext i
  constructor
  · rintro ⟨m, differ⟩
    by_contra apart
    exact differ (overwrites.outside i apart m)
  · intro member
    obtain ⟨value, same⟩ := overwrites.inside i member
    obtain ⟨other, apart⟩ := exists_ne value
    exact ⟨fun _ => other, fun equal => apart (equal.symm.trans (same _))⟩

theorem Overwrites.nothing : Overwrites (fun m : ι → α => m) (∅ : Set ι) where
  inside i member := absurd member (Set.notMem_empty i)
  outside _ _ _ := rfl

theorem Overwrites.trans (first : Overwrites f s) (second : Overwrites g t) :
    Overwrites (fun m => g (f m)) (s ∪ t) where
  inside i member := by
    by_cases later : i ∈ t
    · obtain ⟨value, same⟩ := second.inside i later
      exact ⟨value, fun m => same (f m)⟩
    · obtain ⟨value, same⟩ := first.inside i (member.resolve_right later)
      exact ⟨value, fun m => (second.outside i later (f m)).trans (same m)⟩
  outside i apart m :=
    (second.outside i (fun later => apart (Or.inr later)) (f m)).trans
      (first.outside i (fun earlier => apart (Or.inl earlier)) m)

theorem Overwrites.congr (overwrites : Overwrites f s) (same : ∀ i, i ∈ s ↔ i ∈ t) :
    Overwrites f t := Set.ext same ▸ overwrites

end Rules

section Memory

theorem Overwrites.changed_bytes {f : Bytes → Bytes} {s : Set Nat} (overwrites : Overwrites f s) :
    changed f = s :=
  have : Nontrivial UInt8 := ⟨0, 1, by decide⟩
  overwrites.changed_eq

theorem overwrites_store (a : Nat) (value : UInt32) :
    Overwrites (fun m => storeWord m a value) (Set.Ico a (a + 4)) where
  inside i member := ⟨wordByte value (i - a), fun _ => if_pos member⟩
  outside _ apart _ := if_neg apart

theorem overwrites_copy (a : Nat) (source : Bytes) (n : Nat) :
    Overwrites (fun m => copyBytes m a source n) (Set.Ico a (a + n)) where
  inside i member := ⟨source (i - a), fun _ => if_pos member⟩
  outside _ apart _ := if_neg apart

theorem overwrites_iterate {body : Nat → Bytes → Bytes} {s : Nat → Set Nat} (n : Nat)
    (rounds : ∀ j, Overwrites (body j) (s j)) :
    Overwrites (iterate body n) {i | ∃ j, j < n ∧ i ∈ s j} := by
  induction n with
  | zero =>
      apply Overwrites.nothing.congr
      simp
  | succ n ih =>
      apply (ih.trans (rounds n)).congr
      intro i
      constructor
      · intro member
        rcases member with ⟨j, before, here⟩ | last
        · exact ⟨j, Nat.lt_succ_of_lt before, here⟩
        · exact ⟨n, Nat.lt_succ_self n, last⟩
      · intro ⟨j, before, here⟩
        rcases Nat.lt_succ_iff_lt_or_eq.1 before with earlier | rfl
        · exact Or.inl ⟨j, earlier, here⟩
        · exact Or.inr here

theorem copy_congr {m source source' : Bytes} {a n : Nat}
    (same : ∀ i < n, source i = source' i) : copyBytes m a source n = copyBytes m a source' n := by
  funext i
  by_cases inside : a ≤ i ∧ i < a + n
  · rw [copy_inside m source inside.1 inside.2, copy_inside m source' inside.1 inside.2]
    exact same (i - a) (by omega)
  · rw [copy_apart m source (by omega), copy_apart m source' (by omega)]

theorem iterate_congr {body body' : Nat → Bytes → Bytes} {n : Nat} (m : Bytes)
    (same : ∀ j < n, ∀ m, body j m = body' j m) : iterate body n m = iterate body' n m := by
  induction n with
  | zero => rfl
  | succ n ih =>
      unfold iterate
      rw [ih fun j before => same j (Nat.lt_succ_of_lt before)]
      exact same n (Nat.lt_succ_self n) _

end Memory

end CassiOS.Support.Overwriting
