/-
AgenticIde/Lib/Sort.lean

Sorting under a relabelling.

A stable sort depends on nothing but the comparisons, so relabelling the elements of a list
commutes with sorting it as long as the comparisons stay the same.  Where no two elements are
equal in either order the converse holds as well (`map_mergeSort_iff`): a comparison that
changes shows in the result.

The converse is what decides whether a translation of keys is harmless.  It needs the two
orders to be antisymmetric on the list only, so keys that do not occur may be confused.
-/
import Mathlib.Data.List.Basic

namespace AgenticIde

variable {α β : Type*} {le : α → α → Bool} {le' : β → β → Bool} {f : α → β} {l : List α}

/-- What compares two ways is in order one way or the other. -/
theorem le_self_of_total (total : ∀ a b, (le a b || le b a) = true) (a : α) : le a a = true := by
  simpa using total a a

/-- **Sorting sees the comparisons and nothing else.**  One direction is general;
for the other, entries that are sorted alike must have compared alike, which takes
an order in which different entries do not compare equal. -/
theorem map_mergeSort_iff (trans : ∀ a b c, le a b = true → le b c = true → le a c = true)
    (total : ∀ a b, (le a b || le b a) = true)
    (trans' : ∀ a b c, le' a b = true → le' b c = true → le' a c = true)
    (total' : ∀ a b, (le' a b || le' b a) = true)
    (antisymm : ∀ a ∈ l, ∀ b ∈ l, le a b = true → le b a = true → a = b)
    (antisymm' : ∀ a ∈ l, ∀ b ∈ l, le' (f a) (f b) = true → le' (f b) (f a) = true → a = b) :
    (l.map f).mergeSort le' = (l.mergeSort le).map f ↔
      ∀ a ∈ l, ∀ b ∈ l, le a b = le' (f a) (f b) := by
  constructor
  · intro h a ha b hb
    have hsorted : (l.mergeSort le).Pairwise fun x y => le x y = true :=
      List.pairwise_mergeSort trans total l
    have hmapped : ((l.mergeSort le).map f).Pairwise fun x y => le' x y = true := by
      rw [← h]
      exact List.pairwise_mergeSort trans' total' (l.map f)
    have hsorted' : (l.mergeSort le).Pairwise fun x y => le' (f x) (f y) = true :=
      List.pairwise_map.mp hmapped
    have hmem : ∀ x ∈ l, x ∈ l.mergeSort le := fun x hx => List.mem_mergeSort.mpr hx
    rw [List.pairwise_iff_getElem] at hsorted hsorted'
    obtain ⟨i, hi, hai⟩ := List.getElem_of_mem (hmem a ha)
    obtain ⟨j, hj, hbj⟩ := List.getElem_of_mem (hmem b hb)
    rcases Nat.lt_trichotomy i j with hij | rfl | hij
    · have hfront := hsorted i j hi hj hij
      have hfront' := hsorted' i j hi hj hij
      rw [hai, hbj] at hfront hfront'
      rw [hfront, hfront']
    · obtain rfl : a = b := hai.symm.trans hbj
      rw [le_self_of_total total, le_self_of_total total']
    · -- in both orders the second comes first, so they are equal if they are in order at all
      have hback := hsorted j i hj hi hij
      have hback' := hsorted' j i hj hi hij
      rw [hai, hbj] at hback hback'
      rw [Bool.eq_iff_iff]
      constructor
      · intro hle
        rw [antisymm _ ha _ hb hle hback]
        exact le_self_of_total total' _
      · intro hle'
        rw [antisymm' _ ha _ hb hle' hback']
        exact le_self_of_total total _
  · intro h
    exact (List.map_mergeSort h).symm

end AgenticIde
