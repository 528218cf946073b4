/-
AgenticIde/Lib/TopK.lean

The first items of a list in a stable order.

Items are numbered by their places in the list.  `Outranks` is the order of the numbered
items, by the value and then by the place; `TopK` says that some items are the first ones of
it.  Sorting with a stable sort and cutting off gives them (`topK_take_mergeSort`), whatever
the comparison does with values that do not occur.

The numbers make the order strict, so the first items are determined, not just up to ties.
What is sorted are the items alone; the numbers are there to say that the sort was stable.
-/
import Mathlib.Data.List.Basic
import Mathlib.Order.Lattice

namespace AgenticIde

variable {α L : Type*} [LinearOrder L]

/-- A numbered item comes before another: it has the higher value, or the same value and the
earlier place. -/
def Outranks (value : α → L) (a b : α × Nat) : Prop :=
  value b.1 < value a.1 ∨ value a.1 = value b.1 ∧ a.2 < b.2

/-- The items `out` are the first `k` of the list: numbered they are part of the numbered
list, each before the later ones and before all that are left over. -/
def TopK (value : α → L) (k : Nat) (l out : List α) : Prop :=
  ∃ ranked rest : List (α × Nat), (ranked ++ rest).Perm l.zipIdx ∧ out = ranked.map Prod.fst ∧
    ranked.length = min k l.length ∧ ranked.Pairwise (Outranks value) ∧
    ∀ a ∈ ranked, ∀ b ∈ rest, Outranks value a b

/-- What a stable sort by value makes of numbered items. -/
theorem outranks_of_zipIdxLE {value : α → L} {a b : α × Nat} (hne : a.2 ≠ b.2)
    (h : List.zipIdxLE (fun x y => decide (value y ≤ value x)) a b = true) :
    Outranks value a b := by
  simp only [List.zipIdxLE, decide_eq_true_eq] at h
  split_ifs at h with hle hge
  · exact .inr ⟨le_antisymm hge hle, Nat.lt_of_le_of_ne (by simpa using h) hne⟩
  · exact .inl (lt_of_not_ge hge)

/-- A sort sees the comparisons of the items there are. -/
theorem mergeSort_congr {le le' : α → α → Bool} {l : List α}
    (h : ∀ a ∈ l, ∀ b ∈ l, le a b = le' a b) : l.mergeSort le = l.mergeSort le' := by
  simpa using @List.map_mergeSort _ _ le le' id l h

/-- **Sorting and cutting off** gives the first items.  The sort is stable, so of
items with the same value the first ones are kept; the comparison has to be that of
the values on the items of the list only. -/
theorem topK_take_mergeSort {value : α → L} {le : α → α → Bool} {l : List α}
    (hle : ∀ a ∈ l, ∀ b ∈ l, le a b = decide (value b ≤ value a)) (k : Nat) :
    TopK value k l ((l.mergeSort le).take k) := by
  let le' : α → α → Bool := fun x y => decide (value y ≤ value x)
  have htrans : ∀ a b c, le' a b = true → le' b c = true → le' a c = true := by
    intro a b c hab hbc
    simp only [le', decide_eq_true_eq] at hab hbc ⊢
    exact le_trans hbc hab
  have htotal : ∀ a b, (le' a b || le' b a) = true := by
    intro a b
    simpa [le'] using le_total (value b) (value a)
  -- the sort of the numbered items, in which no two are tied
  let sorted := l.zipIdx.mergeSort (List.zipIdxLE le')
  have hperm : sorted.Perm l.zipIdx := List.mergeSort_perm _ _
  have hordered : sorted.Pairwise (Outranks value) := by
    have hsorted : sorted.Pairwise fun a b => List.zipIdxLE le' a b = true :=
      List.pairwise_mergeSort (List.zipIdxLE_trans htrans) (List.zipIdxLE_total htotal) _
    have hplaces : (sorted.map Prod.snd).Nodup := by
      rw [(hperm.map Prod.snd).nodup_iff, List.zipIdx_map_snd]
      exact List.nodup_range' ..
    exact hsorted.imp₂ (fun a b h hne => outranks_of_zipIdxLE hne h) (List.pairwise_map.mp hplaces)
  have hmap : sorted.map Prod.fst = l.mergeSort le := by
    rw [mergeSort_congr hle]
    exact List.mergeSort_zipIdx
  rw [← List.take_append_drop k sorted, List.pairwise_append] at hordered
  refine ⟨sorted.take k, sorted.drop k, ?_, ?_, ?_, hordered.1, hordered.2.2⟩
  · rw [List.take_append_drop]
    exact hperm
  · rw [List.map_take, hmap]
  · rw [List.length_take, hperm.length_eq, List.length_zipIdx]

/-- Items that are shown otherwise are still the first ones. -/
theorem TopK.map {β : Type*} {value : β → L} {f : α → β} {k : Nat} {l out : List α}
    (h : TopK (value ∘ f) k l out) : TopK value k (l.map f) (out.map f) := by
  obtain ⟨ranked, rest, hperm, rfl, hlength, hordered, hrest⟩ := h
  refine ⟨ranked.map (Prod.map f id), rest.map (Prod.map f id), ?_, ?_, ?_, ?_, ?_⟩
  · rw [← List.map_append, List.zipIdx_map]
    exact hperm.map _
  · rw [List.map_map, List.map_map]
    rfl
  · rw [List.length_map, List.length_map, hlength]
  · exact List.pairwise_map.mpr hordered
  · intro a ha b hb
    obtain ⟨a', ha', rfl⟩ := List.mem_map.mp ha
    obtain ⟨b', hb', rfl⟩ := List.mem_map.mp hb
    exact hrest a' ha' b' hb'

end AgenticIde
