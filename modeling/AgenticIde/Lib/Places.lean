/-
AgenticIde/Lib/Places.lean

The places of a list: each element, with what comes before it.

What a machine puts out on a list is what it puts out at each place.  Where that is numbered
by place, from 1, it can be told from the rest (`filter_flatMap_block`), and two machines put
out the same exactly when they do so at every place (`flatMap_places_eq_iff`).

The state of the machine does not occur: what it remembers of the elements before a place is a
function of these elements, and so is what it puts out there.  Taking an element out of the
list moves the later ones by one, which is why numbers are compared place by place only.
-/
import Mathlib.Data.List.Basic
import Mathlib.Data.List.Induction

namespace AgenticIde

variable {α ω : Type*}

/-- The places of a list, after the elements `pre`. -/
def placesFrom (pre : List α) : List α → List (List α × α)
  | [] => []
  | a :: as => (pre, a) :: placesFrom (pre ++ [a]) as

/-- Each element of a list, with the elements before it. -/
def places (l : List α) : List (List α × α) := placesFrom [] l

theorem placesFrom_append (pre l l' : List α) :
    placesFrom pre (l ++ l') = placesFrom pre l ++ placesFrom (pre ++ l) l' := by
  induction l generalizing pre with
  | nil => rw [List.append_nil]; rfl
  | cons a l ih => simp only [List.cons_append, placesFrom, ih, List.append_assoc, List.nil_append]

@[simp] theorem places_nil : places ([] : List α) = [] := rfl

@[simp] theorem places_concat (l : List α) (a : α) : places (l ++ [a]) = places l ++ [(l, a)] := by
  rw [places, placesFrom_append]
  rfl

/-- The places of an image are the images of the places. -/
theorem places_map {β : Type*} (f : α → β) (l : List α) :
    places (l.map f) = (places l).map fun p => (p.1.map f, f p.2) := by
  induction l using List.reverseRecOn with
  | nil => rfl
  | append_singleton l a ih =>
      rw [List.map_append, List.map_singleton, places_concat, places_concat, ih, List.map_append]
      rfl

/-- A place is a way to cut the list. -/
theorem mem_places_iff {l pre : List α} {a : α} :
    (pre, a) ∈ places l ↔ ∃ post, l = pre ++ a :: post := by
  induction l using List.reverseRecOn generalizing pre a with
  | nil => exact iff_of_false (by simp) (by simp)
  | append_singleton l b ih =>
      rw [places_concat, List.mem_append, ih, List.mem_singleton, Prod.mk.injEq]
      constructor
      · rintro (⟨post, rfl⟩ | ⟨rfl, rfl⟩)
        · exact ⟨post ++ [b], by simp⟩
        · exact ⟨[], rfl⟩
      · rintro ⟨post, h⟩
        rcases List.eq_nil_or_concat post with rfl | ⟨post, c, rfl⟩
        · obtain ⟨rfl, hb⟩ := List.append_inj' h rfl
          exact .inr ⟨rfl, (List.cons.inj hb).1.symm⟩
        · have hsnoc : l ++ [b] = (pre ++ a :: post) ++ [c] := by
            rw [h, List.concat_eq_append, List.append_assoc]
            rfl
          exact .inl ⟨post, (List.append_inj' hsnoc rfl).1⟩

theorem length_of_mem_placesFrom {pre l : List α} {p : List α × α} (h : p ∈ placesFrom pre l) :
    pre.length ≤ p.1.length ∧ p.1.length < pre.length + l.length := by
  induction l generalizing pre with
  | nil => cases h
  | cons a l ih =>
      rw [placesFrom, List.mem_cons] at h
      rw [List.length_cons]
      rcases h with rfl | h
      · exact ⟨Nat.le_refl _, Nat.lt_add_of_pos_right (Nat.succ_pos _)⟩
      · have hlength := ih h
        rw [List.length_append, List.length_singleton] at hlength
        omega

/-- **What is put out at a block** of a list can be told from the rest by its
numbers.  Each output has the number of its place, and the places of the block are
consecutive. -/
theorem filter_flatMap_block {f : List α × α → List ω} {number : ω → ℕ}
    (hf : ∀ p, ∀ x ∈ f p, number x = p.1.length + 1) (pre block post : List α) :
    ((places (pre ++ block ++ post)).flatMap f).filter
        (fun x => pre.length < number x ∧ number x ≤ pre.length + block.length) =
      (placesFrom pre block).flatMap f := by
  have hbefore : ((placesFrom [] pre).flatMap f).filter
      (fun x => pre.length < number x ∧ number x ≤ pre.length + block.length) = [] := by
    rw [List.filter_eq_nil_iff]
    intro x hx
    obtain ⟨p, hp, hx⟩ := List.mem_flatMap.mp hx
    have hlength := length_of_mem_placesFrom hp
    have hnumber := hf p x hx
    simp only [List.length_nil, Nat.zero_add] at hlength
    simp only [decide_eq_true_eq]
    omega
  have hat : ((placesFrom pre block).flatMap f).filter
      (fun x => pre.length < number x ∧ number x ≤ pre.length + block.length) =
        (placesFrom pre block).flatMap f := by
    rw [List.filter_eq_self]
    intro x hx
    obtain ⟨p, hp, hx⟩ := List.mem_flatMap.mp hx
    have hlength := length_of_mem_placesFrom hp
    have hnumber := hf p x hx
    simp only [decide_eq_true_eq]
    omega
  have hafter : ((placesFrom (pre ++ block) post).flatMap f).filter
      (fun x => pre.length < number x ∧ number x ≤ pre.length + block.length) = [] := by
    rw [List.filter_eq_nil_iff]
    intro x hx
    obtain ⟨p, hp, hx⟩ := List.mem_flatMap.mp hx
    have hlength := length_of_mem_placesFrom hp
    have hnumber := hf p x hx
    rw [List.length_append] at hlength
    simp only [decide_eq_true_eq]
    omega
  rw [places, placesFrom_append, placesFrom_append, List.nil_append, List.nil_append,
    List.flatMap_append, List.flatMap_append, List.filter_append, List.filter_append, hbefore, hat,
    hafter, List.nil_append, List.append_nil]

/-- What is put out at a place of a list can be told from the rest by its number. -/
theorem filter_flatMap_places {f : List α × α → List ω} {number : ω → ℕ}
    (hf : ∀ p, ∀ x ∈ f p, number x = p.1.length + 1) {l pre : List α} {a : α}
    (h : (pre, a) ∈ places l) :
    ((places l).flatMap f).filter (fun x => number x = pre.length + 1) = f (pre, a) := by
  obtain ⟨post, rfl⟩ := mem_places_iff.mp h
  have hblock := filter_flatMap_block hf pre [a] post
  rw [List.append_assoc, List.singleton_append, placesFrom, placesFrom, List.flatMap_singleton]
    at hblock
  rw [← hblock]
  congr 1
  funext x
  rw [decide_eq_decide, List.length_singleton]
  omega

/-- **Place by place.** Two lists of numbered outputs are equal exactly when they
are so at every place.  The numbers keep the outputs of one place from being taken
for those of another. -/
theorem flatMap_places_eq_iff {f g : List α × α → List ω} {number : ω → ℕ}
    (hf : ∀ p, ∀ x ∈ f p, number x = p.1.length + 1)
    (hg : ∀ p, ∀ x ∈ g p, number x = p.1.length + 1)
    {l : List α} : (places l).flatMap f = (places l).flatMap g ↔ ∀ p ∈ places l, f p = g p := by
  constructor
  · rintro h ⟨pre, a⟩ hp
    rw [← filter_flatMap_places hf hp, h, filter_flatMap_places hg hp]
  · exact List.flatMap_congr

end AgenticIde
