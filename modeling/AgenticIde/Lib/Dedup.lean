/-
AgenticIde/Lib/Dedup.lean

Dropping the entries that repeat the one before (`slice::dedup_by`), in a list that was sorted
first.

Every entry has one kept for it (`exists_mem_destutter`).  No two entries that are kept repeat
each other if no value comes back after another one (`nodup_destutter_iff`).  A stable sort
keeps the entries that compare equal in their order, so after a sort that is a condition on
each group of them (`nodup_destutter_mergeSort_iff`).

Sorting by less than what is compared afterwards is the trap here: entries that the sort takes
for equal stay in the order they came in, and equal values among them need not be neighbours.
Where the sort looks at the whole value every group is one value, and nothing is kept twice.
-/
import Mathlib.Data.List.Destutter
import Mathlib.Data.List.Nodup

namespace AgenticIde

open List

variable {α κ : Type*}

/-! ### What is kept -/

section

variable {R : α → α → Prop} [DecidableRel R]

theorem exists_mem_destutter' (hirrefl : ∀ a, ¬ R a a) {l : List α} {a c : α} (h : c ∈ a :: l) :
    ∃ b ∈ l.destutter' R a, ¬ R b c := by
  induction l generalizing a with
  | nil =>
      obtain rfl := List.mem_singleton.mp h
      exact ⟨c, mem_destutter' _ _ _, hirrefl c⟩
  | cons b l ih =>
      by_cases hab : R a b
      · rw [destutter'_cons_pos l hab]
        rcases List.mem_cons.mp h with rfl | h
        · exact ⟨c, mem_cons_self, hirrefl c⟩
        · obtain ⟨d, hd, hdc⟩ := ih h
          exact ⟨d, mem_cons_of_mem _ hd, hdc⟩
      · rw [destutter'_cons_neg l hab]
        rcases List.mem_cons.mp h with rfl | h
        · exact ih mem_cons_self
        · rcases List.mem_cons.mp h with rfl | h
          · -- dropped, because it repeats `a`
            exact ⟨a, mem_destutter' _ _ _, hab⟩
          · exact ih (mem_cons_of_mem _ h)

/-- **An entry is dropped for one that is kept.**  It is the entry itself, or the
last one that was kept before it, to which it is not related. -/
theorem exists_mem_destutter (hirrefl : ∀ a, ¬ R a a) {l : List α} {c : α} (h : c ∈ l) :
    ∃ b ∈ l.destutter R, ¬ R b c := by
  cases l with
  | nil => cases h
  | cons a l => exact exists_mem_destutter' hirrefl h

end

/-! ### What is kept twice -/

/-- No value comes back after another one. -/
def NoReturn (l : List κ) : Prop := ∀ x y, [x, y, x] <+ l → x = y

theorem exists_of_triple_map {f : α → κ} {l : List α} {x y z : κ} (h : [x, y, z] <+ l.map f) :
    ∃ a b c, [a, b, c] <+ l ∧ f a = x ∧ f b = y ∧ f c = z := by
  obtain ⟨s, hs, hmap⟩ := sublist_map_iff.mp h
  obtain ⟨a, s₁, rfl, ha, hmap₁⟩ := map_eq_cons_iff.mp hmap.symm
  obtain ⟨b, s₂, rfl, hb, hmap₂⟩ := map_eq_cons_iff.mp hmap₁
  obtain ⟨c, rfl, hc⟩ := map_eq_singleton_iff.mp hmap₂
  exact ⟨a, b, c, hs, ha, hb, hc⟩

theorem noReturn_map_iff {f : α → κ} (hf : Function.Injective f) {l : List α} :
    NoReturn (l.map f) ↔ NoReturn l := by
  constructor
  · intro h a b htriple
    apply hf
    exact h (f a) (f b) (htriple.map f)
  · intro h x y htriple
    obtain ⟨a, b, c, hs, rfl, rfl, hca⟩ := exists_of_triple_map htriple
    obtain rfl := hf hca
    rw [h c b hs]

section

variable [DecidableEq κ]

theorem mem_destutter'_ne {l : List κ} {a c : κ} :
    c ∈ l.destutter' (· ≠ ·) a ↔ c ∈ a :: l := by
  constructor
  · exact fun h => (destutter'_sublist _ _ _).subset h
  · intro h
    obtain ⟨b, hb, hbc⟩ := exists_mem_destutter' (R := (· ≠ ·)) (fun _ h => h rfl) h
    rwa [← not_not.mp hbc]

theorem nodup_destutter'_iff {l : List κ} {a : κ} :
    (l.destutter' (· ≠ ·) a).Nodup ↔ NoReturn (a :: l) := by
  induction l generalizing a with
  | nil =>
      apply iff_of_true
      · exact nodup_singleton a
      · intro x y h
        exact absurd h.length_le (by simp)
  | cons b l ih =>
      by_cases hab : a ≠ b
      · rw [destutter'_cons_pos l hab, nodup_cons, mem_destutter'_ne, ih]
        constructor
        · rintro ⟨hnotMem, htriple⟩ x y h
          cases h with
          | cons _ h => exact htriple x y h
          | cons_cons _ h => exact absurd (h.subset (by simp)) hnotMem
        · intro htriple
          constructor
          · intro hmem
            have hmem' : a ∈ l := (mem_cons.mp hmem).resolve_left hab
            -- `a`, `b` and `a` again
            apply hab
            apply htriple
            exact ((singleton_sublist.mpr hmem').cons_cons b).cons_cons a
          · exact fun x y h => htriple x y (h.cons a)
      · obtain rfl := not_not.mp hab
        rw [destutter'_cons_neg l hab, ih]
        constructor
        · intro htriple x y h
          cases h with
          | cons _ h => exact htriple x y h
          | cons_cons _ h =>
              cases h with
              | cons _ h => exact htriple _ y (h.cons_cons _)
              | cons_cons _ h => rfl
        · exact fun htriple x y h => htriple x y (h.cons a)

/-- **Nothing is kept twice** exactly where no value comes back after another one.
Runs of one value are cut to one entry, so a value is kept as often as it has runs.
-/
theorem nodup_destutter_iff {l : List κ} :
    (l.destutter (· ≠ ·)).Nodup ↔ NoReturn l := by
  cases l with
  | nil =>
      apply iff_of_true
      · exact nodup_nil
      · intro x y h
        cases h
  | cons a l => exact nodup_destutter'_iff

end

/-! ### After a stable sort -/

section

variable {le : α → α → Bool} {l : List α}

/-- A stable sort keeps what is in order already as it is. -/
theorem filter_mergeSort (trans : ∀ a b c, le a b = true → le b c = true → le a c = true)
    (total : ∀ a b, (le a b || le b a) = true) {p : α → Bool}
    (hp : ∀ a b, p a = true → p b = true → le a b = true) :
    (l.mergeSort le).filter p = l.filter p := by
  have hpairwise : (l.filter p).Pairwise fun a b => le a b = true := by
    apply pairwise_of_forall_mem_list
    intro a ha b hb
    exact hp a b (mem_filter.mp ha).2 (mem_filter.mp hb).2
  have hsublist : l.filter p <+ (l.mergeSort le).filter p := by
    have hfilter := (sublist_mergeSort trans total hpairwise filter_sublist).filter p
    simpa only [filter_filter, Bool.and_self] using hfilter
  exact (hsublist.eq_of_length ((mergeSort_perm l le).filter p).length_eq.symm).symm

/-- **Sort, then drop what repeats.** Nothing is kept twice exactly where, among the
entries that compare equal, no value comes back after another one.  Sorting brings
the entries of one value no closer than that, if the order does not look at all of
the value. -/
theorem nodup_destutter_mergeSort_iff [DecidableEq κ]
    (trans : ∀ a b c, le a b = true → le b c = true → le a c = true)
    (total : ∀ a b, (le a b || le b a) = true) {f : α → κ}
    (hf : ∀ a b, f a = f b → le a b = true) :
    (((l.mergeSort le).map f).destutter (· ≠ ·)).Nodup ↔
      ∀ a ∈ l, NoReturn ((l.filter fun b => le a b && le b a).map f) := by
  have hfilter : ∀ a, (l.mergeSort le).filter (fun b => le a b && le b a) =
      l.filter fun b => le a b && le b a := by
    intro a
    apply filter_mergeSort trans total
    intro b c hb hc
    rw [Bool.and_eq_true] at hb hc
    exact trans b a c hb.2 hc.1
  rw [nodup_destutter_iff]
  constructor
  · intro h a _ x y htriple
    apply h
    rw [← hfilter] at htriple
    exact htriple.trans (filter_sublist.map f)
  · intro h x y htriple
    obtain ⟨a, b, c, hs, rfl, rfl, hca⟩ := exists_of_triple_map htriple
    -- what is between equal entries of a sorted list compares equal to them
    have hsorted := (pairwise_mergeSort trans total l).sublist hs
    simp only [pairwise_cons, mem_cons, not_mem_nil, or_false, forall_eq_or_imp, forall_eq]
      at hsorted
    obtain ⟨⟨hab, -⟩, hbc, -⟩ := hsorted
    have hba : le b a = true := trans b c a hbc (hf c a hca)
    have htied : [a, b, c] <+ l.filter fun b => le a b && le b a := by
      rw [← hfilter]
      have hall := hs.filter fun b => le a b && le b a
      simpa [hf a a rfl, hab, hba, hf a c hca.symm, hf c a hca] using hall
    apply h a
    · exact mem_mergeSort.mp (hs.subset mem_cons_self)
    · have hmapped := htied.map f
      rwa [map_cons, map_cons, map_cons, map_nil, hca] at hmapped

end

end AgenticIde
