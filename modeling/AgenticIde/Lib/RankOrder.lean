/-
AgenticIde/Lib/RankOrder.lean

Dropping the entries of a list by rank: the first entry of the lowest rank is always the next,
and entries of rank `m` and above stay.

The rounds drop the entries in the order of their ranks, and of their places within a rank
(`Drops.order_eq`).  So what is dropped is a prefix of that order, each prefix is dropped by
some rounds (`exists_drops`), and what is left of a rank is its end (`Drops.suffix`).

A program that drops entries one by one need not know the order: it looks for the next entry
each time anew, in what is left.  `FirstLowest` is what such a search finds, and `Drops` is a
run of the searches; the order says beforehand where they will have got to.
-/
import Mathlib.Data.List.Nodup

namespace AgenticIde

namespace RankOrder

variable {α : Type*} (rank : α → Nat)

/-- The first entry of the lowest rank, with what is before and after it. -/
structure FirstLowest (pre : List α) (a : α) (post : List α) : Prop where
  before : ∀ x ∈ pre, rank a < rank x
  after : ∀ x ∈ post, rank a ≤ rank x

/-- The entries of a rank below `m`, by rank, and within a rank by place. -/
def order : Nat → List α → List α
  | 0, _ => []
  | m + 1, xs => order m xs ++ xs.filter (rank · = m)

/-- Rounds that drop the first entry of the lowest rank, while that is below `m`:
what they drop, and what they leave. -/
inductive Drops (m : Nat) (xs : List α) : List α → List α → Prop
  | start : Drops m xs [] xs
  | round {dropped pre post : List α} {a : α} (h : Drops m xs dropped (pre ++ a :: post))
      (hlowest : FirstLowest rank pre a post) (hrank : rank a < m) :
      Drops m xs (dropped ++ [a]) (pre ++ post)

variable {rank} {m : Nat} {xs dropped left pre post : List α} {a : α}

theorem FirstLowest.le (h : FirstLowest rank pre a post) :
    ∀ x ∈ pre ++ a :: post, rank a ≤ rank x :=
  List.forall_mem_append.mpr ⟨fun x hx => Nat.le_of_lt (h.before x hx),
    List.forall_mem_cons.mpr ⟨Nat.le_refl _, h.after⟩⟩

theorem append_subset_append_cons (pre : List α) (a : α) (post : List α) :
    pre ++ post ⊆ pre ++ a :: post :=
  (List.Sublist.append_left (List.sublist_cons_self a post) pre).subset

theorem exists_firstLowest (rank : α → Nat) (hne : xs ≠ []) :
    ∃ pre a post, xs = pre ++ a :: post ∧ FirstLowest rank pre a post := by
  induction xs with
  | nil => exact absurd rfl hne
  | cons x xs ih =>
      by_cases hlow : ∀ y ∈ xs, rank x ≤ rank y
      · exact ⟨[], x, xs, rfl, ⟨fun y hy => (by cases hy), hlow⟩⟩
      · push Not at hlow
        obtain ⟨y, hy, hlt⟩ := hlow
        obtain ⟨pre, a, post, rfl, hlowest⟩ := ih (List.ne_nil_of_mem hy)
        have hle := hlowest.le y hy
        refine ⟨x :: pre, a, post, rfl, ⟨?_, hlowest.after⟩⟩
        exact List.forall_mem_cons.mpr ⟨by omega, hlowest.before⟩

theorem mem_order_iff {x : α} : x ∈ order rank m xs ↔ x ∈ xs ∧ rank x < m := by
  induction m with
  | zero => simp [order]
  | succ m ih =>
      rw [order, List.mem_append, ih, List.mem_filter, decide_eq_true_iff, ← and_or_left]
      apply and_congr_right
      intro _
      omega

theorem order_eq_nil_iff : order rank m xs = [] ↔ ∀ x ∈ xs, m ≤ rank x := by
  rw [List.eq_nil_iff_forall_not_mem]
  simp only [mem_order_iff, not_and, Nat.not_lt]

/-- **The first entry of the lowest rank comes first in the order.**  The rest of
the order is that of the entries without it. -/
theorem order_eq_cons (h : FirstLowest rank pre a post) (hrank : rank a < m) :
    order rank m (pre ++ a :: post) = a :: order rank m (pre ++ post) := by
  induction m with
  | zero => cases hrank
  | succ m ih =>
      rw [order, order, List.filter_append, List.filter_append]
      rcases Nat.lt_or_eq_of_le (Nat.le_of_lt_succ hrank) with hlt | heq
      · -- the ranks above its own keep their entries
        rw [ih hlt, List.filter_cons_of_neg (by simpa using Nat.ne_of_lt hlt), List.cons_append]
      · -- nothing has a lower rank, and nothing before it has its own
        have hall : ∀ x ∈ pre ++ a :: post, m ≤ rank x := heq ▸ h.le
        have hall' : ∀ x ∈ pre ++ post, m ≤ rank x := fun x hx =>
          hall x (append_subset_append_cons pre a post hx)
        have hpre : pre.filter (rank · = m) = [] := by
          rw [List.filter_eq_nil_iff]
          intro x hx
          have := h.before x hx
          simp only [decide_eq_true_iff]
          omega
        rw [order_eq_nil_iff.mpr hall, order_eq_nil_iff.mpr hall', hpre,
          List.filter_cons_of_pos (by simpa using heq)]
        rfl

namespace Drops

theorem order_eq (h : Drops rank m xs dropped left) :
    order rank m xs = dropped ++ order rank m left := by
  induction h with
  | start => rfl
  | round _ hlowest hrank ih =>
      rw [ih, order_eq_cons hlowest hrank, List.append_assoc]
      rfl

/-- What the rounds drop is a prefix of the order. -/
theorem take_order (h : Drops rank m xs dropped left) :
    (order rank m xs).take dropped.length = dropped := by
  rw [h.order_eq, List.take_left]

theorem sublist (h : Drops rank m xs dropped left) : left.Sublist xs := by
  induction h with
  | start => exact .refl _
  | round _ _ _ ih =>
      exact (List.Sublist.append_left (List.sublist_cons_self _ _) _).trans ih

theorem length_add (h : Drops rank m xs dropped left) :
    dropped.length + left.length = xs.length := by
  induction h with
  | start => exact Nat.zero_add _
  | round _ _ _ ih =>
      rw [← ih]
      simp only [List.length_append, List.length_cons, List.length_nil]
      omega

/-- What is left of a rank is its end. -/
theorem suffix (h : Drops rank m xs dropped left) (r : Nat) :
    left.filter (rank · = r) <:+ xs.filter (rank · = r) := by
  induction h with
  | start => exact List.suffix_rfl
  | @round dropped pre post a _ hlowest _ ih =>
      by_cases heq : rank a = r
      · -- the rank of the entry that is dropped starts with it
        have hpre : pre.filter (rank · = r) = [] := by
          rw [List.filter_eq_nil_iff]
          intro x hx
          have := hlowest.before x hx
          simp only [decide_eq_true_iff]
          omega
        refine List.IsSuffix.trans ?_ ih
        rw [List.filter_append, List.filter_append, hpre,
          List.filter_cons_of_pos (by simpa using heq)]
        exact List.suffix_cons _ _
      · have hskip : (pre ++ post).filter (rank · = r) =
            (pre ++ a :: post).filter (rank · = r) := by
          rw [List.filter_append, List.filter_append,
            List.filter_cons_of_neg (by simpa using heq)]
        rw [hskip]
        exact ih

/-- A rank of which nothing is dropped stays whole. -/
theorem filter_eq (h : Drops rank m xs dropped left) {r : Nat} (hr : ∀ a ∈ dropped, rank a ≠ r) :
    left.filter (rank · = r) = xs.filter (rank · = r) := by
  induction h with
  | start => rfl
  | @round dropped pre post a _ _ _ ih =>
      have ha : rank a ≠ r := hr a (List.mem_append_right _ List.mem_cons_self)
      rw [← ih fun b hb => hr b (List.mem_append_left _ hb), List.filter_append,
        List.filter_append, List.filter_cons_of_neg (by simpa using ha)]

theorem rank_lt (h : Drops rank m xs dropped left) : ∀ a ∈ dropped, rank a < m := by
  induction h with
  | start =>
      intro a ha
      cases ha
  | round _ _ hrank ih => exact List.forall_mem_append.mpr ⟨ih, List.forall_mem_singleton.mpr hrank⟩

/-- Nothing that is left has a lower rank than something dropped. -/
theorem rank_le (h : Drops rank m xs dropped left) :
    ∀ a ∈ dropped, ∀ x ∈ left, rank a ≤ rank x := by
  induction h with
  | start =>
      intro a ha
      cases ha
  | @round dropped pre post b _ hlowest _ ih =>
      intro a ha x hx
      have hmem := append_subset_append_cons pre b post hx
      rcases List.mem_append.mp ha with ha | ha
      · exact ih a ha x hmem
      · rw [List.mem_singleton.mp ha]
        exact hlowest.le x hmem

/-- Where no entry comes twice, what is left are the entries not dropped. -/
theorem eq_filter [DecidableEq α] (h : Drops rank m xs dropped left) (hnodup : xs.Nodup) :
    left = xs.filter (· ∉ dropped) := by
  induction h with
  | start => simp
  | @round dropped pre post a h _ _ ih =>
      have hleft := h.sublist.nodup hnodup
      rw [List.nodup_append, List.nodup_cons] at hleft
      obtain ⟨-, ⟨hpost, -⟩, hpre⟩ := hleft
      have hsplit : xs.filter (· ∉ dropped ++ [a]) =
          (xs.filter (· ∉ dropped)).filter (· ≠ a) := by
        rw [List.filter_filter]
        apply List.filter_congr
        intro x _
        simp [and_comm]
      rw [hsplit, ← ih, List.filter_append, List.filter_cons_of_neg (by simp)]
      congr 1
      · refine (List.filter_eq_self.mpr fun x hx => ?_).symm
        simpa using hpre x hx a List.mem_cons_self
      · refine (List.filter_eq_self.mpr fun x hx => ?_).symm
        simpa using fun heq : x = a => hpost (heq ▸ hx)

end Drops

/-- **Every prefix of the order is dropped by some rounds.**  By induction on its
length: a round drops the first of what is left of the order. -/
theorem exists_drops {k : Nat} (hk : k ≤ (order rank m xs).length) :
    ∃ left, Drops rank m xs ((order rank m xs).take k) left := by
  induction k with
  | zero => exact ⟨xs, .start⟩
  | succ k ih =>
      obtain ⟨left, hdrops⟩ := ih (Nat.le_of_succ_le hk)
      have horder := hdrops.order_eq
      have hne : order rank m left ≠ [] := by
        intro hnil
        rw [hnil, List.append_nil] at horder
        have hlength := congrArg List.length horder
        rw [List.length_take] at hlength
        omega
      have hleft : left ≠ [] := by
        rintro rfl
        exact hne (order_eq_nil_iff.mpr fun x hx => (by cases hx))
      obtain ⟨pre, a, post, rfl, hlowest⟩ := exists_firstLowest rank hleft
      have hrank : rank a < m := by
        by_contra hle
        apply hne
        apply order_eq_nil_iff.mpr
        intro x hx
        exact Nat.le_trans (Nat.not_lt.mp hle) (hlowest.le x hx)
      have hnext := hdrops.round hlowest hrank
      have htake := hnext.take_order
      rw [List.length_append, List.length_take, Nat.min_eq_left (Nat.le_of_succ_le hk)] at htake
      exact ⟨pre ++ post, htake.symm ▸ hnext⟩

example : order id 2 [2, 1, 0, 1, 0] = [0, 0, 1, 1] := by decide

end RankOrder

end AgenticIde
