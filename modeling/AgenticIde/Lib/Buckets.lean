/-
AgenticIde/Lib/Buckets.lean

Counting values by buckets.

Buckets are given by their upper bounds, and a value is counted in the first bucket that holds
it (`tick`).  Each counter knows only the values between two bounds; added up from the left,
where the bounds ascend, the counters say how many values are at most each bound
(`runningSums_tickAll`), and a value is at most a bound just where its place in the order is
before that number (`le_iff_lt_countP`).

A value above all bounds is counted nowhere, so the last sum may be less than the number of
values.  Where a quantile is read off the sums, that is the case in which no bound is found.
-/
import Mathlib.Data.List.Basic
import Mathlib.Order.Lattice

namespace AgenticIde

namespace Buckets

variable {L : Type*} [LinearOrder L]

/-- Count a value. -/
def tick (bounds : List L) (counts : List Nat) (v : L) : List Nat :=
  match bounds.findIdx? (v ≤ ·) with
  | some i => counts.modify i (· + 1)
  | none => counts

/-- Count some values. -/
def tickAll (bounds : List L) (counts : List Nat) (vs : List L) : List Nat :=
  vs.foldl (tick bounds) counts

/-- The counters, each with all before it and a start. -/
def runningSums (cum : Nat) : List Nat → List Nat
  | [] => []
  | n :: counts => (cum + n) :: runningSums (cum + n) counts

@[simp] theorem length_tick (bounds : List L) (counts : List Nat) (v : L) :
    (tick bounds counts v).length = counts.length := by
  unfold tick
  split
  · exact List.length_modify ..
  · rfl

/-! ### Bucket by bucket -/

theorem tick_cons (b : L) (bounds : List L) (n : Nat) (counts : List Nat) (v : L) :
    tick (b :: bounds) (n :: counts) v =
      if v ≤ b then (n + 1) :: counts else n :: tick bounds counts v := by
  rw [tick, List.findIdx?_cons]
  by_cases hle : v ≤ b
  · rw [if_pos hle, if_pos (decide_eq_true hle)]
    rfl
  · rw [if_neg hle, if_neg (by simpa using hle), tick]
    rcases bounds.findIdx? (v ≤ ·) with - | i
    · rfl
    · rfl

/-- The first bucket takes the values it holds, the other buckets share the rest. -/
theorem tickAll_cons (b : L) (bounds : List L) (n : Nat) (counts : List Nat) (vs : List L) :
    tickAll (b :: bounds) (n :: counts) vs =
      (n + vs.countP (· ≤ b)) :: tickAll bounds counts (vs.filter (b < ·)) := by
  induction vs generalizing n counts with
  | nil => rfl
  | cons v vs ih =>
      rw [tickAll, List.foldl_cons, tick_cons]
      by_cases hle : v ≤ b
      · -- the first bucket takes it
        rw [if_pos hle, List.countP_cons_of_pos (by simpa using hle),
          List.filter_cons_of_neg (by simpa using hle), ← Nat.add_assoc, Nat.add_right_comm]
        exact ih (n + 1) counts
      · -- it is left to the others
        rw [if_neg hle, List.countP_cons_of_neg (by simpa using hle),
          List.filter_cons_of_pos (by simpa using hle)]
        exact ih n (tick bounds counts v)

/-- The values up to a bound are those up to a lower one and those in between. -/
theorem countP_le_split {b b' : L} (h : b ≤ b') (vs : List L) :
    vs.countP (· ≤ b') = vs.countP (· ≤ b) + (vs.filter (b < ·)).countP (· ≤ b') := by
  induction vs with
  | nil => rfl
  | cons v vs ih =>
      by_cases hle : v ≤ b
      · rw [List.countP_cons_of_pos (by simpa using hle.trans h),
          List.countP_cons_of_pos (by simpa using hle),
          List.filter_cons_of_neg (by simpa using hle), ih, Nat.add_right_comm]
      · rw [List.countP_cons_of_neg (p := fun x => decide (x ≤ b)) (by simpa using hle),
          List.filter_cons_of_pos (by simpa using hle), List.countP_cons, List.countP_cons, ih,
          Nat.add_assoc]

/-- **Added up, the counters are cumulative**: each sum is the number of values that
are at most its bound.  A value ticks the first bound it does not exceed, and with
the bounds in order it is counted by all sums from that one on. -/
theorem runningSums_tickAll {bounds : List L} (h : bounds.Pairwise (· ≤ ·)) (cum : Nat)
    (vs : List L) :
    runningSums cum (tickAll bounds (List.replicate bounds.length 0) vs) =
      bounds.map fun b => cum + vs.countP (· ≤ b) := by
  induction bounds generalizing cum vs with
  | nil =>
      have hnil : tickAll [] [] vs = [] := by
        induction vs with
        | nil => rfl
        | cons v vs ih => exact ih
      exact congrArg (runningSums cum) hnil
  | cons b bounds ih =>
      obtain ⟨hb, hbounds⟩ := List.pairwise_cons.mp h
      rw [List.length_cons, List.replicate_succ, tickAll_cons, runningSums, ih hbounds,
        List.map_cons, Nat.zero_add]
      -- the first counter has been added to what the others start with
      refine congrArg _ (List.map_congr_left fun b' hb' => ?_)
      rw [Nat.add_assoc, ← countP_le_split (hb b' hb')]

/-- Up to a higher bound there are no fewer values. -/
theorem countP_le_mono {b b' : L} (h : b ≤ b') (vs : List L) :
    vs.countP (· ≤ b) ≤ vs.countP (· ≤ b') := by
  rw [countP_le_split h]
  exact Nat.le_add_right ..

/-! ### The place of a value -/

/-- Of values in order, those up to a bound come first. -/
theorem le_iff_lt_countP {vs : List L} (h : vs.Pairwise (· ≤ ·)) {i : Nat} {v : L}
    (hv : vs[i]? = some v) (b : L) : v ≤ b ↔ i < vs.countP (· ≤ b) := by
  induction vs generalizing i with
  | nil => cases hv
  | cons w vs ih =>
      obtain ⟨hw, hvs⟩ := List.pairwise_cons.mp h
      by_cases hle : w ≤ b
      · rw [List.countP_cons_of_pos (by simpa using hle)]
        rcases i with - | i
        · obtain rfl : w = v := Option.some.inj hv
          exact ⟨fun _ => Nat.succ_pos _, fun _ => hle⟩
        · rw [ih hvs hv, Nat.add_lt_add_iff_right]
      · -- no value is at most the bound
        have hzero : vs.countP (· ≤ b) = 0 :=
          List.countP_eq_zero.mpr fun u hu => by simpa using fun hub => hle ((hw u hu).trans hub)
        rw [List.countP_cons_of_neg (by simpa using hle), hzero]
        have hwv : w ≤ v := by
          rcases i with - | i
          · exact (Option.some.inj hv).le
          · exact hw v (List.mem_of_getElem? hv)
        exact ⟨fun hvb => absurd (hwv.trans hvb) hle, fun hlt => absurd hlt (Nat.not_lt_zero i)⟩

/-- Up to the first sum that reaches a target, nothing else has reached it: the counter there
makes up what is missing. -/
theorem exists_of_findIdx?_runningSums {target cum j : Nat} (hcum : cum < target)
    {counts : List Nat} (h : (runningSums cum counts).findIdx? (target ≤ ·) = some j) :
    ∃ before n, counts[j]? = some n ∧ (runningSums cum counts)[j]? = some (before + n) ∧
      before < target ∧ target ≤ before + n := by
  induction counts generalizing cum j with
  | nil => cases h
  | cons n counts ih =>
      rw [runningSums, List.findIdx?_cons] at h
      by_cases hle : target ≤ cum + n
      · rw [if_pos (decide_eq_true hle)] at h
        obtain rfl : 0 = j := Option.some.inj h
        exact ⟨cum, n, rfl, rfl, hcum, hle⟩
      · rw [if_neg (by simpa using hle)] at h
        obtain ⟨j, hj, rfl⟩ := Option.map_eq_some_iff.mp h
        exact ih (Nat.lt_of_not_le hle) hj

end Buckets

end AgenticIde
