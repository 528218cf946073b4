/-
AgenticIde/HistogramP95.lean

The 95th percentile that a latency histogram reports, in exact numbers.

`p95_ms` adds the counters up until they reach the rank of the percentile and then goes as
far into the bucket as the rank does.  It lands where the observation of that rank was
counted (`p95Ms_foldl_observe`): the sums up to a bucket say how many observations are at
most its bound, and an observation is at most the bound just where its rank is within that
number.

There are four ways to end: no observation, a bucket without samples, a rank inside of a
bucket, and a rank beyond the last bound.  `P95Exit` names them, with what the value is
computed from, so that the ways and the arithmetic can be proved separately.  An index out
of range would be a fifth, where the source panics; it does not occur, since the loop only
asks for the bound before the bucket it is in.

Inside of a bucket the value is a point between the two bounds, by the share of the bucket
that the rank takes; the share is above zero and at most one, so the value is above the lower
bound and at most the upper one (`ms_inBucket_mem`).  No division is by zero: a bucket in
which a sum first reaches the rank is not empty.
-/
import AgenticIde.Histogram
import Mathlib.Data.List.Sort
import Mathlib.Tactic.Linarith

namespace AgenticIde

namespace Histogram

/-- How `p95_ms` ends. -/
inductive P95Exit where
  | noSamples
  /-- The rank is reached at a bucket without samples. -/
  | emptyBucket (upper : ℚ)
  | inBucket (lower upper : ℚ) (target cum bucketCount : Nat)
  | beyond (last : ℚ)

/-- What `p95_ms` then returns. -/
def P95Exit.ms : P95Exit → ℚ
  | noSamples => 0
  | emptyBucket upper => upper
  | inBucket lower upper target cum bucketCount =>
      let rankInBucket := target - (cum - bucketCount)
      let frac : ℚ := rankInBucket / bucketCount
      lower + (upper - lower) * frac
  | beyond last => last

/-- The lower end of a bucket; no end where the index is out of range. -/
def lowerBound (buckets : List ℚ) (i : Nat) : Option ℚ :=
  if i = 0 then some 0 else buckets[i - 1]?

/-- The loop of `p95_ms`, from bucket `i` on. -/
def p95From (buckets : List ℚ) (target : Nat) :
    (i cum : Nat) → List (ℚ × Nat) → Option P95Exit
  | _, _, [] => some (.beyond (buckets.getLast?.getD 0))
  | i, cum, (upper, bucketCount) :: rest =>
      let cum := cum + bucketCount
      if target ≤ cum then
        (lowerBound buckets i).map fun lower =>
          if bucketCount = 0 then .emptyBucket upper
          else .inBucket lower upper target cum bucketCount
      else p95From buckets target (i + 1) cum rest

/-- The rank of the percentile. -/
def p95Target (total : Nat) : Nat := ⌈(total : ℚ) * (95 / 100)⌉₊

/-- The end that `p95_ms` comes to; none where it indexes out of range. -/
def p95Exit (self : Histogram) : Option P95Exit :=
  if self.count = 0 then some .noSamples
  -- there are as many counters as bounds
  else p95From self.buckets (p95Target self.count) 0 0 (self.buckets.zip self.counts)

/-- `p95_ms`. -/
def p95Ms (self : Histogram) : Option ℚ := self.p95Exit.map P95Exit.ms

/-! ### The rank -/

theorem p95Target_pos {total : Nat} (h : 0 < total) : 0 < p95Target total :=
  Nat.ceil_pos.mpr (mul_pos (Nat.cast_pos.mpr h) (by norm_num))

theorem p95Target_le (total : Nat) : p95Target total ≤ total := by
  apply Nat.ceil_le.mpr
  have hle : (95 / 100 : ℚ) ≤ 1 := by norm_num
  exact mul_le_of_le_one_right (Nat.cast_nonneg total) hle

/-! ### The loop -/

/-- Where no sum of the counters reaches the rank, the loop runs to its end. -/
theorem p95From_eq_beyond (buckets : List ℚ) (target : Nat) {uppers : List ℚ} (i : Nat)
    {cum : Nat} {counts : List Nat} (hlength : counts.length = uppers.length)
    (h : (Buckets.runningSums cum counts).findIdx? (target ≤ ·) = none) :
    p95From buckets target i cum (uppers.zip counts) =
      some (.beyond (buckets.getLast?.getD 0)) := by
  induction uppers generalizing i cum counts with
  | nil => rfl
  | cons upper uppers ih =>
      rcases counts with - | ⟨n, counts⟩
      · cases hlength
      · rw [Buckets.runningSums, List.findIdx?_eq_none_iff] at h
        have hlt : ¬ target ≤ cum + n := by simpa using h _ List.mem_cons_self
        show (if target ≤ cum + n then _ else _) = _
        rw [if_neg hlt]
        apply ih _ (Nat.succ_inj.mp hlength)
        exact List.findIdx?_eq_none_iff.mpr fun sum hsum => h sum (List.mem_cons_of_mem _ hsum)

/-- Where a sum does, the loop ends at the bucket of the first that does. -/
theorem p95From_eq_map (buckets : List ℚ) {target : Nat} {uppers : List ℚ} (i : Nat) {cum j : Nat}
    {counts : List Nat} (hlength : counts.length = uppers.length)
    (h : (Buckets.runningSums cum counts).findIdx? (target ≤ ·) = some j)
    {upper : ℚ} (hupper : uppers[j]? = some upper) {n : Nat} (hn : counts[j]? = some n)
    {sum : Nat} (hsum : (Buckets.runningSums cum counts)[j]? = some sum) (hpos : 0 < n) :
    p95From buckets target i cum (uppers.zip counts) =
      (lowerBound buckets (i + j)).map fun lower => .inBucket lower upper target sum n := by
  -- By induction on the buckets; the sum so far goes along, and so does the index, for the
  -- bound before.
  induction uppers generalizing i cum j counts with
  | nil => cases hupper
  | cons upper' uppers ih =>
      rcases counts with - | ⟨n', counts⟩
      · cases hlength
      · rw [Buckets.runningSums, List.findIdx?_cons] at h
        show (if target ≤ cum + n' then _
          else p95From buckets target (i + 1) (cum + n') (uppers.zip counts)) = _
        -- The sum reaches the rank in this bucket, or the search goes on in the rest.
        by_cases hle : target ≤ cum + n'
        · rw [if_pos (decide_eq_true hle)] at h
          obtain rfl : 0 = j := Option.some.inj h
          obtain rfl : upper' = upper := Option.some.inj hupper
          obtain rfl : n' = n := Option.some.inj hn
          obtain rfl : cum + n' = sum := Option.some.inj hsum
          rw [if_pos hle, Nat.add_zero]
          congr 1
          funext lower
          exact if_neg hpos.ne'
        · rw [if_neg (by simpa using hle)] at h
          obtain ⟨j, hj, rfl⟩ := Option.map_eq_some_iff.mp h
          rw [if_neg hle, ih _ (Nat.succ_inj.mp hlength) hj hupper hn hsum, Nat.add_assoc,
            Nat.add_comm 1]

/-! ### The bucket -/

/-- The ends of a bucket are in order. -/
theorem exists_lowerBound_lt {buckets : List ℚ} (h : buckets.Pairwise (· < ·))
    (hpos : ∀ b ∈ buckets, 0 < b) {i : Nat} {upper : ℚ} (hupper : buckets[i]? = some upper) :
    ∃ lower, lowerBound buckets i = some lower ∧ lower < upper := by
  rcases i with - | i
  · exact ⟨0, rfl, hpos upper (List.mem_of_getElem? hupper)⟩
  · obtain ⟨hi, hget⟩ := List.getElem?_eq_some_iff.mp hupper
    refine ⟨buckets[i], List.getElem?_eq_getElem _, ?_⟩
    rw [← hget]
    exact List.pairwise_iff_getElem.mp h i (i + 1) _ hi (Nat.lt_succ_self i)

/-- A rank inside the bucket gives a value inside it. -/
theorem P95Exit.ms_inBucket_mem {lower upper : ℚ} (h : lower < upper)
    {target before bucketCount : Nat} (hbefore : before < target)
    (htarget : target ≤ before + bucketCount) :
    lower < (inBucket lower upper target (before + bucketCount) bucketCount).ms ∧
      (inBucket lower upper target (before + bucketCount) bucketCount).ms ≤ upper := by
  have hcount : (0 : ℚ) < bucketCount := by
    rw [Nat.cast_pos]
    omega
  have hrank : 0 < target - before ∧ target - before ≤ bucketCount := by omega
  -- The rank is inside of the bucket, so it takes a share of it above zero and at most all.
  have hfrac : 0 < ((target - before : Nat) : ℚ) / bucketCount ∧
      ((target - before : Nat) : ℚ) / bucketCount ≤ 1 :=
    ⟨div_pos (Nat.cast_pos.mpr hrank.1) hcount,
      (div_le_one hcount).mpr (Nat.cast_le.mpr hrank.2)⟩
  have hwidth : 0 < upper - lower := sub_pos.mpr h
  show lower < lower + (upper - lower) *
      (((target - (before + bucketCount - bucketCount) : Nat) : ℚ) / bucketCount) ∧ _ ≤ upper
  rw [Nat.add_sub_cancel]
  refine ⟨lt_add_of_pos_right _ (mul_pos hwidth hfrac.1), ?_⟩
  have hle := mul_le_of_le_one_right hwidth.le hfrac.2
  show lower + (upper - lower) *
      (((target - (before + bucketCount - bucketCount) : Nat) : ℚ) / bucketCount) ≤ upper
  rw [Nat.add_sub_cancel]
  linarith

/-! ### After observations -/

/-- What a histogram has counted, in order. -/
def inOrder (obs : List ℚ) : List ℚ := (obs.map (max · 0)).mergeSort

theorem pairwise_inOrder (obs : List ℚ) : (inOrder obs).Pairwise (· ≤ ·) :=
  List.pairwise_mergeSort' (· ≤ ·) _

/-- Of the counted observations, one is at most a bound where its rank is within the number
that the buckets up to the bound hold. -/
theorem le_iff_lt_atMost {obs : List ℚ} {i : Nat} {x : ℚ} (hx : (inOrder obs)[i]? = some x)
    (upper : ℚ) : x ≤ upper ↔ i < atMost obs upper := by
  rw [Buckets.le_iff_lt_countP (pairwise_inOrder obs) hx, atMost, inOrder,
    (List.mergeSort_perm _ _).countP_eq]

/-- So the sums reach the rank of one at the bucket that counts it. -/
theorem findIdx?_runningSums {buckets : List ℚ} (hbuckets : buckets.Pairwise (· ≤ ·))
    {obs : List ℚ} {target : Nat} (htarget : 0 < target) {x : ℚ}
    (hx : (inOrder obs)[target - 1]? = some x) :
    (Buckets.runningSums 0 (obs.foldl observeMs (.new buckets)).counts).findIdx? (target ≤ ·) =
      buckets.findIdx? (x ≤ ·) := by
  rw [runningSums_foldl hbuckets, List.findIdx?_map]
  congr 1
  funext upper
  apply decide_eq_decide.mpr
  rw [le_iff_lt_atMost hx]
  show target ≤ atMost obs upper ↔ _
  omega

/-- After observations `p95_ms` looks for their rank in their buckets. -/
theorem p95Exit_foldl (buckets : List ℚ) {obs : List ℚ} (hobs : obs ≠ []) :
    (obs.foldl observeMs (.new buckets)).p95Exit =
      p95From buckets (p95Target obs.length) 0 0
        (buckets.zip (obs.foldl observeMs (.new buckets)).counts) := by
  obtain ⟨hb, -, hcount⟩ := foldl_observeMs obs (.new buckets)
  have hcount : (obs.foldl observeMs (.new buckets)).count = obs.length :=
    hcount.trans (Nat.zero_add _)
  have hb : (obs.foldl observeMs (.new buckets)).buckets = buckets := hb
  have hne : obs.length ≠ 0 := mt List.length_eq_zero_iff.mp hobs
  rw [p95Exit, hcount, if_neg hne, hb]

end Histogram

open Histogram

/-- **The percentile lies in the right bucket.**  After any observations, `p95_ms` ends in the
bucket where the one with the rank of the percentile was counted: the bucket is not empty, the
samples before it are fewer than the rank, and the value is above its lower and at most at its
upper end.  Where no bucket has counted that observation the value is the last bound. -/
theorem p95Ms_foldl_observe {buckets : List ℚ} (hbuckets : buckets.Pairwise (· < ·))
    (hpos : ∀ b ∈ buckets, 0 < b) {obs : List ℚ} (hobs : obs ≠ []) :
    ∃ x, (inOrder obs)[p95Target obs.length - 1]? = some x ∧
      (∀ i, buckets.findIdx? (x ≤ ·) = some i →
        ∃ lower upper cum n ms,
          lowerBound buckets i = some lower ∧ buckets[i]? = some upper ∧
          (obs.foldl observeMs (.new buckets)).counts[i]? = some n ∧
          (obs.foldl observeMs (.new buckets)).p95Exit =
            some (.inBucket lower upper (p95Target obs.length) cum n) ∧
          0 < n ∧ n ≤ cum ∧ cum - n < p95Target obs.length ∧
          (obs.foldl observeMs (.new buckets)).p95Ms = some ms ∧ lower < ms ∧ ms ≤ upper) ∧
      (buckets.findIdx? (x ≤ ·) = none →
        (obs.foldl observeMs (.new buckets)).p95Exit =
          some (.beyond (buckets.getLast?.getD 0)) ∧
        (obs.foldl observeMs (.new buckets)).p95Ms = some (buckets.getLast?.getD 0)) := by
  have hk : 0 < p95Target obs.length := p95Target_pos (List.length_pos_iff.mpr hobs)
  have hlt : p95Target obs.length - 1 < (inOrder obs).length := by
    have hle := p95Target_le obs.length
    rw [inOrder, List.length_mergeSort, List.length_map]
    omega
  have hx := List.getElem?_eq_getElem hlt
  have hfind := findIdx?_runningSums (hbuckets.imp le_of_lt) hk hx
  have hlength : (obs.foldl observeMs (.new buckets)).counts.length = buckets.length := by
    rw [length_counts, (foldl_observeMs obs (.new buckets)).1]
    rfl
  refine ⟨_, hx, fun i hi => ?_, fun hnone => ?_⟩
  · -- the first bucket that holds it is the first whose sum reaches the rank
    rw [hi] at hfind
    obtain ⟨before, n, hn, hsum, hbefore, htarget⟩ :=
      Buckets.exists_of_findIdx?_runningSums hk hfind
    have hi' : i < buckets.length := hlength ▸ (List.getElem?_eq_some_iff.mp hn).1
    have hupper := List.getElem?_eq_getElem hi'
    obtain ⟨lower, hlower, hwidth⟩ := exists_lowerBound_lt hbuckets hpos hupper
    have hpos' : 0 < n := by omega
    have hexit : (obs.foldl observeMs (.new buckets)).p95Exit =
        some (.inBucket lower buckets[i] (p95Target obs.length) (before + n) n) := by
      rw [p95Exit_foldl buckets hobs,
        p95From_eq_map buckets 0 hlength hfind hupper hn hsum hpos', Nat.zero_add, hlower]
      rfl
    refine ⟨lower, buckets[i], before + n, n, _, hlower, hupper, hn, hexit, hpos',
      Nat.le_add_left _ _, ?_, congrArg (Option.map P95Exit.ms) hexit,
      P95Exit.ms_inBucket_mem hwidth hbefore htarget⟩
    rw [Nat.add_sub_cancel]
    exact hbefore
  · rw [hnone] at hfind
    have hexit := (p95Exit_foldl buckets hobs).trans (p95From_eq_beyond buckets _ 0 hlength hfind)
    exact ⟨hexit, congrArg (Option.map P95Exit.ms) hexit⟩

theorem p95Ms_foldl_observe_one :
    ∃ ms, ([7].foldl observeMs (.new [5, 10])).p95Ms = some ms ∧ 5 < ms ∧ ms ≤ 10 := by
  obtain ⟨x, hx, hin, -⟩ := p95Ms_foldl_observe (by decide : [(5 : ℚ), 10].Pairwise (· < ·))
    (by decide) (by decide : [(7 : ℚ)] ≠ [])
  have hseven : max (7 : ℚ) 0 = 7 := by decide
  have horder : inOrder [7] = [7] := by
    rw [inOrder, List.map_singleton, hseven, List.mergeSort_singleton]
  have htarget : p95Target [(7 : ℚ)].length = 1 :=
    (Nat.ceil_eq_iff Nat.one_ne_zero).mpr (by norm_num)
  rw [horder, htarget] at hx
  obtain rfl : 7 = x := Option.some.inj hx
  obtain ⟨lower, upper, -, -, ms, hlower, hupper, -, -, -, -, -, hms, hlt, hle⟩ := hin 1 (by decide)
  obtain rfl : 5 = lower := Option.some.inj hlower
  obtain rfl : 10 = upper := Option.some.inj hupper
  exact ⟨ms, hms, hlt, hle⟩

end AgenticIde
