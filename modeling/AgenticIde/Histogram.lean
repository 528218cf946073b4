/-
AgenticIde/Histogram.lean

The latency histograms of `metrics.rs`, in exact numbers, and their text form.

A histogram counts each observation in the first bucket that holds it and makes the counts
cumulative when it is rendered.  `render_foldl_observe`: where the bounds ascend, the line of
a bucket shows how many observations are at most its bound, and the last bucket and the
count show how many there are.

The numbers are exact here, where the source has doubles.  A latency is compared with the
bounds in milliseconds, and added to the sum in microseconds, cut off at the point; a negative
one counts as zero.  The bounds are any list, as `new` takes any; those of the program are
`latencyBucketsMs`.

An observation changes one counter.  That the running sums of the counters are what the text
shows is a fact about lists, of `Lib.Buckets`: the sum up to a bucket counts the observations
that are at most some bound so far, and if the bounds ascend this is the bound of the bucket
itself.  How a number is printed is a parameter; the law says which number stands in each
line, not how it looks.
-/
import AgenticIde.Lib.Buckets
import Mathlib.Algebra.Order.Floor.Ring
import Mathlib.Data.Rat.Floor

namespace AgenticIde

/-- A number `as u64`: cut off at the point, and at both ends. -/
def asU64 (q : ℚ) : Nat := min ⌊q⌋.toNat (2 ^ 64 - 1)

/-- `Histogram`.  The counters are as exact as the latencies; the sum is not, a few huge
latencies are enough for it to wrap. -/
structure Histogram where
  buckets : List ℚ
  counts : List Nat
  /-- There is a counter for each bucket. -/
  length_counts : counts.length = buckets.length
  count : Nat
  sumUs : Nat

namespace Histogram

def new (buckets : List ℚ) : Histogram where
  buckets := buckets
  counts := buckets.map fun _ => 0
  length_counts := List.length_map _
  count := 0
  sumUs := 0

/-- `LATENCY_BUCKETS_MS`. -/
def latencyBucketsMs : List ℚ := [5, 10, 25, 50, 100, 250, 500, 1000, 2500, 5000]

instance : Inhabited Histogram := ⟨new latencyBucketsMs⟩

/-- `observe_ms`. -/
def observeMs (self : Histogram) (latencyMs : ℚ) : Histogram where
  buckets := self.buckets
  counts := Buckets.tick self.buckets self.counts (max latencyMs 0)
  length_counts := (Buckets.length_tick ..).trans self.length_counts
  count := self.count + 1
  -- the latency as it came; of a negative one the cast makes zero
  sumUs := (self.sumUs + asU64 (latencyMs * 1000)) % 2 ^ 64

/-- `sum_ms`. -/
def sumMs (self : Histogram) : ℚ := self.sumUs / 1000

/-- `bucket_counts`. -/
def bucketCounts (self : Histogram) : List Nat := self.counts

end Histogram

/-! ### The text -/

/-- The line of a bucket. -/
def bucketLine (name le : String) (value : Nat) : String :=
  s!"{name}_bucket\x7ble=\"{le}\"\x7d {value}\n"

/-- `render_histogram`; `display` is the way numbers are printed. -/
def renderHistogram (display : ℚ → String) (out name : String) (h : Histogram) : String :=
  let out := out ++ s!"# HELP {name} Latency in milliseconds.\n"
  let out := out ++ s!"# TYPE {name} histogram\n"
  let counts := h.bucketCounts
  -- there are as many counters as bounds
  let out := ((h.buckets.zip counts).foldl (fun s p =>
    let cum := s.2 + p.2
    (s.1 ++ bucketLine name (display p.1) cum, cum)) (out, 0)).1
  let out := out ++ bucketLine name "+Inf" h.count
  let out := out ++ s!"{name}_sum {display h.sumMs}\n"
  out ++ s!"{name}_count {h.count}\n"

/-- The lines of the buckets show the running sums of the counters. -/
theorem foldl_bucketLine (display : ℚ → String) (name : String) {buckets : List ℚ}
    {counts : List Nat} (h : counts.length = buckets.length) (out : String) (cum : Nat) :
    ((buckets.zip counts).foldl (fun s p =>
      let cum := s.2 + p.2
      (s.1 ++ bucketLine name (display p.1) cum, cum)) (out, cum)).1 =
    out ++ String.join (List.zipWith (fun upper => bucketLine name (display upper)) buckets
      (Buckets.runningSums cum counts)) := by
  induction buckets generalizing counts out cum with
  | nil => exact String.append_empty.symm
  | cons upper buckets ih =>
      rcases counts with - | ⟨n, counts⟩
      · cases h
      · rw [List.zip_cons_cons, List.foldl_cons, ih (Nat.succ_inj.mp h), Buckets.runningSums,
          List.zipWith_cons_cons, String.join_cons, String.append_assoc]

/-! ### Observations -/

namespace Histogram

/-- What some observations do to the counters. -/
theorem foldl_observeMs (obs : List ℚ) (self : Histogram) :
    (obs.foldl observeMs self).buckets = self.buckets ∧
      (obs.foldl observeMs self).counts =
        Buckets.tickAll self.buckets self.counts (obs.map (max · 0)) ∧
      (obs.foldl observeMs self).count = self.count + obs.length := by
  induction obs generalizing self with
  | nil => exact ⟨rfl, rfl, rfl⟩
  | cons latencyMs obs ih =>
      obtain ⟨hbuckets, hcounts, hcount⟩ := ih (self.observeMs latencyMs)
      refine ⟨hbuckets, hcounts, hcount.trans ?_⟩
      show self.count + 1 + obs.length = self.count + (obs.length + 1)
      rw [Nat.add_assoc, Nat.add_comm 1]

/-- How many observations are at most a bound, the negative ones counted as zero. -/
def atMost (obs : List ℚ) (upper : ℚ) : Nat := (obs.map (max · 0)).countP (· ≤ upper)

theorem atMost_le_length (obs : List ℚ) (upper : ℚ) : atMost obs upper ≤ obs.length := by
  rw [atMost, ← List.length_map (max · 0)]
  exact List.countP_le_length

/-- The bounds of the histograms that are kept ascend. -/
theorem pairwise_default : (default : Histogram).buckets.Pairwise (· ≤ ·) := by
  show latencyBucketsMs.Pairwise (· ≤ ·)
  decide

/-- The sums of the counters after some observations. -/
theorem runningSums_foldl {buckets : List ℚ} (h : buckets.Pairwise (· ≤ ·)) (obs : List ℚ) :
    Buckets.runningSums 0 (obs.foldl observeMs (.new buckets)).counts =
      buckets.map (atMost obs) := by
  have hzero : (new buckets).counts = List.replicate buckets.length 0 := List.map_const' ..
  rw [(foldl_observeMs obs (.new buckets)).2.1, hzero]
  refine (Buckets.runningSums_tickAll h 0 (obs.map (max · 0))).trans ?_
  exact List.map_congr_left fun upper _ => Nat.zero_add _

end Histogram

open Histogram

/-- **The exposition law.**  Rendered after any observations, the line of a bucket shows how
many of them are at most its bound; the lines never go down, none shows more than the last
one, and that and the count show how many observations there were. -/
theorem render_foldl_observe (display : ℚ → String) {buckets : List ℚ}
    (h : buckets.Pairwise (· ≤ ·)) (obs : List ℚ) (out name : String) :
    renderHistogram display out name (obs.foldl observeMs (.new buckets)) =
        out ++ s!"# HELP {name} Latency in milliseconds.\n" ++ s!"# TYPE {name} histogram\n" ++
          String.join (buckets.map fun upper =>
            bucketLine name (display upper) (atMost obs upper)) ++
          bucketLine name "+Inf" obs.length ++
          s!"{name}_sum {display (obs.foldl observeMs (.new buckets)).sumMs}\n" ++
          s!"{name}_count {obs.length}\n" ∧
      (buckets.map (atMost obs)).Pairwise (· ≤ ·) ∧
      ∀ upper ∈ buckets, atMost obs upper ≤ obs.length := by
  refine ⟨?_, ?_, fun upper _ => atMost_le_length obs upper⟩
  -- After the observations the bounds are as they were, and the counters as their number.
  · obtain ⟨hbuckets, -, hcount⟩ := foldl_observeMs obs (.new buckets)
    have hcount : (obs.foldl observeMs (.new buckets)).count = obs.length :=
      hcount.trans (Nat.zero_add _)
    have hbuckets : (obs.foldl observeMs (.new buckets)).buckets = buckets := hbuckets
    rw [renderHistogram, hcount, bucketCounts, foldl_bucketLine display name
      (length_counts _), runningSums_foldl h, hbuckets, List.zipWith_map_right,
      List.zipWith_self]
  -- A higher bound holds all that a lower one does.
  · rw [List.pairwise_map]
    exact h.imp fun hle => Buckets.countP_le_mono hle _

theorem render_foldl_observe_three :
    renderHistogram toString "" "x" ([7, -1, 20].foldl observeMs (.new [5, 10])) =
      "" ++ "# HELP x Latency in milliseconds.\n" ++ "# TYPE x histogram\n" ++
        String.join [bucketLine "x" (toString (5 : ℚ)) 1, bucketLine "x" (toString (10 : ℚ)) 2] ++
        bucketLine "x" "+Inf" 3 ++
        s!"x_sum {([7, -1, 20].foldl observeMs (.new [5, 10])).sumMs}\n" ++ "x_count 3\n" := by
  have hfive : atMost [7, -1, 20] 5 = 1 := by decide
  have hten : atMost [7, -1, 20] 10 = 2 := by decide
  have hrender := (render_foldl_observe toString (by decide : [(5 : ℚ), 10].Pairwise (· ≤ ·))
    [7, -1, 20] "" "x").1
  rw [List.map_cons, List.map_cons, List.map_nil, hfive, hten] at hrender
  exact hrender

end AgenticIde
