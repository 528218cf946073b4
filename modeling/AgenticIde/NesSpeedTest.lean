/-
AgenticIde/NesSpeedTest.lean

The speed test of the completion backends (`speed_test`), which times some calls and reports
their median and their 95th percentile.

The places of the two are computed from the number of calls, the second in single precision.
Rounding takes too little away to bring it before the first (`half_le_idx`), and it is kept
within the list, so the percentiles are measured latencies and in order (`percentiles_spec`).
The number of calls comes from the command line and nobody checks it: without a call there is
no list to index, and with too many there is none to allocate (`speedTest_reports_iff`).

Single precision is a rounding to 24 binary digits, and `f32` is that function on exact
numbers; none of the results is too small or too large for the format.  All that the proof
uses is that rounding a number that is not negative takes away less than one part in `2^24`.
Three roundings are made, of the number of calls, of the factor and of the product, and
together they leave far more than half.

A backend may answer the first calls and fail later.  `Answers` names the states from which
it keeps answering; an error of a call ends the test with that error, and is no report.  The
latencies are those of a clock, and may be anything; they are sorted, and that is what puts
the percentiles in order.
-/
import AgenticIde.Completion
import AgenticIde.Histogram
import AgenticIde.Lib.Rounding
import Mathlib.Data.List.Sort
import Mathlib.Data.Nat.Cast.Order.Field

namespace AgenticIde

variable {ε : Type}

/-- A number `as f32`, or the result of an operation in `f32`; none here leaves its range. -/
def f32 (q : ℚ) : ℚ := Rounding.nearest 24 q

/-- `start.elapsed().as_secs_f32() * 1000.0`, of nanoseconds. -/
def elapsedMs (elapsed : Nat) : ℚ :=
  let secs := f32 (elapsed / 10 ^ 9 : Nat)
  let nanos := f32 (elapsed % 10 ^ 9 : Nat)
  f32 (f32 (secs + f32 (nanos / f32 (10 ^ 9))) * 1000)

/-- What the speed test asks for. -/
def speedTestRequest : NesRequest := ⟨"fn main(", "\x7d", "rust"⟩

/-- How the speed test ends: with a panic, or with the percentiles or the error of a call. -/
inductive SpeedTestEnd where
  | capacityOverflow
  | indexOutOfRange
  | done (r : Except String (ℚ × ℚ))

namespace SpeedTest

variable (backend : CompletionBackend ε) (now : ε → Nat × ε)

/-- The loop over the samples; `now` reads the clock. -/
def timeCalls : (samples : Nat) → (latencies : List ℚ) → ε → Except String (List ℚ) × ε
  | 0, latencies, env => (.ok latencies, env)
  | samples + 1, latencies, env =>
      let (start, env) := now env
      match backend.onComplete speedTestRequest env with
      | (.error e, env) => (.error e, env)
      | (.ok _, env) =>
          let (stop, env) := now env
          timeCalls samples (latencies ++ [elapsedMs (stop - start)]) env

/-- The place of the 95th percentile, before it is kept within the list. -/
def idx (length : Nat) : Nat := asU64 (f32 (f32 length * f32 (95 / 100)))

/-- The two percentiles; none where an index is out of range. -/
def percentiles (latencies : List ℚ) : Option (ℚ × ℚ) := do
  let latencies := latencies.mergeSort
  let p50 ← latencies[latencies.length / 2]?
  -- without a latency the index before has failed
  let p95 ← latencies[min (idx latencies.length) (latencies.length - 1)]?
  some (p50, p95)

end SpeedTest

open SpeedTest

/-- `speed_test`. -/
def speedTest (backend : CompletionBackend ε) (now : ε → Nat × ε) (samples : Nat) (env : ε) :
    SpeedTestEnd × ε :=
  -- `Vec::with_capacity`: a list of `f32` takes at most `isize::MAX` bytes
  if 2 ^ 63 - 1 < 4 * samples then (.capacityOverflow, env)
  else
    match timeCalls backend now samples [] env with
    | (.error e, env) => (.done (.error e), env)
    | (.ok latencies, env) =>
        match percentiles latencies with
        | some p => (.done (.ok p), env)
        | none => (.indexOutOfRange, env)

/-! ### The places -/

theorem f32_le {q : ℚ} (h : 0 ≤ q) : q * (1 - 1 / 2 ^ 24) ≤ f32 q := Rounding.mul_le_nearest h

/-- The place of the 95th percentile is not before the middle. -/
theorem half_le_idx {n : Nat} (h : n < 2 ^ 64) : n / 2 ≤ idx n := by
  have hn : (0 : ℚ) ≤ n := Nat.cast_nonneg n
  have hlen : (n : ℚ) * (1 - 1 / 2 ^ 24) ≤ f32 n := f32_le hn
  have hpart : (95 / 100 : ℚ) * (1 - 1 / 2 ^ 24) ≤ f32 (95 / 100) := f32_le (by norm_num)
  have hmul : (n : ℚ) * (1 - 1 / 2 ^ 24) * (95 / 100 * (1 - 1 / 2 ^ 24)) ≤
      f32 n * f32 (95 / 100) :=
    mul_le_mul hlen hpart (by norm_num) (le_trans (mul_nonneg hn (by norm_num)) hlen)
  have hpos : 0 ≤ f32 n * f32 (95 / 100) :=
    le_trans (mul_nonneg (mul_nonneg hn (by norm_num)) (by norm_num)) hmul
  have hround := f32_le hpos
  -- Three roundings away from `0.95 n`, the place is still not below the half.
  have hhalf : (n : ℚ) / 2 ≤ f32 (f32 n * f32 (95 / 100)) := by
    calc (n : ℚ) / 2
        ≤ n * (1 - 1 / 2 ^ 24) * (95 / 100 * (1 - 1 / 2 ^ 24)) * (1 - 1 / 2 ^ 24) := by
          linarith
      _ ≤ f32 n * f32 (95 / 100) * (1 - 1 / 2 ^ 24) :=
          mul_le_mul_of_nonneg_right hmul (by norm_num)
      _ ≤ f32 (f32 n * f32 (95 / 100)) := hround
  rw [idx, asU64]
  -- The place is cut off to an integer and kept below the length of the list, which is no
  -- more than a word.
  refine le_min ?_ (by omega)
  have hfloor : ((n / 2 : Nat) : ℤ) ≤ ⌊f32 (f32 n * f32 (95 / 100))⌋ := by
    apply Int.le_floor.mpr
    rw [Int.cast_natCast]
    exact le_trans Nat.cast_div_le hhalf
  omega

/-! ### The percentiles -/

/-- **The percentiles** of some latencies are among them and in order.  The place of
the second is computed in single precision, where rounding takes too little away to
bring it before the first. -/
theorem percentiles_spec {latencies : List ℚ} (hne : latencies ≠ [])
    (hlength : latencies.length < 2 ^ 64) :
    ∃ p50 p95, percentiles latencies = some (p50, p95) ∧ p50 ∈ latencies ∧ p95 ∈ latencies ∧
      p50 ≤ p95 := by
  have hsorted : latencies.mergeSort.SortedLE := List.sortedLE_mergeSort
  have hpos := List.length_pos_iff.mpr hne
  have hlen : latencies.mergeSort.length = latencies.length := List.length_mergeSort latencies
  have hmid : latencies.mergeSort.length / 2 < latencies.mergeSort.length := by omega
  have hhalf : latencies.mergeSort.length / 2 ≤ idx latencies.mergeSort.length :=
    half_le_idx (by omega)
  have hlast : min (idx latencies.mergeSort.length) (latencies.mergeSort.length - 1) <
      latencies.mergeSort.length := by omega
  refine ⟨_, _, ?_, List.mem_mergeSort.mp (List.getElem_mem hmid),
    List.mem_mergeSort.mp (List.getElem_mem hlast),
    hsorted.getElem_le_getElem_of_le (by omega)⟩
  rw [percentiles, List.getElem?_eq_getElem hmid, List.getElem?_eq_getElem hlast]
  rfl

/-! ### The calls -/

/-- A backend that keeps answering: from the states in `up` it does, and neither it nor the
clock leaves them. -/
structure CompletionBackend.Answers (backend : CompletionBackend ε) (now : ε → Nat × ε)
    (up : Set ε) : Prop where
  now : ∀ {env}, env ∈ up → (now env).2 ∈ up
  answers : ∀ {env}, env ∈ up → ∃ cands, (backend.onComplete speedTestRequest env).1 = .ok cands
  complete : ∀ {env}, env ∈ up → (backend.onComplete speedTestRequest env).2 ∈ up

variable {backend : CompletionBackend ε} {now : ε → Nat × ε}

/-- One call more: it is answered and timed. -/
theorem exists_timeCalls_succ {up : Set ε} (h : backend.Answers now up) {env : ε} (henv : env ∈ up)
    (samples : Nat) (latencies : List ℚ) :
    ∃ latency, ∃ env' ∈ up, timeCalls backend now (samples + 1) latencies env =
      timeCalls backend now samples (latencies ++ [latency]) env' := by
  rcases hstart : now env with ⟨start, env₁⟩
  have henv₁ : env₁ ∈ up := by
    have hup := h.now henv
    rwa [hstart] at hup
  obtain ⟨cands, hcands⟩ := h.answers henv₁
  rcases hcall : backend.onComplete speedTestRequest env₁ with ⟨r, env₂⟩
  have henv₂ : env₂ ∈ up := by
    have hup := h.complete henv₁
    rwa [hcall] at hup
  rw [hcall] at hcands
  obtain rfl : r = .ok cands := hcands
  refine ⟨elapsedMs ((now env₂).1 - start), (now env₂).2, h.now henv₂, ?_⟩
  simp only [timeCalls, hstart, hcall]

/-- All calls are timed. -/
theorem exists_timeCalls {up : Set ε} (h : backend.Answers now up) (samples : Nat)
    (latencies : List ℚ) {env : ε} (henv : env ∈ up) :
    ∃ measured, (timeCalls backend now samples latencies env).1 = .ok measured ∧
      measured.length = latencies.length + samples := by
  induction samples generalizing latencies env with
  | zero => exact ⟨latencies, rfl, rfl⟩
  | succ samples ih =>
      obtain ⟨latency, env', henv', hstep⟩ := exists_timeCalls_succ h henv samples latencies
      obtain ⟨measured, hmeasured, hlength⟩ := ih (latencies ++ [latency]) henv'
      refine ⟨measured, hstep ▸ hmeasured, ?_⟩
      rw [hlength, List.length_append, List.length_singleton, Nat.add_assoc, Nat.add_comm 1]

/-- What the speed test should do: report two of the latencies it has measured, in order. -/
def SpeedTest.Reports (backend : CompletionBackend ε) (now : ε → Nat × ε) (samples : Nat)
    (env : ε) : Prop :=
  ∃ latencies p50 p95, (timeCalls backend now samples [] env).1 = .ok latencies ∧
    (speedTest backend now samples env).1 = .done (.ok (p50, p95)) ∧
    p50 ∈ latencies ∧ p95 ∈ latencies ∧ p50 ≤ p95

/-- **When the speed test reports.** With a backend that answers each call, it does
for the numbers of samples that are not zero and that a list can be allocated for,
and for no others.  Without a sample the percentile is read past the end. -/
theorem speedTest_reports_iff {up : Set ε} (h : backend.Answers now up) {env : ε}
    (henv : env ∈ up) (samples : Nat) :
    SpeedTest.Reports backend now samples env ↔ 0 < samples ∧ samples < 2 ^ 61 := by
  constructor
  · rintro ⟨latencies, p50, p95, hcalls, htest, hmem, -⟩
    have hcap : ¬ 2 ^ 63 - 1 < 4 * samples := fun hcap => by
      rw [speedTest, if_pos hcap] at htest
      cases htest
    -- All calls are answered, so the list has one latency for each.
    obtain ⟨measured, hmeasured, hlength⟩ := exists_timeCalls h samples [] henv
    obtain rfl : measured = latencies := Except.ok.inj (hmeasured.symm.trans hcalls)
    have hpos := List.length_pos_of_mem hmem
    rw [hlength, List.length_nil] at hpos
    omega
  · rintro ⟨hpos, hlt⟩
    obtain ⟨latencies, hcalls, hlength⟩ := exists_timeCalls h samples [] henv
    rw [List.length_nil, Nat.zero_add] at hlength
    have hne : latencies ≠ [] := List.ne_nil_of_length_pos (by omega)
    obtain ⟨p50, p95, hpercentiles, h50, h95, hle⟩ := percentiles_spec hne (by omega)
    refine ⟨latencies, p50, p95, hcalls, ?_, h50, h95, hle⟩
    rcases hrun : timeCalls backend now samples [] env with ⟨r, env'⟩
    rw [hrun] at hcalls
    obtain rfl : r = .ok latencies := hcalls
    have hcap : ¬ 2 ^ 63 - 1 < 4 * samples := by omega
    simp only [speedTest, if_neg hcap, hrun, hpercentiles]

/-- The stand-in answers whatever the clock shows. -/
theorem answers_MockOllamaClient (tick : ε → Nat × ε) :
    MockOllamaClient.Answers tick Set.univ where
  now _ := trivial
  answers _ := ⟨_, rfl⟩
  complete _ := trivial

theorem speedTest_reports_iff_twenty :
    SpeedTest.Reports MockOllamaClient (fun t : Nat => (t, t + 1)) 20 0 :=
  (speedTest_reports_iff (answers_MockOllamaClient _) (Set.mem_univ 0) 20).mpr
    ⟨by decide, by decide⟩

/-- Without a sample there is no median to look up: the backend would answer each call, and the
test indexes out of range. -/
theorem speedTest_zero :
    (speedTest MockOllamaClient (fun t : Nat => (t, t + 1)) 0 0).1 = .indexOutOfRange ∧
      ¬ SpeedTest.Reports MockOllamaClient (fun t : Nat => (t, t + 1)) 0 0 := by
  have hzero : (speedTest MockOllamaClient (fun t : Nat => (t, t + 1)) 0 0).1 =
      .indexOutOfRange := by
    simp [speedTest, timeCalls, percentiles]
  refine ⟨hzero, ?_⟩
  rintro ⟨latencies, p50, p95, -, htest, -⟩
  rw [hzero] at htest
  cases htest

end AgenticIde
