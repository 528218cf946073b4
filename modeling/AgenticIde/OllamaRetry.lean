/-
AgenticIde/OllamaRetry.lean

The retry loop of the local client over machine integers.

`compute_backoff_ms` multiplies with saturation and shifts by at most thirty; what comes out
is the exact product under the cap (`toNat_computeBackoffMs`).  `complete` counts its attempts
in a `u32`; it is the loop with retries whose waits are these (`complete_eq_run`), and what
holds of every such loop bounds its attempts and its sleeps.  The client with its limits as
plain numbers answers the same (`OllamaClient_onComplete`).

The shift never loses a digit, since a one shifted by thirty fits; the product may be too
large, and then saturates at the largest machine integer, which the cap is not above.  So
the order of the two operations does not show, and the waits rise with the attempts until
they reach the cap, and stay there.

The counter cannot overflow: it is only raised where it is below the limit.  The loop of the
source asks after each failed attempt whether to go on; `Lib.Retry` has a loop that counts
the retries that are left down to zero, and the bounds are proved of that one.
`completeFrom_eq_run` puts the two side by side, from any attempt on.
-/
import AgenticIde.Lib.Retry
import AgenticIde.Ollama
import Mathlib.Data.UInt

namespace AgenticIde

variable {ε : Type}

/-- `u64::saturating_mul`. -/
def saturatingMul (a b : UInt64) : UInt64 :=
  if b = 0 then 0 else if a ≤ UInt64.ofNat (2 ^ 64 - 1) / b then a * b else
    UInt64.ofNat (2 ^ 64 - 1)

/-- The limits of the configuration: `max_retries`, `backoff_base_ms`, `backoff_max_ms`. -/
structure RetryLimits where
  maxRetries : UInt32
  backoffBaseMs : UInt64
  backoffMaxMs : UInt64

namespace RetryLimits

/-- `compute_backoff_ms`. -/
def computeBackoffMs (attempt : UInt32) (baseMs maxMs : UInt64) : UInt64 :=
  let exp := saturatingMul baseMs (1 <<< (min attempt 30).toUInt64)
  min exp maxMs

/-- `should_retry`. -/
def shouldRetry (attempt maxRetries : UInt32) : Bool := attempt < maxRetries

/-- The configuration with these limits. -/
def config (limits : RetryLimits) (config : OllamaConfig) : OllamaConfig :=
  { config with
    maxRetries := limits.maxRetries.toNat
    backoffBaseMs := limits.backoffBaseMs.toNat
    backoffMaxMs := limits.backoffMaxMs.toNat }

/-! ### The backoff -/

/-- Where the product fits it is exact, and else the bound takes its place. -/
theorem toNat_saturatingMul (a b : UInt64) :
    (saturatingMul a b).toNat = min (a.toNat * b.toNat) (2 ^ 64 - 1) := by
  rw [saturatingMul]
  by_cases hb : b = 0
  · subst hb
    simp
  · have hpos : 0 < b.toNat := by
      apply Nat.pos_of_ne_zero
      intro hzero
      exact hb (UInt64.toNat_inj.mp hzero)
    -- the test by division is the test whether the product fits
    have hfits : a ≤ UInt64.ofNat (2 ^ 64 - 1) / b ↔ a.toNat * b.toNat ≤ 2 ^ 64 - 1 := by
      rw [UInt64.le_iff_toNat_le, UInt64.toNat_div]
      exact Nat.le_div_iff_mul_le hpos
    rw [if_neg hb]
    by_cases hle : a.toNat * b.toNat ≤ 2 ^ 64 - 1
    · rw [if_pos (hfits.mpr hle), UInt64.toNat_mul, Nat.mod_eq_of_lt (by omega),
        Nat.min_eq_left hle]
    · rw [if_neg (mt hfits.mp hle), Nat.min_eq_right (by omega)]
      rfl

/-- The factor of the backoff. -/
theorem toNat_shift (attempt : UInt32) :
    ((1 : UInt64) <<< (min attempt 30).toUInt64).toNat = 2 ^ min attempt.toNat 30 := by
  have hshift : (min attempt 30).toUInt64.toNat = min attempt.toNat 30 :=
    UInt32.toNat_min attempt 30
  have hpow : 2 ^ min attempt.toNat 30 ≤ 2 ^ 30 :=
    Nat.pow_le_pow_right Nat.two_pos (Nat.min_le_right _ _)
  rw [UInt64.toNat_shiftLeft, hshift, Nat.mod_eq_of_lt (b := 64) (by omega), UInt64.toNat_one,
    Nat.one_shiftLeft, Nat.mod_eq_of_lt (by omega)]

/-- **The backoff is exact**: over all machine integers it is the capped product.
The shift is limited to thirty places, and a product that saturates is above every
cap. -/
theorem toNat_computeBackoffMs (attempt : UInt32) (baseMs maxMs : UInt64) :
    (computeBackoffMs attempt baseMs maxMs).toNat =
      min (baseMs.toNat * 2 ^ min attempt.toNat 30) maxMs.toNat := by
  have hmax := maxMs.toNat_lt
  show (min (saturatingMul baseMs _) maxMs).toNat = _
  rw [UInt64.toNat_min, toNat_saturatingMul, toNat_shift]
  -- the product saturates only above every cap
  omega

theorem computeBackoffMs_le (attempt : UInt32) (baseMs maxMs : UInt64) :
    computeBackoffMs attempt baseMs maxMs ≤ maxMs := by
  rw [UInt64.le_iff_toNat_le, toNat_computeBackoffMs]
  exact Nat.min_le_right _ _

theorem computeBackoffMs_mono {attempt attempt' : UInt32} (h : attempt ≤ attempt')
    (baseMs maxMs : UInt64) :
    computeBackoffMs attempt baseMs maxMs ≤ computeBackoffMs attempt' baseMs maxMs := by
  rw [UInt64.le_iff_toNat_le, toNat_computeBackoffMs, toNat_computeBackoffMs]
  have hmin : min attempt.toNat 30 ≤ min attempt'.toNat 30 :=
    min_le_min_right 30 (UInt32.le_iff_toNat_le.mp h)
  apply min_le_min_right
  exact Nat.mul_le_mul_left _ (Nat.pow_le_pow_right Nat.two_pos hmin)

/-! ### The loop -/

theorem toNat_succ_of_shouldRetry {attempt maxRetries : UInt32}
    (h : shouldRetry attempt maxRetries) :
    (attempt + 1).toNat = attempt.toNat + 1 ∧ attempt.toNat < maxRetries.toNat := by
  have hlt : attempt.toNat < maxRetries.toNat :=
    UInt32.lt_iff_toNat_lt.mp (of_decide_eq_true h)
  have hmax := maxRetries.toNat_lt
  refine ⟨?_, hlt⟩
  rw [UInt32.toNat_add, UInt32.toNat_one, Nat.mod_eq_of_lt (by omega)]

variable (http : Http ε) (config : OllamaConfig) (limits : RetryLimits) (req : NesRequest)

/-- The loop of `complete`, from an attempt on. -/
def completeFrom (attempt : UInt32) (env : ε) : Retry.Outcome ε String (List Completion) :=
  match OllamaClient.tryCompleteOnce http config req env with
  | (.ok c, env) => .last (.ok c, env)
  | (.error e, env) =>
      if _h : shouldRetry attempt limits.maxRetries then
        let backoff := computeBackoffMs attempt limits.backoffBaseMs limits.backoffMaxMs
        .after e backoff.toNat (completeFrom (attempt + 1) (http.sleep backoff.toNat env))
      else .last (.error e, env)
termination_by limits.maxRetries.toNat - attempt.toNat
decreasing_by
  obtain ⟨hsucc, hlt⟩ := toNat_succ_of_shouldRetry _h
  omega

/-- `complete`. -/
def complete (env : ε) : Retry.Outcome ε String (List Completion) :=
  completeFrom http config limits req 0 env

/-- How long to wait after an attempt, as an exact number. -/
def backoff (attempt : Nat) : Nat :=
  min (limits.backoffBaseMs.toNat * 2 ^ min attempt 30) limits.backoffMaxMs.toNat

variable {http config limits req}

theorem completeFrom_of_ok {attempt : UInt32} {env env' : ε} {c : List Completion}
    (h : OllamaClient.tryCompleteOnce http config req env = (.ok c, env')) :
    completeFrom http config limits req attempt env = .last (.ok c, env') := by
  rw [completeFrom, h]

theorem completeFrom_of_last {attempt : UInt32} {env env' : ε} {e : String}
    (h : OllamaClient.tryCompleteOnce http config req env = (.error e, env'))
    (hretry : ¬ shouldRetry attempt limits.maxRetries) :
    completeFrom http config limits req attempt env = .last (.error e, env') := by
  rw [completeFrom, h]
  exact dif_neg hretry

theorem completeFrom_of_retry {attempt : UInt32} {env env' : ε} {e : String}
    (h : OllamaClient.tryCompleteOnce http config req env = (.error e, env'))
    (hretry : shouldRetry attempt limits.maxRetries) :
    completeFrom http config limits req attempt env =
      .after e (limits.backoff attempt.toNat)
        (completeFrom http config limits req (attempt + 1)
          (http.sleep (limits.backoff attempt.toNat) env')) := by
  rw [completeFrom, h, backoff, ← toNat_computeBackoffMs]
  exact dif_pos hretry

variable (http config limits req)

/-- **The loop is a loop with retries**, as many as the counter leaves.  The counter
of the source goes up to its limit, and the rule for retries counts down what is
left. -/
theorem completeFrom_eq_run (attempt : UInt32) (env : ε) :
    completeFrom http config limits req attempt env =
      Retry.run (OllamaClient.tryCompleteOnce http config req) http.sleep limits.backoff
        (limits.maxRetries.toNat - attempt.toNat) attempt.toNat env := by
  -- By induction on the retries that are left, which is the difference of the limit and the
  -- counter.
  generalize hremaining : limits.maxRetries.toNat - attempt.toNat = remaining
  induction remaining generalizing attempt env with
  | zero =>
      have hretry : ¬ shouldRetry attempt limits.maxRetries := fun h => by
        have hlt := (toNat_succ_of_shouldRetry h).2
        omega
      rcases hattempt : OllamaClient.tryCompleteOnce http config req env with ⟨e | c, env'⟩
      · rw [completeFrom_of_last hattempt hretry, Retry.run, hattempt]
      · rw [completeFrom_of_ok hattempt, Retry.run_of_ok hattempt]
  | succ remaining ih =>
      have hretry : shouldRetry attempt limits.maxRetries :=
        decide_eq_true (UInt32.lt_iff_toNat_lt.mpr (by omega))
      -- The counter is below the limit, so it is raised without overflow.
      obtain ⟨hsucc, hlt⟩ := toNat_succ_of_shouldRetry hretry
      rcases hattempt : OllamaClient.tryCompleteOnce http config req env with ⟨e | c, env'⟩
      · rw [completeFrom_of_retry hattempt hretry, Retry.run_succ_of_error hattempt,
          ih (attempt + 1) _ (by omega), hsucc]
      · rw [completeFrom_of_ok hattempt, Retry.run_of_ok hattempt]

theorem complete_eq_run (env : ε) :
    complete http config limits req env =
      Retry.run (OllamaClient.tryCompleteOnce http config req) http.sleep limits.backoff
        limits.maxRetries.toNat 0 env :=
  completeFrom_eq_run http config limits req 0 env

/-- The client over plain numbers is a loop with retries too. -/
theorem retry_eq_run (remaining attempt : Nat) (env : ε) :
    OllamaClient.retry http (limits.config config) req remaining attempt env =
      ((Retry.run (OllamaClient.tryCompleteOnce http config req) http.sleep limits.backoff
          remaining attempt env).result,
        (Retry.run (OllamaClient.tryCompleteOnce http config req) http.sleep limits.backoff
          remaining attempt env).state) := by
  induction remaining generalizing attempt env with
  | zero => rfl
  | succ remaining ih =>
      have honce : OllamaClient.tryCompleteOnce http (limits.config config) req env =
          OllamaClient.tryCompleteOnce http config req env := rfl
      rw [OllamaClient.retry, honce]
      rcases hattempt : OllamaClient.tryCompleteOnce http config req env with ⟨e | c, env'⟩
      · have hbackoff : AgenticIde.computeBackoffMs attempt limits.backoffBaseMs.toNat
            limits.backoffMaxMs.toNat = limits.backoff attempt := by
          have hmax := limits.backoffMaxMs.toNat_lt
          -- The cap is a machine integer, so the plain product under it is the saturated
          -- one.
          rw [AgenticIde.computeBackoffMs, backoff]
          omega
        show OllamaClient.retry http (limits.config config) req remaining (attempt + 1)
          (http.sleep (AgenticIde.computeBackoffMs attempt limits.backoffBaseMs.toNat
            limits.backoffMaxMs.toNat) env') = _
        rw [hbackoff, Retry.run_succ_of_error hattempt]
        exact ih _ _
      · rw [Retry.run_of_ok hattempt]
        rfl

/-- **Plain numbers do as well**: the client with its limits as such answers what
the loop over machine integers answers.  So the modules about completions need not
speak of machine integers. -/
theorem OllamaClient_onComplete (env : ε) :
    (OllamaClient http (limits.config config)).onComplete req env =
      ((complete http config limits req env).result,
        (complete http config limits req env).state) := by
  rw [complete_eq_run]
  exact retry_eq_run http config limits req limits.maxRetries.toNat 0 env

end RetryLimits

open RetryLimits

end AgenticIde
