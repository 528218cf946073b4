/-
AgenticIde/Lib/Retry.lean

Doing something again until it succeeds.

An attempt answers a result or an error and leaves a state behind.  After an error, as long as
retries are left, `run` waits and starts the next attempt; what it waits may depend on the
number of the attempt.  All attempts but the last have failed, each of them with its wait; the
last one decides, and it is an error only where no retry is left (`exists_failures`).

Waits are numbers that are written down, and waiting changes the state as the environment
likes.  With a cap on each wait their sum has a bound that depends on the number of retries
alone (`sum_waits_le`), whatever the attempts do.
-/
import Mathlib.Data.List.Range
import Mathlib.Algebra.BigOperators.Group.List.Lemmas
import Mathlib.Algebra.Order.BigOperators.Group.List
import Mathlib.Algebra.Order.Ring.Nat

namespace AgenticIde

namespace Retry

variable {S E A : Type*}

/-- What came of a loop with retries: its attempts and waits in their order, and how it ended. -/
structure Outcome (S E A : Type*) where
  attempts : List (Except E A)
  waits : List Nat
  result : Except E A
  state : S

/-- An attempt that ends the loop. -/
def Outcome.last (p : Except E A × S) : Outcome S E A := ⟨[p.1], [], p.1, p.2⟩

/-- An outcome after a failed attempt and a wait. -/
def Outcome.after (e : E) (wait : Nat) (o : Outcome S E A) : Outcome S E A :=
  ⟨.error e :: o.attempts, wait :: o.waits, o.result, o.state⟩

variable (once : S → Except E A × S) (pause : Nat → S → S) (backoff : Nat → Nat)

/-- Attempt number `attempt`, with `remaining` retries after it. -/
def run : (remaining attempt : Nat) → S → Outcome S E A
  | 0, _, s => .last (once s)
  | remaining + 1, attempt, s =>
      match once s with
      | (.ok a, s) => .last (.ok a, s)
      | (.error e, s) =>
          .after e (backoff attempt) (run remaining (attempt + 1) (pause (backoff attempt) s))

variable {once pause backoff}

theorem run_of_ok {remaining attempt : Nat} {s s' : S} {a : A} (h : once s = (.ok a, s')) :
    run once pause backoff remaining attempt s = .last (.ok a, s') := by
  rcases remaining with - | remaining
  · rw [run, h]
  · rw [run, h]

theorem run_succ_of_error {remaining attempt : Nat} {s s' : S} {e : E}
    (h : once s = (.error e, s')) :
    run once pause backoff (remaining + 1) attempt s =
      .after e (backoff attempt)
        (run once pause backoff remaining (attempt + 1) (pause (backoff attempt) s')) := by
  rw [run, h]

variable (once pause backoff)

/-- **The attempts**: some failures and the one that decides, which is an error only where the
retries are used up. -/
theorem exists_failures (remaining attempt : Nat) (s : S) :
    ∃ failures : List E,
      (run once pause backoff remaining attempt s).attempts =
        failures.map .error ++ [(run once pause backoff remaining attempt s).result] ∧
      (run once pause backoff remaining attempt s).waits =
        (List.range failures.length).map (fun i => backoff (attempt + i)) ∧
      failures.length ≤ remaining ∧
      ∀ e, (run once pause backoff remaining attempt s).result = .error e →
        failures.length = remaining := by
  induction remaining generalizing attempt s with
  | zero => exact ⟨[], rfl, rfl, Nat.le_refl 0, fun _ _ => rfl⟩
  | succ remaining ih =>
      rcases honce : once s with ⟨e | a, s'⟩
      · rw [run_succ_of_error honce]
        obtain ⟨failures, hattempts, hwaits, hle, hlast⟩ :=
          ih (attempt + 1) (pause (backoff attempt) s')
        refine ⟨e :: failures, congrArg (Except.error e :: ·) hattempts, ?_,
          Nat.succ_le_succ hle, fun e' he' => congrArg Nat.succ (hlast e' he')⟩
        show backoff attempt :: (run once pause backoff remaining (attempt + 1) _).waits = _
        rw [hwaits, List.length_cons, List.range_succ_eq_map, List.map_cons, List.map_map]
        congr 1
        apply List.map_congr_left
        intro i _
        show backoff (attempt + 1 + i) = backoff (attempt + (i + 1))
        rw [Nat.add_assoc, Nat.add_comm 1]
      · rw [run_of_ok honce]
        exact ⟨[], rfl, rfl, Nat.zero_le _, fun _ h => nomatch h⟩

/-- No more attempts than retries and one. -/
theorem length_attempts_le (remaining attempt : Nat) (s : S) :
    (run once pause backoff remaining attempt s).attempts.length ≤ remaining + 1 := by
  obtain ⟨failures, hattempts, -, hle, -⟩ :=
    exists_failures once pause backoff remaining attempt s
  rw [hattempts, List.length_append, List.length_map]
  exact Nat.succ_le_succ hle

variable {backoff}

/-- Where a wait never exceeds a bound, all of them together do not exceed it as often as there
are retries. -/
theorem sum_waits_le {cap : Nat} (hcap : ∀ i, backoff i ≤ cap) (remaining attempt : Nat) (s : S) :
    (run once pause backoff remaining attempt s).waits.sum ≤ remaining * cap := by
  obtain ⟨failures, -, hwaits, hle, -⟩ :=
    exists_failures once pause backoff remaining attempt s
  rw [hwaits]
  calc ((List.range failures.length).map fun i => backoff (attempt + i)).sum
      ≤ ((List.range failures.length).map fun i => backoff (attempt + i)).length • cap :=
        List.sum_le_card_nsmul _ _ fun wait hwait => by
          obtain ⟨i, -, rfl⟩ := List.mem_map.mp hwait
          exact hcap (attempt + i)
    _ = failures.length * cap := by rw [List.length_map, List.length_range, Nat.nsmul_eq_mul]
    _ ≤ remaining * cap := Nat.mul_le_mul_right cap hle

end Retry

end AgenticIde
