/-
AgenticIde/Lib/Rounding.lean

Numbers to so many binary digits.

`nearest p` keeps `p` significant binary digits of a number and rounds what follows to the
nearest, ties to even; it is what a binary format does to a result that is neither too large
nor too small for it.  The error is at most half a unit in the last place, which is a `2 ^ p`-th
of the number (`abs_nearest_sub_le`), and so rounding takes away no more than that
(`mul_le_nearest`).

The numbers are those of any ordered field with a floor, so they can be rational, and then
rounding computes.  The unit in the last place is a power of two that is found from the
logarithm of the number; for zero it does not matter, as zero is rounded to itself.
-/
import Mathlib.Algebra.Order.Floor.Ring
import Mathlib.Data.Int.Log
import Mathlib.Tactic.Linarith
import Mathlib.Tactic.Ring
import Mathlib.Tactic.Positivity

namespace AgenticIde

namespace Rounding

variable {K : Type*} [Field K] [LinearOrder K] [IsStrictOrderedRing K] [FloorRing K]

/-- The nearest integer, of two the even one. -/
def roundEven (q : K) : ℤ :=
  if q - ⌊q⌋ < 1 / 2 then ⌊q⌋
  else if 1 / 2 < q - ⌊q⌋ then ⌊q⌋ + 1
  else if Even ⌊q⌋ then ⌊q⌋ else ⌊q⌋ + 1

/-- One unit in the last of `p` places. -/
def ulp (p : Nat) (q : K) : K := 2 ^ (Int.log 2 |q| + 1 - p)

/-- The nearest number of `p` significant digits. -/
def nearest (p : Nat) (q : K) : K := roundEven (q / ulp p q) * ulp p q

theorem abs_roundEven_sub_le (q : K) : |(roundEven q : K) - q| ≤ 1 / 2 := by
  have hle := Int.floor_le q
  have hlt := Int.lt_floor_add_one q
  have hup : ((⌊q⌋ + 1 : ℤ) : K) = ⌊q⌋ + 1 := by rw [Int.cast_add, Int.cast_one]
  rw [abs_le, roundEven]
  split_ifs with hdown hround heven
  · constructor <;> linarith
  · rw [hup]
    constructor <;> linarith
  · constructor <;> linarith
  · rw [hup]
    constructor <;> linarith

theorem ulp_pos (p : Nat) (q : K) : 0 < ulp p q := zpow_pos two_pos _

/-- The unit is small beside the number. -/
theorem ulp_mul_le {p : Nat} {q : K} (h : q ≠ 0) : ulp p q * 2 ^ p ≤ 2 * |q| := by
  have hlog : (2 : K) ^ Int.log 2 |q| ≤ |q| := by
    have hle := Int.zpow_log_le_self (R := K) Nat.one_lt_two (abs_pos.mpr h)
    rwa [Nat.cast_ofNat] at hle
  calc ulp p q * 2 ^ p
      = 2 ^ Int.log 2 |q| * 2 := by
        rw [ulp, ← zpow_natCast, ← zpow_add₀ two_ne_zero, sub_add_cancel,
          zpow_add_one₀ two_ne_zero]
    _ ≤ |q| * 2 := mul_le_mul_of_nonneg_right hlog two_pos.le
    _ = 2 * |q| := mul_comm _ _

/-- **The error of rounding**: a `2 ^ p`-th of the number.  It is half a unit in the
last place at most, and the unit is small beside the number. -/
theorem abs_nearest_sub_le (p : Nat) (q : K) : |nearest p q - q| ≤ |q| / 2 ^ p := by
  rcases eq_or_ne q 0 with rfl | h
  · have hzero : roundEven (0 : K) = 0 := by simp [roundEven]
    rw [nearest, zero_div, hzero, Int.cast_zero, zero_mul, sub_zero, abs_zero, zero_div]
  · have hulp := ulp_pos p q
    have hpow : (0 : K) < 2 ^ p := pow_pos two_pos p
    have hsplit : nearest p q - q = (roundEven (q / ulp p q) - q / ulp p q) * ulp p q := by
      rw [sub_mul, div_mul_cancel₀ _ hulp.ne']
      rfl
    rw [hsplit, abs_mul, abs_of_pos hulp, le_div_iff₀ hpow]
    calc |(roundEven (q / ulp p q) : K) - q / ulp p q| * ulp p q * 2 ^ p
        = |(roundEven (q / ulp p q) : K) - q / ulp p q| * (ulp p q * 2 ^ p) := mul_assoc _ _ _
      _ ≤ 1 / 2 * (2 * |q|) :=
          mul_le_mul (abs_roundEven_sub_le _) (ulp_mul_le h) (by positivity) (by positivity)
      _ = |q| := by ring

/-- Rounding takes away at most that part. -/
theorem mul_le_nearest {p : Nat} {q : K} (h : 0 ≤ q) : q * (1 - 1 / 2 ^ p) ≤ nearest p q := by
  have herror := (abs_le.mp (abs_nearest_sub_le p q)).1
  rw [abs_of_nonneg h] at herror
  have hsplit : q * (1 - 1 / 2 ^ p) = q - q / 2 ^ p := by ring
  linarith

end Rounding

end AgenticIde
