/-
AgenticIde/Lib/Recent.lean

The last entries of a list that grows at its end.

A window that keeps the last `n` entries is pushed to and then cut, at every step, and knows
nothing of what it has thrown away.  What it has in the end is what cutting once at the end
would have left (`rtake_concat_rtake`), so an invariant may speak of the whole history.
-/
import Mathlib.Data.List.DropRight

namespace AgenticIde

theorem length_rtake_le {α : Type*} (n : Nat) (l : List α) : (l.rtake n).length ≤ n := by
  rw [List.rtake, List.length_drop]
  omega

/-- A list that is not longer is kept whole. -/
theorem rtake_of_length_le {α : Type*} {n : Nat} {l : List α} (h : l.length ≤ n) :
    l.rtake n = l := by
  rw [List.rtake, Nat.sub_eq_zero_of_le h, List.drop_zero]

/-- Keeping the last `n` entries at every step is keeping the last `n`. -/
theorem rtake_concat_rtake {α : Type*} (n : Nat) (l : List α) (x : α) :
    (l.rtake n ++ [x]).rtake n = (l ++ [x]).rtake n := by
  rcases n with - | n
  · simp
  · rw [List.rtake_concat_succ, List.rtake_concat_succ]
    congr 1
    simp only [List.rtake, List.drop_drop, List.length_drop]
    congr 1
    omega

end AgenticIde
