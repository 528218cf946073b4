/-
AgenticIde/Lib/Usize.lean

Machine integers of the size of a pointer, as numbers.

What an addition or a multiplication does when its result does not fit depends on
how the program was built: with overflow checks, as in a debug build, it panics;
without them, as in a release build, the result wraps around.  `none` stands for
the panic, so a computation with several such steps is a chain in `Option`, and
every step of it that fits is the one of the natural numbers (`usizeAdd_of_lt`,
`usizeMul_of_lt`).

A sum folds the addition; where it fits in all, the order and the profile do not
matter (`usizeSum_on`, `usizeSum_off`).

A collection that is made with a capacity asks for the memory at once.  The
request is refused, whatever the profile, when it is for more octets than the
largest signed integer says (`capacityFits`).
-/
import Mathlib.Algebra.BigOperators.Group.List.Basic
import Mathlib.Algebra.GroupWithZero.Nat

namespace AgenticIde

/-- Whether overflow is checked: it is in a debug build, not in a release build. -/
inductive OverflowChecks
  | on
  | off

/-- An addition of machine integers; an overflow panics if it is checked, and
wraps around if not. -/
def usizeAdd : OverflowChecks → Nat → Nat → Option Nat
  | .on, a, b => if a + b < UInt64.size then some (a + b) else none
  | .off, a, b => some ((a + b) % UInt64.size)

/-- A multiplication of machine integers. -/
def usizeMul : OverflowChecks → Nat → Nat → Option Nat
  | .on, a, b => if a * b < UInt64.size then some (a * b) else none
  | .off, a, b => some (a * b % UInt64.size)

/-- There is room for so many elements of so many octets each: `with_capacity` panics
beyond `isize::MAX` octets. -/
def capacityFits (octets capacity : Nat) : Bool := capacity * octets < UInt64.size / 2

theorem usizeAdd_of_lt (checks : OverflowChecks) {a b : Nat} (h : a + b < UInt64.size) :
    usizeAdd checks a b = some (a + b) := by
  cases checks with
  | on => exact if_pos h
  | off => exact congrArg some (Nat.mod_eq_of_lt h)

/-- Where an addition does not panic, its result is a machine integer. -/
theorem lt_of_usizeAdd {checks : OverflowChecks} {a b c : Nat} (h : usizeAdd checks a b = some c) :
    c < UInt64.size := by
  cases checks with
  | on =>
      by_cases hfits : a + b < UInt64.size
      · rw [show usizeAdd .on a b = some (a + b) from if_pos hfits] at h
        exact Option.some.inj h ▸ hfits
      · rw [show usizeAdd .on a b = none from if_neg hfits] at h
        cases h
  | off =>
      rw [← Option.some.inj h]
      exact Nat.mod_lt _ (by decide)

theorem usizeMul_of_lt (checks : OverflowChecks) {a b : Nat} (h : a * b < UInt64.size) :
    usizeMul checks a b = some (a * b) := by
  cases checks with
  | on => exact if_pos h
  | off => exact congrArg some (Nat.mod_eq_of_lt h)

/-- A sum of machine integers. -/
def usizeSum (checks : OverflowChecks) (ns : List Nat) : Option Nat :=
  ns.foldlM (usizeAdd checks) 0

theorem foldlM_usizeAdd_on {a : Nat} (ha : a < UInt64.size) (ns : List Nat) :
    ns.foldlM (usizeAdd .on) a = if a + ns.sum < UInt64.size then some (a + ns.sum) else none := by
  induction ns generalizing a with
  | nil =>
      rw [List.sum_nil, Nat.add_zero, if_pos ha]
      rfl
  | cons n ns ih =>
      rw [List.foldlM_cons, List.sum_cons, ← Nat.add_assoc]
      by_cases hfits : a + n < UInt64.size
      · have hstep : usizeAdd .on a n = some (a + n) := if_pos hfits
        rw [hstep]
        exact ih hfits
      · have hstep : usizeAdd .on a n = none := if_neg hfits
        rw [hstep, if_neg (by omega)]
        rfl

theorem foldlM_usizeAdd_off {a : Nat} (ha : a < UInt64.size) (ns : List Nat) :
    ns.foldlM (usizeAdd .off) a = some ((a + ns.sum) % UInt64.size) := by
  induction ns generalizing a with
  | nil =>
      rw [List.sum_nil, Nat.add_zero, Nat.mod_eq_of_lt ha]
      rfl
  | cons n ns ih =>
      rw [List.foldlM_cons, List.sum_cons, ← Nat.add_assoc]
      show ns.foldlM (usizeAdd .off) ((a + n) % UInt64.size) = _
      rw [ih (Nat.mod_lt _ (by decide)), Nat.mod_add_mod]

theorem usizeSum_on (ns : List Nat) :
    usizeSum .on ns = if ns.sum < UInt64.size then some ns.sum else none := by
  rw [usizeSum, foldlM_usizeAdd_on (by decide), Nat.zero_add]

theorem usizeSum_off (ns : List Nat) : usizeSum .off ns = some (ns.sum % UInt64.size) := by
  rw [usizeSum, foldlM_usizeAdd_off (by decide), Nat.zero_add]

end AgenticIde
