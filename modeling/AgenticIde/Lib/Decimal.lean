/-
AgenticIde/Lib/Decimal.lean

Natural numbers written in decimal.

What is printed is made of digits, and is read back (`readNat_toString`).  Reading takes more
than what is printed, as there may be zeros in front; it fails on the empty text and on
whatever is not a digit, a sign or a blank among them.
-/
import Mathlib.Data.Nat.Basic

namespace AgenticIde

namespace Decimal

/-- A number of digits only. -/
def readNat (cs : List Char) : Option Nat :=
  if cs ≠ [] ∧ cs.all Char.isDigit then some (Nat.ofDigitChars 10 cs 0) else none

theorem toList_toString (n : Nat) : (toString n).toList = Nat.toDigits 10 n := Nat.toList_repr

theorem isDigit_of_mem {n : Nat} {ch : Char} (h : ch ∈ (toString n).toList) :
    ch.isDigit = true := by
  rw [toList_toString] at h
  exact Nat.isDigit_of_mem_toDigits (by decide) (by decide) h

/-- The codes of the digits. -/
theorem toNat_of_isDigit {ch : Char} (h : ch.isDigit = true) :
    48 ≤ ch.toNat ∧ ch.toNat ≤ 57 := by
  rw [Char.isDigit, Bool.and_eq_true, decide_eq_true_iff, decide_eq_true_iff] at h
  exact h

theorem readNat_toString (n : Nat) : readNat (toString n).toList = some n := by
  have hall : (Nat.toDigits 10 n).all Char.isDigit = true :=
    List.all_eq_true.mpr fun ch hch => Nat.isDigit_of_mem_toDigits (by decide) (by decide) hch
  rw [toList_toString, readNat, if_pos ⟨Nat.toDigits_ne_nil, hall⟩,
    Nat.ofDigitChars_ten_toDigits]

end Decimal

end AgenticIde
