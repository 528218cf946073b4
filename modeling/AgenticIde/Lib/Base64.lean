/-
AgenticIde/Lib/Base64.lean

Base64 with the URL-safe alphabet and without padding: three octets are four digits of six
bits, one or two octets that remain are two or three digits whose last bits are zero.

Decoding reads back what was encoded (`decode_encode`), and an encoded text has no character
outside the alphabet, so it can stand between separators.

Decoding is strict: a character outside the alphabet, a digit that is left alone, or last
bits that are not zero are errors.  That is how the tokens of the web are read, which must not be
written in two ways.
-/
import Mathlib.Data.List.Basic

namespace AgenticIde

namespace Base64

/-- The digits, by value. -/
def urlSafe : List Char :=
  ['A', 'B', 'C', 'D', 'E', 'F', 'G', 'H', 'I', 'J', 'K', 'L', 'M', 'N', 'O', 'P',
    'Q', 'R', 'S', 'T', 'U', 'V', 'W', 'X', 'Y', 'Z', 'a', 'b', 'c', 'd', 'e', 'f',
    'g', 'h', 'i', 'j', 'k', 'l', 'm', 'n', 'o', 'p', 'q', 'r', 's', 't', 'u', 'v',
    'w', 'x', 'y', 'z', '0', '1', '2', '3', '4', '5', '6', '7', '8', '9', '-', '_']

/-- The digit of six bits. -/
def digit (n : Nat) : Char := urlSafe.getD n 'A'

/-- The six bits of a digit. -/
def value (c : Char) : Option Nat := urlSafe.idxOf? c

/-- Encode octets, on characters. -/
def encodeChars : List UInt8 → List Char
  | [] => []
  | [a] => [digit (a.toNat / 4), digit (a.toNat % 4 * 16)]
  | [a, b] =>
      [digit (a.toNat / 4), digit (a.toNat % 4 * 16 + b.toNat / 16), digit (b.toNat % 16 * 4)]
  | a :: b :: c :: rest =>
      digit (a.toNat / 4) :: digit (a.toNat % 4 * 16 + b.toNat / 16) ::
        digit (b.toNat % 16 * 4 + c.toNat / 64) :: digit (c.toNat % 64) :: encodeChars rest

/-- Encode octets. -/
def encode (bs : List UInt8) : String := String.ofList (encodeChars bs)

/-- Decode digits; a lone digit, a character outside the alphabet and bits
that do not fill an octet are errors. -/
def decodeChars : List Char → Option (List UInt8)
  | [] => some []
  | [_] => none
  | [w, x] => do
      let w ← value w
      let x ← value x
      if x % 16 = 0 then some [UInt8.ofNat (w * 4 + x / 16)] else none
  | [w, x, y] => do
      let w ← value w
      let x ← value x
      let y ← value y
      if y % 4 = 0 then some [UInt8.ofNat (w * 4 + x / 16), UInt8.ofNat (x % 16 * 16 + y / 4)]
      else none
  | w :: x :: y :: z :: rest => do
      let w ← value w
      let x ← value x
      let y ← value y
      let z ← value z
      let bs ← decodeChars rest
      some (UInt8.ofNat (w * 4 + x / 16) :: UInt8.ofNat (x % 16 * 16 + y / 4) ::
        UInt8.ofNat (y % 4 * 64 + z) :: bs)

/-- Decode a text. -/
def decode (s : String) : Option (List UInt8) := decodeChars s.toList

theorem value_digit {n : Nat} (h : n < 64) : value (digit n) = some n := by
  have hall : ∀ n < 64, value (digit n) = some n := by decide
  exact hall n h

theorem digit_mem (n : Nat) : digit n ∈ urlSafe := by
  rw [digit, List.getD]
  cases h : urlSafe[n]? with
  | none => decide
  | some c => exact List.mem_of_getElem? h

theorem mem_encodeChars {bs : List UInt8} {c : Char} (h : c ∈ encodeChars bs) : c ∈ urlSafe := by
  fun_induction encodeChars bs with
  | case1 => simp at h
  | case2 a =>
      simp only [List.mem_cons, List.not_mem_nil, or_false] at h
      rcases h with rfl | rfl <;> exact digit_mem _
  | case3 a b =>
      simp only [List.mem_cons, List.not_mem_nil, or_false] at h
      rcases h with rfl | rfl | rfl <;> exact digit_mem _
  | case4 a b c' rest ih =>
      simp only [List.mem_cons] at h
      rcases h with rfl | rfl | rfl | rfl | h
      · exact digit_mem _
      · exact digit_mem _
      · exact digit_mem _
      · exact digit_mem _
      · exact ih h

/-- An encoded text is written in the alphabet. -/
theorem mem_encode {bs : List UInt8} {c : Char} (h : c ∈ (encode bs).toList) : c ∈ urlSafe := by
  rw [encode, String.toList_ofList] at h
  exact mem_encodeChars h

/-- The first two digits hold the first octet. -/
theorem octet_of_digits (a : UInt8) {k : Nat} (hk : k < 16) :
    UInt8.ofNat (a.toNat / 4 * 4 + (a.toNat % 4 * 16 + k) / 16) = a := by
  have hnat : a.toNat / 4 * 4 + (a.toNat % 4 * 16 + k) / 16 = a.toNat := by omega
  rw [hnat, UInt8.ofNat_toNat]

theorem octet_of_digits₂ (a b : UInt8) {k : Nat} (hk : k < 4) :
    UInt8.ofNat ((a.toNat % 4 * 16 + b.toNat / 16) % 16 * 16 + (b.toNat % 16 * 4 + k) / 4) = b := by
  have hb : b.toNat < 256 := b.toNat_lt
  have hnat : (a.toNat % 4 * 16 + b.toNat / 16) % 16 * 16 + (b.toNat % 16 * 4 + k) / 4 =
      b.toNat := by omega
  rw [hnat, UInt8.ofNat_toNat]

theorem octet_of_digits₃ (b c : UInt8) :
    UInt8.ofNat ((b.toNat % 16 * 4 + c.toNat / 64) % 4 * 64 + c.toNat % 64) = c := by
  have hc : c.toNat < 256 := c.toNat_lt
  have hnat : (b.toNat % 16 * 4 + c.toNat / 64) % 4 * 64 + c.toNat % 64 = c.toNat := by omega
  rw [hnat, UInt8.ofNat_toNat]

theorem decodeChars_encodeChars (bs : List UInt8) : decodeChars (encodeChars bs) = some bs := by
  fun_induction encodeChars bs with
  | case1 => rfl
  | case2 a =>
      have ha : a.toNat < 256 := a.toNat_lt
      have h₁ := octet_of_digits a (Nat.zero_lt_succ 15)
      simp only [decodeChars, value_digit (show a.toNat / 4 < 64 by omega),
        value_digit (show a.toNat % 4 * 16 < 64 by omega)]
      simpa using h₁
  | case3 a b =>
      have ha : a.toNat < 256 := a.toNat_lt
      have hb : b.toNat < 256 := b.toNat_lt
      have h₁ := octet_of_digits a (show b.toNat / 16 < 16 by omega)
      have h₂ := octet_of_digits₂ a b (Nat.zero_lt_succ 3)
      simp only [decodeChars, value_digit (show a.toNat / 4 < 64 by omega),
        value_digit (show a.toNat % 4 * 16 + b.toNat / 16 < 64 by omega),
        value_digit (show b.toNat % 16 * 4 < 64 by omega), Option.bind_eq_bind, Option.bind_some,
        if_pos (show b.toNat % 16 * 4 % 4 = 0 by omega), h₁]
      rw [Nat.add_zero] at h₂
      rw [h₂]
  | case4 a b c rest ih =>
      have ha : a.toNat < 256 := a.toNat_lt
      have hb : b.toNat < 256 := b.toNat_lt
      have hc : c.toNat < 256 := c.toNat_lt
      have h₁ := octet_of_digits a (show b.toNat / 16 < 16 by omega)
      have h₂ := octet_of_digits₂ a b (show c.toNat / 64 < 4 by omega)
      have h₃ := octet_of_digits₃ b c
      simp only [decodeChars, value_digit (show a.toNat / 4 < 64 by omega),
        value_digit (show a.toNat % 4 * 16 + b.toNat / 16 < 64 by omega),
        value_digit (show b.toNat % 16 * 4 + c.toNat / 64 < 64 by omega),
        value_digit (show c.toNat % 64 < 64 by omega), Option.bind_eq_bind, Option.bind_some,
        ih, h₁, h₂, h₃]

/-- **Decoding reads back what was encoded.**  By groups of three octets; the last
group may have one or two, and the bits that are filled up with are zero. -/
theorem decode_encode (bs : List UInt8) : decode (encode bs) = some bs := by
  rw [decode, encode, String.toList_ofList, decodeChars_encodeChars]

example : encode [102, 111, 111, 98] = "Zm9vYg" := by decide

end Base64

end AgenticIde
