/-
AgenticIde/Lib/Lossy.lean

`String::from_utf8_lossy`: bytes as text, with U+FFFD for what is no UTF-8.

A replacement stands for as many bytes as could have begun a character; decoding goes on with
the next one.  So no byte is swallowed that could begin a character of its own.

Text of ASCII is read as it is, whatever follows it (`fromUtf8Lossy_append`).  That is what a
reader of a protocol needs, whose first line is ASCII and whose rest is nobody's business: a
broken character behind the line does not reach back into it.
-/
import AgenticIde.Lib.Http

namespace AgenticIde

/-- How many bytes follow a lead byte, and what the first of them may be. -/
def utf8Lead (b : Nat) : Option (Nat × Nat × Nat) :=
  if 0xC2 ≤ b ∧ b ≤ 0xDF then some (1, 0x80, 0xBF)
  else if b = 0xE0 then some (2, 0xA0, 0xBF)
  else if b = 0xED then some (2, 0x80, 0x9F)
  else if 0xE1 ≤ b ∧ b ≤ 0xEF then some (2, 0x80, 0xBF)
  else if b = 0xF0 then some (3, 0x90, 0xBF)
  else if 0xF1 ≤ b ∧ b ≤ 0xF3 then some (3, 0x80, 0xBF)
  else if b = 0xF4 then some (3, 0x80, 0x8F)
  else none

/-- The bytes, `len` at most, that go on with a character. -/
def continuation : (len lo hi : Nat) → List UInt8 → List UInt8
  | len + 1, lo, hi, b :: bs =>
      if lo ≤ b.toNat ∧ b.toNat ≤ hi then b :: continuation len 0x80 0xBF bs else []
  | _, _, _, _ => []

/-- The first character of some bytes, and how many it takes besides the first
one. -/
def decodeFirst (b : UInt8) (bs : List UInt8) : Char × Nat :=
  if b.toNat < 0x80 then (Char.ofNat b.toNat, 0)
  else
    match utf8Lead b.toNat with
    | none => ('\uFFFD', 0)
    | some (len, lo, hi) =>
        let tail := continuation len lo hi bs
        if tail.length = len then
          (Char.ofNat (tail.foldl (fun n t => n * 64 + t.toNat % 64) (b.toNat % 2 ^ (6 - len))),
            len)
        else ('\uFFFD', tail.length)

/-- `String::from_utf8_lossy`. -/
def fromUtf8Lossy : List UInt8 → List Char
  | [] => []
  | b :: bs => (decodeFirst b bs).1 :: fromUtf8Lossy (bs.drop (decodeFirst b bs).2)
termination_by bytes => bytes.length
decreasing_by
  rw [List.length_drop, List.length_cons]
  omega

/-- A character of ASCII is read as it is. -/
theorem fromUtf8Lossy_cons {c : Char} (h : c.toNat < 128) (rest : List UInt8) :
    fromUtf8Lossy (UInt8.ofNat c.toNat :: rest) = c :: fromUtf8Lossy rest := by
  have hval : (UInt8.ofNat c.toNat).toNat = c.toNat :=
    UInt8.toNat_ofNat_of_lt' (Nat.lt_trans h (by decide))
  have hfirst : decodeFirst (UInt8.ofNat c.toNat) rest = (c, 0) := by
    rw [decodeFirst, hval, if_pos h, Char.ofNat_toNat]
  rw [fromUtf8Lossy, hfirst]
  rfl

theorem fromUtf8Lossy_append {s : String} (h : ∀ c ∈ s.toList, c.toNat < 128)
    (rest : List UInt8) : fromUtf8Lossy (utf8 s ++ rest) = s.toList ++ fromUtf8Lossy rest := by
  rw [utf8]
  generalize s.toList = cs at h
  induction cs with
  | nil => rfl
  | cons c cs ih =>
      obtain ⟨hc, hcs⟩ := List.forall_mem_cons.mp h
      rw [List.flatMap_cons, Http.utf8EncodeChar_of_ascii hc, List.singleton_append,
        List.cons_append, fromUtf8Lossy_cons hc, ih hcs, List.cons_append]

end AgenticIde
