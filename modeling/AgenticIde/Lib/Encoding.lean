/-
AgenticIde/Lib/Encoding.lean

Text as bytes.  Three encodings and the facts a hash of a text needs:

* `utf8`, the bytes of a string, injective, and with a backslash byte
  exactly where the string has a backslash;
* `hex`, lower-case hexadecimal, injective, with only hexadecimal digits;
* `byteaIn`, the input syntax of PostgreSQL's `bytea`, which a `text::bytea`
  cast applies to the bytes of the text: a leading `\x` means hexadecimal,
  otherwise `\\` is one backslash, `\ooo` one octet, and any other backslash
  an error.

The point of the last is `byteaIn_eq_self_iff`: the cast is the identity
exactly on the texts without a backslash.
-/
import Mathlib.Data.List.Basic
import Mathlib.Tactic.Common
import Mathlib.Tactic.IntervalCases

namespace AgenticIde

/-! ### UTF-8 -/

/-- The UTF-8 bytes of a string (`str::as_bytes`). -/
def utf8 (s : String) : List UInt8 := s.toList.flatMap String.utf8EncodeChar

/-- The octet of a backslash. -/
def backslash : UInt8 := 92

@[simp] theorem utf8_empty : utf8 "" = [] := rfl

@[simp] theorem utf8_append (s t : String) : utf8 (s ++ t) = utf8 s ++ utf8 t := by
  simp [utf8, String.toList_append]

theorem utf8_toByteArray (s : String) : (utf8 s).toByteArray = s.toByteArray :=
  String.utf8Encode_toList

theorem utf8_injective : Function.Injective utf8 := by
  intro s t h
  rw [← String.toByteArray_inj, ← utf8_toByteArray, ← utf8_toByteArray, h]

/-- An ASCII octet occurs in the encoding of a character exactly when it is
that character. -/
theorem mem_utf8EncodeChar_iff {b : UInt8} (hb : b.toNat ≤ 127) (c : Char) :
    b ∈ String.utf8EncodeChar c ↔ c.toNat = b.toNat := by
  have hc : c.val.toNat < 1114112 := by
    have := c.valid
    simp only [UInt32.isValidChar, Nat.isValidChar] at this
    omega
  have hofNat : ∀ n, n < 256 → (b = UInt8.ofNat n ↔ b.toNat = n) := by
    intro n hn
    rw [← UInt8.toNat_inj, UInt8.toNat_ofNat', Nat.mod_eq_of_lt hn]
  have hnat : c.toNat = c.val.toNat := rfl
  rw [hnat]
  unfold String.utf8EncodeChar
  simp only
  -- one case for each length of the encoding; the octets of a longer one are 128 and above
  split
  · rw [List.mem_singleton, hofNat _ (by omega)]
    exact eq_comm
  · split
    · simp only [List.mem_cons, List.not_mem_nil, or_false]
      rw [hofNat _ (by omega), hofNat _ (by omega)]
      omega
    · split
      · simp only [List.mem_cons, List.not_mem_nil, or_false]
        rw [hofNat _ (by omega), hofNat _ (by omega), hofNat _ (by omega)]
        omega
      · simp only [List.mem_cons, List.not_mem_nil, or_false]
        rw [hofNat _ (by omega), hofNat _ (by omega), hofNat _ (by omega), hofNat _ (by omega)]
        omega

/-- The encoding of a string has a backslash octet exactly when the string
has a backslash. -/
theorem backslash_mem_utf8_iff (s : String) : backslash ∈ utf8 s ↔ '\\' ∈ s.toList := by
  simp only [utf8, List.mem_flatMap]
  constructor
  · rintro ⟨c, hc, hb⟩
    rw [mem_utf8EncodeChar_iff (by decide)] at hb
    rwa [show '\\' = c from Char.ext (UInt32.toNat_inj.mp hb.symm)]
  · intro h
    exact ⟨'\\', h, by decide⟩

/-! ### Hexadecimal -/

/-- The two digits of an octet (`{b:02x}`). -/
def hexByte (b : UInt8) : List Char := [Nat.digitChar (b.toNat / 16), Nat.digitChar (b.toNat % 16)]

/-- Lower-case hexadecimal digits of a byte string. -/
def hex (bs : List UInt8) : String := String.ofList (bs.flatMap hexByte)

/-- The characters of `hex`. -/
def hexDigits : List Char := "0123456789abcdef".toList

theorem digitChar_mem_hexDigits {n : Nat} (h : n < 16) : Nat.digitChar n ∈ hexDigits := by
  interval_cases n <;> decide

theorem digitChar_inj {m n : Nat} (hm : m < 16) (hn : n < 16)
    (h : Nat.digitChar m = Nat.digitChar n) : m = n := by
  interval_cases m <;> interval_cases n <;> first | rfl | exact absurd h (by decide)

/-- A text of hexadecimal digits only, possibly empty. -/
def IsHexText (s : String) : Prop := ∀ c ∈ s.toList, c ∈ hexDigits

theorem isHexText_empty : IsHexText "" := by simp [IsHexText]

theorem isHexText_hex (bs : List UInt8) : IsHexText (hex bs) := by
  intro c h
  simp only [hex, String.toList_ofList, List.mem_flatMap, hexByte, List.mem_cons,
    List.not_mem_nil, or_false] at h
  obtain ⟨b, -, rfl | rfl⟩ := h
  · exact digitChar_mem_hexDigits (by have := b.toNat_lt; omega)
  · exact digitChar_mem_hexDigits (Nat.mod_lt _ (by decide))

theorem IsHexText.not_mem {s : String} (h : IsHexText s) {c : Char} (hc : c ∉ hexDigits) :
    c ∉ s.toList := fun hm => hc (h c hm)

@[simp] theorem length_hex (bs : List UInt8) : (hex bs).length = 2 * bs.length := by
  rw [← String.length_toList, hex, String.toList_ofList]
  induction bs with
  | nil => rfl
  | cons b bs ih =>
      rw [List.flatMap_cons, List.length_append, ih, List.length_cons]
      simp only [hexByte, List.length_cons, List.length_nil]
      omega

theorem hexByte_injective : Function.Injective hexByte := by
  intro a b h
  have ha := a.toNat_lt
  have hb := b.toNat_lt
  simp only [hexByte, List.cons.injEq, and_true] at h
  have h1 := digitChar_inj (by omega) (by omega) h.1
  have h2 := digitChar_inj (Nat.mod_lt _ (by decide)) (Nat.mod_lt _ (by decide)) h.2
  exact UInt8.toNat_inj.mp (by omega)

theorem hex_injective : Function.Injective hex := by
  intro as bs h
  have h' : as.flatMap hexByte = bs.flatMap hexByte := by
    simpa [hex] using congrArg String.toList h
  clear h
  induction as generalizing bs with
  | nil =>
      rcases bs with - | ⟨b, bs⟩
      · rfl
      · simp [hexByte] at h'
  | cons a as ih =>
      rcases bs with - | ⟨b, bs⟩
      · simp [hexByte] at h'
      · -- every octet has two digits, so the texts split at the same place
        rw [List.flatMap_cons, List.flatMap_cons] at h'
        obtain ⟨hab, hrest⟩ := List.append_inj h' rfl
        rw [hexByte_injective hab, ih hrest]

/-! ### PostgreSQL `bytea` input -/

/-- An octal digit no larger than `hi`. -/
def isOctal (hi : UInt8) (b : UInt8) : Bool := 48 ≤ b && b ≤ hi

/-- The octet `\ooo` stands for. -/
def octalValue (a b c : UInt8) : UInt8 := (a - 48) * 64 + (b - 48) * 8 + (c - 48)

/-- The traditional escape format: `\\`, `\ooo`, and octets other than the
backslash as themselves. -/
def byteaEscape : List UInt8 → Option (List UInt8)
  | [] => some []
  | b :: rest =>
      if b = backslash then
        match rest with
        | [] => none
        | b₁ :: rest₁ =>
            if b₁ = backslash then (byteaEscape rest₁).map (backslash :: ·)
            else
              match rest₁ with
              | b₂ :: b₃ :: rest₃ =>
                  if isOctal 51 b₁ && isOctal 55 b₂ && isOctal 55 b₃ then
                    (byteaEscape rest₃).map (octalValue b₁ b₂ b₃ :: ·)
                  else none
              | _ => none
      else (byteaEscape rest).map (b :: ·)

/-- The value of a hexadecimal digit. -/
def hexDigitValue (b : UInt8) : Option UInt8 :=
  if 48 ≤ b && b ≤ 57 then some (b - 48)
  else if 97 ≤ b && b ≤ 102 then some (b - 87)
  else if 65 ≤ b && b ≤ 70 then some (b - 55)
  else none

/-- White space that may stand between the digit pairs of the hex format. -/
def isByteaSpace (b : UInt8) : Bool := b == 32 || b == 10 || b == 9 || b == 13

/-- The hex format, after its `\x`. -/
def byteaHex : List UInt8 → Option (List UInt8)
  | [] => some []
  | b :: rest =>
      if isByteaSpace b then byteaHex rest
      else
        match rest with
        | [] => none
        | b' :: rest' => do
            let hi ← hexDigitValue b
            let lo ← hexDigitValue b'
            let out ← byteaHex rest'
            return (hi * 16 + lo) :: out

/-- `bytea` input: `none` is the error `invalid input syntax for type bytea`. -/
def byteaIn (bs : List UInt8) : Option (List UInt8) :=
  match bs with
  | 92 :: 120 :: rest => byteaHex rest
  | _ => byteaEscape bs

/-- Every backslash of the text begins a valid escape. -/
def EscapesValid (bs : List UInt8) : Prop := (byteaEscape bs).isSome

instance (bs : List UInt8) : Decidable (EscapesValid bs) := by
  unfold EscapesValid; infer_instance

@[simp] theorem byteaEscape_nil : byteaEscape [] = some [] := rfl

theorem byteaEscape_cons {b : UInt8} (h : b ≠ backslash) (bs : List UInt8) :
    byteaEscape (b :: bs) = (byteaEscape bs).map (b :: ·) := by
  rw [byteaEscape.eq_def]
  exact if_neg h

theorem byteaEscape_backslash (bs : List UInt8) :
    byteaEscape (backslash :: backslash :: bs) = (byteaEscape bs).map (backslash :: ·) := by
  rw [byteaEscape.eq_def]
  exact (if_pos rfl).trans (if_pos rfl)

theorem byteaEscape_octal {b₁ b₂ b₃ : UInt8} (h₁ : b₁ ≠ backslash)
    (ho : (isOctal 51 b₁ && isOctal 55 b₂ && isOctal 55 b₃) = true) (bs : List UInt8) :
    byteaEscape (backslash :: b₁ :: b₂ :: b₃ :: bs) =
      (byteaEscape bs).map (octalValue b₁ b₂ b₃ :: ·) := by
  rw [byteaEscape.eq_def]
  exact (if_pos rfl).trans ((if_neg h₁).trans (if_pos ho))

/-- How a text in the escape format begins: it is empty, or starts with a
plain octet, an escaped backslash or an escaped octet. -/
theorem byteaEscape_cases {bs out : List UInt8} (h : byteaEscape bs = some out) :
    (bs = [] ∧ out = []) ∨
    (∃ b rest out', b ≠ backslash ∧ bs = b :: rest ∧ byteaEscape rest = some out' ∧
      out = b :: out') ∨
    (∃ rest out', bs = backslash :: backslash :: rest ∧ byteaEscape rest = some out' ∧
      out = backslash :: out') ∨
    (∃ b₁ b₂ b₃ rest out', b₁ ≠ backslash ∧
      (isOctal 51 b₁ && isOctal 55 b₂ && isOctal 55 b₃) = true ∧
      bs = backslash :: b₁ :: b₂ :: b₃ :: rest ∧ byteaEscape rest = some out' ∧
      out = octalValue b₁ b₂ b₃ :: out') := by
  rw [byteaEscape.eq_def] at h
  split at h
  · exact .inl ⟨rfl, by simpa using h.symm⟩
  · rename_i b rest
    split at h
    · -- a backslash: another one, three octal digits, or an error
      subst b
      split at h
      · cases h
      · rename_i b₁ rest₁
        split at h
        · obtain ⟨out', he, rfl⟩ := Option.map_eq_some_iff.mp h
          subst b₁
          exact .inr (.inr (.inl ⟨_, out', rfl, he, rfl⟩))
        · rename_i hb₁
          split at h
          · split at h
            · rename_i hoct
              obtain ⟨out', he, rfl⟩ := Option.map_eq_some_iff.mp h
              exact .inr (.inr (.inr ⟨_, _, _, _, out', hb₁, hoct, rfl, he, rfl⟩))
            · cases h
          · cases h
    · rename_i hb
      obtain ⟨out', he, rfl⟩ := Option.map_eq_some_iff.mp h
      exact .inr (.inl ⟨_, _, out', hb, rfl, he, rfl⟩)

theorem byteaEscape_of_not_mem {bs : List UInt8} (h : backslash ∉ bs) :
    byteaEscape bs = some bs := by
  induction bs with
  | nil => rfl
  | cons b bs ih =>
      rw [List.mem_cons, not_or] at h
      rw [byteaEscape_cons (Ne.symm h.1), ih h.2]
      rfl

/-- Decoding never lengthens a text, and shortens one that has a backslash. -/
theorem length_byteaEscape {bs out : List UInt8} (h : byteaEscape bs = some out) :
    out.length ≤ bs.length ∧ (backslash ∈ bs → out.length < bs.length) := by
  -- an escape takes up to four octets, hence the strong induction
  induction hn : bs.length using Nat.strong_induction_on generalizing bs out with
  | h n ih =>
    subst hn
    rcases byteaEscape_cases h with ⟨rfl, rfl⟩ | ⟨b, rest, out', hb, rfl, he, rfl⟩ |
      ⟨rest, out', rfl, he, rfl⟩ | ⟨b₁, b₂, b₃, rest, out', -, -, rfl, he, rfl⟩
    · simp
    · obtain ⟨hle, hlt⟩ := ih _ (by simp) he rfl
      refine ⟨by simpa using hle, fun hmem => ?_⟩
      have hrest : backslash ∈ rest := (List.mem_cons.mp hmem).resolve_left (Ne.symm hb)
      simpa using hlt hrest
    · have hle := (ih _ (by simp only [List.length_cons]; omega) he rfl).1
      simp only [List.length_cons]
      omega
    · have hle := (ih _ (by simp only [List.length_cons]; omega) he rfl).1
      simp only [List.length_cons]
      omega

theorem byteaEscape_eq_self_iff {bs : List UInt8} :
    byteaEscape bs = some bs ↔ backslash ∉ bs := by
  refine ⟨fun h hmem => ?_, byteaEscape_of_not_mem⟩
  exact absurd ((length_byteaEscape h).2 hmem) (lt_irrefl _)

/-- A decodable text decodes the same in front of any other text. -/
theorem byteaEscape_append {bs out : List UInt8} (h : byteaEscape bs = some out)
    (rest : List UInt8) :
    byteaEscape (bs ++ rest) = (byteaEscape rest).map (out ++ ·) := by
  induction hn : bs.length using Nat.strong_induction_on generalizing bs out with
  | h n ih =>
    subst hn
    rcases byteaEscape_cases h with ⟨rfl, rfl⟩ | ⟨b, bs', out', hb, rfl, he, rfl⟩ |
      ⟨bs', out', rfl, he, rfl⟩ | ⟨b₁, b₂, b₃, bs', out', hb, ho, rfl, he, rfl⟩
    · simp
    · rw [List.cons_append, byteaEscape_cons hb, ih _ (by simp) he rfl, Option.map_map]
      rfl
    · rw [List.cons_append, List.cons_append, byteaEscape_backslash,
        ih _ (by simp only [List.length_cons]; omega) he rfl, Option.map_map]
      rfl
    · rw [List.cons_append, List.cons_append, List.cons_append, List.cons_append,
        byteaEscape_octal hb ho, ih _ (by simp only [List.length_cons]; omega) he rfl,
        Option.map_map]
      rfl

/-- An octet that can neither be nor end an escape separates: what stands
before it is decoded on its own. -/
theorem escapesValid_of_append {bs rest : List UInt8} {b : UInt8} (hb : b ≠ backslash)
    (ho : isOctal 55 b = false) (h : EscapesValid (bs ++ b :: rest)) : EscapesValid bs := by
  obtain ⟨out, hout⟩ := Option.isSome_iff_exists.mp h
  clear h
  induction hn : bs.length using Nat.strong_induction_on generalizing bs out with
  | h n ih =>
    subst hn
    have ho' : isOctal 51 b = false := by
      simp only [isOctal, Bool.and_eq_false_iff, decide_eq_false_iff_not, UInt8.not_le] at ho ⊢
      exact ho.imp_right fun h => UInt8.lt_trans (by decide) h
    rcases bs with - | ⟨c, bs⟩
    · rfl
    · rcases byteaEscape_cases hout with ⟨h0, -⟩ | ⟨b', rest', out', hb', h1, he, -⟩ |
        ⟨rest', out', h1, he, -⟩ | ⟨b₁, b₂, b₃, rest', out', hb₁, hoct, h1, he, -⟩
      · exact absurd h0 (by simp)
      · rw [List.cons_append, List.cons.injEq] at h1
        obtain ⟨rfl, rfl⟩ := h1
        have hv := ih _ (by simp) _ he rfl
        unfold EscapesValid at hv ⊢
        rw [byteaEscape_cons hb', Option.isSome_map]
        exact hv
      · rw [List.cons_append, List.cons.injEq] at h1
        obtain ⟨rfl, h1⟩ := h1
        -- the separator is not the second half of an escaped backslash
        rcases bs with - | ⟨c', bs⟩
        · rw [List.nil_append, List.cons.injEq] at h1
          exact absurd h1.1 hb
        · rw [List.cons_append, List.cons.injEq] at h1
          obtain ⟨rfl, rfl⟩ := h1
          have hv := ih _ (by simp only [List.length_cons]; omega) _ he rfl
          unfold EscapesValid at hv ⊢
          rw [byteaEscape_backslash, Option.isSome_map]
          exact hv
      · simp only [Bool.and_eq_true] at hoct
        rw [List.cons_append, List.cons.injEq] at h1
        obtain ⟨rfl, h1⟩ := h1
        -- the three octal digits all stand before the separator
        rcases bs with - | ⟨c₁, - | ⟨c₂, - | ⟨c₃, bs⟩⟩⟩
        · simp only [List.nil_append, List.cons.injEq] at h1
          exact absurd hoct.1.1 (by rw [← h1.1, ho']; decide)
        · simp only [List.cons_append, List.nil_append, List.cons.injEq] at h1
          exact absurd hoct.1.2 (by rw [← h1.2.1, ho]; decide)
        · simp only [List.cons_append, List.nil_append, List.cons.injEq] at h1
          exact absurd hoct.2 (by rw [← h1.2.2.1, ho]; decide)
        · simp only [List.cons_append, List.cons.injEq] at h1
          obtain ⟨rfl, rfl, rfl, rfl⟩ := h1
          have hv := ih _ (by simp only [List.length_cons]; omega) _ he rfl
          unfold EscapesValid at hv ⊢
          rw [byteaEscape_octal hb₁ (by simp [hoct]), Option.isSome_map]
          exact hv

theorem escapesValid_iff_append {bs rest : List UInt8} {b : UInt8} (hb : b ≠ backslash)
    (ho : isOctal 55 b = false) (hrest : backslash ∉ rest) :
    EscapesValid (bs ++ b :: rest) ↔ EscapesValid bs := by
  refine ⟨escapesValid_of_append hb ho, fun h => ?_⟩
  obtain ⟨out, hout⟩ := Option.isSome_iff_exists.mp h
  have hrest' : backslash ∉ b :: rest := by simp [hrest, Ne.symm hb]
  unfold EscapesValid
  rw [byteaEscape_append hout, byteaEscape_of_not_mem hrest']
  rfl

theorem byteaIn_cons {b : UInt8} (hb : b ≠ backslash) (bs : List UInt8) :
    byteaIn (b :: bs) = byteaEscape (b :: bs) := by
  rw [byteaIn.eq_def]
  split
  · rename_i h
    exact absurd (List.cons.inj h).1 hb
  · rfl

theorem length_byteaHex {bs out : List UInt8} (h : byteaHex bs = some out) :
    out.length ≤ bs.length := by
  induction hn : bs.length using Nat.strong_induction_on generalizing bs out with
  | h n ih =>
    subst hn
    rw [byteaHex.eq_def] at h
    split at h
    · obtain rfl := Option.some.inj h
      simp
    · split at h
      · exact (ih _ (by simp) h rfl).trans (by simp)
      · split at h
        · cases h
        · simp only [Option.bind_eq_bind, Option.bind_eq_some_iff] at h
          obtain ⟨hi, -, lo, -, out', he, h⟩ := h
          obtain rfl := Option.some.inj h
          have := ih _ (by simp only [List.length_cons]; omega) he rfl
          simp only [List.length_cons]
          omega

/-- **The cast reads a text as itself exactly when it has no backslash.**  With one
it fails, or it comes out with fewer octets than the text has. -/
theorem byteaIn_eq_self_iff {bs : List UInt8} : byteaIn bs = some bs ↔ backslash ∉ bs := by
  rw [byteaIn.eq_def]
  split
  · -- the hex format is shorter than its text, and its text has a backslash
    rename_i rest
    refine ⟨fun h => ?_, fun h => absurd (List.mem_cons_self) h⟩
    have := length_byteaHex h
    simp only [List.length_cons] at this
    omega
  · exact byteaEscape_eq_self_iff

end AgenticIde
