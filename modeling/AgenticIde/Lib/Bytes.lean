/-
AgenticIde/Lib/Bytes.lean

A text and its bytes side by side.

A program may look for a place in a text by its characters or by its bytes, and takes both by
the number of bytes before it.  Where a byte is tested for something that only an ASCII
character can be, the test sees the characters (`ReadsAscii`): runs of bytes are the bytes of
runs (`takeWhile_bytesOf`), and the bytes next to a place are those of the characters next to
it (`head?_bytesOf`, `getLast?_bytesOf`).

A loop over bytes comes to rest where a run of characters ends (`scanWhile`), so every offset
it gives is a place between characters, and slicing there cannot fail.  The bytes of a
character that is not ASCII are all above 127 and pass no such test.
-/
import AgenticIde.Lib.Find
import AgenticIde.Lib.Slice

namespace AgenticIde

namespace Str

/-- `str::as_bytes`, on characters. -/
def bytesOf (cs : List Char) : List UInt8 := cs.flatMap String.utf8EncodeChar

/-- `&s[n..]`, on characters. -/
def sliceFromChars (n : Nat) (cs : List Char) : Option (List Char) :=
  (splitAtByte n cs).map Prod.snd

/-- `&s[..n]`, on characters. -/
def sliceToChars (n : Nat) (cs : List Char) : Option (List Char) :=
  (splitAtByte n cs).map Prod.fst

/-- `&s[m..n]`, on characters; the ends must be in order. -/
def sliceChars (m n : Nat) (cs : List Char) : Option (List Char) :=
  if m ≤ n then (sliceToChars n cs).bind (sliceFromChars m) else none

/-- `str::find` of a text: the number of bytes before it. -/
def findSub (p cs : List Char) : Option Nat := (splitOnceSub p cs).map fun r => byteLen r.1

/-- `str::find` of a character. -/
def findChar (c : Char) (cs : List Char) : Option Nat :=
  (splitOnceChars (· == c) cs).map fun r => byteLen r.1

/-! ### Slices -/

theorem sliceFromChars_byteLen (pre post : List Char) :
    sliceFromChars (byteLen pre) (pre ++ post) = some post := by
  rw [sliceFromChars, splitAtByte_eq_some_iff.mpr ⟨rfl, rfl⟩]
  rfl

theorem sliceToChars_byteLen (pre post : List Char) :
    sliceToChars (byteLen pre) (pre ++ post) = some pre := by
  rw [sliceToChars, splitAtByte_eq_some_iff.mpr ⟨rfl, rfl⟩]
  rfl

theorem sliceChars_byteLen (pre mid post : List Char) :
    sliceChars (byteLen pre) (byteLen (pre ++ mid)) (pre ++ mid ++ post) = some mid := by
  have hle : byteLen pre ≤ byteLen (pre ++ mid) := by
    rw [byteLen_append]
    exact Nat.le_add_right _ _
  rw [sliceChars, if_pos hle, sliceToChars_byteLen]
  exact sliceFromChars_byteLen pre mid

/-! ### Bytes -/

@[simp] theorem bytesOf_nil : bytesOf [] = [] := rfl

@[simp] theorem bytesOf_cons (c : Char) (cs : List Char) :
    bytesOf (c :: cs) = String.utf8EncodeChar c ++ bytesOf cs := rfl

@[simp] theorem bytesOf_append (cs ds : List Char) :
    bytesOf (cs ++ ds) = bytesOf cs ++ bytesOf ds := List.flatMap_append

@[simp] theorem length_bytesOf (cs : List Char) : (bytesOf cs).length = byteLen cs :=
  length_flatMap_utf8EncodeChar cs

theorem drop_bytesOf (pre post : List Char) :
    (bytesOf (pre ++ post)).drop (byteLen pre) = bytesOf post := by
  rw [bytesOf_append, ← length_bytesOf, List.drop_left]

theorem utf8EncodeChar_ne_nil (c : Char) : String.utf8EncodeChar c ≠ [] := by
  have hpos := c.utf8Size_pos
  rw [← String.length_utf8EncodeChar] at hpos
  exact List.ne_nil_of_length_pos hpos

/-! ### Tests of ASCII characters -/

/-- A test of bytes that finds in the bytes of a character what a test of characters finds in
it. -/
def ReadsAscii (p : UInt8 → Bool) (f : Char → Bool) : Prop :=
  ∀ c, ∀ b ∈ String.utf8EncodeChar c, p b = f c

/-- The bytes of an ASCII character are the character, those of another are not ASCII. -/
theorem toNat_of_mem_utf8EncodeChar {c : Char} {b : UInt8} (h : b ∈ String.utf8EncodeChar c) :
    b.toNat = c.toNat ∨ 128 ≤ b.toNat ∧ 128 ≤ c.toNat := by
  by_cases hb : b.toNat ≤ 127
  · exact .inl ((mem_utf8EncodeChar_iff hb c).mp h).symm
  · refine .inr ⟨by omega, ?_⟩
    by_contra hc
    -- the only byte of an ASCII character is the character
    have hone : (UInt8.ofNat c.toNat).toNat = c.toNat := by
      rw [UInt8.toNat_ofNat', Nat.mod_eq_of_lt (by omega)]
    have hmem := (mem_utf8EncodeChar_iff (b := UInt8.ofNat c.toNat) (by omega) c).mpr hone.symm
    have hlength : (String.utf8EncodeChar c).length = 1 := by
      rw [String.length_utf8EncodeChar, utf8Size_of_ascii (by omega)]
    obtain ⟨d, hd⟩ := List.length_eq_one_iff.mp hlength
    rw [hd, List.mem_singleton] at h hmem
    rw [h, ← hmem, hone] at hb
    omega

/-- Tests of the same codes, all of them of ASCII characters. -/
theorem ReadsAscii.of_code {p : UInt8 → Bool} {f : Char → Bool} {P : Nat → Prop}
    (hp : ∀ b, p b = true ↔ P b.toNat) (hf : ∀ c, f c = true ↔ P c.toNat)
    (hcode : ∀ n, P n → n < 128) : ReadsAscii p f := by
  intro c b hb
  rw [Bool.eq_iff_iff, hp, hf]
  rcases toNat_of_mem_utf8EncodeChar hb with heq | ⟨hb, hc⟩
  · rw [heq]
  · exact iff_of_false (fun h => Nat.not_lt_of_le hb (hcode _ h))
      fun h => Nat.not_lt_of_le hc (hcode _ h)

theorem toNat_toUInt8_of_ascii {c : Char} (h : c.toNat < 128) : c.toUInt8.toNat = c.toNat := by
  show c.toNat % 256 = c.toNat
  rw [Nat.mod_eq_of_lt (by omega)]

/-- The test for one ASCII character. -/
theorem readsAscii_beq {d : Char} (h : d.toNat < 128) : ReadsAscii (· == d.toUInt8) (· == d) := by
  refine .of_code (P := (· = d.toNat)) (fun b => ?_) (fun c => ?_) fun n hn => hn ▸ h
  · rw [beq_iff_eq, ← UInt8.toNat_inj, toNat_toUInt8_of_ascii h]
  · rw [beq_iff_eq, ← Char.toNat_inj]

/-- The test for a range of ASCII characters. -/
theorem readsAscii_range {lo hi : Char} (hlo : lo.toNat < 128) (hhi : hi.toNat < 128) :
    ReadsAscii (fun b => lo.toUInt8 ≤ b && b ≤ hi.toUInt8)
      fun c => lo.val ≤ c.val && c.val ≤ hi.val := by
  refine .of_code (P := fun n => lo.toNat ≤ n ∧ n ≤ hi.toNat) (fun b => ?_) (fun c => ?_)
    fun n hn => Nat.lt_of_le_of_lt hn.2 hhi
  · rw [Bool.and_eq_true, decide_eq_true_iff, decide_eq_true_iff, UInt8.le_iff_toNat_le,
      UInt8.le_iff_toNat_le, toNat_toUInt8_of_ascii hlo, toNat_toUInt8_of_ascii hhi]
  · rw [Bool.and_eq_true, decide_eq_true_iff, decide_eq_true_iff, UInt32.le_iff_toNat_le,
      UInt32.le_iff_toNat_le]
    rfl

/-- Either of two tests. -/
theorem ReadsAscii.or {p q : UInt8 → Bool} {f g : Char → Bool} (hp : ReadsAscii p f)
    (hq : ReadsAscii q g) : ReadsAscii (fun b => p b || q b) fun c => f c || g c := by
  intro c b hb
  show (p b || q b) = (f c || g c)
  rw [hp c b hb, hq c b hb]

variable {p : UInt8 → Bool} {f : Char → Bool}

theorem head?_bytesOf (h : ReadsAscii p f) (cs : List Char) :
    (bytesOf cs).head?.map p = cs.head?.map f := by
  rcases cs with - | ⟨c, cs⟩
  · rfl
  · obtain ⟨b, bs, hbytes⟩ := List.exists_cons_of_ne_nil (utf8EncodeChar_ne_nil c)
    rw [bytesOf_cons, hbytes]
    exact congrArg some (h c b (hbytes ▸ List.mem_cons_self))

/-- What a test of bytes finds at a place, it finds in the character there. -/
theorem getElem?_bytesOf (h : ReadsAscii p f) (pre post : List Char) :
    (bytesOf (pre ++ post))[byteLen pre]?.map p = post.head?.map f := by
  rw [← head?_bytesOf h, ← drop_bytesOf pre post, List.head?_drop]

theorem getLast?_bytesOf (h : ReadsAscii p f) (cs : List Char) :
    (bytesOf cs).getLast?.map p = cs.getLast?.map f := by
  rcases List.eq_nil_or_concat cs with rfl | ⟨cs, c, rfl⟩
  · rfl
  · obtain ⟨bs, b, hbytes⟩ := (List.eq_nil_or_concat _).resolve_left (utf8EncodeChar_ne_nil c)
    rw [List.concat_eq_append] at hbytes
    rw [List.concat_eq_append, bytesOf_append, bytesOf_cons, bytesOf_nil, List.append_nil, hbytes,
      ← List.append_assoc, List.getLast?_concat, List.getLast?_concat]
    exact congrArg some (h c b (hbytes ▸ List.mem_append_right _ (List.mem_singleton_self b)))

theorem takeWhile_bytesOf (h : ReadsAscii p f) (cs : List Char) :
    (bytesOf cs).takeWhile p = bytesOf (cs.takeWhile f) := by
  induction cs with
  | nil => rfl
  | cons c cs ih =>
      by_cases hc : f c = true
      · have hall : ∀ b ∈ String.utf8EncodeChar c, p b = true := fun b hb => (h c b hb).trans hc
        rw [bytesOf_cons, List.takeWhile_append_of_pos hall, ih, List.takeWhile_cons_of_pos hc,
          bytesOf_cons]
      · obtain ⟨b, bs, hbytes⟩ := List.exists_cons_of_ne_nil (utf8EncodeChar_ne_nil c)
        have hb : ¬ p b = true := by rwa [h c b (hbytes ▸ List.mem_cons_self)]
        rw [bytesOf_cons, hbytes, List.cons_append, List.takeWhile_cons_of_neg hb,
          List.takeWhile_cons_of_neg hc, bytesOf_nil]

/-! ### Scanning -/

/-- A loop over the bytes from an index, as long as they pass a test. -/
def scanWhile (p : UInt8 → Bool) (bytes : List UInt8) (i : Nat) : Nat :=
  if h : i < bytes.length then
    if p bytes[i] then scanWhile p bytes (i + 1) else i
  else i
termination_by bytes.length - i

theorem scanWhile_eq (p : UInt8 → Bool) (bytes : List UInt8) (i : Nat) :
    scanWhile p bytes i = i + ((bytes.drop i).takeWhile p).length := by
  fun_induction scanWhile p bytes i with
  | case1 i h hp ih =>
      rw [ih, List.drop_eq_getElem_cons h, List.takeWhile_cons_of_pos hp, List.length_cons]
      omega
  | case2 i h hp =>
      rw [List.drop_eq_getElem_cons h, List.takeWhile_cons_of_neg hp]
      rfl
  | case3 i h =>
      rw [List.drop_eq_nil_of_le (Nat.le_of_not_lt h)]
      rfl

/-- From a place between characters, to the end of a run of characters. -/
theorem scanWhile_bytesOf (h : ReadsAscii p f) (pre post : List Char) :
    scanWhile p (bytesOf (pre ++ post)) (byteLen pre) = byteLen (pre ++ post.takeWhile f) := by
  rw [scanWhile_eq, drop_bytesOf, takeWhile_bytesOf h, length_bytesOf, byteLen_append]

end Str

end AgenticIde
