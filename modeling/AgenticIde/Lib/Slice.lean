/-
AgenticIde/Lib/Slice.lean

Slices of a text by byte offsets (`&s[a..b]`).

An offset is good for slicing exactly where a character begins or the text ends
(`IsCharBoundary`), and what comes before it is then determined.  A slice at another offset
panics, which is `none` here.

Offsets are numbers of bytes and texts are lists of characters, so an offset is looked up by
counting bytes from the front (`splitAtByte`).  In a text of ASCII every character is one
byte, every offset up to its length is good, and slices are those of the list (`IsAscii`).
-/
import AgenticIde.Lib.Encoding

namespace AgenticIde

namespace Str

/-- The number of bytes of some characters. -/
def byteLen (cs : List Char) : Nat := (cs.map Char.utf8Size).sum

@[simp] theorem byteLen_nil : byteLen [] = 0 := rfl

@[simp] theorem byteLen_cons (c : Char) (cs : List Char) :
    byteLen (c :: cs) = c.utf8Size + byteLen cs := by
  rw [byteLen, List.map_cons, List.sum_cons]
  rfl

@[simp] theorem byteLen_append (cs ds : List Char) :
    byteLen (cs ++ ds) = byteLen cs + byteLen ds := by
  rw [byteLen, List.map_append, List.sum_append]
  rfl

theorem byteLen_eq_zero_iff {cs : List Char} : byteLen cs = 0 ↔ cs = [] := by
  cases cs with
  | nil => exact iff_of_true rfl rfl
  | cons c cs =>
      have hc := c.utf8Size_pos
      rw [byteLen_cons]
      exact iff_of_false (by omega) (List.cons_ne_nil _ _)

theorem length_flatMap_utf8EncodeChar (cs : List Char) :
    (cs.flatMap String.utf8EncodeChar).length = byteLen cs := by
  induction cs with
  | nil => rfl
  | cons c cs ih =>
      rw [List.flatMap_cons, List.length_append, ih, byteLen_cons,
        String.length_utf8EncodeChar]

theorem utf8ByteSize_eq_byteLen (s : String) : s.utf8ByteSize = byteLen s.toList := by
  rw [← length_flatMap_utf8EncodeChar]
  show s.toByteArray.size = (utf8 s).length
  rw [← utf8_toByteArray, List.size_toByteArray]

/-- Split before the byte at an offset; none inside a character or beyond the
end. -/
def splitAtByte : Nat → List Char → Option (List Char × List Char)
  | 0, cs => some ([], cs)
  | _ + 1, [] => none
  | n + 1, c :: cs =>
      if c.utf8Size ≤ n + 1 then
        (splitAtByte (n + 1 - c.utf8Size) cs).map fun r => (c :: r.1, r.2)
      else none

/-- **A split is the one at its offset.**  There is at most one, and none where the
offset is within a character or beyond the end. -/
theorem splitAtByte_eq_some_iff {n : Nat} {cs pre post : List Char} :
    splitAtByte n cs = some (pre, post) ↔ cs = pre ++ post ∧ byteLen pre = n := by
  fun_induction splitAtByte n cs generalizing pre with
  | case1 cs =>
      rw [byteLen_eq_zero_iff, Option.some_inj, Prod.mk.injEq]
      constructor
      · rintro ⟨rfl, rfl⟩
        exact ⟨rfl, rfl⟩
      · rintro ⟨rfl, rfl⟩
        exact ⟨rfl, rfl⟩
  | case2 n =>
      apply iff_of_false (by simp)
      rintro ⟨hnil, hlength⟩
      rw [(List.append_eq_nil_iff.mp hnil.symm).1] at hlength
      cases hlength
  | case3 n c cs hle ih =>
      rw [Option.map_eq_some_iff]
      constructor
      · rintro ⟨⟨pre', post'⟩, hsplit, heq⟩
        obtain ⟨rfl, rfl⟩ := Prod.mk.inj heq
        obtain ⟨rfl, hlength⟩ := ih.mp hsplit
        refine ⟨rfl, ?_⟩
        show byteLen (c :: pre') = n + 1
        rw [byteLen_cons]
        omega
      · rintro ⟨hsplit, hlength⟩
        cases pre with
        | nil => cases hlength
        | cons d pre =>
            obtain ⟨rfl, rfl⟩ := List.cons.inj hsplit
            rw [byteLen_cons] at hlength
            exact ⟨(pre, post), ih.mpr ⟨rfl, by omega⟩, rfl⟩
  | case4 n c cs hlt =>
      apply iff_of_false (by simp)
      rintro ⟨hsplit, hlength⟩
      cases pre with
      | nil => cases hlength
      | cons d pre =>
          obtain ⟨rfl, -⟩ := List.cons.inj hsplit
          rw [byteLen_cons] at hlength
          omega

/-- `str::is_char_boundary`: some characters of the text have that many bytes. -/
def IsCharBoundary (s : String) (n : Nat) : Prop :=
  ∃ pre post, s.toList = pre ++ post ∧ byteLen pre = n

/-- `&s[..n]`. -/
def sliceTo (n : Nat) (s : String) : Option String :=
  (splitAtByte n s.toList).map fun r => String.ofList r.1

/-- `&s[n..]`. -/
def sliceFrom (n : Nat) (s : String) : Option String :=
  (splitAtByte n s.toList).map fun r => String.ofList r.2

/-- `&s[m..n]`; the ends must be in order. -/
def slice (m n : Nat) (s : String) : Option String :=
  if m ≤ n then (sliceTo n s).bind (sliceFrom m) else none

theorem sliceTo_eq_some_iff {n : Nat} {s t : String} :
    sliceTo n s = some t ↔ ∃ post, s.toList = t.toList ++ post ∧ byteLen t.toList = n := by
  rw [sliceTo, Option.map_eq_some_iff]
  constructor
  · rintro ⟨⟨pre, post⟩, hsplit, rfl⟩
    rw [String.toList_ofList]
    exact ⟨post, splitAtByte_eq_some_iff.mp hsplit⟩
  · rintro ⟨post, hsplit⟩
    exact ⟨(t.toList, post), splitAtByte_eq_some_iff.mpr hsplit, String.ofList_toList⟩

/-- What follows a boundary. -/
theorem sliceFrom_eq_some {s : String} {pre post : List Char} (h : s.toList = pre ++ post) :
    sliceFrom (byteLen pre) s = some (String.ofList post) := by
  rw [sliceFrom, splitAtByte_eq_some_iff.mpr ⟨h, rfl⟩]
  rfl

theorem sliceTo_isSome_iff {n : Nat} {s : String} :
    (sliceTo n s).isSome ↔ IsCharBoundary s n := by
  rw [Option.isSome_iff_exists]
  constructor
  · rintro ⟨t, ht⟩
    obtain ⟨post, hsplit⟩ := sliceTo_eq_some_iff.mp ht
    exact ⟨t.toList, post, hsplit⟩
  · rintro ⟨pre, post, hsplit⟩
    refine ⟨String.ofList pre, sliceTo_eq_some_iff.mpr ⟨post, ?_⟩⟩
    rwa [String.toList_ofList]

/-- What is between two boundaries. -/
theorem slice_eq_some {s : String} {pre mid post : List Char} (h : s.toList = pre ++ mid ++ post) :
    slice (byteLen pre) (byteLen (pre ++ mid)) s = some (String.ofList mid) := by
  have hto : sliceTo (byteLen (pre ++ mid)) s = some (String.ofList (pre ++ mid)) := by
    apply sliceTo_eq_some_iff.mpr
    rw [String.toList_ofList]
    exact ⟨post, h, rfl⟩
  have hle : byteLen pre ≤ byteLen (pre ++ mid) := by
    rw [byteLen_append]
    exact Nat.le_add_right _ _
  rw [slice, if_pos hle, hto]
  exact sliceFrom_eq_some (String.toList_ofList)

/-! ### ASCII texts -/

/-- Every character is one byte. -/
def IsAscii (s : String) : Prop := ∀ c ∈ s.toList, c.toNat < 128

theorem utf8Size_of_ascii {c : Char} (h : c.toNat < 128) : c.utf8Size = 1 :=
  if_pos (Nat.le_of_lt_succ h : c.val ≤ 0x7f)

theorem byteLen_of_ascii {cs : List Char} (h : ∀ c ∈ cs, c.toNat < 128) :
    byteLen cs = cs.length := by
  induction cs with
  | nil => rfl
  | cons c cs ih =>
      rw [byteLen_cons, utf8Size_of_ascii (h c List.mem_cons_self),
        ih fun d hd => h d (List.mem_cons_of_mem _ hd), List.length_cons, Nat.add_comm]

theorem IsAscii.utf8ByteSize {s : String} (h : IsAscii s) : s.utf8ByteSize = s.toList.length :=
  (utf8ByteSize_eq_byteLen s).trans (byteLen_of_ascii h)

/-- A cut of an ASCII text is one of its list of characters. -/
theorem IsAscii.sliceTo {s : String} (h : IsAscii s) {n : Nat} (hn : n ≤ s.utf8ByteSize) :
    sliceTo n s = some (String.ofList (s.toList.take n)) := by
  rw [sliceTo_eq_some_iff, String.toList_ofList]
  refine ⟨s.toList.drop n, (List.take_append_drop n _).symm, ?_⟩
  rw [byteLen_of_ascii fun c hc => h c (List.mem_of_mem_take hc), List.length_take]
  exact Nat.min_eq_left (h.utf8ByteSize ▸ hn)

end Str

end AgenticIde
