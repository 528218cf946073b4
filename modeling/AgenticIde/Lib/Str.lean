/-
AgenticIde/Lib/Str.lean

The `str` operations a Rust program uses, on Lean strings: trimming by the Unicode
`White_Space` property, prefix stripping, ASCII lower-casing, lines and splitting at a
delimiter.

Each is a structural recursion on the list of characters, so it evaluates in the kernel.
Where the recursion carries what it has read so far, the definition ends in `From` and has
that as an argument, reversed; the operation itself starts with nothing.

Two things of the standard library are larger than what is needed here.  Whether a character
is a letter or a digit is a table of the toolchain (`CharTables`), of which only ASCII is
fixed; and a number is read below a bound, without a sign but a plus.
-/
import Mathlib.Data.List.DropRight

namespace AgenticIde

namespace Str

/-- What is true of all characters of a text is found by going through the text. -/
theorem forall_mem_of_all {cs : List Char} {p : Char → Prop} [DecidablePred p]
    (h : (cs.all fun c => p c) = true) : ∀ c ∈ cs, p c := by
  intro c hc
  exact of_decide_eq_true (List.all_eq_true.mp h c hc)

/-- `char::is_whitespace`: the Unicode `White_Space` property. -/
def isWhitespace (c : Char) : Bool :=
  let n := c.toNat
  (9 ≤ n && n ≤ 13) || n == 0x20 || n == 0x85 || n == 0xA0 || n == 0x1680 ||
    (0x2000 ≤ n && n ≤ 0x200A) || n == 0x2028 || n == 0x2029 || n == 0x202F ||
    n == 0x205F || n == 0x3000

/-- `str::trim_start`, on characters. -/
def trimStartChars (cs : List Char) : List Char := cs.dropWhile isWhitespace

/-- `str::trim`, on characters. -/
def trimChars (cs : List Char) : List Char :=
  ((cs.dropWhile isWhitespace).reverse.dropWhile isWhitespace).reverse

/-- `str::trim`. -/
def trim (s : String) : String := String.ofList (trimChars s.toList)

/-- `str::trim_end`. -/
def trimEnd (s : String) : String :=
  String.ofList (s.toList.reverse.dropWhile isWhitespace).reverse

/-- `str::trim_end_matches` of one character. -/
def trimEndMatches (c : Char) (s : String) : String :=
  String.ofList (s.toList.reverse.dropWhile (· == c)).reverse

/-- `str::ends_with`. -/
def endsWith (p s : String) : Bool := p.toList.isSuffixOf s.toList

/-- `str::split_whitespace` on characters, `cur` holding the current word
reversed. -/
def wordsFrom (cur : List Char) : List Char → List (List Char)
  | [] => if cur.isEmpty then [] else [cur.reverse]
  | c :: cs =>
      if isWhitespace c then
        if cur.isEmpty then wordsFrom [] cs else cur.reverse :: wordsFrom [] cs
      else wordsFrom (c :: cur) cs

/-- `str::split_whitespace`. -/
def splitWhitespace (s : String) : List String := (wordsFrom [] s.toList).map String.ofList

/-- `str::strip_prefix`, on characters. -/
def stripPrefixChars : List Char → List Char → Option (List Char)
  | [], cs => some cs
  | _ :: _, [] => none
  | p :: ps, c :: cs => if p = c then stripPrefixChars ps cs else none

/-- `str::strip_prefix`. -/
def stripPrefix (p s : String) : Option String :=
  (stripPrefixChars p.toList s.toList).map String.ofList

/-- `str::to_ascii_lowercase`. -/
def toAsciiLowercase (s : String) : String := String.ofList (s.toList.map Char.toLower)

/-- Drop one trailing carriage return. -/
def stripCr (cs : List Char) : List Char :=
  if cs.getLast? = some '\r' then cs.dropLast else cs

/-- `str::lines` on characters, `cur` holding the current line reversed. -/
def linesFrom (cur : List Char) : List Char → List (List Char)
  -- a last line without a line feed keeps its carriage return
  | [] => if cur.isEmpty then [] else [cur.reverse]
  | c :: cs =>
      if c = '\n' then stripCr cur.reverse :: linesFrom [] cs
      else linesFrom (c :: cur) cs

/-- `str::lines`. -/
def lines (s : String) : List String := (linesFrom [] s.toList).map String.ofList

/-- `str::split_once` at the first character satisfying `p`. -/
def splitOnceChars (p : Char → Bool) : List Char → Option (List Char × List Char)
  | [] => none
  | c :: cs => if p c then some ([], cs) else (splitOnceChars p cs).map fun r => (c :: r.1, r.2)

/-- `str::split_once` with a character predicate as its pattern. -/
def splitOnce (p : Char → Bool) (s : String) : Option (String × String) :=
  (splitOnceChars p s.toList).map fun r => (String.ofList r.1, String.ofList r.2)

/-- `str::split_once` at the first occurrence of a text. -/
def splitOnceSub (p : List Char) : List Char → Option (List Char × List Char)
  | [] => if p.isEmpty then some ([], []) else none
  | c :: cs =>
      match stripPrefixChars p (c :: cs) with
      | some rest => some ([], rest)
      | none => (splitOnceSub p cs).map fun r => (c :: r.1, r.2)

/-- The first part of `str::rsplit`: what follows the last occurrence of a
text, or everything. -/
def lastSegment (p cs : List Char) : List Char :=
  ((cs.tails.filterMap (stripPrefixChars p)).getLast?).getD cs

/-- `str::split` at a character, `cur` holding the current part reversed. -/
def splitAtFrom (sep : Char) (cur : List Char) : List Char → List (List Char)
  | [] => [cur.reverse]
  | c :: cs =>
      if c = sep then cur.reverse :: splitAtFrom sep [] cs else splitAtFrom sep (c :: cur) cs

/-- `str::parse` of an unsigned integer below `bound`: a plus sign at most, then
digits. -/
def parseUnsigned (bound : Nat) (s : String) : Option Nat :=
  let digits :=
    match s.toList with
    | '+' :: cs => cs
    | cs => cs
  if digits ≠ [] ∧ digits.all Char.isDigit then
    let n := digits.foldl (fun n c => n * 10 + (c.toNat - '0'.toNat)) 0
    if n < bound then some n else none
  else none

example : trim "  rm -rf build\t\n" = "rm -rf build" := by decide
example : lines "1. a\r\n2. b\n" = ["1. a", "2. b"] := by decide
example : splitWhitespace " let  x\n=" = ["let", "x", "="] := by decide
example : lastSegment "::".toList "a::b:::c".toList = "c".toList := by decide
example : parseUnsigned 256 "+63" = some 63 ∧ parseUnsigned 256 "256" = none := by decide

/-- `char::is_alphanumeric`: the Unicode tables of a toolchain, which agree with
ASCII on ASCII. -/
structure CharTables where
  isAlphanumeric : Char → Bool
  ascii : ∀ c : Char, c.toNat < 128 → isAlphanumeric c = c.isAlphanum

/-- The tables of a text in ASCII. -/
def CharTables.asciiOnly : CharTables := ⟨Char.isAlphanum, fun _ _ => rfl⟩

/-! ### Whitespace -/

/-- A text that neither starts nor ends with whitespace is trimmed already. -/
theorem trimChars_eq {cs : List Char} (hfirst : ∀ c ∈ cs.head?, isWhitespace c = false)
    (hlast : ∀ c ∈ cs.getLast?, isWhitespace c = false) : trimChars cs = cs := by
  have hdrop : ∀ {ds : List Char}, (∀ c ∈ ds.head?, isWhitespace c = false) →
      ds.dropWhile isWhitespace = ds := by
    intro ds h
    cases ds with
    | nil => rfl
    | cons d ds => rw [List.dropWhile_cons, h d rfl]; rfl
  rw [trimChars, hdrop hfirst, hdrop, List.reverse_reverse]
  rwa [List.head?_reverse]

theorem trim_eq {s : String} (hfirst : ∀ c ∈ s.toList.head?, isWhitespace c = false)
    (hlast : ∀ c ∈ s.toList.getLast?, isWhitespace c = false) : trim s = s := by
  rw [trim, trimChars_eq hfirst hlast, String.ofList_toList]

/-- Trimming takes the whitespace around a text, and stops at its ends. -/
theorem trimChars_append {lead mid trail : List Char} (hlead : ∀ c ∈ lead, isWhitespace c = true)
    (htrail : ∀ c ∈ trail, isWhitespace c = true) (hne : mid ≠ [])
    (hfirst : ∀ c ∈ mid.head?, isWhitespace c = false)
    (hlast : ∀ c ∈ mid.getLast?, isWhitespace c = false) :
    trimChars (lead ++ (mid ++ trail)) = mid := by
  have hstart : (lead ++ (mid ++ trail)).dropWhile isWhitespace = mid ++ trail := by
    rw [List.dropWhile_append_of_pos hlead]
    cases mid with
    | nil => exact absurd rfl hne
    | cons c mid =>
        rw [List.cons_append, List.dropWhile_cons, hfirst c rfl, if_neg Bool.false_ne_true]
  have hend : (trail.reverse ++ mid.reverse).dropWhile isWhitespace = mid.reverse := by
    rw [List.dropWhile_append_of_pos fun c hc => htrail c (List.mem_reverse.mp hc)]
    cases hmid : mid.reverse with
    | nil => rfl
    | cons c rest =>
        have hc : isWhitespace c = false := by
          apply hlast c
          rw [← List.head?_reverse, hmid]
          rfl
        rw [List.dropWhile_cons, hc, if_neg Bool.false_ne_true]
  rw [trimChars, hstart, List.reverse_append, hend, List.reverse_reverse]

theorem trimChars_eq_rdropWhile (cs : List Char) :
    trimChars cs = (cs.dropWhile isWhitespace).rdropWhile isWhitespace := rfl

theorem head?_dropWhile {cs : List Char} {c : Char}
    (h : (cs.dropWhile isWhitespace).head? = some c) : isWhitespace c = false := by
  have hnot := List.head?_dropWhile_not isWhitespace cs
  rw [h] at hnot
  exact hnot

theorem dropWhile_eq_self {cs : List Char} (h : ∀ c, cs.head? = some c → isWhitespace c = false) :
    cs.dropWhile isWhitespace = cs := by
  cases cs with
  | nil => rfl
  | cons c cs => rw [List.dropWhile_cons_of_neg (by rw [h c rfl]; exact Bool.false_ne_true)]

/-- Trimming starts where the whitespace at the start ends. -/
theorem head?_trimChars {cs : List Char} {c : Char} (h : (trimChars cs).head? = some c) :
    isWhitespace c = false := by
  obtain ⟨rest, hrest⟩ : trimChars cs <+: cs.dropWhile isWhitespace := List.rdropWhile_prefix _ _
  have hhead : (cs.dropWhile isWhitespace).head? = some c := by
    rw [← hrest, List.head?_append, h]
    rfl
  exact head?_dropWhile hhead

theorem trimChars_trimChars (cs : List Char) : trimChars (trimChars cs) = trimChars cs := by
  rw [trimChars_eq_rdropWhile (trimChars cs), dropWhile_eq_self fun c hc => head?_trimChars hc,
    trimChars_eq_rdropWhile, List.rdropWhile_idempotent]

theorem trim_trim (s : String) : trim (trim s) = trim s := by
  unfold trim
  rw [String.toList_ofList, trimChars_trimChars]

/-- A character that is not whitespace shields what is on its other side. -/
theorem trimChars_append_cons {m : Char} (hm : isWhitespace m = false) (front back : List Char) :
    trimChars (front ++ m :: back) =
      front.dropWhile isWhitespace ++ m :: back.rdropWhile isWhitespace := by
  have hdrop : ∀ xs ys : List Char, (xs ++ m :: ys).dropWhile isWhitespace =
      xs.dropWhile isWhitespace ++ m :: ys := by
    intro xs ys
    have hne : ¬ isWhitespace m = true := by
      rw [hm]
      exact Bool.false_ne_true
    rw [List.dropWhile_append, List.dropWhile_cons_of_neg hne]
    split
    case isTrue hempty => rw [List.isEmpty_iff.mp hempty, List.nil_append]
    case isFalse => rfl
  rw [trimChars_eq_rdropWhile, hdrop, List.rdropWhile, List.reverse_append, List.reverse_cons,
    List.append_assoc, List.singleton_append, hdrop, List.reverse_append, List.reverse_cons,
    List.reverse_reverse, List.append_assoc]
  rfl

/-- Trimming at both ends is trimming at the end exactly where a text does not
start with whitespace, or is nothing else. -/
theorem trimChars_eq_rdropWhile_iff (cs : List Char) :
    trimChars cs = cs.rdropWhile isWhitespace ↔
      ∀ c, cs.head? = some c → isWhitespace c = true → ∀ d ∈ cs, isWhitespace d = true := by
  constructor
  · intro h c hc hspace
    apply List.rdropWhile_eq_nil_iff.mp
    -- what is left would start as the text does, and as a trimmed text
    cases hleft : cs.rdropWhile isWhitespace with
    | nil => rfl
    | cons d rest =>
        obtain ⟨back, hback⟩ := List.rdropWhile_prefix isWhitespace cs
        rw [hleft] at hback
        rw [← hback] at hc
        obtain rfl : d = c := Option.some.inj hc
        have hhead := head?_trimChars (c := d) (by rw [h, hleft]; rfl)
        rw [hhead] at hspace
        cases hspace
  · intro h
    by_cases hfirst : ∀ c, cs.head? = some c → isWhitespace c = false
    · rw [trimChars_eq_rdropWhile, dropWhile_eq_self hfirst]
    · push Not at hfirst
      obtain ⟨c, hc, hspace⟩ := hfirst
      have hall := h c hc (Bool.not_eq_false _ ▸ hspace)
      rw [trimChars_eq_rdropWhile, List.dropWhile_eq_nil_iff.mpr hall,
        List.rdropWhile_eq_nil_iff.mpr hall]
      rfl

/-- `str::strip_prefix` succeeds on the texts with the prefix. -/
theorem stripPrefixChars_eq_some_iff {ps cs rest : List Char} :
    stripPrefixChars ps cs = some rest ↔ cs = ps ++ rest := by
  induction ps generalizing cs with
  | nil => exact Option.some_inj
  | cons p ps ih =>
      cases cs with
      | nil => exact iff_of_false (fun h => by cases h) (fun h => by cases h)
      | cons c cs =>
          rw [stripPrefixChars, List.cons_append, List.cons_eq_cons]
          by_cases h : p = c
          · rw [if_pos h, ih, and_iff_right h.symm]
          · rw [if_neg h]
            exact iff_of_false (fun h => by cases h) fun h' => h h'.1.symm

theorem stripPrefixChars_eq_none_iff {ps cs : List Char} :
    stripPrefixChars ps cs = none ↔ ¬ ps <+: cs := by
  rw [Option.eq_none_iff_forall_ne_some]
  constructor
  · rintro h ⟨rest, hrest⟩
    exact h rest (stripPrefixChars_eq_some_iff.mpr hrest.symm)
  · exact fun h rest hrest => h ⟨rest, (stripPrefixChars_eq_some_iff.mp hrest).symm⟩

theorem stripPrefixChars_append (ps cs : List Char) : stripPrefixChars ps (ps ++ cs) = some cs :=
  stripPrefixChars_eq_some_iff.mpr rfl

theorem stripPrefix_eq_some_iff {p s rest : String} :
    stripPrefix p s = some rest ↔ s = p ++ rest := by
  rw [stripPrefix, Option.map_eq_some_iff]
  constructor
  · rintro ⟨cs, hstrip, rfl⟩
    rw [← String.toList_inj, stripPrefixChars_eq_some_iff.mp hstrip, String.toList_append,
      String.toList_ofList]
  · rintro rfl
    exact ⟨rest.toList, by rw [String.toList_append, stripPrefixChars_append], String.ofList_toList⟩

/-- `str::strip_prefix` of a text that starts so. -/
theorem stripPrefix_append (p s : String) : stripPrefix p (p ++ s) = some s := by
  rw [stripPrefix, String.toList_append, stripPrefixChars_append, Option.map_some,
    String.ofList_toList]

/-! ### Separators -/

/-- The first separator of a text is determined. -/
theorem sep_inj_left {α : Type*} {sep : α} {xs ys r r' : List α} (hx : sep ∉ xs) (hy : sep ∉ ys)
    (h : xs ++ sep :: r = ys ++ sep :: r') : xs = ys ∧ r = r' := by
  induction xs generalizing ys with
  | nil =>
      rcases ys with - | ⟨y, ys⟩
      · simpa using h
      · rw [List.nil_append, List.cons_append, List.cons.injEq] at h
        exact absurd (h.1 ▸ List.mem_cons_self) hy
  | cons x xs ih =>
      rcases ys with - | ⟨y, ys⟩
      · rw [List.nil_append, List.cons_append, List.cons.injEq] at h
        exact absurd (h.1 ▸ List.mem_cons_self) hx
      · rw [List.cons_append, List.cons_append, List.cons.injEq] at h
        obtain ⟨rfl, h⟩ := h
        obtain ⟨rfl, hr⟩ := ih (fun hm => hx (.tail _ hm)) (fun hm => hy (.tail _ hm)) h
        exact ⟨rfl, hr⟩

/-- The last separator of a text is determined. -/
theorem sep_inj_right {α : Type*} {sep : α} {xs ys r r' : List α} (hr : sep ∉ r) (hr' : sep ∉ r')
    (h : xs ++ sep :: r = ys ++ sep :: r') : xs = ys ∧ r = r' := by
  have h' : r.reverse ++ sep :: xs.reverse = r'.reverse ++ sep :: ys.reverse := by
    simpa using congrArg List.reverse h
  obtain ⟨hrr, hxy⟩ := sep_inj_left (by simpa using hr) (by simpa using hr') h'
  exact ⟨List.reverse_inj.mp hxy, List.reverse_inj.mp hrr⟩

end Str

end AgenticIde
