/-
AgenticIde/CkgScan.lean

The source parser as it indexes the bytes of a line.

The parser finds its places by bytes: it slices a line at offsets, looks at the byte before
and after a keyword, and runs over a line byte by byte.  Here every index and every slice
may fail, where the source would panic, and every loop has as many rounds as the line has
bytes, and one.  No index is out of range, no slice is inside a character and no loop runs
out of rounds: the parser reads what the one over characters reads (`parseSource_eq_some`).

The bridge is one observation.  Every test on a byte is for a byte below 128, and in UTF-8
such a byte is a character of its own; so a test on the byte at the end of some characters
is a test on the next character, and no loop stops inside of one (`ReadsAscii`).  Offsets are
lengths in bytes of the characters before them, and a slice at such a length is a cut
between characters.

Each of the two loops is compared with its counterpart by an induction on the rounds that
are left, with the text before the place as the other half of the invariant
(`declNameLoop_eq`, `collectCallsLoop_eq`); the rounds suffice because a round passes at
least one byte.  The parser itself then only replaces functions by equal ones.
-/
import AgenticIde.CkgKeywords
import AgenticIde.Lib.Bytes
import AgenticIde.Lib.Lines

namespace AgenticIde

namespace Ckg

namespace Scan

open Str

/-! ### Bytes -/

/-- The byte may come before a keyword. -/
def endsBoundaryByte (b : UInt8) : Bool :=
  b == ' '.toUInt8 || b == '\t'.toUInt8 || b == '('.toUInt8 || b == '\n'.toUInt8

/-- The byte may come after a keyword. -/
def startsBoundaryByte (b : UInt8) : Bool :=
  b == ' '.toUInt8 || b == '\t'.toUInt8 || b == '<'.toUInt8 || b == '('.toUInt8

/-- `u8::is_ascii_alphabetic`. -/
def isAsciiAlphabetic (b : UInt8) : Bool :=
  ('A'.toUInt8 ≤ b && b ≤ 'Z'.toUInt8) || ('a'.toUInt8 ≤ b && b ≤ 'z'.toUInt8)

/-- `u8::is_ascii_alphanumeric`. -/
def isAsciiAlphanumeric (b : UInt8) : Bool :=
  isAsciiAlphabetic b || ('0'.toUInt8 ≤ b && b ≤ '9'.toUInt8)

/-- `is_ident_start`. -/
def isIdentStart (b : UInt8) : Bool := isAsciiAlphabetic b || b == '_'.toUInt8

/-- `is_ident_continue`. -/
def isIdentContinue (b : UInt8) : Bool := isAsciiAlphanumeric b || b == '_'.toUInt8

/-- A space or a tab. -/
def isBlankByte (b : UInt8) : Bool := b == ' '.toUInt8 || b == '\t'.toUInt8

/-! ### Scanning a line -/

section

variable (u : CharTables)

/-- What precedes a place is a boundary. -/
def endsBefore (bytes : List UInt8) (abs : Nat) : Option Bool :=
  if 0 < abs then bytes[abs - 1]?.map endsBoundaryByte else some true

/-- What follows a place is a boundary. -/
def startsAt (bytes : List UInt8) (afterIdx : Nat) : Option Bool :=
  if afterIdx < bytes.length then bytes[afterIdx]?.map startsBoundaryByte else some true

/-- The loop of `decl_name`, from a position on. -/
def declNameLoop (line kw : List Char) : (fuel pos : Nat) → Option (Option String)
  | 0, _ => none
  | fuel + 1, pos => do
      let tail ← sliceFromChars pos line
      match findSub kw tail with
      | none => some none
      | some p =>
          let abs := pos + p
          let afterIdx := abs + byteLen kw
          if ← endsBefore (bytesOf line) abs then
            if ← startsAt (bytesOf line) afterIdx then
              let rest ← sliceFromChars afterIdx line
              let ident := declIdent u rest
              if ident.isEmpty then some none else some (some (String.ofList ident))
            else declNameLoop line kw fuel afterIdx
          else declNameLoop line kw fuel (abs + byteLen kw)

/-- `decl_name`. -/
def declName (line : List Char) (kw : String) : Option (Option String) :=
  declNameLoop u line kw.toList ((bytesOf line).length + 1) 0

/-- After spaces and tabs a parenthesis opens. -/
def opensCallAt (bytes : List UInt8) (i : Nat) : Option Bool :=
  let j := scanWhile isBlankByte bytes i
  if j < bytes.length then bytes[j]?.map (· == '('.toUInt8) else some false

/-- The loop of `collect_calls`, from an index on. -/
def collectCallsLoop (line : List Char) : (fuel i : Nat) → (out : List String) →
    Option (List String)
  | 0, _, _ => none
  | fuel + 1, i, out =>
      let bytes := bytesOf line
      if i < bytes.length then do
        let b ← bytes[i]?
        if isIdentStart b then
          let start := i
          let i := scanWhile isIdentContinue bytes i
          let ident ← sliceChars start i line
          let opens ← opensCallAt bytes i
          collectCallsLoop line fuel i (if opens then out ++ [String.ofList ident] else out)
        else collectCallsLoop line fuel (i + 1) out
      else some out

/-- `collect_calls`. -/
def collectCalls (line : List Char) : Option (List String) :=
  collectCallsLoop line ((bytesOf line).length + 1) 0 []

/-- `parse_use_targets`. -/
def parseUseTargets (line : List Char) : Option (List String) :=
  let body := (stripPrefixChars "use ".toList (trimChars line)).getD (trimChars line)
  let body := trimChars (if body.getLast? = some ';' then body.dropLast else body)
  match findChar '\x7b' body with
  | some idx => do
      let inner ← sliceFromChars (idx + 1) body
      some ((splitAtFrom ',' [] (inner.takeWhile (· != '\x7d'))).filterMap useMember)
  | none =>
      let seg := trimChars (lastSegment "::".toList body)
      some (if seg.isEmpty then [] else [String.ofList seg])

/-- The type and the trait of an `impl` header. -/
def implHeader (raw : List Char) : Option (Option (String × String)) :=
  match stripPrefixChars "impl".toList (trimStartChars raw) with
  | none => some none
  | some _ => do
      let (implType, traitName) ←
        match findSub " for ".toList raw with
        | some pos => do
            let after ← sliceFromChars (pos + byteLen " for ".toList) raw
            let before ← sliceToChars pos raw
            let tr := (stripPrefixChars "impl".toList (trimStartChars before)).getD []
            some (String.ofList ((trimStartChars after).takeWhile (isIdentChar u)),
              String.ofList ((trimStartChars tr).takeWhile (isIdentChar u)))
        | none => do
            let name ← declName u raw "impl"
            some (name.getD "", "")
      some (if implType = "" then none else some (implType, traitName))

/-- The kind and the name of a `struct`, `trait` or `mod` declaration. -/
def typeDecl (raw : List Char) : Option (Option (SymbolKind × String)) := do
  let found ← match ← declName u raw "struct" with
    | some name => some (some name)
    | none =>
        match ← declName u raw "trait" with
        | some name => some (some name)
        | none => declName u raw "mod"
  match found with
  | none => some none
  | some name =>
      if (← declName u raw "struct").isSome then some (some (.struct, name))
      else if (← declName u raw "trait").isSome then some (some (.trait, name))
      else some (some (.mod, name))

/-! ### The parser -/

/-- Read one line. -/
def parseLine (file : String) (st : ParseState) (lineno : Nat) (raw : List Char) :
    Option ParseState :=
  let trimmed := trimStartChars raw
  match stripPrefixChars "///".toList trimmed with
  | some d =>
      some { st with
        doc := (if st.doc = "" then "" else st.doc ++ " ") ++ String.ofList (trimChars d) }
  | none => do
  match ← implHeader u raw with
  | some (implType, traitName) =>
      some
        { symbols := st.symbols ++ [⟨.impl, s!"impl {implType}", file, lineno, st.doc⟩]
          edges := st.edges ++
            if traitName = "" then []
            else [⟨s!"impl {implType}", traitName, .defines, file, lineno⟩]
          doc := ""
          currentFn := none
          currentImpl := some implType }
  | none =>
  match ← typeDecl u raw with
  | some (kind, name) =>
      some { st with
        symbols := st.symbols ++ [⟨kind, name, file, lineno, st.doc⟩]
        edges := st.edges ++ st.ownedBy .defines name file lineno
        doc := ""
        currentFn := none }
  | none =>
  match ← declName u raw "fn" with
  | some name =>
      some { st with
        symbols := st.symbols ++ [⟨.fn, name, file, lineno, st.doc⟩]
        edges := st.edges ++ st.ownedBy .contains name file lineno
        doc := ""
        currentFn := some name }
  | none =>
  match stripPrefixChars "use ".toList trimmed with
  | some _ =>
      let targets ← parseUseTargets raw
      some { st with
        edges := st.edges ++
          targets.map fun target => ⟨file, target, .imports, file, lineno⟩ }
  | none =>
  match st.currentFn with
  | some fname =>
      let callees ← collectCalls raw
      some { st with
        edges := st.edges ++
          (callees.filter (!isKeyword ·)).map fun callee =>
            ⟨fname, callee, .calls, file, lineno⟩ }
  | none => some st

/-- `parse_source`. -/
def parseSource (file content : String) : Option (List Symbol × List Edge) := do
  let st ← (linesFrom [] content.toList).zipIdx.foldlM
    (fun st line => parseLine u file st (line.2 + 1) line.1) ParseState.init
  some (st.symbols, st.edges)

end

variable {u : CharTables}

/-! ### What the tests see -/

/-- An identifier starts with one of its characters. -/
theorem isIdentContinue_of_isIdentStart {c : Char} (h : Ckg.isIdentStart c = true) :
    Ckg.isIdentContinue c = true := by
  rw [Ckg.isIdentStart, Bool.or_eq_true] at h
  show (c.isAlpha || c.isDigit || c == '_') = true
  rcases h with h | h
  · rw [h, Bool.true_or, Bool.true_or]
  · rw [h, Bool.or_true]

theorem readsAscii_endsBoundary : ReadsAscii endsBoundaryByte endsBoundary :=
  (((readsAscii_beq (d := ' ') (by decide)).or (readsAscii_beq (d := '\t') (by decide))).or
    (readsAscii_beq (d := '(') (by decide))).or (readsAscii_beq (d := '\n') (by decide))

theorem readsAscii_startsBoundary : ReadsAscii startsBoundaryByte startsBoundary :=
  (((readsAscii_beq (d := ' ') (by decide)).or (readsAscii_beq (d := '\t') (by decide))).or
    (readsAscii_beq (d := '<') (by decide))).or (readsAscii_beq (d := '(') (by decide))

theorem readsAscii_isBlank : ReadsAscii isBlankByte fun c => c == ' ' || c == '\t' :=
  (readsAscii_beq (d := ' ') (by decide)).or (readsAscii_beq (d := '\t') (by decide))

theorem readsAscii_isAlphabetic : ReadsAscii isAsciiAlphabetic Char.isAlpha := by
  have hupper : ReadsAscii (fun b => 'A'.toUInt8 ≤ b && b ≤ 'Z'.toUInt8) Char.isUpper := by
    intro c b hb
    rw [readsAscii_range (by decide) (by decide) c b hb]
    exact (Bool.decide_and _ _).symm
  exact hupper.or (readsAscii_range (by decide) (by decide))

theorem readsAscii_isIdentStart : ReadsAscii isIdentStart Ckg.isIdentStart :=
  readsAscii_isAlphabetic.or (readsAscii_beq (d := '_') (by decide))

theorem readsAscii_isIdentContinue : ReadsAscii isIdentContinue Ckg.isIdentContinue := by
  have hdigit : ReadsAscii (fun b => '0'.toUInt8 ≤ b && b ≤ '9'.toUInt8) Char.isDigit :=
    readsAscii_range (by decide) (by decide)
  exact (readsAscii_isAlphabetic.or hdigit).or (readsAscii_beq (d := '_') (by decide))

/-! ### The neighbours of a place -/

/-- The byte before a place is the last of the character before it. -/
theorem endsBefore_eq (pre post : List Char) :
    endsBefore (bytesOf (pre ++ post)) (byteLen pre) = some (pre.getLast?.all endsBoundary) := by
  rcases List.eq_nil_or_concat pre with rfl | ⟨front, c, rfl⟩
  · rfl
  · rw [List.concat_eq_append]
    have hpos : 0 < byteLen (front ++ [c]) := by
      have hsize := c.utf8Size_pos
      rw [byteLen_append, byteLen_cons]
      omega
    have hlast : (bytesOf (front ++ [c] ++ post))[byteLen (front ++ [c]) - 1]? =
        (bytesOf (front ++ [c])).getLast? := by
      rw [bytesOf_append, List.getElem?_append_left (by rw [length_bytesOf]; omega),
        List.getLast?_eq_getElem?, length_bytesOf]
    rw [endsBefore, if_pos hpos, hlast, getLast?_bytesOf readsAscii_endsBoundary,
      List.getLast?_concat]
    rfl

theorem startsAt_eq (pre post : List Char) :
    startsAt (bytesOf (pre ++ post)) (byteLen pre) = some (post.head?.all startsBoundary) := by
  rw [startsAt, getElem?_bytesOf readsAscii_startsBoundary, length_bytesOf, byteLen_append]
  rcases post with - | ⟨c, post⟩
  · exact if_neg (Nat.lt_irrefl _)
  · have hsize := c.utf8Size_pos
    rw [byteLen_cons, if_pos (by omega)]
    rfl

/-! ### Declarations -/

/-- Without an occurrence nothing is found. -/
theorem declNameFrom_of_eq_none {kw tail : List Char} (h : splitOnceSub kw tail = none)
    (prev : Option Char) : declNameFrom u kw 0 prev tail = none := by
  induction tail generalizing prev with
  | nil => rfl
  | cons c tail ih =>
      rw [splitOnceSub] at h
      rcases hstrip : stripPrefixChars kw (c :: tail) with - | rest
      · rw [hstrip] at h
        rw [declNameFrom, hstrip]
        exact ih (Option.map_eq_none_iff.mp h) _
      · rw [hstrip] at h
        cases h

/-- The search goes to the first occurrence. -/
theorem declNameFrom_of_eq_some {kw tail before after : List Char}
    (h : splitOnceSub kw tail = some (before, after)) (prev : Option Char) :
    declNameFrom u kw 0 prev tail =
      declNameFrom u kw 0 (before.getLast?.or prev) (kw ++ after) := by
  -- By induction on the text before the occurrence, which holds no other.
  induction tail generalizing before prev with
  | nil =>
      rw [splitOnceSub] at h
      split at h
      case isTrue hempty =>
        obtain ⟨rfl, rfl⟩ := Prod.mk.inj (Option.some.inj h)
        rw [List.isEmpty_iff.mp hempty]
        rfl
      case isFalse => cases h
  | cons c tail ih =>
      have hparts := splitOnceSub_parts h
      rw [splitOnceSub] at h
      rcases hstrip : stripPrefixChars kw (c :: tail) with - | rest
      · rw [hstrip] at h
        obtain ⟨⟨before', after'⟩, hsplit, heq⟩ := Option.map_eq_some_iff.mp h
        obtain ⟨rfl, rfl⟩ := Prod.mk.inj heq
        rw [declNameFrom, hstrip, getLast?_cons_or]
        exact ih hsplit _
      · rw [hstrip] at h
        obtain ⟨rfl, rfl⟩ := Prod.mk.inj (Option.some.inj h)
        rw [hparts]
        rfl

/-- What is passed over is not looked at. -/
theorem declNameFrom_skip (kw xs ys : List Char) (prev : Option Char) :
    declNameFrom u kw xs.length prev (xs ++ ys) = declNameFrom u kw 0 (xs.getLast?.or prev) ys := by
  induction xs generalizing prev with
  | nil => rfl
  | cons x xs ih =>
      rw [getLast?_cons_or, ← ih]
      rfl

/-- An occurrence that does not stand alone is passed over. -/
theorem declNameFrom_passed {kw after : List Char} {prev : Option Char} (hkw : kw ≠ [])
    (h : (prev.all endsBoundary && after.head?.all startsBoundary) = false) :
    declNameFrom u kw 0 prev (kw ++ after) = declNameFrom u kw 0 kw.getLast? after := by
  obtain ⟨k, ks, rfl⟩ := List.exists_cons_of_ne_nil hkw
  have hstrip : stripPrefixChars (k :: ks) (k :: (ks ++ after)) = some after :=
    stripPrefixChars_append (k :: ks) after
  rw [List.cons_append, declNameFrom, hstrip]
  dsimp only
  rw [h, if_neg Bool.false_ne_true]
  have hlast := getLast?_cons_or k ks none
  rw [Option.or_none] at hlast
  rw [hlast]
  exact declNameFrom_skip (k :: ks) ks after (some k)

/-- A round without an occurrence ends the loop. -/
theorem declNameLoop_of_eq_none {kw tail : List Char} (h : splitOnceSub kw tail = none)
    (fuel : Nat) (pre : List Char) :
    declNameLoop u (pre ++ tail) kw (fuel + 1) (byteLen pre) = some none := by
  have hfind : findSub kw tail = none := by rw [findSub, h]; rfl
  rw [declNameLoop, sliceFromChars_byteLen]
  simp only [Option.bind_eq_bind, Option.bind_some, hfind]

/-- A round at an occurrence: it decides if it stands alone, and else the loop goes on after
it. -/
theorem declNameLoop_of_eq_some {kw tail before after : List Char}
    (h : splitOnceSub kw tail = some (before, after)) (fuel : Nat) (pre : List Char) :
    declNameLoop u (pre ++ tail) kw (fuel + 1) (byteLen pre) =
      if (pre ++ before).getLast?.all endsBoundary && after.head?.all startsBoundary then
        some (if (declIdent u after).isEmpty then none
          else some (String.ofList (declIdent u after)))
      else
        declNameLoop u (pre ++ before ++ kw ++ after) kw fuel (byteLen (pre ++ before ++ kw)) := by
  have hfind : findSub kw tail = some (byteLen before) := by rw [findSub, h]; rfl
  obtain rfl := splitOnceSub_parts h
  have habs : byteLen pre + byteLen before = byteLen (pre ++ before) :=
    (byteLen_append pre before).symm
  have hafter : byteLen (pre ++ before) + byteLen kw = byteLen (pre ++ before ++ kw) :=
    (byteLen_append (pre ++ before) kw).symm
  have hline : pre ++ (before ++ (kw ++ after)) = pre ++ before ++ kw ++ after := by
    simp only [List.append_assoc]
  have hends := endsBefore_eq (pre ++ before) (kw ++ after)
  rw [← List.append_assoc] at hends
  rw [declNameLoop, sliceFromChars_byteLen]
  -- The occurrence is found by its offset, and both neighbours are read as bytes.
  simp only [Option.bind_eq_bind, Option.bind_some, hfind, habs, hafter, hline, hends,
    startsAt_eq, sliceFromChars_byteLen]
  -- The byte before is looked at first; only if it is a boundary is the one behind.
  by_cases hprev : (pre ++ before).getLast?.all endsBoundary = true
  · rw [if_pos hprev, hprev, Bool.true_and]
    by_cases hrest : after.head?.all startsBoundary = true
    · rw [if_pos hrest, if_pos hrest]
      split
      case isTrue => rfl
      case isFalse => rfl
    · rw [if_neg hrest, if_neg hrest]
  · rw [if_neg hprev, Bool.eq_false_of_not_eq_true hprev, Bool.false_and,
      if_neg Bool.false_ne_true]

/-- **The loop of `decl_name`**: from a place in the line it finds what the search over the
characters finds from there, in at most as many rounds as there are bytes left. -/
theorem declNameLoop_eq {kw : List Char} (hkw : kw ≠ []) {fuel : Nat} (pre tail : List Char)
    (hfuel : byteLen tail < fuel) :
    declNameLoop u (pre ++ tail) kw fuel (byteLen pre) =
      some ((declNameFrom u kw 0 pre.getLast? tail).map String.ofList) := by
  induction fuel generalizing pre tail with
  | zero => exact absurd hfuel (Nat.not_lt_zero _)
  | succ fuel ih =>
      rcases hsplit : splitOnceSub kw tail with - | ⟨before, after⟩
      · rw [declNameLoop_of_eq_none hsplit, declNameFrom_of_eq_none hsplit]
        rfl
      · have hpos : 0 < byteLen kw := Nat.pos_of_ne_zero (mt byteLen_eq_zero_iff.mp hkw)
        have hparts := congrArg byteLen (splitOnceSub_parts hsplit)
        rw [byteLen_append, byteLen_append] at hparts
        have hlast : (pre ++ before ++ kw).getLast? = kw.getLast? := by
          obtain ⟨k, ks, rfl⟩ := List.exists_cons_of_ne_nil hkw
          rw [List.getLast?_append, List.getLast?_cons]
          rfl
        -- the occurrence has been passed, so there are fewer bytes left
        have hnext := ih (pre ++ before ++ kw) after (by omega)
        rw [hlast] at hnext
        rw [declNameLoop_of_eq_some hsplit, declNameFrom_of_eq_some hsplit, ← List.getLast?_append]
        split
        case isTrue halone =>
          obtain ⟨hprev, hrest⟩ := (Bool.and_eq_true _ _).mp halone
          rw [declNameFrom_keyword hkw hprev hrest]
          split
          case isTrue => rfl
          case isFalse => rfl
        case isFalse halone =>
          rw [hnext, declNameFrom_passed hkw (Bool.eq_false_of_not_eq_true halone)]

theorem declName_eq (line : List Char) (kw : String) (hkw : kw.toList ≠ []) :
    declName u line kw = some (Ckg.declName u line kw) := by
  rw [declName, length_bytesOf]
  exact declNameLoop_eq hkw [] line (Nat.lt_succ_self _)

/-! ### Calls -/

/-- An identifier goes as far as its characters do; what follows it decides whether it is a
call. -/
theorem collectCallsFrom_ident {cur : List Char} (hcur : cur ≠ []) (cs : List Char) :
    collectCallsFrom cur cs =
      (if opensCall (cs.dropWhile Ckg.isIdentContinue) then
        [cur.reverse ++ cs.takeWhile Ckg.isIdentContinue] else []) ++
      collectCallsFrom [] (cs.dropWhile Ckg.isIdentContinue) := by
  -- By induction on the characters, with the identifier so far in hand.
  induction cs generalizing cur with
  | nil => rfl
  | cons c cs ih =>
      have hempty : cur.isEmpty = false := List.isEmpty_eq_false_iff.mpr hcur
      rw [collectCallsFrom, hempty, if_neg Bool.false_ne_true]
      by_cases hc : Ckg.isIdentContinue c = true
      · rw [if_pos hc, ih (List.cons_ne_nil _ _), List.dropWhile_cons_of_pos hc,
          List.takeWhile_cons_of_pos hc, List.reverse_cons, List.append_assoc]
        rfl
      -- The end of the identifier cannot start another one.
      · have hstart : Ckg.isIdentStart c = false :=
          Bool.eq_false_of_not_eq_true fun h => hc (isIdentContinue_of_isIdentStart h)
        have hrest : collectCallsFrom [] (c :: cs) = collectCallsFrom [] cs := by
          rw [collectCallsFrom, hstart]
          rfl
        rw [if_neg hc, List.dropWhile_cons_of_neg hc, List.takeWhile_cons_of_neg hc, hrest,
          List.append_nil]
        split
        case isTrue => rfl
        case isFalse => rfl

/-- After an identifier the bytes open a call where the characters do. -/
theorem opensCallAt_eq (pre post : List Char) :
    opensCallAt (bytesOf (pre ++ post)) (byteLen pre) = some (opensCall post) := by
  rw [opensCallAt, scanWhile_bytesOf readsAscii_isBlank, opensCall]
  generalize hblank : (fun c => c == ' ' || c == '\t') = blank
  have hline : pre ++ post = pre ++ post.takeWhile blank ++ post.dropWhile blank := by
    rw [List.append_assoc, List.takeWhile_append_dropWhile]
  rw [hline]
  generalize pre ++ post.takeWhile blank = pre'
  rw [getElem?_bytesOf (readsAscii_beq (d := '(') (by decide)), length_bytesOf, byteLen_append]
  rcases post.dropWhile blank with - | ⟨d, rest⟩
  · exact if_neg (Nat.lt_irrefl _)
  · have hsize := d.utf8Size_pos
    rw [byteLen_cons, if_pos (by omega)]
    rfl

/-- A byte that starts no identifier is passed. -/
theorem collectCallsLoop_pass {line : List Char} {xs ys : List UInt8} {i : Nat}
    (hdrop : (bytesOf line).drop i = xs ++ ys) (hxs : ∀ b ∈ xs, isIdentStart b = false)
    (fuel : Nat) (out : List String) :
    collectCallsLoop line (fuel + xs.length) i out =
      collectCallsLoop line fuel (i + xs.length) out := by
  -- By induction on the bytes that are passed, one round each.
  induction xs generalizing i with
  | nil => rfl
  | cons b xs ih =>
      have hlt : i < (bytesOf line).length := by
        by_contra hge
        rw [List.drop_eq_nil_of_le (Nat.le_of_not_lt hge)] at hdrop
        cases hdrop
      rw [List.drop_eq_getElem_cons hlt, List.cons_append] at hdrop
      obtain ⟨hb, hdrop⟩ := List.cons.inj hdrop
      have hnext := ih hdrop fun b' hb' => hxs b' (List.mem_cons_of_mem _ hb')
      rw [List.length_cons, ← Nat.add_assoc, collectCallsLoop, if_pos hlt,
        List.getElem?_eq_getElem hlt, hb]
      simp only [Option.bind_eq_bind, Option.bind_some, hxs b List.mem_cons_self,
        Bool.false_eq_true, if_false]
      rw [hnext, Nat.add_assoc, Nat.add_comm 1]

/-- A character that starts no identifier is passed, byte by byte. -/
theorem collectCallsLoop_other {c : Char} (hc : Ckg.isIdentStart c = false) (fuel : Nat)
    (pre cs : List Char) (out : List String) :
    collectCallsLoop (pre ++ c :: cs) (fuel + c.utf8Size) (byteLen pre) out =
      collectCallsLoop (pre ++ [c] ++ cs) fuel (byteLen (pre ++ [c])) out := by
  have hxs : ∀ b ∈ String.utf8EncodeChar c, isIdentStart b = false := fun b hb =>
    (readsAscii_isIdentStart c b hb).trans hc
  have hpass := collectCallsLoop_pass (drop_bytesOf pre (c :: cs)) hxs fuel out
  rw [String.length_utf8EncodeChar] at hpass
  have hplace : byteLen pre + c.utf8Size = byteLen (pre ++ [c]) := by
    rw [byteLen_append, byteLen_cons, byteLen_nil, Nat.add_zero]
  rw [hpass, hplace, List.append_assoc]
  rfl

/-- An identifier is passed at once, and collected if it is a call. -/
theorem collectCallsLoop_ident {c : Char} (hc : Ckg.isIdentStart c = true) (fuel : Nat)
    (pre cs : List Char) (out : List String) {ident rest : List Char}
    (hident : (c :: cs).takeWhile Ckg.isIdentContinue = ident)
    (hrest : (c :: cs).dropWhile Ckg.isIdentContinue = rest) :
    collectCallsLoop (pre ++ c :: cs) (fuel + 1) (byteLen pre) out =
      collectCallsLoop (pre ++ ident ++ rest) fuel (byteLen (pre ++ ident))
        (if opensCall rest then out ++ [String.ofList ident] else out) := by
  have hlt : byteLen pre < (bytesOf (pre ++ c :: cs)).length := by
    have hsize := c.utf8Size_pos
    rw [length_bytesOf, byteLen_append, byteLen_cons]
    omega
  -- The byte at the place is the first character, as it is below 128.
  have hb : isIdentStart (bytesOf (pre ++ c :: cs))[byteLen pre] = true := by
    have hread := getElem?_bytesOf readsAscii_isIdentStart pre (c :: cs)
    rw [List.getElem?_eq_getElem hlt] at hread
    exact (Option.some.inj hread).trans hc
  have hscan := scanWhile_bytesOf readsAscii_isIdentContinue pre (c :: cs)
  rw [hident] at hscan
  have hline : pre ++ c :: cs = pre ++ ident ++ rest := by
    rw [← hident, ← hrest, List.append_assoc, List.takeWhile_append_dropWhile]
  rw [collectCallsLoop, if_pos hlt, List.getElem?_eq_getElem hlt]
  -- From there the identifier is scanned as bytes and cut out as characters.
  simp only [Option.bind_eq_bind, Option.bind_some, hb, if_true, hscan]
  rw [hline, sliceChars_byteLen, opensCallAt_eq]
  rfl

/-- **The loop of `collect_calls`**: from a place between characters it collects what the scan
over the characters collects from there, in at most as many rounds as there are bytes left. -/
theorem collectCallsLoop_eq {fuel : Nat} (pre tail : List Char) (out : List String)
    (hfuel : byteLen tail < fuel) :
    collectCallsLoop (pre ++ tail) fuel (byteLen pre) out =
      some (out ++ (collectCallsFrom [] tail).map String.ofList) := by
  induction fuel using Nat.strong_induction_on generalizing pre tail out with
  | _ fuel ih =>
    rcases tail with - | ⟨c, cs⟩
    · obtain ⟨fuel, rfl⟩ := Nat.exists_eq_succ_of_ne_zero (Nat.ne_of_gt hfuel)
      rw [List.append_nil, collectCallsLoop, length_bytesOf, if_neg (Nat.lt_irrefl _)]
      exact congrArg some (List.append_nil out).symm
    · rcases hc : Ckg.isIdentStart c with - | -
      · have hpos := c.utf8Size_pos
        rw [byteLen_cons] at hfuel
        obtain ⟨fuel, rfl⟩ := Nat.exists_eq_add_of_le' (m := c.utf8Size) (n := fuel) (by omega)
        rw [collectCallsLoop_other hc, ih fuel (by omega) (pre ++ [c]) cs out (by omega),
          collectCallsFrom, hc]
        rfl
      · obtain ⟨fuel, rfl⟩ := Nat.exists_eq_succ_of_ne_zero (Nat.ne_of_gt (Nat.zero_lt_of_lt hfuel))
        have hcont := isIdentContinue_of_isIdentStart hc
        generalize hident : (c :: cs).takeWhile Ckg.isIdentContinue = ident
        generalize hrest : (c :: cs).dropWhile Ckg.isIdentContinue = rest
        have hchars : collectCallsFrom [] (c :: cs) =
            (if opensCall rest then [ident] else []) ++ collectCallsFrom [] rest := by
          rw [← hident, ← hrest, List.takeWhile_cons_of_pos hcont, List.dropWhile_cons_of_pos hcont,
            collectCallsFrom, hc]
          exact collectCallsFrom_ident (List.cons_ne_nil c []) cs
        -- the identifier is not empty, so there are fewer bytes left
        have hpos : 0 < byteLen ident := by
          have hsize := c.utf8Size_pos
          rw [← hident, List.takeWhile_cons_of_pos hcont, byteLen_cons]
          omega
        have hsplit : byteLen (c :: cs) = byteLen ident + byteLen rest := by
          rw [← hident, ← hrest, ← byteLen_append, List.takeWhile_append_dropWhile]
        rw [collectCallsLoop_ident hc fuel pre cs out hident hrest,
          ih fuel (Nat.lt_succ_self fuel) (pre ++ ident) rest _ (by omega), hchars]
        by_cases hopens : opensCall rest = true
        · rw [if_pos hopens, if_pos hopens, List.map_append, List.append_assoc]
          rfl
        · rw [if_neg hopens, if_neg hopens]
          rfl

theorem collectCalls_eq (line : List Char) :
    collectCalls line = some (Ckg.collectCalls line) := by
  rw [collectCalls, length_bytesOf]
  exact collectCallsLoop_eq [] line [] (Nat.lt_succ_self _)

/-! ### Imports and headers -/

/-- The brace is found at a byte, and what is inside starts at the next one. -/
theorem parseUseTargets_eq (line : List Char) :
    parseUseTargets line = some (Ckg.parseUseTargets line) := by
  rw [parseUseTargets, Ckg.parseUseTargets]
  dsimp only
  generalize trimChars (if ((stripPrefixChars "use ".toList (trimChars line)).getD
    (trimChars line)).getLast? = some ';' then _ else _) = body
  rcases hsplit : splitOnceChars (· == '\x7b') body with - | ⟨path, inner⟩
  · have hfind : findChar '\x7b' body = none := by rw [findChar, hsplit]; rfl
    rw [hfind]
  -- The brace is one byte, so the offset behind it is between characters.
  · have hfind : findChar '\x7b' body = some (byteLen path) := by rw [findChar, hsplit]; rfl
    obtain ⟨sep, rfl, hsep, -⟩ := splitOnceChars_eq_some_iff.mp hsplit
    obtain rfl := beq_iff_eq.mp hsep
    have hslice := sliceFromChars_byteLen (path ++ ['\x7b']) inner
    have hplace : byteLen (path ++ ['\x7b']) = byteLen path + 1 := by
      rw [byteLen_append]
      rfl
    rw [List.append_assoc, List.singleton_append, hplace] at hslice
    rw [hfind]
    simp only [Option.bind_eq_bind, hslice, Option.bind_some]

theorem implHeader_eq (raw : List Char) : implHeader u raw = some (Ckg.implHeader u raw) := by
  rw [implHeader, Ckg.implHeader]
  rcases stripPrefixChars "impl".toList (trimStartChars raw) with - | _
  · rfl
  · rcases hsplit : splitOnceSub " for ".toList raw with - | ⟨before, after⟩
    · have hfind : findSub " for ".toList raw = none := by rw [findSub, hsplit]; rfl
      simp only [hfind, declName_eq raw "impl" (by decide), Option.bind_eq_bind,
        Option.bind_some]
    · have hfind : findSub " for ".toList raw = some (byteLen before) := by
        rw [findSub, hsplit]
        rfl
      obtain rfl := splitOnceSub_parts hsplit
      have hafter := sliceFromChars_byteLen (before ++ " for ".toList) after
      rw [byteLen_append, List.append_assoc] at hafter
      simp only [hfind, hafter, sliceToChars_byteLen, Option.bind_eq_bind, Option.bind_some]

theorem typeDecl_eq (raw : List Char) : typeDecl u raw = some (Ckg.typeDecl u raw) := by
  have hstruct := declName_eq (u := u) raw "struct" (by decide)
  have htrait := declName_eq (u := u) raw "trait" (by decide)
  have hmod := declName_eq (u := u) raw "mod" (by decide)
  rw [typeDecl, Ckg.typeDecl, hstruct, htrait, hmod]
  rcases Ckg.declName u raw "struct" with - | name
  · rcases Ckg.declName u raw "trait" with - | name
    · rcases Ckg.declName u raw "mod" with - | name
      · rfl
      · rfl
    · rfl
  · rfl

/-! ### The parser -/

/-- A line is read as over characters. -/
theorem parseLine_eq (file : String) (st : ParseState) (lineno : Nat) (raw : List Char) :
    parseLine u file st lineno raw = some (Ckg.parseLine u file st lineno raw) := by
  have hfn := declName_eq (u := u) raw "fn" (by decide)
  dsimp only [parseLine, Ckg.parseLine]
  rcases stripPrefixChars "///".toList (trimStartChars raw) with - | d
  · rw [implHeader_eq, typeDecl_eq, hfn, parseUseTargets_eq, collectCalls_eq]
    rcases Ckg.implHeader u raw with - | header
    · rcases Ckg.typeDecl u raw with - | decl
      · rcases Ckg.declName u raw "fn" with - | name
        · rcases stripPrefixChars "use ".toList (trimStartChars raw) with - | _
          · rcases st.currentFn with - | fname
            · rfl
            · rfl
          · rfl
        · rfl
      · rfl
    · rfl
  · rfl

/-- **The parser over bytes** reads what the one over characters reads.  All its
slices are between characters and both of its loops end, so there is no line,
however strange, on which it panics or stays. -/
theorem parseSource_eq_some (u : CharTables) (file content : String) :
    parseSource u file content = some (Ckg.parseSource u file content) := by
  rw [parseSource, Ckg.parseSource]
  simp only [parseLine_eq]
  generalize (linesFrom [] content.toList).zipIdx = lines
  generalize ParseState.init = st
  have hfold : lines.foldlM (fun st line =>
      some (Ckg.parseLine u file st (line.2 + 1) line.1)) st =
        some (lines.foldl (fun st line => Ckg.parseLine u file st (line.2 + 1) line.1) st) :=
    List.foldlM_pure
  rw [hfold]
  rfl

end Scan

open Scan

/-- A line number is one of the lines. -/
theorem line_mem_of_places {ls : List (List Char)} {p : List (List Char) × List Char}
    (h : p ∈ places ls) : 1 ≤ p.1.length + 1 ∧ p.1.length + 1 ≤ ls.length := by
  have hlength := (length_of_mem_placesFrom h).2
  rw [List.length_nil] at hlength
  omega

/-- **The scanner is total.**  Whatever a file contains, the parser comes to an end without an
index out of range or a slice inside a character; it gives what the parser over characters
gives, and every symbol and every edge has the number of one of the lines. -/
theorem scan_total (u : Str.CharTables) (file content : String) :
    ∃ symbols edges, Scan.parseSource u file content = some (symbols, edges) ∧
      Ckg.parseSource u file content = (symbols, edges) ∧
      (∀ s ∈ symbols, 1 ≤ s.line ∧ s.line ≤ (Str.lines content).length) ∧
      ∀ e ∈ edges, 1 ≤ e.line ∧ e.line ≤ (Str.lines content).length := by
  refine ⟨(parseSource u file content).1, (parseSource u file content).2,
    parseSource_eq_some u file content, rfl, ?_, ?_⟩
  · intro s hs
    rw [parseSource_eq] at hs
    obtain ⟨p, hp, hs⟩ := List.mem_flatMap.mp hs
    rw [line_of_mem_symbolsAt p s hs, Str.lines, List.length_map]
    exact line_mem_of_places hp
  · intro e he
    rw [parseSource_eq] at he
    obtain ⟨p, hp, he⟩ := List.mem_flatMap.mp he
    rw [line_of_mem_edgesAt p e he, Str.lines, List.length_map]
    exact line_mem_of_places hp

end Ckg

end AgenticIde
