/-
AgenticIde/CkgComments.lean

What the source parser makes of comments.

A doc comment is kept for the next declaration, whatever is between, and the blank lines it
starts with are dropped (`registers_doc`).  It is the doc comment right before the
declaration exactly where nothing was kept from further up (`docs_iff`).  Any other comment
is read like code, and does nothing exactly where it declares nothing and no function is
there to have its calls (`comment_inert_iff`).

For doc comments there are two readings of a file.  The parser carries a text along, which
it clears at a declaration; `docRun` says what a reader expects, the lines with three
slashes that stand directly above.  `docs_iff` compares the two for all symbols of a file at
once, and its condition is on the lines between two declarations.

For other comments a file is compared with the same file in which the line of the comment
is empty, so that the numbers of the lines below stay.  What the parser emits is a list for
each line (`symbolsAt`, `edgesAt`), with the number of the line in each entry; so equal
lists have equal parts, line by line, and what the comment itself emits must be nothing.
The converse needs that it also leaves the registers as an empty line does.
-/
import AgenticIde.CkgLines
import AgenticIde.Lib.Lines

namespace AgenticIde

namespace Ckg

open Str

variable {u : CharTables}

/-! ### Doc comments -/

/-- The text of a doc comment line. -/
def docText (raw : List Char) : Option String :=
  (stripPrefixChars "///".toList (trimStartChars raw)).map fun d => String.ofList (trimChars d)

theorem readLine_eq_doc_iff {raw : List Char} {d : String} :
    readLine u raw = .doc d ↔ docText raw = some d := by
  unfold readLine docText
  cases stripPrefixChars "///".toList (trimStartChars raw) with
  | some d' => simp
  -- The test for a doc comment comes first; each of the other readings follows a test of
  -- its own.
  | none =>
      apply iff_of_false
      · cases implHeader u raw with
        | some header => exact fun h => by cases h
        | none =>
        cases typeDecl u raw with
        | some decl => exact fun h => by cases h
        | none =>
        cases declName u raw "fn" with
        | some name => exact fun h => by cases h
        | none =>
        cases stripPrefixChars "use ".toList (trimStartChars raw) with
        | some _ => exact fun h => by cases h
        | none => exact fun h => by cases h
      · exact fun h => by cases h

/-- The doc comment right before what follows some lines. -/
def docRun (lines : List (List Char)) : List String :=
  (lines.rtakeWhile fun raw => (docText raw).isSome).filterMap docText

/-- The lines after the last declaration. -/
def sinceDecl (u : CharTables) (lines : List (List Char)) : List (List Char) :=
  lines.rtakeWhile fun raw => !(readLine u raw).declares

/-- The doc comments after the last declaration that something else comes after. -/
def docsEarlier (u : CharTables) (lines : List (List Char)) : List String :=
  ((sinceDecl u lines).rdropWhile fun raw => (docText raw).isSome).filterMap docText

theorem not_declares_of_docText {raw : List Char} (h : (docText raw).isSome = true) :
    (readLine u raw).declares = false := by
  obtain ⟨d, hd⟩ := Option.isSome_iff_exists.mp h
  rw [readLine_eq_doc_iff.mpr hd]
  rfl

/-- The doc comments after the last declaration are the earlier ones and the one right
before. -/
theorem docsEarlier_append_docRun (lines : List (List Char)) :
    docsEarlier u lines ++ docRun lines = (sinceDecl u lines).filterMap docText := by
  have hrun : lines.rtakeWhile (fun raw => (docText raw).isSome) =
      (sinceDecl u lines).rtakeWhile fun raw => (docText raw).isSome := by
    unfold sinceDecl List.rtakeWhile
    rw [List.reverse_reverse, List.takeWhile_takeWhile]
    congr 1
    apply congrArg₂ _ _ rfl
    funext raw
    cases hdoc : (docText raw).isSome with
    | false => simp
    | true => simp [not_declares_of_docText hdoc]
  rw [docRun, hrun, docsEarlier, ← List.filterMap_append, List.rdropWhile_append_rtakeWhile]

/-! ### Joining -/

/-- Blank texts dropped from the front, then joined. -/
def joinTrimmed (ds : List String) : String := " ".intercalate (ds.dropWhile (· = ""))

theorem length_intercalate_append_ge (l l' : List String) :
    (" ".intercalate l').length ≤ (" ".intercalate (l ++ l')).length := by
  rcases List.eq_nil_or_concat l with rfl | ⟨l, a, rfl⟩
  · exact Nat.le_refl _
  · cases l' with
    | nil => simp
    | cons b l' =>
        rw [String.intercalate_append_of_ne_nil (by simp) (by simp), String.length_append]
        omega

theorem intercalate_ne_empty {a : String} (h : a ≠ "") (l : List String) :
    " ".intercalate (a :: l) ≠ "" := by
  cases l with
  | nil => rwa [String.intercalate_singleton]
  | cons b l =>
      rw [String.intercalate_cons_cons]
      intro hempty
      have hlength := congrArg String.length hempty
      rw [String.length_append, String.length_append] at hlength
      simp at hlength

theorem length_joinTrimmed_le (l : List String) :
    (joinTrimmed l).length ≤ (" ".intercalate l).length := by
  have hsplit : l.takeWhile (· = "") ++ l.dropWhile (· = "") = l := List.takeWhile_append_dropWhile
  have hle := length_intercalate_append_ge (l.takeWhile (· = "")) (l.dropWhile (· = ""))
  rwa [hsplit] at hle

theorem ne_empty_of_dropWhile {ds left : List String} {b : String}
    (h : ds.dropWhile (· = "") = b :: left) : b ≠ "" := by
  have hnot := List.head_dropWhile_not (p := fun b => decide (b = "")) (l := ds)
    (by rw [h]; exact List.cons_ne_nil _ _)
  simpa [h] using hnot

/-- One more text. -/
theorem joinTrimmed_concat (ds : List String) (d : String) :
    joinTrimmed (ds ++ [d]) =
      (if joinTrimmed ds = "" then "" else joinTrimmed ds ++ " ") ++ d := by
  unfold joinTrimmed
  rw [List.dropWhile_append]
  cases hleft : ds.dropWhile (· = "") with
  | nil =>
      rw [if_pos List.isEmpty_nil, String.intercalate_nil, if_pos rfl, String.empty_append]
      by_cases hd : d = ""
      · simp [hd]
      · simp [hd]
  | cons b left =>
      have hb : b ≠ "" := ne_empty_of_dropWhile hleft
      rw [if_neg (by simp), if_neg (intercalate_ne_empty hb left),
        String.intercalate_append_of_ne_nil (by simp) (by simp), String.intercalate_singleton]

/-- Blanks in front are kept when texts are joined only if there is one text at most. -/
theorem joinTrimmed_eq_iff (ds : List String) :
    joinTrimmed ds = " ".intercalate ds ↔ (ds.head? = some "" → ds.length = 1) := by
  cases ds with
  | nil => simp [joinTrimmed]
  | cons d ds =>
      by_cases hd : d = ""
      · subst hd
        have hdrop : joinTrimmed ("" :: ds) = joinTrimmed ds :=
          congrArg " ".intercalate (List.dropWhile_cons_of_pos (decide_eq_true rfl))
        cases ds with
        | nil => simp [joinTrimmed]
        | cons e ds =>
            apply iff_of_false
            · -- a blank in front would make the joined text longer
              intro h
              have hle := length_joinTrimmed_le (e :: ds)
              have hlength := congrArg String.length h
              have hspace : " ".length = 1 := rfl
              rw [hdrop, String.intercalate_cons_cons, String.length_append,
                String.length_append, String.length_empty, Nat.zero_add] at hlength
              omega
            · simp
      · rw [joinTrimmed, List.dropWhile_cons_of_neg (by simpa using hd)]
        exact iff_of_true rfl fun h => absurd (Option.some.inj h) hd

/-- A text in front that is not blank shows. -/
theorem joinTrimmed_append_ne {earlier : List String} (hnot : ¬ ∀ d ∈ earlier, d = "")
    (ds : List String) : joinTrimmed (earlier ++ ds) ≠ " ".intercalate ds := by
  have hleft : earlier.dropWhile (· = "") ≠ [] := fun hnil => hnot fun d hd =>
    of_decide_eq_true (List.dropWhile_eq_nil_iff.mp hnil d hd)
  obtain ⟨b, left, hcons⟩ := List.exists_cons_of_ne_nil hleft
  have hb : b ≠ "" := ne_empty_of_dropWhile hcons
  intro h
  rw [joinTrimmed, List.dropWhile_append, if_neg (by simpa using hleft), hcons] at h
  cases ds with
  | nil =>
      rw [List.append_nil] at h
      exact intercalate_ne_empty hb left h
  | cons d ds =>
      have hlength := congrArg String.length h
      rw [String.intercalate_append_of_ne_nil (by simp) (by simp), String.length_append,
        String.length_append] at hlength
      simp at hlength

/-- Joined texts end with some of them alone exactly when the others are blank, and so is
not the first of several. -/
theorem joinTrimmed_append_eq_iff (earlier ds : List String) :
    joinTrimmed (earlier ++ ds) = " ".intercalate ds ↔
      (∀ d ∈ earlier, d = "") ∧ (ds.head? = some "" → ds.length = 1) := by
  by_cases hblank : ∀ d ∈ earlier, d = ""
  · have hdrop : joinTrimmed (earlier ++ ds) = joinTrimmed ds := by
      rw [joinTrimmed, List.dropWhile_append_of_pos fun d hd => decide_eq_true (hblank d hd)]
      rfl
    rw [and_iff_right hblank, hdrop, joinTrimmed_eq_iff]
  · exact iff_of_false (joinTrimmed_append_ne hblank ds) fun h => hblank h.1

/-- **What is kept of doc comments**: those after the last declaration.  Lines
between them that are no declaration, blank or not, do not clear what has been kept.
-/
theorem registers_doc (lines : List (List Char)) :
    (registers u lines).doc = joinTrimmed ((sinceDecl u lines).filterMap docText) := by
  -- On the last line: a doc comment is joined to what was kept, a declaration clears it,
  -- and any other line leaves it.
  induction lines using List.reverseRecOn with
  | nil => rfl
  | append_singleton lines raw ih =>
      have hsince : sinceDecl u (lines ++ [raw]) =
          if (readLine u raw).declares then [] else sinceDecl u lines ++ [raw] := by
        rw [sinceDecl, List.rtakeWhile_concat]
        cases (readLine u raw).declares with
        | true => rfl
        | false => rfl
      rw [registers_concat, hsince]
      cases hdoc : docText raw with
      | some d =>
          rw [readLine_eq_doc_iff.mpr hdoc, if_neg (by simp [Reading.declares]),
            List.filterMap_append, List.filterMap_cons_some hdoc, List.filterMap_nil,
            joinTrimmed_concat, ← ih]
          rfl
      | none =>
          rw [apply_ite (List.filterMap docText), List.filterMap_append,
            List.filterMap_cons_none hdoc, List.filterMap_nil, List.append_nil]
          cases hreading : readLine u raw with
          | doc d => rw [readLine_eq_doc_iff.mp hreading] at hdoc; cases hdoc
          | impl implType traitName => rfl
          | type kind name => rfl
          | fn name => rfl
          | use => exact ih
          | other => exact ih

/-- The doc of every symbol of a file is the doc comment right before it: the run of
doc lines that ends above its line, joined with single spaces. -/
def DocsAttributed (u : CharTables) (file content : String) : Prop :=
  ∀ s ∈ (parseSource u file content).1,
    s.doc = " ".intercalate (docRun ((linesFrom [] content.toList).take (s.line - 1)))

theorem doc_of_mem_symbolsOf {file doc : String} {lineno : Nat} {reading : Reading} {s : Symbol}
    (h : s ∈ symbolsOf file doc lineno reading) : s.doc = doc := by
  cases reading with
  | impl _ _ => rw [List.mem_singleton.mp h]
  | type _ _ => rw [List.mem_singleton.mp h]
  | fn _ => rw [List.mem_singleton.mp h]
  | doc _ => cases h
  | use => cases h
  | other => cases h

theorem exists_mem_symbolsOf_iff {file doc : String} {lineno : Nat} {reading : Reading} :
    (∃ s, s ∈ symbolsOf file doc lineno reading) ↔ reading.declares = true := by
  cases reading with
  | impl _ _ => simp [symbolsOf, Reading.declares]
  | type _ _ => simp [symbolsOf, Reading.declares]
  | fn _ => simp [symbolsOf, Reading.declares]
  | doc _ => simp [symbolsOf, Reading.declares]
  | use => simp [symbolsOf, Reading.declares]
  | other => simp [symbolsOf, Reading.declares]

/-- What is said of the doc and the line number of all symbols is said of the declarations. -/
theorem forall_symbols_iff {file content : String} {P : String → Nat → Prop} :
    (∀ s ∈ (parseSource u file content).1, P s.doc s.line) ↔
      ∀ pre raw, (pre, raw) ∈ places (linesFrom [] content.toList) →
        (readLine u raw).declares = true → P (registers u pre).doc (pre.length + 1) := by
  rw [parseSource_eq]
  constructor
  · intro h pre raw hp hdeclares
    obtain ⟨s, hs⟩ : ∃ s, s ∈ symbolsOf file (registers u pre).doc (pre.length + 1)
        (readLine u raw) := exists_mem_symbolsOf_iff.mpr hdeclares
    have hP := h s (List.mem_flatMap.mpr ⟨(pre, raw), hp, hs⟩)
    rwa [doc_of_mem_symbolsOf hs, line_of_mem_symbolsOf hs] at hP
  · intro h s hs
    obtain ⟨⟨pre, raw⟩, hp, hs⟩ := List.mem_flatMap.mp hs
    rw [doc_of_mem_symbolsOf hs, line_of_mem_symbolsOf hs]
    exact h pre raw hp (exists_mem_symbolsOf_iff.mp ⟨s, hs⟩)

/-- **Doc comments are attributed** exactly where every declaration has nothing kept
from further up, and its own doc comment does not start with a blank line of
several.  The parser puts a space before a line only if something is there already,
so a blank first line leaves no space where joining would have put one. -/
theorem docs_iff (u : CharTables) (file content : String) :
    DocsAttributed u file content ↔
      ∀ pre raw, (pre, raw) ∈ places (linesFrom [] content.toList) →
        (readLine u raw).declares = true →
          (∀ d ∈ docsEarlier u pre, d = "") ∧
            ((docRun pre).head? = some "" → (docRun pre).length = 1) := by
  have hsymbols := @forall_symbols_iff u file content fun doc line =>
    doc = " ".intercalate (docRun ((linesFrom [] content.toList).take (line - 1)))
  rw [DocsAttributed, hsymbols]
  refine forall₂_congr fun pre raw => forall₂_congr fun hp _ => ?_
  obtain ⟨post, hlines⟩ := mem_places_iff.mp hp
  rw [hlines, Nat.add_sub_cancel, List.take_left, registers_doc, ← docsEarlier_append_docRun,
    joinTrimmed_append_eq_iff]

/-- The doc comment of a field is found at the function after the structure. -/
theorem docs_of_field_misplaced :
    ¬ DocsAttributed .asciiOnly "a.rs"
      "struct S \x7b\n    /// the id\n    id: u32,\n\x7d\nfn f() \x7b\x7d\n" := by
  intro h
  have hdoc : (⟨.fn, "f", "a.rs", 5, "the id"⟩ : Symbol) ∈ (parseSource .asciiOnly "a.rs"
      "struct S \x7b\n    /// the id\n    id: u32,\n\x7d\nfn f() \x7b\x7d\n").1 := by
    decide +kernel
  exact absurd (h _ hdoc) (by decide +kernel)

/-! ### Other comments -/

/-- A comment line that is no doc comment: two slashes and no third, behind whatever
indentation. -/
structure IsComment (line : List Char) : Prop where
  starts : "//".toList <+: trimStartChars line
  no_doc : ¬ "///".toList <+: trimStartChars line

theorem IsComment.stripPrefixChars_eq_none {line : List Char} (h : IsComment line) {d : Char}
    (hd : d ≠ '/') (qs : List Char) :
    stripPrefixChars (d :: qs) (trimStartChars line) = none := by
  obtain ⟨rest, hrest⟩ := h.starts
  rw [stripPrefixChars_eq_none_iff, ← hrest]
  rintro ⟨rest', hrest'⟩
  exact hd (List.cons.inj hrest').1

theorem IsComment.ne_nil {line : List Char} (h : IsComment line) : line ≠ [] := by
  rintro rfl
  have hlength := h.starts.length_le
  simp [trimStartChars] at hlength

/-- A comment is read as a declaration, or as code. -/
theorem IsComment.readLine_eq {line : List Char} (h : IsComment line) :
    readLine u line =
      match typeDecl u line with
      | some (kind, name) => .type kind name
      | none =>
      match declName u line "fn" with
      | some name => .fn name
      | none => .other := by
  -- A comment begins with two slashes and not with three, which excludes the tests for a
  -- doc comment, an `impl` and a `use`.
  have hdoc : stripPrefixChars "///".toList (trimStartChars line) = none :=
    stripPrefixChars_eq_none_iff.mpr h.no_doc
  have himpl : stripPrefixChars "impl".toList (trimStartChars line) = none :=
    h.stripPrefixChars_eq_none (by decide) _
  have huse : stripPrefixChars "use ".toList (trimStartChars line) = none :=
    h.stripPrefixChars_eq_none (by decide) _
  have hheader : implHeader u line = none := by rw [implHeader, himpl]
  unfold readLine
  cases typeDecl u line with
  | some _ => simp only [hdoc, hheader]
  | none => cases declName u line "fn" <;> simp only [hdoc, hheader, huse]

theorem IsComment.declares_eq_false_iff {line : List Char} (h : IsComment line) :
    (readLine u line).declares = false ↔ typeDecl u line = none ∧ declName u line "fn" = none := by
  rw [h.readLine_eq]
  cases typeDecl u line with
  | some _ => simp [Reading.declares]
  | none =>
      cases declName u line "fn" with
      | some _ => simp [Reading.declares]
      | none => simp [Reading.declares]

theorem IsComment.readLine_eq_other {line : List Char} (h : IsComment line)
    (hdeclares : (readLine u line).declares = false) : readLine u line = .other := by
  obtain ⟨htype, hfn⟩ := h.declares_eq_false_iff.mp hdeclares
  rw [h.readLine_eq, htype, hfn]

theorem readLine_nil : readLine u [] = .other := rfl

/-- A line that gives nothing and is not remembered may as well be empty. -/
theorem flatMap_places_blank {ω : Type*} {f : List (List Char) × List Char → List ω}
    (hf : ∀ pre pre' raw, pre.length = pre'.length → registers u pre = registers u pre' →
      f (pre, raw) = f (pre', raw)) {pre post : List (List Char)} {raw : List Char}
    (hraw : f (pre, raw) = f (pre, []))
    (hafter : registers u (pre ++ [raw]) = registers u (pre ++ [[]])) :
    (places (pre ++ raw :: post)).flatMap f = (places (pre ++ [] :: post)).flatMap f := by
  induction post using List.reverseRecOn with
  | nil => rw [places_concat, places_concat, List.flatMap_append, List.flatMap_append,
      List.flatMap_singleton, List.flatMap_singleton, hraw]
  | append_singleton post a ih =>
      have hregisters : registers u (pre ++ raw :: post) = registers u (pre ++ [] :: post) := by
        have h := registers_append_congr u hafter post
        rwa [List.append_assoc, List.append_assoc] at h
      rw [← List.cons_append, ← List.append_assoc, ← List.cons_append, ← List.append_assoc,
        places_concat, places_concat, List.flatMap_append, List.flatMap_append,
        List.flatMap_singleton, List.flatMap_singleton, ih, hf _ _ a (by simp) hregisters]

theorem symbolsAt_nil (file : String) (pre : List (List Char)) : symbolsAt u file (pre, []) = [] :=
  rfl

theorem edgesAt_nil (file : String) (pre : List (List Char)) : edgesAt u file (pre, []) = [] := by
  rw [edgesAt, readLine_nil, edgesOf]
  cases (registers u pre).currentFn <;> rfl

theorem symbolsAt_congr (file : String) (pre pre' : List (List Char)) (raw : List Char)
    (hlength : pre.length = pre'.length) (hregisters : registers u pre = registers u pre') :
    symbolsAt u file (pre, raw) = symbolsAt u file (pre', raw) := by
  rw [symbolsAt, symbolsAt, hlength, hregisters]

theorem edgesAt_congr (file : String) (pre pre' : List (List Char)) (raw : List Char)
    (hlength : pre.length = pre'.length) (hregisters : registers u pre = registers u pre') :
    edgesAt u file (pre, raw) = edgesAt u file (pre', raw) := by
  rw [edgesAt, edgesAt, hlength, hregisters]

/-- A text with an empty line at the end, or left out there. -/
theorem parseSource_blank {file content : String} {pre post : List (List Char)}
    (h : linesFrom [] content.toList = pre ++ [] :: post ∨
      post = [] ∧ linesFrom [] content.toList = pre) :
    parseSource u file content =
      ((places (pre ++ [] :: post)).flatMap (symbolsAt u file),
        (places (pre ++ [] :: post)).flatMap (edgesAt u file)) := by
  rw [parseSource_eq]
  rcases h with h | ⟨rfl, h⟩
  · rw [h]
  · rw [h, places_concat, List.flatMap_append, List.flatMap_append, List.flatMap_singleton,
      List.flatMap_singleton, symbolsAt_nil, edgesAt_nil, List.append_nil, List.append_nil]

theorem edgesAt_other_eq_nil_iff {file : String} {pre : List (List Char)} {raw : List Char}
    (h : readLine u raw = .other) :
    edgesAt u file (pre, raw) = [] ↔ openFn u pre = none ∨ callees raw = [] := by
  rw [edgesAt, h, edgesOf, ← registers_currentFn]
  cases (registers u pre).currentFn with
  | none => simp
  | some fname => simp

/-- **A comment is inert** exactly where it declares nothing and, in a function, has
no calls.  The parser does not know comments other than those for docs: it reads a
line that starts with two slashes like any other. -/
theorem comment_inert_iff (u : CharTables) {file before line after : String}
    (hline : IsLine before.toList line.toList after.toList) (hcomment : IsComment line.toList) :
    parseSource u file (before ++ line ++ after) = parseSource u file (before ++ after) ↔
      (typeDecl u line.toList = none ∧ declName u line.toList "fn" = none) ∧
        (openFn u (linesFrom [] before.toList) = none ∨ callees line.toList = []) := by
  obtain ⟨post, hlines, hblank⟩ := hline.cut hcomment.ne_nil
  rw [← String.toList_append, ← String.toList_append] at hlines
  rw [← String.toList_append] at hblank
  rw [parseSource_blank hblank, parseSource_eq, hlines, Prod.mk.injEq,
    ← hcomment.declares_eq_false_iff]
  generalize linesFrom [] before.toList = pre
  constructor
  · rintro ⟨hsymbols, hedges⟩
    have hp : (pre, line.toList) ∈ places (pre ++ line.toList :: post) :=
      mem_places_iff.mpr ⟨post, rfl⟩
    have hp' : (pre, []) ∈ places (pre ++ [] :: post) := mem_places_iff.mpr ⟨post, rfl⟩
    -- The entries of a line are those with its number, so they can be taken out of the two
    -- results.
    have hsymbol : symbolsAt u file (pre, line.toList) = [] := by
      rw [← filter_flatMap_places line_of_mem_symbolsAt hp, hsymbols,
        filter_flatMap_places line_of_mem_symbolsAt hp', symbolsAt_nil]
    have hedge : edgesAt u file (pre, line.toList) = [] := by
      rw [← filter_flatMap_places line_of_mem_edgesAt hp, hedges,
        filter_flatMap_places line_of_mem_edgesAt hp', edgesAt_nil]
    -- A declaration always gives a symbol, so a line without symbols declares nothing.
    have hdeclares : (readLine u line.toList).declares = false := by
      rw [Bool.eq_false_iff, Ne, ← exists_mem_symbolsOf_iff, not_exists]
      intro s hs
      rw [symbolsAt] at hsymbol
      rw [hsymbol] at hs
      cases hs
    exact ⟨hdeclares, (edgesAt_other_eq_nil_iff (hcomment.readLine_eq_other hdeclares)).mp hedge⟩
  · rintro ⟨hdeclares, hcalls⟩
    have hother := hcomment.readLine_eq_other hdeclares
    -- Read as code, the comment leaves the registers as an empty line would.
    have hafter : registers u (pre ++ [line.toList]) = registers u (pre ++ [[]]) := by
      rw [registers_concat, registers_concat, hother, readLine_nil]
    constructor
    · apply flatMap_places_blank (symbolsAt_congr file) _ hafter
      rw [symbolsAt_nil, symbolsAt, hother]
      rfl
    · apply flatMap_places_blank (edgesAt_congr file) _ hafter
      rw [edgesAt_nil, edgesAt_other_eq_nil_iff hother]
      exact hcalls

/-- The calls of a comment in no function are not recorded. -/
theorem comment_inert_outside :
    parseSource .asciiOnly "a.rs" ("use a::B;\n" ++ "// see go()" ++ "\n") =
      parseSource .asciiOnly "a.rs" ("use a::B;\n" ++ "\n") :=
  (comment_inert_iff .asciiOnly
      ⟨.inr (by decide), by decide, .inr (.inl ⟨[], rfl, by decide⟩)⟩
      ⟨⟨" see go()".toList, by decide⟩, by decide⟩).mpr
    ⟨⟨by decide +kernel, by decide +kernel⟩, .inl (by decide +kernel)⟩

/-- A comment in a function has it call what the comment says. -/
theorem comment_not_inert :
    IsLine "fn f() \x7b\n".toList "    // see go()".toList "\n\x7d\n".toList ∧
      IsComment "    // see go()".toList ∧
      parseSource .asciiOnly "a.rs" ("fn f() \x7b\n" ++ "    // see go()" ++ "\n\x7d\n") ≠
        parseSource .asciiOnly "a.rs" ("fn f() \x7b\n" ++ "\n\x7d\n") :=
  ⟨⟨.inr (by decide), by decide, .inr (.inl ⟨"\x7d\n".toList, rfl, by decide⟩)⟩,
    ⟨⟨" see go()".toList, by decide⟩, by decide⟩, by decide +kernel⟩

end Ckg

end AgenticIde
