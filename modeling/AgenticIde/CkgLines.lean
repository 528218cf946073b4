/-
AgenticIde/CkgLines.lean

The source parser line by line.

`readLine` is what the parser takes a line for, `Registers` what it remembers of the lines
before: the doc comment being collected, the last function and the last `impl` header.  What
is parsed from a file is what each line gives, read in the registers of the lines before it
(`parseSource_eq`), under its own line number (`filter_symbols`, `filter_edges`).

The source is one loop with a cascade of tests, each of which pushes to two lists, changes
some of the three registers and goes on to the next line.  `Reading` names the outcome of
the cascade, and the rest of a round is a function of it: `symbolsOf` and `edgesOf` for what
is pushed, `Registers.after` for what is remembered.  `parseLine_eq` is the one place where
the two are compared.

All later modules about the parser start from here.  They speak of places, a line with the
lines before it, and never of the lists of the loop: the symbols and edges of a file are
those of its places, one after the other, and as each entry has the number of its line, the
entries of one line can be taken out again.
-/
import AgenticIde.CkgParse
import AgenticIde.Lib.Places

namespace AgenticIde

namespace Ckg

open Str

section

variable (u : CharTables)

/-- What the parser takes a line for. -/
inductive Reading
  | doc (text : String)
  | impl (type trait : String)
  | type (kind : SymbolKind) (name : String)
  | fn (name : String)
  | use
  | other
  deriving DecidableEq

/-- Read a line. -/
def readLine (raw : List Char) : Reading :=
  match stripPrefixChars "///".toList (trimStartChars raw) with
  | some d => .doc (String.ofList (trimChars d))
  | none =>
  match implHeader u raw with
  | some (implType, traitName) => .impl implType traitName
  | none =>
  match typeDecl u raw with
  | some (kind, name) => .type kind name
  | none =>
  match declName u raw "fn" with
  | some name => .fn name
  | none =>
  match stripPrefixChars "use ".toList (trimStartChars raw) with
  | some _ => .use
  | none => .other

/-- The line declares a symbol. -/
def Reading.declares : Reading → Bool
  | .impl _ _ => true
  | .type _ _ => true
  | .fn _ => true
  | _ => false

/-- The calls on a line. -/
def callees (raw : List Char) : List String := (collectCalls raw).filter (!isKeyword ·)

/-! ### What is remembered -/

/-- What the parser remembers from line to line. -/
structure Registers where
  doc : String
  currentFn : Option String
  currentImpl : Option String
  deriving DecidableEq

namespace Registers

/-- Before the first line. -/
def init : Registers := ⟨"", none, none⟩

/-- After a line. -/
def after (r : Registers) : Reading → Registers
  | .doc text => { r with doc := (if r.doc = "" then "" else r.doc ++ " ") ++ text }
  | .impl implType _ => ⟨"", none, some implType⟩
  | .type _ _ => ⟨"", none, r.currentImpl⟩
  | .fn name => ⟨"", some name, r.currentImpl⟩
  | .use => r
  | .other => r

end Registers

/-- What the parser remembers of some lines. -/
def registers (lines : List (List Char)) : Registers :=
  lines.foldl (fun r raw => r.after (readLine u raw)) .init

@[simp] theorem registers_concat (lines : List (List Char)) (raw : List Char) :
    registers u (lines ++ [raw]) = (registers u lines).after (readLine u raw) := by
  simp [registers]

theorem registers_append_congr {ls ls' : List (List Char)} (h : registers u ls = registers u ls')
    (rest : List (List Char)) : registers u (ls ++ rest) = registers u (ls' ++ rest) := by
  unfold registers at h ⊢
  rw [List.foldl_append, List.foldl_append, h]

/-- The function that is open after some lines: the last declaration, if it is one. -/
def openFn (lines : List (List Char)) : Option String :=
  match (lines.map (readLine u)).reverse.find? Reading.declares with
  | some (.fn name) => some name
  | _ => none

theorem registers_currentFn (lines : List (List Char)) :
    (registers u lines).currentFn = openFn u lines := by
  induction lines using List.reverseRecOn with
  | nil => rfl
  | append_singleton lines raw ih =>
      rw [registers_concat, openFn, List.map_append, List.reverse_append]
      cases hreading : readLine u raw with
      | doc _ => simpa [hreading, Registers.after, Reading.declares] using ih.trans (by rw [openFn])
      | impl _ _ => simp [hreading, Registers.after, Reading.declares]
      | type _ _ => simp [hreading, Registers.after, Reading.declares]
      | fn _ => simp [hreading, Registers.after, Reading.declares, List.find?_cons]
      | use => simpa [hreading, Registers.after, Reading.declares] using ih.trans (by rw [openFn])
      | other => simpa [hreading, Registers.after, Reading.declares] using ih.trans (by rw [openFn])

/-! ### What a line gives -/

/-- The symbol of a line. -/
def symbolsOf (file doc : String) (lineno : Nat) : Reading → List Symbol
  | .impl implType _ => [⟨.impl, s!"impl {implType}", file, lineno, doc⟩]
  | .type kind name => [⟨kind, name, file, lineno, doc⟩]
  | .fn name => [⟨.fn, name, file, lineno, doc⟩]
  | _ => []

/-- The edge by which the `impl` block of a type has a declaration. -/
def ownedEdge (owner : Option String) (kind : EdgeKind) (name file : String) (lineno : Nat) :
    List Edge :=
  (owner.map fun t => ⟨s!"impl {t}", name, kind, file, lineno⟩).toList

/-- The edge from an `impl` block to its trait. -/
def traitEdge (implType traitName file : String) (lineno : Nat) : List Edge :=
  if traitName = "" then [] else [⟨s!"impl {implType}", traitName, .defines, file, lineno⟩]

/-- The edges of a line. -/
def edgesOf (file : String) (r : Registers) (lineno : Nat) (raw : List Char) :
    Reading → List Edge
  | .doc _ => []
  | .impl implType traitName => traitEdge implType traitName file lineno
  | .type _ name => ownedEdge r.currentImpl .defines name file lineno
  | .fn name => ownedEdge r.currentImpl .contains name file lineno
  | .use => (parseUseTargets raw).map fun target => ⟨file, target, .imports, file, lineno⟩
  | .other =>
      (r.currentFn.map fun fname =>
        (callees raw).map fun callee => ⟨fname, callee, .calls, file, lineno⟩).getD []

/-- The symbol of the line at a place. -/
def symbolsAt (file : String) (p : List (List Char) × List Char) : List Symbol :=
  symbolsOf file (registers u p.1).doc (p.1.length + 1) (readLine u p.2)

/-- The edges of the line at a place. -/
def edgesAt (file : String) (p : List (List Char) × List Char) : List Edge :=
  edgesOf file (registers u p.1) (p.1.length + 1) p.2 (readLine u p.2)

end

variable {u : CharTables}

theorem implName_inj {s t : String} : s!"impl {s}" = s!"impl {t}" ↔ s = t := by
  constructor
  · intro h
    have hlist := congrArg String.toList h
    rw [String.toList_append, String.toList_append, List.append_cancel_left_eq] at hlist
    exact String.toList_inj.mp hlist
  · exact fun h => h ▸ rfl

/-! ### A line -/

/-- **One line** of the parser: it adds what the line gives, and remembers.  What it
adds depends on the reading of the line and on the registers; what it remembers, on
the reading and what was remembered, never on the symbols found so far. -/
theorem parseLine_eq (file : String) (st : ParseState) (lineno : Nat) (raw : List Char) :
    parseLine u file st lineno raw =
      let r : Registers := ⟨st.doc, st.currentFn, st.currentImpl⟩
      let r' := r.after (readLine u raw)
      ⟨st.symbols ++ symbolsOf file st.doc lineno (readLine u raw),
        st.edges ++ edgesOf file r lineno raw (readLine u raw), r'.doc, r'.currentFn,
        r'.currentImpl⟩ := by
  dsimp only [parseLine, readLine]
  -- The tests of the source, in their order; a round of the loop ends with the first that
  -- holds.
  cases stripPrefixChars "///".toList (trimStartChars raw) with
  | some d => simp [Registers.after, symbolsOf, edgesOf]
  | none =>
  cases implHeader u raw with
  | some header => rfl
  | none =>
  cases typeDecl u raw with
  | some decl => rfl
  | none =>
  cases declName u raw "fn" with
  | some name => rfl
  | none =>
  cases stripPrefixChars "use ".toList (trimStartChars raw) with
  | some _ => simp [Registers.after, symbolsOf, edgesOf]
  | none =>
      obtain ⟨symbols, edges, doc, currentFn, currentImpl⟩ := st
      cases currentFn with
      | none => simp [Registers.after, symbolsOf, edgesOf]
      | some fname => simp [Registers.after, symbolsOf, edgesOf, callees]

/-- A type declaration is no `impl` block. -/
theorem kind_ne_impl_of_readLine {raw : List Char} {kind : SymbolKind} {name : String}
    (h : readLine u raw = .type kind name) : kind ≠ .impl := by
  unfold readLine at h
  -- The first test that holds gives the reading, and only that of the types gives one with
  -- a kind.
  cases hdoc : stripPrefixChars "///".toList (trimStartChars raw) with
  | some _ => rw [hdoc] at h; cases h
  | none =>
  cases himpl : implHeader u raw with
  | some _ => rw [hdoc, himpl] at h; cases h
  | none =>
  cases htype : typeDecl u raw with
  | some decl =>
      rw [hdoc, himpl, htype] at h
      obtain ⟨rfl, rfl⟩ := Reading.type.inj h
      obtain ⟨_, -, heq⟩ := Option.map_eq_some_iff.mp htype
      rw [← (Prod.mk.inj heq).1]
      split
      case isTrue => decide
      case isFalse => split <;> decide
  | none =>
  cases hfn : declName u raw "fn" with
  | some _ => rw [hdoc, himpl, htype, hfn] at h; cases h
  | none =>
      rw [hdoc, himpl, htype, hfn] at h
      cases huse : stripPrefixChars "use ".toList (trimStartChars raw) with
      | some _ => rw [huse] at h; cases h
      | none => rw [huse] at h; cases h

/-! ### A file -/

theorem foldl_parseLine (file : String) (ls : List (List Char)) :
    ls.zipIdx.foldl (fun st line => parseLine u file st (line.2 + 1) line.1) ParseState.init =
      ⟨(places ls).flatMap (symbolsAt u file), (places ls).flatMap (edgesAt u file),
        (registers u ls).doc, (registers u ls).currentFn, (registers u ls).currentImpl⟩ := by
  induction ls using List.reverseRecOn with
  | nil => rfl
  | append_singleton ls raw ih =>
      rw [List.zipIdx_append, List.foldl_append, ih, List.zipIdx_singleton, List.foldl_cons,
        List.foldl_nil, parseLine_eq]
      simp [symbolsAt, edgesAt]

/-- **What is parsed from a file** is what each of its lines gives, with the lines
before it for the registers.  So a statement about the symbols or the edges of a
file is one about a line and the lines above it. -/
theorem parseSource_eq (u : CharTables) (file content : String) :
    parseSource u file content =
      ((places (linesFrom [] content.toList)).flatMap (symbolsAt u file),
        (places (linesFrom [] content.toList)).flatMap (edgesAt u file)) := by
  rw [parseSource, foldl_parseLine]

theorem line_of_mem_symbolsOf {file doc : String} {lineno : Nat} {reading : Reading} {s : Symbol}
    (h : s ∈ symbolsOf file doc lineno reading) : s.line = lineno := by
  cases reading with
  | impl _ _ => rw [List.mem_singleton.mp h]
  | type _ _ => rw [List.mem_singleton.mp h]
  | fn _ => rw [List.mem_singleton.mp h]
  | doc _ => cases h
  | use => cases h
  | other => cases h

theorem line_of_mem_ownedEdge {owner : Option String} {kind : EdgeKind} {name file : String}
    {lineno : Nat} {e : Edge} (h : e ∈ ownedEdge owner kind name file lineno) :
    e.line = lineno := by
  obtain ⟨t, -, rfl⟩ := Option.map_eq_some_iff.mp (Option.mem_toList.mp h)
  rfl

theorem line_of_mem_traitEdge {implType traitName file : String} {lineno : Nat} {e : Edge}
    (h : e ∈ traitEdge implType traitName file lineno) : e.line = lineno := by
  unfold traitEdge at h
  split at h
  case isTrue => cases h
  case isFalse => rw [List.mem_singleton.mp h]

/-- The edges of a line have its number. -/
theorem line_of_mem_edgesOf {file : String} {r : Registers} {lineno : Nat} {raw : List Char}
    {reading : Reading} {e : Edge} (h : e ∈ edgesOf file r lineno raw reading) :
    e.line = lineno := by
  -- By the reading, each of which builds its edges with the number it is given.
  cases reading with
  | doc _ => cases h
  | impl _ _ => exact line_of_mem_traitEdge h
  | type _ _ => exact line_of_mem_ownedEdge h
  | fn _ => exact line_of_mem_ownedEdge h
  | use =>
      obtain ⟨target, -, rfl⟩ := List.mem_map.mp h
      rfl
  | other =>
      obtain ⟨doc, currentFn, currentImpl⟩ := r
      cases currentFn with
      | none => cases h
      | some fname =>
          obtain ⟨callee, -, rfl⟩ := List.mem_map.mp h
          rfl

theorem line_of_mem_symbolsAt {file : String} (p : List (List Char) × List Char) (s : Symbol)
    (h : s ∈ symbolsAt u file p) : s.line = p.1.length + 1 :=
  line_of_mem_symbolsOf h

theorem line_of_mem_edgesAt {file : String} (p : List (List Char) × List Char) (e : Edge)
    (h : e ∈ edgesAt u file p) : e.line = p.1.length + 1 :=
  line_of_mem_edgesOf h

/-- The symbols of a line number are those of the line. -/
theorem filter_symbols {file content : String} {pre : List (List Char)} {raw : List Char}
    (h : (pre, raw) ∈ places (linesFrom [] content.toList)) :
    (parseSource u file content).1.filter (·.line = pre.length + 1) =
      symbolsAt u file (pre, raw) := by
  rw [parseSource_eq]
  exact filter_flatMap_places line_of_mem_symbolsAt h

/-- The edges of a line number are those of the line. -/
theorem filter_edges {file content : String} {pre : List (List Char)} {raw : List Char}
    (h : (pre, raw) ∈ places (linesFrom [] content.toList)) :
    (parseSource u file content).2.filter (·.line = pre.length + 1) =
      edgesAt u file (pre, raw) := by
  rw [parseSource_eq]
  exact filter_flatMap_places line_of_mem_edgesAt h

end Ckg

end AgenticIde
