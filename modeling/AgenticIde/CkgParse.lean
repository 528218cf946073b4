/-
AgenticIde/CkgParse.lean

The source parser of the code knowledge graph (`ckg.rs`).

A source is read line by line.  The parser keeps the doc comment that is
being collected, the function whose calls it records, and the `impl` block
that declarations are attributed to.  `parseLine` is one line: a doc line, an
`impl` header, a type, a function, an import, or a line of calls, in this
order.

Lines are lists of characters.  What is compared byte by byte in the source
(the neighbours of a keyword, the characters of a call) is ASCII, so it is
the same compared character by character.
-/
import AgenticIde.Lib.Str
import Mathlib.Data.List.Basic

namespace AgenticIde

namespace Ckg

open Str

/-! ### Symbols and edges -/

/-- Kind of a code symbol. -/
inductive SymbolKind
  | mod
  | fn
  | struct
  | impl
  | trait
  deriving DecidableEq

/-- Stable string form. -/
def SymbolKind.asStr : SymbolKind → String
  | mod => "Mod"
  | fn => "Fn"
  | struct => "Struct"
  | impl => "Impl"
  | trait => "Trait"

/-- A code symbol; `doc` is the doc comment before it. -/
structure Symbol where
  kind : SymbolKind
  name : String
  file : String
  line : Nat
  doc : String
  deriving DecidableEq

/-- Kind of a relationship. -/
inductive EdgeKind
  | calls
  | defines
  | imports
  | contains
  deriving DecidableEq

/-- Stable string form. -/
def EdgeKind.asStr : EdgeKind → String
  | calls => "Calls"
  | defines => "Defines"
  | imports => "Imports"
  | contains => "Contains"

/-- A directed edge. -/
structure Edge where
  fromName : String
  toName : String
  kind : EdgeKind
  file : String
  line : Nat
  deriving DecidableEq

/-! ### Scanning a line -/

section

variable (u : CharTables)

/-- The characters of an identifier. -/
def isIdentChar (c : Char) : Bool := u.isAlphanumeric c || c == '_'

/-- A keyword may follow the character. -/
def endsBoundary (c : Char) : Bool := c == ' ' || c == '\t' || c == '(' || c == '\n'

/-- The character may follow a keyword. -/
def startsBoundary (c : Char) : Bool := c == ' ' || c == '\t' || c == '<' || c == '('

/-- The identifier a declaration names, after its keyword. -/
def declIdent (rest : List Char) : List Char :=
  let rest := (stripPrefixChars ['<'] rest).getD rest
  (trimStartChars rest).takeWhile (isIdentChar u)

/-- `decl_name` from some place of the line: `prev` is the character before it,
and the next `skip` characters are the rest of an occurrence that was passed
over. -/
def declNameFrom (kw : List Char) : Nat → Option Char → List Char → Option (List Char)
  | _, _, [] => none
  | skip + 1, _, c :: cs => declNameFrom kw skip (some c) cs
  | 0, prev, c :: cs =>
      match stripPrefixChars kw (c :: cs) with
      | none => declNameFrom kw 0 (some c) cs
      | some rest =>
          if prev.all endsBoundary && rest.head?.all startsBoundary then
            let ident := declIdent u rest
            -- the first occurrence that stands alone decides
            if ident.isEmpty then none else some ident
          else declNameFrom kw (kw.length - 1) (some c) cs

/-- The identifier that follows a keyword standing alone. -/
def declName (line : List Char) (kw : String) : Option String :=
  (declNameFrom u kw.toList 0 none line).map String.ofList

/-- Keywords that look like calls but are not. -/
def isKeyword (w : String) : Bool :=
  ["if", "for", "while", "loop", "match", "return", "let", "fn", "struct", "impl", "trait", "mod",
    "use", "const", "static", "async", "await", "move", "ref", "where", "as", "unsafe", "mut",
    "pub", "self", "Self", "crate", "super", "dyn", "enum", "type", "in", "do", "else", "break",
    "continue",
    "true", "false"].contains w

def isIdentStart (c : Char) : Bool := c.isAlpha || c == '_'

def isIdentContinue (c : Char) : Bool := c.isAlphanum || c == '_'

/-- The next character other than a space or a tab opens a parenthesis. -/
def opensCall (cs : List Char) : Bool :=
  (cs.dropWhile fun c => c == ' ' || c == '\t').head? == some '('

/-- `collect_calls`, `cur` holding the current identifier reversed. -/
def collectCallsFrom (cur : List Char) : List Char → List (List Char)
  | [] => []
  | c :: cs =>
      if cur.isEmpty then
        if isIdentStart c then collectCallsFrom [c] cs else collectCallsFrom [] cs
      else if isIdentContinue c then collectCallsFrom (c :: cur) cs
      -- the identifier has ended, and `c` starts no other one
      else if opensCall (c :: cs) then cur.reverse :: collectCallsFrom [] cs
      else collectCallsFrom [] cs

/-- Identifiers immediately followed by `(` on a line. -/
def collectCalls (line : List Char) : List String := (collectCallsFrom [] line).map String.ofList

/-- The name of one member of a braced import. -/
def useMember (part : List Char) : Option String :=
  let p := trimChars part
  if p.isEmpty then none
  else
    let name := trimChars ((wordsFrom [] p).headD p)
    if name.isEmpty then none else some (String.ofList name)

/-- Parse `use` statement targets into imported symbol names. -/
def parseUseTargets (line : List Char) : List String :=
  let body := (stripPrefixChars "use ".toList (trimChars line)).getD (trimChars line)
  let body := trimChars (if body.getLast? = some ';' then body.dropLast else body)
  match splitOnceChars (· == '\x7b') body with
  | some (_, inner) =>
      (splitAtFrom ',' [] (inner.takeWhile (· != '\x7d'))).filterMap useMember
  | none =>
      let seg := trimChars (lastSegment "::".toList body)
      if seg.isEmpty then [] else [String.ofList seg]

/-- The type and the trait of an `impl` header; the trait is empty for an
inherent block.  Without a type, the line is no header. -/
def implHeader (raw : List Char) : Option (String × String) :=
  match stripPrefixChars "impl".toList (trimStartChars raw) with
  | none => none
  | some _ =>
      let (implType, traitName) :=
        match splitOnceSub " for ".toList raw with
        | some (before, after) =>
            let tr := (stripPrefixChars "impl".toList (trimStartChars before)).getD []
            (String.ofList ((trimStartChars after).takeWhile (isIdentChar u)),
              String.ofList ((trimStartChars tr).takeWhile (isIdentChar u)))
        | none => ((declName u raw "impl").getD "", "")
      if implType = "" then none else some (implType, traitName)

/-- The kind and the name of a `struct`, `trait` or `mod` declaration. -/
def typeDecl (raw : List Char) : Option (SymbolKind × String) :=
  (((declName u raw "struct").or (declName u raw "trait")).or
      (declName u raw "mod")).map fun name =>
    (if (declName u raw "struct").isSome then .struct
      else if (declName u raw "trait").isSome then .trait
      else .mod, name)

/-! ### The parser -/

/-- What the parser keeps from line to line. -/
structure ParseState where
  symbols : List Symbol
  edges : List Edge
  doc : String
  currentFn : Option String
  currentImpl : Option String
  deriving DecidableEq

/-- Before the first line. -/
def ParseState.init : ParseState := ⟨[], [], "", none, none⟩

/-- The edge by which the current `impl` block has a declaration. -/
def ParseState.ownedBy (st : ParseState) (kind : EdgeKind) (name file : String) (lineno : Nat) :
    List Edge :=
  (st.currentImpl.map fun t => ⟨s!"impl {t}", name, kind, file, lineno⟩).toList

/-- Read one line. -/
def parseLine (file : String) (st : ParseState) (lineno : Nat) (raw : List Char) : ParseState :=
  let trimmed := trimStartChars raw
  match stripPrefixChars "///".toList trimmed with
  | some d =>
      { st with
        doc := (if st.doc = "" then "" else st.doc ++ " ") ++ String.ofList (trimChars d) }
  | none =>
  match implHeader u raw with
  | some (implType, traitName) =>
      { symbols := st.symbols ++ [⟨.impl, s!"impl {implType}", file, lineno, st.doc⟩]
        edges := st.edges ++
          if traitName = "" then [] else [⟨s!"impl {implType}", traitName, .defines, file, lineno⟩]
        doc := ""
        currentFn := none
        currentImpl := some implType }
  | none =>
  match typeDecl u raw with
  | some (kind, name) =>
      { st with
        symbols := st.symbols ++ [⟨kind, name, file, lineno, st.doc⟩]
        edges := st.edges ++ st.ownedBy .defines name file lineno
        doc := ""
        currentFn := none }
  | none =>
  match declName u raw "fn" with
  | some name =>
      { st with
        symbols := st.symbols ++ [⟨.fn, name, file, lineno, st.doc⟩]
        edges := st.edges ++ st.ownedBy .contains name file lineno
        doc := ""
        currentFn := some name }
  | none =>
  match stripPrefixChars "use ".toList trimmed with
  | some _ =>
      { st with
        edges := st.edges ++
          (parseUseTargets raw).map fun target => ⟨file, target, .imports, file, lineno⟩ }
  | none =>
  match st.currentFn with
  | some fname =>
      { st with
        edges := st.edges ++
          ((collectCalls raw).filter (!isKeyword ·)).map fun callee =>
            ⟨fname, callee, .calls, file, lineno⟩ }
  | none => st

/-- Lightweight source parser: extract symbols and edges from one file. -/
def parseSource (file content : String) : List Symbol × List Edge :=
  let st := (linesFrom [] content.toList).zipIdx.foldl
    (fun st line => parseLine u file st (line.2 + 1) line.1) ParseState.init
  (st.symbols, st.edges)

end

example : parseSource .asciiOnly "a.rs"
    "/// retries\nfn retry() \x7b\x7d\n\nfn process() \x7b\n    retry();\n\x7d\n" =
      ([⟨.fn, "retry", "a.rs", 2, "retries"⟩, ⟨.fn, "process", "a.rs", 4, ""⟩],
        [⟨"process", "retry", .calls, "a.rs", 5⟩]) := by
  decide +kernel

end Ckg

end AgenticIde
