/-
AgenticIde/Ckg.lean

The code knowledge graph in memory (`InMemoryCkg` of `ckg.rs`): the symbols and edges of the
files it was given, in the order they were parsed, and the neighbourhood query over them.

A query takes as its seeds the symbols whose name contains the text.  For each of them it
follows the edges of certain kinds in either direction, to the symbol at the other end, then
sorts what it has found and drops a result that stands next to an equal one.  The graph keeps
names in its edges, not symbols; so the other end of an edge is looked up by its name, and
`symbolByName` takes the first symbol of that name, in whatever file.

The definitions follow the loops of the source, with one `filterMap` for each.  The lemmas
of this module say what a single edge contributes (`relatedBy_eq_some_iff`); an edge links
the two names it has, in one direction or the other (`Edge.Links`), and a seed is not
related to itself.  What a whole query finds is `CkgQuery.lean`.
-/
import AgenticIde.CkgParse
import Mathlib.Data.List.Destutter
import Mathlib.Data.List.Infix
import Mathlib.Data.Prod.Lex
import Mathlib.Data.String.Basic

namespace AgenticIde

namespace Ckg

/-- A symbol in the neighbourhood of a queried name, and how it relates to it. -/
structure RelatedSymbol where
  symbol : Symbol
  relation : EdgeKind
  file : String
  line : Nat
  deriving DecidableEq

namespace RelatedSymbol

/-- A symbol, where it is declared. -/
def of (s : Symbol) (relation : EdgeKind) : RelatedSymbol := ⟨s, relation, s.file, s.line⟩

/-- What results are ordered by: the file, then the line, then the name. -/
def sortKey (r : RelatedSymbol) : String ×ₗ Nat ×ₗ String :=
  toLex (r.file, toLex (r.line, r.symbol.name))

/-- The order of a result. -/
def le (a b : RelatedSymbol) : Bool := a.sortKey ≤ b.sortKey

/-- Two entries of a result that are shown once. -/
def same (a b : RelatedSymbol) : Bool :=
  a.file = b.file ∧ a.line = b.line ∧ a.symbol.name = b.symbol.name ∧ a.relation = b.relation

end RelatedSymbol

/-- The edge is between the two names, in one direction or the other; what it means
does not matter to a query. -/
def Edge.Links (e : Edge) (a b : String) : Prop :=
  (e.fromName = a ∧ e.toName = b) ∨ (e.toName = a ∧ e.fromName = b)

instance (e : Edge) (a b : String) : Decidable (e.Links a b) :=
  inferInstanceAs (Decidable (_ ∨ _))

theorem Edge.Links.symm {e : Edge} {a b : String} (h : e.Links a b) : e.Links b a := by
  rcases h with ⟨hfrom, hto⟩ | ⟨hto, hfrom⟩
  · exact .inr ⟨hto, hfrom⟩
  · exact .inl ⟨hfrom, hto⟩

/-- The name at the other end of an edge. -/
def Edge.otherEnd (e : Edge) (name : String) : Option String :=
  if e.fromName = name then some e.toName
  else if e.toName = name then some e.fromName
  else none

theorem Edge.otherEnd_eq_some_iff {e : Edge} {a b : String} (hne : b ≠ a) :
    e.otherEnd a = some b ↔ e.Links a b := by
  unfold otherEnd Links
  by_cases hfrom : e.fromName = a
  · rw [if_pos hfrom, Option.some_inj, and_iff_right hfrom]
    -- an edge to itself is no edge to another name
    exact (or_iff_left fun h => hne (h.2.symm.trans hfrom)).symm
  · rw [if_neg hfrom, or_iff_right fun h => hfrom h.1]
    by_cases hto : e.toName = a
    · rw [if_pos hto, Option.some_inj, and_iff_right hto]
    · rw [if_neg hto]
      exact iff_of_false (fun h => by cases h) fun h => hto h.1

/-- The file declares a symbol of the name. -/
def declares (u : Str.CharTables) (name : String) (f : String × String) : Bool :=
  (parseSource u f.1 f.2).1.any (·.name = name)

/-- What some files are parsed to. -/
def parseAll (u : Str.CharTables) (files : List (String × String)) : List Symbol × List Edge :=
  (files.flatMap fun f => (parseSource u f.1 f.2).1,
    files.flatMap fun f => (parseSource u f.1 f.2).2)

/-- In-memory code knowledge graph. -/
structure InMemoryCkg where
  symbols : List Symbol
  edges : List Edge
  deriving DecidableEq

namespace InMemoryCkg

/-- Empty graph. -/
def new : InMemoryCkg := ⟨[], []⟩

/-- Add symbols and edges. -/
def extend (self : InMemoryCkg) (parsed : List Symbol × List Edge) : InMemoryCkg :=
  ⟨self.symbols ++ parsed.1, self.edges ++ parsed.2⟩

@[simp] theorem extend_symbols (self : InMemoryCkg) (parsed : List Symbol × List Edge) :
    (self.extend parsed).symbols = self.symbols ++ parsed.1 := rfl

@[simp] theorem extend_edges (self : InMemoryCkg) (parsed : List Symbol × List Edge) :
    (self.extend parsed).edges = self.edges ++ parsed.2 := rfl

@[simp] theorem extend_nil (self : InMemoryCkg) : self.extend ([], []) = self := by
  simp [extend]

/-- Parse and ingest one source file. -/
def ingestFile (u : Str.CharTables) (self : InMemoryCkg) (file content : String) : InMemoryCkg :=
  self.extend (parseSource u file content)

/-- Build a graph from a corpus of `(file, content)` pairs. -/
def fromFiles (u : Str.CharTables) (files : List (String × String)) : InMemoryCkg :=
  files.foldl (fun g f => g.ingestFile u f.1 f.2) new

/-- The first symbol of a name. -/
def symbolByName (self : InMemoryCkg) (name : String) : Option Symbol :=
  self.symbols.find? (·.name = name)

/-- The edges a query follows. -/
def relevant : List EdgeKind := [.calls, .defines, .contains]

/-- What an edge relates a seed to, in either direction. -/
def relatedBy (self : InMemoryCkg) (seed : Symbol) (e : Edge) : Option RelatedSymbol :=
  if e.kind ∉ relevant then none
  else
    let related :=
      if e.fromName = seed.name then self.symbolByName e.toName
      else if e.toName = seed.name then self.symbolByName e.fromName
      else none
    match related with
    | none => none
    | some sym =>
        -- self-loops are skipped
        if sym.name = seed.name then none else some ⟨sym, e.kind, sym.file, sym.line⟩

/-- The symbols whose name contains the text. -/
def seeds (self : InMemoryCkg) (needle : String) : List Symbol :=
  self.symbols.filter fun s => needle.toList <:+: s.name.toList

/-- Neighbourhood query: the symbols related to a symbol whose name contains the
text, grouped by file and de-duplicated. -/
def query (self : InMemoryCkg) (symbolOrName : String) : List RelatedSymbol :=
  let out := (self.seeds (Str.trim symbolOrName)).flatMap fun seed =>
    self.edges.filterMap (self.relatedBy seed)
  (out.mergeSort RelatedSymbol.le).destutter fun a b => a.same b = false

theorem symbolByName_eq_some {self : InMemoryCkg} {name : String} {s : Symbol}
    (h : self.symbolByName name = some s) : s ∈ self.symbols ∧ s.name = name :=
  ⟨List.mem_of_find?_eq_some h, by simpa using List.find?_some h⟩

theorem exists_symbolByName {self : InMemoryCkg} {s : Symbol} (h : s ∈ self.symbols) :
    ∃ s₀, self.symbolByName s.name = some s₀ ∧ s₀.name = s.name := by
  obtain ⟨s₀, hs₀⟩ := Option.isSome_iff_exists.mp
    (List.find?_isSome.mpr ⟨s, h, decide_eq_true rfl⟩ : (self.symbolByName s.name).isSome)
  exact ⟨s₀, hs₀, (symbolByName_eq_some hs₀).2⟩

theorem relatedBy_of_relevant {self : InMemoryCkg} {seed : Symbol} {e : Edge}
    (hkind : e.kind ∈ relevant) :
    self.relatedBy seed e =
      ((e.otherEnd seed.name).bind self.symbolByName).bind fun s =>
        if s.name = seed.name then none else some (.of s e.kind) := by
  -- The other end is written as a cascade of tests in the source; where neither test holds
  -- there is no other end to look up.
  have hend : (if e.fromName = seed.name then self.symbolByName e.toName
      else if e.toName = seed.name then self.symbolByName e.fromName else none) =
        (e.otherEnd seed.name).bind self.symbolByName := by
    unfold Edge.otherEnd
    split
    case isTrue => rfl
    case isFalse => split <;> rfl
  rw [relatedBy, if_neg (not_not.mpr hkind)]
  dsimp only
  rw [hend]
  cases (e.otherEnd seed.name).bind self.symbolByName with
  | none => rfl
  | some s => rfl

/-- **What an edge gives a seed**: the first symbol of the name at its other end.
The edge is followed both ways; a name that no file declares gives nothing, and
neither does an edge from the seed to a symbol of its own name. -/
theorem relatedBy_eq_some_iff {self : InMemoryCkg} {seed : Symbol} {e : Edge} {r : RelatedSymbol} :
    self.relatedBy seed e = some r ↔
      e.kind ∈ relevant ∧ ∃ s, s.name ≠ seed.name ∧ e.Links seed.name s.name ∧
        self.symbolByName s.name = some s ∧ r = .of s e.kind := by
  by_cases hkind : e.kind ∈ relevant
  · rw [relatedBy_of_relevant hkind, and_iff_right hkind, Option.bind_eq_some_iff]
    constructor
    · rintro ⟨s, hs, hr⟩
      obtain ⟨name, hend, hs⟩ := Option.bind_eq_some_iff.mp hs
      obtain rfl := (symbolByName_eq_some hs).2
      -- A symbol is not shown as related to itself, which is the only edge that is followed
      -- in vain.
      by_cases hself : s.name = seed.name
      · rw [if_pos hself] at hr
        cases hr
      · rw [if_neg hself] at hr
        exact ⟨s, hself, (Edge.otherEnd_eq_some_iff hself).mp hend, hs, (Option.some.inj hr).symm⟩
    · rintro ⟨s, hself, hlink, hs, rfl⟩
      refine ⟨s, ?_, if_neg hself⟩
      rw [(Edge.otherEnd_eq_some_iff hself).mpr hlink]
      exact hs
  · rw [relatedBy, if_pos hkind]
    exact iff_of_false (fun h => by cases h) fun h => hkind h.1

/-- What a query answers is a symbol of the graph, related by one of its edges. -/
theorem mem_query {self : InMemoryCkg} {q : String} {r : RelatedSymbol} (h : r ∈ self.query q) :
    r.symbol ∈ self.symbols ∧ ∃ e ∈ self.edges, r.relation = e.kind := by
  have hout := List.mem_mergeSort.mp ((List.destutter_sublist _ _).subset h)
  obtain ⟨seed, -, hseed⟩ := List.mem_flatMap.mp hout
  obtain ⟨e, he, hr⟩ := List.mem_filterMap.mp hseed
  obtain ⟨-, s, -, -, hs, rfl⟩ := relatedBy_eq_some_iff.mp hr
  exact ⟨(symbolByName_eq_some hs).1, e, he, rfl⟩

theorem extend_parseAll_cons (u : Str.CharTables) (f : String × String)
    (files : List (String × String)) (m : InMemoryCkg) :
    m.extend (parseAll u (f :: files)) =
      (m.extend (parseSource u f.1 f.2)).extend (parseAll u files) := by
  simp [extend, parseAll]

/-- A graph of some files is what they are parsed to, one after the other. -/
theorem fromFiles_eq (u : Str.CharTables) (files : List (String × String)) :
    fromFiles u files = new.extend (parseAll u files) := by
  unfold fromFiles
  generalize new = g
  induction files generalizing g with
  | nil => exact g.extend_nil.symm
  | cons f files ih => rw [List.foldl_cons, ih, extend_parseAll_cons, ingestFile]

end InMemoryCkg

end Ckg

end AgenticIde
