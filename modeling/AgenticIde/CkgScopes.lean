/-
AgenticIde/CkgScopes.lean

The blocks of a source file, and the declarations of an `impl` block.

A file is given line by line, with its `impl` headers and its declarations told apart
(`SourceLine`).  A header is written from its parts, with parameters, a trait and whatever
may stand before `impl`; a declaration from its keyword, its name and whatever is around
them.  So the type of a header and the name of a declaration are the parts they are written
from, and not what the parser makes of the line.  `Scopes` follows the braces: the blocks
that are open, each with the type of its header if it has one.  The owner of a declaration
(`ownerAt`) is the type of the innermost `impl` block it is in.

The source parser looks at no brace.  It gives what it reads as a declaration to the last
line above that it takes for a header, under the type it reads there (`registered`).  The
two agree just where each line is taken for what it is (`TakenAsWritten`,
`implScoped_iff`).  This fails in three ways: where the block of the last header is closed,
where a header is misread, as one with parameters is, and where a line is misread, as a
comment that mentions a declaration is.  Where every line is read as it is written only the
first is left (`implScoped_iff_of_read`).

The law is about the edges of a file, and is proved line by line: an edge has the number of
its line, so two lists of edges are equal exactly where they are at every line, and the
edges between a header and its trait are the same on both sides.
-/
import AgenticIde.CkgHeaders
import AgenticIde.CkgLines

namespace AgenticIde

namespace Ckg

open Str

/-! ### Blocks -/

/-- The blocks that are open, innermost first, and what the next one belongs to. -/
structure Scopes where
  pending : Option String
  stack : List (Option String)
  deriving DecidableEq

namespace Scopes

/-- Before the first line. -/
def init : Scopes := ⟨none, []⟩

/-- A character: a brace opens a block, or closes one. -/
def brace (s : Scopes) (c : Char) : Scopes :=
  if c = '\x7b' then ⟨none, s.pending :: s.stack⟩
  else if c = '\x7d' then ⟨s.pending, s.stack.tail⟩
  else s

/-- Some text. -/
def scan (s : Scopes) (cs : List Char) : Scopes := cs.foldl brace s

/-- The type of the innermost `impl` block. -/
def innermost (s : Scopes) : Option String := s.stack.findSome? id

end Scopes

/-! ### Lines -/

/-- The header of an `impl` block as it is written: what may stand before `impl`, the
parameters of the block, the trait with its arguments, the type, and the rest of the line. -/
structure ImplLine where
  lead : List Char
  params : Option (List Char)
  trait : Option (List Char)
  type : String
  rest : List Char

/-- The line of a header. -/
def ImplLine.raw (h : ImplLine) : List Char :=
  h.lead ++ ("impl".toList ++ (angle h.params ++ ' ' ::
    ((h.trait.elim [] fun trait => trait ++ " for ".toList) ++ (h.type.toList ++ h.rest))))

/-- What an `impl` block may have inside of it. -/
inductive ItemKind
  | fn
  | struct
  | trait
  | mod
  deriving DecidableEq

namespace ItemKind

/-- The keyword of a declaration. -/
def keyword : ItemKind → String
  | fn => "fn"
  | struct => "struct"
  | trait => "trait"
  | mod => "mod"

/-- How an `impl` block has it: it contains functions, and defines the others. -/
def relation : ItemKind → EdgeKind
  | fn => .contains
  | struct => .defines
  | trait => .defines
  | mod => .defines

end ItemKind

/-- A declaration as it is written: what may stand before the keyword, what is between it and
the name, and the rest of the line. -/
structure DeclLine where
  lead : List Char
  kind : ItemKind
  gap : List Char
  name : String
  rest : List Char

/-- The line of a declaration. -/
def DeclLine.raw (d : DeclLine) : List Char :=
  d.lead ++ (d.kind.keyword.toList ++ (d.gap ++ (d.name.toList ++ d.rest)))

/-- A line of a source file: the header of an `impl` block, the declaration of a function, a
structure, a trait or a module, or a line that is neither. -/
inductive SourceLine
  | header (h : ImplLine)
  | decl (d : DeclLine)
  | other (raw : List Char)

namespace SourceLine

/-- What is on the line. -/
def raw : SourceLine → List Char
  | header h => h.raw
  | decl d => d.raw
  | other raw => raw

/-- The type of a header. -/
def implType : SourceLine → Option String
  | header h => some h.type
  | _ => none

/-- What the line declares, and how an `impl` block has it. -/
def declared : SourceLine → Option (EdgeKind × String)
  | decl d => some (d.kind.relation, d.name)
  | _ => none

end SourceLine

/-- A line.  Behind `impl`, the next block is that of the header; behind the keyword of a
declaration it is that of the declaration. -/
def Scopes.line (s : Scopes) : SourceLine → Scopes
  | .header h => Scopes.scan ⟨some h.type, (s.scan h.lead).stack⟩ (h.raw.drop h.lead.length)
  | .decl d => Scopes.scan ⟨none, (s.scan d.lead).stack⟩ (d.raw.drop d.lead.length)
  | .other raw => s.scan raw

/-- The blocks that are open after some lines. -/
def scopes (lines : List SourceLine) : Scopes := lines.foldl Scopes.line .init

/-- The type of the innermost `impl` block that the declaration on a line is in. -/
def ownerAt (pre : List SourceLine) : SourceLine → Option String
  | .decl d => ((scopes pre).scan d.lead).innermost
  | _ => none

/-- The edge by which the `impl` block of a type has what a line declares. -/
def ownedEdges (owner : Option String) (declared : Option (EdgeKind × String)) (file : String)
    (lineno : Nat) : List Edge :=
  match declared with
  | some (kind, name) => ownedEdge owner kind name file lineno
  | none => []

/-! ### What is read -/

/-- The type of what is read as an `impl` header. -/
def Reading.implType : Reading → Option String
  | .impl implType _ => some implType
  | _ => none

/-- What a line is read to declare. -/
def Reading.declared : Reading → Option (EdgeKind × String)
  | .type _ name => some (.defines, name)
  | .fn name => some (.contains, name)
  | _ => none

/-- The edge of what is read as an `impl` header to its trait. -/
def Reading.traitEdges (file : String) (lineno : Nat) : Reading → List Edge
  | .impl implType traitName => traitEdge implType traitName file lineno
  | _ => []

section

variable (u : CharTables)

/-- The type of the last line that is read as an `impl` header, as it is read. -/
def registered (lines : List (List Char)) : Option String :=
  lines.reverse.findSome? fun raw => (readLine u raw).implType

/-- The edges of a line that are to be: a header is related to its trait as it is read, and a
declaration to the `impl` block it is in. -/
def scopedEdges (file : String) (p : List SourceLine × SourceLine) : List Edge :=
  (readLine u p.2.raw).traitEdges file (p.1.length + 1) ++
    ownedEdges (ownerAt p.1 p.2) p.2.declared file (p.1.length + 1)

/-- An `impl` block has what is declared inside of its braces, and nothing else.
Compared are all edges of the two kinds, in the order of the lines, with what the
braces say. -/
def ImplScoped (file content : String) (lines : List SourceLine) : Prop :=
  (parseSource u file content).2.filter (fun e => e.kind = .contains ∨ e.kind = .defines) =
    (places lines).flatMap (scopedEdges u file)

/-- The parser takes a line for what it is.  Inside of an `impl` block, the last header above
is read with the type of the block, and the line with the declaration that is on it; elsewhere,
no header is read above, or no declaration on the line. -/
structure TakenAsWritten (pre : List SourceLine) (line : SourceLine) : Prop where
  inside : ∀ implType ∈ ownerAt pre line,
    registered u (pre.map SourceLine.raw) = some implType ∧
      (readLine u line.raw).declared = line.declared
  outside : ownerAt pre line = none →
    registered u (pre.map SourceLine.raw) = none ∨ (readLine u line.raw).declared = none

end

variable {u : CharTables}

/-- `impl A {`, without parameters. -/
def ImplLine.plain (type : String) : ImplLine := ⟨[], none, none, type, " \x7b".toList⟩

/-- `fn f() {}` behind some blanks. -/
def DeclLine.plainFn (blanks name : String) : DeclLine :=
  ⟨blanks.toList, .fn, [' '], name, "() \x7b\x7d".toList⟩

example :
    ownerAt [.header (.plain "A"), .decl (.plainFn "  " "f")] (.decl (.plainFn "  " "g")) =
      some "A" := by
  decide

example : ownerAt [.header (.plain "A"), .other ['\x7d']] (.decl (.plainFn "" "g")) = none := by
  decide

/-! ### Headers -/

theorem registers_currentImpl (lines : List (List Char)) :
    (registers u lines).currentImpl = registered u lines := by
  induction lines using List.reverseRecOn with
  | nil => rfl
  | append_singleton lines raw ih =>
      rw [registers_concat, registered, List.reverse_concat, List.findSome?_cons]
      cases readLine u raw with
      | impl implType traitName => rfl
      | doc _ => exact ih
      | type _ _ => exact ih
      | fn _ => exact ih
      | use => exact ih
      | other => exact ih

/-- The type of the last `impl` header of some lines. -/
def lastImpl (lines : List SourceLine) : Option String :=
  lines.reverse.findSome? SourceLine.implType

/-- No block is that of an `impl` header, and none is waiting for its brace. -/
def Scopes.Plain (s : Scopes) : Prop := s.pending = none ∧ ∀ owner ∈ s.stack, owner = none

theorem Scopes.Plain.scan {s : Scopes} (h : s.Plain) (cs : List Char) : (s.scan cs).Plain := by
  induction cs generalizing s with
  | nil => exact h
  | cons c cs ih =>
      apply ih
      unfold Scopes.brace
      split
      case isTrue => exact ⟨rfl, List.forall_mem_cons.mpr h⟩
      case isFalse =>
        split
        case isTrue => exact ⟨h.1, fun owner howner => h.2 owner (List.mem_of_mem_tail howner)⟩
        case isFalse => exact h

theorem Scopes.Plain.innermost {s : Scopes} (h : s.Plain) : s.innermost = none :=
  List.findSome?_eq_none_iff.mpr fun owner howner => h.2 owner howner

/-- Without an `impl` header there is no `impl` block. -/
theorem plain_scopes {lines : List SourceLine} (h : lastImpl lines = none) :
    (scopes lines).Plain := by
  have hheaders := List.findSome?_eq_none_iff.mp h
  unfold scopes
  -- The blocks are followed from the front, so the induction is on the last line.
  induction lines using List.reverseRecOn with
  | nil => exact ⟨rfl, List.forall_mem_nil _⟩
  | append_singleton lines line ih =>
      rw [List.foldl_append]
      have hlines : ∀ line ∈ lines.reverse, line.implType = none :=
        fun line hline => hheaders line (by simpa using .inr (List.mem_reverse.mp hline))
      have hrest := ih (List.findSome?_eq_none_iff.mpr hlines) hlines
      cases line with
      -- A declaration opens a block of its own, which has no type of a header.
      | header header => exact absurd (hheaders (.header header) (by simp)) nofun
      | decl d =>
          have hdecl : Scopes.Plain ⟨none, ((scopes lines).scan d.lead).stack⟩ :=
            ⟨rfl, (hrest.scan d.lead).2⟩
          exact hdecl.scan _
      | other raw => exact hrest.scan raw

/-- The last header is that of the block a declaration is in, if it is so where there is a
header. -/
theorem lastImpl_eq_ownerAt_iff {pre : List SourceLine} {d : DeclLine} :
    lastImpl pre = ownerAt pre (.decl d) ↔
      ∀ implType, lastImpl pre = some implType → ownerAt pre (.decl d) = some implType := by
  constructor
  · exact fun h implType himpl => h ▸ himpl
  · intro h
    cases himpl : lastImpl pre with
    | none => exact ((plain_scopes himpl).scan _).innermost.symm
    | some implType => exact (h implType himpl).symm

/-! ### The law -/

@[simp] theorem ownedEdges_none_left (declared : Option (EdgeKind × String)) (file : String)
    (lineno : Nat) : ownedEdges none declared file lineno = [] := by
  cases declared <;> rfl

@[simp] theorem ownedEdges_none_right (owner : Option String) (file : String) (lineno : Nat) :
    ownedEdges owner none file lineno = [] := rfl

/-- A block and a declaration can be read off their edge. -/
theorem ownedEdges_eq_some_iff {owner : Option String} {declared : Option (EdgeKind × String)}
    {t file : String} {d : EdgeKind × String} {lineno : Nat} :
    ownedEdges owner declared file lineno = ownedEdges (some t) (some d) file lineno ↔
      owner = some t ∧ declared = some d := by
  constructor
  · intro h
    cases declared with
    | none => cases h
    | some d' =>
        cases owner with
        | none => cases h
        | some t' =>
            obtain ⟨hname, hto, hkind, -, -⟩ := Edge.mk.inj (List.singleton_inj.mp h)
            exact ⟨congrArg some (implName_inj.mp hname),
              congrArg some (Prod.ext_iff.mpr ⟨hkind, hto⟩)⟩
  · rintro ⟨rfl, rfl⟩
    rfl

theorem ownedEdges_eq_nil_iff {owner : Option String} {declared : Option (EdgeKind × String)}
    {file : String} {lineno : Nat} :
    ownedEdges owner declared file lineno = [] ↔ owner = none ∨ declared = none := by
  cases declared with
  | none => simp
  | some d => cases owner <;> simp [ownedEdges, ownedEdge]

/-- What is in an `impl` block is a declaration. -/
theorem exists_declared_of_ownerAt {pre : List SourceLine} {line : SourceLine} {t : String}
    (h : ownerAt pre line = some t) : ∃ d, line.declared = some d := by
  cases line with
  | header _ => cases h
  | decl d => exact ⟨_, rfl⟩
  | other _ => cases h

theorem line_of_mem_ownedEdges {owner : Option String} {declared : Option (EdgeKind × String)}
    {file : String} {lineno : Nat} {e : Edge} (h : e ∈ ownedEdges owner declared file lineno) :
    e.line = lineno := by
  cases declared with
  | none => cases h
  | some d => exact line_of_mem_ownedEdge h

theorem line_of_mem_traitEdges {reading : Reading} {file : String} {lineno : Nat} {e : Edge}
    (h : e ∈ reading.traitEdges file lineno) : e.line = lineno := by
  cases reading with
  | impl _ _ => exact line_of_mem_traitEdge h
  | _ => cases h

theorem line_of_mem_scopedEdges {file : String} (p : List SourceLine × SourceLine) (e : Edge)
    (h : e ∈ scopedEdges u file p) : e.line = p.1.length + 1 :=
  (List.mem_append.mp h).elim line_of_mem_traitEdges line_of_mem_ownedEdges

/-- The edges between `impl` blocks and what they have, of a line. -/
def ownEdgesAt (u : CharTables) (file : String) (p : List (List Char) × List Char) : List Edge :=
  (edgesAt u file p).filter fun e => e.kind = .contains ∨ e.kind = .defines

theorem line_of_mem_ownEdgesAt {file : String} (p : List (List Char) × List Char) (e : Edge)
    (h : e ∈ ownEdgesAt u file p) : e.line = p.1.length + 1 :=
  line_of_mem_edgesAt p e (List.mem_of_mem_filter h)

/-- A header is given its trait, and a declaration to the last header above it, as read. -/
theorem ownEdgesAt_eq (file : String) (p : List (List Char) × List Char) :
    ownEdgesAt u file p =
      (readLine u p.2).traitEdges file (p.1.length + 1) ++
        ownedEdges (registered u p.1) (readLine u p.2).declared file (p.1.length + 1) := by
  rw [ownEdgesAt, edgesAt, ← registers_currentImpl]
  cases readLine u p.2 with
  | doc _ => rfl
  | impl _ _ =>
      rw [Reading.traitEdges, edgesOf]
      refine (List.filter_eq_self.mpr ?_).trans (List.append_nil _).symm
      intro e he
      unfold traitEdge at he
      split at he
      case isTrue => cases he
      case isFalse =>
        rw [List.mem_singleton.mp he]
        rfl
  | type _ _ =>
      apply List.filter_eq_self.mpr
      intro e he
      obtain ⟨t, -, rfl⟩ := Option.map_eq_some_iff.mp (Option.mem_toList.mp he)
      rfl
  | fn _ =>
      apply List.filter_eq_self.mpr
      intro e he
      obtain ⟨t, -, rfl⟩ := Option.map_eq_some_iff.mp (Option.mem_toList.mp he)
      rfl
  | use =>
      apply List.filter_eq_nil_iff.mpr
      intro e he
      obtain ⟨target, -, rfl⟩ := List.mem_map.mp he
      exact Bool.false_ne_true
  | other =>
      -- what is left of a line are calls
      apply List.filter_eq_nil_iff.mpr
      intro e he
      cases hfn : (registers u p.1).currentFn with
      | none =>
          rw [edgesOf, hfn] at he
          cases he
      | some fname =>
          rw [edgesOf, hfn] at he
          obtain ⟨callee, -, rfl⟩ := List.mem_map.mp he
          exact Bool.false_ne_true

/-- A line has the edges it is to have, if it is taken for what it is. -/
theorem ownEdgesAt_eq_scopedEdges_iff {file : String} {pre : List SourceLine} {line : SourceLine} :
    ownEdgesAt u file (pre.map SourceLine.raw, line.raw) = scopedEdges u file (pre, line) ↔
      TakenAsWritten u pre line := by
  rw [ownEdgesAt_eq, scopedEdges, List.length_map, List.append_cancel_left_eq]
  -- Outside of every block nothing may be related; inside, one edge is asked for, and it
  -- says both the type and the declaration.
  cases howner : ownerAt pre line with
  | none =>
      rw [ownedEdges_none_left, ownedEdges_eq_nil_iff]
      constructor
      · intro h
        exact ⟨fun t ht => absurd (howner.symm.trans ht) nofun, fun _ => h⟩
      · exact fun h => h.outside howner
  | some t =>
      obtain ⟨d, hd⟩ := exists_declared_of_ownerAt howner
      rw [hd, ownedEdges_eq_some_iff, ← hd]
      constructor
      · intro h
        refine ⟨fun t' ht' => ?_, fun hnone => absurd (howner.symm.trans hnone) nofun⟩
        obtain rfl := Option.some.inj (howner.symm.trans ht')
        exact h
      · exact fun h => h.inside t howner

/-- A file has the edges it is to have, if every line has. -/
theorem implScoped_iff_lines {file content : String} {lines : List SourceLine}
    (hlines : linesFrom [] content.toList = lines.map SourceLine.raw) :
    ImplScoped u file content lines ↔
      ∀ p ∈ places lines,
        ownEdgesAt u file (p.1.map SourceLine.raw, p.2.raw) = scopedEdges u file p := by
  have hown : ∀ p : List SourceLine × SourceLine, ∀ e,
      e ∈ ownEdgesAt u file (p.1.map SourceLine.raw, p.2.raw) → e.line = p.1.length + 1 := by
    intro p e he
    rw [line_of_mem_ownEdgesAt _ e he, List.length_map]
  rw [ImplScoped, parseSource_eq, hlines, places_map, List.filter_flatMap, List.flatMap_map]
  exact flatMap_places_eq_iff hown line_of_mem_scopedEdges

/-- Headers that are read as they are written are registered so. -/
theorem registered_of_read {lines : List SourceLine}
    (hread : ∀ line ∈ lines, (readLine u line.raw).implType = line.implType) :
    registered u (lines.map SourceLine.raw) = lastImpl lines := by
  induction lines using List.reverseRecOn with
  | nil => rfl
  | append_singleton lines line ih =>
      have hrest := ih fun line' h => hread line' (List.mem_append_left _ h)
      rw [List.map_append, List.map_singleton, registered, lastImpl, List.reverse_concat,
        List.reverse_concat, List.findSome?_cons, List.findSome?_cons,
        hread line (List.mem_append_right _ (List.mem_singleton_self line))]
      cases line.implType with
      | some implType => rfl
      | none => exact hrest

/-- A declaration among lines that are read as they are written is taken for what it is, if
the last header is that of its block. -/
theorem takenAsWritten_decl_iff {pre : List SourceLine} {d : DeclLine}
    (hpre : ∀ line ∈ pre, (readLine u line.raw).implType = line.implType)
    (hdecl : (readLine u d.raw).declared = (SourceLine.decl d).declared) :
    TakenAsWritten u pre (.decl d) ↔ lastImpl pre = ownerAt pre (.decl d) := by
  have hregistered := registered_of_read hpre
  constructor
  · intro h
    rw [← hregistered]
    cases howner : ownerAt pre (.decl d) with
    | none =>
        -- the declaration is read as one, so there is no header to read
        rcases h.outside howner with hnone | hnone
        · exact hnone
        · exact absurd (hdecl.symm.trans hnone) nofun
    | some t => exact (h.inside t howner).1
  · intro h
    exact ⟨fun t ht => ⟨hregistered.trans (h.trans ht), hdecl⟩,
      fun hnone => .inl (hregistered.trans (h.trans hnone))⟩

/-- Where every line is read as it is written, `impl` blocks have what is inside of them
exactly if at every declaration below a header the block of the last one is the innermost that
is open. -/
theorem implScoped_iff_of_read {file content : String} {lines : List SourceLine}
    (hlines : linesFrom [] content.toList = lines.map SourceLine.raw)
    (hheaders : ∀ line ∈ lines, (readLine u line.raw).implType = line.implType)
    (hdecls : ∀ line ∈ lines, (readLine u line.raw).declared = line.declared) :
    ImplScoped u file content lines ↔
      ∀ pre d, (pre, SourceLine.decl d) ∈ places lines →
        ∀ implType, lastImpl pre = some implType → ownerAt pre (.decl d) = some implType := by
  have htaken : ∀ pre line, (pre, line) ∈ places lines →
      (TakenAsWritten u pre line ↔
        ∀ d, line = .decl d → lastImpl pre = ownerAt pre (.decl d)) := by
    intro pre line hp
    obtain ⟨post, rfl⟩ := mem_places_iff.mp hp
    have hpre : ∀ line' ∈ pre, (readLine u line'.raw).implType = line'.implType :=
      fun line' h => hheaders line' (List.mem_append_left _ h)
    have hline := hdecls line (List.mem_append_right _ List.mem_cons_self)
    cases line with
    | decl d =>
        rw [takenAsWritten_decl_iff hpre hline]
        simp
    -- neither a header nor any other line is read to declare something
    | header h => exact iff_of_true ⟨nofun, fun _ => .inr hline⟩ nofun
    | other raw => exact iff_of_true ⟨nofun, fun _ => .inr hline⟩ nofun
  rw [implScoped_iff_lines hlines, Prod.forall]
  constructor
  · intro h pre d hp
    have hdecl := (htaken pre _ hp).mp (ownEdgesAt_eq_scopedEdges_iff.mp (h pre _ hp)) d rfl
    exact lastImpl_eq_ownerAt_iff.mp hdecl
  · intro h pre line hp
    refine ownEdgesAt_eq_scopedEdges_iff.mpr ((htaken pre line hp).mpr ?_)
    rintro d rfl
    exact lastImpl_eq_ownerAt_iff.mpr (h pre d hp)

end Ckg

end AgenticIde
