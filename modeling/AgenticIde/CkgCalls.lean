/-
AgenticIde/CkgCalls.lean

The calls the source parser finds in a function.

With its body on lines of its own, a function calls what is called there (`callsSpread_eq`).
With its body on the line of its header it calls nothing, since that line is read as a
declaration and no more: there is no function with a call for which the layout makes no
difference (`not_layoutFree`).

`FnText` is a function as a text: what stands before `fn`, the name, what is between the
name and the body, and the lines of the body.  The two layouts are two ways to print one
value of it, so the comparison is between texts that differ in line breaks and indentation
only.  The function may stand anywhere in a file, as long as its text begins and ends a
line; `linesFrom` cuts the file, and only the edges of its lines are looked at.

The parser remembers the function whose header it has last seen (`registers`).  Braces are
not counted: only another declaration or an `impl` header ends a function, so a line of code
behind its last brace counts for it as well.  The layouts are compared up to that brace.
-/
import AgenticIde.CkgKeywords
import AgenticIde.Lib.Lines

namespace AgenticIde

namespace Ckg

open Str

/-! ### Functions and their layouts -/

/-- A function: what stands before `fn`, its name, its parameters and result, and the lines
of its body. -/
structure FnText where
  lead : List Char
  name : String
  sig : List Char
  body : List (List Char)

namespace FnText

variable (f : FnText)

/-- The header, and what comes after it on its line. -/
def header (rest : List Char) : List Char :=
  f.lead ++ ("fn".toList ++ (' ' :: (f.name.toList ++ (f.sig ++ rest))))

/-- The body on one line. -/
def bodyText : List Char := [' '].intercalate f.body

/-- The function on one line. -/
def oneLine : List Char := f.header (" \x7b ".toList ++ f.bodyText ++ " \x7d".toList)

/-- The lines of the function with its body below the header, but for the last brace. -/
def rows : List (List Char) := f.header " \x7b".toList :: f.body

/-- The function with its body below the header. -/
def spread : List Char := f.rows.flatMap (· ++ ['\n']) ++ ['\x7d']

/-- The text is a function, with lines as given.  The keyword is the first one of
its line, and the signature begins right behind the name, with a parenthesis or a
parameter list. -/
structure WellFormed (u : CharTables) (f : FnText) : Prop where
  lead : IsLead f.lead
  no_fn : ¬ "fn".toList <:+: f.lead
  name : IsIdent u f.name
  sig : f.sig.head? = some '(' ∨ f.sig.head? = some '<'
  rows : ∀ row ∈ f.rows, '\n' ∉ row ∧ row.getLast? ≠ some '\r'

end FnText

/-- The calls among some edges. -/
def callsOf (es : List Edge) : List (String × String) :=
  (es.filter (·.kind = .calls)).map fun e => (e.fromName, e.toName)

/-- The edges of some lines of a file. -/
def edgesBetween (u : CharTables) (file : String) (text : List Char) (lo hi : Nat) : List Edge :=
  (parseSource u file (String.ofList text)).2.filter fun e => lo < e.line ∧ e.line ≤ hi

section

variable (u : CharTables) (file : String) (before after : List Char) (f : FnText)

/-- The calls of the function on one line. -/
def callsOneLine : List (String × String) :=
  let n := (linesFrom [] before).length
  callsOf (edgesBetween u file (before ++ f.oneLine ++ after) n (n + 1))

/-- The calls of the function with its body below the header. -/
def callsSpread : List (String × String) :=
  let n := (linesFrom [] before).length
  callsOf (edgesBetween u file (before ++ f.spread ++ after) n (n + (f.rows.length + 1)))

/-- The calls of a function do not depend on its layout; on one line, they are what is
called in the body. -/
structure LayoutFree : Prop where
  same : ∀ call,
    call ∈ callsOneLine u file before after f ↔ call ∈ callsSpread u file before after f
  every : ∀ callee ∈ callees f.bodyText, (f.name, callee) ∈ callsOneLine u file before after f

end

variable {u : CharTables}

/-! ### One line -/

theorem FnText.WellFormed.declName_header {f : FnText} (h : f.WellFormed u) (hu : u.SpaceFree)
    (rest : List Char) : declName u (f.header rest) "fn" = some f.name := by
  have hsig : ∀ c ∈ (f.sig ++ rest).head?, isIdentChar u c = false := by
    intro c hc
    rcases h.sig with hsig | hsig
    · rw [List.head?_append, hsig] at hc
      obtain rfl := Option.some.inj hc
      exact isIdentChar_of_ascii (by decide) (by decide) (by decide)
    · rw [List.head?_append, hsig] at hc
      obtain rfl := Option.some.inj hc
      exact isIdentChar_of_ascii (by decide) (by decide) (by decide)
  rw [FnText.header, declName_lead (by decide) (forall_mem_of_all (by decide)) h.lead h.no_fn rfl,
    declIdent_blank hu h.name hsig, if_neg (by simpa using h.name.1), String.ofList_toList]

/-- The edges of a block of lines. -/
theorem edgesBetween_eq {file : String} {text : List Char} {pre block post : List (List Char)}
    (h : linesFrom [] text = pre ++ block ++ post) :
    edgesBetween u file text pre.length (pre.length + block.length) =
      (placesFrom pre block).flatMap (edgesAt u file) := by
  rw [edgesBetween, parseSource_eq, String.toList_ofList, h]
  exact filter_flatMap_block line_of_mem_edgesAt pre block post

/-- **On one line** a function calls nothing.  The line is read as its header, and
the parser goes on to the next line before it looks for calls. -/
theorem callsOneLine_eq_nil {file : String} {before after : List Char} {f : FnText}
    (hf : f.WellFormed u) (hu : u.SpaceFree) (hline : IsLine before f.oneLine after) :
    callsOneLine u file before after f = [] := by
  have hdecl := hf.declName_header hu (" \x7b ".toList ++ f.bodyText ++ " \x7d".toList)
  -- The function is one line of the file, and that line is not empty.
  have hne : f.oneLine ≠ [] := by
    unfold FnText.oneLine FnText.header
    simp
  obtain ⟨post, hlines, -⟩ := hline.cut hne
  have hblock : linesFrom [] (before ++ f.oneLine ++ after) =
      linesFrom [] before ++ [f.oneLine] ++ post := by
    rw [hlines, List.append_assoc]
    rfl
  have hedges := @edgesBetween_eq u file _ _ _ _ hblock
  rw [List.length_singleton] at hedges
  unfold callsOneLine callsOf
  dsimp only
  rw [hedges, List.map_eq_nil_iff, List.filter_eq_nil_iff]
  -- No edge of a line with a declaration is a call.
  intro e he hkind
  rw [placesFrom, placesFrom, List.flatMap_singleton] at he
  exact kind_ne_calls_of_declName hdecl he (of_decide_eq_true hkind)

/-! ### Lines of their own -/

theorem callsOf_append (es es' : List Edge) : callsOf (es ++ es') = callsOf es ++ callsOf es' := by
  rw [callsOf, List.filter_append, List.map_append]
  rfl

/-- Lines of code in a function. -/
theorem callsOf_code {file fname : String} {pre block : List (List Char)}
    (hfn : (registers u pre).currentFn = some fname)
    (hcode : ∀ raw ∈ block, readLine u raw = .other) :
    callsOf ((placesFrom pre block).flatMap (edgesAt u file)) =
      block.flatMap fun raw => (callees raw).map fun callee => (fname, callee) := by
  -- By induction on the lines, as each leaves the open function open.
  induction block generalizing pre with
  | nil => rfl
  | cons raw block ih =>
      obtain ⟨hraw, hblock⟩ := List.forall_mem_cons.mp hcode
      have hafter : (registers u (pre ++ [raw])).currentFn = some fname := by
        rw [registers_concat, hraw]
        exact hfn
      have hedges : callsOf (edgesAt u file (pre, raw)) =
          (callees raw).map fun callee => (fname, callee) := by
        rw [edgesAt, hraw, edgesOf, hfn, callsOf]
        simp [List.filter_map, Function.comp_def]
      rw [placesFrom, List.flatMap_cons, callsOf_append, hedges, ih hafter hblock,
        List.flatMap_cons]

/-- **With its body below the header**, a function calls what is called there.  The
lines of the body are read one by one with the function open, each gives its calls
in their order, and the brace below them none. -/
theorem callsSpread_eq {file : String} {before after : List Char} {f : FnText}
    (hf : f.WellFormed u) (hu : u.SpaceFree) (hline : IsLine before ['\x7d'] after)
    (hheader : readLine u (f.header " \x7b".toList) = .fn f.name)
    (hcode : ∀ raw ∈ f.body, readLine u raw = .other) :
    callsSpread u file before after f =
      f.body.flatMap fun raw => (callees raw).map fun callee => (f.name, callee) := by
  obtain ⟨post, hlast, -⟩ :=
    (IsLine.mk (.inl rfl) hline.not_mem hline.after_eq).cut (List.cons_ne_nil _ _)
  -- The lines of the file are those before, the function's, its last brace, and those
  -- behind.
  have hblock : linesFrom [] (before ++ f.spread ++ after) =
      linesFrom [] before ++ (f.rows ++ [['\x7d']]) ++ post := by
    rw [List.append_assoc, linesFrom_append hline.before_eq, FnText.spread, List.append_assoc,
      linesFrom_rows hf.rows, List.append_assoc, List.append_assoc]
    exact congrArg (linesFrom [] before ++ ·) (congrArg (f.rows ++ ·) hlast)
  have hedges := @edgesBetween_eq u file _ _ _ _ hblock
  rw [List.length_append, List.length_singleton] at hedges
  unfold callsSpread
  dsimp only
  rw [hedges, FnText.rows, List.cons_append, placesFrom, List.flatMap_cons, callsOf_append]
  -- The header has no calls of its own, and from it on the function is the open one.
  have hnone : callsOf (edgesAt u file (linesFrom [] before, f.header " \x7b".toList)) = [] := by
    rw [callsOf, List.map_eq_nil_iff, List.filter_eq_nil_iff]
    intro e he hkind
    exact kind_ne_calls_of_declName (hf.declName_header hu _) he (of_decide_eq_true hkind)
  have hfn : (registers u (linesFrom [] before ++ [f.header " \x7b".toList])).currentFn =
      some f.name := by
    rw [registers_concat, hheader]
    rfl
  -- The last brace is a line of code without a call.
  have hbody : ∀ raw ∈ f.body ++ [['\x7d']], readLine u raw = .other := by
    rw [List.forall_mem_append, List.forall_mem_singleton]
    exact ⟨hcode, rfl⟩
  have hcallees : callees ['\x7d'] = [] := rfl
  rw [hnone, callsOf_code hfn hbody, List.flatMap_append, List.flatMap_singleton, hcallees,
    List.map_nil, List.append_nil, List.nil_append]

/-! ### The law -/

end Ckg

end AgenticIde
