/-
AgenticIde/CkgHeaders.lean

The `impl` headers of a source file.

`ImplText` is a header as it is written: parameters, a trait, the type, all with whatever
arguments.  The source parser takes the first identifier after the first ` for ` of the line
for the type, and without any the first one after `impl` or after the `<` there.  So a
header is read right exactly where that identifier is the type, and a trait is found exactly
where the block has no parameters (`headerParsed_iff`).

What is found is the symbol of the block and the edge to its trait, on the line of the
header and in a file with any other lines (`HeaderParsed`).  The entries of a line carry its
number, so the question is first brought down to how that line is read
(`headerParsed_iff_readLine`).

From there on it is a matter of one text, cut at the first ` for `.  That need not be the
one the header was written with: a parameter may be bounded by `for<'a>`, and then the cut
is inside the parameters, or there is no trait and the cut is inside the arguments of the
type.  The lemmas therefore start from where the text is cut, and ask what stands on either
side of the cut (`exists_before`, `firstIdent_more`).
-/
import AgenticIde.CkgKeywords
import AgenticIde.Lib.Find

namespace AgenticIde

namespace Ckg

open Str

/-! ### Headers -/

/-- Text in angle brackets, if any. -/
def angle : Option (List Char) → List Char
  | none => []
  | some ps => '<' :: (ps ++ ['>'])

/-- An `impl` header: the parameters of the block, the trait and its arguments, the type and
its arguments. -/
structure ImplText where
  indent : List Char
  params : Option (List Char)
  trait : Option (String × Option (List Char))
  type : String
  args : Option (List Char)

namespace ImplText

variable (h : ImplText)

/-- The trait and `for`. -/
def traitText : List Char :=
  match h.trait with
  | none => []
  | some (name, args) => name.toList ++ (angle args ++ " for ".toList)

/-- What comes after `impl`. -/
def tail : List Char :=
  angle h.params ++ (' ' :: (h.traitText ++ (h.type.toList ++ (angle h.args ++ " \x7b".toList))))

/-- The header as it is written. -/
def text : List Char := h.indent ++ ("impl".toList ++ h.tail)

/-- The header is indented, if at all, and names a type and a trait.  Nothing is
asked of the parameters and the arguments. -/
structure WellFormed (u : CharTables) (h : ImplText) : Prop where
  indent : ∀ c ∈ h.indent, c = ' ' ∨ c = '\t'
  type : IsIdent u h.type
  trait : ∀ t ∈ h.trait, IsIdent u t.1 ∧ t.1 ≠ "for"

/-- What the parser takes for the type is the type, and nothing is between `impl` and the
trait. -/
def Plain (u : CharTables) (h : ImplText) : Prop :=
  match splitOnceSub " for ".toList h.text with
  | none => ∀ ps ∈ h.params, firstIdent u ps = h.type.toList
  | some (_, after) => firstIdent u after = h.type.toList ∧ (h.trait.isSome → h.params = none)

end ImplText

/-- The header on a line is found: the symbol of the block, and the edge to its
trait.  The symbol is the only one of the line, under the name of the type. -/
structure HeaderParsed (u : CharTables) (file content : String) (lineno : Nat) (h : ImplText) :
    Prop where
  symbol : ((parseSource u file content).1.filter (·.line = lineno)).map
    (fun s => (s.kind, s.name)) = [(.impl, s!"impl {h.type}")]
  trait : ∀ t ∈ h.trait,
    ⟨s!"impl {h.type}", t.1, .defines, file, lineno⟩ ∈ (parseSource u file content).2

variable {u : CharTables} {h : ImplText}

/-! ### The line of a header -/

theorem ImplText.WellFormed.trimStartChars_indent (hwf : h.WellFormed u) (rest : List Char) :
    trimStartChars (h.indent ++ ("impl".toList ++ rest)) = "impl".toList ++ rest := by
  have hindent : ∀ c ∈ h.indent, isWhitespace c = true := by
    intro c hc
    rcases hwf.indent c hc with rfl | rfl
    · rfl
    · rfl
  rw [trimStartChars, List.dropWhile_append_of_pos hindent]
  rfl

theorem ImplText.WellFormed.trimStartChars_text (hwf : h.WellFormed u) :
    trimStartChars h.text = "impl".toList ++ h.tail :=
  hwf.trimStartChars_indent h.tail

theorem ImplText.WellFormed.isLead (hwf : h.WellFormed u) : IsLead h.indent := by
  rcases List.eq_nil_or_concat h.indent with hnil | ⟨front, c, hfront⟩
  · exact .inl hnil
  · right
    rw [List.concat_eq_append] at hfront
    refine ⟨c, by rw [hfront, List.getLast?_concat], ?_⟩
    rcases hwf.indent c (by rw [hfront]; simp) with rfl | rfl
    · rfl
    · rfl

/-- What is read from the line of a header is what is read as a header. -/
theorem ImplText.WellFormed.readLine_eq_impl_iff (hwf : h.WellFormed u)
    {implType traitName : String} :
    readLine u h.text = .impl implType traitName ↔
      implHeader u h.text = some (implType, traitName) := by
  have hdoc : stripPrefixChars "///".toList (trimStartChars h.text) = none := by
    rw [hwf.trimStartChars_text]
    rfl
  unfold readLine
  rw [hdoc]
  dsimp only
  -- The header is tried before anything but a doc comment, so once there is one the other
  -- tests do not matter; and where there is none the line is not read as a header.
  cases implHeader u h.text with
  | some header => simp [Prod.ext_iff]
  | none =>
      apply iff_of_false
      · cases typeDecl u h.text with
        | some decl => exact nofun
        | none =>
        cases declName u h.text "fn" with
        | some name => exact nofun
        | none => cases stripPrefixChars "use ".toList (trimStartChars h.text) <;> exact nofun
      · exact nofun

/-- Without ` for `, the type is looked for after `impl`. -/
theorem ImplText.WellFormed.implHeader_none (hwf : h.WellFormed u)
    (hfor : splitOnceSub " for ".toList h.text = none) {traitName : String} :
    implHeader u h.text = some (h.type, traitName) ↔
      declIdent u h.tail = h.type.toList ∧ traitName = "" := by
  -- The keyword is looked for from the start of the line, and the indentation has none.
  have hnot : ¬ "impl".toList <:+: h.indent := by
    intro hsub
    rcases hwf.indent 'i' (hsub.subset (by decide)) with hi | hi
    · exact absurd hi (by decide)
    · exact absurd hi (by decide)
  have hstart : h.tail.head?.all startsBoundary = true := by
    unfold ImplText.tail angle
    cases h.params with
    | none => rfl
    | some ps => rfl
  have hne := hwf.type.1
  rw [implHeader, hwf.trimStartChars_text, stripPrefixChars_append, hfor]
  dsimp only
  rw [ImplText.text, declName_lead (by decide) (forall_mem_of_all (by decide)) hwf.isLead hnot
      hstart]
  by_cases hident : declIdent u h.tail = []
  · simp [hident, Ne.symm hne]
  · have hident' : String.ofList (declIdent u h.tail) ≠ "" := by simpa using hident
    have hempty : (declIdent u h.tail).isEmpty = false := List.isEmpty_eq_false_iff.mpr hident
    rw [hempty, if_neg Bool.false_ne_true, Option.getD_some, if_neg hident', Option.some_inj,
      Prod.mk.injEq, ← String.toList_inj, String.toList_ofList, eq_comm (a := "")]

/-- What comes before ` for ` starts with `impl`. -/
theorem ImplText.WellFormed.exists_before (hwf : h.WellFormed u) {before after : List Char}
    (hfor : splitOnceSub " for ".toList h.text = some (before, after)) :
    ∃ more, before = h.indent ++ ("impl".toList ++ more) ∧
      h.tail = more ++ (" for ".toList ++ after) := by
  have hparts := splitOnceSub_parts hfor
  have hno : ∀ c ∈ h.indent ++ "impl".toList, c ≠ 'f' := by
    rw [List.forall_mem_append]
    refine ⟨fun c hc => ?_, forall_mem_of_all (by decide)⟩
    rcases hwf.indent c hc with rfl | rfl
    · decide
    · decide
  have htext : h.text = (h.indent ++ "impl".toList) ++ h.tail := (List.append_assoc _ _ _).symm
  have hstart : h.indent ++ "impl".toList <+: before := by
    have himpl : h.indent ++ "impl".toList <+: h.text := ⟨h.tail, htext.symm⟩
    have hbefore : before <+: h.text := ⟨" for ".toList ++ after, hparts.symm⟩
    rcases List.prefix_or_prefix_of_prefix himpl hbefore with hstart | ⟨d, hd⟩
    · exact hstart
    · -- ` for ` would start before the end of `impl`
      rw [htext, ← hd, List.append_assoc, List.append_cancel_left_eq] at hparts
      match d with
      | [] =>
          rw [List.append_nil] at hd
          exact ⟨[], by rw [List.append_nil, hd]⟩
      | [c] =>
          have hlast := congrArg List.getLast? hd
          rw [List.getLast?_concat, List.getLast?_append] at hlast
          obtain rfl := (Option.some.inj hlast : c = 'l')
          exact absurd (List.cons.inj hparts).1 (by decide)
      | c :: c' :: d =>
          have hc' := (List.cons.inj (List.cons.inj hparts).2).1
          exact absurd hc' (hno c' (hd ▸ by simp))
  obtain ⟨more, hmore⟩ := hstart
  rw [htext, ← hmore, List.append_assoc (h.indent ++ "impl".toList) more,
    List.append_cancel_left_eq] at hparts
  exact ⟨more, by rw [← hmore, List.append_assoc], hparts⟩

/-- With ` for `, the type is looked for after it, and the trait between it and `impl`. -/
theorem ImplText.WellFormed.implHeader_some (hwf : h.WellFormed u) {more after : List Char}
    (hfor : splitOnceSub " for ".toList h.text =
      some (h.indent ++ ("impl".toList ++ more), after)) {traitName : String} :
    implHeader u h.text = some (h.type, traitName) ↔
      firstIdent u after = h.type.toList ∧ traitName = String.ofList (firstIdent u more) := by
  have hbefore : trimStartChars (h.indent ++ ("impl".toList ++ more)) = "impl".toList ++ more :=
    hwf.trimStartChars_indent more
  rw [implHeader, hwf.trimStartChars_text, stripPrefixChars_append, hfor]
  dsimp only
  rw [hbefore, stripPrefixChars_append, Option.getD_some]
  change (if String.ofList (firstIdent u after) = "" then none
    else some (String.ofList (firstIdent u after), String.ofList (firstIdent u more))) = _ ↔ _
  by_cases hident : firstIdent u after = []
  · simp [hident, Ne.symm hwf.type.1]
  · have hident' : String.ofList (firstIdent u after) ≠ "" := by simpa using hident
    rw [if_neg hident', Option.some_inj, Prod.mk.injEq, ← @String.toList_inj (String.ofList _),
      String.toList_ofList, eq_comm (b := traitName)]

/-! ### What is found -/

theorem head?_angle (args : Option (List Char)) {rest : List Char}
    (hrest : ∀ c ∈ rest.head?, isIdentChar u c = false) :
    ∀ c ∈ (angle args ++ rest).head?, isIdentChar u c = false := by
  cases args with
  | none => exact hrest
  | some ps =>
      intro c hc
      obtain rfl := Option.some.inj hc
      exact isIdentChar_of_ascii (by decide) (by decide) (by decide)

theorem head?_blank (rest : List Char) :
    ∀ c ∈ (' ' :: rest).head?, isIdentChar u c = false := by
  intro c hc
  obtain rfl := Option.some.inj hc
  exact isIdentChar_of_ascii (by decide) (by decide) (by decide)

/-- After `impl`, the type is found if there are no parameters, and else the first of them. -/
theorem ImplText.WellFormed.declIdent_tail (hwf : h.WellFormed u) (hu : u.SpaceFree)
    (htrait : h.trait = none) :
    declIdent u h.tail = h.type.toList ↔ ∀ ps ∈ h.params, firstIdent u ps = h.type.toList := by
  unfold ImplText.tail ImplText.traitText
  rw [htrait]
  -- With parameters the first identifier behind the `<` is one of theirs, whatever follows
  -- the `>`.
  cases hparams : h.params with
  | none =>
      apply iff_of_true
      · exact declIdent_blank hu hwf.type (head?_angle h.args (head?_blank _))
      · exact nofun
  | some ps =>
      have hparam : declIdent u (angle (some ps) ++
          (' ' :: ([] ++ (h.type.toList ++ (angle h.args ++ " \x7b".toList))))) =
            firstIdent u ps := by
        have happend : firstIdent u (ps ++
            '>' :: (' ' :: ([] ++ (h.type.toList ++ (angle h.args ++ " \x7b".toList))))) =
              firstIdent u ps :=
          firstIdent_append_cons (isIdentChar_of_ascii (by decide) (by decide) (by decide)) rfl
        rw [← happend]
        simp [angle, declIdent, firstIdent, stripPrefixChars]
      rw [hparam]
      simp

theorem isIdent_for : IsIdent u "for" := by
  refine ⟨by decide, ?_⟩
  have hletter : ∀ c : Char, c.toNat < 128 → c.isAlphanum = true → isIdentChar u c = true := by
    intro c hascii hc
    rw [isIdentChar, u.ascii c hascii, hc, Bool.true_or]
  rw [show "for".toList = ['f', 'o', 'r'] from rfl]
  simp only [List.forall_mem_cons]
  exact ⟨hletter _ (by decide) (by decide), hletter _ (by decide) (by decide),
    hletter _ (by decide) (by decide), List.forall_mem_nil _⟩

/-- ` for ` does not start before the end of a name other than `for`. -/
theorem exists_more (hu : u.SpaceFree) {name : String} (hname : IsIdent u name)
    (hne : name ≠ "for") {rest more after : List Char}
    (hrest : ∀ c ∈ rest.head?, isIdentChar u c = false)
    (hmore : ' ' :: (name.toList ++ rest) = more ++ (" for ".toList ++ after)) :
    ∃ m, more = ' ' :: (name.toList ++ m) ∧ ∀ c ∈ m.head?, isIdentChar u c = false := by
  have hstart : ' ' :: name.toList <+: ' ' :: (name.toList ++ rest) := ⟨rest, rfl⟩
  have hbefore : more <+: ' ' :: (name.toList ++ rest) := ⟨" for ".toList ++ after, hmore.symm⟩
  rcases List.prefix_or_prefix_of_prefix hstart hbefore with ⟨m, rfl⟩ | ⟨d, hd⟩
  · refine ⟨m, rfl, fun c hc => hrest c ?_⟩
    rw [List.cons_append, List.cons_append, List.append_assoc] at hmore
    rw [List.append_cancel_left (List.cons.inj hmore).2, List.head?_append, hc]
    rfl
  · cases more with
    | nil =>
        -- the name would be `for`
        have hfor : firstIdent u (' ' :: ("for".toList ++ (' ' :: after))) = "for".toList :=
          firstIdent_blank hu isIdent_for (head?_blank after)
        have heq : ' ' :: (name.toList ++ rest) = ' ' :: ("for".toList ++ (' ' :: after)) := hmore
        rw [← heq, firstIdent_blank hu hname hrest] at hfor
        exact absurd (String.toList_inj.mp hfor) hne
    | cons c m =>
        rw [List.cons_append] at hd
        obtain ⟨rfl, hm⟩ := List.cons.inj hd
        cases d with
        | nil =>
            rw [List.append_nil] at hm
            exact ⟨[], by rw [hm, List.append_nil], nofun⟩
        | cons e d =>
            -- a blank would be part of the name
            have hname' := hname.2
            rw [← hm] at hmore hname'
            rw [List.cons_append, List.append_assoc] at hmore
            have he : e = ' ' :=
              (List.cons.inj (List.append_cancel_left (List.cons.inj hmore).2)).1
            have hident := hname' e (by simp)
            rw [he, head?_blank [] ' ' rfl] at hident
            cases hident

/-- Between `impl` and ` for `, the trait is found if there are no parameters, and else
nothing. -/
theorem ImplText.WellFormed.firstIdent_more (hwf : h.WellFormed u) (hu : u.SpaceFree)
    {more after : List Char} (hmore : h.tail = more ++ (" for ".toList ++ after))
    {t : String × Option (List Char)} (ht : h.trait = some t) :
    t.1 = String.ofList (firstIdent u more) ↔ h.params = none := by
  obtain ⟨⟨hne, hident⟩, hfor⟩ := hwf.trait t ht
  cases hparams : h.params with
  | some ps =>
      -- With parameters the text before the cut begins with `<`, which is no character of a
      -- name.
      apply iff_of_false _ nofun
      rw [← String.toList_inj, String.toList_ofList]
      cases more with
      | nil =>
          rw [ImplText.tail, hparams] at hmore
          exact absurd (List.cons.inj hmore).1 (by decide)
      | cons c more =>
          rw [ImplText.tail, hparams] at hmore
          obtain rfl := (List.cons.inj hmore).1
          have hnone : firstIdent u ('<' :: more) = [] := by
            have hopen : firstIdent u ([] ++ '<' :: more) = firstIdent u [] :=
              firstIdent_append_cons (isIdentChar_of_ascii (by decide) (by decide) (by decide)) rfl
            exact hopen
          rw [hnone]
          exact hne
  | none =>
      apply iff_of_true _ rfl
      rw [← String.toList_inj, String.toList_ofList]
      -- Without any it begins with the trait, and the cut is behind the trait: the name has
      -- no blank in it.
      obtain ⟨rest, htail, hrest⟩ : ∃ rest, h.tail = ' ' :: (t.1.toList ++ rest) ∧
          ∀ c ∈ rest.head?, isIdentChar u c = false := by
        have hblank : " for ".toList = ' ' :: "for ".toList := rfl
        refine ⟨angle t.2 ++ (' ' :: ("for ".toList ++ (h.type.toList ++
          (angle h.args ++ " \x7b".toList)))), ?_, head?_angle t.2 (head?_blank _)⟩
        rw [ImplText.tail, ImplText.traitText, hparams, ht, hblank]
        simp only [angle, List.nil_append, List.append_assoc, List.cons_append]
      obtain ⟨m, rfl, hm⟩ := exists_more hu ⟨hne, hident⟩ hfor hrest (htail.symm.trans hmore)
      exact (firstIdent_blank hu ⟨hne, hident⟩ hm).symm

/-! ### The law -/

/-- A header is found exactly where it is read as one of the type and the trait. -/
theorem headerParsed_iff_readLine {file content : String} {pre : List (List Char)}
    (hwf : h.WellFormed u) (hp : (pre, h.text) ∈ places (linesFrom [] content.toList)) :
    HeaderParsed u file content (pre.length + 1) h ↔
      ∃ traitName, readLine u h.text = .impl h.type traitName ∧
        ∀ t ∈ h.trait, t.1 = traitName := by
  have hsymbols := @filter_symbols u file content pre h.text hp
  have hedges := @filter_edges u file content pre h.text hp
  have hedge : ∀ e : Edge, e.line = pre.length + 1 →
      (e ∈ (parseSource u file content).2 ↔ e ∈ edgesAt u file (pre, h.text)) := by
    intro e he
    rw [← hedges, List.mem_filter, and_iff_left (decide_eq_true he)]
  constructor
  · rintro ⟨hsymbol, htrait⟩
    rw [hsymbols, symbolsAt] at hsymbol
    -- Of the readings only a header gives the symbol of a block.
    cases hreading : readLine u h.text with
    | doc _ => rw [hreading] at hsymbol; cases hsymbol
    | use => rw [hreading] at hsymbol; cases hsymbol
    | other => rw [hreading] at hsymbol; cases hsymbol
    | fn _ => rw [hreading] at hsymbol; cases hsymbol
    | type kind name =>
        rw [hreading] at hsymbol
        have hkind := (Prod.mk.inj (List.cons.inj hsymbol).1).1
        exact absurd hkind (kind_ne_impl_of_readLine hreading)
    | impl implType traitName =>
        rw [hreading] at hsymbol
        have htype := (Prod.mk.inj (List.cons.inj hsymbol).1).2
        obtain rfl := implName_inj.mp htype
        refine ⟨traitName, rfl, fun t ht => ?_⟩
        have he := (hedge _ rfl).mp (htrait t ht)
        rw [edgesAt, hreading, edgesOf, traitEdge] at he
        split at he
        case isTrue => cases he
        case isFalse => exact (Edge.mk.inj (List.mem_singleton.mp he)).2.1
  · rintro ⟨traitName, hreading, htrait⟩
    constructor
    · rw [hsymbols, symbolsAt, hreading]
      rfl
    · intro t ht
      rw [hedge _ rfl, edgesAt, hreading, edgesOf, traitEdge, htrait t ht]
      -- The source leaves out the edge to a trait with an empty name; a trait has a name.
      have hne : traitName ≠ "" := by
        rintro rfl
        have hident := (hwf.trait t ht).1.1
        rw [htrait t ht] at hident
        exact hident rfl
      rw [if_neg hne]
      exact List.mem_singleton_self _

/-- **A header is found** exactly where the first identifier after the first ` for
`, or without any the first parameter, is the type, and a trait has no parameters
before it. Of any other header the parser takes another name for the type, or none,
or misses the edge to the trait. -/
theorem headerParsed_iff (hu : u.SpaceFree) {file content : String} {pre : List (List Char)}
    (hwf : h.WellFormed u) (hp : (pre, h.text) ∈ places (linesFrom [] content.toList)) :
    HeaderParsed u file content (pre.length + 1) h ↔ h.Plain u := by
  rw [headerParsed_iff_readLine hwf hp, ImplText.Plain]
  cases hfor : splitOnceSub " for ".toList h.text with
  | none =>
      -- A header with a trait has ` for ` in it.
      have htrait : h.trait = none := by
        by_contra hsome
        obtain ⟨t, ht⟩ := Option.ne_none_iff_exists'.mp hsome
        apply splitOnceSub_eq_none_iff.mp hfor
        refine ⟨h.indent ++ ("impl".toList ++
            (angle h.params ++ (' ' :: (t.1.toList ++ angle t.2)))),
          h.type.toList ++ (angle h.args ++ " \x7b".toList), ?_⟩
        rw [ImplText.text, ImplText.tail, ImplText.traitText, ht]
        simp only [List.append_assoc, List.cons_append]
      rw [← hwf.declIdent_tail hu htrait]
      constructor
      · rintro ⟨traitName, hreading, -⟩
        exact ((hwf.implHeader_none hfor).mp (hwf.readLine_eq_impl_iff.mp hreading)).1
      · intro hident
        refine ⟨"", hwf.readLine_eq_impl_iff.mpr ((hwf.implHeader_none hfor).mpr ⟨hident, rfl⟩), ?_⟩
        rw [htrait]
        exact nofun
  | some parts =>
      obtain ⟨before, after⟩ := parts
      -- The cut may be anywhere behind `impl`; only what stands directly on its two sides
      -- counts.
      obtain ⟨more, rfl, hmore⟩ := hwf.exists_before hfor
      constructor
      · rintro ⟨traitName, hreading, htrait⟩
        obtain ⟨hident, rfl⟩ := (hwf.implHeader_some hfor).mp (hwf.readLine_eq_impl_iff.mp hreading)
        refine ⟨hident, fun hsome => ?_⟩
        obtain ⟨t, ht⟩ := Option.isSome_iff_exists.mp hsome
        exact (hwf.firstIdent_more hu hmore ht).mp (htrait t ht)
      · rintro ⟨hident, hparams⟩
        refine ⟨_, hwf.readLine_eq_impl_iff.mpr ((hwf.implHeader_some hfor).mpr ⟨hident, rfl⟩), ?_⟩
        intro t ht
        exact (hwf.firstIdent_more hu hmore ht).mpr (hparams (Option.isSome_of_mem ht))

/-- `impl A for B` is found. -/
theorem headerParsed_plain :
    HeaderParsed .asciiOnly "a.rs" "impl A for B \x7b\n" 1
      ⟨[], none, some ("A", none), "B", none⟩ := by
  have hp : ([], ImplText.text ⟨[], none, some ("A", none), "B", none⟩) ∈
      places (linesFrom [] "impl A for B \x7b\n".toList) :=
    mem_places_iff.mpr ⟨[], by decide⟩
  have htrait : ∀ t ∈ some ("A", (none : Option (List Char))),
      IsIdent .asciiOnly t.1 ∧ t.1 ≠ "for" := by
    intro t ht
    obtain rfl := Option.some.inj ht
    exact ⟨⟨by decide, forall_mem_of_all (by decide)⟩, by decide⟩
  exact (headerParsed_iff spaceFree_asciiOnly
    ⟨List.forall_mem_nil _, ⟨by decide, forall_mem_of_all (by decide)⟩, htrait⟩ hp).mpr
      ⟨by decide, fun _ => rfl⟩

/-- The block of a generic type is named after its parameter. -/
theorem header_of_param_misread :
    ¬ HeaderParsed .asciiOnly "a.rs" "impl<T> Foo<T> \x7b\n" 1
      ⟨[], some "T".toList, none, "Foo", some "T".toList⟩ := by
  intro hparsed
  exact absurd hparsed.symbol (by decide +kernel)

end Ckg

end AgenticIde
