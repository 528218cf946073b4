/-
AgenticIde/CkgUses.lean

The `use` lines of a source file.

`UseText` is an import as it is written: a path, one name or names in braces, with aliases
and whatever spacing.  The source parser takes a line for an import if a space comes after
`use`.  It drops the aliases of names in braces, and takes the alias of a single name for
part of the name, so those two are all that an import may not have (`importsRead_iff`).

The names an import is to give are those that are written in it, without their aliases
(`UseTarget.names`): an alias is a name of the importing file, and the edge of an import
leads to what is imported.  An empty pair of braces imports nothing, and then nothing can be
missed, whatever follows `use`.

There are two halves.  The line must be read as an import and as nothing else, although the
keywords of declarations are looked for first, anywhere in the line; no part of a path is
such a keyword, and a keyword that decides is one of the pieces of the line between
characters that are in no name (`declName_eq_none`).  Then the text behind `use` is cut, at
the brace and the commas or at the last `::`, and each piece is trimmed
(`parseUseTargets_many`, `parseUseTargets_one`).
-/
import AgenticIde.CkgKeywords
import AgenticIde.Lib.Find
import AgenticIde.Lib.Lines

namespace AgenticIde

namespace Ckg

open Str

/-! ### Imports -/

/-- An alias: the blanks before and after `as`, and the name. -/
structure UseAlias where
  before : List Char
  after : List Char
  name : List Char

/-- A name that is imported, with the blanks around it. -/
structure UseMember where
  before : List Char
  name : List Char
  as : Option UseAlias
  after : List Char

/-- A part of the path, with the blanks around it. -/
structure UseSegment where
  before : List Char
  name : List Char
  after : List Char

/-- What is imported: a name, or names in braces with blanks at the end. -/
inductive UseTarget
  | one (member : UseMember)
  | many (members : List UseMember) (last : List Char)

/-- An import: the blanks before and after `use`, the path, what is imported, and the blanks
around the semicolon. -/
structure UseText where
  indent : List Char
  gap : List Char
  path : List UseSegment
  target : UseTarget
  close : List Char
  trail : List Char

namespace UseMember

/-- The name and its alias, as written. -/
def core (m : UseMember) : List Char :=
  match m.as with
  | none => m.name
  | some a => m.name ++ (a.before ++ ("as".toList ++ (a.after ++ a.name)))

/-- The member as written. -/
def text (m : UseMember) : List Char := m.before ++ (m.core ++ m.after)

end UseMember

/-- The part of the path as written. -/
def UseSegment.text (s : UseSegment) : List Char := s.before ++ (s.name ++ (s.after ++ "::".toList))

/-- What is imported, as written. -/
def UseTarget.text : UseTarget → List Char
  | .one m => m.text
  | .many ms last =>
      '\x7b' :: ([','].intercalate (ms.map UseMember.text) ++ (last ++ ['\x7d']))

/-- The names that are imported, before any alias. -/
def UseTarget.names : UseTarget → List (List Char)
  | .one m => [m.name]
  | .many ms _ => ms.map UseMember.name

namespace UseText

/-- The path as written. -/
def pathText (t : UseText) : List Char := t.path.flatMap UseSegment.text

/-- The import as written. -/
def text (t : UseText) : List Char :=
  t.indent ++ ("use".toList ++
    (t.gap ++ (t.pathText ++ (t.target.text ++ (t.close ++ (';' :: t.trail))))))

end UseText

/-- The keywords of declarations. -/
def declKeywords : List String := ["struct", "trait", "mod", "fn"]

/-- A text that may be part of a path: characters of names, and no keyword that
declares. -/
def IsUsePart (w : List Char) : Prop :=
  (∀ c ∈ w, isNameChar c = true) ∧ ∀ kw ∈ declKeywords, kw.toList ≠ w

/-- A name that may be imported. -/
def IsUseName (w : List Char) : Prop := w ≠ [] ∧ IsUsePart w

structure UseAlias.WellFormed (a : UseAlias) : Prop where
  before : Blank a.before
  before_ne : a.before ≠ []
  after : Blank a.after
  after_ne : a.after ≠ []
  name : IsUseName a.name

structure UseMember.WellFormed (m : UseMember) : Prop where
  before : Blank m.before
  name : IsUseName m.name
  as : ∀ a ∈ m.as, a.WellFormed
  after : Blank m.after

structure UseSegment.WellFormed (s : UseSegment) : Prop where
  before : Blank s.before
  name : IsUsePart s.name
  after : Blank s.after

def UseTarget.WellFormed : UseTarget → Prop
  | .one m => m.WellFormed
  | .many ms last => (∀ m ∈ ms, m.WellFormed) ∧ Blank last

structure UseText.WellFormed (t : UseText) : Prop where
  indent : Blank t.indent
  gap : Blank t.gap
  gap_ne : t.gap ≠ []
  path : ∀ s ∈ t.path, s.WellFormed
  target : t.target.WellFormed
  close : Blank t.close
  trail : Blank t.trail

/-- No single name has an alias. -/
def UseTarget.Plain : UseTarget → Prop
  | .one m => m.as = none
  | .many _ _ => True

/-- The imports of a line are the names that are imported, in their order and each
once for every time it is named. -/
def ImportsRead (u : CharTables) (file content : String) (lineno : Nat) (t : UseText) : Prop :=
  (((parseSource u file content).2.filter (·.line = lineno)).filter (·.kind = .imports)).map
    Edge.toName = t.target.names.map String.ofList

variable {u : CharTables}

/-! ### No keyword -/

section

variable {kw : String}

theorem ne_nil_of_mem_declKeywords (h : kw ∈ declKeywords) : kw.toList ≠ [] := by
  revert kw
  decide

theorem isNameChar_of_mem_declKeywords (h : kw ∈ declKeywords) :
    ∀ c ∈ kw.toList, isNameChar c = true := by
  have hall : (declKeywords.all fun kw => kw.toList.all isNameChar) = true := by decide
  exact List.all_eq_true.mp (List.all_eq_true.mp hall kw h)

theorem IsUsePart.not_mem_nameRuns {w : List Char} (h : IsUsePart w) (hkw : kw ∈ declKeywords) :
    kw.toList ∉ nameRuns w := by
  rw [nameRuns_name h.1]
  exact fun hmem => h.2 kw hkw (List.mem_singleton.mp hmem)

theorem isUsePart_as : IsUsePart "as".toList := ⟨forall_mem_of_all (by decide), by decide⟩

theorem isUsePart_use : IsUsePart "use".toList := ⟨forall_mem_of_all (by decide), by decide⟩

/-- No piece of a member is a keyword of declarations. -/
theorem UseMember.WellFormed.not_mem_nameRuns {m : UseMember} (h : m.WellFormed)
    (hkw : kw ∈ declKeywords) : kw.toList ∉ nameRuns m.text := by
  have hne := ne_nil_of_mem_declKeywords hkw
  rw [UseMember.text, mem_nameRuns_blank_append hne h.before,
    mem_nameRuns_append_blank hne h.after, UseMember.core]
  cases has : m.as with
  | none => exact h.name.2.not_mem_nameRuns hkw
  | some a =>
      -- With an alias there are three pieces, the name, `as` and the alias.
      have ha := h.as a has
      obtain ⟨b, bs, hb⟩ := List.exists_cons_of_ne_nil ha.before_ne
      obtain ⟨c, cs, hc⟩ := List.exists_cons_of_ne_nil ha.after_ne
      have hbefore := ha.before
      have hafter := ha.after
      rw [hb, blank_cons] at hbefore
      rw [hc, blank_cons] at hafter
      dsimp only
      rw [hb, hc, List.cons_append, nameRuns_append_cons (isNameChar_of_isWhitespace hbefore.1),
        List.mem_append, mem_nameRuns_blank_append hne hbefore.2, List.cons_append,
        nameRuns_append_cons (isNameChar_of_isWhitespace hafter.1), List.mem_append,
        mem_nameRuns_blank_append hne hafter.2, not_or, not_or]
      exact ⟨h.name.2.not_mem_nameRuns hkw, isUsePart_as.not_mem_nameRuns hkw,
        ha.name.2.not_mem_nameRuns hkw⟩

theorem UseSegment.WellFormed.mem_nameRuns {s : UseSegment} (h : s.WellFormed)
    (hkw : kw ∈ declKeywords) (rest : List Char) :
    kw.toList ∈ nameRuns (s.text ++ rest) ↔ kw.toList ∈ nameRuns rest := by
  have hne := ne_nil_of_mem_declKeywords hkw
  have htext : s.text ++ rest = s.before ++ ((s.name ++ s.after) ++ ':' :: ':' :: rest) := by
    simp [UseSegment.text]
  rw [htext, mem_nameRuns_blank_append hne h.before, nameRuns_append_cons (by decide),
    nameRuns_cons (by decide), List.mem_append, mem_nameRuns_append_blank hne h.after,
    List.mem_cons, or_iff_right (h.name.not_mem_nameRuns hkw), or_iff_right hne]

theorem mem_nameRuns_path {path : List UseSegment} (h : ∀ s ∈ path, s.WellFormed)
    (hkw : kw ∈ declKeywords) (rest : List Char) :
    kw.toList ∈ nameRuns (path.flatMap UseSegment.text ++ rest) ↔ kw.toList ∈ nameRuns rest := by
  induction path with
  | nil => rfl
  | cons s path ih =>
      obtain ⟨hs, hpath⟩ := List.forall_mem_cons.mp h
      rw [List.flatMap_cons, List.append_assoc, hs.mem_nameRuns hkw, ih hpath]

theorem not_mem_nameRuns_members {ms : List UseMember} (h : ∀ m ∈ ms, m.WellFormed)
    (hkw : kw ∈ declKeywords) :
    kw.toList ∉ nameRuns ([','].intercalate (ms.map UseMember.text)) := by
  induction ms with
  | nil => exact fun hmem => ne_nil_of_mem_declKeywords hkw (List.mem_singleton.mp hmem)
  | cons m ms ih =>
      obtain ⟨hm, hms⟩ := List.forall_mem_cons.mp h
      cases ms with
      | nil =>
          rw [List.map_singleton, List.intercalate_singleton]
          exact hm.not_mem_nameRuns hkw
      | cons m' ms =>
          rw [List.map_cons, List.map_cons, List.intercalate_cons_cons, List.append_assoc,
            List.singleton_append, nameRuns_append_cons (by decide), List.mem_append, not_or]
          exact ⟨hm.not_mem_nameRuns hkw, ih hms⟩

theorem UseTarget.WellFormed.not_mem_nameRuns {target : UseTarget} (h : target.WellFormed)
    (hkw : kw ∈ declKeywords) : kw.toList ∉ nameRuns target.text := by
  cases target with
  | one m => exact UseMember.WellFormed.not_mem_nameRuns h hkw
  | many ms last =>
      have hne := ne_nil_of_mem_declKeywords hkw
      have htext : UseTarget.text (.many ms last) =
          '\x7b' :: (([','].intercalate (ms.map UseMember.text) ++ last) ++ '\x7d' :: []) := by
        rw [UseTarget.text, List.append_assoc]
      rw [htext, nameRuns_cons (by decide), nameRuns_append_cons (by decide), List.mem_cons,
        List.mem_append, mem_nameRuns_append_blank hne h.2, not_or, not_or]
      exact ⟨hne, not_mem_nameRuns_members h.1 hkw, fun hmem => hne (List.mem_singleton.mp hmem)⟩

/-- **An import declares nothing.**  None of its words is a keyword that declares,
and a keyword decides only where it is a word. -/
theorem UseText.WellFormed.declName_eq_none {t : UseText} (h : t.WellFormed)
    (hkw : kw ∈ declKeywords) : declName u t.text kw = none := by
  by_contra hsome
  obtain ⟨name, hname⟩ := Option.ne_none_iff_exists'.mp hsome
  have hmem := mem_nameRuns_of_declName (isNameChar_of_mem_declKeywords hkw) hname
  have hne := ne_nil_of_mem_declKeywords hkw
  obtain ⟨c, gap, hgap⟩ := List.exists_cons_of_ne_nil h.gap_ne
  have hblank := h.gap
  rw [hgap, blank_cons] at hblank
  -- The text is taken apart from the left: the blanks and signs between its parts are in no
  -- name, so its pieces are `use`, the names of the path and those of the target.
  have htext : t.text = t.indent ++ ("use".toList ++ c :: (gap ++ (t.pathText ++
      ((t.target.text ++ t.close) ++ ';' :: t.trail)))) := by
    rw [UseText.text, hgap, List.cons_append, List.append_assoc]
  rw [htext, mem_nameRuns_blank_append hne h.indent,
    nameRuns_append_cons (isNameChar_of_isWhitespace hblank.1), List.mem_append,
    mem_nameRuns_blank_append hne hblank.2, UseText.pathText, mem_nameRuns_path h.path hkw,
    nameRuns_append_cons (by decide), List.mem_append, mem_nameRuns_append_blank hne h.close,
    ← List.append_nil t.trail, mem_nameRuns_blank_append hne h.trail] at hmem
  rcases hmem with hmem | hmem | hmem
  · exact isUsePart_use.not_mem_nameRuns hkw hmem
  · exact h.target.not_mem_nameRuns hkw hmem
  · exact hne (List.mem_singleton.mp hmem)

end

/-! ### Members -/

theorem isWhitespace_of_isNameChar {c : Char} (h : isNameChar c = true) :
    isWhitespace c = false := by
  rw [isNameChar, Bool.and_eq_true, Bool.not_eq_true'] at h
  exact h.1

/-- The first and the last character of a name are not blank. -/
theorem IsUseName.ends {w : List Char} (h : IsUseName w) :
    (∀ c ∈ w.head?, isWhitespace c = false) ∧ ∀ c ∈ w.getLast?, isWhitespace c = false := by
  have hall : ∀ c ∈ w, isWhitespace c = false := fun c hc =>
    isWhitespace_of_isNameChar (h.2.1 c hc)
  exact ⟨fun c hc => hall c (List.mem_of_head? hc), fun c hc => hall c (List.mem_of_getLast? hc)⟩

namespace UseMember.WellFormed

variable {m : UseMember}

theorem core_ne_nil (h : m.WellFormed) : m.core ≠ [] := by
  unfold UseMember.core
  cases m.as with
  | none => exact h.name.1
  | some a => simp [h.name.1]

/-- The name is the first word of a member. -/
theorem exists_core (h : m.WellFormed) :
    ∃ rest, m.core = m.name ++ rest ∧ (∀ c ∈ rest.head?, isWhitespace c = true) ∧
      (rest = [] ↔ m.as = none) := by
  unfold UseMember.core
  cases has : m.as with
  | none => exact ⟨[], (List.append_nil _).symm, nofun, iff_of_true rfl rfl⟩
  | some a =>
      have ha := h.as a has
      obtain ⟨b, bs, hb⟩ := List.exists_cons_of_ne_nil ha.before_ne
      refine ⟨_, rfl, ?_, ?_⟩
      · intro c hc
        rw [hb] at hc
        obtain rfl := Option.some.inj hc
        exact ha.before _ (hb ▸ List.mem_cons_self)
      · apply iff_of_false
        · simp [hb]
        · exact nofun

/-- Trimming a member leaves its name and its alias. -/
theorem trimChars_text (h : m.WellFormed) {gap : List Char} (hgap : Blank gap) :
    trimChars (m.text ++ gap) = m.core := by
  -- A name neither begins nor ends with a blank, and nor does an alias.
  have hfirst : ∀ c ∈ m.core.head?, isWhitespace c = false := by
    obtain ⟨rest, hcore, -⟩ := h.exists_core
    obtain ⟨c, cs, hname⟩ := List.exists_cons_of_ne_nil h.name.1
    have hends := h.name.ends.1
    rw [hname] at hcore hends
    rw [hcore]
    exact hends
  have hlast : ∀ c ∈ m.core.getLast?, isWhitespace c = false := by
    unfold UseMember.core
    cases has : m.as with
    | none => exact h.name.ends.2
    | some a =>
        have ha := (h.as a has).name
        dsimp only
        rw [List.getLast?_append_of_ne_nil _ (by simp), List.getLast?_append_of_ne_nil _ (by simp),
          List.getLast?_append_of_ne_nil _ (by simp [ha.1]), List.getLast?_append_of_ne_nil _ ha.1]
        exact ha.ends.2
  rw [UseMember.text, List.append_assoc, List.append_assoc]
  exact trimChars_append h.before (blank_append.mpr ⟨h.after, hgap⟩) h.core_ne_nil hfirst hlast

/-- **A member in braces** is its name: the first word, so that an alias behind it
is passed over. -/
theorem useMember_text (h : m.WellFormed) {gap : List Char} (hgap : Blank gap) :
    useMember (m.text ++ gap) = some (String.ofList m.name) := by
  obtain ⟨rest, hcore, hrest, -⟩ := h.exists_core
  have hname : ∀ c ∈ m.name, isWhitespace c = false := fun c hc =>
    isWhitespace_of_isNameChar (h.name.2.1 c hc)
  have hword : (wordsFrom [] m.core).headD m.core = m.name := by
    rw [List.headD_eq_head?_getD, hcore, head?_wordsFrom h.name.1 hname hrest]
    rfl
  have htrim : trimChars m.name = m.name := trimChars_eq h.name.ends.1 h.name.ends.2
  rw [useMember, h.trimChars_text hgap]
  dsimp only
  rw [hword, htrim, if_neg (by simpa using h.core_ne_nil), if_neg (by simpa using h.name.1)]

/-- The characters of a member are those of names, and blanks. -/
theorem mem_text (h : m.WellFormed) {c : Char} (hc : c ∈ m.text) :
    isWhitespace c = true ∨ isNameChar c = true := by
  rw [UseMember.text, List.mem_append, List.mem_append, UseMember.core] at hc
  rcases hc with hc | hc | hc
  · exact .inl (h.before c hc)
  · cases has : m.as with
    | none =>
        rw [has] at hc
        exact .inr (h.name.2.1 c hc)
    | some a =>
        have ha := h.as a has
        rw [has] at hc
        dsimp only at hc
        rw [List.mem_append, List.mem_append, List.mem_append, List.mem_append] at hc
        rcases hc with hc | hc | hc | hc | hc
        · exact .inr (h.name.2.1 c hc)
        · exact .inl (ha.before c hc)
        · exact .inr (isUsePart_as.1 c hc)
        · exact .inl (ha.after c hc)
        · exact .inr (ha.name.2.1 c hc)
  · exact .inl (h.after c hc)

theorem not_mem_text (h : m.WellFormed) {c : Char} (hspace : isWhitespace c = false)
    (hname : isNameChar c = false) : c ∉ m.text := by
  intro hc
  rcases h.mem_text hc with hc | hc
  · rw [hspace] at hc
    cases hc
  · rw [hname] at hc
    cases hc

end UseMember.WellFormed

/-- The parts between the commas of a braced list. -/
theorem exists_parts {ms : List UseMember} (h : ∀ m ∈ ms, m.WellFormed) {last : List Char}
    (hlast : Blank last) :
    ∃ parts, [','].intercalate (ms.map UseMember.text) ++ last = [','].intercalate parts ∧
      parts ≠ [] ∧ (∀ part ∈ parts, ',' ∉ part ∧ '\x7d' ∉ part) ∧
        parts.filterMap useMember = ms.map fun m => String.ofList m.name := by
  -- By induction on the members. The last part has the blanks before the brace, and is what
  -- is left of an empty list.
  induction ms with
  | nil =>
      refine ⟨[last], by simp, by simp, ?_, ?_⟩
      · rw [List.forall_mem_singleton]
        exact ⟨hlast.not_mem rfl, hlast.not_mem rfl⟩
      · have hnone : useMember last = none := by
          rw [useMember, trimChars_eq_nil_iff.mpr hlast]
          rfl
        rw [List.filterMap_cons_none hnone]
        rfl
  | cons m ms ih =>
      obtain ⟨hm, hms⟩ := List.forall_mem_cons.mp h
      have hcomma : ',' ∉ m.text := hm.not_mem_text rfl rfl
      have hbrace : '\x7d' ∉ m.text := hm.not_mem_text rfl rfl
      cases ms with
      | nil =>
          refine ⟨[m.text ++ last], by simp, by simp, ?_, ?_⟩
          · rw [List.forall_mem_singleton, List.mem_append, List.mem_append, not_or, not_or]
            exact ⟨⟨hcomma, hlast.not_mem rfl⟩, hbrace, hlast.not_mem rfl⟩
          · rw [List.filterMap_cons_some (hm.useMember_text hlast)]
            rfl
      | cons m' ms =>
          obtain ⟨parts, heq, hne, hparts, hnames⟩ := ih hms
          refine ⟨m.text :: parts, ?_, List.cons_ne_nil _ _, ?_, ?_⟩
          · obtain ⟨part, parts, rfl⟩ := List.exists_cons_of_ne_nil hne
            rw [List.map_cons, List.map_cons, List.intercalate_cons_cons,
              List.intercalate_cons_cons, List.append_assoc, ← heq, List.map_cons]
          · exact List.forall_mem_cons.mpr ⟨⟨hcomma, hbrace⟩, hparts⟩
          · have huse := hm.useMember_text blank_nil
            rw [List.append_nil] at huse
            rw [List.filterMap_cons_some huse, hnames]
            rfl

/-! ### What is imported -/

/-- An import without `use` and the semicolon. -/
def UseText.body (t : UseText) : List Char := t.pathText ++ (t.target.text ++ t.close)

/-- The characters of a path are those of names, blanks, and colons. -/
theorem mem_path {path : List UseSegment} (h : ∀ s ∈ path, s.WellFormed) {c : Char}
    (hc : c ∈ path.flatMap UseSegment.text) :
    isWhitespace c = true ∨ isNameChar c = true ∨ c = ':' := by
  obtain ⟨s, hs, hc⟩ := List.mem_flatMap.mp hc
  have hwf := h s hs
  rw [UseSegment.text, List.mem_append, List.mem_append, List.mem_append] at hc
  rcases hc with hc | hc | hc | hc
  · exact .inl (hwf.before c hc)
  · exact .inr (.inl (hwf.name.1 c hc))
  · exact .inl (hwf.after c hc)
  · have hcolons : c ∈ [':', ':'] := hc
    exact .inr (.inr (by simpa using hcolons))

namespace UseText.WellFormed

variable {t : UseText}

/-- What is cut is the body of the import: `use` and the semicolon are taken off,
and the blanks around. -/
theorem parseUseTargets_eq (h : t.WellFormed) {gap : List Char} (hgap : t.gap = ' ' :: gap) :
    parseUseTargets t.text =
      match splitOnceChars (· == '\x7b') (trimChars t.body) with
      | some (_, inner) =>
          (splitAtFrom ',' [] (inner.takeWhile (· != '\x7d'))).filterMap useMember
      | none =>
          let seg := trimChars (lastSegment "::".toList (trimChars t.body))
          if seg.isEmpty then [] else [String.ofList seg] := by
  have hblank := h.gap
  rw [hgap, blank_cons] at hblank
  have htext : t.text = t.indent ++
      (("use ".toList ++ ((gap ++ t.body) ++ [';'])) ++ t.trail) := by
    rw [UseText.text, UseText.body, hgap]
    simp
  -- The line ends with the semicolon, behind which there is nothing but blanks.
  have htrim : trimChars t.text = "use ".toList ++ ((gap ++ t.body) ++ [';']) := by
    rw [htext]
    apply trimChars_append h.indent h.trail
    · simp
    · intro c hc
      obtain rfl := Option.some.inj hc
      rfl
    · intro c hc
      rw [← List.append_assoc, List.getLast?_concat] at hc
      obtain rfl := Option.some.inj hc
      rfl
  have hbody : trimChars (gap ++ t.body) = trimChars t.body :=
    Blank.trimChars_append hblank.2 t.body
  unfold parseUseTargets
  cases hsplit : splitOnceChars (· == '\x7b') (trimChars t.body) with
  | none =>
      simp only [htrim, stripPrefixChars_append, Option.getD_some, List.getLast?_concat, if_true,
        List.dropLast_concat, hbody, hsplit]
  | some _ =>
      simp only [htrim, stripPrefixChars_append, Option.getD_some, List.getLast?_concat, if_true,
        List.dropLast_concat, hbody, hsplit]

/-- **Names in braces** are found, without their aliases.  The list ends at the
closing brace, and a comma behind its last member adds no name. -/
theorem parseUseTargets_many (h : t.WellFormed) {gap : List Char} (hgap : t.gap = ' ' :: gap)
    {ms : List UseMember} {last : List Char} (htarget : t.target = .many ms last) :
    parseUseTargets t.text = ms.map fun m => String.ofList m.name := by
  have hwf := h.target
  rw [htarget] at hwf
  obtain ⟨parts, hparts, hne, hclean, hnames⟩ := exists_parts hwf.1 hwf.2
  have hbody : t.body = t.pathText ++ '\x7b' ::
      ([','].intercalate parts ++ '\x7d' :: t.close) := by
    rw [UseText.body, htarget, UseTarget.text, ← hparts]
    simp
  -- No brace is in the path, so the first one of the body opens the list.
  have hpath : ∀ c ∈ t.pathText, (c == '\x7b') = false := by
    intro c hc
    rw [beq_eq_false_iff_ne]
    rintro rfl
    rcases mem_path h.path hc with hc | hc | hc <;> exact absurd hc (by decide)
  have hsplit : splitOnceChars (· == '\x7b') t.body =
      some (t.pathText, [','].intercalate parts ++ '\x7d' :: t.close) :=
    splitOnceChars_eq_some_iff.mpr ⟨'\x7b', hbody, rfl, hpath⟩
  -- None is in the members either, so the first closing one ends it.
  have hbrace : '\x7d' ∉ [','].intercalate parts :=
    not_mem_intercalate (by decide) fun part hpart => (hclean part hpart).2
  have hinner : (([','].intercalate parts ++ '\x7d' :: t.close).rdropWhile isWhitespace).takeWhile
      (· != '\x7d') = [','].intercalate parts := by
    rw [rdropWhile_append_cons (by rfl), List.takeWhile_append_of_pos fun c hc => ?_,
      List.takeWhile_cons_of_neg (by decide), List.append_nil]
    rw [bne_iff_ne]
    rintro rfl
    exact hbrace hc
  rw [h.parseUseTargets_eq hgap, splitOnceChars_trimChars (fun c hc => ?_), hsplit,
    Option.map_some]
  · dsimp only
    rw [hinner, splitAtFrom_intercalate (fun part hpart => (hclean part hpart).1) hne, hnames]
  · rw [beq_iff_eq] at hc
    rw [hc]
    rfl

/-- **A single name** is found with its alias: what is behind the last path
separator is taken as it is. -/
theorem parseUseTargets_one (h : t.WellFormed) {gap : List Char} (hgap : t.gap = ' ' :: gap)
    {m : UseMember} (htarget : t.target = .one m) :
    parseUseTargets t.text = [String.ofList m.core] := by
  have hm := h.target
  rw [htarget] at hm
  have hm : m.WellFormed := hm
  have hbody : t.body = t.pathText ++ (m.text ++ t.close) := by rw [UseText.body, htarget]; rfl
  -- No colon is in the member, so the last `::` of the body is the one before it.
  have hcolon : ':' ∉ m.text ++ t.close := by
    rw [List.mem_append, not_or]
    exact ⟨hm.not_mem_text rfl rfl, h.close.not_mem rfl⟩
  have hnone : splitOnceChars (· == '\x7b') (trimChars t.body) = none := by
    apply splitOnceChars_eq_none_iff.mpr
    intro c hc
    obtain ⟨lead, trail, hcs, -⟩ := exists_trimmed t.body
    have hmem : c ∈ t.body := by
      rw [hcs]
      exact List.mem_append_left _ (List.mem_append_right _ hc)
    rw [hbody, List.mem_append, List.mem_append] at hmem
    rw [beq_eq_false_iff_ne]
    rintro rfl
    rcases hmem with hmem | hmem | hmem
    · rcases mem_path h.path hmem with hc | hc | hc <;> exact absurd hc (by decide)
    · exact hm.not_mem_text rfl rfl hmem
    · exact h.close.not_mem rfl hmem
  have hcolons : "::".toList = [':', ':'] := rfl
  have hseg : trimChars (lastSegment "::".toList (trimChars t.body)) = m.core := by
    rw [hcolons]
    -- Without a path the segment is the member itself; with one it is what follows the last
    -- `::`.
    rcases List.eq_nil_or_concat t.path with hpath | ⟨path, s, hpath⟩
    · have hcore : ':' ∉ m.core := fun hmem => hm.not_mem_text rfl rfl
        (List.mem_append_right _ (List.mem_append_left _ hmem))
      rw [hbody, UseText.pathText, hpath, List.flatMap_nil, List.nil_append,
        hm.trimChars_text h.close, lastSegment_of_not_mem hcore, ← hm.trimChars_text h.close,
        trimChars_trimChars]
    · have hsplit : t.body = (path.flatMap UseSegment.text ++ (s.before ++ (s.name ++ s.after))) ++
          ':' :: ':' :: (m.text ++ t.close) := by
        rw [hbody, UseText.pathText, hpath, List.concat_eq_append, List.flatMap_append]
        simp [UseSegment.text]
      have hend : (':' :: (m.text ++ t.close)).rdropWhile isWhitespace =
          ':' :: (m.text ++ t.close).rdropWhile isWhitespace :=
        rdropWhile_append_cons rfl [] (m.text ++ t.close)
      have hcolon' : ':' ∉ (m.text ++ t.close).rdropWhile isWhitespace :=
        fun hmem => hcolon ((List.rdropWhile_prefix _ _).subset hmem)
      rw [hsplit, trimChars_append_cons rfl, hend, lastSegment_append hcolon',
        trimChars_rdropWhile, hm.trimChars_text h.close]
  rw [h.parseUseTargets_eq hgap, hnone]
  dsimp only
  rw [hseg, if_neg (by simpa using hm.core_ne_nil)]

end UseText.WellFormed

/-! ### The law -/

namespace UseText.WellFormed

variable {t : UseText}

theorem trimStartChars_text (h : t.WellFormed) :
    trimStartChars t.text = "use".toList ++ (t.gap ++ (t.body ++ (';' :: t.trail))) := by
  have hassoc : t.pathText ++ (t.target.text ++ (t.close ++ (';' :: t.trail))) =
      t.body ++ (';' :: t.trail) := by
    rw [UseText.body, List.append_assoc, List.append_assoc]
  rw [UseText.text, hassoc, trimStartChars, Blank.dropWhile_append h.indent]
  rfl

/-- An import is read as one if a space comes after `use`. -/
theorem readLine_text (h : t.WellFormed) :
    readLine u t.text = if t.gap.head? = some ' ' then .use else .other := by
  have hdoc : stripPrefixChars "///".toList (trimStartChars t.text) = none := by
    rw [h.trimStartChars_text]
    rfl
  have himpl : stripPrefixChars "impl".toList (trimStartChars t.text) = none := by
    rw [h.trimStartChars_text]
    rfl
  have hheader : implHeader u t.text = none := by rw [implHeader, himpl]
  -- The keywords are looked for before `use` is, and none is found.
  have htype : typeDecl u t.text = none := by
    rw [typeDecl, h.declName_eq_none (by decide), h.declName_eq_none (by decide),
      h.declName_eq_none (by decide)]
    rfl
  have hfn : declName u t.text "fn" = none := h.declName_eq_none (by decide)
  rw [readLine, hdoc, hheader, htype, hfn, h.trimStartChars_text]
  obtain ⟨c, gap, hgap⟩ := List.exists_cons_of_ne_nil h.gap_ne
  rw [hgap, List.head?_cons]
  by_cases hc : c = ' '
  · have huse : stripPrefixChars "use ".toList
        ("use".toList ++ (c :: gap ++ (t.body ++ (';' :: t.trail)))) =
          some (gap ++ (t.body ++ (';' :: t.trail))) := by
      rw [hc]
      exact stripPrefixChars_append "use ".toList _
    rw [huse, if_pos (congrArg some hc)]
  · have huse : stripPrefixChars "use ".toList
        ("use".toList ++ (c :: gap ++ (t.body ++ (';' :: t.trail)))) = none := by
      rw [stripPrefixChars_eq_none_iff]
      rintro ⟨rest, hrest⟩
      have hcancel : ' ' :: rest = c :: (gap ++ (t.body ++ (';' :: t.trail))) :=
        @List.append_cancel_left _ "use".toList _ _ hrest
      exact hc (List.cons.inj hcancel).1.symm
    rw [huse, if_neg fun hsome => hc (Option.some.inj hsome)]

end UseText.WellFormed

/-- The imports among the edges of a line. -/
theorem imports_edgesAt {file : String} {pre : List (List Char)} {raw : List Char} :
    ((edgesAt u file (pre, raw)).filter (·.kind = .imports)).map Edge.toName =
      if readLine u raw = .use then parseUseTargets raw else [] := by
  rw [edgesAt]
  -- Only a line that is read as an import has imports among its edges.
  cases readLine u raw with
  | use =>
      rw [if_pos rfl, edgesOf, List.filter_eq_self.mpr, List.map_map]
      · exact List.map_id _
      · intro e he
        obtain ⟨target, -, rfl⟩ := List.mem_map.mp he
        rfl
  | doc _ => rfl
  | impl implType traitName =>
      rw [if_neg Reading.noConfusion, edgesOf, traitEdge]
      split
      case isTrue => rfl
      case isFalse => rfl
  | type _ _ =>
      rw [if_neg Reading.noConfusion, edgesOf, ownedEdge]
      cases (registers u pre).currentImpl <;> rfl
  | fn _ =>
      rw [if_neg Reading.noConfusion, edgesOf, ownedEdge]
      cases (registers u pre).currentImpl <;> rfl
  | other =>
      rw [if_neg Reading.noConfusion, edgesOf, List.map_eq_nil_iff, List.filter_eq_nil_iff]
      intro e he
      cases hfn : (registers u pre).currentFn with
      | none =>
          rw [hfn] at he
          cases he
      | some fname =>
          rw [hfn] at he
          obtain ⟨callee, -, rfl⟩ := List.mem_map.mp he
          exact Bool.false_ne_true

/-- **An import is read** exactly where it names nothing, or a space comes after
`use` and no single name has an alias.  With a tab behind `use` the line is not one
of imports to the parser; with an alias behind a single name, both together are
taken for one name. -/
theorem importsRead_iff {file content : String} {pre : List (List Char)} {t : UseText}
    (h : t.WellFormed) (hp : (pre, t.text) ∈ places (linesFrom [] content.toList)) :
    ImportsRead u file content (pre.length + 1) t ↔
      t.target.names = [] ∨ t.gap.head? = some ' ' ∧ t.target.Plain := by
  rw [ImportsRead, filter_edges hp, imports_edgesAt, h.readLine_text]
  -- Without a space behind `use` nothing is read; with one, it depends on the target.
  by_cases hspace : t.gap.head? = some ' '
  · obtain ⟨gap, hgap⟩ : ∃ gap, t.gap = ' ' :: gap := by
      obtain ⟨c, gap, hgap⟩ := List.exists_cons_of_ne_nil h.gap_ne
      rw [hgap] at hspace
      exact ⟨gap, by rw [hgap, Option.some.inj hspace]⟩
    rw [if_pos hspace, if_pos rfl, and_iff_right hspace]
    cases htarget : t.target with
    | many ms last =>
        rw [h.parseUseTargets_many hgap htarget, UseTarget.names, List.map_map]
        exact iff_of_true rfl (.inr trivial)
    | one m =>
        have hm := h.target
        rw [htarget] at hm
        obtain ⟨rest, hcore, -, hrest⟩ := UseMember.WellFormed.exists_core hm
        rw [h.parseUseTargets_one hgap htarget, UseTarget.names, UseTarget.Plain,
          or_iff_right (List.cons_ne_nil _ _), ← hrest, hcore]
        simp
  · rw [if_neg hspace, if_neg nofun]
    simp [hspace, eq_comm (a := ([] : List String))]

/-- `B` is imported without its alias. -/
theorem importsRead_braces :
    ImportsRead .asciiOnly "a.rs" "use a::\x7bB as X\x7d;\n" 1
      ⟨[], [' '], [⟨[], ['a'], []⟩], .many [⟨[], ['B'], some ⟨[' '], [' '], ['X']⟩, []⟩] [],
        [], []⟩ := by
  have hspace : Blank [' '] := List.forall_mem_singleton.mpr rfl
  have hmember : UseMember.WellFormed ⟨[], ['B'], some ⟨[' '], [' '], ['X']⟩, []⟩ := by
    refine ⟨blank_nil, ⟨by decide, forall_mem_of_all (by decide), by decide⟩, ?_, blank_nil⟩
    intro a ha
    obtain rfl := Option.some.inj ha
    exact ⟨hspace, by decide, hspace, by decide,
      ⟨by decide, forall_mem_of_all (by decide), by decide⟩⟩
  have hpath : UseSegment.WellFormed ⟨[], ['a'], []⟩ :=
    ⟨blank_nil, ⟨forall_mem_of_all (by decide), by decide⟩, blank_nil⟩
  have hwf : UseText.WellFormed ⟨[], [' '], [⟨[], ['a'], []⟩],
      .many [⟨[], ['B'], some ⟨[' '], [' '], ['X']⟩, []⟩] [], [], []⟩ :=
    ⟨blank_nil, hspace, by decide, List.forall_mem_singleton.mpr hpath,
      ⟨List.forall_mem_singleton.mpr hmember, blank_nil⟩, blank_nil, blank_nil⟩
  have hp : ([], UseText.text ⟨[], [' '], [⟨[], ['a'], []⟩],
      .many [⟨[], ['B'], some ⟨[' '], [' '], ['X']⟩, []⟩] [], [], []⟩) ∈
        places (linesFrom [] "use a::\x7bB as X\x7d;\n".toList) :=
    mem_places_iff.mpr ⟨[], by decide⟩
  exact (importsRead_iff hwf hp).mpr (.inr ⟨rfl, trivial⟩)

/-- The alias of a single name is taken for part of it. -/
theorem import_alias_misread :
    ¬ ImportsRead .asciiOnly "a.rs" "use a::B as X;\n" 1
      ⟨[], [' '], [⟨[], ['a'], []⟩], .one ⟨[], ['B'], some ⟨[' '], [' '], ['X']⟩, []⟩, [], []⟩ := by
  unfold ImportsRead
  decide +kernel

end Ckg

end AgenticIde
