/-
AgenticIde/CkgKeywords.lean

Where the source parser finds a declaration.

The first keyword that stands alone decides.  After a lead without the keyword, that is the
one after the lead (`declName_lead`); a line that declares a function has no calls of its
own (`kind_ne_calls_of_declName`).

A keyword stands alone if what is before it and what is behind it are boundaries: a blank,
a tab, a bracket, or an end of the line.  A lead is what may come before: nothing, or a
text that ends with a boundary, as a visibility and a blank do.  The parser does not
know comments or literals, so a keyword in one of them decides too, if it comes first.

To show that a line has no declaration it is enough to cut it at the characters that are in
no name: a keyword that decides is one of the pieces (`mem_nameRuns_of_declName`), and the
pieces of a given line can be computed.
-/
import AgenticIde.CkgNames
import AgenticIde.CkgLines

namespace AgenticIde

namespace Ckg

open Str

variable {u : CharTables}

/-- What may stand before a keyword: nothing, or a text that ends with a boundary. -/
def IsLead (lead : List Char) : Prop :=
  lead = [] ∨ ∃ c, lead.getLast? = some c ∧ endsBoundary c = true

theorem IsLead.tail {c : Char} {lead : List Char} (h : IsLead (c :: lead)) : IsLead lead := by
  cases lead with
  | nil => exact .inl rfl
  | cons d lead =>
      rcases h with h | ⟨b, hlast, hb⟩
      · cases h
      · exact .inr ⟨b, by rwa [List.getLast?_cons_cons] at hlast, hb⟩

/-- A keyword does not start in the lead. -/
theorem not_prefix_of_lead {kw lead : List Char} (hkw : ∀ c ∈ kw, endsBoundary c = false)
    (hlead : IsLead lead) (hne : lead ≠ []) (hnot : ¬ kw <:+: lead) (rest : List Char) :
    ¬ kw <+: lead ++ rest := by
  intro h
  rcases List.prefix_or_prefix_of_prefix h (List.prefix_append lead rest) with h | h
  · exact hnot h.isInfix
  · obtain ⟨c, hlast, hc⟩ := hlead.resolve_left hne
    have hmem := h.subset (List.mem_of_getLast? hlast)
    rw [hkw c hmem] at hc
    cases hc

/-- The character before a place, when one more character is before it. -/
theorem getLast?_cons_or (c : Char) (cs : List Char) (prev : Option Char) :
    (c :: cs).getLast?.or prev = cs.getLast?.or (some c) := by
  rcases cs with - | ⟨d, cs⟩
  · rfl
  · rw [List.getLast?_cons_cons, List.getLast?_eq_some_getLast (List.cons_ne_nil d cs)]
    rfl

theorem declNameFrom_lead {kw lead : List Char} (hkw : ∀ c ∈ kw, endsBoundary c = false)
    (hlead : IsLead lead) (hnot : ¬ kw <:+: lead) (prev : Option Char) (rest : List Char) :
    declNameFrom u kw 0 prev (lead ++ rest) =
      declNameFrom u kw 0 (lead.getLast?.or prev) rest := by
  induction lead generalizing prev with
  | nil => rfl
  | cons c lead ih =>
      have hno : stripPrefixChars kw (c :: (lead ++ rest)) = none :=
        stripPrefixChars_eq_none_iff.mpr
          (not_prefix_of_lead hkw hlead (List.cons_ne_nil _ _) hnot rest)
      rw [List.cons_append, declNameFrom, hno]
      dsimp only
      rw [ih hlead.tail fun h => hnot (h.trans (List.suffix_cons c lead).isInfix),
        getLast?_cons_or]

/-- A keyword that stands alone decides. -/
theorem declNameFrom_keyword {kw : List Char} {prev : Option Char} {rest : List Char}
    (hkw : kw ≠ []) (hprev : prev.all endsBoundary = true)
    (hrest : rest.head?.all startsBoundary = true) :
    declNameFrom u kw 0 prev (kw ++ rest) =
      if (declIdent u rest).isEmpty then none else some (declIdent u rest) := by
  obtain ⟨k, ks, rfl⟩ := List.exists_cons_of_ne_nil hkw
  have hstrip : stripPrefixChars (k :: ks) (k :: (ks ++ rest)) = some rest :=
    stripPrefixChars_append (k :: ks) rest
  rw [List.cons_append, declNameFrom, hstrip]
  dsimp only
  rw [hprev, hrest, Bool.and_true, if_pos rfl]

/-- **After a lead without the keyword**, the keyword decides.  It occurs nowhere in
the lead, so the first occurrence is the one behind it; there it stands alone, and
the name is what follows. -/
theorem declName_lead {kw : String} {lead rest : List Char} (hkw : kw.toList ≠ [])
    (hboundary : ∀ c ∈ kw.toList, endsBoundary c = false) (hlead : IsLead lead)
    (hnot : ¬ kw.toList <:+: lead) (hrest : rest.head?.all startsBoundary = true) :
    declName u (lead ++ (kw.toList ++ rest)) kw =
      if (declIdent u rest).isEmpty then none else some (String.ofList (declIdent u rest)) := by
  have hprev : (lead.getLast?.or none).all endsBoundary = true := by
    rcases hlead with rfl | ⟨c, hlast, hc⟩
    · rfl
    · rw [hlast]
      exact hc
  rw [declName, declNameFrom_lead hboundary hlead hnot, declNameFrom_keyword hkw hprev hrest]
  split
  case isTrue => rfl
  case isFalse => rfl

theorem isWhitespace_of_isIdentChar (hu : u.SpaceFree) {c : Char} (h : isIdentChar u c = true) :
    isWhitespace c = false := by
  by_contra hspace
  rw [Bool.not_eq_false] at hspace
  rw [isIdentChar, hu c hspace, Bool.false_or, beq_iff_eq] at h
  rw [h] at hspace
  exact absurd hspace (by decide)

/-- The identifier at the start of a text. -/
def firstIdent (u : CharTables) (cs : List Char) : List Char :=
  (trimStartChars cs).takeWhile (isIdentChar u)

theorem isIdentChar_of_ascii {c : Char} (hascii : c.toNat < 128) (hc : c.isAlphanum = false)
    (hunderscore : c ≠ '_') : isIdentChar u c = false := by
  rw [isIdentChar, u.ascii c hascii, hc, Bool.false_or, beq_eq_false_iff_ne]
  exact hunderscore

theorem takeWhile_append_cons {cs rest : List Char} {c : Char} (hc : isIdentChar u c = false) :
    (cs ++ c :: rest).takeWhile (isIdentChar u) = cs.takeWhile (isIdentChar u) := by
  have hstop : (c :: rest).takeWhile (isIdentChar u) = [] :=
    List.takeWhile_cons_of_neg (by rw [hc]; exact Bool.false_ne_true)
  rw [List.takeWhile_append, hstop, List.append_nil]
  split
  case isTrue hlength => exact ((List.takeWhile_prefix _).eq_of_length hlength).symm
  case isFalse => rfl

/-- An identifier ends before a character that can be in none. -/
theorem firstIdent_append_cons {cs rest : List Char} {c : Char} (hc : isIdentChar u c = false)
    (hspace : isWhitespace c = false) : firstIdent u (cs ++ c :: rest) = firstIdent u cs := by
  unfold firstIdent trimStartChars
  rw [List.dropWhile_append]
  split
  case isTrue hempty =>
    rw [List.isEmpty_iff.mp hempty,
      List.dropWhile_cons_of_neg (by rw [hspace]; exact Bool.false_ne_true),
      List.takeWhile_cons_of_neg (by rw [hc]; exact Bool.false_ne_true), List.takeWhile_nil]
  case isFalse => exact takeWhile_append_cons hc

/-- The identifier after a blank. -/
theorem declIdent_blank (hu : u.SpaceFree) {name : String} (hname : IsIdent u name)
    {rest : List Char} (hrest : ∀ c ∈ rest.head?, isIdentChar u c = false) :
    declIdent u (' ' :: (name.toList ++ rest)) = name.toList := by
  obtain ⟨hne, hident⟩ := hname
  obtain ⟨c, cs, hcs⟩ := List.exists_cons_of_ne_nil hne
  have hc : isWhitespace c = false :=
    isWhitespace_of_isIdentChar hu (hident c (hcs ▸ List.mem_cons_self))
  have hstop : rest.takeWhile (isIdentChar u) = [] := by
    cases rest with
    | nil => rfl
    | cons d rest =>
        exact List.takeWhile_cons_of_neg (by rw [hrest d rfl]; exact Bool.false_ne_true)
  have hstrip : stripPrefixChars ['<'] (' ' :: (name.toList ++ rest)) = none := rfl
  have hblank : isWhitespace ' ' = true := rfl
  rw [declIdent, hstrip, Option.getD_none, trimStartChars, List.dropWhile_cons_of_pos hblank, hcs,
    List.cons_append, List.dropWhile_cons_of_neg (by rw [hc]; exact Bool.false_ne_true),
    ← List.cons_append, ← hcs, List.takeWhile_append_of_pos hident, hstop, List.append_nil]

theorem firstIdent_blank (hu : u.SpaceFree) {name : String} (hname : IsIdent u name)
    {rest : List Char} (hrest : ∀ c ∈ rest.head?, isIdentChar u c = false) :
    firstIdent u (' ' :: (name.toList ++ rest)) = name.toList :=
  declIdent_blank hu hname hrest

/-! ### Lines without a keyword -/

/-- A character that may be in a name. -/
def isNameChar (c : Char) : Bool :=
  !isWhitespace c && !(['\x7b', '\x7d', ',', ';', ':', '(', '<'].contains c)

/-- The texts between characters that are in no name. -/
def nameRuns (cs : List Char) : List (List Char) := cs.splitOnP fun c => !isNameChar c

theorem nameRuns_append_cons {c : Char} (hc : isNameChar c = false) (xs ys : List Char) :
    nameRuns (xs ++ c :: ys) = nameRuns xs ++ nameRuns ys :=
  List.splitOnP_append_cons xs ys (by rw [hc]; rfl)

theorem nameRuns_cons {c : Char} (hc : isNameChar c = false) (ys : List Char) :
    nameRuns (c :: ys) = [] :: nameRuns ys :=
  nameRuns_append_cons hc [] ys

theorem nameRuns_name {w : List Char} (h : ∀ c ∈ w, isNameChar c = true) : nameRuns w = [w] :=
  List.splitOnP_eq_singleton fun c hc => by rw [h c hc]; rfl

theorem isNameChar_of_isWhitespace {c : Char} (h : isWhitespace c = true) :
    isNameChar c = false := by
  rw [isNameChar, h]
  rfl

theorem mem_nameRuns_blank_append {w gap : List Char} (hne : w ≠ [])
    (hgap : ∀ c ∈ gap, isWhitespace c = true) (xs : List Char) :
    w ∈ nameRuns (gap ++ xs) ↔ w ∈ nameRuns xs := by
  induction gap with
  | nil => rfl
  | cons c gap ih =>
      obtain ⟨hc, hgap⟩ := List.forall_mem_cons.mp hgap
      rw [List.cons_append, nameRuns_cons (isNameChar_of_isWhitespace hc), List.mem_cons, ih hgap,
        or_iff_right hne]

theorem mem_nameRuns_append_blank {w gap : List Char} (hne : w ≠ [])
    (hgap : ∀ c ∈ gap, isWhitespace c = true) (xs : List Char) :
    w ∈ nameRuns (xs ++ gap) ↔ w ∈ nameRuns xs := by
  cases gap with
  | nil => rw [List.append_nil]
  | cons c gap =>
      obtain ⟨hc, hgap⟩ := List.forall_mem_cons.mp hgap
      have hblank : w ∉ nameRuns gap := by
        rw [← List.append_nil gap, mem_nameRuns_blank_append hne hgap]
        simpa [nameRuns] using hne
      rw [nameRuns_append_cons (isNameChar_of_isWhitespace hc), List.mem_append,
        or_iff_left hblank]

/-- A keyword that decides stands between boundaries. -/
theorem exists_of_declNameFrom {kw : List Char} {skip : Nat} {prev : Option Char}
    {cs ident : List Char} (h : declNameFrom u kw skip prev cs = some ident) :
    ∃ front rest, cs = front ++ (kw ++ rest) ∧ (front.getLast?.or prev).all endsBoundary = true ∧
      rest.head?.all startsBoundary = true := by
  -- By induction on the line; the character before the place of the search goes along, as a
  -- keyword at that place is looked at with it.
  induction cs generalizing skip prev with
  | nil => cases skip <;> cases h
  | cons c cs ih =>
      have hnext : ∀ {skip}, declNameFrom u kw skip (some c) cs = some ident →
          ∃ front rest, c :: cs = front ++ (kw ++ rest) ∧
            (front.getLast?.or prev).all endsBoundary = true ∧
              rest.head?.all startsBoundary = true := by
        intro skip hskip
        obtain ⟨front, rest, rfl, hfront, hrest⟩ := ih hskip
        refine ⟨c :: front, rest, rfl, ?_, hrest⟩
        cases front with
        | nil => exact hfront
        | cons d front =>
            rw [List.getLast?_cons_cons]
            rw [List.getLast?_eq_some_getLast (List.cons_ne_nil d front)] at hfront ⊢
            exact hfront
      -- Inside a keyword that did not stand alone nothing is tried.
      cases skip with
      | succ skip => exact hnext h
      | zero =>
          rw [declNameFrom] at h
          cases hstrip : stripPrefixChars kw (c :: cs) with
          | none =>
              rw [hstrip] at h
              exact hnext h
          | some rest =>
              rw [hstrip] at h
              dsimp only at h
              split at h
              case isTrue hboth =>
                rw [Bool.and_eq_true] at hboth
                refine ⟨[], rest, ?_, hboth.1, hboth.2⟩
                rw [List.nil_append]
                exact stripPrefixChars_eq_some_iff.mp hstrip
              case isFalse => exact hnext h

/-- **A keyword that decides** is one of the texts between characters that are in no
name. It is not part of a longer name on either side, since neither boundary is a
character of one. -/
theorem mem_nameRuns_of_declName {kw : String} (hkw : ∀ c ∈ kw.toList, isNameChar c = true)
    {line : List Char} {name : String} (h : declName u line kw = some name) :
    kw.toList ∈ nameRuns line := by
  obtain ⟨ident, hident, -⟩ := Option.map_eq_some_iff.mp h
  obtain ⟨front, rest, rfl, hfront, hrest⟩ := exists_of_declNameFrom hident
  -- Boundaries are in no name, so the line is cut on both sides of the keyword.
  have hends : ∀ c, endsBoundary c = true → isNameChar c = false := by
    intro c hc
    simp only [endsBoundary, Bool.or_eq_true, beq_iff_eq] at hc
    rcases hc with ((rfl | rfl) | rfl) | rfl <;> decide
  have hstarts : ∀ c, startsBoundary c = true → isNameChar c = false := by
    intro c hc
    simp only [startsBoundary, Bool.or_eq_true, beq_iff_eq] at hc
    rcases hc with ((rfl | rfl) | rfl) | rfl <;> decide
  have hkeyword : kw.toList ∈ nameRuns (kw.toList ++ rest) := by
    cases rest with
    | nil =>
        rw [List.append_nil, nameRuns_name hkw]
        exact List.mem_singleton_self _
    | cons c rest =>
        rw [nameRuns_append_cons (hstarts c hrest), nameRuns_name hkw]
        exact List.mem_cons_self
  rcases List.eq_nil_or_concat front with rfl | ⟨front, c, rfl⟩
  · exact hkeyword
  · rw [List.concat_eq_append, List.getLast?_concat] at hfront
    rw [List.concat_eq_append, List.append_assoc, List.singleton_append,
      nameRuns_append_cons (hends c hfront)]
    exact List.mem_append_right _ hkeyword

/-! ### Lines that declare a function -/

/-- Only code has calls. -/
theorem eq_other_of_calls {file : String} {r : Registers} {lineno : Nat} {raw : List Char}
    {reading : Reading} {e : Edge} (he : e ∈ edgesOf file r lineno raw reading)
    (hkind : e.kind = .calls) : reading = .other := by
  -- Each reading but the last gives edges of a kind of its own.
  cases reading with
  | doc _ => cases he
  | impl _ _ =>
      rw [edgesOf, traitEdge] at he
      split at he
      case isTrue => cases he
      case isFalse =>
        rw [List.mem_singleton.mp he] at hkind
        cases hkind
  | type _ _ =>
      obtain ⟨t, -, rfl⟩ := Option.map_eq_some_iff.mp (Option.mem_toList.mp he)
      cases hkind
  | fn _ =>
      obtain ⟨t, -, rfl⟩ := Option.map_eq_some_iff.mp (Option.mem_toList.mp he)
      cases hkind
  | use =>
      obtain ⟨target, -, rfl⟩ := List.mem_map.mp he
      cases hkind
  | other => rfl

theorem readLine_ne_other_of_declName {raw : List Char} {name : String}
    (h : declName u raw "fn" = some name) : readLine u raw ≠ .other := by
  unfold readLine
  cases stripPrefixChars "///".toList (trimStartChars raw) with
  | some _ => exact nofun
  | none =>
  cases implHeader u raw with
  | some _ => exact nofun
  | none =>
  cases typeDecl u raw with
  | some _ => exact nofun
  | none =>
  rw [h]
  exact nofun

/-- **A line that declares a function** has no calls of its own.  Whatever else is
on it, it is read for its declaration and left. -/
theorem kind_ne_calls_of_declName {raw : List Char} {name : String}
    (h : declName u raw "fn" = some name) {file : String} {pre : List (List Char)} {e : Edge}
    (he : e ∈ edgesAt u file (pre, raw)) : e.kind ≠ .calls :=
  fun hkind => readLine_ne_other_of_declName h (eq_other_of_calls he hkind)

end Ckg

end AgenticIde
