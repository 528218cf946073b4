/-
AgenticIde/Lib/Find.lean

Finding a text in another (`str::contains`, `str::split_once`, `str::replacen`), and the parts
of a text (`str::split`, `str::rsplit`, `str::split_whitespace`).

A text is found exactly where it is part of the other one (`splitOnceSub_eq_none_iff`,
`splitOnceSub_parts`), and it is its first occurrence that is found, which may overlap later
ones.  Joined parts are split into those parts (`splitAtFrom_intercalate`).

The empty text is part of every text, and is found at its front.  Replacing it puts the new
text there; that is what the standard library does, and what a caller has to ask for if it
wants something else.
-/
import AgenticIde.Lib.Str
import Mathlib.Data.List.Infix

namespace AgenticIde

namespace Str

/-- `str::contains`. -/
def contains (p s : String) : Bool := (splitOnceSub p.toList s.toList).isSome

/-- `str::replacen` with one replacement at most. -/
def replaceFirst (p new s : String) : String :=
  match splitOnceSub p.toList s.toList with
  | some (before, after) => String.ofList before ++ new ++ String.ofList after
  | none => s

section

variable {p cs before after : List Char}

theorem splitOnceSub_eq_none_iff : splitOnceSub p cs = none ↔ ¬ p <:+: cs := by
  induction cs with
  | nil =>
      rw [splitOnceSub, List.infix_nil]
      cases p with
      | nil => simp
      | cons c p => simp
  | cons c cs ih =>
      rw [splitOnceSub, List.infix_cons_iff, not_or, ← ih, ← stripPrefixChars_eq_none_iff]
      cases stripPrefixChars p (c :: cs) with
      | some rest => simp
      | none => simp

/-- A text without a separator lies on one side of it. -/
theorem isInfix_append_cons {c : Char} (hc : c ∉ p) (h : p <:+: before ++ c :: after) :
    p <:+: before ∨ p <:+: after := by
  obtain ⟨s, t, heq⟩ := h
  rcases List.append_eq_append_iff.mp heq with ⟨rest, rfl, -⟩ | ⟨rest, hbefore, hafter⟩
  · exact .inl ⟨s, rest, rfl⟩
  rcases rest with - | ⟨d, rest⟩
  · rw [List.append_nil] at hbefore
    exact .inl ⟨s, [], by rw [List.append_nil, hbefore]⟩
  obtain ⟨rfl, rfl⟩ := List.cons.inj hafter
  rcases List.append_eq_append_iff.mp hbefore with ⟨mid, -, rfl⟩ | ⟨mid, -, hp⟩
  · exact absurd (List.mem_append_right mid List.mem_cons_self) hc
  rcases mid with - | ⟨d, mid⟩
  · rw [List.nil_append] at hp
    exact absurd (hp ▸ List.mem_cons_self) hc
  · obtain ⟨-, rfl⟩ := List.cons.inj hp
    exact .inr ⟨mid, t, rfl⟩

theorem isInfix_append_cons_iff {c : Char} (hc : c ∉ p) :
    p <:+: before ++ c :: after ↔ p <:+: before ∨ p <:+: after := by
  refine ⟨isInfix_append_cons hc, ?_⟩
  rintro (h | h)
  · exact h.trans (List.infix_append' [] before _)
  · exact h.trans ((List.suffix_cons c after).trans (List.suffix_append before _)).isInfix

/-- What is before and after the text that is found. -/
theorem splitOnceSub_parts (h : splitOnceSub p cs = some (before, after)) :
    cs = before ++ (p ++ after) := by
  induction cs generalizing before with
  | nil =>
      rw [splitOnceSub] at h
      split at h
      case isTrue hp =>
        obtain ⟨rfl, rfl⟩ := Prod.mk.inj (Option.some.inj h)
        rw [List.isEmpty_iff.mp hp]
        rfl
      case isFalse => cases h
  | cons c cs ih =>
      rw [splitOnceSub] at h
      cases hstrip : stripPrefixChars p (c :: cs) with
      | some rest =>
          rw [hstrip] at h
          obtain ⟨rfl, rfl⟩ := Prod.mk.inj (Option.some.inj h)
          rw [List.nil_append]
          exact stripPrefixChars_eq_some_iff.mp hstrip
      | none =>
          rw [hstrip] at h
          obtain ⟨⟨before', after'⟩, hsplit, heq⟩ := Option.map_eq_some_iff.mp h
          obtain ⟨rfl, rfl⟩ := Prod.mk.inj heq
          rw [List.cons_append, ← ih hsplit]

end

theorem contains_iff {p s : String} : contains p s = true ↔ p.toList <:+: s.toList := by
  rw [contains, ← not_iff_not, ← splitOnceSub_eq_none_iff]
  rcases splitOnceSub p.toList s.toList with - | parts
  · exact ⟨fun _ => rfl, fun _ => Bool.false_ne_true⟩
  · exact ⟨fun h => absurd rfl h, fun h => by cases h⟩

/-! ### Parts -/

theorem splitAtFrom_eq (sep : Char) (cur cs : List Char) :
    splitAtFrom sep cur cs = List.splitOnPPrepend (· == sep) cs cur := by
  induction cs generalizing cur with
  | nil => rfl
  | cons c cs ih =>
      rw [splitAtFrom]
      by_cases hc : c = sep
      · have hsep : (c == sep) = true := beq_iff_eq.mpr hc
        rw [if_pos hc, List.splitOnPPrepend_cons_pos (p := (· == sep)) hsep, ih]
        rfl
      · have hsep : (c == sep) = false := beq_eq_false_iff_ne.mpr hc
        rw [if_neg hc, List.splitOnPPrepend_cons_neg (p := (· == sep)) hsep, ih]

/-- **Joined parts are split** again.  The parts may be empty, but there has to be
one: no parts at all are joined to what one empty part is. -/
theorem splitAtFrom_intercalate {sep : Char} {parts : List (List Char)}
    (h : ∀ part ∈ parts, sep ∉ part) (hne : parts ≠ []) :
    splitAtFrom sep [] ([sep].intercalate parts) = parts := by
  rw [splitAtFrom_eq]
  exact List.splitOn_intercalate sep h hne

theorem not_mem_intercalate {sep c : Char} {parts : List (List Char)} (hsep : c ≠ sep)
    (h : ∀ part ∈ parts, c ∉ part) : c ∉ [sep].intercalate parts := by
  induction parts with
  | nil => simp
  | cons part parts ih =>
      obtain ⟨hpart, hparts⟩ := List.forall_mem_cons.mp h
      cases parts with
      | nil => rwa [List.intercalate_singleton]
      | cons part' parts =>
          rw [List.intercalate_cons_cons, List.mem_append, List.mem_append, List.mem_singleton,
            not_or, not_or]
          exact ⟨⟨hpart, hsep⟩, ih hparts⟩

theorem filterMap_tails_of_not_mem {c : Char} {p cs : List Char} (h : c ∉ cs) :
    cs.tails.filterMap (stripPrefixChars (c :: p)) = [] := by
  rw [List.filterMap_eq_nil_iff]
  intro tail htail
  rw [stripPrefixChars_eq_none_iff]
  intro hstart
  apply h
  exact ((List.mem_tails _ _).mp htail).subset (hstart.subset List.mem_cons_self)

theorem lastSegment_of_not_mem {c : Char} {p cs : List Char} (h : c ∉ cs) :
    lastSegment (c :: p) cs = cs := by
  rw [lastSegment, filterMap_tails_of_not_mem h]
  rfl

/-- The last part is what comes after the last separator. -/
theorem lastSegment_append {c : Char} {rest : List Char} (h : c ∉ rest) (front : List Char) :
    lastSegment [c, c] (front ++ c :: c :: rest) = rest := by
  have hlast : ((front ++ c :: c :: rest).tails.filterMap (stripPrefixChars [c, c])).getLast? =
      some rest := by
    induction front with
    | nil =>
        have hnext : stripPrefixChars [c, c] (c :: rest) = none := by
          rw [stripPrefixChars_eq_none_iff]
          rintro ⟨rest', hrest'⟩
          exact h ((List.cons.inj hrest').2 ▸ List.mem_cons_self)
        have hhere : stripPrefixChars [c, c] (c :: c :: rest) = some rest :=
          stripPrefixChars_append [c, c] rest
        rw [List.nil_append, List.tails_cons, List.tails_cons, List.filterMap_cons_some hhere,
          List.filterMap_cons_none hnext, filterMap_tails_of_not_mem h]
        rfl
    | cons d front ih =>
        rw [List.cons_append, List.tails_cons]
        cases hstrip : stripPrefixChars [c, c] (d :: (front ++ c :: c :: rest)) with
        | none => rw [List.filterMap_cons_none hstrip, ih]
        | some part => rw [List.filterMap_cons_some hstrip, List.getLast?_cons, ih]; rfl
  rw [lastSegment, hlast]
  rfl

theorem wordsFrom_append {w : List Char} (hw : ∀ c ∈ w, isWhitespace c = false)
    (cur rest : List Char) : wordsFrom cur (w ++ rest) = wordsFrom (w.reverse ++ cur) rest := by
  induction w generalizing cur with
  | nil => rfl
  | cons c w ih =>
      obtain ⟨hc, hw⟩ := List.forall_mem_cons.mp hw
      rw [List.cons_append, wordsFrom, hc, if_neg Bool.false_ne_true, ih hw, List.reverse_cons,
        List.append_assoc]
      rfl

/-- The first word ends at the first whitespace. -/
theorem head?_wordsFrom {w rest : List Char} (hne : w ≠ [])
    (hw : ∀ c ∈ w, isWhitespace c = false) (hrest : ∀ c ∈ rest.head?, isWhitespace c = true) :
    (wordsFrom [] (w ++ rest)).head? = some w := by
  have hempty : w.reverse.isEmpty = false := by simpa using hne
  rw [wordsFrom_append hw, List.append_nil]
  cases rest with
  | nil => rw [wordsFrom, hempty, if_neg Bool.false_ne_true, List.reverse_reverse]; rfl
  | cons c rest =>
      rw [wordsFrom, hrest c rfl, if_pos rfl, hempty, if_neg Bool.false_ne_true,
        List.reverse_reverse]
      rfl

/-- A word and the whitespace behind it. -/
theorem wordsFrom_word {w : List Char} (hne : w ≠ []) (hw : ∀ c ∈ w, isWhitespace c = false)
    {c : Char} (hc : isWhitespace c = true) (rest : List Char) :
    wordsFrom [] (w ++ c :: rest) = w :: wordsFrom [] rest := by
  have hempty : w.reverse.isEmpty = false := by simpa using hne
  rw [wordsFrom_append hw, List.append_nil, wordsFrom, hc, if_pos rfl, hempty,
    if_neg Bool.false_ne_true, List.reverse_reverse]

end Str

end AgenticIde
