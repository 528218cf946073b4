/-
AgenticIde/Lib/Lines.lean

The lines of a text (`str::lines`), and what is blank.

A text is an open row, or a row, a line feed and the rest (`rows_induction`).  The lines of a
text written row by row are those rows, but for a carriage return at their end
(`filterMap_lines`), and a line of a text is found in it with what comes before and after
(`exists_cut`).

Rows are what is written and lines what is read.  The two part in two places: a carriage
return before a line feed is dropped, and a text that ends with a line feed has no line behind
it.  A reader that trims its lines and skips blank ones notices neither.

Whitespace moves freely between a line and its surroundings as far as trimming is concerned,
so splitting a trimmed line is splitting the line (`splitOnceChars_trimChars`).
-/
import AgenticIde.Lib.Str

namespace AgenticIde

namespace Str

/-! ### Blank texts -/

/-- Whitespace only. -/
def Blank (cs : List Char) : Prop := ∀ c ∈ cs, isWhitespace c = true

section

variable {cs ds : List Char}

theorem blank_nil : Blank [] := List.forall_mem_nil _

theorem blank_append : Blank (cs ++ ds) ↔ Blank cs ∧ Blank ds := List.forall_mem_append

theorem blank_cons {c : Char} : Blank (c :: cs) ↔ isWhitespace c = true ∧ Blank cs :=
  List.forall_mem_cons

theorem Blank.not_mem (h : Blank cs) {c : Char} (hc : isWhitespace c = false) : c ∉ cs := by
  intro hmem
  rw [h c hmem] at hc
  cases hc

theorem Blank.dropWhile_append (h : Blank cs) (ds : List Char) :
    (cs ++ ds).dropWhile isWhitespace = ds.dropWhile isWhitespace :=
  List.dropWhile_append_of_pos h

theorem trimChars_eq_nil_iff : trimChars cs = [] ↔ Blank cs := by
  rw [trimChars_eq_rdropWhile, List.rdropWhile_eq_nil_iff]
  constructor
  · intro h
    by_contra hblank
    -- what is left would start with a character that is not whitespace
    cases hleft : cs.dropWhile isWhitespace with
    | nil => exact hblank (List.dropWhile_eq_nil_iff.mp hleft)
    | cons c rest =>
        have hc := head?_dropWhile (c := c) (by rw [hleft]; rfl)
        rw [h c (hleft ▸ List.mem_cons_self)] at hc
        cases hc
  · intro h c hc
    exact h c ((List.dropWhile_sublist _).subset hc)

theorem trim_eq_empty_iff (s : String) : trim s = "" ↔ Blank s.toList := by
  rw [← trimChars_eq_nil_iff, trim, ← String.toList_inj, String.toList_ofList]
  rfl

/-- A trimmed text is what is between the whitespace at its ends. -/
theorem exists_trimmed (cs : List Char) :
    ∃ lead trail, cs = lead ++ trimChars cs ++ trail ∧ Blank lead ∧ Blank trail := by
  refine ⟨cs.takeWhile isWhitespace, (cs.dropWhile isWhitespace).rtakeWhile isWhitespace,
    ?_, ?_, ?_⟩
  · rw [trimChars_eq_rdropWhile, List.append_assoc, List.rdropWhile_append_rtakeWhile,
      List.takeWhile_append_dropWhile]
  · exact fun c hc => List.mem_takeWhile_imp hc
  · exact fun c hc => List.mem_rtakeWhile_imp hc

theorem isInfix_trim (s : String) : (trim s).toList <:+: s.toList := by
  obtain ⟨lead, trail, hs, -⟩ := exists_trimmed s.toList
  rw [trim, String.toList_ofList]
  exact ⟨lead, trail, hs.symm⟩

theorem Blank.trimChars_append (h : Blank cs) (ds : List Char) :
    trimChars (cs ++ ds) = trimChars ds := by
  rw [trimChars_eq_rdropWhile, h.dropWhile_append]
  rfl

theorem Blank.append_trimChars (h : Blank ds) (cs : List Char) :
    trimChars (cs ++ ds) = trimChars cs := by
  by_cases hblank : Blank cs
  · rw [trimChars_eq_nil_iff.mpr hblank, trimChars_eq_nil_iff.mpr (blank_append.mpr ⟨hblank, h⟩)]
  · have hne : (cs.dropWhile isWhitespace).isEmpty = false := by
      rw [List.isEmpty_eq_false_iff]
      exact fun hnil => hblank (List.dropWhile_eq_nil_iff.mp hnil)
    rw [trimChars_eq_rdropWhile, trimChars_eq_rdropWhile, List.dropWhile_append, hne,
      if_neg Bool.false_ne_true, List.rdropWhile, List.reverse_append,
      List.dropWhile_append_of_pos fun c hc => h c (List.mem_reverse.mp hc)]
    rfl

end

theorem trimChars_rdropWhile (cs : List Char) :
    trimChars (cs.rdropWhile isWhitespace) = trimChars cs := by
  have hsplit : cs.rdropWhile isWhitespace ++ cs.rtakeWhile isWhitespace = cs :=
    List.rdropWhile_append_rtakeWhile ..
  have hblank : Blank (cs.rtakeWhile isWhitespace) := fun c hc => List.mem_rtakeWhile_imp hc
  conv_rhs => rw [← hsplit, hblank.append_trimChars]

theorem rdropWhile_append_cons {m : Char} (hm : isWhitespace m = false) (front back : List Char) :
    (front ++ m :: back).rdropWhile isWhitespace =
      front ++ m :: back.rdropWhile isWhitespace := by
  have hstop : (m :: front.reverse).dropWhile isWhitespace = m :: front.reverse :=
    dropWhile_eq_self fun c hc => by rw [← Option.some.inj hc, hm]
  rw [List.rdropWhile, List.reverse_append, List.reverse_cons, List.append_assoc,
    List.singleton_append, List.dropWhile_append, hstop]
  split
  case isTrue hempty =>
    rw [List.rdropWhile, List.isEmpty_iff.mp hempty]
    simp
  case isFalse =>
    rw [List.rdropWhile]
    simp

/-- A text that is not blank goes on after its whitespace. -/
theorem exists_of_not_blank {cs : List Char} (h : ¬ Blank cs) :
    ∃ lead c rest, cs = lead ++ c :: rest ∧ Blank lead ∧ isWhitespace c = false := by
  cases hleft : cs.dropWhile isWhitespace with
  | nil => exact absurd (List.dropWhile_eq_nil_iff.mp hleft) h
  | cons c rest =>
      refine ⟨cs.takeWhile isWhitespace, c, rest, ?_, fun d hd => List.mem_takeWhile_imp hd, ?_⟩
      · rw [← hleft, List.takeWhile_append_dropWhile]
      · exact head?_dropWhile (by rw [hleft]; rfl)

/-- What is not blank makes a trimmed text longer. -/
theorem length_trimChars_lt (cs : List Char) {ds : List Char} (h : ¬ Blank ds) :
    (trimChars cs).length < (trimChars (cs ++ ds)).length := by
  obtain ⟨lead, c, rest, rfl, -, hc⟩ := exists_of_not_blank h
  rw [← List.append_assoc, trimChars_append_cons hc, List.length_append, List.length_cons]
  have hle : (trimChars cs).length ≤ ((cs ++ lead).dropWhile isWhitespace).length := by
    by_cases hblank : Blank cs
    · rw [trimChars_eq_nil_iff.mpr hblank]
      exact Nat.zero_le _
    · have hne : (cs.dropWhile isWhitespace).isEmpty = false := by
        rw [List.isEmpty_eq_false_iff]
        exact fun hnil => hblank (List.dropWhile_eq_nil_iff.mp hnil)
      rw [List.dropWhile_append, hne, if_neg Bool.false_ne_true, trimChars_eq_rdropWhile,
        List.length_append]
      exact Nat.le_add_right_of_le (List.rdropWhile_prefix _ _).length_le
  omega

theorem length_trimChars_le_append (cs ds : List Char) :
    (trimChars cs).length ≤ (trimChars (cs ++ ds)).length := by
  by_cases hblank : Blank ds
  · rw [hblank.append_trimChars]
  · exact Nat.le_of_lt (length_trimChars_lt cs hblank)

theorem length_trimChars_le (cs : List Char) : (trimChars cs).length ≤ cs.length := by
  obtain ⟨lead, trail, hcs, -⟩ := exists_trimmed cs
  have hlength := congrArg List.length hcs
  rw [List.length_append, List.length_append] at hlength
  omega

theorem trimChars_stripCr (cs : List Char) : trimChars (stripCr cs) = trimChars cs := by
  unfold stripCr
  split
  case isTrue hcr =>
    have hsplit : cs.dropLast ++ ['\r'] = cs := List.dropLast_append_getLast? _ hcr
    conv_rhs => rw [← hsplit]
    have hblank : Blank ['\r'] := List.forall_mem_singleton.mpr rfl
    rw [hblank.append_trimChars]
  case isFalse => rfl

theorem blank_stripCr (cs : List Char) : Blank (stripCr cs) ↔ Blank cs := by
  rw [← trimChars_eq_nil_iff, trimChars_stripCr, trimChars_eq_nil_iff]

/-! ### Splitting -/

section

variable {p : Char → Bool} {cs head rest : List Char}

theorem splitOnceChars_eq_none_iff : splitOnceChars p cs = none ↔ ∀ c ∈ cs, p c = false := by
  induction cs with
  | nil => exact iff_of_true rfl (List.forall_mem_nil _)
  | cons c cs ih =>
      rw [splitOnceChars, List.forall_mem_cons]
      cases hc : p c with
      | true => exact iff_of_false (by simp) fun h => Bool.noConfusion h.1
      | false =>
          rw [if_neg Bool.false_ne_true, Option.map_eq_none_iff, ih]
          exact (and_iff_right rfl).symm

/-- **A split is at the first character** that satisfies the predicate.  The
character itself is on neither side. -/
theorem splitOnceChars_eq_some_iff :
    splitOnceChars p cs = some (head, rest) ↔
      ∃ sep, cs = head ++ sep :: rest ∧ p sep = true ∧ ∀ c ∈ head, p c = false := by
  induction cs generalizing head with
  | nil => exact iff_of_false (by simp [splitOnceChars]) (by simp)
  | cons c cs ih =>
      rw [splitOnceChars]
      cases hc : p c with
      | true =>
          rw [if_pos rfl, Option.some_inj, Prod.mk.injEq]
          constructor
          · rintro ⟨rfl, rfl⟩
            exact ⟨c, rfl, hc, List.forall_mem_nil _⟩
          · rintro ⟨sep, hsplit, -, hhead⟩
            cases head with
            | nil => exact ⟨rfl, (List.cons.inj hsplit).2⟩
            | cons d head =>
                rw [← (List.cons.inj hsplit).1] at hhead
                rw [hhead c List.mem_cons_self] at hc
                cases hc
      | false =>
          rw [if_neg Bool.false_ne_true, Option.map_eq_some_iff]
          constructor
          · rintro ⟨⟨head', rest'⟩, hsplit, heq⟩
            obtain ⟨rfl, rfl⟩ := Prod.mk.inj heq
            obtain ⟨sep, rfl, hsep, hhead⟩ := ih.mp hsplit
            exact ⟨sep, rfl, hsep, List.forall_mem_cons.mpr ⟨hc, hhead⟩⟩
          · rintro ⟨sep, hsplit, hsep, hhead⟩
            cases head with
            | nil =>
                rw [(List.cons.inj hsplit).1, hsep] at hc
                cases hc
            | cons d head =>
                obtain ⟨rfl, rfl⟩ := List.cons.inj hsplit
                refine ⟨(head, rest), ih.mpr ⟨sep, rfl, hsep, ?_⟩, rfl⟩
                exact (List.forall_mem_cons.mp hhead).2

/-- Trimming moves no split, if whitespace does not separate. -/
theorem splitOnceChars_trimChars (hp : ∀ c, p c = true → isWhitespace c = false) (cs : List Char) :
    splitOnceChars p (trimChars cs) = (splitOnceChars p cs).map fun r =>
      (r.1.dropWhile isWhitespace, r.2.rdropWhile isWhitespace) := by
  cases hsplit : splitOnceChars p cs with
  | none =>
      obtain ⟨lead, trail, hcs, -⟩ := exists_trimmed cs
      apply splitOnceChars_eq_none_iff.mpr
      intro c hc
      apply splitOnceChars_eq_none_iff.mp hsplit c
      rw [hcs]
      exact List.mem_append_left _ (List.mem_append_right _ hc)
  | some r =>
      obtain ⟨sep, rfl, hsep, hhead⟩ := splitOnceChars_eq_some_iff.mp hsplit
      rw [trimChars_append_cons (hp sep hsep)]
      apply splitOnceChars_eq_some_iff.mpr
      exact ⟨sep, rfl, hsep, fun c hc => hhead c ((List.dropWhile_sublist _).subset hc)⟩

/-- Up to trimming, a trimmed text has the same parts. -/
theorem splitOnce_trim (hp : ∀ c, p c = true → isWhitespace c = false) (s : String) :
    (splitOnce p (trim s)).map (Prod.map trim trim) = (splitOnce p s).map (Prod.map trim trim) := by
  rw [splitOnce, splitOnce, trim, String.toList_ofList, splitOnceChars_trimChars hp]
  cases splitOnceChars p s.toList with
  | none => rfl
  | some r =>
      have hstart : trimChars (r.1.dropWhile isWhitespace) = trimChars r.1 := by
        rw [trimChars_eq_rdropWhile, List.dropWhile_idempotent]
        rfl
      simp only [Option.map_some, Prod.map, trim, String.toList_ofList, hstart,
        trimChars_rdropWhile]

end

/-! ### Lines -/

/-- An open row is one line, unless there is nothing in it. -/
theorem linesFrom_open {row : List Char} (h : '\n' ∉ row) (cur : List Char) :
    linesFrom cur row = if (cur.reverse ++ row).isEmpty then [] else [cur.reverse ++ row] := by
  induction row generalizing cur with
  | nil =>
      rw [linesFrom, List.append_nil]
      simp
  | cons c row ih =>
      rw [List.mem_cons, not_or] at h
      rw [linesFrom, if_neg (Ne.symm h.1), ih h.2, List.reverse_cons, List.append_assoc]
      rfl

/-- A row and its line feed are one line. -/
theorem linesFrom_row {row : List Char} (h : '\n' ∉ row) (cur rest : List Char) :
    linesFrom cur (row ++ '\n' :: rest) = stripCr (cur.reverse ++ row) :: linesFrom [] rest := by
  induction row generalizing cur with
  | nil =>
      rw [List.nil_append, linesFrom, if_pos rfl, List.append_nil]
  | cons c row ih =>
      rw [List.mem_cons, not_or] at h
      rw [List.cons_append, linesFrom, if_neg (Ne.symm h.1), ih h.2, List.reverse_cons,
        List.append_assoc]
      rfl

theorem lines_eq_iff {text : String} {ls : List String} :
    lines text = ls ↔ linesFrom [] text.toList = ls.map String.toList := by
  rw [lines]
  constructor
  · rintro rfl
    simp [List.map_map, Function.comp_def]
  · intro h
    rw [h, List.map_map]
    simp [Function.comp_def]

/-- **Texts row by row.**  A text is a last row, or a row, a line break and a text;
neither says how the rows are read. -/
theorem rows_induction {P : List Char → Prop} (last : ∀ row, '\n' ∉ row → P row)
    (row : ∀ row rest, '\n' ∉ row → P rest → P (row ++ '\n' :: rest)) (cs : List Char) : P cs := by
  induction hn : cs.length using Nat.strong_induction_on generalizing cs with
  | _ n ih =>
    by_cases hmem : '\n' ∈ cs
    · obtain ⟨front, rest, rfl, hfront⟩ := List.eq_append_cons_of_mem hmem
      rw [List.length_append, List.length_cons] at hn
      exact row front rest hfront (ih rest.length (by omega) rest rfl)
    · exact last cs hmem

/-- Text up to a line feed has its lines before those of the rest. -/
theorem linesFrom_append {before : List Char}
    (h : before = [] ∨ before.getLast? = some '\n') (cs : List Char) :
    linesFrom [] (before ++ cs) = linesFrom [] before ++ linesFrom [] cs := by
  induction before using rows_induction with
  | last row hrow =>
      rcases h with rfl | hlast
      · rfl
      · exact absurd (List.mem_of_getLast? hlast) hrow
  | row row rest hrow ih =>
      have hrest : rest = [] ∨ rest.getLast? = some '\n' := by
        rcases h with h | hlast
        · simp at h
        · rcases List.eq_nil_or_concat rest with rfl | ⟨rest, c, rfl⟩
          · exact .inl rfl
          · rw [List.concat_eq_append, ← List.cons_append, ← List.append_assoc,
              List.getLast?_concat] at hlast
            exact .inr (by rw [List.concat_eq_append, List.getLast?_concat, hlast])
      rw [List.append_assoc, List.cons_append, linesFrom_row hrow, linesFrom_row hrow, ih hrest,
        List.cons_append]

/-- Rows, each with its line feed, are the first lines. -/
theorem linesFrom_rows {rows : List (List Char)}
    (h : ∀ row ∈ rows, '\n' ∉ row ∧ row.getLast? ≠ some '\r') (cs : List Char) :
    linesFrom [] (rows.flatMap (· ++ ['\n']) ++ cs) = rows ++ linesFrom [] cs := by
  induction rows with
  | nil => rfl
  | cons row rows ih =>
      obtain ⟨⟨hrow, hcr⟩, hrows⟩ := List.forall_mem_cons.mp h
      rw [List.flatMap_cons, List.append_assoc, List.append_assoc, List.singleton_append,
        linesFrom_row hrow, ih hrows, List.reverse_nil, List.nil_append, stripCr, if_neg hcr,
        List.cons_append]

/-- A line with the text before and after it. -/
structure IsLine (before line after : List Char) : Prop where
  before_eq : before = [] ∨ before.getLast? = some '\n'
  not_mem : '\n' ∉ line
  after_eq : after = [] ∨ (∃ rest, after = '\n' :: rest ∧ line.getLast? ≠ some '\r') ∨
    ∃ rest, after = '\r' :: '\n' :: rest

/-- **A line is one of the lines of its text**, and an empty line if it is taken
out.  At the end of the text even that goes, where no line break is behind it. -/
theorem IsLine.cut {before line after : List Char} (h : IsLine before line after)
    (hne : line ≠ []) :
    ∃ post, linesFrom [] (before ++ line ++ after) = linesFrom [] before ++ line :: post ∧
      (linesFrom [] (before ++ after) = linesFrom [] before ++ [] :: post ∨
        post = [] ∧ linesFrom [] (before ++ after) = linesFrom [] before) := by
  have hempty : line.isEmpty = false := List.isEmpty_eq_false_iff.mpr hne
  rw [List.append_assoc, linesFrom_append h.before_eq, linesFrom_append h.before_eq]
  rcases h.after_eq with rfl | ⟨rest, rfl, hcr⟩ | ⟨rest, rfl⟩
  · refine ⟨[], ?_, .inr ⟨rfl, List.append_nil _⟩⟩
    rw [List.append_nil, linesFrom_open h.not_mem, List.reverse_nil, List.nil_append, hempty]
    rfl
  · refine ⟨linesFrom [] rest, ?_, .inl rfl⟩
    rw [linesFrom_row h.not_mem, List.reverse_nil, List.nil_append, stripCr, if_neg hcr]
  · have hrow : '\n' ∉ line ++ ['\r'] := by simpa using h.not_mem
    refine ⟨linesFrom [] rest, ?_, .inl rfl⟩
    have hsplit : line ++ '\r' :: '\n' :: rest = (line ++ ['\r']) ++ '\n' :: rest := by simp
    rw [hsplit, linesFrom_row hrow, List.reverse_nil, List.nil_append, stripCr,
      if_pos List.getLast?_concat, List.dropLast_concat]

/-- A text written row by row; the last row may have no line feed. -/
inductive Rows : List (List Char) → List Char → Prop
  | nil : Rows [] []
  | last {row : List Char} (h : '\n' ∉ row) : Rows [row] row
  | cons {row rest : List Char} {rows : List (List Char)} (h : '\n' ∉ row)
      (hrest : Rows rows rest) : Rows (row :: rows) (row ++ '\n' :: rest)

/-- **What reads lines reads rows**, if it skips empty ones and takes no notice of a
carriage return at the end.  Lines and rows differ in nothing else. -/
theorem filterMap_lines {α : Type*} {f : List Char → Option α} (hempty : f [] = none)
    (hcr : ∀ row, f (stripCr row) = f row) {rows : List (List Char)} {cs : List Char}
    (h : Rows rows cs) : (linesFrom [] cs).filterMap f = rows.filterMap f := by
  induction h with
  | nil => rfl
  | @last row h =>
      rw [linesFrom_open h, List.reverse_nil, List.nil_append]
      cases row with
      | nil => rw [List.filterMap_cons, hempty]; rfl
      | cons c row => rfl
  | @cons row rest rows h hrest ih =>
      rw [linesFrom_row h, List.filterMap_cons, List.filterMap_cons, ih, hcr]
      rfl

/-- What reads a line trimmed reads the rows of a text. -/
theorem filterMap_lines_of_trim {α : Type*} {f : String → Option α} (hempty : f "" = none)
    (htrim : ∀ s t, trim s = trim t → f s = f t) {rows : List String} {text : String}
    (h : Rows (rows.map String.toList) text.toList) :
    (lines text).filterMap f = rows.filterMap f := by
  have hcr : ∀ row, f (String.ofList (stripCr row)) = f (String.ofList row) := by
    intro row
    apply htrim
    rw [trim, trim, String.toList_ofList, String.toList_ofList, trimChars_stripCr]
  have hrows := filterMap_lines (f := fun row => f (String.ofList row)) hempty hcr h
  rw [lines, List.filterMap_map, Function.comp_def, hrows, List.filterMap_map]
  simp only [Function.comp_def, String.ofList_toList]

theorem blank_iff_lines (cs : List Char) : Blank cs ↔ ∀ line ∈ linesFrom [] cs, Blank line := by
  induction cs using rows_induction with
  | last row h =>
      rw [linesFrom_open h, List.reverse_nil, List.nil_append]
      cases row with
      | nil => exact iff_of_true blank_nil fun line hline => by cases hline
      | cons c row => exact List.forall_mem_singleton.symm
  | row row rest h ih =>
      rw [linesFrom_row h, List.forall_mem_cons, ← ih, List.reverse_nil, List.nil_append,
        blank_stripCr,
        blank_append, blank_cons]
      exact and_congr_right fun _ => and_iff_right rfl

/-- **A line in its text**: what comes before and after it is blank if the lines
there are. -/
theorem exists_cut {cs line : List Char} {pre post : List (List Char)}
    (h : linesFrom [] cs = pre ++ line :: post) :
    ∃ before cr after, cs = before ++ (line ++ cr) ++ after ∧ Blank cr ∧
      (before = [] ∨ before.getLast? = some '\n') ∧
      (Blank before ↔ ∀ l ∈ pre, Blank l) ∧ (Blank after ↔ ∀ l ∈ post, Blank l) := by
  induction cs using rows_induction generalizing pre with
  | last row hrow =>
      rw [linesFrom_open hrow, List.reverse_nil, List.nil_append] at h
      split at h
      case isTrue => exact absurd h.symm (by simp)
      case isFalse =>
        obtain ⟨rfl, hline⟩ : pre = [] ∧ [row] = line :: post := by
          cases pre with
          | nil => exact ⟨rfl, h⟩
          | cons p pre => simp at h
        obtain ⟨rfl, rfl⟩ := List.cons.inj hline
        exact ⟨[], [], [], by simp, blank_nil, .inl rfl, iff_of_true blank_nil (by simp),
          iff_of_true blank_nil (by simp)⟩
  | row row rest hrow ih =>
      rw [linesFrom_row hrow, List.reverse_nil, List.nil_append] at h
      cases pre with
      | nil =>
          obtain ⟨rfl, rfl⟩ := List.cons.inj h
          obtain ⟨cr, hcr, hblank⟩ : ∃ cr, row = stripCr row ++ cr ∧ Blank cr := by
            unfold stripCr
            split
            case isTrue hlast =>
              exact ⟨['\r'], (List.dropLast_append_getLast? _ hlast).symm,
                List.forall_mem_singleton.mpr rfl⟩
            case isFalse => exact ⟨[], (List.append_nil _).symm, blank_nil⟩
          refine ⟨[], cr, '\n' :: rest, ?_, hblank, .inl rfl, iff_of_true blank_nil (by simp), ?_⟩
          · rw [List.nil_append, ← hcr]
          · rw [blank_cons, blank_iff_lines rest]
            exact and_iff_right rfl
      | cons p pre =>
          obtain ⟨rfl, hrest⟩ := List.cons.inj h
          obtain ⟨before, cr, after, rfl, hblank, hlast, hbefore, hafter⟩ := ih hrest
          refine ⟨row ++ '\n' :: before, cr, after, by simp, hblank, .inr ?_, ?_, hafter⟩
          · rw [List.getLast?_append]
            rcases hlast with rfl | hlast
            · rfl
            · rw [List.getLast?_cons, hlast]
              rfl
          · rw [blank_append, blank_cons, hbefore, List.forall_mem_cons,
              blank_stripCr]
            exact and_congr_right fun _ => and_iff_right rfl

end Str

end AgenticIde
