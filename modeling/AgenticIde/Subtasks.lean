/-
AgenticIde/Subtasks.lean

Reading subtasks off a decomposition (`parse_subtasks` of `quest.rs`).

A line is numbered if what is before its first separator is a run of digits
(`parseLine_eq_some_iff`), whatever whitespace is around.  So descriptions that are written
one a line, in any of the three forms and between any other lines, are read back in order
(`parseSubtasks_rendered`).

The numbers themselves are not read: subtasks are counted from 1 in the order of their lines,
so a list whose numbers jump or repeat is read as one that counts.  A line without a number, or
with a number and nothing behind it, is passed over; and where no line has a subtask, the goal
is the only one.

`Rendered` is the grammar of what may be written: a line with a number in one of the forms, a
point, a parenthesis or a dash, and a blank; or any line that has no number.  A description is
trimmed and not empty, and has no line break; it may have separators of its own, since the
first of the line is the one behind the number.
-/
import AgenticIde.Lib.Lines
import AgenticIde.Quest

namespace AgenticIde

open Str

/-- What separates a number from its description. -/
def isSeparator (c : Char) : Bool := c == '.' || c == ')' || c == '-'

/-- A nonempty run of digits. -/
def IsNumber (s : String) : Prop := s ≠ "" ∧ s.toList.all Char.isDigit = true

/-- The line has a number, before its first separator, with whatever whitespace
around the number. -/
def Numbered (line head rest : String) : Prop :=
  splitOnce isSeparator line = some (head, rest) ∧ IsNumber (trim head)

/-- The ways to write a number before a description. -/
inductive NumberForm
  | dot
  | paren
  | dash

/-- What is between the number and the description. -/
def NumberForm.text : NumberForm → String
  | dot => ". "
  | paren => ") "
  | dash => " - "

/-- Lines that have some descriptions, in order: each on a line with a number, in
any of the forms, with any other lines between. -/
inductive Rendered : List String → List String → Prop
  | nil : Rendered [] []
  | numbered {descs rows : List String} (indent digits : String) (form : NumberForm)
      (desc trail : String) (hindent : trim indent = "") (hdigits : IsNumber digits)
      (htrail : trim trail = "") (h : Rendered descs rows) :
      Rendered (desc :: descs) ((indent ++ digits ++ form.text ++ desc ++ trail) :: rows)
  | other {descs rows : List String} (row : String) (hrow : ∀ head rest, ¬ Numbered row head rest)
      (h : Rendered descs rows) : Rendered descs (row :: rows)

/-! ### One line -/

theorem isWhitespace_of_isSeparator {c : Char} (h : isSeparator c = true) :
    isWhitespace c = false := by
  simp only [isSeparator, Bool.or_eq_true, beq_iff_eq] at h
  rcases h with (rfl | rfl) | rfl <;> rfl

theorem isWhitespace_of_isDigit {c : Char} (h : c.isDigit = true) : isWhitespace c = false := by
  have hle : 48 ≤ c.toNat ∧ c.toNat ≤ 57 := by
    simpa [Char.isDigit, UInt32.le_iff_toNat_le] using h
  simp only [isWhitespace, Bool.or_eq_false_iff, Bool.and_eq_false_iff, decide_eq_false_iff_not,
    beq_eq_false_iff_ne]
  omega

theorem isSeparator_of_isDigit {c : Char} (h : c.isDigit = true) : isSeparator c = false := by
  cases hsep : isSeparator c with
  | false => rfl
  | true =>
      simp only [isSeparator, Bool.or_eq_true, beq_iff_eq] at hsep
      rcases hsep with (rfl | rfl) | rfl <;> exact absurd h (by decide)

/-- **A numbered line** is read as its description, if it has one.  The number is
what is before the first separator, so a line of prose with a point in it has none.
-/
theorem parseLine_eq_some_iff {line desc : String} :
    parseLine line = some desc ↔
      ∃ head rest, Numbered line head rest ∧ trim rest = desc ∧ desc ≠ "" := by
  -- The parser cuts the line at its first separator, and keeps what is behind if what is
  -- before is a number.
  have hparse : parseLine line =
      ((splitOnce isSeparator (trim line)).map (Prod.map trim trim)).bind fun r =>
        if r.1 ≠ "" ∧ r.1.toList.all Char.isDigit ∧ r.2 ≠ "" then some r.2 else none := by
    have hseparator : (fun c : Char => c == '.' || c == ')' || c == '-') = isSeparator := rfl
    rw [parseLine, hseparator]
    cases splitOnce isSeparator (trim line) with
    | none => rfl
    | some r => rfl
  rw [hparse, splitOnce_trim fun c => isWhitespace_of_isSeparator]
  constructor
  · intro h
    obtain ⟨r, hr, hif⟩ := Option.bind_eq_some_iff.mp h
    obtain ⟨⟨head, rest⟩, hsplit, rfl⟩ := Option.map_eq_some_iff.mp hr
    split at hif
    case isTrue hnumber =>
      obtain ⟨hne, hdigits, hdesc⟩ := hnumber
      obtain rfl := Option.some.inj hif
      exact ⟨head, rest, ⟨hsplit, hne, hdigits⟩, rfl, hdesc⟩
    case isFalse => cases hif
  · rintro ⟨head, rest, ⟨hsplit, hne, hdigits⟩, rfl, hdesc⟩
    rw [hsplit]
    exact if_pos ⟨hne, hdigits, hdesc⟩

theorem parseLine_eq_none_iff {line : String} :
    parseLine line = none ↔ ∀ head rest, Numbered line head rest → trim rest = "" := by
  constructor
  · intro h head rest hnumbered
    by_contra hdesc
    have hsome := parseLine_eq_some_iff.mpr ⟨head, rest, hnumbered, rfl, hdesc⟩
    rw [h] at hsome
    cases hsome
  · intro h
    cases hline : parseLine line with
    | none => rfl
    | some desc =>
        obtain ⟨head, rest, hnumbered, rfl, hdesc⟩ := parseLine_eq_some_iff.mp hline
        exact absurd (h head rest hnumbered) hdesc

/-- A number has no whitespace around it. -/
theorem IsNumber.trimChars {digits : String} (h : IsNumber digits) :
    trimChars digits.toList = digits.toList := by
  have hspace : ∀ c ∈ digits.toList, isWhitespace c = false :=
    fun c hc => isWhitespace_of_isDigit (List.all_eq_true.mp h.2 c hc)
  exact trimChars_eq (fun c hc => hspace c (List.mem_of_mem_head? hc))
    (fun c hc => hspace c (List.mem_of_mem_getLast? hc))

theorem NumberForm.exists_parts (form : NumberForm) :
    ∃ gap sep, form.text.toList = gap ++ sep :: [' '] ∧ Blank gap ∧ isSeparator sep = true := by
  cases form with
  | dot => exact ⟨[], '.', rfl, blank_nil, rfl⟩
  | paren => exact ⟨[], ')', rfl, blank_nil, rfl⟩
  | dash => exact ⟨[' '], '-', rfl, List.forall_mem_singleton.mpr rfl, rfl⟩

/-- A line that was written with a number has it. -/
theorem numbered_of_written {indent digits : String} (form : NumberForm) (tail : String)
    (hindent : trim indent = "") (hdigits : IsNumber digits) :
    ∃ head rest, Numbered (indent ++ digits ++ form.text ++ tail) head rest ∧
      trim rest = trim tail := by
  obtain ⟨gap, sep, htext, hgap, hsep⟩ := form.exists_parts
  have hindent' := (trim_eq_empty_iff indent).mp hindent
  -- Blanks are no separators, so the first one is that of the form, whatever the
  -- indentation.
  have hspace : ∀ {cs : List Char}, Blank cs → ∀ c ∈ cs, isSeparator c = false := by
    intro cs hcs c hc
    cases hc' : isSeparator c with
    | false => rfl
    | true =>
        have hnot := isWhitespace_of_isSeparator hc'
        rw [hcs c hc] at hnot
        cases hnot
  have hsplit : splitOnceChars isSeparator (indent ++ digits ++ form.text ++ tail).toList =
      some (indent.toList ++ digits.toList ++ gap, ' ' :: tail.toList) := by
    apply splitOnceChars_eq_some_iff.mpr
    refine ⟨sep, ?_, hsep, ?_⟩
    · simp only [String.toList_append, htext, List.append_assoc]
      rfl
    · rw [List.forall_mem_append, List.forall_mem_append]
      refine ⟨⟨hspace hindent', fun c hc => ?_⟩, hspace hgap⟩
      exact isSeparator_of_isDigit (List.all_eq_true.mp hdigits.2 c hc)
  have hhead : trim (String.ofList (indent.toList ++ digits.toList ++ gap)) = digits := by
    rw [trim, String.toList_ofList, hgap.append_trimChars, hindent'.trimChars_append,
      hdigits.trimChars, String.ofList_toList]
  have hblank : Blank [' '] := List.forall_mem_singleton.mpr rfl
  refine ⟨_, _, ⟨by rw [splitOnce, hsplit]; rfl, by rwa [hhead]⟩, ?_⟩
  show trim (String.ofList ([' '] ++ tail.toList)) = trim tail
  rw [trim, String.toList_ofList, hblank.trimChars_append]
  rfl

/-! ### Texts -/

/-- The descriptions of a rendering are those of its rows. -/
theorem filterMap_rendered {descs rows : List String} (h : Rendered descs rows)
    (hdescs : ∀ desc ∈ descs, trim desc = desc ∧ desc ≠ "") :
    rows.filterMap parseLine = descs := by
  induction h with
  | nil => rfl
  | @numbered descs rows indent digits form desc trail hindent hdigits htrail h ih =>
      rw [List.forall_mem_cons] at hdescs
      obtain ⟨head, rest, hnumbered, hrest⟩ :=
        numbered_of_written form (desc ++ trail) hindent hdigits
      have hdesc : trim (desc ++ trail) = desc := by
        rw [trim, String.toList_append, ((trim_eq_empty_iff trail).mp htrail).append_trimChars]
        exact hdescs.1.1
      have hline : parseLine (indent ++ digits ++ form.text ++ desc ++ trail) = some desc := by
        apply parseLine_eq_some_iff.mpr
        rw [String.append_assoc]
        exact ⟨head, rest, hnumbered, hrest.trans hdesc, hdescs.1.2⟩
      rw [List.filterMap_cons, hline, ih hdescs.2]
  -- Other lines may stand anywhere; none of them is numbered.
  | other row hrow h ih =>
      have hline : parseLine row = none :=
        parseLine_eq_none_iff.mpr fun head rest hnumbered => absurd hnumbered (hrow head rest)
      rw [List.filterMap_cons, hline, ih hdescs]

/-- The lines of a text are its rows, as far as descriptions go. -/
theorem filterMap_parseLine_lines {text : String} {rows : List String}
    (h : Rows (rows.map String.toList) text.toList) :
    (lines text).filterMap parseLine = rows.filterMap parseLine := by
  apply filterMap_lines_of_trim
  · decide
  · intro s t htrim
    rw [parseLine, parseLine, htrim]
  · exact h

/-- Subtasks with the ids st-1, st-2 and so on. -/
def numberedSubtasks (descs : List String) : List SubTask :=
  descs.zipIdx.map fun (desc, i) => SubTask.new s!"st-{i + 1}" desc

/-- The subtasks of a text are the descriptions on its lines, or the goal. -/
theorem parseSubtasks_eq (text goal : String) :
    parseSubtasks text goal = numberedSubtasks
      (if (lines text).filterMap parseLine = [] then [goal]
        else (lines text).filterMap parseLine) := by
  unfold parseSubtasks
  split
  case h_1 hnil => rw [hnil]; rfl
  case h_2 hne => rw [if_neg hne]; rfl

/-- What is asked of reading subtasks: what was written is read back, the ids count
up from 1, and the goal stands in where there is nothing to read. -/
structure ReadsSubtasks (goal : String) : Prop where
  rendered : ∀ descs rows text, descs ≠ [] →
    (∀ desc ∈ descs, trim desc = desc ∧ desc ≠ "" ∧ '\n' ∉ desc.toList) →
    Rendered descs rows → Rows (rows.map String.toList) text.toList →
    parseSubtasks text goal = numberedSubtasks descs
  ids : ∀ text, parseSubtasks text goal ≠ [] ∧
    ∀ i (task : SubTask), (parseSubtasks text goal)[i]? = some task → task.id = s!"st-{i + 1}"
  fallback : ∀ text,
    (∀ line ∈ lines text, ∀ head rest, Numbered line head rest → trim rest = "") →
    parseSubtasks text goal = [SubTask.new "st-1" goal]

/-- **Subtasks are read off a decomposition** as they are to be: those of a
rendering in their order, and of a text without any the goal as the only one. -/
theorem parseSubtasks_reads (goal : String) : ReadsSubtasks goal where
  rendered descs rows text hne hdescs h htext := by
    have hlines : (lines text).filterMap parseLine = descs := by
      -- The lines of the text are the rows, so what is read off it is read off them.
      rw [filterMap_parseLine_lines htext]
      exact filterMap_rendered h fun desc hdesc => ⟨(hdescs desc hdesc).1, (hdescs desc hdesc).2.1⟩
    rw [parseSubtasks_eq, hlines, if_neg hne]
  ids text := by
    refine ⟨parseSubtasks_ne_nil text goal, fun i task htask => ?_⟩
    rw [parseSubtasks_eq, numberedSubtasks, List.getElem?_map, List.getElem?_zipIdx,
      Nat.zero_add] at htask
    obtain ⟨entry, hentry, rfl⟩ := Option.map_eq_some_iff.mp htask
    obtain ⟨desc, -, rfl⟩ := Option.map_eq_some_iff.mp hentry
    rfl
  fallback text hlines := by
    have hnil : (lines text).filterMap parseLine = [] :=
      List.filterMap_eq_nil_iff.mpr fun line hline => parseLine_eq_none_iff.mpr (hlines line hline)
    rw [parseSubtasks_eq, hnil]
    rfl

end AgenticIde
