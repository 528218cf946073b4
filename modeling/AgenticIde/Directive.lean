/-
AgenticIde/Directive.lean

Reading the next action off a reply (`parse_action_directive` of `llm.rs`).

A line carries a directive if it is `ACTION:` and something else, up to whitespace.  Such a
line is read as its first word and the rest of it (`directive_eq_some_iff`), and a reply as
the first of these lines; what is written as a directive is read back wherever it stands
(`parseActionDirective_reads`).

`Carries` says what a reader takes for a directive, and `Reads` what it says, without the
functions of the source: a text is blanks, a word, and a rest that is trimmed, if there is
anything behind the word.  The first word exists as soon as the text is not blank
(`exists_reads`) and is the only one, so the two definitions determine the plan.

What is written for a directive is `ACTION:`, a blank, the tool, a blank and the argument.
It comes back as it was if the tool is a word and the argument is trimmed, and if no line
above carries a directive; a line break inside the argument would end the line, and is
excluded with the rest of the text as a line.
-/
import AgenticIde.Lib.Lines
import AgenticIde.World

namespace AgenticIde

open Str

/-- The directive of one line; one without a tool is none. -/
def directive (line : String) : Option ActionPlan :=
  match stripPrefix "ACTION:" (trim line) with
  | none => none
  | some rest =>
      let rest := trim rest
      match splitOnce isWhitespace rest with
      | some (tool, arg) => some ⟨trim tool, trim arg⟩
      | none => if rest ≠ "" then some ⟨rest, ""⟩ else none

/-- The first `ACTION:` directive of a reply. -/
def parseActionDirective (text : String) : Option ActionPlan := (lines text).findSome? directive

/-- A chat backend (`OllamaLlm`, `OpenAiLlm`): its plan is the directive of the
thought, or an empty one. -/
def ChatLlm {ε : Type} (onThink : String → ε → Except String Thought × ε) : Llm ε where
  onThink := onThink
  onPlan thought env := (.ok ((parseActionDirective thought.text).getD ⟨"", ""⟩), env)

example : parseActionDirective "I look at it.\n  ACTION:\nACTION: read_file  src/main.rs\n" =
    some ⟨"read_file", "src/main.rs"⟩ := by decide

/-! ### One line -/

/-- The line is `ACTION:` followed by something that is not all whitespace. -/
def Carries (line : String) : Prop := ∃ rest, trim line = "ACTION:" ++ rest ∧ trim rest ≠ ""

/-- A text is read as its first word and the trimmed rest.  The word ends at the
first whitespace, and there is one; the rest may be empty. -/
structure Reads (text : String) (plan : ActionPlan) : Prop where
  split : ∃ lead tail : String, text = lead ++ plan.tool ++ tail ∧ trim lead = "" ∧
    (tail = "" ∨ ∃ c ∈ tail.toList.head?, isWhitespace c = true) ∧ plan.argument = trim tail
  tool_ne : plan.tool ≠ ""
  tool_word : ∀ c ∈ plan.tool.toList, isWhitespace c = false

/-- What is not blank has a first word. -/
theorem exists_reads {text : String} (h : trim text ≠ "") : ∃ plan, Reads text plan := by
  obtain ⟨lead, c, rest, htext, hlead, hc⟩ :=
    exists_of_not_blank (mt (trim_eq_empty_iff text).mpr h)
  -- The first character is no blank, and the word goes as far as there is none.
  have hword : ∀ d ∈ c :: rest.takeWhile (!isWhitespace ·), isWhitespace d = false := by
    rw [List.forall_mem_cons]
    exact ⟨hc, fun d hd => by simpa using List.mem_takeWhile_imp hd⟩
  refine ⟨⟨String.ofList (c :: rest.takeWhile (!isWhitespace ·)),
    trim (String.ofList (rest.dropWhile (!isWhitespace ·)))⟩, ⟨?_, by simp, ?_⟩⟩
  · refine ⟨String.ofList lead, String.ofList (rest.dropWhile (!isWhitespace ·)), ?_, ?_, ?_, rfl⟩
    · rw [← String.toList_inj, htext]
      simp
    · rw [trim_eq_empty_iff, String.toList_ofList]
      exact hlead
    · rw [String.toList_ofList]
      cases htail : rest.dropWhile (!isWhitespace ·) with
      | nil => exact .inl rfl
      | cons d tail =>
          refine .inr ⟨d, rfl, ?_⟩
          have hnot := List.head?_dropWhile_not (!isWhitespace ·) rest
          rw [htail] at hnot
          simpa using hnot
  · rw [String.toList_ofList]
    exact hword

/-- A word shields what is before it, and itself. -/
theorem rdropWhile_word {word : List Char} (hne : word ≠ [])
    (hword : ∀ c ∈ word, isWhitespace c = false) (front tail : List Char) :
    (front ++ (word ++ tail)).rdropWhile isWhitespace =
      front ++ (word ++ tail.rdropWhile isWhitespace) := by
  obtain ⟨word, m, rfl⟩ := (List.eq_nil_or_concat word).resolve_left hne
  rw [List.concat_eq_append, List.forall_mem_append, List.forall_mem_singleton] at hword
  rw [List.concat_eq_append, List.append_assoc, List.append_assoc, ← List.append_assoc front,
    List.singleton_append, rdropWhile_append_cons hword.2, List.append_assoc]
  rfl

theorem trimChars_word {word : List Char} (hne : word ≠ [])
    (hword : ∀ c ∈ word, isWhitespace c = false) (tail : List Char) :
    trimChars (word ++ tail) = word ++ tail.rdropWhile isWhitespace := by
  have hfirst : (word ++ tail).dropWhile isWhitespace = word ++ tail := by
    cases word with
    | nil => exact absurd rfl hne
    | cons c word =>
        apply dropWhile_eq_self
        intro d hd
        rw [← Option.some.inj hd]
        exact hword c List.mem_cons_self
  rw [trimChars_eq_rdropWhile, hfirst]
  exact rdropWhile_word hne hword [] tail

/-- What whitespace begins, and its end was trimmed, is empty or begins so. -/
theorem head?_rdropWhile {tail : List Char}
    (h : tail = [] ∨ ∃ c ∈ tail.head?, isWhitespace c = true) :
    tail.rdropWhile isWhitespace = [] ∨
      ∃ c ∈ (tail.rdropWhile isWhitespace).head?, isWhitespace c = true := by
  obtain ⟨back, hback⟩ : tail.rdropWhile isWhitespace <+: tail := List.rdropWhile_prefix _ _
  cases hleft : tail.rdropWhile isWhitespace with
  | nil => exact .inl rfl
  | cons c left =>
      rw [hleft] at hback
      rcases h with rfl | ⟨d, hd, hspace⟩
      · cases hback
      · rw [← hback] at hd
        exact .inr ⟨d, hd, hspace⟩

/-- **A line is read as its first word** and the rest.  The word is the tool, and
the rest the argument, without the whitespace around it. -/
theorem directive_of_reads {line rest : String} {plan : ActionPlan}
    (hline : trim line = "ACTION:" ++ rest) (h : Reads rest plan) :
    directive line = some plan := by
  obtain ⟨tool, argument⟩ := plan
  obtain ⟨⟨lead, tail, rfl, hlead, htail, rfl⟩, hne, hword⟩ := h
  have hne' : tool.toList ≠ [] := fun hnil => hne (String.toList_eq_nil_iff.mp hnil)
  have htrim : trim (lead ++ tool ++ tail) =
      String.ofList (tool.toList ++ tail.toList.rdropWhile isWhitespace) := by
    rw [trim, String.append_assoc, String.toList_append,
      ((trim_eq_empty_iff lead).mp hlead).trimChars_append, String.toList_append,
      trimChars_word hne' hword]
  have hstrip : stripPrefix "ACTION:" (trim line) = some (lead ++ tool ++ tail) :=
    stripPrefix_eq_some_iff.mpr hline
  have hargument : trim tail = String.ofList (trimChars (tail.toList.rdropWhile isWhitespace)) := by
    rw [trimChars_rdropWhile, trim]
  unfold directive
  simp only [hstrip, htrim]
  cases hleft : tail.toList.rdropWhile isWhitespace with
  | nil =>
      -- the word is all there is
      have hsplit : splitOnce isWhitespace tool = none := by
        rw [splitOnce, splitOnceChars_eq_none_iff.mpr hword]
        rfl
      rw [hleft] at hargument
      simp only [List.append_nil, String.ofList_toList, hsplit, hargument]
      exact if_pos hne
  | cons c left =>
      have hspace : isWhitespace c = true := by
        have hhead := head?_rdropWhile (htail.imp_left fun hnil => by rw [hnil]; rfl)
        rw [hleft] at hhead
        obtain ⟨d, hd, hspace⟩ := hhead.resolve_left (List.cons_ne_nil _ _)
        rwa [Option.some.inj hd]
      have hsplit : splitOnce isWhitespace (String.ofList (tool.toList ++ c :: left)) =
          some (tool, String.ofList left) := by
        rw [splitOnce, String.toList_ofList,
          splitOnceChars_eq_some_iff.mpr ⟨c, rfl, hspace, hword⟩]
        simp
      have htool : trim tool = tool := by
        rw [trim, ← List.append_nil tool.toList, trimChars_word hne' hword]
        simp
      have hblank : Blank [c] := List.forall_mem_singleton.mpr hspace
      rw [hleft, ← List.singleton_append, hblank.trimChars_append] at hargument
      simp only [hsplit, htool, hargument]
      rw [trim, String.toList_ofList]

theorem directive_of_not_carries {line : String} (h : ¬ Carries line) : directive line = none := by
  unfold directive
  cases hstrip : stripPrefix "ACTION:" (trim line) with
  | none => rfl
  | some rest =>
      have hempty : trim rest = "" := by
        by_contra hne
        exact h ⟨rest, stripPrefix_eq_some_iff.mp hstrip, hne⟩
      simp only [hempty]
      rfl

theorem directive_eq_none_iff {line : String} : directive line = none ↔ ¬ Carries line := by
  constructor
  · rintro hnone ⟨rest, hline, hne⟩
    obtain ⟨plan, hplan⟩ := exists_reads hne
    rw [directive_of_reads hline hplan] at hnone
    cases hnone
  · exact directive_of_not_carries

/-- **The directive of a line**: what is behind the mark, read as a tool and an
argument. The mark has to be spelled as it is, and only whitespace may be before it.
-/
theorem directive_eq_some_iff {line : String} {plan : ActionPlan} :
    directive line = some plan ↔ ∃ rest, trim line = "ACTION:" ++ rest ∧ Reads rest plan := by
  constructor
  · intro h
    by_cases hcarries : Carries line
    · obtain ⟨rest, hline, hne⟩ := hcarries
      obtain ⟨plan', hplan⟩ := exists_reads hne
      rw [directive_of_reads hline hplan] at h
      exact ⟨rest, hline, Option.some.inj h ▸ hplan⟩
    · rw [directive_of_not_carries hcarries] at h
      cases h
  · rintro ⟨rest, hline, hplan⟩
    exact directive_of_reads hline hplan

/-! ### Replies -/

/-- What is asked of reading directives: there is one where a line carries one, it is
that of the first such line, and what was written as one is read back. -/
structure ReadsDirectives (text : String) : Prop where
  none_iff : parseActionDirective text = none ↔ ∀ line ∈ lines text, ¬ Carries line
  some_iff : ∀ plan, parseActionDirective text = some plan ↔
    ∃ pre line post rest, lines text = pre ++ line :: post ∧ (∀ l ∈ pre, ¬ Carries l) ∧
      trim line = "ACTION:" ++ rest ∧ Reads rest plan
  written : ∀ pre post indent tool argument, (∀ row ∈ pre, ¬ Carries row) → trim indent = "" →
    tool ≠ "" → (∀ c ∈ tool.toList, isWhitespace c = false) → trim argument = argument →
    Rows ((pre ++ (indent ++ s!"ACTION: {tool} {argument}") :: post).map String.toList)
      text.toList →
    parseActionDirective text = some ⟨tool, argument⟩

theorem parseActionDirective_eq_none_iff {text : String} :
    parseActionDirective text = none ↔ ∀ line ∈ lines text, ¬ Carries line := by
  rw [parseActionDirective, List.findSome?_eq_none_iff]
  simp only [directive_eq_none_iff]

/-- A chat backend plans no action exactly where no line carries a directive. -/
theorem ChatLlm.planAction_empty_iff {ε : Type}
    (onThink : String → ε → Except String Thought × ε) (thought : Thought) (w : World ε) :
    ((ChatLlm onThink).planAction thought w).result = .ok ⟨"", ""⟩ ↔
      ∀ line ∈ lines thought.text, ¬ Carries line := by
  rw [← parseActionDirective_eq_none_iff]
  show Except.ok ((parseActionDirective thought.text).getD ⟨"", ""⟩) = _ ↔ _
  cases hplan : parseActionDirective thought.text with
  | none => exact iff_of_true rfl rfl
  | some plan =>
      obtain ⟨line, -, hline⟩ := List.exists_of_findSome?_eq_some hplan
      obtain ⟨rest, -, hreads⟩ := directive_eq_some_iff.mp hline
      exact iff_of_false (fun h => hreads.tool_ne (by cases h; rfl)) (by simp)

/-- The directive of a text is the first of its rows. -/
theorem parseActionDirective_rows {text : String} {rows : List String}
    (h : Rows (rows.map String.toList) text.toList) :
    parseActionDirective text = rows.findSome? directive := by
  have hrows : (lines text).filterMap directive = rows.filterMap directive := by
    apply filterMap_lines_of_trim
    · decide
    · intro s t htrim
      rw [directive, directive, htrim]
    · exact h
  rw [parseActionDirective, ← List.head?_filterMap, ← List.head?_filterMap, hrows]

/-- A written directive is the one of its line. -/
theorem directive_written {indent tool argument : String} (hindent : trim indent = "")
    (hne : tool ≠ "") (hword : ∀ c ∈ tool.toList, isWhitespace c = false)
    (hargument : trim argument = argument) :
    directive (indent ++ s!"ACTION: {tool} {argument}") = some ⟨tool, argument⟩ := by
  have hne' : tool.toList ≠ [] := fun hnil => hne (String.toList_eq_nil_iff.mp hnil)
  -- The line is taken apart: the indentation, the mark, a blank, the tool, and a blank with
  -- the argument.
  have hline : (indent ++ s!"ACTION: {tool} {argument}").toList =
      indent.toList ++
        ("ACTION:".toList ++ ([' '] ++ (tool.toList ++ ' ' :: argument.toList))) := by
    rw [String.toList_append]
    show indent.toList ++ ("ACTION: " ++ tool ++ " " ++ argument).toList = _
    simp only [String.toList_append, List.append_assoc]
    rfl
  have hblank : Blank [' '] := List.forall_mem_singleton.mpr rfl
  have hreads : Reads (" " ++ tool ++ String.ofList ((' ' :: argument.toList).rdropWhile
      isWhitespace)) ⟨tool, argument⟩ := by
    -- An argument that is trimmed is left as it is, but for an empty one, whose blank
    -- before it is trimmed too.
    refine ⟨⟨" ", _, rfl, by decide, ?_, ?_⟩, hne, hword⟩
    · rw [String.toList_ofList]
      apply (head?_rdropWhile (.inr ⟨' ', rfl, rfl⟩)).imp_left
      intro hnil
      rw [hnil]
    · rw [trim, String.toList_ofList, trimChars_rdropWhile, ← List.singleton_append,
        hblank.trimChars_append]
      exact hargument.symm
  have hmark : ∀ c ∈ "ACTION:".toList, isWhitespace c = false := by simp [isWhitespace]
  refine directive_of_reads ?_ hreads
  rw [trim, hline, ((trim_eq_empty_iff indent).mp hindent).trimChars_append,
    trimChars_word (by decide) hmark, rdropWhile_word hne' hword, ← String.toList_inj]
  simp only [String.toList_ofList, String.toList_append, List.append_assoc]
  rfl

/-- **Directives are read off a reply** as they are to be: none where no line
carries one, the first otherwise, and what was written as one is read back, whatever
lines come before without one and whatever lines come after. -/
theorem parseActionDirective_reads (text : String) : ReadsDirectives text where
  none_iff := parseActionDirective_eq_none_iff
  some_iff plan := by
    rw [parseActionDirective, List.findSome?_eq_some_iff]
    constructor
    · rintro ⟨pre, line, post, hlines, hline, hpre⟩
      obtain ⟨rest, htrim, hreads⟩ := directive_eq_some_iff.mp hline
      exact ⟨pre, line, post, rest, hlines, fun l hl => directive_eq_none_iff.mp (hpre l hl),
        htrim, hreads⟩
    · rintro ⟨pre, line, post, rest, hlines, hpre, htrim, hreads⟩
      exact ⟨pre, line, post, hlines, directive_of_reads htrim hreads,
        fun l hl => directive_of_not_carries (hpre l hl)⟩
  written pre post indent tool argument hpre hindent hne hword hargument htext := by
    rw [parseActionDirective_rows htext, List.findSome?_eq_some_iff]
    exact ⟨pre, _, post, rfl, directive_written hindent hne hword hargument,
      fun row hrow => directive_of_not_carries (hpre row hrow)⟩

end AgenticIde
