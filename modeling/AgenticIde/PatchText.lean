/-
AgenticIde/PatchText.lean

Reading the patch off a reply (`parse_patch` of `self_heal.rs`).

The prefix is looked for at the start of the whole reply, not of its lines.  So the patch is
what follows it on its line exactly where nothing else is in the reply (`parsePatch_eq_iff`);
anything before or after it becomes part of the input that is run again.

What a patch should be is said by lines: the first line that begins with `PATCH:` has it, up
to the blanks around (`PatchLine`).  What the function does is said by characters: the reply
is trimmed, then the prefix is taken off, or, if the reply does not begin with it, another
one, or nothing; and the rest is trimmed.

So a reply is cut around its line, into what is before it, the line with the blanks at its
ends, the end of the line, which may have a carriage return, and what is after it.  On
characters the patch comes out exactly where both surroundings are blank (`patchOf_eq_iff`);
blank lines are surroundings of that kind, and no others are.
-/
import AgenticIde.Lib.Lines
import AgenticIde.SelfHeal

namespace AgenticIde

open Str

/-- The line that a reply has its patch on, the first that begins with `PATCH:`,
with the lines before and behind it. -/
structure PatchLine (text : String) (pre : List String) (line rest : String)
    (post : List String) : Prop where
  lines_eq : lines text = pre ++ line :: post
  before : ∀ l ∈ pre, stripPrefix "PATCH:" (trim l) = none
  patch : stripPrefix "PATCH:" (trim line) = some rest

/-! ### On characters -/

/-- `PATCH:`. -/
def patchPrefix : List Char := ['P', 'A', 'T', 'C', 'H', ':']

/-- The other prefix that is taken off. -/
def barePrefix : List Char := ['P', 'A', 'T', 'C', 'H', ' ']

/-- The patch of a trimmed reply. -/
def patchOf (cs : List Char) : List Char :=
  match stripPrefixChars patchPrefix cs with
  | some rest => trimChars rest
  | none =>
      match stripPrefixChars barePrefix cs with
      | some rest => trimChars rest
      | none => cs

theorem parsePatch_eq (text : String) :
    parsePatch text = String.ofList (patchOf (trimChars text.toList)) := by
  have hstrip : ∀ p : String, stripPrefix p (trim text) =
      (stripPrefixChars p.toList (trimChars text.toList)).map String.ofList := by
    intro p
    rw [stripPrefix, trim, String.toList_ofList]
  have hpatch : "PATCH:".toList = patchPrefix := rfl
  have hbare : "PATCH ".toList = barePrefix := rfl
  dsimp only [parsePatch]
  rw [hstrip, hstrip, hpatch, hbare, patchOf]
  cases stripPrefixChars patchPrefix (trimChars text.toList) with
  | some rest => simp only [Option.map_some, trim, String.toList_ofList]
  | none =>
      cases stripPrefixChars barePrefix (trimChars text.toList) with
      | some rest => simp only [Option.map_some, Option.map_none, trim, String.toList_ofList]
      | none => rfl

/-- A reply with the prefix in it, trimmed. -/
theorem trimChars_patch (front back : List Char) :
    trimChars (front ++ (patchPrefix ++ back)) =
      front.dropWhile isWhitespace ++ (patchPrefix ++ back.rdropWhile isWhitespace) := by
  have hback : (['A', 'T', 'C', 'H'] ++ ':' :: back).rdropWhile isWhitespace =
      ['A', 'T', 'C', 'H'] ++ ':' :: back.rdropWhile isWhitespace :=
    rdropWhile_append_cons (by decide) _ _
  show trimChars (front ++ 'P' :: (['A', 'T', 'C', 'H'] ++ ':' :: back)) = _
  rw [trimChars_append_cons (by decide), hback]
  rfl

theorem length_trimChars_patch (front back : List Char) :
    (trimChars back).length < (trimChars (front ++ (patchPrefix ++ back))).length := by
  have hback : (trimChars back).length ≤ (back.rdropWhile isWhitespace).length := by
    rw [← trimChars_rdropWhile]
    exact length_trimChars_le _
  rw [trimChars_patch, List.length_append, List.length_append]
  show _ < _ + (6 + _)
  omega

/-- Where the prefix comes later than the first line, it stays in the patch. -/
theorem length_patchOf {front back : List Char} (h : '\n' ∈ front.dropWhile isWhitespace) :
    (trimChars back).length < (patchOf (trimChars (front ++ (patchPrefix ++ back)))).length := by
  -- taking a prefix without a line feed off leaves the later one
  have hstrip : ∀ {p rest : List Char}, '\n' ∉ p →
      stripPrefixChars p (trimChars (front ++ (patchPrefix ++ back))) = some rest →
        (trimChars back).length < (trimChars rest).length := by
    intro p rest hp hrest
    have hsplit := stripPrefixChars_eq_some_iff.mp hrest
    rw [trimChars_patch] at hsplit
    rcases List.append_eq_append_iff.mp hsplit with ⟨mid, hmid, -⟩ | ⟨mid, hmid, hback⟩
    · exact absurd (hmid ▸ List.mem_append_left mid h) hp
    · rw [hback, ← trimChars_rdropWhile back]
      exact length_trimChars_patch _ _
  unfold patchOf
  cases hpatch : stripPrefixChars patchPrefix (trimChars (front ++ (patchPrefix ++ back))) with
  | some rest => exact hstrip (by decide) hpatch
  | none =>
      cases hbare : stripPrefixChars barePrefix (trimChars (front ++ (patchPrefix ++ back))) with
      | some rest => exact hstrip (by decide) hbare
      | none => exact length_trimChars_patch _ _

/-- **The patch of a reply** that has the prefix in it: it is what follows the
prefix exactly where nothing but whitespace is around that.  Text before the prefix
keeps it from being found, and text behind the line is taken for more of the patch.
-/
theorem patchOf_eq_iff {before lead rest after : List Char} (hlead : Blank lead)
    (hbefore : before = [] ∨ before.getLast? = some '\n') :
    patchOf (trimChars ((before ++ lead) ++ (patchPrefix ++ (rest ++ after)))) = trimChars rest ↔
      Blank before ∧ Blank after := by
  by_cases hfront : Blank before
  · have hblank : Blank (before ++ lead) := blank_append.mpr ⟨hfront, hlead⟩
    have hpatch : patchOf (trimChars ((before ++ lead) ++ (patchPrefix ++ (rest ++ after)))) =
        trimChars (rest ++ after) := by
      rw [trimChars_patch, List.dropWhile_eq_nil_iff.mpr hblank, List.nil_append]
      unfold patchOf
      rw [stripPrefixChars_append]
      exact trimChars_rdropWhile _
    rw [hpatch, and_iff_right hfront]
    constructor
    · intro heq
      by_contra hafter
      have hlt := length_trimChars_lt rest hafter
      rw [heq] at hlt
      exact Nat.lt_irrefl _ hlt
    · exact fun hafter => hafter.append_trimChars rest
  · apply iff_of_false _ fun h => hfront h.1
    intro heq
    have hne : before ≠ [] := fun hnil => hfront (hnil ▸ blank_nil)
    have hleft : before.dropWhile isWhitespace ≠ [] :=
      fun hnil => hfront (List.dropWhile_eq_nil_iff.mp hnil)
    have hnewline : '\n' ∈ (before ++ lead).dropWhile isWhitespace := by
      rw [List.dropWhile_append, List.isEmpty_eq_false_iff.mpr hleft, if_neg Bool.false_ne_true]
      apply List.mem_append_left
      -- the line feed at the end is not dropped
      have hlast := hbefore.resolve_left hne
      rw [← List.takeWhile_append_dropWhile (p := isWhitespace) (l := before),
        List.getLast?_append, List.getLast?_eq_some_getLast hleft] at hlast
      rw [← Option.some.inj hlast]
      exact List.getLast_mem hleft
    have hlt : (trimChars (rest ++ after)).length < _ := length_patchOf hnewline
    have hle := length_trimChars_le_append rest after
    rw [heq] at hlt
    omega

/-! ### On replies -/

/-- **The patch is read off its line** exactly where every other line of the reply
is blank. The reply is not taken apart into lines: the prefix is looked for at its
start, and all that follows is the patch. -/
theorem parsePatch_eq_iff (text : String) (pre : List String) (line rest : String)
    (post : List String) (h : PatchLine text pre line rest post) :
    parsePatch text = trim rest ↔ ∀ l ∈ pre ++ post, trim l = "" := by
  have hlines := lines_eq_iff.mp h.lines_eq
  rw [List.map_append, List.map_cons] at hlines
  obtain ⟨before, cr, after, htext, hcr, hlast, hbefore, hafter⟩ := exists_cut hlines
  -- The line itself may be indented, and may end with blanks before its carriage return.
  obtain ⟨lead, trail, hline, hlead, htrail⟩ := exists_trimmed line.toList
  have hpatch : trimChars line.toList = patchPrefix ++ rest.toList := by
    have heq := stripPrefix_eq_some_iff.mp h.patch
    rw [trim] at heq
    have hchars := congrArg String.toList heq
    rwa [String.toList_ofList, String.toList_append] at hchars
  have hsplit : text.toList =
      (before ++ lead) ++ (patchPrefix ++ (rest.toList ++ (trail ++ cr ++ after))) := by
    rw [htext, hline, hpatch]
    simp only [List.append_assoc]
  -- The end of the line is blank anyway, so what comes after it decides.
  have hback : Blank (trail ++ cr ++ after) ↔ Blank after := by
    rw [blank_append, blank_append]
    exact and_iff_right ⟨htrail, hcr⟩
  rw [parsePatch_eq, trim, String.ofList_inj, hsplit, patchOf_eq_iff hlead hlast, hback, hbefore,
    hafter, List.forall_mem_append, List.forall_mem_map, List.forall_mem_map]
  simp only [trim_eq_empty_iff]

/-- A reply that is one line. -/
theorem parsePatch_eq_iff_fixed :
    PatchLine "PATCH: ls -l" [] "PATCH: ls -l" " ls -l" [] ∧
      (parsePatch "PATCH: ls -l" = trim " ls -l" ↔ ∀ l ∈ ([] : List String) ++ [], trim l = "") :=
  have hline : PatchLine "PATCH: ls -l" [] "PATCH: ls -l" " ls -l" [] :=
    ⟨by decide, by decide, by decide⟩
  ⟨hline, parsePatch_eq_iff _ _ _ _ _ hline⟩

/-- An explanation after the patch is run with it. -/
theorem parsePatch_explained :
    PatchLine "PATCH: ls -l\nThis lists the files." [] "PATCH: ls -l" " ls -l"
      ["This lists the files."] ∧
    parsePatch "PATCH: ls -l\nThis lists the files." = "ls -l\nThis lists the files." ∧
    trim " ls -l" = "ls -l" := by
  refine ⟨⟨?_, ?_, ?_⟩, ?_, ?_⟩ <;> decide

end AgenticIde
