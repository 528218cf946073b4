/-
AgenticIde/ContextWindow.lean

What the rolling window of a context manager holds.

A push keeps the last `maxItems` entries, so a window that was filled by pushes alone is the
end of what was pushed (`foldl_push_window`).  Trimming drops chunks and leaves the window as
it is.

An entry of the window is part of every prompt that is made of it, whatever the chunks are:
a prompt ends with the window's text (`isSuffix_buildPrompt`), and that has every entry in it
(`isInfix_snapshotFrom`).  These two and the law of the window are what other modules know of
prompts.

A manager with no room is not meant here; what becomes of one is in `ContextRuns`.
-/
import AgenticIde.Context
import AgenticIde.Lib.Recent

namespace AgenticIde

namespace ContextManager

/-- Without chunks there is nothing to trim. -/
theorem budgetTrim_of_chunks {ctx : ContextManager} (h : ctx.chunks = []) :
    ctx.budgetTrim = ctx := by
  rw [budgetTrim, h]
  rfl

/-- A push keeps the last `maxItems` entries. -/
theorem push_window {ctx : ContextManager} (hpos : 0 < ctx.maxItems)
    (hlength : ctx.window.length ≤ ctx.maxItems) (item : String) :
    (ctx.push item).window = (ctx.window ++ [item]).rtake ctx.maxItems := by
  unfold push
  by_cases hfull : ctx.window.length = ctx.maxItems
  · -- the oldest entry goes
    rcases hwindow : ctx.window with - | ⟨oldest, rest⟩
    · rw [hwindow] at hfull
      exact absurd hfull (by simpa using hpos.ne)
    · rw [hwindow] at hfull
      have hdrop : rest.length + 1 + 1 - ctx.maxItems = 1 := by
        rw [← hfull, List.length_cons]
        omega
      simp [hfull, List.rtake, hdrop]
  · have hfits : ctx.window.length + 1 - ctx.maxItems = 0 := by omega
    simp [hfull, List.rtake, hfits]

@[simp] theorem push_maxItems (ctx : ContextManager) (item : String) :
    (ctx.push item).maxItems = ctx.maxItems := rfl

/-- A window with room takes the entry as it is. -/
theorem push_window_of_lt {ctx : ContextManager} (h : ctx.window.length < ctx.maxItems)
    (item : String) : (ctx.push item).window = ctx.window ++ [item] := by
  simp [push, h.ne]

/-- Entries pushed one after the other: the window holds the last of them. -/
theorem foldl_push_window {ctx : ContextManager} (hpos : 0 < ctx.maxItems)
    (hlength : ctx.window.length ≤ ctx.maxItems) (items : List String) :
    (items.foldl push ctx).window = (ctx.window ++ items).rtake ctx.maxItems := by
  induction items using List.reverseRecOn with
  | nil => simp [List.rtake, hlength]
  | append_singleton items item ih =>
      have hmax : (items.foldl push ctx).maxItems = ctx.maxItems := by
        clear ih
        induction items using List.reverseRecOn with
        | nil => rfl
        | append_singleton items item ih => simpa using ih
      rw [List.foldl_append, List.foldl_cons, List.foldl_nil, push_window, hmax, ih,
        rtake_concat_rtake, List.append_assoc]
      · rwa [hmax]
      · rw [hmax, ih]
        exact length_rtake_le _ _

/-- Chunks do not touch the window. -/
theorem foldl_addChunk_window (ctx : ContextManager) (chunks : List ContextChunk) :
    (chunks.foldl addChunk ctx).window = ctx.window ∧
      (chunks.foldl addChunk ctx).maxItems = ctx.maxItems := by
  induction chunks generalizing ctx with
  | nil => exact ⟨rfl, rfl⟩
  | cons chunk chunks ih => exact ih (ctx.addChunk chunk)

theorem trimRounds_window (n : Nat) (ctx : ContextManager) :
    (trimRounds n ctx).window = ctx.window ∧ (trimRounds n ctx).maxItems = ctx.maxItems := by
  induction n generalizing ctx with
  | zero => exact ⟨rfl, rfl⟩
  | succ n ih =>
      unfold trimRounds
      split
      · exact ⟨rfl, rfl⟩
      · split
        · exact ⟨rfl, rfl⟩
        · exact ⟨rfl, rfl⟩
        · exact ih _

/-- Trimming leaves the window as it is. -/
@[simp] theorem budgetTrim_window (ctx : ContextManager) :
    ctx.budgetTrim.window = ctx.window := (trimRounds_window _ ctx).1

@[simp] theorem budgetTrim_maxItems (ctx : ContextManager) :
    ctx.budgetTrim.maxItems = ctx.maxItems := (trimRounds_window _ ctx).2

/-- Every entry of a window is in its snapshot. -/
theorem isInfix_snapshotFrom {item : String} {items : List String} (h : item ∈ items) (i : Nat) :
    item.toList <:+: (snapshotFrom i items).toList := by
  induction items generalizing i with
  | nil => simp at h
  | cons first items ih =>
      have hline : (snapshotFrom i (first :: items)).toList =
          (['['] ++ (toString i).toList ++ [']', ' ']) ++ first.toList ++ ['\n'] ++
            (snapshotFrom (i + 1) items).toList := by
        show (("[" ++ toString i ++ "] " ++ first ++ "\n") ++ snapshotFrom (i + 1) items).toList = _
        simp only [String.toList_append]
        rfl
      rw [hline]
      rcases List.mem_cons.mp h with rfl | h
      · exact List.IsInfix.trans ⟨_, _, rfl⟩ (List.prefix_append _ _).isInfix
      · exact (ih h (i + 1)).trans (List.suffix_append _ _).isInfix

/-- A prompt ends in the snapshot of the window. -/
theorem isSuffix_buildPrompt (ctx : ContextManager) :
    ctx.snapshot.toList <:+ ctx.buildPrompt.toList := by
  unfold buildPrompt
  simp only [String.toList_append]
  exact List.suffix_append _ _

end ContextManager

end AgenticIde
