/-
AgenticIde/ContextRuns.lean

The rolling window over any sequence of operations on a context manager.

Eviction tests whether the window has exactly `maxItems` entries, so the window is bounded
as long as it never gets past that (`holds_of_runs`).  The derived default has room for no
entry, and the first push is past it: from then on it keeps everything (`rolling_iff`).

A manager is made by `new` or `withBudget`, which make room for one entry at least, or by
`default`, and then any of the operations come in any order.  The operations
on chunks leave the window alone (`SameWindow`); one of them may panic, and then there is no
manager to ask.  Pushing is what is left, and what it does depends on the number of entries
there are.

`Holds` is the invariant: with room the window is the last entries that fit, and without any
room it is all that was pushed.  A first push into a default manager is still in order,
since a window of one entry is the end of what was pushed; the law breaks at the second, and
that is the bound in the condition.
-/
import AgenticIde.ContextCompress
import AgenticIde.ContextTrim
import AgenticIde.ContextWindow
import AgenticIde.Lib.Trace

namespace AgenticIde

namespace ContextManager

/-- The derived `Default`. -/
def default : ContextManager := ⟨[], 0, [], 0⟩

/-- The ways to make a manager. -/
inductive Make
  | new (maxItems : Nat)
  | withBudget (maxItems budgetTokens : Nat)
  | default

/-- The manager that is made. -/
def Make.manager : Make → ContextManager
  | new maxItems => ContextManager.new maxItems
  | withBudget maxItems budgetTokens => ContextManager.withBudget maxItems budgetTokens
  | default => ContextManager.default

/-- The operations that change a manager. -/
inductive Op
  | push (item : String)
  | addChunk (chunk : ContextChunk)
  | budgetTrim
  | compress

/-- Perform an operation; a panic is none. -/
def perform (checks : OverflowChecks) (ctx : ContextManager) : Op → Option ContextManager
  | .push item => some (ctx.push item)
  | .addChunk chunk => some (ctx.addChunk chunk)
  | .budgetTrim => (ctx.budgetTrimReport checks).map Prod.snd
  | .compress => ctx.compress

/-- The item of a push. -/
def Op.item : Op → Option String
  | push item => some item
  | _ => none

/-- The items that were pushed, in order. -/
def pushed (ops : List Op) : List String := ops.filterMap Op.item

/-- What is asked of a window: it is the end of what was pushed, as long as
there is room for, and its snapshot numbers the entries from 0. -/
structure Rolling (maxItems : Nat) (items : List String) (ctx : ContextManager) : Prop where
  suffix : ctx.window <:+ items
  length : ctx.window.length = min items.length (max 1 maxItems)
  snapshot : ctx.snapshot =
    String.join (ctx.window.zipIdx.map fun entry => s!"[{entry.2}] {entry.1}\n")

/-! ### Operations on the chunks alone -/

/-- The manager changes in its chunks only. -/
def SameWindow (ctx ctx' : ContextManager) : Prop :=
  ctx'.window = ctx.window ∧ ctx'.maxItems = ctx.maxItems

/-- Trimming leaves the window. -/
theorem sameWindow_trimLoop {checks : OverflowChecks} {fuel dropped : Nat}
    {ctx : ContextManager} {r : TrimReport × ContextManager}
    (h : trimLoop checks fuel dropped ctx = some r) : ctx.SameWindow r.2 := by
  -- By induction on the rounds; each either ends the loop or removes a chunk.
  induction fuel generalizing dropped ctx with
  | zero => cases h
  | succ fuel ih =>
      simp only [trimLoop] at h
      cases htotal : ctx.usizeTotal checks with
      | none =>
          rw [htotal] at h
          cases h
      | some total =>
          simp only [htotal] at h
          split at h
          · split at h
            · obtain rfl := Option.some.inj h
              exact ⟨rfl, rfl⟩
            · have hnext := ih h
              exact hnext
            · obtain rfl := Option.some.inj h
              exact ⟨rfl, rfl⟩
          · obtain rfl := Option.some.inj h
            exact ⟨rfl, rfl⟩

theorem sameWindow_compress {ctx ctx' : ContextManager} (h : ctx.compress = some ctx') :
    ctx.SameWindow ctx' := by
  obtain ⟨chunks, -, rfl⟩ := Option.map_eq_some_iff.mp h
  exact ⟨rfl, rfl⟩

/-- Only a push touches the window. -/
theorem sameWindow_perform {checks : OverflowChecks} {ctx ctx' : ContextManager} {op : Op}
    (h : ctx.perform checks op = some ctx') (hop : op.item = none) : ctx.SameWindow ctx' := by
  cases op with
  | push item => cases hop
  | addChunk chunk =>
      obtain rfl := Option.some.inj h
      exact ⟨rfl, rfl⟩
  | budgetTrim =>
      obtain ⟨r, hr, rfl⟩ := Option.map_eq_some_iff.mp h
      exact sameWindow_trimLoop hr
  | compress => exact sameWindow_compress h

/-! ### Runs -/

/-- What a window holds after some pushes: the last ones as many as there is room
for, and all of them where there is no room at all. -/
structure Holds (maxItems : Nat) (items : List String) (ctx : ContextManager) : Prop where
  maxItems_eq : ctx.maxItems = maxItems
  bounded : 0 < maxItems → ctx.window = items.rtake maxItems
  unbounded : maxItems = 0 → ctx.window = items

variable {checks : OverflowChecks} {maxItems : Nat} {items : List String}
  {ctx ctx' : ContextManager}

theorem Holds.push (h : Holds maxItems items ctx) (item : String) :
    Holds maxItems (items ++ [item]) (ctx.push item) where
  maxItems_eq := h.maxItems_eq
  bounded hpos := by
    have hroom : ctx.window.length ≤ ctx.maxItems := by
      rw [h.bounded hpos, h.maxItems_eq]
      exact length_rtake_le _ _
    rw [push_window (h.maxItems_eq.symm ▸ hpos) hroom, h.maxItems_eq, h.bounded hpos,
      rtake_concat_rtake]
  unbounded hzero := by
    -- an empty window is full, and has nothing to evict
    have htail : (if ctx.window.length = ctx.maxItems then ctx.window.tail else ctx.window) =
        ctx.window := by
      rw [h.maxItems_eq, hzero]
      split
      case isTrue hempty => rw [List.length_eq_zero_iff.mp hempty]; rfl
      case isFalse => rfl
    show (if ctx.window.length = ctx.maxItems then ctx.window.tail else ctx.window) ++ [item] = _
    rw [htail, h.unbounded hzero]

theorem Holds.sameWindow (h : Holds maxItems items ctx) (hsame : ctx.SameWindow ctx') :
    Holds maxItems items ctx' where
  maxItems_eq := hsame.2.trans h.maxItems_eq
  bounded hpos := hsame.1.trans (h.bounded hpos)
  unbounded hzero := hsame.1.trans (h.unbounded hzero)

theorem Holds.perform (h : Holds maxItems items ctx) {op : Op}
    (hop : ctx.perform checks op = some ctx') :
    Holds maxItems (items ++ op.item.toList) ctx' := by
  cases hitem : op.item with
  | some item =>
      cases op with
      | push item' =>
          obtain rfl := Option.some.inj hop
          obtain rfl := Option.some.inj hitem
          exact h.push item'
      | addChunk chunk => cases hitem
      | budgetTrim => cases hitem
      | compress => cases hitem
  | none =>
      rw [Option.toList_none, List.append_nil]
      exact h.sameWindow (sameWindow_perform hop hitem)

theorem pushed_concat (ops : List Op) (op : Op) :
    pushed (ops ++ [op]) = pushed ops ++ op.item.toList := by
  rw [pushed, List.filterMap_append]
  cases op <;> rfl

theorem holds_manager (make : Make) : Holds make.manager.maxItems [] make.manager := by
  cases make <;> exact ⟨rfl, fun _ => (List.rtake_nil _).symm, fun _ => rfl⟩

/-- **What a window holds after any run.**  By induction on the run: a push keeps
the law, and every other operation leaves the window alone. -/
theorem holds_of_runs {make : Make} {ops : List Op}
    (h : Trace.Runs (perform checks) make.manager ops ctx) :
    Holds make.manager.maxItems (pushed ops) ctx := by
  apply h.invariant (P := fun ops ctx => Holds make.manager.maxItems (pushed ops) ctx)
  · exact holds_manager make
  · intro ops ctx op ctx' hholds hop
    rw [pushed_concat]
    exact hholds.perform hop

/-- A snapshot numbers the entries from its first index. -/
theorem snapshotFrom_eq (i : Nat) (items : List String) :
    snapshotFrom i items =
      String.join ((items.zipIdx i).map fun entry => s!"[{entry.2}] {entry.1}\n") := by
  induction items generalizing i with
  | nil => rfl
  | cons item items ih =>
      rw [snapshotFrom, ih, List.zipIdx_cons, List.map_cons, String.join_cons]

theorem maxItems_manager_eq_zero_iff (make : Make) :
    make.manager.maxItems = 0 ↔ make = .default := by
  cases make with
  | new maxItems => exact iff_of_false (by show ¬ max maxItems 1 = 0; omega) (by simp)
  | withBudget maxItems budgetTokens =>
      exact iff_of_false (by show ¬ max maxItems 1 = 0; omega) (by simp)
  | default => exact iff_of_true rfl rfl

/-- What holds of a window is the rolling law where there is room, or was no need
of any. -/
theorem Holds.rolls_iff (h : Holds maxItems items ctx) :
    Rolling maxItems items ctx ↔ 0 < maxItems ∨ items.length ≤ 1 := by
  constructor
  · intro hrolling
    -- Without room nothing was dropped, and there may be one entry at most.
    rcases Nat.eq_zero_or_pos maxItems with hzero | hpos
    · have hlength := hrolling.length
      rw [h.unbounded hzero, hzero] at hlength
      exact .inr (by omega)
    · exact .inl hpos
  · intro hroom
    -- With room the window is as long as it may be; without any and with one entry it is
    -- the same.
    have hwindow : ctx.window = items.rtake (max 1 maxItems) := by
      rcases Nat.eq_zero_or_pos maxItems with hzero | hpos
      · have hone := hroom.resolve_left (Nat.not_lt.mpr (Nat.le_of_eq hzero))
        rw [h.unbounded hzero, hzero]
        exact (rtake_of_length_le hone).symm
      · rw [h.bounded hpos, Nat.max_eq_right hpos]
    refine ⟨?_, ?_, snapshotFrom_eq 0 ctx.window⟩
    · rw [hwindow]
      exact List.drop_suffix _ _
    · rw [hwindow, List.rtake, List.length_drop]
      omega

/-- **The rolling window.**  After any run of operations the window holds the end
of what was pushed, exactly where the manager was not made by default, or no more
than one item was pushed. -/
theorem rolling_iff (checks : OverflowChecks) (make : Make) (ops : List Op)
    (ctx : ContextManager) (h : Trace.Runs (perform checks) make.manager ops ctx) :
    Rolling make.manager.maxItems (pushed ops) ctx ↔
      make ≠ .default ∨ (pushed ops).length ≤ 1 := by
  rw [(holds_of_runs h).rolls_iff, Nat.pos_iff_ne_zero, Ne, maxItems_manager_eq_zero_iff]

/-- Three items, and room for two. -/
theorem rolling_iff_three :
    Rolling 2 ["a", "b", "c"] ⟨["b", "c"], 2, [], 4096⟩ ↔
      Make.new 2 ≠ .default ∨ (pushed [.push "a", .push "b", .push "c"]).length ≤ 1 :=
  rolling_iff .on (.new 2) [.push "a", .push "b", .push "c"] ⟨["b", "c"], 2, [], 4096⟩
    (((Trace.Runs.nil.snoc rfl).snoc rfl).snoc rfl)

/-- A manager made by default keeps two items where there is room for one. -/
theorem not_rolling_default :
    ∃ ctx, Trace.Runs (perform .on) Make.default.manager [.push "a", .push "b"] ctx ∧
      ¬ Rolling Make.default.manager.maxItems (pushed [.push "a", .push "b"]) ctx := by
  refine ⟨⟨["a", "b"], 0, [], 0⟩, (Trace.Runs.nil.snoc rfl).snoc rfl, ?_⟩
  intro h
  exact absurd h.length (by decide)

end ContextManager

end AgenticIde
