/-
AgenticIde/GoalContext.lean

The goal in the working memory of a run.

A run pushes its goal first and then one observation a step, into a window that holds the
last sixteen entries (`run`) or as many as there are steps (`run_with_context`).  What the
LLM is shown is the window as it rolls (`Rolled`), so `run` has forgotten its goal from the
seventeenth thought on.

The contexts of a run are read off the trace of the same run with the calls of its tools left
out (`ToolExecutor.silent`): a tool may think for itself.  Leaving them out changes neither
what the run does nor what the tools do; it is the trace that is thinned.

`Rolled` is the law of the two loops, with what is shown and how an observation is pushed as
parameters: `run` shows the window as it is, `run_with_context` trims the chunks first, which
leaves the window alone.  From there on nothing about planning is needed.  A window with
room grows by one entry a step and keeps its first; a full one drops it.

The bound is exact.  The window of `run` has sixteen entries and one of them is the goal, so
the seventeenth context is the first without it; a run makes that many thoughts only if both
its loop and its validator let it, and an idle run makes as many as it may
(`mem_contexts_idle`).  A validator with a limit of zero lets a run take one step.
-/
import AgenticIde.ContextWindow
import AgenticIde.PlannerLockstep
import AgenticIde.Tools

namespace AgenticIde

variable {ε : Type}

/-! ### The contexts of a run -/

/-- The context an event shows the LLM. -/
def Event.context? : Event → Option String
  | think context _ => some context
  | _ => none

/-- An executor with its own calls left out of the trace. -/
def ToolExecutor.silent (tools : ToolExecutor ε) : ToolExecutor ε where
  run tool argument w := { tools.run tool argument w with trace := [] }

namespace Planner

/-- The planner with the calls of its tools left out. -/
def ownCalls (self : Planner ε) : Planner ε := { self with tools := self.tools.silent }

/-- Runs compared by everything but their events. -/
def unobserved (ε : Type) : Lockstep (World ε) (World ε) Event Event Unit :=
  .onPart id fun _ => none

theorem agree_unobserved {α : Type} (m : Core ε String α) : (unobserved ε).Agree m m := by
  rintro w w' (rfl : w = w')
  exact ⟨rfl, rfl, rfl⟩

theorem callsAgree_ownCalls (self : Planner ε) :
    CallsAgree (unobserved ε) self.ownCalls self where
  principal_eq := rfl
  validator_eq := rfl
  emitEvent _ := agree_unobserved _
  planAction _ := agree_unobserved _
  tool := by
    rintro tool argument w w' (rfl : w = w')
    exact ⟨rfl, rfl, by simp [unobserved, Lockstep.onPart]⟩
  applyEdit := by
    rintro edit w w' (rfl : w = w')
    exact ⟨rfl, rfl, rfl⟩
  record _ := agree_unobserved _
  now := agree_unobserved _
  count _ := agree_unobserved _

/-- Leaving out the calls of the tools changes nothing else about a run. -/
theorem run_ownCalls (self : Planner ε) (goal : String) (w : World ε) :
    (self.ownCalls.run goal w).result = (self.run goal w).result ∧
      (self.ownCalls.run goal w).state = (self.run goal w).state := by
  obtain ⟨hresult, hstate, -⟩ := self.callsAgree_ownCalls.loop (fun _ => agree_unobserved _)
    self.maxSteps 0 ((ContextManager.new 16).push s!"goal: {goal}") ⟨[], ""⟩ w w rfl
  exact ⟨hresult, hstate⟩

/-- Nor about a run seeded with chunks. -/
theorem runWithContext_ownCalls (self : Planner ε) (goal : String) (sources : List ContextChunk)
    (w : World ε) :
    (self.ownCalls.runWithContext goal sources w).result =
        (self.runWithContext goal sources w).result ∧
      (self.ownCalls.runWithContext goal sources w).state =
        (self.runWithContext goal sources w).state := by
  obtain ⟨hresult, hstate, -⟩ := self.callsAgree_ownCalls.loopWithContext
    (fun _ => agree_unobserved _) self.maxSteps 0
    ((sources.foldl ContextManager.addChunk (ContextManager.withBudget self.maxSteps 4096)).push
      s!"goal: {goal}") ⟨[], ""⟩ w w rfl
  exact ⟨hresult, hstate⟩

/-- The contexts `run` shows the LLM, oldest first. -/
def contexts (self : Planner ε) (goal : String) (w : World ε) : List String :=
  (self.ownCalls.run goal w).trace.filterMap Event.context?

/-- The contexts `run_with_context` shows the LLM, oldest first. -/
def contextsWithChunks (self : Planner ε) (goal : String) (sources : List ContextChunk)
    (w : World ε) : List String :=
  (self.ownCalls.runWithContext goal sources w).trace.filterMap Event.context?

end Planner

/-- The context contains the entry of the goal. -/
def ShowsGoal (goal context : String) : Prop :=
  (s!"goal: {goal}").toList <:+: context.toList

/-! ### The window rolls -/

/-- The contexts of a loop with `remaining` steps left, the next one being
`step`: each is what `shows` reads off the context manager, and each
observation that lets the loop go on brings the `next` one. -/
inductive Rolled (validator : Validator) (shows : ContextManager → String)
    (next : ContextManager → String → ContextManager) :
    Nat → Nat → ContextManager → List String → Prop
  | nil (step : Nat) (ctx : ContextManager) : Rolled validator shows next 0 step ctx []
  | last (remaining step : Nat) (ctx : ContextManager) :
      Rolled validator shows next (remaining + 1) step ctx [shows ctx]
  | cons {remaining step : Nat} {ctx : ContextManager} {contexts : List String}
      (obs : Observation) (hcontinue : validator.validate obs (step + 1) = .continue)
      (h : Rolled validator shows next remaining (step + 1) (next ctx obs.output) contexts) :
      Rolled validator shows next (remaining + 1) step ctx (shows ctx :: contexts)

namespace Planner

/-- Performing an action does not think, its tools apart. -/
theorem context?_performed {self : Planner ε} {plan : ActionPlan} {w w' : World ε}
    {t : List Event} (h : Performed self.ownCalls plan w t w') :
    t.filterMap Event.context? = [] := by
  cases h with
  | denied p ts answer hp hdenied hpending => rfl
  | ran hauth h₁ hedit hpending => cases hauth <;> cases hedit <;> rfl

/-- A step shows its context and no other. -/
theorem context?_react (self : Planner ε) (context : String) (w : World ε) :
    (self.ownCalls.react context w).trace.filterMap Event.context? = [context] := by
  obtain ⟨r, w₁, hthink⟩ := self.llm.think_apply context
    { w with metrics := w.metrics.incLlmCalls }
  -- A step counts, thinks, plans and performs; only the thought shows a context, and it
  -- comes before anything that may fail.
  unfold react
  rw [Act.bind_apply_of_ok (show Core.count .incLlmCalls w =
    ⟨.ok (), { w with metrics := w.metrics.incLlmCalls }, []⟩ from rfl), Outcome.after_nil,
    Act.bind_apply, show self.ownCalls.llm.think context _ = _ from hthink]
  cases r with
  | error e => rfl
  | ok thought =>
      obtain ⟨r, w₂, hplan⟩ := self.llm.planAction_apply thought w₁
      rw [Outcome.andThen_mk_ok, Act.bind_apply,
        show self.ownCalls.llm.planAction thought w₁ = _ from hplan]
      cases r with
      | error e => rfl
      | ok plan =>
          -- The tools are silent here, so what is performed shows none.
          have hperformed := context?_performed (performed_perform self.ownCalls plan w₂)
          have htrace : ∀ f : Observation → Observation × Step,
              ((self.ownCalls.perform plan >>= fun obs => pure (f obs) :
                Core ε String (Observation × Step)) w₂).trace =
                (self.ownCalls.perform plan w₂).trace := by
            intro f
            rw [Act.bind_apply]
            cases hresult : (self.ownCalls.perform plan w₂).result <;>
              simp [Outcome.andThen, hresult]
          rw [Outcome.andThen_mk_ok, Outcome.after_after, Outcome.after_trace, htrace,
            List.filterMap_append, hperformed]
          rfl

/-- What follows a step shows its contexts behind that of the step. -/
theorem context?_react_bind {α : Type} (self : Planner ε) (context : String)
    (f : Observation × Step → Core ε String α) (w : World ε) :
    ∃ rest, ((self.ownCalls.react context >>= f) w).trace.filterMap Event.context? =
        context :: rest ∧
      (rest = [] ∨ ∃ a w', rest = (f a w').trace.filterMap Event.context?) := by
  have hreact := self.context?_react context w
  rw [Act.bind_apply]
  rcases hrun : self.ownCalls.react context w with ⟨r, w', t⟩
  rw [hrun] at hreact
  cases r with
  | error e => exact ⟨[], hreact, .inl rfl⟩
  | ok a =>
      refine ⟨_, ?_, .inr ⟨a, w', rfl⟩⟩
      rw [Outcome.andThen_mk_ok, Outcome.after_trace, List.filterMap_append, hreact,
        List.singleton_append]

/-- The contexts of the loop of `run`. -/
theorem rolled_loop (self : Planner ε) (remaining step : Nat) (ctx : ContextManager)
    (trace : RunTrace) (w : World ε) :
    Rolled self.validator ContextManager.snapshot ContextManager.push remaining step ctx
      ((self.ownCalls.loop remaining step ctx trace w).trace.filterMap Event.context?) := by
  induction remaining generalizing step ctx trace w with
  | zero => exact .nil step ctx
  | succ remaining ih =>
      unfold loop
      -- the line for the host shows nothing
      show Rolled _ _ _ _ _ _ (((self.ownCalls.react ctx.snapshot >>= _) _).trace.filterMap _)
      obtain ⟨rest, hcontexts, hrest⟩ := self.context?_react_bind ctx.snapshot _ _
      rw [hcontexts]
      rcases hrest with rfl | ⟨⟨obs, recorded⟩, w', rfl⟩
      · exact .last remaining step ctx
      · dsimp only
        cases hverdict : self.ownCalls.validator.validate obs (step + 1) with
        | «continue» => exact .cons obs hverdict (ih _ _ _ _)
        | done => exact .last remaining step ctx
        | budgetExhausted => exact .last remaining step ctx

/-- The contexts of the loop of `run_with_context`: the window is trimmed
before it is shown. -/
theorem rolled_loopWithContext (self : Planner ε) (remaining step : Nat) (ctx : ContextManager)
    (trace : RunTrace) (w : World ε) :
    Rolled self.validator (fun ctx => ctx.budgetTrim.buildPrompt)
      (fun ctx => ctx.budgetTrim.push) remaining step ctx
      ((self.ownCalls.loopWithContext remaining step ctx trace w).trace.filterMap
        Event.context?) := by
  -- By induction on the steps left: a step that fails or is the last one shows its context,
  -- and any other one is followed by the rest of the loop.
  induction remaining generalizing step ctx trace w with
  | zero => exact .nil step ctx
  | succ remaining ih =>
      unfold loopWithContext
      obtain ⟨rest, hcontexts, hrest⟩ := self.context?_react_bind ctx.budgetTrim.buildPrompt _ w
      rw [hcontexts]
      rcases hrest with rfl | ⟨⟨obs, recorded⟩, w', rfl⟩
      · exact .last remaining step ctx
      · dsimp only
        cases hverdict : self.ownCalls.validator.validate obs (step + 1) with
        | «continue» => exact .cons obs hverdict (ih _ _ _ _)
        | done => exact .last remaining step ctx
        | budgetExhausted => exact .last remaining step ctx

end Planner

namespace Rolled

variable {validator : Validator} {shows : ContextManager → String}
  {next : ContextManager → String → ContextManager} {remaining step : Nat} {ctx : ContextManager}
  {contexts : List String}

/-- A step shows the context it starts in. -/
theorem mem (h : Rolled validator shows next (remaining + 1) step ctx contexts) :
    shows ctx ∈ contexts := by
  cases h with
  | last => exact List.mem_singleton_self _
  | cons obs hcontinue h => exact List.mem_cons_self

/-- A loop shows at most one context a step. -/
theorem length_le (h : Rolled validator shows next remaining step ctx contexts) :
    contexts.length ≤ remaining := by
  induction h with
  | nil step ctx => exact Nat.le_refl _
  | last remaining step ctx => simp
  | cons obs hcontinue h ih => simpa using ih

/-- A step budget bounds them as well: only the first step is for free. -/
theorem length_le_limit {limit : Nat}
    (h : Rolled (BasicValidator limit) shows next remaining step ctx contexts) :
    contexts.length ≤ max 1 (limit - step) := by
  induction h with
  | nil step ctx => simp
  | last remaining step ctx => simp
  | @cons remaining step ctx contexts obs hcontinue h ih =>
      have hlimit : step + 1 < limit := by
        rcases BasicValidator_cases limit obs (step + 1) with ⟨-, h⟩ | ⟨-, h⟩ | ⟨hleft, -⟩
        · rw [hcontinue] at h
          cases h
        · rw [hcontinue] at h
          cases h
        · exact hleft
      rw [List.length_cons]
      omega

/-- **As long as the window has room, the goal is shown**: it is the oldest entry of
a window that grows by one a step.  The step that finds the window full still shows
it, as its context is made before the window is pushed to. -/
theorem shows_goal {goal : String}
    (hshows : ∀ ctx : ContextManager, s!"goal: {goal}" ∈ ctx.window → ShowsGoal goal (shows ctx))
    (hnext : ∀ (ctx : ContextManager) output, ctx.window.length < ctx.maxItems →
      (next ctx output).window = ctx.window ++ [output] ∧
        (next ctx output).maxItems = ctx.maxItems)
    (h : Rolled validator shows next remaining step ctx contexts)
    (hgoal : s!"goal: {goal}" ∈ ctx.window) :
    ∀ context ∈ contexts.take (ctx.maxItems + 1 - ctx.window.length), ShowsGoal goal context := by
  induction h with
  | nil step ctx => simp
  | last remaining step ctx =>
      intro context hcontext
      rw [List.mem_singleton.mp (List.mem_of_mem_take hcontext)]
      exact hshows ctx hgoal
  | @cons remaining step ctx contexts obs hcontinue h ih =>
      intro context hcontext
      by_cases hroom : ctx.window.length < ctx.maxItems
      · obtain ⟨hwindow, hmax⟩ := hnext ctx obs.output hroom
        have htake : ctx.maxItems + 1 - ctx.window.length =
            (ctx.maxItems - ctx.window.length) + 1 := by omega
        rw [htake, List.take_succ_cons] at hcontext
        rcases List.mem_cons.mp hcontext with rfl | hcontext
        · exact hshows ctx hgoal
        · apply ih (by simp [hwindow, hgoal]) context
          rw [hmax, hwindow, List.length_append, List.length_singleton]
          rwa [Nat.add_sub_add_right]
      · -- the window is full, and this is the last time it shows the goal
        have htake : ctx.maxItems + 1 - ctx.window.length ≤ 1 := by omega
        have hfirst := List.take_subset_take_left _ htake hcontext
        rw [List.take_succ_cons, List.take_zero, List.mem_singleton] at hfirst
        rw [hfirst]
        exact hshows ctx hgoal

end Rolled

/-! ### The goal -/

/-- The planner with its two budgets: the bound of the loop, and the limit of
the validator. -/
def Planner.within (self : Planner ε) (maxSteps limit : Nat) : Planner ε :=
  { self with maxSteps := maxSteps, validator := BasicValidator limit }

theorem showsGoal_snapshot {goal : String} {ctx : ContextManager}
    (h : s!"goal: {goal}" ∈ ctx.window) : ShowsGoal goal ctx.snapshot :=
  ContextManager.isInfix_snapshotFrom h 0

theorem showsGoal_buildPrompt {goal : String} {ctx : ContextManager}
    (h : s!"goal: {goal}" ∈ ctx.window) : ShowsGoal goal ctx.buildPrompt :=
  (showsGoal_snapshot h).trans ctx.isSuffix_buildPrompt.isInfix

namespace Planner

/-- `run` shows its goal in the first sixteen contexts. -/
theorem showsGoal_of_mem_take (self : Planner ε) (goal : String) (w : World ε) :
    ∀ context ∈ (self.contexts goal w).take 16, ShowsGoal goal context :=
  Rolled.shows_goal (fun _ => showsGoal_snapshot)
    (fun _ output h => ⟨ContextManager.push_window_of_lt h output, rfl⟩)
    (self.rolled_loop self.maxSteps 0 ((ContextManager.new 16).push s!"goal: {goal}") ⟨[], ""⟩ w)
    (List.mem_singleton_self _)

/-- `run_with_context` has room for its goal throughout. -/
theorem showsGoal_of_mem_withChunks (self : Planner ε) (goal : String)
    (sources : List ContextChunk) (w : World ε) :
    ∀ context ∈ self.contextsWithChunks goal sources w, ShowsGoal goal context := by
  set ctx := (sources.foldl ContextManager.addChunk
    (ContextManager.withBudget self.maxSteps 4096)).push s!"goal: {goal}" with hctx
  have hrolled := self.rolled_loopWithContext self.maxSteps 0 ctx ⟨[], ""⟩ w
  obtain ⟨hchunks, hmax⟩ := ContextManager.foldl_addChunk_window
    (ContextManager.withBudget self.maxSteps 4096) sources
  have hempty : (sources.foldl ContextManager.addChunk
      (ContextManager.withBudget self.maxSteps 4096)).window = [] := hchunks
  -- The chunks are not in the window, so there is room for the goal, and for one entry a
  -- step.
  have hroom : (sources.foldl ContextManager.addChunk
      (ContextManager.withBudget self.maxSteps 4096)).window.length <
      (sources.foldl ContextManager.addChunk
        (ContextManager.withBudget self.maxSteps 4096)).maxItems := by
    rw [hempty, hmax]
    exact Nat.one_pos.trans_le (Nat.le_max_right _ _)
  have hwindow : ctx.window = [s!"goal: {goal}"] := by
    rw [hctx, ContextManager.push_window_of_lt hroom, hempty, List.nil_append]
  have hshown := hrolled.shows_goal (fun ctx h => showsGoal_buildPrompt (by simpa using h))
    (fun ctx output h => ⟨by
      rw [ContextManager.push_window_of_lt (by simpa using h), ContextManager.budgetTrim_window],
      by simp⟩) (by rw [hwindow]; exact List.mem_singleton_self _)
  intro context hcontext
  apply hshown context
  rw [List.take_of_length_le]
  · exact hcontext
  -- As many contexts as there are steps are shown at most.
  · have hlength := hrolled.length_le
    have hsteps : self.maxSteps ≤ ctx.maxItems := by
      rw [hctx, ContextManager.push_maxItems, hmax]
      exact Nat.le_max_left _ _
    rw [hwindow, List.length_singleton]
    omega

/-- A planner whose steps bring nothing: its LLM plans a tool that needs no
right and answers the empty text. -/
def idle (maxSteps limit : Nat) : Planner Unit where
  llm := ⟨fun _ env => (.ok ⟨""⟩, env), fun _ env => (.ok ⟨"noop", ""⟩, env)⟩
  tools := .external fun tool _ env => (.ok ⟨tool, "", false⟩, env)
  validator := BasicValidator limit
  bridge := ⟨fun _ env => (.ok (), env), fun _ env => env⟩
  maxSteps := maxSteps
  principal := .all "t" "u"
  audit := ⟨fun _ env => (.ok (), env)⟩

/-- Nothing stops an idle run but its budgets. -/
theorem idle_continues (maxSteps : Nat) {limit step : Nat} (h : step < limit) :
    (idle maxSteps limit).validator.validate ⟨"noop", "", false⟩ step = .continue := by
  show (if false = true then Verdict.done else if limit ≤ step then .budgetExhausted
    else .continue) = _
  rw [if_neg (by simp), if_neg (by omega)]

/-- Step by step, the window of an idle run fills with empty entries. -/
theorem mem_contexts_idle {maxSteps limit : Nat} (k : Nat) {remaining step : Nat}
    (hremaining : k < remaining) (hlimit : step + k < limit) (ctx : ContextManager)
    (trace : RunTrace) (w : World Unit) :
    ((List.replicate k "").foldl ContextManager.push ctx).snapshot ∈
      ((idle maxSteps limit).ownCalls.loop remaining step ctx trace w).trace.filterMap
        Event.context? := by
  -- By induction on the entries that are pushed; each step of the idle run pushes an empty
  -- one and goes on.
  induction k generalizing remaining step ctx trace w with
  | zero =>
      obtain ⟨remaining, rfl⟩ := Nat.exists_eq_add_one.mpr hremaining
      exact ((idle maxSteps limit).rolled_loop (remaining + 1) step ctx trace w).mem
  | succ k ih =>
      obtain ⟨remaining, rfl⟩ := Nat.exists_eq_add_one.mpr (Nat.zero_lt_of_lt hremaining)
      obtain ⟨recorded, w', t, hstep⟩ : ∃ recorded w' t, ((do
          (idle maxSteps limit).ownCalls.bridge.emitEvent (.status s!"step {step}: thinking")
          (idle maxSteps limit).ownCalls.react ctx.snapshot : Core Unit String _) w) =
            ⟨.ok (⟨"noop", "", false⟩, recorded), w', t⟩ := ⟨_, _, _, rfl⟩
      have hcontinue : (idle maxSteps limit).ownCalls.validator.validate ⟨"noop", "", false⟩
          (step + 1) = .continue := idle_continues maxSteps (by omega)
      unfold loop
      rw [← bind_assoc, Act.bind_apply_of_ok hstep]
      simp only [hcontinue, Outcome.after_trace, List.filterMap_append]
      exact List.mem_append_right _ (ih (by omega) (by omega) (ctx.push "") _ w')

/-- From the seventeenth step on, an idle run has forgotten its goal. -/
theorem idle_forgets {maxSteps limit : Nat} (hmax : 16 < maxSteps) (hlimit : 16 < limit)
    (goal : String) (w : World Unit) :
    ∃ context ∈ (idle maxSteps limit).contexts goal w, ¬ ShowsGoal goal context := by
  refine ⟨_, mem_contexts_idle 16 hmax (by omega)
    ((ContextManager.new 16).push s!"goal: {goal}") ⟨[], ""⟩ w, ?_⟩
  have hwindow : ((List.replicate 16 "").foldl ContextManager.push
      ((ContextManager.new 16).push s!"goal: {goal}")).window = List.replicate 16 "" :=
    @ContextManager.foldl_push_window ((ContextManager.new 16).push s!"goal: {goal}")
      (Nat.succ_pos 15) (Nat.succ_le_succ (Nat.zero_le 15)) (List.replicate 16 "")
  rw [ContextManager.snapshot, hwindow]
  intro hshows
  have hg : 'g' ∈ (s!"goal: {goal}").toList := by
    show 'g' ∈ ("goal: " ++ goal).toList
    rw [String.toList_append]
    exact List.mem_append_left _ (by decide)
  exact absurd (hshows.subset hg) (by decide)

/-- **The goal stays in context** exactly as long as a run has at most sixteen
steps: with a loop bound and a validator limit such that no run makes a
seventeenth one.  Whatever they are, the first sixteen contexts of `run` show
the goal, and so do all contexts of `run_with_context`. -/
theorem goal_in_context_iff (maxSteps limit : Nat) (goal : String) :
    ((∀ (ε : Type) (self : Planner ε) (w : World ε),
        ∀ context ∈ (self.within maxSteps limit).contexts goal w, ShowsGoal goal context) ↔
      min maxSteps (max 1 limit) ≤ 16) ∧
    ∀ (ε : Type) (self : Planner ε) (w : World ε),
      (∀ context ∈ (self.contexts goal w).take 16, ShowsGoal goal context) ∧
      ∀ sources, ∀ context ∈ self.contextsWithChunks goal sources w, ShowsGoal goal context := by
  refine ⟨⟨?_, ?_⟩, fun ε self w => ⟨self.showsGoal_of_mem_take goal w, fun sources =>
    self.showsGoal_of_mem_withChunks goal sources w⟩⟩
  · intro h
    -- Otherwise the idle run makes a seventeenth thought, without the goal.
    by_contra hlong
    obtain ⟨context, hcontext, hforgets⟩ :=
      @idle_forgets maxSteps limit (by omega) (by omega) goal (.initial ())
    exact hforgets (h Unit (idle maxSteps limit) (.initial ()) context hcontext)
  · intro hshort ε self w context hcontext
    have hrolled := (self.within maxSteps limit).rolled_loop maxSteps 0
      ((ContextManager.new 16).push s!"goal: {goal}") ⟨[], ""⟩ w
    -- There are at most sixteen contexts, by the loop or by the validator.
    have hlength := hrolled.length_le
    have hlimit := Rolled.length_le_limit hrolled
    apply (self.within maxSteps limit).showsGoal_of_mem_take goal w context
    rw [List.take_of_length_le]
    · exact hcontext
    · exact (Nat.le_min.mpr ⟨hlength, hlimit⟩).trans hshort

/-- A run of seventeen steps forgets what it is for. -/
theorem not_showsGoal :
    ¬ ∀ context ∈ (idle 17 17).contexts "ship it" (World.initial ()),
      ShowsGoal "ship it" context := by
  intro h
  obtain ⟨context, hcontext, hforgets⟩ :=
    @idle_forgets 17 17 (by decide) (by decide) "ship it" (World.initial ())
  exact hforgets (h context hcontext)

end Planner

end AgenticIde
