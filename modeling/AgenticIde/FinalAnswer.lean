/-
AgenticIde/FinalAnswer.lean

The final answer of a run, under the planner of a server.

The planner of a server has two budgets: its loop is bounded by eight steps, its validator by
`quest_max_steps`.  The validator is the one that answers `budget exhausted`; when it allows
more steps than the loop has, a run that finishes nothing falls off the loop, and its final
answer is empty.

A run ends in one of three ways (`EndedUnder`): on a terminal observation, by the validator,
or because the loop has no more steps.  The loop lemma keeps count of the steps taken, as
the verdict of the validator depends on their number; a limit of zero is one of one, since
the validator only looks after a step.  Which endings are possible under which budgets is
then arithmetic.

`EndsWell` asks for one of the first two, with the answer that belongs to it.  So it fails
exactly on the third, and that one can be reached as soon as the limit is above eight: an
idle run, whose model plans nothing that ends it, takes all eight steps
(`loopEnding_idle`).  A run that fails has no answer, and nothing is asked of it.
-/
import AgenticIde.GoalContext
import AgenticIde.QuestLog
import AgenticIde.Server

namespace AgenticIde

variable {ε : Type}

namespace Planner

/-! ### How a run ends -/

/-- How a loop of `remaining` steps ends under the limit of a validator,
`done` steps being taken. -/
inductive EndedUnder (limit remaining done : Nat) (steps : List Step) : Ending → Prop
  | done (obs : Observation) (hterminal : obs.terminal = true)
      (hlast : steps.getLast?.map Step.observation = some obs.output)
      (hbound : steps.length ≤ done + remaining) (hlimit : steps.length ≤ max (done + 1) limit) :
      EndedUnder limit remaining done steps (.done obs)
  | budgetExhausted (hlength : steps.length = max (done + 1) limit)
      (hbound : steps.length ≤ done + remaining) :
      EndedUnder limit remaining done steps .budgetExhausted
  | stepsSpent (hlength : steps.length = done + remaining)
      (hlimit : 0 < remaining → steps.length < limit) :
      EndedUnder limit remaining done steps .stepsSpent

/-- A step before such an ending. -/
theorem EndedUnder.step {limit remaining done : Nat} {steps : List Step} {ending : Ending}
    (hdone : done + 1 < limit) (h : EndedUnder limit remaining (done + 1) steps ending) :
    EndedUnder limit (remaining + 1) done steps ending := by
  cases h with
  | done obs hterminal hlast hbound hlimit =>
      exact .done obs hterminal hlast (by omega) (by omega)
  | budgetExhausted hlength hbound => exact .budgetExhausted (by omega) (by omega)
  | stepsSpent hlength hlimit =>
      refine .stepsSpent (by omega) fun _ => ?_
      rcases Nat.eq_zero_or_pos remaining with hzero | hpos
      · omega
      · exact hlimit hpos

/-- A step records the observation it returns. -/
theorem observation_react {self : Planner ε} {context : String} {w : World ε}
    {obs : Observation} {recorded : Step}
    (h : (self.react context w).result = .ok (obs, recorded)) :
    recorded.observation = obs.output := by
  unfold react at h
  obtain ⟨_, w₁, _, -, h⟩ := Act.exists_of_bind_eq_ok h
  obtain ⟨thought, w₂, _, -, h⟩ := Act.exists_of_bind_eq_ok h
  obtain ⟨plan, w₃, _, -, h⟩ := Act.exists_of_bind_eq_ok h
  obtain ⟨obs', w₄, _, -, h⟩ := Act.exists_of_bind_eq_ok h
  cases h
  rfl

/-- **A loop under the step budget ends** in one of these ways.  By induction on the
steps that remain: the step that is taken ends the loop, or is one more before the
end of the rest. -/
theorem endedUnder_loopEnding {self : Planner ε} {limit : Nat} {steps' : List Step}
    {ending : Ending} (hvalidator : self.validator = BasicValidator limit) (remaining done : Nat)
    (ctx : ContextManager) (steps : List Step) (hdone : steps.length = done) (w : World ε)
    (h : (self.loopEnding remaining done ctx steps w).result = .ok (steps', ending)) :
    EndedUnder limit remaining done steps' ending := by
  -- By induction on the steps left; the number of steps taken goes along, for the
  -- validator.
  induction remaining generalizing done ctx steps w with
  | zero =>
      obtain ⟨rfl, rfl⟩ : steps = steps' ∧ Ending.stepsSpent = ending := by
        simpa [loopEnding] using h
      exact .stepsSpent (by omega) (by simp)
  | succ remaining ih =>
      unfold loopEnding at h
      obtain ⟨_, w₁, _, -, h⟩ := Act.exists_of_bind_eq_ok h
      obtain ⟨⟨obs, recorded⟩, w₂, _, hreact, h⟩ := Act.exists_of_bind_eq_ok h
      have hlength : (steps ++ [recorded]).length = done + 1 := by
        rw [List.length_append, List.length_singleton, hdone]
      have hrecorded : recorded.observation = obs.output := observation_react (by rw [hreact])
      dsimp only at h
      rw [hvalidator] at h
      -- The three verdicts: a terminal observation, a limit that is reached, and neither.
      rcases BasicValidator_cases limit obs (done + 1) with
        ⟨hterminal, hverdict⟩ | ⟨hspent, hverdict⟩ | ⟨hleft, hverdict⟩
      · rw [hverdict] at h
        cases h
        exact .done obs hterminal (by simp [hrecorded]) (by omega) (by omega)
      · rw [hverdict] at h
        cases h
        exact .budgetExhausted (by omega) (by omega)
      · rw [hverdict] at h
        exact (ih (done + 1) _ _ hlength _ h).step hleft

/-! ### The planner of a server -/

/-- The run ends as it should with a loop bound of eight and a validator
limit of `m`: on a terminal observation, whose output is the answer, or by
saying that the budget is exhausted, with the steps the budgets allow. -/
def EndsWell (m : Nat) (trace : RunTrace) (ending : Ending) : Prop :=
  (∃ obs : Observation, ending = .done obs ∧ obs.terminal = true ∧
    trace.finalAnswer = obs.output ∧
    trace.steps.getLast?.map Step.observation = some obs.output ∧
    trace.steps.length ≤ min 8 (max 1 m)) ∨
  (trace.finalAnswer = "budget exhausted" ∧ trace.steps.length = min 8 (max 1 m))

/-- Within the two budgets, a run ends well unless it falls off the loop, and
it can only do so under a limit beyond the loop. -/
theorem endsWell_runEnding_iff {self : Planner ε} {m : Nat} {goal : String} {w : World ε}
    {steps : List Step} {ending : Ending}
    (h : ((self.within 8 m).runEnding goal w).result = .ok (steps, ending)) :
    EndsWell m (traceOf (steps, ending)) ending ↔ m ≤ 8 ∨ ∃ obs, ending = .done obs := by
  have hvalidator : (self.within 8 m).validator = BasicValidator m := rfl
  have hended := endedUnder_loopEnding hvalidator 8 0 _ [] rfl w h
  cases hended with
  | done obs hterminal hlast hbound hlimit =>
      refine ⟨fun _ => .inr ⟨obs, rfl⟩, fun _ => .inl ⟨obs, rfl, hterminal, rfl, hlast, ?_⟩⟩
      show steps.length ≤ _
      omega
  | budgetExhausted hlength hbound =>
      refine ⟨fun _ => .inl (by omega), fun _ => .inr ⟨rfl, ?_⟩⟩
      show steps.length = _
      omega
  -- The loop ran out, so its eight steps were within the limit; it is above eight.
  | stepsSpent hlength hlimit =>
      have hbeyond := hlimit (by decide)
      constructor
      · rintro (⟨obs, hdone, -⟩ | ⟨hanswer, -⟩)
        · cases hdone
        · exact absurd hanswer (by simp [traceOf, Ending.answer])
      · rintro (hm | ⟨obs, hdone⟩)
        · omega
        · cases hdone

/-- An idle run takes every step its loop has, as long as its validator
lets it. -/
theorem loopEnding_idle {maxSteps limit : Nat} (remaining done : Nat)
    (hlimit : done + remaining < limit) (ctx : ContextManager) (steps : List Step)
    (w : World Unit) :
    ((idle maxSteps limit).loopEnding remaining done ctx steps w).result =
      .ok (steps ++ List.replicate remaining ⟨"", "noop", ""⟩, .stepsSpent) := by
  -- No observation of the run is terminal, and the limit is out of reach.
  induction remaining generalizing done ctx steps w with
  | zero => simp [loopEnding]
  | succ remaining ih =>
      obtain ⟨w', t, hstep⟩ : ∃ w' t, ((do
          (idle maxSteps limit).bridge.emitEvent (.status s!"step {done}: thinking")
          (idle maxSteps limit).react ctx.snapshot : Core Unit String _) w) =
            ⟨.ok (⟨"noop", "", false⟩, ⟨"", "noop", ""⟩), w', t⟩ := ⟨_, _, rfl⟩
      have hcontinue : (idle maxSteps limit).validator.validate ⟨"noop", "", false⟩
          (done + 1) = .continue := idle_continues maxSteps (by omega)
      unfold loopEnding
      rw [← bind_assoc, Act.bind_apply_of_ok hstep]
      simp only [hcontinue, Outcome.after_result]
      rw [ih (done + 1) (by omega), List.append_assoc, List.singleton_append,
        ← List.replicate_succ]

/-- **The final answer of a run** under the planner of a server: every run
ends well exactly when `quest_max_steps` is at most eight; beyond that, a run
ends well exactly when it ends on a terminal observation. -/
theorem endsWell_iff (m : Nat) :
    ((∀ (ε : Type) (self : Planner ε) (goal : String) (w : World ε) (trace : RunTrace),
        ((self.within 8 m).run goal w).result = .ok trace →
          ∃ steps ending, ((self.within 8 m).runEnding goal w).result = .ok (steps, ending) ∧
            trace = traceOf (steps, ending) ∧ EndsWell m trace ending) ↔ m ≤ 8) ∧
    ∀ (ε : Type) (self : Planner ε) (goal : String) (w : World ε) (steps : List Step)
        (ending : Ending), ((self.within 8 m).runEnding goal w).result = .ok (steps, ending) →
      (EndsWell m (traceOf (steps, ending)) ending ↔ m ≤ 8 ∨ ∃ obs, ending = .done obs) := by
  refine ⟨⟨?_, ?_⟩, fun ε self goal w steps ending => endsWell_runEnding_iff⟩
  · intro h
    by_contra hbeyond
    -- Above eight the idle run spends its steps, and so does not end well.
    have hidle : ((idle 8 m).runEnding "" (.initial ())).result =
        .ok (List.replicate 8 ⟨"", "noop", ""⟩, .stepsSpent) :=
      loopEnding_idle 8 0 (by omega) _ [] (.initial ())
    have hrun : ((idle 8 m).run "" (.initial ())).result =
        .ok (traceOf (List.replicate 8 ⟨"", "noop", ""⟩, .stepsSpent)) := by
      rw [run_eq_map_runEnding, Act.map_apply, hidle]
      rfl
    obtain ⟨steps, ending, hending, -, hwell⟩ := h Unit (idle 8 m) "" (.initial ()) _ hrun
    have hsame : ((idle 8 m).runEnding "" (.initial ())).result = .ok (steps, ending) := hending
    rw [hidle] at hsame
    cases hsame
    rcases (endsWell_runEnding_iff hending).mp hwell with hm | ⟨obs, hdone⟩
    · exact hbeyond hm
    · cases hdone
  · intro hm ε self goal w trace hrun
    rw [run_eq_map_runEnding, Act.map_apply] at hrun
    rcases hending : ((self.within 8 m).runEnding goal w).result with e | ⟨steps, ending⟩
    · rw [hending] at hrun
      cases hrun
    · rw [hending] at hrun
      cases hrun
      exact ⟨steps, ending, rfl, rfl, (endsWell_runEnding_iff hending).mpr (.inl hm)⟩

/-- With a limit of nine, a run whose tools finish nothing ends without an
answer. -/
theorem not_endsWell :
    ((idle 8 9).runEnding "ship it" (World.initial ())).result =
        .ok (List.replicate 8 ⟨"", "noop", ""⟩, .stepsSpent) ∧
      ((idle 8 9).run "ship it" (World.initial ())).result =
        .ok ⟨List.replicate 8 ⟨"", "noop", ""⟩, ""⟩ ∧
      ¬ EndsWell 9 ⟨List.replicate 8 ⟨"", "noop", ""⟩, ""⟩ .stepsSpent := by
  have hending : ((idle 8 9).runEnding "ship it" (World.initial ())).result =
      .ok (List.replicate 8 ⟨"", "noop", ""⟩, .stepsSpent) :=
    loopEnding_idle 8 0 (by omega) _ [] (.initial ())
  refine ⟨hending, ?_, ?_⟩
  · rw [run_eq_map_runEnding, Act.map_apply, hending]
    rfl
  · rintro (⟨obs, hdone, -⟩ | ⟨hanswer, -⟩)
    · cases hdone
    · exact absurd hanswer (by decide)

end Planner

end AgenticIde
