/-
AgenticIde/QuestLog.lean

The attempts of a quest.

The report of a quest says what became of each subtask, not how often it was attempted nor
how the attempts ended.  `runLogged` is the same quest with a log of its attempts beside the
report: every loop of `Quest.run` again, with one more value returned.  Forgetting the log
gives the quest itself (`run_eq_map_runLogged`), so what is proved of the log is proved of the
attempts the quest makes.

An attempt is a run of the planner, with how it ended or the error that stopped it, and the
events of it; so the trace of a quest is the trace of its decomposition and those of its
attempts, one after the other (`runLogged_apply`).  An attempt succeeds if its final answer
is that of `finish`, by which it is judged in the source too.

`Retried` says what the attempts at one subtask look like: only the last one may have
succeeded, and where none has there are as many as are allowed.  `Processed` says it of a
subtask: skipped, and then not attempted; or attempted, with the status that its attempts
give it.
-/
import AgenticIde.Quest

namespace AgenticIde

variable {ε ε' : Type}

/-! ### How a run of the planner ends -/

/-- How the ReAct loop ends: `Verdict::Done` on an observation, the budget of
the validator, or the last step. -/
inductive Ending
  | done (obs : Observation)
  | budgetExhausted
  | stepsSpent
  deriving DecidableEq

namespace Ending

/-- The final answer of a run that ends so. -/
def answer : Ending → String
  | done obs => obs.output
  | budgetExhausted => "budget exhausted"
  | stepsSpent => ""

/-- Only `Verdict::Done` can bring the answer a quest looks for. -/
theorem answer_eq_iff (ending : Ending) :
    ending.answer = "task finished" ↔ ∃ obs, ending = done obs ∧ obs.output = "task finished" := by
  cases ending with
  | done obs => simp [answer]
  | budgetExhausted => simp [answer]
  | stepsSpent => simp [answer]

end Ending

namespace Planner

variable (self : Planner ε)

/-- The loop of `run`, with its ending. -/
def loopEnding : Nat → Nat → ContextManager → List Step → Core ε String (List Step × Ending)
  | 0, _, _, steps => return (steps, .stepsSpent)
  | remaining + 1, step, ctx, steps => do
      self.bridge.emitEvent (.status s!"step {step}: thinking")
      let (obs, recorded) ← self.react ctx.snapshot
      match self.validator.validate obs (step + 1) with
      | .continue =>
          loopEnding remaining (step + 1) (ctx.push obs.output) (steps ++ [recorded])
      | .done => return (steps ++ [recorded], .done obs)
      | .budgetExhausted => return (steps ++ [recorded], .budgetExhausted)

/-- `run`, with its ending. -/
def runEnding (goal : String) : Core ε String (List Step × Ending) :=
  self.loopEnding self.maxSteps 0 ((ContextManager.new 16).push s!"goal: {goal}") []

/-- The trace of a run that ends so. -/
def traceOf (r : List Step × Ending) : RunTrace := ⟨r.1, r.2.answer⟩

theorem loop_eq_map_loopEnding (remaining step : Nat) (ctx : ContextManager) (steps : List Step) :
    self.loop remaining step ctx ⟨steps, ""⟩ =
      traceOf <$> self.loopEnding remaining step ctx steps := by
  induction remaining generalizing step ctx steps with
  | zero => rw [loop, loopEnding, map_pure]; rfl
  | succ remaining ih =>
      rw [loop, loopEnding, map_bind]
      apply bind_congr
      intro _
      rw [map_bind]
      refine bind_congr fun ⟨obs, recorded⟩ => ?_
      dsimp only
      rcases self.validator.validate obs (step + 1) with - | - | -
      · exact ih _ _ _
      · rw [map_pure]; rfl
      · rw [map_pure]; rfl

/-- Forgetting how it ended, a run is the run. -/
theorem run_eq_map_runEnding (goal : String) :
    self.run goal = traceOf <$> self.runEnding goal :=
  self.loop_eq_map_loopEnding _ _ _ _

end Planner

/-! ### The log of a quest -/

/-- An attempt at a subtask: how its planner ended, or the error that stopped
it, and its events. -/
structure Attempt where
  result : Except String Ending
  events : List QuestEvent

namespace Attempt

/-- The attempt counts as a success. -/
def succeeded (attempt : Attempt) : Bool :=
  match attempt.result with
  | .ok ending => ending.answer = "task finished"
  | .error _ => false

/-- The planner of the attempt ended with `Verdict::Done`. -/
def EndedDone (attempt : Attempt) (obs : Observation) : Prop := attempt.result = .ok (.done obs)

/-- A success is an attempt that ended with the answer of `finish`. -/
theorem succeeded_iff (attempt : Attempt) :
    attempt.succeeded = true ↔ ∃ obs, attempt.EndedDone obs ∧ obs.output = "task finished" := by
  rcases h : attempt.result with err | ending
  · simp [succeeded, EndedDone, h]
  · simp [succeeded, EndedDone, h, Ending.answer_eq_iff]

end Attempt

/-- A subtask as the report has it, with the attempts made at it. -/
structure LogEntry where
  subtask : SubTask
  attempts : List Attempt

namespace Quest

variable (self : Quest ε)

/-- Attempt a subtask. -/
def executeLogged (st : SubTask) : QuestRun ε ε' Attempt := do
  let (r, events) ← (((self.planner st).runEnding st.description).mapTrace
    (QuestEvent.mk (some st.id))).attempt.listen
  return ⟨r.map Prod.snd, events⟩

/-- `retry`, with the attempts it makes. -/
def retryLogged (st : SubTask) : Nat → QuestRun ε ε' (List Attempt)
  | 0 => return []
  | attempts + 1 => do
      let attempt ← self.executeLogged st
      if attempt.succeeded then return [attempt]
      else
        let rest ← retryLogged st attempts
        return attempt :: rest

/-- `runSubtasks`, with the attempts it makes. -/
def runSubtasksLogged : List SubTask → QuestRun ε ε' (List LogEntry)
  | [] => return []
  | st :: rest => do
      if st.status = .skipped then
        let log ← runSubtasksLogged rest
        return ⟨st, []⟩ :: log
      else
        let attempts ← self.retryLogged { st with status := .running }
          (self.config.subtaskMaxRetries + 1)
        let log ← runSubtasksLogged rest
        let status := if attempts.any Attempt.succeeded then .success else .failed
        return ⟨{ st with status := status }, attempts⟩ :: log

/-- The report of a log. -/
def reportOf (goal : String) (log : List LogEntry) (pending : List PendingApproval) :
    QuestReport where
  goal := goal
  subtasks := log.map LogEntry.subtask
  successes := log.countP fun entry => entry.subtask.status = .success
  failures := log.countP fun entry => entry.subtask.status = .failed
  pendingApprovals := pending

/-- `run`, with its log. -/
def runLogged (goal : String) : QuestRun ε String (QuestReport × List LogEntry) := do
  let subtasks ← Act.mapTrace (QuestEvent.mk none) (Act.infallible (self.decomposer.decompose goal))
  let subtasks :=
    if self.config.maxSubtasks < subtasks.length then markSkipped self.config.maxSubtasks subtasks
    else subtasks
  let log ← self.runSubtasksLogged subtasks
  let w ← Act.get
  return (reportOf goal log w.pending, log)

end Quest

/-! ### Forgetting the log -/

namespace Quest

variable {self : Quest ε}

theorem executeSubtask_eq_map (st : SubTask) :
    ((self.executeSubtask st).attempt : QuestRun ε ε' _) =
      (fun attempt => attempt.result.map fun ending => decide (ending.answer = "task finished")) <$>
        self.executeLogged st := by
  funext w
  simp only [executeSubtask, executeLogged, Planner.run_eq_map_runEnding, Act.map_apply,
    Act.attempt_apply, Act.bind_apply, Act.mapTrace_apply, Act.listen_apply]
  rcases ((self.planner st).runEnding st.description w) with ⟨err | r, w', t⟩ <;>
    simp [Except.map, Planner.traceOf]

/-- A failed attempt leaves the verdict to the rest. -/
theorem retry_rest_eq_map {st : SubTask} {attempt : Attempt} {attempts : Nat}
    (hfailed : attempt.succeeded = false)
    (ih : self.retry st attempts =
      (fun log : List Attempt => log.any Attempt.succeeded) <$> self.retryLogged st attempts) :
    self.retry st attempts = (fun log : List Attempt => log.any Attempt.succeeded) <$>
      (self.retryLogged st attempts >>= fun rest => pure (attempt :: rest)) := by
  rw [ih, map_bind]
  simp only [map_pure, List.any_cons, hfailed, Bool.false_or]
  exact map_eq_pure_bind _ _

/-- Forgetting the attempts, retrying says whether one of them has succeeded. -/
theorem retry_eq_map (st : SubTask) (attempts : Nat) :
    self.retry st attempts =
      (fun log : List Attempt => log.any Attempt.succeeded) <$> self.retryLogged st attempts := by
  induction attempts with
  | zero => rw [retry, retryLogged, map_pure]; rfl
  | succ attempts ih =>
      rw [retry, retryLogged, executeSubtask_eq_map, bind_map_left, map_bind]
      apply bind_congr
      intro attempt
      -- An attempt fails by an error, or by an answer that is not the one of `finish`.
      rcases hresult : attempt.result with err | ending
      · have hfailed : attempt.succeeded = false := by simp [Attempt.succeeded, hresult]
        rw [if_neg (by simp [hfailed])]
        exact retry_rest_eq_map hfailed ih
      · by_cases hanswer : ending.answer = "task finished"
        · have hsucceeded : attempt.succeeded = true := by
            simp [Attempt.succeeded, hresult, hanswer]
          simp [Except.map, hanswer, hsucceeded]
        · have hfailed : attempt.succeeded = false := by
            simp [Attempt.succeeded, hresult, hanswer]
          rw [if_neg (by simp [hfailed])]
          simp only [Except.map, hanswer, decide_false]
          exact retry_rest_eq_map hfailed ih

theorem runSubtasks_eq_map (subtasks : List SubTask) (successes failures : Nat) :
    self.runSubtasks subtasks successes failures =
      (fun log : List LogEntry => (log.map LogEntry.subtask,
        successes + (log.countP fun entry => entry.subtask.status = .success),
        failures + (log.countP fun entry => entry.subtask.status = .failed))) <$>
        self.runSubtasksLogged subtasks := by
  induction subtasks generalizing successes failures with
  | nil => rw [runSubtasks, runSubtasksLogged, map_pure]; rfl
  | cons st rest ih =>
      rw [runSubtasks, runSubtasksLogged]
      by_cases hskipped : st.status = .skipped
      · -- neither counter moves
        rw [if_pos hskipped, if_pos hskipped, ih, bind_map_left, map_bind]
        apply bind_congr
        intro log
        simp [hskipped]
      · rw [if_neg hskipped, if_neg hskipped, retry_eq_map, bind_map_left, map_bind]
        apply bind_congr
        intro attempts
        rcases hany : attempts.any Attempt.succeeded with - | -
        · simp only [Bool.false_eq_true, if_false, ih, bind_map_left, map_bind]
          apply bind_congr
          intro log
          simp [Nat.add_assoc, Nat.add_comm]
        · simp only [if_true, ih, bind_map_left, map_bind]
          apply bind_congr
          intro log
          simp [Nat.add_assoc, Nat.add_comm]

/-- **Forgetting the log, the quest is the quest**: same report, same world, same
events. So a statement about the log is one about the quest itself. -/
theorem run_eq_map_runLogged (goal : String) :
    self.run goal = Prod.fst <$> self.runLogged goal := by
  rw [run, runLogged, map_bind]
  apply bind_congr
  intro subtasks
  dsimp only
  rw [runSubtasks_eq_map, bind_map_left, map_bind]
  apply bind_congr
  intro log
  rw [map_bind]
  apply bind_congr
  intro w
  simp [reportOf]

end Quest

/-! ### What the log says -/

/-- The attempts at a subtask that may be attempted `n` times: only the last
one may have succeeded, and without a success none is left. -/
structure Retried (n : Nat) (attempts : List Attempt) : Prop where
  length_le : attempts.length ≤ n
  ne_nil : 0 < n → attempts ≠ []
  failed : ∀ attempt ∈ attempts.dropLast, attempt.succeeded = false

/-- What a subtask becomes: skipped subtasks stay as they are, every other
one is attempted and judged by its attempts. -/
inductive Processed (retries : Nat) : SubTask → LogEntry → Prop
  | skipped (st : SubTask) (h : st.status = .skipped) : Processed retries st ⟨st, []⟩
  | attempted (st : SubTask) (attempts : List Attempt) (h : st.status ≠ .skipped)
      (hretried : Retried (retries + 1) attempts) :
      Processed retries st
        ⟨{ st with status := if attempts.any Attempt.succeeded then .success else .failed },
          attempts⟩

/-- The events of the attempts. -/
def LogEntry.events (entry : LogEntry) : List QuestEvent := entry.attempts.flatMap Attempt.events

namespace Quest

theorem executeLogged_apply (ε' : Type) (self : Quest ε) (st : SubTask) (w : World ε) :
    ∃ attempt w', (self.executeLogged st : QuestRun ε ε' Attempt) w =
      ⟨.ok attempt, w', attempt.events⟩ := by
  simp [executeLogged, Except.map]

/-- **What retrying leaves in the log**: the attempts in their order, with the
events of each, and no others.  By induction on the attempts that are left. -/
theorem retryLogged_apply (ε' : Type) (self : Quest ε) (st : SubTask) (n : Nat) (w : World ε) :
    ∃ attempts w', (self.retryLogged st n : QuestRun ε ε' (List Attempt)) w =
      ⟨.ok attempts, w', attempts.flatMap Attempt.events⟩ ∧ Retried n attempts := by
  induction n generalizing w with
  | zero => exact ⟨[], w, rfl, by simp, by simp, by simp⟩
  | succ n ih =>
      obtain ⟨attempt, w₁, hattempt⟩ := self.executeLogged_apply ε' st w
      rw [retryLogged, Act.bind_apply_of_ok hattempt]
      rcases hsucceeded : attempt.succeeded with - | -
      · obtain ⟨rest, w₂, hrest, hretried⟩ := ih w₁
        rw [if_neg (by simp), Act.bind_apply_of_ok hrest]
        refine ⟨attempt :: rest, w₂, by simp, ?_, by simp, ?_⟩
        · simpa using hretried.length_le
        · -- the last attempt of the rest is the last of all
          rcases rest with - | ⟨next, rest⟩
          · simp
          · simpa [hsucceeded] using hretried.failed
      · rw [if_pos rfl]
        exact ⟨[attempt], w₁, by simp, by simp, by simp, by simp⟩

/-- What the loop over the subtasks leaves in the log. -/
theorem runSubtasksLogged_apply (ε' : Type) (self : Quest ε) (subtasks : List SubTask)
    (w : World ε) :
    ∃ log w', (self.runSubtasksLogged subtasks : QuestRun ε ε' (List LogEntry)) w =
      ⟨.ok log, w', log.flatMap LogEntry.events⟩ ∧
      List.Forall₂ (Processed self.config.subtaskMaxRetries) subtasks log := by
  induction subtasks generalizing w with
  | nil => exact ⟨[], w, rfl, .nil⟩
  | cons st rest ih =>
      rw [runSubtasksLogged]
      -- A skipped subtask has no attempts; every other one is retried.
      by_cases hskipped : st.status = .skipped
      · obtain ⟨log, w', hlog, hprocessed⟩ := ih w
        rw [if_pos hskipped, Act.bind_apply_of_ok hlog]
        exact ⟨⟨st, []⟩ :: log, w', by simp [LogEntry.events],
          .cons (.skipped st hskipped) hprocessed⟩
      · obtain ⟨attempts, w₁, hattempts, hretried⟩ := self.retryLogged_apply ε'
          { st with status := .running } (self.config.subtaskMaxRetries + 1) w
        obtain ⟨log, w', hlog, hprocessed⟩ := ih w₁
        rw [if_neg hskipped, Act.bind_apply_of_ok hattempts, Act.bind_apply_of_ok hlog]
        exact ⟨_, w', by simp [LogEntry.events],
          .cons (.attempted st attempts hskipped hretried) hprocessed⟩

end Quest

/-- A list within the budget has nothing to skip. -/
theorem markSkipped_of_length_le {maxSubtasks : Nat} {subtasks : List SubTask}
    (h : subtasks.length ≤ maxSubtasks) : Quest.markSkipped maxSubtasks subtasks = subtasks := by
  apply List.ext_getElem (by simp [Quest.markSkipped])
  intro i h₁ h₂
  simp only [Quest.markSkipped, List.getElem_map, List.getElem_zipIdx]
  exact if_neg (by omega)

/-- Asking first whether there is anything to skip changes nothing. -/
theorem Quest.markSkipped_budget (maxSubtasks : Nat) (subtasks : List SubTask) :
    (if maxSubtasks < subtasks.length then markSkipped maxSubtasks subtasks else subtasks) =
      markSkipped maxSubtasks subtasks := by
  split
  · rfl
  · rename_i hfits
    exact (markSkipped_of_length_le (Nat.le_of_not_lt hfits)).symm

/-- **A logged run**: the subtasks as the decomposer gave them, each skipped or
attempted, and the events of the decomposition and of the attempts.  The report is
read off the log, and the pending approvals off the world at the end. -/
theorem Quest.runLogged_apply (self : Quest ε) (goal : String) (w : World ε) :
    ∃ subtasks log w', (self.decomposer.decompose goal w).result = .ok subtasks ∧
      self.runLogged goal w = ⟨.ok (reportOf goal log w'.pending, log), w',
        (self.decomposer.decompose goal w).trace.map (QuestEvent.mk none) ++
          log.flatMap LogEntry.events⟩ ∧
      List.Forall₂ (Processed self.config.subtaskMaxRetries)
        (markSkipped self.config.maxSubtasks subtasks) log := by
  obtain ⟨subtasks, w₁, t, hdecompose⟩ : ∃ subtasks w₁ t,
      self.decomposer.decompose goal w = ⟨.ok subtasks, w₁, t⟩ := by
    rcases self.decomposer.decompose goal w with ⟨err | subtasks, w₁, t⟩
    · exact err.elim
    · exact ⟨subtasks, w₁, t, rfl⟩
  obtain ⟨log, w₂, hlog, hprocessed⟩ := self.runSubtasksLogged_apply String
    (markSkipped self.config.maxSubtasks subtasks) w₁
  refine ⟨subtasks, log, w₂, by rw [hdecompose], ?_, hprocessed⟩
  rw [runLogged, Act.bind_apply]
  simp [hdecompose, Except.mapError, Except.map, markSkipped_budget, hlog]

end AgenticIde
