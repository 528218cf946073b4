/-
AgenticIde/Quest.lean

Quest (`quest.rs`): a goal is decomposed into subtasks, each of them is run by the planner over
a self-healing, approval-gating executor, and retried until it succeeds or its retries are
spent.

The events of a quest are those of its planners, each marked with the subtask it belongs to.
What one attempt at a subtask obeys, under its mark, the whole quest obeys (`obeys_run`), as
the loops around it only sequence attempts; and the report carries the pending approvals as
the run leaves them (`run_result`).

The executor of a quest is built in layers.  At the bottom are the tools it was given, around
them the self-healing, and around that the gate, which holds back what needs approval when
nothing is committed automatically: it answers that the call is pending and runs nothing.

Attempts are counted down from the configured number of retries and one more.  The loop of the
source counts up over machine integers; that the two agree below the largest of them, and what
happens at it, is in `QuestLoop`.
-/
import AgenticIde.Planner
import AgenticIde.SelfHeal

namespace AgenticIde

variable {ε ε' : Type}

/-! ### Decomposition -/

/-- Lifecycle status of a subtask. -/
inductive SubTaskStatus
  | pending
  | running
  | success
  | failed
  | skipped
  deriving DecidableEq

/-- One ordered unit of work. -/
structure SubTask where
  id : String
  description : String
  status : SubTaskStatus
  deriving DecidableEq

/-- A subtask in the pending state. -/
def SubTask.new (id description : String) : SubTask := ⟨id, description, .pending⟩

/-- Splits a high-level goal into subtasks.  A decomposer may reason; it has
no access to the tools of the quest nor to its pending approvals. -/
structure GoalDecomposer (ε : Type) where
  decompose : String → Core ε PEmpty (List SubTask)
  reasons : ∀ {L : Law (World ε) Event}, L.AdmitsQuiet → ∀ goal, L.Obeys (decompose goal)

/-- A decomposer outside the repository's code, answering as it likes. -/
def GoalDecomposer.external (onDecompose : String → ε → List SubTask × ε) : GoalDecomposer ε where
  decompose goal := Act.modifyGet (World.call (onDecompose goal))
  reasons hquiet _ _ := hquiet (by simp) rfl

/-- A numbered line: its index, its separator, its description. -/
def parseLine (line : String) : Option String :=
  match Str.splitOnce (fun c => c == '.' || c == ')' || c == '-') (Str.trim line) with
  | none => none
  | some (head, rest) =>
      let head := Str.trim head
      let desc := Str.trim rest
      if head ≠ "" ∧ head.toList.all Char.isDigit ∧ desc ≠ "" then some desc else none

/-- Extract numbered subtasks from a decomposition response; the goal itself
when there is none. -/
def parseSubtasks (text goal : String) : List SubTask :=
  match (Str.lines text).filterMap parseLine with
  | [] => [SubTask.new "st-1" goal]
  | descs => descs.zipIdx.map fun (desc, i) => SubTask.new s!"st-{i + 1}" desc

/-- The prompt that asks for a subtask list. -/
def decompositionPrompt (goal : String) : String :=
  "Decompose the following high-level goal into an ordered list of small, " ++
    s!"independently-executable subtasks.\nGoal: {goal}\n" ++
    "Reply with one subtask per line, prefixed with its index, e.g.\n" ++
    "1. first step\n2. second step\n3. third step"

/-- The default decomposer, over an LLM. -/
def LlmGoalDecomposer (llm : Llm ε) : GoalDecomposer ε where
  decompose goal := do
    match ← (llm.think (decompositionPrompt goal)).attempt with
    | .ok t => return parseSubtasks t.text goal
    | .error _ => return [SubTask.new "st-1" goal]
  reasons hquiet goal := by
    apply Law.obeys_bind (Law.obeys_attempt (hquiet.obeys_think llm _))
    intro r
    rcases r with err | t <;> exact Law.obeys_pure _

/-- A quest always has at least one unit of work. -/
theorem parseSubtasks_ne_nil (text goal : String) : parseSubtasks text goal ≠ [] := by
  unfold parseSubtasks
  split
  · simp
  · rename_i descs hne
    simpa using hne

example : (parseSubtasks "plan:\n1. explore\n 2) test -- all \n3 - \n" "g").map (·.description) =
    ["explore", "test -- all"] := by decide

/-! ### The quest -/

/-- The outcome of running a quest. -/
structure QuestReport where
  goal : String
  subtasks : List SubTask
  successes : Nat
  failures : Nat
  pendingApprovals : List PendingApproval

/-- Configuration of a quest run. -/
structure QuestConfig where
  maxSteps : Nat
  maxSubtasks : Nat
  autoCommit : Bool
  maxRepairAttempts : Nat
  subtaskMaxRetries : Nat
  deriving DecidableEq

/-- The default configuration. -/
def QuestConfig.default : QuestConfig := ⟨8, 8, false, 3, 1⟩

/-- An event of a quest, with the subtask it belongs to; none while the goal
is decomposed. -/
structure QuestEvent where
  subtask : Option String
  event : Event

/-- A computation of a quest. -/
abbrev QuestRun (ε ε' α : Type) : Type := Act (World ε) QuestEvent ε' α

/-- Autonomous quest agent. -/
structure Quest (ε : Type) where
  decomposer : GoalDecomposer ε
  llm : Llm ε
  tools : ToolExecutor ε
  validator : Validator
  bridge : HostBridge ε
  config : QuestConfig
  principal : Principal
  audit : AuditSink ε

/-- The action waits for approval when nothing commits automatically. -/
def needsApproval (tool : String) : Bool :=
  match actionPermission tool with
  | some .execute => true
  | some .commit => true
  | _ => false

theorem needsApproval_iff (tool : String) :
    needsApproval tool = true ↔
      ∃ p, actionPermission tool = some p ∧ (p = .execute ∨ p = .commit) := by
  unfold needsApproval
  rcases actionPermission tool with - | p
  · simp
  · -- of the six bits only two wait
    rcases p <;> simp

/-- The id of the next pending approval, from a counter that wraps. -/
def fastId : Core ε ε' String :=
  Act.modifyGet fun w => (w.pendingIds.toNat.repr, { w with pendingIds := w.pendingIds + 1 })

/-- The executor of a quest: it holds back what needs approval, and runs
everything else. -/
def QuestToolExecutor (inner : ToolExecutor ε) (autoCommit : Bool) (subtaskId : String) :
    ToolExecutor ε where
  run tool argument :=
    if needsApproval tool ∧ autoCommit = false then do
      -- the observation is not terminal, so the planner goes on
      let pa : PendingApproval := ⟨← fastId, tool, argument, subtaskId⟩
      Act.modify fun w => { w with pending := w.pending ++ [pa] }
      return ⟨tool, s!"[pending approval] {tool} {argument}", false⟩
    else inner.run tool argument

namespace Quest

/-- The self-healing executor below the gate. -/
def healing (self : Quest ε) : ToolExecutor ε :=
  SelfHealingExecutor ⟨self.tools, self.config.maxRepairAttempts⟩ self.llm

/-- The planner of one subtask. -/
def planner (self : Quest ε) (st : SubTask) : Planner ε where
  llm := self.llm
  tools := QuestToolExecutor self.healing self.config.autoCommit st.id
  validator := self.validator
  bridge := self.bridge
  maxSteps := self.config.maxSteps
  principal := self.principal
  audit := self.audit

/-- Execute one subtask; true when the planner reached a terminal finish. -/
def executeSubtask (self : Quest ε) (st : SubTask) : QuestRun ε String Bool := do
  let trace ← ((self.planner st).run st.description).mapTrace (QuestEvent.mk (some st.id))
  return trace.finalAnswer = "task finished"

/-- Attempt a subtask until it succeeds, at most `attempts` times.  The attempts
are counted down here, which is what the loop of the source does as long as its
own counter stays below the largest `usize` (`whileAttempts_eq`); the loop itself
is `whileAttempts`. -/
def retry (self : Quest ε) (st : SubTask) : Nat → QuestRun ε String Bool
  | 0 => return false
  | attempts + 1 => do
      match ← (self.executeSubtask st).attempt with
      | .ok true => return true
      | .ok false => retry self st attempts
      -- an error of the planner counts as a failed attempt
      | .error _ => retry self st attempts

/-- Subtasks over the budget are skipped. -/
def markSkipped (maxSubtasks : Nat) (subtasks : List SubTask) : List SubTask :=
  subtasks.zipIdx.map fun (st, i) => if maxSubtasks ≤ i then { st with status := .skipped } else st

/-- Run the subtasks in order, with the number of successes and failures. -/
def runSubtasks (self : Quest ε) :
    List SubTask → Nat → Nat → QuestRun ε String (List SubTask × Nat × Nat)
  | [], successes, failures => return ([], successes, failures)
  | st :: rest, successes, failures => do
      if st.status = .skipped then
        -- over the budget: neither a success nor a failure
        let (done, counts) ← runSubtasks self rest successes failures
        return (st :: done, counts)
      else if ← self.retry { st with status := .running } (self.config.subtaskMaxRetries + 1) then
        let (done, counts) ← runSubtasks self rest (successes + 1) failures
        return ({ st with status := .success } :: done, counts)
      else
        let (done, counts) ← runSubtasks self rest successes (failures + 1)
        return ({ st with status := .failed } :: done, counts)

/-- Run an autonomous quest toward `goal`: decompose it, skip what is over the
budget and attempt the rest in order.  `whileRun` is the same run over the loop of
the source. -/
def run (self : Quest ε) (goal : String) : QuestRun ε String QuestReport := do
  let subtasks ← Act.mapTrace (QuestEvent.mk none) (Act.infallible (self.decomposer.decompose goal))
  let subtasks :=
    if self.config.maxSubtasks < subtasks.length then markSkipped self.config.maxSubtasks subtasks
    else subtasks
  let (subtasks, successes, failures) ← self.runSubtasks subtasks 0 0
  let w ← Act.get
  return ⟨goal, subtasks, successes, failures, w.pending⟩

/-! ### What a quest obeys -/

variable {self : Quest ε} {L : Law (World ε) QuestEvent}

theorem obeys_retry {st : SubTask} (hattempt : L.Obeys (self.executeSubtask st)) (attempts : Nat) :
    L.Obeys (self.retry st attempts) := by
  induction attempts with
  | zero => exact Law.obeys_pure _
  | succ attempts ih =>
      apply Law.obeys_bind (Law.obeys_attempt hattempt)
      intro r
      rcases r with err | ⟨- | -⟩
      · exact ih
      · exact ih
      · exact Law.obeys_pure _

theorem obeys_runSubtasks (hattempt : ∀ st, L.Obeys (self.executeSubtask st))
    (subtasks : List SubTask) (successes failures : Nat) :
    L.Obeys (self.runSubtasks subtasks successes failures) := by
  induction subtasks generalizing successes failures with
  | nil => exact Law.obeys_pure _
  | cons st rest ih =>
      unfold runSubtasks
      split
      · exact Law.obeys_bind (ih _ _) fun _ => Law.obeys_pure _
      · apply Law.obeys_bind (obeys_retry (hattempt _) _)
        intro ok
        rcases ok with - | -
        · exact Law.obeys_bind (ih _ _) fun _ => Law.obeys_pure _
        · exact Law.obeys_bind (ih _ _) fun _ => Law.obeys_pure _

/-- **A quest obeys every law its decomposition and its attempts obey**, each under
its mark.  What happens between the attempts leaves no event and no state but the
report. -/
theorem obeys_run (hdecompose : (L.comap (QuestEvent.mk none)).AdmitsQuiet)
    (hattempt : ∀ st,
      (L.comap (QuestEvent.mk (some st.id))).Obeys ((self.planner st).run st.description))
    (goal : String) : L.Obeys (self.run goal) := by
  have hsubtask : ∀ st, L.Obeys (self.executeSubtask st) := fun st =>
    Law.obeys_bind (Law.obeys_mapTrace (hattempt st)) fun _ => Law.obeys_pure _
  refine Law.obeys_bind (Law.obeys_mapTrace (Law.obeys_infallible
    (self.decomposer.reasons hdecompose goal))) fun subtasks => ?_
  apply Law.obeys_bind (obeys_runSubtasks hsubtask _ 0 0)
  intro r
  exact Law.obeys_bind Law.obeys_get fun _ => Law.obeys_pure _

/-! ### The report -/

theorem succeeds_retry (self : Quest ε) (st : SubTask) (attempts : Nat) :
    (self.retry st attempts).Succeeds := by
  induction attempts with
  | zero => exact Act.succeeds_pure _
  | succ attempts ih =>
      apply Act.succeeds_bind (Act.succeeds_attempt _)
      intro r
      rcases r with err | ⟨- | -⟩
      · exact ih
      · exact ih
      · exact Act.succeeds_pure _

theorem succeeds_runSubtasks (self : Quest ε) (subtasks : List SubTask)
    (successes failures : Nat) : (self.runSubtasks subtasks successes failures).Succeeds := by
  induction subtasks generalizing successes failures with
  | nil => exact Act.succeeds_pure _
  | cons st rest ih =>
      unfold runSubtasks
      split
      · exact Act.succeeds_bind (ih _ _) fun _ => Act.succeeds_pure _
      · apply Act.succeeds_bind (succeeds_retry _ _ _)
        intro ok
        rcases ok with - | -
        · exact Act.succeeds_bind (ih _ _) fun _ => Act.succeeds_pure _
        · exact Act.succeeds_bind (ih _ _) fun _ => Act.succeeds_pure _

/-- A quest cannot fail, and its report lists the pending approvals that the
run leaves behind. -/
theorem run_result (self : Quest ε) (goal : String) (w : World ε) :
    ∃ report, (self.run goal w).result = .ok report ∧
      report.pendingApprovals = (self.run goal w).state.pending := by
  have hsucceeds : (Act.mapTrace (QuestEvent.mk none)
      (Act.infallible (self.decomposer.decompose goal)) : QuestRun ε String _).Succeeds :=
    Act.succeeds_mapTrace (Act.succeeds_infallible _)
  obtain ⟨subtasks, w₁, t, hdecompose⟩ := hsucceeds.apply w
  obtain ⟨⟨done, s, f⟩, w₂, t', hrun⟩ := (succeeds_runSubtasks self
    (if self.config.maxSubtasks < subtasks.length then
      markSkipped self.config.maxSubtasks subtasks else subtasks) 0 0).apply w₁
  -- the last thing a quest does is to read the approvals
  have hquest : self.run goal w = ⟨.ok ⟨goal, done, s, f, w₂.pending⟩, w₂, t ++ (t' ++ [])⟩ := by
    rw [run, Act.bind_apply_of_ok hdecompose, Act.bind_apply_of_ok hrun]
    rfl
  rw [hquest]
  exact ⟨_, rfl, rfl⟩

end Quest

end AgenticIde
