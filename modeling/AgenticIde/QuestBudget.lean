/-
AgenticIde/QuestBudget.lean

How much work a quest does.

Four loops are nested: the subtasks, the attempts at each, the steps of each attempt, the
repairs in each step.  A step asks the LLM for one thought, and runs its tool once and once
more for every repair, each of which is thought of first; a bound on the calls of one step is
a bound on the quest with the other three loops as factors (`count_run_le`).

The outermost but one of these loops counts its attempts in a machine integer up to a bound
that may be the largest one; it then has no last attempt, and the quest no bound.
`workBound_iff` says for which configurations the product bounds every quest.

The calls of the base executor and the thoughts are counted by one development.  `AtMost p n`
says of a computation that no run of it has more than `n` events with `p`, whatever it is
started from; it is put together along the source by a rule for each construct, and each loop
multiplies the bound of its body by the number of its rounds.  What is asked of `p` is that it
holds of work alone (`CountsWork`), and the work of one step is a parameter too, with one
thought and no call of the executor, or the other way round.

For the converse there is one quest that does nothing but fail: its model is down, and at the
largest bound it is attempted again and again.
-/
import AgenticIde.Lib.Count
import AgenticIde.QuestLoop

namespace AgenticIde

open Act

variable {ε ε' : Type}

/-- A call of the base executor. -/
def Event.isBaseRun : Event → Bool
  | baseRun _ _ _ => true
  | _ => false

/-- A request for a thought. -/
def Event.isThink : Event → Bool
  | think _ _ => true
  | _ => false

/-- The predicate counts work of the LLM or of the tools: no entry, no line
for the host, no plan, no edit. -/
structure CountsWork (p : Event → Bool) : Prop where
  emitEvent : ∀ event, p (.emitEvent event) = false
  planAction : ∀ thought answer, p (.planAction thought answer) = false
  applyEdit : ∀ edit answer, p (.applyEdit edit answer) = false
  audit : ∀ event answer, p (.audit event answer) = false

theorem countsWork_isBaseRun : CountsWork Event.isBaseRun :=
  ⟨fun _ => rfl, fun _ _ => rfl, fun _ _ => rfl, fun _ _ => rfl⟩

theorem countsWork_isThink : CountsWork Event.isThink :=
  ⟨fun _ => rfl, fun _ _ => rfl, fun _ _ => rfl, fun _ _ => rfl⟩

section Loops

variable {p : Event → Bool} (hp : CountsWork p) {thinks runs : Nat}

/-! ### One tool call -/

/-- Each repair thinks once and runs the tool once. -/
theorem SelfHeal.atMost_repair {heal : SelfHeal ε} {llm : Llm ε}
    (hthink : ∀ context, (llm.think context).AtMost p thinks)
    (hrun : ∀ tool argument, (heal.executor.run tool argument).AtMost p runs) (tool : String)
    (remaining attempts : Nat) (current lastErr : String) :
    (heal.repair tool llm remaining attempts current lastErr).AtMost p
      (remaining * (thinks + runs)) := by
  induction remaining generalizing attempts current lastErr with
  | zero => exact atMost_throw _
  | succ remaining ih =>
      -- Each round thinks of a patch and runs it; the last one is the first that comes
      -- through.
      have hround : (remaining + 1) * (thinks + runs) =
          thinks + (runs + remaining * (thinks + runs)) := by
        rw [Nat.succ_mul]
        omega
      rw [hround]
      apply ((hthink _).thenFree fun _ => atMost_pure _).bind
      intro patch
      apply (hrun tool patch).attempt.bind
      intro r
      rcases r with err | obs
      · exact ih _ _ _
      · exact atMost_pure _

/-- A healed run is one run and the repairs. -/
theorem SelfHeal.atMost_run (heal : SelfHeal ε) {llm : Llm ε}
    (hthink : ∀ context, (llm.think context).AtMost p thinks)
    (hrun : ∀ tool argument, (heal.executor.run tool argument).AtMost p runs)
    (tool argument : String) :
    ((SelfHealingExecutor heal llm).run tool argument).AtMost p
      (runs + heal.maxRepairAttempts * (thinks + runs)) := by
  refine (AtMost.bind (hrun tool argument).attempt fun r => ?_).thenFree fun _ => atMost_pure _
  rcases r with err | obs
  · exact SelfHeal.atMost_repair hthink hrun _ _ _ _ _
  · exact atMost_pure _

/-- The gate runs the tool once or not at all. -/
theorem atMost_gate {inner : ToolExecutor ε} {autoCommit : Bool} {sid : String}
    (hrun : ∀ tool argument, (inner.run tool argument).AtMost p runs) (tool argument : String) :
    ((QuestToolExecutor inner autoCommit sid).run tool argument).AtMost p runs := by
  simp only [QuestToolExecutor]
  split
  · exact (atMost_modifyGet _).afterFree fun _ => (atMost_modify _).afterFree fun _ =>
      atMost_pure _
  · exact hrun tool argument

/-! ### One step -/

namespace Planner

variable {self : Planner ε}

include hp

theorem atMost_emitEvent (event : HostEvent) :
    (self.bridge.emitEvent event : Core ε ε' Unit).AtMost p 0 :=
  atMost_external_of_not fun _ => hp.emitEvent event

theorem atMost_recordAudit (action : AuditAction) (granted : Bool) (payload : Json) :
    (self.recordAudit action granted payload).AtMost p 0 :=
  (atMost_modifyGet _).afterFree fun _ => (atMost_modify _).afterFree fun _ =>
    (atMost_external_of_not fun _ => hp.audit _ _).ignore

theorem atMost_authorizeAndRecord (tool : String) :
    (self.authorizeAndRecord tool).AtMost p 0 := by
  unfold authorizeAndRecord
  rcases actionPermission tool with - | required
  · exact atMost_pure _
  · rcases hcheck : checkPermission self.principal required with e | ⟨⟩
    · simp only [hcheck]
      exact (atMost_modify _).afterFree fun _ =>
        (atMost_recordAudit hp _ _ _).afterFree fun _ => atMost_pure _
    · simp only [hcheck]
      exact (atMost_recordAudit hp _ _ _).afterFree fun _ => atMost_pure _

theorem atMost_perform (hrun : ∀ tool argument, (self.tools.run tool argument).AtMost p runs)
    (plan : ActionPlan) : (self.perform plan).AtMost p runs := by
  apply (atMost_emitEvent hp _).afterFree
  intro _
  apply (atMost_authorizeAndRecord hp _).afterFree
  intro r
  rcases r with e | ⟨⟩
  · exact (atMost_emitEvent hp _).afterFree fun _ => atMost_pure _
  · refine (atMost_modify _).afterFree fun _ => (hrun _ _).thenFree fun obs => ?_
    split
    · exact (atMost_external_of_not fun _ => hp.applyEdit _ _).ignore.afterFree fun _ =>
        atMost_pure _
    · exact atMost_pure _

/-- A step thinks once and performs one action. -/
theorem atMost_react (hthink : ∀ context, (self.llm.think context).AtMost p thinks)
    (hrun : ∀ tool argument, (self.tools.run tool argument).AtMost p runs) (context : String) :
    (self.react context).AtMost p (thinks + runs) := by
  refine (atMost_modify _).afterFree fun _ => (hthink _).bind fun thought => ?_
  refine (atMost_external_of_not fun _ => hp.planAction _ _).afterFree fun plan => ?_
  exact (atMost_perform hp hrun plan).thenFree fun _ => atMost_pure _

/-- So does a loop, by its steps. -/
theorem atMost_loop (hthink : ∀ context, (self.llm.think context).AtMost p thinks)
    (hrun : ∀ tool argument, (self.tools.run tool argument).AtMost p runs)
    (remaining step : Nat) (ctx : ContextManager) (trace : RunTrace) :
    (self.loop remaining step ctx trace).AtMost p (remaining * (thinks + runs)) := by
  induction remaining generalizing step ctx trace with
  | zero => exact atMost_pure _
  | succ remaining ih =>
      have hround : (remaining + 1) * (thinks + runs) =
          thinks + runs + remaining * (thinks + runs) := by
        rw [Nat.succ_mul, Nat.add_comm]
      rw [hround]
      apply (atMost_emitEvent hp _).afterFree
      intro _
      -- After a step the loop goes on, or ends early.
      refine (atMost_react hp hthink hrun _).bind fun ⟨obs, recorded⟩ => ?_
      dsimp only
      rcases self.validator.validate obs (step + 1) with - | - | -
      · exact ih _ _ _
      · exact atMost_pure _
      · exact atMost_pure _

theorem atMost_run (hthink : ∀ context, (self.llm.think context).AtMost p thinks)
    (hrun : ∀ tool argument, (self.tools.run tool argument).AtMost p runs) (goal : String) :
    (self.run goal).AtMost p (self.maxSteps * (thinks + runs)) :=
  atMost_loop hp hthink hrun _ _ _ _

end Planner

/-! ### The loops around it -/

namespace Quest

variable {self : Quest ε}

/-- The work of one attempt. -/
def attemptWork (self : Quest ε) : Nat := self.config.maxSteps * (1 + self.config.maxRepairAttempts)

theorem atMost_retry {st : SubTask} {q : QuestEvent → Bool} {work : Nat}
    (hattempt : (self.executeSubtask st).AtMost q work) (attempts : Nat) :
    (self.retry st attempts).AtMost q (attempts * work) := by
  induction attempts with
  | zero => exact atMost_pure _
  | succ attempts ih =>
      rw [Nat.succ_mul, Nat.add_comm]
      apply hattempt.attempt.bind
      intro r
      rcases r with err | ⟨- | -⟩
      · exact ih
      · exact ih
      · exact atMost_pure _

/-- The subtasks that are not skipped. -/
def toRun (subtasks : List SubTask) : Nat := subtasks.countP fun st => st.status ≠ .skipped

theorem toRun_cons (st : SubTask) (rest : List SubTask) :
    toRun (st :: rest) = toRun rest + if st.status = .skipped then 0 else 1 := by
  by_cases h : st.status = .skipped <;> simp [toRun, h]

/-- The subtasks that are not skipped are attempted as often as their retries allow.
-/
theorem atMost_runSubtasks {q : QuestEvent → Bool} {work : Nat}
    (hattempt : ∀ st, (self.executeSubtask st).AtMost q work) (subtasks : List SubTask)
    (successes failures : Nat) :
    (self.runSubtasks subtasks successes failures).AtMost q
      (toRun subtasks * ((self.config.subtaskMaxRetries + 1) * work)) := by
  induction subtasks generalizing successes failures with
  | nil => exact atMost_pure _
  | cons st rest ih =>
      unfold runSubtasks
      -- A skipped subtask costs nothing.
      split
      · rename_i hskipped
        rw [toRun_cons, if_pos hskipped]
        exact (ih _ _).thenFree fun _ => atMost_pure _
      · rename_i hskipped
        rw [toRun_cons, if_neg hskipped, Nat.succ_mul, Nat.add_comm]
        apply (atMost_retry (hattempt _) _).bind
        intro ok
        rcases ok with - | -
        · exact (ih _ _).thenFree fun _ => atMost_pure _
        · exact (ih _ _).thenFree fun _ => atMost_pure _

include hp in
/-- One attempt does as much work as its steps and their repairs. -/
theorem atMost_executeSubtask (hthink : ∀ context, (self.llm.think context).AtMost p thinks)
    (hrun : ∀ tool argument, (self.tools.run tool argument).AtMost p runs)
    (hone : thinks + runs = 1) (st : SubTask) :
    (self.executeSubtask st).AtMost (fun e => p e.event) self.attemptWork := by
  have hhealed : ∀ tool argument, (self.healing.run tool argument).AtMost p
      (runs + self.config.maxRepairAttempts * (thinks + runs)) :=
    SelfHeal.atMost_run ⟨self.tools, self.config.maxRepairAttempts⟩ hthink hrun
  have hgated : ∀ tool argument, ((self.planner st).tools.run tool argument).AtMost p
      (runs + self.config.maxRepairAttempts * (thinks + runs)) := atMost_gate hhealed
  have hplanner : ((self.planner st).run st.description).AtMost p
      (self.config.maxSteps *
        (thinks + (runs + self.config.maxRepairAttempts * (thinks + runs)))) :=
    Planner.atMost_run hp hthink hgated _
  -- A thought or a run is one unit of work, never both, so a step with its repairs costs as
  -- much as there are tries.
  have hwork : thinks + (runs + self.config.maxRepairAttempts * (thinks + runs)) =
      1 + self.config.maxRepairAttempts := by
    rw [hone]
    omega
  rw [hwork] at hplanner
  exact AtMost.thenFree (AtMost.mapTrace hplanner) fun _ => atMost_pure _

/-! ### Whole quests -/

/-- The subtasks of the goal. -/
def decomposed (self : Quest ε) (goal : String) (w : World ε) : List SubTask :=
  match (self.decomposer.decompose goal w).result with
  | .ok subtasks => subtasks
  | .error err => err.elim

theorem toRun_zipIdx_le (maxSubtasks : Nat) (subtasks : List SubTask) (i : Nat) :
    toRun ((subtasks.zipIdx i).map fun x =>
      if maxSubtasks ≤ x.2 then { x.1 with status := .skipped } else x.1) ≤ maxSubtasks - i := by
  induction subtasks generalizing i with
  | nil => exact Nat.zero_le _
  | cons st rest ih =>
      have hrest := ih (i + 1)
      rw [List.zipIdx_cons, List.map_cons, toRun_cons]
      by_cases hover : maxSubtasks ≤ i
      · rw [if_pos hover, if_pos rfl]
        omega
      · -- one more, whatever its status
        rw [if_neg hover]
        split <;> omega

/-- The budget skips all but the first subtasks. -/
theorem toRun_le (maxSubtasks : Nat) (subtasks : List SubTask) :
    toRun (if maxSubtasks < subtasks.length then markSkipped maxSubtasks subtasks else subtasks) ≤
      min subtasks.length maxSubtasks := by
  split
  · rename_i hover
    rw [Nat.min_eq_right hover.le]
    exact toRun_zipIdx_le maxSubtasks subtasks 0
  · rename_i hfits
    rw [Nat.min_eq_left (Nat.le_of_not_lt hfits)]
    exact List.countP_le_length

include hp in
/-- The work of a quest, behind its decomposition. -/
theorem count_run_le (hthink : ∀ context, (self.llm.think context).AtMost p thinks)
    (hrun : ∀ tool argument, (self.tools.run tool argument).AtMost p runs)
    (hone : thinks + runs = 1) (goal : String) (w : World ε) :
    (self.run goal w).trace.countP (fun e => p e.event) ≤
      (self.decomposer.decompose goal w).trace.countP p +
        min (self.decomposed goal w).length self.config.maxSubtasks *
          (self.config.subtaskMaxRetries + 1) * self.config.maxSteps *
          (1 + self.config.maxRepairAttempts) := by
  rcases hdecompose : self.decomposer.decompose goal w with ⟨err | subtasks, w₁, t⟩
  · exact err.elim
  have hdecomposed : self.decomposed goal w = subtasks := by
    simp only [decomposed, hdecompose]
  have hfirst : (Act.mapTrace (QuestEvent.mk none)
      (Act.infallible (self.decomposer.decompose goal)) :
      QuestRun ε String (List SubTask)) w = ⟨.ok subtasks, w₁, t.map (QuestEvent.mk none)⟩ := by
    simp [hdecompose, Except.mapError]
  -- the subtasks do the work, and reading the approvals none
  have hsubtasks := atMost_runSubtasks (atMost_executeSubtask hp hthink hrun hone)
    (if self.config.maxSubtasks < subtasks.length then
      markSkipped self.config.maxSubtasks subtasks else subtasks) 0 0
  have hbound := Nat.mul_le_mul_right ((self.config.subtaskMaxRetries + 1) * self.attemptWork)
    (toRun_le self.config.maxSubtasks subtasks)
  rw [hdecomposed, run, Act.bind_apply_of_ok hfirst, Outcome.after_trace, List.countP_append,
    List.countP_map, Nat.mul_assoc, Nat.mul_assoc]
  refine Nat.add_le_add_left (Nat.le_trans ?_ hbound) _
  exact hsubtasks.thenFree (fun _ _ => Nat.zero_le _) w₁

end Quest

end Loops

namespace Quest

/-- A decomposer has no tools to run. -/
theorem count_decompose (decomposer : GoalDecomposer ε) (goal : String) (w : World ε) :
    (decomposer.decompose goal w).trace.countP Event.isBaseRun = 0 := by
  have hquiet : (Law.always (World ε) fun e => Event.isBaseRun e = false).AdmitsQuiet := by
    intro w t w' ht _ e he
    have hq := ht e he
    rcases e <;> first | rfl | exact hq.elim
  rw [List.countP_eq_zero]
  intro e he
  simp [decomposer.reasons hquiet goal w e he]

/-- Asking the LLM for the subtasks is one thought. -/
theorem count_llmDecompose (llm : Llm ε) (goal : String) (w : World ε) :
    ((LlmGoalDecomposer llm).decompose goal w).trace.countP Event.isThink ≤ 1 := by
  have hthink : ∀ context, (llm.think context).AtMost Event.isThink 1 :=
    fun _ => atMost_external _ _
  have hone : ((LlmGoalDecomposer llm).decompose goal).AtMost Event.isThink 1 := by
    apply AtMost.thenFree (hthink _).attempt
    intro r
    rcases r with err | t <;> exact atMost_pure _
  exact hone w

/-- The work a quest on `n` subtasks may do. -/
def workBound (config : QuestConfig) (n : Nat) : Nat :=
  min n config.maxSubtasks * (config.subtaskMaxRetries + 1) * config.maxSteps *
    (1 + config.maxRepairAttempts)

/-- A quest comes to its end, having called the base executor no more than that.
The turns are those of the loop of attempts, however many it takes. -/
def BoundsRuns (checks : OverflowChecks) (self : Quest ε) (goal : String) (w : World ε) : Prop :=
  ∃ turns report log w' t, self.whileRun checks turns goal w = ⟨.ok (report, log), w', t⟩ ∧
    t.countP (fun e => e.event.isBaseRun) ≤ workBound self.config (self.decomposed goal w).length

/-- A quest comes to its end, having asked for no more thoughts than that and one. -/
def BoundsThinks (checks : OverflowChecks) (self : Quest ε) (goal : String) (w : World ε) : Prop :=
  ∃ turns report log w' t, self.whileRun checks turns goal w = ⟨.ok (report, log), w', t⟩ ∧
    t.countP (fun e => e.event.isThink) ≤
      workBound self.config (self.decomposed goal w).length + 1

/-- The loops of the source come to an end, with the events of the bounded ones, below
the largest machine integer or where the budget is empty. -/
theorem exists_whileRun_of_config (checks : OverflowChecks) (self : Quest ε) (goal : String)
    (w : World ε) (hretries : self.config.subtaskMaxRetries < UInt64.size)
    (h : self.config.subtaskMaxRetries + 1 < UInt64.size ∨ self.config.maxSubtasks = 0) :
    ∃ turns report log w', self.whileRun checks turns goal w =
      ⟨.ok (report, log), w', (self.run goal w).trace⟩ := by
  obtain ⟨subtasks, w₁, t, hdecompose⟩ := self.exists_decompose goal w
  have hends : self.config.subtaskMaxRetries + 1 < UInt64.size ∨
      self.Finishes (markSkipped self.config.maxSubtasks subtasks) w₁ :=
    h.imp_right fun hzero => by
      rw [hzero]
      exact finishes_markSkipped_zero subtasks w₁
  obtain ⟨report, log, w', t', hwhile, hrun⟩ := exists_whileRun checks hdecompose hretries hends
  exact ⟨_, report, log, w', by rw [hwhile, hrun]⟩

theorem boundsRuns_of_config (checks : OverflowChecks) (self : Quest ε)
    (onRun : String → String → ε → Except String Observation × ε) (goal : String) (w : World ε)
    (hretries : self.config.subtaskMaxRetries < UInt64.size)
    (h : self.config.subtaskMaxRetries + 1 < UInt64.size ∨ self.config.maxSubtasks = 0) :
    BoundsRuns checks { self with tools := .external onRun } goal w := by
  obtain ⟨turns, report, log, w', hreturns⟩ :=
    exists_whileRun_of_config checks { self with tools := .external onRun } goal w hretries h
  refine ⟨turns, report, log, w', _, hreturns, ?_⟩
  have hruns := @count_run_le _ _ countsWork_isBaseRun 0 1 { self with tools := .external onRun }
    (fun _ => atMost_external_of_not fun _ => rfl) (fun _ _ => atMost_external _ _) rfl goal w
  rwa [count_decompose, Nat.zero_add] at hruns

theorem boundsThinks_of_config (checks : OverflowChecks) (self : Quest ε) (llm : Llm ε)
    (onRun : String → String → ε → Except String Observation × ε) (goal : String) (w : World ε)
    (hretries : self.config.subtaskMaxRetries < UInt64.size)
    (h : self.config.subtaskMaxRetries + 1 < UInt64.size ∨ self.config.maxSubtasks = 0) :
    BoundsThinks checks
      { self with tools := .external onRun, decomposer := LlmGoalDecomposer llm } goal w := by
  obtain ⟨turns, report, log, w', hreturns⟩ := exists_whileRun_of_config checks
    { self with tools := .external onRun, decomposer := LlmGoalDecomposer llm } goal w hretries h
  refine ⟨turns, report, log, w', _, hreturns, ?_⟩
  have hthinks := @count_run_le _ _ countsWork_isThink 1 0
    { self with tools := .external onRun, decomposer := LlmGoalDecomposer llm }
    (fun _ => atMost_external _ _) (fun _ _ => atMost_external_of_not fun _ => rfl) rfl goal w
  rw [Nat.add_comm]
  exact hthinks.trans (Nat.add_le_add_right (count_llmDecompose llm goal w) _)

/-- With as many retries as a machine integer can say and a subtask within the budget, an
idle quest never comes to its end. -/
theorem not_boundsRuns_idle (checks : OverflowChecks) {config : QuestConfig}
    (hretries : config.subtaskMaxRetries + 1 = UInt64.size) (hsubtasks : 0 < config.maxSubtasks) :
    ¬ BoundsRuns checks (idle config) "goal" (.initial ()) := by
  rintro ⟨turns, report, log, w', t, hreturns, -⟩
  have hfirst : markSkipped config.maxSubtasks [.new "st-1" "goal"] = [.new "st-1" "goal"] :=
    markSkipped_of_length_le hsubtasks
  exact whileRun_ne_ok hretries rfl hfirst (by decide) (succeeded_idle config _) turns _
    (congrArg Outcome.result hreturns)

/-- **The work of a quest.**  Whatever the LLM and the base executor answer, a quest comes
to its end, calls the base executor at most once for each of its subtasks within the
budget, its attempts, its steps and its repairs, and, when an LLM decomposes the goal, asks
for at most one thought more: of a configuration this is so exactly if its retries are below
the largest machine integer or its budget admits no subtask. -/
theorem workBound_iff (checks : OverflowChecks) (config : QuestConfig)
    (hretries : config.subtaskMaxRetries < UInt64.size) :
    (∀ (ε : Type) (self : Quest ε) (llm : Llm ε)
        (onRun : String → String → ε → Except String Observation × ε) (goal : String)
        (w : World ε), self.config = config →
      BoundsRuns checks { self with tools := .external onRun } goal w ∧
      BoundsThinks checks
        { self with tools := .external onRun, decomposer := LlmGoalDecomposer llm } goal w) ↔
    config.subtaskMaxRetries + 1 < UInt64.size ∨ config.maxSubtasks = 0 := by
  constructor
  · intro hbounds
    by_contra hnot
    obtain ⟨hlast, hsubtasks⟩ := not_or.mp hnot
    -- The largest bound with a subtask in the budget: the idle quest fails without end.
    have hidle := hbounds Unit (idle config) (idle config).llm
      (fun _ _ env => (.error "down", env)) "goal" (.initial ()) rfl
    exact not_boundsRuns_idle checks (Nat.le_antisymm hretries (Nat.le_of_not_lt hlast))
      (Nat.pos_of_ne_zero hsubtasks) hidle.1
  · rintro h ε self llm onRun goal w rfl
    exact ⟨boundsRuns_of_config checks self onRun goal w hretries h,
      boundsThinks_of_config checks self llm onRun goal w hretries h⟩

theorem workBound_iff_default :
    BoundsRuns .off (idle .default) "goal" (.initial ()) ∧
      BoundsThinks .off
        { idle .default with decomposer := LlmGoalDecomposer (idle .default).llm } "goal"
        (.initial ()) :=
  (workBound_iff .off .default (by decide)).mpr (.inl (by decide)) Unit (idle .default)
    (idle .default).llm (fun _ _ env => (.error "down", env)) "goal" (.initial ()) rfl

/-- As many retries as a machine integer can say, and the quest runs on. -/
theorem workBound_endless : ¬ ∃ checks, BoundsRuns checks
    (idle { QuestConfig.default with subtaskMaxRetries := UInt64.size - 1 }) "goal"
    (.initial ()) := by
  rintro ⟨checks, h⟩
  exact not_boundsRuns_idle checks (by decide) (by decide) h

end Quest

end AgenticIde
