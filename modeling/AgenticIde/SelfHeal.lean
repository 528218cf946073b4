/-
AgenticIde/SelfHeal.lean

The self-healing executor (`self_heal.rs`): when the wrapped tool fails, the LLM proposes a
corrected input from the error text, and the tool is run again, until it succeeds or the
circuit breaker trips.

A repair never leaves the tool it started with; whatever holds of every run of that tool and
of the LLM's reasoning therefore holds of the healed run (`obeys_run`).

The loop of the source counts its attempts up to a bound; here the attempts that are left are
counted down, and the number of those made goes along for the text of the last error.  An
error of the model ends the repair at once, with that error; an error of the tool is the text
of the next prompt.  What counts as a success is an answer of the tool, whatever is in it.

`SelfHealingExecutor` is the self-healer as an executor, with its model fixed, so that a
planner or a gate can stand above it and know nothing of it.  What the events of a healed
call look like is said by `Healed`: it is the form in which `QuestAudit.lean` counts repairs.
-/
import AgenticIde.Tools

namespace AgenticIde

variable {ε : Type}

/-- Outcome of a self-healing execution attempt. -/
structure RepairOutcome where
  observation : Observation
  repairAttempts : Nat
  healed : Bool
  deriving DecidableEq

/-- Self-healing executor. -/
structure SelfHeal (ε : Type) where
  executor : ToolExecutor ε
  maxRepairAttempts : Nat

/-- The corrected input of a repair thought: what follows `PATCH:` or
`PATCH `, or the whole text. -/
def parsePatch (text : String) : String :=
  let trimmed := Str.trim text
  match Str.stripPrefix "PATCH:" trimmed with
  | some rest => Str.trim rest
  | none =>
      match Str.stripPrefix "PATCH " trimmed with
      | some rest => Str.trim rest
      | none => trimmed

namespace SelfHeal

/-- Ask the LLM for a corrected input given the failure. -/
def suggestPatch (tool input err : String) (llm : Llm ε) : Core ε String String := do
  let prompt := s!"The tool `{tool}` failed when run with input `{input}`.\n" ++
    s!"Error: {err}\n" ++
    "Propose a corrected input that would make the tool succeed. " ++
    "Reply with a single line beginning with PATCH: followed by the corrected input."
  let thought ← llm.think prompt
  return parsePatch thought.text

/-- The repair loop, with `remaining` attempts left. -/
def repair (self : SelfHeal ε) (tool : String) (llm : Llm ε) :
    Nat → Nat → String → String → Core ε String RepairOutcome
  | 0, attempts, _, lastErr =>
      Act.throw s!"self-heal exhausted after {attempts} repair attempts for tool `{tool}`: {lastErr}"
  | remaining + 1, attempts, current, lastErr => do
      let patch ← suggestPatch tool current lastErr llm
      -- the tool stays, only its input is repaired
      match ← (self.executor.run tool patch).attempt with
      | .ok obs => return ⟨obs, attempts + 1, true⟩
      | .error err => repair self tool llm remaining (attempts + 1) patch err

/-- Run `tool` with `input`, self-healing on failure. -/
def run (self : SelfHeal ε) (tool input : String) (llm : Llm ε) :
    Core ε String RepairOutcome := do
  match ← (self.executor.run tool input).attempt with
  | .ok obs => return ⟨obs, 0, false⟩
  | .error firstErr => self.repair tool llm self.maxRepairAttempts 0 input firstErr

end SelfHeal

/-- `SelfHealingExecutor`: the self-healer as an executor, over a fixed LLM. -/
def SelfHealingExecutor (heal : SelfHeal ε) (llm : Llm ε) : ToolExecutor ε where
  run tool argument := do
    let outcome ← heal.run tool argument llm
    return outcome.observation

/-! ### What a repair obeys -/

variable {L : Law (World ε) Event} {heal : SelfHeal ε} {llm : Llm ε} {tool : String}

theorem SelfHeal.obeys_repair (hrun : ∀ argument, L.Obeys (heal.executor.run tool argument))
    (hthink : ∀ context, L.Obeys (llm.think context)) (remaining attempts : Nat)
    (current lastErr : String) :
    L.Obeys (heal.repair tool llm remaining attempts current lastErr) := by
  induction remaining generalizing attempts current lastErr with
  | zero => exact Law.obeys_throw _
  | succ remaining ih =>
      apply Law.obeys_bind (Law.obeys_bind (hthink _) fun _ => Law.obeys_pure _)
      intro patch
      apply Law.obeys_bind (Law.obeys_attempt (hrun patch))
      intro r
      rcases r with err | obs
      · exact ih _ _ _
      · exact Law.obeys_pure _

/-- Every law that the tool and the LLM's reasoning obey, the healed run
obeys. -/
theorem SelfHeal.obeys_run (hrun : ∀ argument, L.Obeys (heal.executor.run tool argument))
    (hthink : ∀ context, L.Obeys (llm.think context)) (argument : String) :
    L.Obeys ((SelfHealingExecutor heal llm).run tool argument) := by
  refine Law.obeys_bind (Law.obeys_bind (Law.obeys_attempt (hrun argument)) fun r => ?_)
    fun _ => Law.obeys_pure _
  rcases r with err | obs
  · exact SelfHeal.obeys_repair hrun hthink _ _ _ _
  · exact Law.obeys_pure _

/-- A healed run begins with a run of the tool on the argument as it is. -/
theorem SelfHeal.prefix_run (heal : SelfHeal ε) (llm : Llm ε) (tool argument : String)
    (w : World ε) :
    (heal.executor.run tool argument w).trace <+:
      ((SelfHealingExecutor heal llm).run tool argument w).trace :=
  (Act.prefix_trace_bind (heal.executor.run tool argument).attempt _ w).trans
    (Act.prefix_trace_bind (heal.run tool argument llm) _ w)

/-- Self-healing serves the tool it started with: every re-run is one of the
same name. -/
theorem serves_selfHealing {heal : SelfHeal ε} (llm : Llm ε) (hserves : heal.executor.Serves) :
    (SelfHealingExecutor heal llm).Serves := fun tool argument =>
  SelfHeal.obeys_run (hserves tool) (fun _ => obeys_serving_call fun _ => trivial) argument

/-! ### The events of a healed call -/

/-- The events of a healed call of a tool at the base executor: it succeeds,
it fails with no repair left, the LLM does not answer, or its answer is tried
in turn. -/
inductive Healed (tool : String) : List Event → Prop
  | succeeded (argument : String) (obs : Observation) :
      Healed tool [.baseRun tool argument (.ok obs)]
  | failed (argument err : String) : Healed tool [.baseRun tool argument (.error err)]
  | unanswered (argument err context err' : String) :
      Healed tool [.baseRun tool argument (.error err), .think context (.error err')]
  | repaired (argument err context : String) (thought : Thought) {t : List Event}
      (h : Healed tool t) :
      Healed tool (.baseRun tool argument (.error err) :: .think context (.ok thought) :: t)

/-- A patch is one thought of the LLM. -/
theorem SelfHeal.suggestPatch_cases (tool input err : String) (llm : Llm ε) (w : World ε) :
    (∃ context err' w', suggestPatch tool input err llm w =
      ⟨.error err', w', [.think context (.error err')]⟩) ∨
    ∃ context thought w', suggestPatch tool input err llm w =
      ⟨.ok (parsePatch thought.text), w', [.think context (.ok thought)]⟩ := by
  unfold suggestPatch
  rw [← map_eq_pure_bind]
  generalize s!"The tool `{tool}` failed when run with input `{input}`.\n" ++
    s!"Error: {err}\n" ++
    "Propose a corrected input that would make the tool succeed. " ++
    "Reply with a single line beginning with PATCH: followed by the corrected input." = prompt
  obtain ⟨answer, w', hthink⟩ := llm.think_apply prompt w
  rcases answer with err' | thought
  · exact .inl ⟨prompt, err', w', by rw [Act.map_apply, hthink]; rfl⟩
  · exact .inr ⟨prompt, thought, w', by rw [Act.map_apply, hthink]; rfl⟩

section Healed

variable (onRun : String → String → ε → Except String Observation × ε) (maxRepairAttempts : Nat)
  (llm : Llm ε) (tool : String)

/-- What follows a failed call is a repair of it. -/
theorem SelfHeal.healed_repair (remaining attempts : Nat) (argument current err lastErr : String)
    (w : World ε) :
    Healed tool (.baseRun tool argument (.error err) ::
      (SelfHeal.repair ⟨.external onRun, maxRepairAttempts⟩ tool llm remaining attempts current
        lastErr w).trace) := by
  -- By induction on the repairs that are left; the failed call before them goes along, as
  -- it is what a repair follows.
  induction remaining generalizing attempts argument current err lastErr w with
  | zero => exact .failed argument err
  | succ remaining ih =>
      -- The model may not answer, and then nothing is run again.
      rcases SelfHeal.suggestPatch_cases tool current lastErr llm w with
        ⟨context, err', w₁, hpatch⟩ | ⟨context, thought, w₁, hpatch⟩
      · rw [repair, Act.bind_apply, hpatch]
        exact .unanswered argument err context err'
      · rw [repair, Act.bind_apply_of_ok hpatch, Act.bind_apply, Act.attempt_apply]
        obtain ⟨answer, w₂, hrun⟩ :=
          ToolExecutor.external_apply onRun tool (parsePatch thought.text) w₁
        rw [hrun]
        refine .repaired argument err context thought ?_
        rcases answer with err'' | obs
        · exact ih _ _ _ _ _ _
        · exact .succeeded _ obs

/-- **A healed call goes one of the ways of `Healed`.**  By induction on the repairs
that are left; each adds a thought and a call of the same tool to those before. -/
theorem healed_run (argument : String) (w : World ε) :
    Healed tool ((SelfHealingExecutor ⟨.external onRun, maxRepairAttempts⟩ llm).run tool argument
      w).trace := by
  obtain ⟨answer, w₁, hrun⟩ := ToolExecutor.external_apply onRun tool argument w
  show Healed tool ((RepairOutcome.observation <$>
    SelfHeal.run ⟨.external onRun, maxRepairAttempts⟩ tool argument llm) w).trace
  rw [Act.map_apply, SelfHeal.run, Act.bind_apply, Act.attempt_apply, hrun]
  rcases answer with err | obs
  · exact SelfHeal.healed_repair onRun maxRepairAttempts llm tool _ _ _ _ _ _ _
  · exact .succeeded argument obs

end Healed

end AgenticIde
