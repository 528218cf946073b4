/-
AgenticIde/PlannerLockstep.lean

Two planners in lock step.

`CallsAgree` says that the calls of two planners agree one by one.  A step of the one then
agrees with a step of the other wherever their LLMs think alike (`CallsAgree.react`), and so
does either loop with itself over the same context (`CallsAgree.loop`,
`CallsAgree.loopWithContext`).

What it means to agree is a parameter, by `Lib.Lockstep`: a relation on states, and what is
compared of a trace.  So one set of lemmas serves all comparisons of planners: of a planner
with one whose tools leave nothing in the trace, of the two loops over collaborators that do
not see what was told, and of a quest on a server with one without a connection.

Thinking is apart from the other calls, since it is the one call that is given the context.
Where two runs have different contexts, that their models think alike is a hypothesis about
the models; all else is about calls with equal arguments.
-/
import AgenticIde.Lib.Lockstep
import AgenticIde.Planner

namespace AgenticIde

namespace Planner

variable {ε η : Type} {γ : Type*} {L : Lockstep (World ε) (World η) Event Event γ}

/-- The calls of two planners agree, thinking apart: the prompts of the two may
differ, and what they think of them is asked for where it is needed. -/
structure CallsAgree (L : Lockstep (World ε) (World η) Event Event γ) (planner : Planner ε)
    (planner' : Planner η) : Prop where
  principal_eq : planner'.principal = planner.principal
  validator_eq : planner'.validator = planner.validator
  emitEvent : ∀ event, L.Agree (planner.bridge.emitEvent event : Core ε String Unit)
    (planner'.bridge.emitEvent event)
  planAction : ∀ thought, L.Agree (planner.llm.planAction thought) (planner'.llm.planAction thought)
  tool : ∀ tool argument,
    L.Agree (planner.tools.run tool argument) (planner'.tools.run tool argument)
  applyEdit : ∀ edit, L.Agree (planner.bridge.applyEdit edit) (planner'.bridge.applyEdit edit)
  record : ∀ event, L.Agree (planner.audit.record event) (planner'.audit.record event)
  now : L.Agree (Core.now : Core ε String Int) Core.now
  count : ∀ f, L.Agree (Core.count f : Core ε String Unit) (Core.count f)

namespace CallsAgree

variable {self : Planner ε} {self' : Planner η} (h : CallsAgree L self self')

include h

theorem recordAudit (action : AuditAction) (granted : Bool) (payload : Json) :
    L.Agree (self.recordAudit action granted payload)
      (self'.recordAudit action granted payload) := by
  unfold Planner.recordAudit
  rw [h.principal_eq]
  apply Lockstep.agree_bind h.now
  intro ts
  exact Lockstep.agree_bind (h.count _) fun _ => Lockstep.agree_ignore (h.record _)

theorem authorizeAndRecord (tool : String) :
    L.Agree (self.authorizeAndRecord tool) (self'.authorizeAndRecord tool) := by
  unfold Planner.authorizeAndRecord
  rw [h.principal_eq]
  cases actionPermission tool with
  | none => exact Lockstep.agree_pure _
  | some required =>
      dsimp only
      cases checkPermission self.principal required with
      | ok _ => exact Lockstep.agree_bind (h.recordAudit _ _ _) fun _ => Lockstep.agree_pure _
      | error e =>
          apply Lockstep.agree_bind (h.count _)
          intro _
          exact Lockstep.agree_bind (h.recordAudit _ _ _) fun _ => Lockstep.agree_pure _

/-- Performing one plan, the two agree. -/
theorem perform (plan : ActionPlan) : L.Agree (self.perform plan) (self'.perform plan) := by
  unfold Planner.perform
  apply Lockstep.agree_bind (h.emitEvent _)
  intro _
  apply Lockstep.agree_bind (h.authorizeAndRecord _)
  intro r
  cases r with
  -- Call by call, in the order of the source; the edit is applied for a `modify` only, and
  -- its result is dropped.
  | ok _ =>
      apply Lockstep.agree_bind (h.count _)
      intro _
      apply Lockstep.agree_bind (h.tool _ _)
      intro obs
      by_cases hmodify : plan.tool = "modify"
      · rw [if_pos hmodify, if_pos hmodify]
        apply Lockstep.agree_bind (Lockstep.agree_ignore (h.applyEdit _))
        intro _
        exact Lockstep.agree_pure _
      · rw [if_neg hmodify, if_neg hmodify]
        exact Lockstep.agree_pure _
  | error e => exact Lockstep.agree_bind (h.emitEvent _) fun _ => Lockstep.agree_pure _

/-- Where the LLMs think alike, a step agrees with a step. -/
theorem react {context context' : String}
    (hthink : L.Agree (self.llm.think context) (self'.llm.think context')) :
    L.Agree (self.react context) (self'.react context') := by
  unfold Planner.react
  apply Lockstep.agree_bind (h.count _)
  intro _
  apply Lockstep.agree_bind hthink
  intro thought
  apply Lockstep.agree_bind (h.planAction _)
  intro plan
  exact Lockstep.agree_bind (h.perform plan) fun obs => Lockstep.agree_pure _

/-- The loop of `run` agrees with itself, over the same context. -/
theorem loop (hthink : ∀ context, L.Agree (self.llm.think context) (self'.llm.think context))
    (remaining step : Nat) (ctx : ContextManager) (trace : RunTrace) :
    L.Agree (self.loop remaining step ctx trace) (self'.loop remaining step ctx trace) := by
  induction remaining generalizing step ctx trace with
  | zero => exact Lockstep.agree_pure _
  | succ remaining ih =>
      unfold Planner.loop
      apply Lockstep.agree_bind (h.emitEvent _)
      intro _
      apply Lockstep.agree_bind (h.react (hthink _))
      rintro ⟨obs, recorded⟩
      dsimp only
      rw [h.validator_eq]
      cases self.validator.validate obs (step + 1) with
      | «continue» => exact ih _ _ _
      | done => exact Lockstep.agree_pure _
      | budgetExhausted => exact Lockstep.agree_pure _

/-- The loop of `run_with_context` agrees with itself, over the same
context. -/
theorem loopWithContext
    (hthink : ∀ context, L.Agree (self.llm.think context) (self'.llm.think context))
    (remaining step : Nat) (ctx : ContextManager) (trace : RunTrace) :
    L.Agree (self.loopWithContext remaining step ctx trace)
      (self'.loopWithContext remaining step ctx trace) := by
  induction remaining generalizing step ctx trace with
  | zero => exact Lockstep.agree_pure _
  | succ remaining ih =>
      unfold Planner.loopWithContext
      apply Lockstep.agree_bind (h.react (hthink _))
      rintro ⟨obs, recorded⟩
      dsimp only
      rw [h.validator_eq]
      cases self.validator.validate obs (step + 1) with
      | «continue» => exact ih _ _ _
      | done => exact Lockstep.agree_pure _
      | budgetExhausted => exact Lockstep.agree_pure _

end CallsAgree

end Planner

end AgenticIde
