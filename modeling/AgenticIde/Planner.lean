/-
AgenticIde/Planner.lean

The ReAct loop (`planner.rs`): think, plan, authorize and record, run the tool, apply the
edit of a `modify`, validate, repeat.

`run` and `run_with_context` share the body of a step, here `react`, and differ in how the
context is kept.  What performing a planned action does is said once, by `Performed`: the
action is denied and audited, or it is audited, run, and its edit applied, with the events in
this order.  `obeys_run` lifts a law from there to whole runs: it is enough that the law
allows the events that act on nothing, and each performed action behind its plan.  A law of
the state rather than of the events is lifted from the single calls instead (`CallsObey`).

A refusal is an observation and not an error: the model is told that its action was denied,
and the run goes on.  An error of the model or of a tool ends the run, which then returns no
trace; an edit that the host refuses does not.

An entry of the log is written before the tool runs, whatever becomes of the tool, and
whether it could be written is not asked.  A name that needs no right, as `finish`, passes
without an entry.
-/
import AgenticIde.Context
import AgenticIde.Tools

namespace AgenticIde

variable {ε : Type}

/-- A single recorded step of the loop. -/
structure Step where
  thought : String
  action : String
  observation : String
  deriving DecidableEq

/-- The full trace of a run, returned to the caller. -/
structure RunTrace where
  steps : List Step
  finalAnswer : String
  deriving DecidableEq

/-- ReAct planner wiring together the decision-Core components. -/
structure Planner (ε : Type) where
  llm : Llm ε
  tools : ToolExecutor ε
  validator : Validator
  bridge : HostBridge ε
  maxSteps : Nat
  principal : Principal
  audit : AuditSink ε

namespace Planner

/-- Override the governance triple. -/
def withGovernance (self : Planner ε) (principal : Principal) (audit : AuditSink ε) : Planner ε :=
  { self with principal := principal, audit := audit }

/-- Append an audit event; errors are never fatal. -/
def recordAudit (self : Planner ε) (action : AuditAction) (granted : Bool) (payload : Json) :
    Core ε String Unit := do
  let ev := AuditEvent.new (← Core.now) self.principal action granted payload
  Core.count .incAuditEvents
  (self.audit.record ev).ignore

/-- Enforce the six-bit right for `tool`, recording an audit entry, granted
or denied.  A name that needs no right passes without an entry. -/
def authorizeAndRecord (self : Planner ε) (tool : String) :
    Core ε String (Except PermissionDenied Unit) :=
  match actionPermission tool with
  -- not privileged: no check and no entry
  | none => return .ok ()
  | some required =>
      match checkPermission self.principal required with
      | .ok () => do
          self.recordAudit (.fromPermission required) true (.obj [("tool", .str tool)])
          return .ok ()
      | .error e => do
          Core.count .incDenials
          self.recordAudit (.fromPermission required) false
            (.obj [("tool", .str tool), ("reason", .str e.toString)])
          return .error e

/-- Perform a planned action: authorize it, run the tool, and apply the edit
of an authorized `modify`. -/
def perform (self : Planner ε) (plan : ActionPlan) : Core ε String Observation := do
  self.bridge.emitEvent (.status s!"action={plan.tool} arg={plan.argument}")
  match ← self.authorizeAndRecord plan.tool with
  | .ok () => do
      Core.count .incToolCalls
      let obs ← self.tools.run plan.tool plan.argument
      -- `edit`, `write` and `apply` need the same bit but edit nothing
      if plan.tool = "modify" then
        (self.bridge.applyEdit ⟨"in-memory://plan", "", obs.output⟩).ignore
        return obs
      else return obs
  | .error _ => do
      self.bridge.emitEvent (.status s!"permission denied: {plan.tool}")
      return ⟨plan.tool, s!"[denied] action `{plan.tool}` not permitted", false⟩

/-- The body of a step: think, plan, perform. -/
def react (self : Planner ε) (context : String) : Core ε String (Observation × Step) := do
  Core.count .incLlmCalls
  let thought ← self.llm.think context
  let plan ← self.llm.planAction thought
  let obs ← self.perform plan
  return (obs, ⟨thought.text, plan.tool, obs.output⟩)

/-- The loop of `run`, with `remaining` steps left. -/
def loop (self : Planner ε) : Nat → Nat → ContextManager → RunTrace → Core ε String RunTrace
  | 0, _, _, trace => return trace
  | remaining + 1, step, ctx, trace => do
      self.bridge.emitEvent (.status s!"step {step}: thinking")
      let (obs, recorded) ← self.react ctx.snapshot
      let trace := { trace with steps := trace.steps ++ [recorded] }
      match self.validator.validate obs (step + 1) with
      | .continue => loop self remaining (step + 1) (ctx.push obs.output) trace
      | .done => return { trace with finalAnswer := obs.output }
      | .budgetExhausted => return { trace with finalAnswer := "budget exhausted" }

/-- Run the ReAct loop toward `goal`. -/
def run (self : Planner ε) (goal : String) : Core ε String RunTrace :=
  self.loop self.maxSteps 0 ((ContextManager.new 16).push s!"goal: {goal}") ⟨[], ""⟩

/-- The loop of `run_with_context`. -/
def loopWithContext (self : Planner ε) :
    Nat → Nat → ContextManager → RunTrace → Core ε String RunTrace
  | 0, _, _, trace => return trace
  | remaining + 1, step, ctx, trace => do
      let ctx := ctx.budgetTrim
      let (obs, recorded) ← self.react ctx.buildPrompt
      let trace := { trace with steps := trace.steps ++ [recorded] }
      match self.validator.validate obs (step + 1) with
      | .continue => loopWithContext self remaining (step + 1) (ctx.push obs.output) trace
      | .done => return { trace with finalAnswer := obs.output }
      | .budgetExhausted => return { trace with finalAnswer := "budget exhausted" }

/-- Run the ReAct loop toward `goal`, seeded with explicit chunks.  The window is
made whatever its size and its tokens are added exactly, as they are while they fit
into the machine; `runWithContextIn` is the run with the panics. -/
def runWithContext (self : Planner ε) (goal : String) (sources : List ContextChunk) :
    Core ε String RunTrace :=
  let ctx := sources.foldl ContextManager.addChunk (ContextManager.withBudget self.maxSteps 4096)
  self.loopWithContext self.maxSteps 0 (ctx.push s!"goal: {goal}") ⟨[], ""⟩

/-! ### What performing an action does -/

/-- The audit entry of a refused action. -/
def denial (self : Planner ε) (tool : String) (p : Permission) (ts : Int) : AuditEvent :=
  .new ts self.principal (.fromPermission p) false
    (.obj [("tool", .str tool),
      ("reason", .str (PermissionDenied.toString ⟨p, self.principal.perms.mask⟩))])

/-- The audit entry of an authorized action: none for a name that needs no
right, one for every other name. -/
inductive Authorized (self : Planner ε) (tool : String) : List Event → Prop
  | unprivileged (h : actionPermission tool = none) : Authorized self tool []
  | privileged (p : Permission) (ts : Int) (answer : Except String Unit)
      (hp : actionPermission tool = some p) (hholds : self.principal.holds p = true) :
      Authorized self tool
        [.audit (.new ts self.principal (.fromPermission p) true (.obj [("tool", .str tool)]))
          answer]

/-- The edit of a performed action: only `modify` has one. -/
inductive Edited (plan : ActionPlan) : List Event → Prop
  | none : Edited plan []
  | modify (edit : TextEdit) (answer : Except HostError Unit) (h : plan.tool = "modify") :
      Edited plan [.applyEdit edit answer]

/-- The edit of an action is one of a `modify`. -/
theorem Edited.mem {plan : ActionPlan} {edits : List Event} (h : Edited plan edits) {e : Event}
    (he : e ∈ edits) : (∃ edit answer, e = .applyEdit edit answer) ∧ plan.tool = "modify" := by
  cases h with
  | none => simp at he
  | modify edit answer hmodify => exact ⟨⟨edit, answer, List.mem_singleton.mp he⟩, hmodify⟩

/-- How a planned action is performed from `w`: its events and the world it
leaves. -/
inductive Performed (self : Planner ε) (plan : ActionPlan) (w : World ε) :
    List Event → World ε → Prop
  | denied {w' : World ε} (p : Permission) (ts : Int) (answer : Except String Unit)
      (hp : actionPermission plan.tool = some p) (hdenied : self.principal.holds p = false)
      (hpending : w'.pending = w.pending) :
      Performed self plan w
        [.emitEvent (.status s!"action={plan.tool} arg={plan.argument}"),
          .audit (self.denial plan.tool p ts) answer,
          .emitEvent (.status s!"permission denied: {plan.tool}")] w'
  | ran {w₁ w' : World ε} {audits edits : List Event}
      (hauth : Authorized self plan.tool audits) (h₁ : w₁.pending = w.pending)
      (hedit : Edited plan edits)
      (hpending : w'.pending = (self.tools.run plan.tool plan.argument w₁).state.pending) :
      Performed self plan w
        (.emitEvent (.status s!"action={plan.tool} arg={plan.argument}") ::
          (audits ++ ((self.tools.run plan.tool plan.argument w₁).trace ++ edits))) w'

variable {self : Planner ε}

theorem recordAudit_apply (self : Planner ε) (action : AuditAction) (granted : Bool)
    (payload : Json) (w : World ε) :
    ∃ ts answer w', self.recordAudit action granted payload w =
      ⟨.ok (), w', [.audit (.new ts self.principal action granted payload) answer]⟩ ∧
        w'.pending = w.pending :=
  ⟨_, _, _, rfl, rfl⟩

/-- Authorizing passes with the entry it owes, or is refused with a denied
entry. -/
theorem authorizeAndRecord_cases (self : Planner ε) (tool : String) (w : World ε) :
    (∃ audits w', self.authorizeAndRecord tool w = ⟨.ok (.ok ()), w', audits⟩ ∧
      Authorized self tool audits ∧ w'.pending = w.pending) ∨
    (∃ p e ts answer w', actionPermission tool = some p ∧ self.principal.holds p = false ∧
      self.authorizeAndRecord tool w =
        ⟨.ok (.error e), w', [.audit (self.denial tool p ts) answer]⟩ ∧
      w'.pending = w.pending) := by
  -- A name without a permission passes without an entry. With one, an entry is written in
  -- either case, and the refusal is counted as well.
  rcases hp : actionPermission tool with - | p
  · refine .inl ⟨[], w, ?_, .unprivileged hp, rfl⟩
    simp only [authorizeAndRecord, hp]
    rfl
  · rcases hholds : self.principal.holds p with - | -
    · have hcheck := checkPermission_of_not_holds hholds
      obtain ⟨ts, answer, w', hrecord, hpending⟩ := recordAudit_apply self
        (.fromPermission p) false
        (.obj [("tool", .str tool),
          ("reason", .str (PermissionDenied.toString ⟨p, self.principal.perms.mask⟩))])
        { w with metrics := w.metrics.incDenials }
      refine .inr ⟨p, ⟨p, self.principal.perms.mask⟩, ts, answer, w', rfl, hholds, ?_, hpending⟩
      simp only [authorizeAndRecord, hp, hcheck]
      simp [Core.count, hrecord, denial, Except.map]
    · have hcheck := checkPermission_of_holds hholds
      obtain ⟨ts, answer, w', hrecord, hpending⟩ := recordAudit_apply self
        (.fromPermission p) true (.obj [("tool", .str tool)]) w
      refine .inl ⟨_, w', ?_, .privileged p ts answer hp hholds, hpending⟩
      simp only [authorizeAndRecord, hp, hcheck]
      simp [hrecord]

/-- **Performing an action goes one of the ways of `Performed`**, whether the tool
succeeds or fails.  A denied action leaves its entry and runs nothing; any other
runs its tool behind the entries it owes. -/
theorem performed_perform (self : Planner ε) (plan : ActionPlan) (w : World ε) :
    Performed self plan w (self.perform plan w).trace (self.perform plan w).state := by
  set w₀ : World ε :=
    { w with env := self.bridge.onEvent (.status s!"action={plan.tool} arg={plan.argument}") w.env }
    with hw₀
  rcases authorizeAndRecord_cases self plan.tool w₀ with
    ⟨audits, w', hauth, hentry, hpending⟩ |
    ⟨p, e, ts, answer, w', hp, hdenied, hauth, hpending⟩
  · -- the tool runs with the call counted
    set w₁ : World ε := { w' with metrics := w'.metrics.incToolCalls } with hw₁
    have hran := fun edits hedit w' =>
      @Performed.ran _ self plan w w₁ w' audits edits hentry hpending hedit
    rcases hrun : self.tools.run plan.tool plan.argument w₁ with ⟨err | obs, w₂, t⟩
    · have hperform : self.perform plan w = ⟨.error err, w₂,
          .emitEvent (.status s!"action={plan.tool} arg={plan.argument}") :: (audits ++ t)⟩ := by
        simp [perform, HostBridge.emitEvent, World.call, Core.count, ← hw₀, hauth, ← hw₁, hrun]
      rw [hperform]
      simpa [hrun] using hran [] .none w₂ (by rw [hrun])
    · by_cases hmodify : plan.tool = "modify"
      · obtain ⟨answer, w₃, happly, hw₃⟩ : ∃ answer w₃,
            self.bridge.applyEdit ⟨"in-memory://plan", "", obs.output⟩ w₂ =
              ⟨answer, w₃, [.applyEdit ⟨"in-memory://plan", "", obs.output⟩ answer]⟩ ∧
            w₃.pending = w₂.pending := ⟨_, _, rfl, rfl⟩
        have hperform : self.perform plan w = ⟨.ok obs, w₃,
            .emitEvent (.status s!"action={plan.tool} arg={plan.argument}") :: (audits ++ (t ++
              [.applyEdit ⟨"in-memory://plan", "", obs.output⟩ answer]))⟩ := by
          simp only [perform, HostBridge.emitEvent, World.call, Core.count, Act.bind_apply,
            Act.external_apply, ← hw₀, Outcome.andThen_mk_ok, hauth, Act.modify_apply, ← hw₁, hrun,
            if_pos hmodify]
          simp [happly]
        rw [hperform]
        simpa [hrun] using hran _ (.modify _ answer hmodify) w₃ (by rw [hrun, hw₃])
      · have hperform : self.perform plan w = ⟨.ok obs, w₂,
            .emitEvent (.status s!"action={plan.tool} arg={plan.argument}") :: (audits ++ t)⟩ := by
          simp only [perform, HostBridge.emitEvent, World.call, Core.count, Act.bind_apply,
            Act.external_apply, ← hw₀, Outcome.andThen_mk_ok, hauth, Act.modify_apply, ← hw₁, hrun,
            if_neg hmodify]
          simp
        rw [hperform]
        simpa [hrun] using hran [] .none w₂ (by rw [hrun])
  · have hperform : self.perform plan w = ⟨.ok ⟨plan.tool,
          s!"[denied] action `{plan.tool}` not permitted", false⟩,
        { w' with env := self.bridge.onEvent (.status s!"permission denied: {plan.tool}") w'.env },
        [.emitEvent (.status s!"action={plan.tool} arg={plan.argument}"),
          .audit (self.denial plan.tool p ts) answer,
          .emitEvent (.status s!"permission denied: {plan.tool}")]⟩ := by
      simp [perform, HostBridge.emitEvent, World.call, ← hw₀, hauth, Except.map]
    rw [hperform]
    exact .denied p ts answer hp hdenied hpending

/-- What an action does depends on the world it starts from only through the
pending approvals. -/
theorem Performed.congr {plan : ActionPlan} {w w₁ w' : World ε} {t : List Event}
    (hpending : w₁.pending = w.pending) (h : Performed self plan w₁ t w') :
    Performed self plan w t w' := by
  cases h with
  | denied p ts answer hp hdenied h' => exact .denied p ts answer hp hdenied (h'.trans hpending)
  | ran hauth h₁ hedit h' => exact .ran hauth (h₁.trans hpending) hedit h'

/-! ### What a round does -/

/-- The events of a round, which is a step behind its line for the host: the
LLM may fail to think or to plan, or the planned action is performed. -/
inductive Round (self : Planner ε) : List Event → Prop
  | unanswered (event : HostEvent) (context err : String) :
      Round self [.emitEvent event, .think context (.error err)]
  | unplanned (event : HostEvent) (context : String) (thought : Thought) (err : String) :
      Round self [.emitEvent event, .think context (.ok thought), .planAction thought (.error err)]
  | performed (event : HostEvent) (context : String) (thought : Thought) {plan : ActionPlan}
      {w w' : World ε} {t : List Event} (h : Performed self plan w t w') :
      Round self (.emitEvent event :: .think context (.ok thought) ::
        .planAction thought (.ok plan) :: t)

/-- **A round goes one of the ways of `Round`.**  The model may fail at the thought
or at the plan, and then nothing follows; with a plan the action is performed, in
one of its own ways. -/
theorem round_react (self : Planner ε) (event : HostEvent) (context : String) (w : World ε) :
    Round self (((self.bridge.emitEvent event : Core ε String Unit) >>=
      fun _ => self.react context) w).trace := by
  obtain ⟨w₁, hemit⟩ : ∃ w₁, ((self.bridge.emitEvent event : Core ε String Unit) >>=
      fun _ => Core.count .incLlmCalls) w = ⟨.ok (), w₁, [.emitEvent event]⟩ := ⟨_, rfl⟩
  rw [react, ← bind_assoc, Act.bind_apply_of_ok hemit]
  obtain ⟨answer, w₂, hthink⟩ := self.llm.think_apply context w₁
  rw [Act.bind_apply, hthink]
  rcases answer with err | thought
  · exact .unanswered event context err
  rw [Outcome.andThen_mk_ok]
  obtain ⟨answer, w₃, hplan⟩ := self.llm.planAction_apply thought w₂
  rw [Act.bind_apply, hplan]
  rcases answer with err | plan
  · exact .unplanned event context thought err
  rw [Outcome.andThen_mk_ok, ← map_eq_pure_bind, Act.map_apply]
  exact .performed event context thought (performed_perform self plan w₃)

/-! ### What a run obeys -/

section Loop

variable {L : Law (World ε) Event}

/-- The loop repeats rounds: the body of a step, behind a line for the host. -/
theorem obeys_loop_of_round
    (hround : ∀ event context,
      L.Obeys (self.bridge.emitEvent event >>= fun _ => self.react context))
    (remaining step : Nat) (ctx : ContextManager) (trace : RunTrace) :
    L.Obeys (self.loop remaining step ctx trace) := by
  induction remaining generalizing step ctx trace with
  | zero => exact Law.obeys_pure _
  | succ remaining ih =>
      unfold loop
      rw [← bind_assoc]
      refine Law.obeys_bind (hround _ _) fun ⟨obs, recorded⟩ => ?_
      dsimp only
      rcases self.validator.validate obs (step + 1) with - | - | -
      · exact ih _ _ _
      · exact Law.obeys_pure _
      · exact Law.obeys_pure _

/-- It is enough that the line and the body obey the law each. -/
theorem obeys_loop
    (hemit : ∀ event, L.Obeys (self.bridge.emitEvent event : Core ε String Unit))
    (hreact : ∀ context, L.Obeys (self.react context)) (remaining step : Nat)
    (ctx : ContextManager) (trace : RunTrace) : L.Obeys (self.loop remaining step ctx trace) :=
  obeys_loop_of_round (fun _ _ => Law.obeys_bind (hemit _) fun _ => hreact _) _ _ _ _

/-- With chunks it repeats the body of a step and nothing else. -/
theorem obeys_loopWithContext (hreact : ∀ context, L.Obeys (self.react context))
    (remaining step : Nat) (ctx : ContextManager) (trace : RunTrace) :
    L.Obeys (self.loopWithContext remaining step ctx trace) := by
  induction remaining generalizing step ctx trace with
  | zero => exact Law.obeys_pure _
  | succ remaining ih =>
      refine Law.obeys_bind (hreact _) fun ⟨obs, recorded⟩ => ?_
      dsimp only
      rcases self.validator.validate obs (step + 1) with - | - | -
      · exact ih _ _ _
      · exact Law.obeys_pure _
      · exact Law.obeys_pure _

end Loop

section Run

variable {L : Law (World ε) Event}
  (hquiet : L.AdmitsQuiet)
  (hperformed : ∀ thought {plan w t w'}, Performed self plan w t w' →
    L.rel w (.planAction thought (.ok plan) :: t) w')

include hquiet hperformed

/-- A planned action is performed behind its plan; a plan that fails does
nothing. -/
theorem obeys_planAndPerform (thought : Thought) :
    L.Obeys (self.llm.planAction thought >>= fun plan =>
      self.perform plan >>= fun obs =>
        pure (obs, (⟨thought.text, plan.tool, obs.output⟩ : Step))) := by
  intro w
  obtain ⟨r, w₁, hplan, hw₁⟩ : ∃ r w₁, self.llm.planAction thought w =
      ⟨r, w₁, [.planAction thought r]⟩ ∧ w₁.pending = w.pending := ⟨_, _, rfl, rfl⟩
  rw [Act.bind_apply, hplan]
  rcases r with err | plan
  · -- a plan that was never made is quiet
    exact hquiet (by simp [Event.Quiet]) hw₁
  · have hperf := hperformed thought (Performed.congr hw₁ (performed_perform self plan w₁))
    simpa using hperf

theorem obeys_react (context : String) : L.Obeys (self.react context) :=
  Law.obeys_bind (hquiet.obeys_count _) fun _ =>
    Law.obeys_bind (hquiet.obeys_think _ _) fun thought =>
      obeys_planAndPerform hquiet hperformed thought

/-- **A run of the ReAct loop obeys every law** that allows quiet events and each
performed action behind its plan.  It is the rule by which other modules speak of
runs, with no look at the loop. -/
theorem obeys_run (goal : String) : L.Obeys (self.run goal) :=
  obeys_loop (hquiet.obeys_emitEvent _) (obeys_react hquiet hperformed) _ _ _ _

end Run

/-! ### The calls of a run -/

/-- Every call that a run makes obeys the law.  With that a run obeys it as well,
whatever its loop does. -/
structure CallsObey (L : Law (World ε) Event) (planner : Planner ε) : Prop where
  emitEvent : ∀ event, L.Obeys (planner.bridge.emitEvent event : Core ε String Unit)
  think : ∀ context, L.Obeys (planner.llm.think context)
  planAction : ∀ thought, L.Obeys (planner.llm.planAction thought)
  recordAudit : ∀ action granted payload, L.Obeys (planner.recordAudit action granted payload)
  tool : ∀ tool argument, L.Obeys (planner.tools.run tool argument)
  applyEdit : ∀ edit, L.Obeys (planner.bridge.applyEdit edit)
  llmCalls : L.Obeys (Core.count .incLlmCalls : Core ε String Unit)
  toolCalls : L.Obeys (Core.count .incToolCalls : Core ε String Unit)
  denials : L.Obeys (Core.count .incDenials : Core ε String Unit)

namespace CallsObey

variable {L : Law (World ε) Event} (h : CallsObey L self)

include h

theorem authorizeAndRecord (tool : String) : L.Obeys (self.authorizeAndRecord tool) := by
  unfold Planner.authorizeAndRecord
  rcases actionPermission tool with - | required
  · exact Law.obeys_pure _
  · rcases hcheck : checkPermission self.principal required with e | ⟨⟩
    · simp only [hcheck]
      exact Law.obeys_bind h.denials fun _ =>
        Law.obeys_bind (h.recordAudit _ _ _) fun _ => Law.obeys_pure _
    · simp only [hcheck]
      exact Law.obeys_bind (h.recordAudit _ _ _) fun _ => Law.obeys_pure _

theorem perform (plan : ActionPlan) : L.Obeys (self.perform plan) := by
  apply Law.obeys_bind (h.emitEvent _)
  intro _
  apply Law.obeys_bind (h.authorizeAndRecord _)
  intro r
  rcases r with e | ⟨⟩
  · exact Law.obeys_bind (h.emitEvent _) fun _ => Law.obeys_pure _
  · refine Law.obeys_bind h.toolCalls fun _ => Law.obeys_bind (h.tool _ _) fun obs => ?_
    split
    · exact Law.obeys_bind (Law.obeys_ignore (h.applyEdit _)) fun _ => Law.obeys_pure _
    · exact Law.obeys_pure _

theorem react (context : String) : L.Obeys (self.react context) := by
  refine Law.obeys_bind h.llmCalls fun _ => Law.obeys_bind (h.think _) fun thought => ?_
  refine Law.obeys_bind (h.planAction _) fun plan => ?_
  exact Law.obeys_bind (h.perform plan) fun _ => Law.obeys_pure _

theorem run (goal : String) : L.Obeys (self.run goal) :=
  obeys_loop h.emitEvent h.react _ _ _ _

theorem runWithContext (goal : String) (sources : List ContextChunk) :
    L.Obeys (self.runWithContext goal sources) :=
  obeys_loopWithContext h.react _ _ _ _

end CallsObey

end Planner

end AgenticIde
