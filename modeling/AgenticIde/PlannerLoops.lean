/-
AgenticIde/PlannerLoops.lean

The two ReAct loops of the planner against each other.

`run` and `run_with_context` are two copies of one loop.  They show the LLM
different contexts and only one of them announces each step to the host, so
they are compared with an LLM that follows a script, whatever it is shown,
and a host whose telemetry is fire-and-forget: the outside is split into what
was told (`τ`: the telemetry, and the contexts the LLM was shown) and
everything else (`ε`), which is never asked about the former.

The two loops differ in one more thing.  `run` keeps sixteen entries and never
adds anything up; `run_with_context` asks for room for an entry a step, and
before each step adds up the estimates of the whole context, in machine
integers.  Either may panic (`runWithContextIn`), and nothing else sets the runs
apart: `same_loops` follows them in lock step as long as the sums fit,
`panic_of_not_totalsFit` says what happens when one does not, and `run_agrees_iff`
is both.  What the other modules say of `runWithContext`, which has neither
panic, they say of this run wherever it does not panic (`runWithContextIn_on`).
-/
import AgenticIde.ContextTrim
import AgenticIde.PlannerLockstep

namespace AgenticIde

variable {τ ε ε' α : Type}

/-! ### What was told, and everything else -/

namespace World

/-- The world without what was told. -/
def untold (w : World (τ × ε)) : World ε := { w with env := w.env.2 }

/-- Another rest of the world, with the same things told. -/
def retell (w : World (τ × ε)) (rest : World ε) : World (τ × ε) :=
  { rest with env := (w.env.1, rest.env) }

@[simp] theorem untold_retell (w : World (τ × ε)) (rest : World ε) :
    (w.retell rest).untold = rest := rfl

end World

/-- An executor that has no access to what was told. -/
def ToolExecutor.untold (tools : ToolExecutor ε) : ToolExecutor (τ × ε) where
  run tool argument := (tools.run tool argument).zoom World.untold World.retell

/-- An executor whose calls are reported with their answers, whatever else it
does. -/
def ToolExecutor.reported (tools : ToolExecutor ε) : ToolExecutor ε where
  run tool argument w :=
    let o := tools.run tool argument w
    { o with trace := o.trace ++ [.baseRun tool argument o.result] }

/-- The effects of a planner: telemetry left out, and the contexts of the
LLM. -/
def Event.effect : Event → Option Event
  | emitEvent _ => none
  | think _ answer => some (think "" answer)
  | event => some event

/-- The collaborators of a planner, the LLM following a script. -/
structure ScriptedParty (τ ε : Type) where
  onThink : ε → Except String Thought × ε
  onPlan : Thought → ε → Except String ActionPlan × ε
  tools : ToolExecutor ε
  onApplyEdit : TextEdit → ε → Except HostError Unit × ε
  onRecord : AuditEvent → ε → Except String Unit × ε
  hearContext : String → τ → τ
  hearEvent : HostEvent → τ → τ

/-- A planner over such collaborators. -/
def ScriptedParty.planner (party : ScriptedParty τ ε) (validator : Validator) (maxSteps : Nat)
    (principal : Principal) : Planner (τ × ε) where
  llm :=
    { onThink := fun context env =>
        ((party.onThink env.2).1, party.hearContext context env.1, (party.onThink env.2).2)
      onPlan := fun thought env =>
        ((party.onPlan thought env.2).1, env.1, (party.onPlan thought env.2).2) }
  tools := party.tools.reported.untold
  validator := validator
  bridge :=
    { onApplyEdit := fun edit env =>
        ((party.onApplyEdit edit env.2).1, env.1, (party.onApplyEdit edit env.2).2)
      onEvent := fun event env => (party.hearEvent event env.1, env.2) }
  maxSteps := maxSteps
  principal := principal
  audit :=
    { onRecord := fun event env =>
        ((party.onRecord event env.2).1, env.1, (party.onRecord event env.2).2) }

/-! ### Lock step -/

/-- The runs of the two loops, compared by their effects and by everything but
what was told. -/
def effects (τ ε : Type) : Lockstep (World (τ × ε)) (World (τ × ε)) Event Event Event :=
  .onPart World.untold Event.effect

/-- A call that is answered without regard to what was told, and whose effect
is the same. -/
theorem agree_call {f f' : τ × ε → Except ε' α × (τ × ε)} {ev ev' : Except ε' α → Event}
    (hanswer : ∀ t t' e, (f (t, e)).1 = (f' (t', e)).1)
    (henv : ∀ t t' e, (f (t, e)).2.2 = (f' (t', e)).2.2)
    (hev : ∀ answer, (ev answer).effect = (ev' answer).effect) :
    (effects τ ε).Agree (Act.external (World.call f) ev) (Act.external (World.call f') ev') := by
  rintro ⟨⟨t, e⟩, clock, ticks, metrics, pending, pendingIds, sessions⟩ w' h
  obtain ⟨⟨t', e'⟩, clock', ticks', metrics', pending', pendingIds', sessions'⟩ := w'
  obtain ⟨rfl, rfl, rfl, rfl, rfl, rfl, rfl⟩ : e = e' ∧ clock = clock' ∧ ticks = ticks' ∧
      metrics = metrics' ∧ pending = pending' ∧ pendingIds = pendingIds' ∧
      sessions = sessions' := by
    simpa [effects, Lockstep.onPart, World.untold] using h
  refine ⟨hanswer t t' e, ?_, ?_⟩
  · simp only [effects, Lockstep.onPart, Act.external_apply, World.call, World.untold]
    rw [henv t t' e]
  · show [ev (f (t, e)).1].filterMap Event.effect = [ev' (f' (t', e)).1].filterMap Event.effect
    rw [hanswer t t' e]
    simp only [List.filterMap_cons, hev]

/-- The calls of a scripted party agree with themselves. -/
theorem ScriptedParty.callsAgree (party : ScriptedParty τ ε) (validator : Validator)
    (maxSteps : Nat) (principal : Principal) :
    Planner.CallsAgree (effects τ ε) (party.planner validator maxSteps principal)
      (party.planner validator maxSteps principal) where
  principal_eq := rfl
  validator_eq := rfl
  emitEvent _ := agree_call (fun _ _ _ => rfl) (fun _ _ _ => rfl) fun _ => rfl
  planAction _ := agree_call (fun _ _ _ => rfl) (fun _ _ _ => rfl) fun _ => rfl
  tool _ _ := Lockstep.agree_zoom World.untold_retell _
  applyEdit _ := agree_call (fun _ _ _ => rfl) (fun _ _ _ => rfl) fun _ => rfl
  record _ := agree_call (fun _ _ _ => rfl) (fun _ _ _ => rfl) fun _ => rfl
  now := Lockstep.agree_zoom World.untold_retell Core.now
  count f := Lockstep.agree_zoom World.untold_retell (Core.count f)

/-! ### The second loop, with its panics -/

/-- How `run_with_context` may fail: with the error of a call, or with a panic. -/
inductive Failure
  | err (e : String)
  | panic

/-- No error of a call is a panic. -/
theorem mapError_err_ne_panic {α : Type} (r : Except String α) :
    r.mapError Failure.err ≠ .error .panic := by
  cases r with
  | error e => nofun
  | ok a => nofun

namespace Planner

variable (checks : OverflowChecks) (self : Planner ε)

/-- The loop of `run_with_context`: each step trims first. -/
def loopWithContextIn : Nat → Nat → ContextManager → RunTrace → Core ε Failure RunTrace
  | 0, _, _, trace => return trace
  | remaining + 1, step, ctx, trace =>
      match ctx.budgetTrimReport checks with
      | none => Act.throw .panic
      | some (_, ctx) => do
          let (obs, recorded) ← (self.react ctx.buildPrompt).mapError .err
          let trace := { trace with steps := trace.steps ++ [recorded] }
          match self.validator.validate obs (step + 1) with
          | .continue => loopWithContextIn remaining (step + 1) (ctx.push obs.output) trace
          | .done => return { trace with finalAnswer := obs.output }
          | .budgetExhausted => return { trace with finalAnswer := "budget exhausted" }

/-- The context of `run_with_context` before its first step. -/
def firstContext (goal : String) (sources : List ContextChunk) : ContextManager :=
  (sources.foldl ContextManager.addChunk (ContextManager.withBudget self.maxSteps 4096)).push
    s!"goal: {goal}"

/-- Run the ReAct loop toward `goal`, seeded with explicit chunks, in a build that checks
overflow or in one that does not. -/
def runWithContextIn (goal : String) (sources : List ContextChunk) : Core ε Failure RunTrace :=
  -- `VecDeque::with_capacity`: a string is three words
  if capacityFits 24 (max self.maxSteps 1) then
    self.loopWithContextIn checks self.maxSteps 0 (self.firstContext goal sources) ⟨[], ""⟩
  else Act.throw .panic

/-! ### What the sums are of -/

/-- The outputs after which `run` goes on to another step, in their order. -/
def observed : Nat → Nat → ContextManager → World ε → List String
  | 0, _, _, _ => []
  | remaining + 1, step, ctx, w =>
      let o := (do
        self.bridge.emitEvent (.status s!"step {step}: thinking")
        self.react ctx.snapshot : Core ε String (Observation × Step)) w
      match o.result with
      | .error _ => []
      | .ok (obs, _) =>
          match self.validator.validate obs (step + 1) with
          | .continue =>
              obs.output :: observed remaining (step + 1) (ctx.push obs.output) o.state
          | _ => []

/-- The outputs after which `run` goes on, from its first step on. -/
def outputs (goal : String) (w : World ε) : List String :=
  self.observed self.maxSteps 0 ((ContextManager.new 16).push s!"goal: {goal}") w

end Planner

/-- Before each of so many steps that follow such outputs, the estimates of the context, as
it has been trimmed so far, come to a machine integer. -/
def ContextManager.TotalsFit : Nat → ContextManager → List String → Prop
  | 0, _, _ => True
  | _ + 1, ctx, [] => ctx.totalTokens < UInt64.size
  | remaining + 1, ctx, output :: outputs =>
      ctx.totalTokens < UInt64.size ∧
        TotalsFit remaining (ctx.budgetTrim.push output) outputs

namespace ContextManager

theorem TotalsFit.first {remaining : Nat} {ctx : ContextManager} {outputs : List String}
    (h : TotalsFit (remaining + 1) ctx outputs) : ctx.totalTokens < UInt64.size := by
  cases outputs with
  | nil => exact h
  | cons output outputs => exact h.1

/-- A trimming panics just if overflow is checked and the total is no machine integer. -/
theorem budgetTrimReport_eq_none_iff (checks : OverflowChecks) (ctx : ContextManager) :
    ctx.budgetTrimReport checks = none ↔ checks = .on ∧ UInt64.size ≤ ctx.totalTokens := by
  cases checks with
  | on =>
      by_cases hfits : ctx.totalTokens < UInt64.size
      · obtain ⟨report, ctx', hreport, -⟩ := (trimsLawfully_iff .on ctx).mpr hfits
        simp [hreport, hfits]
      · have hfirst : ctx.usizeTotal .on = none := by rw [usizeTotal_on, if_neg hfits]
        have hpanic : ctx.budgetTrimReport .on = none := by
          rw [budgetTrimReport, trimLoop, hfirst]
        simp [hpanic, Nat.not_lt.mp hfits]
  | off =>
      obtain ⟨d, hstops⟩ := exists_stopsAt (fun k => ⟨_, (ctx.afterDropping k).usizeTotal_off⟩)
        (Nat.zero_le (dropOrder ctx.chunks).length)
      have hreport := (budgetTrimReport_eq_some_iff .off ctx _).mpr ⟨d, hstops, rfl⟩
      simp [hreport]

end ContextManager

/-! ### The two loops in lock step -/

namespace Planner

variable {η : Type} {γ : Type*} {L : Lockstep (World ε) (World η) Event Event γ}
  {self : Planner ε} {self' : Planner η} {checks : OverflowChecks}

/-- What `run` observes, once the line of the step is told. -/
theorem observed_succ {remaining step : Nat} {ctx : ContextManager} {w w₁ : World ε}
    {t : List Event}
    (hline : (self.bridge.emitEvent (.status s!"step {step}: thinking") : Core ε String Unit) w =
      ⟨.ok (), w₁, t⟩) :
    self.observed (remaining + 1) step ctx w =
      match (self.react ctx.snapshot w₁).result with
      | .error _ => []
      | .ok (obs, _) =>
          match self.validator.validate obs (step + 1) with
          | .continue => obs.output ::
              self.observed remaining (step + 1) (ctx.push obs.output)
                (self.react ctx.snapshot w₁).state
          | _ => [] := by
  rw [observed, Act.bind_apply_of_ok hline]
  rfl

/-- A first trimming that fits leaves a context, and where overflow is checked it is that of
exact arithmetic. -/
theorem exists_trimmed (checks : OverflowChecks) {ctx : ContextManager}
    (hfits : checks = .off ∨ ctx.totalTokens < UInt64.size) :
    ∃ report trimmed, ctx.budgetTrimReport checks = some (report, trimmed) ∧
      (checks = .off ∨ trimmed = ctx.budgetTrim) := by
  rcases hreport : ctx.budgetTrimReport checks with - | ⟨report, trimmed⟩
  · obtain ⟨rfl, hover⟩ := (ContextManager.budgetTrimReport_eq_none_iff checks ctx).mp hreport
    rcases hfits with hoff | hfits
    · cases hoff
    · exact absurd hfits (Nat.not_lt.mpr hover)
  · refine ⟨report, trimmed, rfl, hfits.imp_right fun hfits => ?_⟩
    have hsnd := ContextManager.budgetTrimReport_snd checks hfits
    rw [hreport] at hsnd
    exact Option.some.inj hsnd

/-- **The two loops agree** as long as the sums fit, each with a context of its own: where
the LLMs think alike whatever they are shown, and the line for the host that only `run`
emits goes unnoticed. -/
theorem same_loops (hcalls : CallsAgree L self self')
    (hline : ∀ event w w', L.rel w w' → ∃ w₁ t,
      (self.bridge.emitEvent event : Core ε String Unit) w = ⟨.ok (), w₁, t⟩ ∧ L.rel w₁ w' ∧
        t.filterMap L.view = [])
    (hthink : ∀ context context', L.Agree (self.llm.think context) (self'.llm.think context'))
    {remaining step : Nat} {ctx ctx' : ContextManager} (trace : RunTrace) {w : World ε}
    {w' : World η} (hrel : L.rel w w')
    (hfits : checks = .off ∨ ctx'.TotalsFit remaining (self.observed remaining step ctx w)) :
    L.Same ((self.loop remaining step ctx trace).mapError Failure.err w)
      (self'.loopWithContextIn checks remaining step ctx' trace w') := by
  induction remaining generalizing step ctx ctx' trace w w' with
  | zero => exact ⟨rfl, hrel, rfl⟩
  | succ remaining ih =>
      obtain ⟨w₁, t, hemit, hrel₁, hview⟩ := hline (.status s!"step {step}: thinking") w w' hrel
      rw [observed_succ hemit] at hfits
      -- the trimming does not panic, and where overflow is checked it is the exact one
      obtain ⟨report, trimmed, hreport, htrimmed⟩ :=
        exists_trimmed checks (hfits.imp_right ContextManager.TotalsFit.first)
      rw [loop, Act.mapError_bind, Act.bind_apply, Act.mapError_apply, hemit, loopWithContextIn,
        hreport]
      refine Lockstep.Same.after_left ?_ hview
      rw [Act.mapError_bind]
      have hreact := hcalls.react (hthink ctx.snapshot trimmed.buildPrompt)
      refine (Lockstep.agree_mapError Failure.err hreact w₁ w' hrel₁).andThen ?_
      rintro ⟨obs, recorded⟩ hobs
      have hok : (self.react ctx.snapshot w₁).result = .ok (obs, recorded) := by
        rcases hresult : (self.react ctx.snapshot w₁).result with err | r
        · rw [Act.mapError_apply, hresult] at hobs
          cases hobs
        · rw [Act.mapError_apply, hresult] at hobs
          rw [Except.ok.inj hobs]
      rw [hok] at hfits
      dsimp only at hfits ⊢
      rw [hcalls.validator_eq]
      have hrel₂ := (hreact w₁ w' hrel₁).2.1
      rcases hverdict : self.validator.validate obs (step + 1) with - | - | -
      · -- one more output, one more entry of either context
        rw [hverdict] at hfits
        refine ih _ hrel₂ ?_
        rcases hfits with hoff | hfits
        · exact .inl hoff
        · rcases htrimmed with hoff | rfl
          · exact .inl hoff
          · exact .inr hfits.2
      · exact ⟨rfl, hrel₂, rfl⟩
      · exact ⟨rfl, hrel₂, rfl⟩

/-- **A sum that does not fit is a panic**, in a build that checks. -/
theorem panic_of_not_totalsFit (hcalls : CallsAgree L self self')
    (hline : ∀ event w w', L.rel w w' → ∃ w₁ t,
      (self.bridge.emitEvent event : Core ε String Unit) w = ⟨.ok (), w₁, t⟩ ∧ L.rel w₁ w' ∧
        t.filterMap L.view = [])
    (hthink : ∀ context context', L.Agree (self.llm.think context) (self'.llm.think context'))
    {remaining step : Nat} {ctx ctx' : ContextManager} (trace : RunTrace) {w : World ε}
    {w' : World η} (hrel : L.rel w w')
    (hover : ¬ ctx'.TotalsFit remaining (self.observed remaining step ctx w)) :
    (self'.loopWithContextIn .on remaining step ctx' trace w').result = .error .panic := by
  induction remaining generalizing step ctx ctx' trace w w' with
  | zero => exact absurd trivial hover
  | succ remaining ih =>
      obtain ⟨w₁, t, hemit, hrel₁, -⟩ := hline (.status s!"step {step}: thinking") w w' hrel
      rw [observed_succ hemit] at hover
      rw [loopWithContextIn]
      by_cases hfirst : ctx'.totalTokens < UInt64.size
      · obtain ⟨report, trimmed, hreport, htrimmed⟩ := exists_trimmed .on (.inr hfirst)
        obtain rfl := htrimmed.resolve_left nofun
        rw [hreport]
        have hreact := hcalls.react (hthink ctx.snapshot ctx'.budgetTrim.buildPrompt) w₁ w' hrel₁
        rcases hok : (self.react ctx.snapshot w₁).result with err | ⟨obs, recorded⟩
        · rw [hok] at hover
          exact absurd hfirst hover
        · rw [hok] at hover
          dsimp only at hover
          rcases hverdict : self.validator.validate obs (step + 1) with - | - | -
          · -- `run` goes on, and so does this loop, to the sum that does not fit
            rw [hverdict] at hover
            have hrest := ih { trace with steps := trace.steps ++ [recorded] } hreact.2.1
              fun hrest => hover ⟨hfirst, hrest⟩
            have hstep : (self'.react ctx'.budgetTrim.buildPrompt).mapError Failure.err w' =
                ⟨.ok (obs, recorded), (self'.react ctx'.budgetTrim.buildPrompt w').state,
                  (self'.react ctx'.budgetTrim.buildPrompt w').trace⟩ := by
              rw [Act.mapError_apply, ← hreact.1, hok]
              rfl
            dsimp only
            rw [Act.bind_apply_of_ok hstep, Outcome.after_result]
            dsimp only
            rw [hcalls.validator_eq, hverdict]
            exact hrest
          · rw [hverdict] at hover
            exact absurd hfirst hover
          · rw [hverdict] at hover
            exact absurd hfirst hover
      · have hpanic : ctx'.budgetTrimReport .on = none :=
          (ContextManager.budgetTrimReport_eq_none_iff .on ctx').mpr ⟨rfl, Nat.le_of_not_lt hfirst⟩
        rw [hpanic]
        rfl

/-- Where the checks do not panic, the arithmetic is exact. -/
theorem loopWithContextIn_on (self : Planner ε) {remaining step : Nat} {ctx : ContextManager}
    {trace : RunTrace} {w : World ε}
    (h : (self.loopWithContextIn .on remaining step ctx trace w).result ≠ .error .panic) :
    self.loopWithContextIn .on remaining step ctx trace w =
      (self.loopWithContext remaining step ctx trace).mapError .err w := by
  -- By induction on the steps left. A checked trimming that does not panic has a sum that
  -- fits, and then trims as the exact one does.
  induction remaining generalizing step ctx trace w with
  | zero => rfl
  | succ remaining ih =>
      rw [loopWithContextIn] at h ⊢
      have hfits : ctx.totalTokens < UInt64.size := by
        by_contra hover
        have hpanic : ctx.budgetTrimReport .on = none :=
          (ContextManager.budgetTrimReport_eq_none_iff .on ctx).mpr ⟨rfl, Nat.le_of_not_lt hover⟩
        rw [hpanic] at h
        exact h rfl
      obtain ⟨report, trimmed, hreport, htrimmed⟩ := exists_trimmed .on (.inr hfits)
      obtain rfl := htrimmed.resolve_left nofun
      rw [hreport] at h ⊢
      rw [loopWithContext, Act.mapError_bind, Act.bind_apply]
      dsimp only at h ⊢
      rw [Act.bind_apply] at h ⊢
      rcases hreact : (self.react ctx.budgetTrim.buildPrompt).mapError Failure.err w
        with ⟨err | ⟨obs, recorded⟩, w₁, t⟩
      -- An error of the step ends both runs in the same way.
      · rfl
      · rw [hreact] at h
        rw [Outcome.andThen_mk_ok, Outcome.andThen_mk_ok]
        rw [Outcome.andThen_mk_ok, Outcome.after_result] at h
        dsimp only at h ⊢
        rcases hverdict : self.validator.validate obs (step + 1) with - | - | -
        · rw [hverdict] at h
          exact congrArg _ (ih h)
        · rfl
        · rfl

/-- **Where a checked run does not panic it is the run in exact arithmetic**, which
the other modules are about.  Every sum that was taken has been checked, so none was
wrapped. -/
theorem runWithContextIn_on (self : Planner ε) {goal : String} {sources : List ContextChunk}
    {w : World ε} (h : (self.runWithContextIn .on goal sources w).result ≠ .error .panic) :
    self.runWithContextIn .on goal sources w =
      (self.runWithContext goal sources).mapError .err w := by
  by_cases hroom : capacityFits 24 (max self.maxSteps 1)
  · rw [runWithContextIn, if_pos hroom] at h ⊢
    exact self.loopWithContextIn_on h
  · rw [runWithContextIn, if_neg hroom] at h
    exact absurd rfl h

end Planner

namespace ScriptedParty

variable (party : ScriptedParty τ ε) (validator : Validator) (maxSteps : Nat)
  (principal : Principal)

/-- The line of a step is telemetry. -/
theorem line_untold (event : HostEvent) (w w' : World (τ × ε)) (h : (effects τ ε).rel w w') :
    ∃ w₁ t, ((party.planner validator maxSteps principal).bridge.emitEvent event :
        Core (τ × ε) String Unit) w = ⟨.ok (), w₁, t⟩ ∧ (effects τ ε).rel w₁ w' ∧
      t.filterMap (effects τ ε).view = [] :=
  ⟨_, _, rfl, h, rfl⟩

/-- The script does not look at the context. -/
theorem think_untold (context context' : String) :
    (effects τ ε).Agree ((party.planner validator maxSteps principal).llm.think context)
      ((party.planner validator maxSteps principal).llm.think context') :=
  agree_call (fun _ _ _ => rfl) (fun _ _ _ => rfl) fun _ => rfl

end ScriptedParty

/-- **When the two ReAct loops agree.**  For every script, the two runs give the same result,
make the same calls of tools and of the host, record the same audit events and count the
same, exactly if there is room for an entry a step and, where overflow is checked, the
estimates of the context before each step come to a machine integer. -/
theorem run_agrees_iff (checks : OverflowChecks) (party : ScriptedParty τ ε)
    (validator : Validator) (maxSteps : Nat) (principal : Principal) (goal : String)
    (sources : List ContextChunk) (w : World (τ × ε)) :
    let planner := party.planner validator maxSteps principal
    ((planner.runWithContextIn checks goal sources w).result =
        (planner.run goal w).result.mapError .err ∧
      (planner.runWithContextIn checks goal sources w).trace.filterMap Event.effect =
        (planner.run goal w).trace.filterMap Event.effect ∧
      (planner.runWithContextIn checks goal sources w).state.untold =
        (planner.run goal w).state.untold) ↔
    max maxSteps 1 * 24 < UInt64.size / 2 ∧
      (checks = .off ∨ (planner.firstContext goal sources).TotalsFit maxSteps
        (planner.outputs goal w)) := by
  intro planner
  have hcalls := party.callsAgree validator maxSteps principal
  have hline := party.line_untold validator maxSteps principal
  have hthink := party.think_untold validator maxSteps principal
  by_cases hroom : max maxSteps 1 * 24 < UInt64.size / 2
  -- With room for an entry a step, the run is its loop.
  · have hloop : planner.runWithContextIn checks goal sources =
        planner.loopWithContextIn checks maxSteps 0 (planner.firstContext goal sources) ⟨[], ""⟩ :=
      if_pos (decide_eq_true hroom)
    rw [hloop]
    constructor
    · rintro ⟨hresult, -, -⟩
      -- A sum that does not fit is a panic of this run, and `run` has none.
      refine ⟨hroom, ?_⟩
      by_contra hover
      obtain ⟨hchecks, hsum⟩ := not_or.mp hover
      obtain rfl : checks = .on := by
        cases checks with
        | on => rfl
        | off => exact absurd rfl hchecks
      rw [Planner.panic_of_not_totalsFit hcalls hline hthink ⟨[], ""⟩ rfl hsum] at hresult
      exact mapError_err_ne_panic _ hresult.symm
    · rintro ⟨-, hfits⟩
      obtain ⟨hresult, hstate, htrace⟩ :=
        Planner.same_loops hcalls hline hthink ⟨[], ""⟩ (rfl : (effects τ ε).rel w w) hfits
      exact ⟨hresult.symm, htrace.symm, hstate.symm⟩
  -- Without the room the run panics before its first step.
  · have hpanic : planner.runWithContextIn checks goal sources = Act.throw .panic :=
      if_neg fun h => hroom (of_decide_eq_true h)
    rw [hpanic]
    constructor
    · rintro ⟨hresult, -, -⟩
      exact absurd hresult.symm (mapError_err_ne_panic _)
    · rintro ⟨hroom', -⟩
      exact absurd hroom' hroom

/-- A party whose LLM is down. -/
def ScriptedParty.down : ScriptedParty Unit Unit where
  onThink env := (.error "down", env)
  onPlan _ env := (.error "down", env)
  tools := BasicToolExecutor
  onApplyEdit _ env := (.ok (), env)
  onRecord _ env := (.ok (), env)
  hearContext _ told := told
  hearEvent _ told := told

/-- Where `run` fails with its LLM, `run_with_context` panics: in either build with too many
steps to make room for, and in one that checks overflow with two chunks whose estimates
add up to no machine integer. -/
theorem run_disagrees :
    (∀ checks, ((ScriptedParty.down.planner (BasicValidator 8) (2 ^ 60)
        (.all "t" "u")).runWithContextIn checks "goal" [] (.initial ((), ()))).result ≠
      ((ScriptedParty.down.planner (BasicValidator 8) (2 ^ 60) (.all "t" "u")).run "goal"
        (.initial ((), ()))).result.mapError .err) ∧
    ((ScriptedParty.down.planner (BasicValidator 8) 1 (.all "t" "u")).runWithContextIn .on "goal"
        ContextManager.wrapping.chunks (.initial ((), ()))).result ≠
      ((ScriptedParty.down.planner (BasicValidator 8) 1 (.all "t" "u")).run "goal"
        (.initial ((), ()))).result.mapError .err := by
  constructor
  · intro checks
    have hroom : ¬ capacityFits 24 (max (2 ^ 60) 1) := by decide
    have hpanic : (ScriptedParty.down.planner (BasicValidator 8) (2 ^ 60)
        (.all "t" "u")).runWithContextIn checks "goal" [] = Act.throw .panic := if_neg hroom
    rw [hpanic]
    exact (mapError_err_ne_panic _).symm
  · have hroom : capacityFits 24 (max 1 1) := by decide
    have hsum : ((ScriptedParty.down.planner (BasicValidator 8) 1 (.all "t" "u")).firstContext
        "goal" ContextManager.wrapping.chunks).budgetTrimReport .on = none := by decide
    have hloop : (ScriptedParty.down.planner (BasicValidator 8) 1
        (.all "t" "u")).runWithContextIn .on "goal" ContextManager.wrapping.chunks =
          (ScriptedParty.down.planner (BasicValidator 8) 1 (.all "t" "u")).loopWithContextIn .on 1 0
            _ ⟨[], ""⟩ := if_pos hroom
    rw [hloop, Planner.loopWithContextIn, hsum]
    exact (mapError_err_ne_panic _).symm

end AgenticIde
