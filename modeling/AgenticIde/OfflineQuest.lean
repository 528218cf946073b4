/-
AgenticIde/OfflineQuest.lean

A quest without a model: `MockLlm` (`llm.rs`), which the backend `mock`
chooses, under the decomposer, the tools and the validator of the command
line (`cmd_quest`).

`MockLlm` names no subtask, so the goal stays in one piece; and it plans
`finish` just when the goal's marker shows in its context.  What its other
plans bring (`inspected current_state`) shows no marker, so a context shows one
just if the goal does (`showsMarker_snapshot_iff`), in every step alike.  A
round is `react_offline`, a run `loop_unfinished`, and `run_offline` is the
report of the quest with what it cost.  The main result, `whileRun_offline`, is
about the loops of the source: with as many retries as a machine integer can say
an offline quest that is to fail runs on instead.
-/
import AgenticIde.ContextWindow
import AgenticIde.Lib.Decimal
import AgenticIde.Lib.Find
import AgenticIde.QuestLoop
import AgenticIde.Subtasks

namespace AgenticIde

variable {ε ε' : Type}

/-! ### The model that is none -/

/-- Deterministic LLM used for demos and tests. -/
def MockLlm : Llm ε where
  onThink context env :=
    if Str.contains "DONE" context then (.ok ⟨"Goal satisfied; finalizing."⟩, env)
    else (.ok ⟨"Inspecting context to progress toward goal. " ++
      s!"(ctx len={context.utf8ByteSize})"⟩, env)
  onPlan thought env :=
    if Str.contains "finalizing" thought.text then (.ok ⟨"finish", ""⟩, env)
    else (.ok ⟨"inspect", "current_state"⟩, env)

/-- The quest of the command line over `MockLlm`; `limit` is that of its
validator. -/
def Quest.offline (bridge : HostBridge ε) (config : QuestConfig) (principal : Principal)
    (audit : AuditSink ε) (limit : Nat) : Quest ε where
  decomposer := LlmGoalDecomposer MockLlm
  llm := MockLlm
  tools := BasicToolExecutor
  validator := BasicValidator limit
  bridge := bridge
  config := config
  principal := principal
  audit := audit

/-! ### The marker -/

/-- The text shows the marker of a satisfied goal. -/
def ShowsMarker (text : String) : Prop := Str.contains "DONE" text = true

instance (text : String) : Decidable (ShowsMarker text) := inferInstanceAs (Decidable (_ = true))

/-- What comes before and after a separator is searched apart. -/
theorem showsMarker_iff {text : String} {before after : List Char} {c : Char}
    (htext : text.toList = before ++ c :: after) (hc : c ∉ "DONE".toList) :
    ShowsMarker text ↔ "DONE".toList <:+: before ∨ "DONE".toList <:+: after := by
  rw [ShowsMarker, Str.contains_iff, htext, Str.isInfix_append_cons_iff hc]

theorem not_isInfix_of_not_mem {text : List Char} (h : 'D' ∉ text) : ¬ "DONE".toList <:+: text :=
  fun hsub => h (hsub.subset List.mem_cons_self)

/-- An entry of the goal shows the marker just if the goal does. -/
theorem showsMarker_goal (goal : String) : ShowsMarker s!"goal: {goal}" ↔ ShowsMarker goal := by
  have htext : (s!"goal: {goal}").toList = "goal:".toList ++ ' ' :: goal.toList := by
    show ("goal: " ++ goal).toList = _
    rw [String.toList_append]
    rfl
  rw [showsMarker_iff htext (by decide), or_iff_right (not_isInfix_of_not_mem (by decide)),
    ShowsMarker, Str.contains_iff]

/-- A line of a context shows it just if its entry does. -/
theorem showsMarker_line (i : Nat) (item rest : String) :
    ShowsMarker (s!"[{i}] {item}\n" ++ rest) ↔ ShowsMarker item ∨ ShowsMarker rest := by
  have htext : (s!"[{i}] {item}\n" ++ rest).toList =
      ('[' :: (toString i).toList ++ [']']) ++ ' ' :: (item.toList ++ '\n' :: rest.toList) := by
    show ("[" ++ toString i ++ "] " ++ item ++ "\n" ++ rest).toList = _
    simp [String.toList_append]
  have hindex : 'D' ∉ '[' :: (toString i).toList ++ [']'] := by
    intro hD
    rw [List.mem_append, List.mem_cons, List.mem_singleton] at hD
    rcases hD with (hD | hD) | hD
    · exact absurd hD (by decide)
    · exact absurd (Decimal.isDigit_of_mem hD) (by decide)
    · exact absurd hD (by decide)
  rw [showsMarker_iff htext (by decide), or_iff_right (not_isInfix_of_not_mem hindex),
    Str.isInfix_append_cons_iff (by decide)]
  simp only [ShowsMarker, Str.contains_iff]

theorem showsMarker_snapshotFrom_iff (i : Nat) (window : List String) :
    ShowsMarker (ContextManager.snapshotFrom i window) ↔ ∃ item ∈ window, ShowsMarker item := by
  induction window generalizing i with
  | nil =>
      have hempty : ¬ ShowsMarker "" := by decide
      exact ⟨fun h => absurd h hempty, fun ⟨_, h, _⟩ => by cases h⟩
  | cons item rest ih =>
      rw [ContextManager.snapshotFrom, showsMarker_line, ih (i + 1), List.exists_mem_cons_iff]

/-- A context shows the marker just if one of its entries does. -/
theorem showsMarker_snapshot_iff (ctx : ContextManager) :
    ShowsMarker ctx.snapshot ↔ ∃ item ∈ ctx.window, ShowsMarker item :=
  showsMarker_snapshotFrom_iff 0 ctx.window

/-! ### Rounds -/

/-- What `n` rounds without a model cost, and leave alone.  Every round counts one
call of the model and one of a tool, and nothing is left pending. -/
structure Spent (n : Nat) (w w' : World ε) : Prop where
  metrics : w'.metrics = { w.metrics with
    llmCallsTotal := w.metrics.llmCallsTotal + n
    toolCallsTotal := w.metrics.toolCallsTotal + n }
  pending : w'.pending = w.pending

namespace Spent

variable {m n : Nat} {w w' w'' : World ε}

theorem refl (w : World ε) : Spent 0 w w := ⟨rfl, rfl⟩

theorem trans (h : Spent m w w') (h' : Spent n w' w'') : Spent (m + n) w w'' where
  metrics := by
    rw [h'.metrics, h.metrics]
    simp only [Nat.add_assoc]
  pending := h'.pending.trans h.pending

end Spent

/-- What `MockLlm` thinks of a context without a marker. -/
def inspecting (context : String) : String :=
  "Inspecting context to progress toward goal. " ++ s!"(ctx len={context.utf8ByteSize})"

theorem toList_inspecting (context : String) : (inspecting context).toList =
    "Inspecting context to progress toward goal. (ctx len".toList ++
      '=' :: ((toString context.utf8ByteSize).toList ++ [')']) := by
  show ("Inspecting context to progress toward goal. " ++
    ("(ctx len=" ++ toString context.utf8ByteSize ++ ")")).toList = _
  simp [String.toList_append]

theorem onThink_of_marker {context : String} (h : ShowsMarker context) (env : ε) :
    MockLlm.onThink context env = (.ok ⟨"Goal satisfied; finalizing."⟩, env) := by
  show (if Str.contains "DONE" context = true then _ else _) = _
  exact if_pos h

theorem onThink_of_not_marker {context : String} (h : ¬ ShowsMarker context) (env : ε) :
    MockLlm.onThink context env = (.ok ⟨inspecting context⟩, env) := by
  show (if Str.contains "DONE" context = true then _ else _) = _
  exact if_neg h

theorem not_mem_inspecting (context : String) : '\n' ∉ (inspecting context).toList := by
  rw [toList_inspecting, List.mem_append, List.mem_cons, List.mem_append, List.mem_singleton]
  rintro (h | h | h | h)
  · exact absurd h (by decide)
  · exact absurd h (by decide)
  · exact absurd (Decimal.isDigit_of_mem h) (by decide)
  · exact absurd h (by decide)

/-- It is no reason to finish. -/
theorem not_contains_finalizing (context : String) :
    Str.contains "finalizing" (inspecting context) = false := by
  rw [← Bool.not_eq_true, Str.contains_iff, toList_inspecting,
    Str.isInfix_append_cons_iff (by decide)]
  rintro (h | h)
  · exact absurd h (by decide)
  · have hf : 'f' ∈ (toString context.utf8ByteSize).toList ++ [')'] :=
      h.subset List.mem_cons_self
    rcases List.mem_append.mp hf with hf | hf
    · exact absurd (Decimal.isDigit_of_mem hf) (by decide)
    · exact absurd hf (by decide)

/-- A model that answers without looking around leads to the action it
plans. -/
theorem Planner.react_of_answers (self : Planner ε) (thought : Thought) (plan : ActionPlan)
    {context : String} {obs : Observation}
    (hthink : ∀ env, self.llm.onThink context env = (.ok thought, env))
    (hplan : ∀ env, self.llm.onPlan thought env = (.ok plan, env))
    (hperform : ∀ w, ∃ w' t, self.perform plan w = ⟨.ok obs, w', t⟩ ∧
      w'.metrics = w.metrics.incToolCalls ∧ w'.pending = w.pending)
    (event : HostEvent) (w : World ε) :
    ∃ w' t, ((self.bridge.emitEvent event : Core ε String Unit) >>= fun _ =>
        self.react context) w = ⟨.ok (obs, ⟨thought.text, plan.tool, obs.output⟩), w', t⟩ ∧
      Spent 1 w w' := by
  obtain ⟨w₁, hemit, hw₁⟩ : ∃ w₁, ((self.bridge.emitEvent event : Core ε String Unit) >>=
      fun _ => Core.count .incLlmCalls) w = ⟨.ok (), w₁, [.emitEvent event]⟩ ∧
        w₁.metrics = w.metrics.incLlmCalls ∧ w₁.pending = w.pending := ⟨_, rfl, rfl, rfl⟩
  -- The model looks at nothing outside, so what it thinks and plans is known from the
  -- context.
  have hthought : self.llm.think context w₁ =
      ⟨.ok thought, w₁, [.think context (.ok thought)]⟩ := by
    rw [Llm.think, Act.external_apply, World.call, hthink]
  have hplanned : self.llm.planAction thought w₁ =
      ⟨.ok plan, w₁, [.planAction thought (.ok plan)]⟩ := by
    rw [Llm.planAction, Act.external_apply, World.call, hplan]
  obtain ⟨w', t, hdone, hmetrics, hpending⟩ := hperform w₁
  rw [Planner.react, ← bind_assoc, Act.bind_apply_of_ok hemit, Act.bind_apply_of_ok hthought,
    Act.bind_apply_of_ok hplanned, Act.bind_apply_of_ok hdone]
  refine ⟨w', _, rfl, ?_, hpending.trans hw₁.2⟩
  rw [hmetrics, hw₁.1]
  rfl

/-- The step of a round that inspects. -/
def inspected (context : String) : Step :=
  ⟨inspecting context, "inspect", "inspected current_state"⟩

/-- The planner goes by the marker: a round that finds it in its context
finishes, a round that finds none inspects. -/
structure Planner.GoesByMarker (planner : Planner ε) (limit : Nat) : Prop where
  validator : planner.validator = BasicValidator limit
  finish : ∀ {context : String}, ShowsMarker context → ∀ (event : HostEvent) (w : World ε),
    ∃ w' t, ((planner.bridge.emitEvent event : Core ε String Unit) >>= fun _ =>
        planner.react context) w = ⟨.ok (⟨"finish", "task finished", true⟩,
          ⟨"Goal satisfied; finalizing.", "finish", "task finished"⟩), w', t⟩ ∧ Spent 1 w w'
  inspect : ∀ {context : String}, ¬ ShowsMarker context → ∀ (event : HostEvent) (w : World ε),
    ∃ w' t, ((planner.bridge.emitEvent event : Core ε String Unit) >>= fun _ =>
        planner.react context) w = ⟨.ok (⟨"inspect", "inspected current_state", false⟩,
          inspected context), w', t⟩ ∧ Spent 1 w w'

/-- **The rounds of an offline quest** go by the marker, whatever the principal may
do: neither tool needs a right.  The marker is looked for in the context that the
model is shown, and nothing else bears on what it plans. -/
theorem goesByMarker_offline (bridge : HostBridge ε) (config : QuestConfig) (principal : Principal)
    (audit : AuditSink ε) (limit : Nat) (st : SubTask) :
    ((Quest.offline bridge config principal audit limit).planner st).GoesByMarker limit where
  validator := rfl
  finish h := by
    apply Planner.react_of_answers _ ⟨"Goal satisfied; finalizing."⟩ ⟨"finish", ""⟩
    · exact onThink_of_marker h
    · intro env
      rfl
    · intro w
      exact ⟨_, _, rfl, rfl, rfl⟩
  inspect {context} h := by
    apply Planner.react_of_answers _ ⟨inspecting context⟩ ⟨"inspect", "current_state"⟩
    · exact onThink_of_not_marker h
    · intro env
      exact if_neg (Bool.eq_false_iff.mp (not_contains_finalizing context))
    · intro w
      exact ⟨_, _, rfl, rfl, rfl⟩

/-! ### Runs -/

/-- Pushing an entry without a marker brings none. -/
theorem not_showsMarker_push {ctx : ContextManager} {item : String} (hitem : ¬ ShowsMarker item)
    (h : ∀ entry ∈ ctx.window, ¬ ShowsMarker entry) :
    ∀ entry ∈ (ctx.push item).window, ¬ ShowsMarker entry := by
  intro entry hentry
  rw [ContextManager.push] at hentry
  rcases List.mem_append.mp hentry with hold | hnew
  · apply h
    split at hold
    · exact List.mem_of_mem_tail hold
    · exact hold
  · rwa [List.mem_singleton.mp hnew]

namespace Planner.GoesByMarker

variable {self : Planner ε} {limit : Nat}

/-- **A run without a marker** spends its steps, or its budget, and answers nothing.
No step puts a marker into the window, as the tool that is planned without one does
not answer with it. -/
theorem loop_unfinished (hself : self.GoesByMarker limit) (remaining step : Nat)
    {ctx : ContextManager} (h : ∀ entry ∈ ctx.window, ¬ ShowsMarker entry) (steps : List Step)
    (w : World ε) :
    ∃ trace w' t, self.loop remaining step ctx ⟨steps, ""⟩ w = ⟨.ok trace, w', t⟩ ∧
      trace.finalAnswer ≠ "task finished" ∧
      Spent (min remaining (max 1 (limit - step))) w w' := by
  induction remaining generalizing step ctx steps w with
  | zero =>
      refine ⟨_, _, _, rfl, ?_, ?_⟩
      · show "" ≠ "task finished"
        decide
      · rw [Nat.zero_min]
        exact .refl w
  | succ remaining ih =>
      have hmarker : ¬ ShowsMarker ctx.snapshot := by
        rw [showsMarker_snapshot_iff]
        rintro ⟨entry, hentry, hshows⟩
        exact h entry hentry hshows
      obtain ⟨w₁, t₁, hround, hspent⟩ := hself.inspect hmarker (.status s!"step {step}: thinking") w
      rw [loop, ← bind_assoc, Act.bind_apply_of_ok hround]
      dsimp only
      rw [hself.validator]
      rcases BasicValidator_cases limit ⟨"inspect", "inspected current_state", false⟩ (step + 1)
        with ⟨hterminal, -⟩ | ⟨hused, hverdict⟩ | ⟨hleft, hverdict⟩
      · exact absurd hterminal Bool.false_ne_true
      · rw [hverdict]
        refine ⟨_, w₁, _, rfl, ?_, ?_⟩
        · show "budget exhausted" ≠ "task finished"
          decide
        · have hsteps : min (remaining + 1) (max 1 (limit - step)) = 1 := by omega
          rwa [hsteps]
      · have houtput : ¬ ShowsMarker "inspected current_state" := by decide
        obtain ⟨trace, w', t, hrest, hanswer, hspent'⟩ := ih (step + 1)
          (not_showsMarker_push houtput h) (steps ++ [inspected ctx.snapshot]) w₁
        rw [hverdict]
        show ∃ trace w' t, (self.loop remaining (step + 1) _ _ w₁).after t₁ = _ ∧ _
        rw [hrest]
        refine ⟨trace, w', _, rfl, hanswer, ?_⟩
        have hsteps : min (remaining + 1) (max 1 (limit - step)) =
            1 + min remaining (max 1 (limit - (step + 1))) := by omega
        rw [hsteps]
        exact hspent.trans hspent'

/-- A run whose first context shows the marker finishes at once. -/
theorem loop_finished (hself : self.GoesByMarker limit) {remaining : Nat} (hpos : 0 < remaining)
    {ctx : ContextManager} (h : ShowsMarker ctx.snapshot) (w : World ε) :
    ∃ trace w' t, self.loop remaining 0 ctx ⟨[], ""⟩ w = ⟨.ok trace, w', t⟩ ∧
      trace.finalAnswer = "task finished" ∧ Spent 1 w w' := by
  obtain ⟨remaining, rfl⟩ := Nat.exists_eq_add_one.mpr hpos
  obtain ⟨w₁, t₁, hround, hspent⟩ := hself.finish h (.status s!"step {0}: thinking") w
  rw [loop, ← bind_assoc, Act.bind_apply_of_ok hround]
  dsimp only
  rw [hself.validator]
  exact ⟨_, w₁, _, rfl, rfl, hspent⟩

/-- The first context of a run shows the marker just if the goal does. -/
theorem showsMarker_first (goal : String) :
    ShowsMarker ((ContextManager.new 16).push s!"goal: {goal}").snapshot ↔ ShowsMarker goal := by
  rw [showsMarker_snapshot_iff, ← showsMarker_goal]
  show (∃ item ∈ [s!"goal: {goal}"], ShowsMarker item) ↔ _
  rw [List.exists_mem_cons_iff, or_iff_left (by rintro ⟨_, h, _⟩; cases h)]

/-- **A run goes by its goal**: it finishes in one step if the goal shows the
marker, and in no step otherwise.  The goal is in the window of every context, so
the first round decides. -/
theorem run_goal (hself : self.GoesByMarker limit) (goal : String) (w : World ε) :
    ∃ trace w' t, self.run goal w = ⟨.ok trace, w', t⟩ ∧
      (trace.finalAnswer = "task finished" ↔ ShowsMarker goal ∧ 0 < self.maxSteps) ∧
      Spent (min self.maxSteps (if ShowsMarker goal then 1 else max 1 limit)) w w' := by
  by_cases hgoal : ShowsMarker goal
  · rw [if_pos hgoal]
    rcases Nat.eq_zero_or_pos self.maxSteps with hzero | hpos
    · rw [run, hzero, Nat.zero_min]
      refine ⟨_, w, _, rfl, ?_, .refl w⟩
      refine ⟨fun h => absurd (show "" = "task finished" from h) (by decide), fun h => ?_⟩
      exact absurd h.2 (Nat.lt_irrefl 0)
    · obtain ⟨trace, w', t, hrun, hanswer, hspent⟩ :=
        hself.loop_finished hpos ((showsMarker_first goal).mpr hgoal) w
      refine ⟨trace, w', t, hrun, ⟨fun _ => ⟨hgoal, hpos⟩, fun _ => hanswer⟩, ?_⟩
      rwa [Nat.min_eq_right hpos]
  · rw [if_neg hgoal]
    have hwindow : ∀ entry ∈ ((ContextManager.new 16).push s!"goal: {goal}").window,
        ¬ ShowsMarker entry := by
      intro entry hentry
      rw [List.mem_singleton.mp hentry, showsMarker_goal]
      exact hgoal
    obtain ⟨trace, w', t, hrun, hanswer, hspent⟩ :=
      hself.loop_unfinished self.maxSteps 0 hwindow [] w
    exact ⟨trace, w', t, hrun, ⟨fun h => absurd h hanswer, fun h => absurd h.1 hgoal⟩, hspent⟩

end Planner.GoesByMarker

/-! ### The decomposition -/

/-- A sentence that begins with no number names no subtask. -/
theorem parseSubtasks_sentence {text : String} {head rest : List Char} (goal : String)
    (htext : text.toList = head ++ '.' :: rest) (hsep : head.all fun c => !isSeparator c)
    (hhead : (Str.trim (String.ofList head)).toList.all Char.isDigit = false)
    (hline : '\n' ∉ text.toList) : parseSubtasks text goal = [SubTask.new "st-1" goal] := by
  have hlines : Str.lines text = [text] := by
    rw [Str.lines_eq_iff, Str.linesFrom_open hline, List.reverse_nil, List.nil_append, htext]
    rw [if_neg (by simp)]
    rw [List.map_singleton, htext]
  have hsplit : Str.splitOnce isSeparator text = some (String.ofList head, String.ofList rest) := by
    rw [Str.splitOnce, Str.splitOnceChars_eq_some_iff.mpr ⟨'.', htext, rfl, ?_⟩]
    · rfl
    · intro c hc
      exact Bool.not_eq_true' _ ▸ List.all_eq_true.mp hsep c hc
  have hparse : parseLine text = none := by
    rw [parseLine_eq_none_iff]
    rintro head' rest' ⟨hnumbered, -, hdigits⟩
    rw [hsplit] at hnumbered
    obtain ⟨rfl, rfl⟩ := Prod.mk.inj (Option.some.inj hnumbered)
    exact absurd hdigits (Bool.eq_false_iff.mp hhead)
  rw [parseSubtasks_eq, hlines, List.filterMap_cons_none hparse, List.filterMap_nil, if_pos rfl]
  rfl

/-- `MockLlm` names no subtask. -/
theorem decompose_mock (goal : String) (w : World ε) :
    ∃ t, (LlmGoalDecomposer MockLlm).decompose goal w = ⟨.ok [SubTask.new "st-1" goal], w, t⟩ := by
  obtain ⟨text, hthink, hparse⟩ : ∃ text, (∀ env : ε,
      MockLlm.onThink (decompositionPrompt goal) env = (.ok ⟨text⟩, env)) ∧
        parseSubtasks text goal = [SubTask.new "st-1" goal] := by
    by_cases hmarker : ShowsMarker (decompositionPrompt goal)
    · refine ⟨"Goal satisfied; finalizing.", onThink_of_marker hmarker, ?_⟩
      have htext : "Goal satisfied; finalizing.".toList =
          "Goal satisfied; finalizing".toList ++ '.' :: [] := by decide
      exact parseSubtasks_sentence goal htext (by decide) (by decide) (by decide)
    · refine ⟨inspecting (decompositionPrompt goal), onThink_of_not_marker hmarker, ?_⟩
      have hsentence : "Inspecting context to progress toward goal. (ctx len".toList =
          "Inspecting context to progress toward goal".toList ++ '.' :: " (ctx len".toList := by
        decide
      have htext := toList_inspecting (decompositionPrompt goal)
      rw [hsentence, List.append_assoc, List.cons_append] at htext
      exact parseSubtasks_sentence goal htext (by decide) (by decide) (not_mem_inspecting _)
  refine ⟨[.think (decompositionPrompt goal) (.ok ⟨text⟩)], ?_⟩
  have hthought : ((MockLlm.think (decompositionPrompt goal)).attempt :
      Core ε PEmpty (Except String Thought)) w =
        ⟨.ok (.ok ⟨text⟩), w, [.think (decompositionPrompt goal) (.ok ⟨text⟩)]⟩ := by
    rw [Act.attempt_apply, Llm.think, Act.external_apply, World.call, hthink]
  show (_ >>= _ : Core ε PEmpty _) w = _
  rw [Act.bind_apply_of_ok hthought, ← hparse]
  rfl

/-! ### The quest -/

namespace Quest

variable (bridge : HostBridge ε) (config : QuestConfig) (principal : Principal)
  (audit : AuditSink ε) (limit : Nat)

/-- The steps of an attempt at a goal. -/
def attemptSteps (config : QuestConfig) (limit : Nat) (goal : String) : Nat :=
  min config.maxSteps (if ShowsMarker goal then 1 else max 1 limit)

/-- An attempt of an offline quest. -/
theorem executeSubtask_offline (st : SubTask) (w : World ε) :
    ∃ w' t, (offline bridge config principal audit limit).executeSubtask st w =
        ⟨.ok (decide (ShowsMarker st.description ∧ 0 < config.maxSteps)), w', t⟩ ∧
      Spent (attemptSteps config limit st.description) w w' := by
  obtain ⟨trace, w', t, hrun, hanswer, hspent⟩ :=
    (goesByMarker_offline bridge config principal audit limit st).run_goal st.description w
  refine ⟨w', t.map (QuestEvent.mk (some st.id)), ?_, hspent⟩
  rw [executeSubtask, Act.bind_apply, Act.mapTrace_apply, hrun, Outcome.andThen_mk_ok]
  show Outcome.after _ ⟨.ok (decide (trace.finalAnswer = "task finished")), w', []⟩ = _
  rw [Outcome.after_mk, List.append_nil, decide_eq_decide.mpr hanswer]
  rfl

/-- The first attempt succeeds, if any does. -/
theorem retry_finished {st : SubTask} (h : ShowsMarker st.description ∧ 0 < config.maxSteps)
    (n : Nat) (w : World ε) :
    ∃ w' t, (offline bridge config principal audit limit).retry st (n + 1) w =
        ⟨.ok true, w', t⟩ ∧ Spent (attemptSteps config limit st.description) w w' := by
  obtain ⟨w', t, hattempt, hspent⟩ :=
    executeSubtask_offline bridge config principal audit limit st w
  rw [decide_eq_true h] at hattempt
  rw [retry, Act.bind_apply, Act.attempt_apply, hattempt, Outcome.andThen_mk_ok]
  exact ⟨w', _, rfl, hspent⟩

/-- Retrying does not help: it costs as much as the attempts it makes. -/
theorem retry_unfinished {st : SubTask}
    (h : ¬ (ShowsMarker st.description ∧ 0 < config.maxSteps)) (n : Nat) (w : World ε) :
    ∃ w' t, (offline bridge config principal audit limit).retry st n w =
        ⟨.ok false, w', t⟩ ∧ Spent (n * attemptSteps config limit st.description) w w' := by
  induction n generalizing w with
  | zero =>
      refine ⟨w, [], rfl, ?_⟩
      rw [Nat.zero_mul]
      exact .refl w
  | succ n ih =>
      obtain ⟨w₁, t₁, hattempt, hspent⟩ :=
        executeSubtask_offline bridge config principal audit limit st w
      obtain ⟨w', t', hrest, hspent'⟩ := ih w₁
      rw [decide_eq_false h] at hattempt
      rw [retry, Act.bind_apply, Act.attempt_apply, hattempt, Outcome.andThen_mk_ok]
      show ∃ w' t, Outcome.after t₁ (retry _ st n w₁) = _ ∧ _
      rw [hrest]
      refine ⟨w', t₁ ++ t', rfl, ?_⟩
      rw [Nat.succ_mul, Nat.add_comm]
      exact hspent.trans hspent'

/-- What becomes of the only subtask of an offline quest. -/
def offlineStatus (config : QuestConfig) (goal : String) : SubTaskStatus :=
  if config.maxSubtasks = 0 then .skipped
  else if ShowsMarker goal ∧ 0 < config.maxSteps then .success
  else .failed

/-- The rounds that an offline quest takes. -/
def offlineRounds (config : QuestConfig) (limit : Nat) (goal : String) : Nat :=
  match offlineStatus config goal with
  | .failed => (config.subtaskMaxRetries + 1) * attemptSteps config limit goal
  | .success => 1
  | _ => 0

/-- The only subtask, over the budget or not, becomes what it is to be. -/
theorem runSubtasks_offline (goal : String) (w : World ε) :
    ∃ w' t, (offline bridge config principal audit limit).runSubtasks
        [⟨"st-1", goal, if config.maxSubtasks = 0 then .skipped else .pending⟩] 0 0 w =
          ⟨.ok ([⟨"st-1", goal, offlineStatus config goal⟩],
            if offlineStatus config goal = .success then 1 else 0,
            if offlineStatus config goal = .failed then 1 else 0), w', t⟩ ∧
      Spent (offlineRounds config limit goal) w w' := by
  rw [runSubtasks]
  rcases Nat.eq_zero_or_pos config.maxSubtasks with hzero | hpos
  · have hstatus : offlineStatus config goal = .skipped := if_pos hzero
    rw [offlineRounds, hstatus, if_pos hzero, if_pos rfl]
    exact ⟨w, _, rfl, .refl w⟩
  rw [if_neg hpos.ne', if_neg (fun h => SubTaskStatus.noConfusion h)]
  show ∃ w' t, (retry _ ⟨"st-1", goal, .running⟩ (config.subtaskMaxRetries + 1) >>= _) w = _ ∧ _
  by_cases hgoal : ShowsMarker goal ∧ 0 < config.maxSteps
  · have hstatus : offlineStatus config goal = .success :=
      (if_neg hpos.ne').trans (if_pos hgoal)
    have hsteps : attemptSteps config limit goal = 1 := by
      rw [attemptSteps, if_pos hgoal.1]
      exact Nat.min_eq_right hgoal.2
    obtain ⟨w', t, hretry, hspent⟩ := @retry_finished _ bridge config principal audit limit
      ⟨"st-1", goal, .running⟩ hgoal config.subtaskMaxRetries w
    rw [Act.bind_apply_of_ok hretry, offlineRounds, hstatus]
    rw [hsteps] at hspent
    exact ⟨w', _, rfl, hspent⟩
  · have hstatus : offlineStatus config goal = .failed :=
      (if_neg hpos.ne').trans (if_neg hgoal)
    obtain ⟨w', t, hretry, hspent⟩ := @retry_unfinished _ bridge config principal audit limit
      ⟨"st-1", goal, .running⟩ hgoal (config.subtaskMaxRetries + 1) w
    rw [Act.bind_apply_of_ok hretry, offlineRounds, hstatus]
    exact ⟨w', _, rfl, hspent⟩

/-- The bounded run of an offline quest: the goal stays in one piece, which becomes what
it is to be. -/
theorem run_offline (goal : String) (w : World ε) :
    ∃ w' t, (offline bridge config principal audit limit).run goal w =
        ⟨.ok ⟨goal, [⟨"st-1", goal, offlineStatus config goal⟩],
          if offlineStatus config goal = .success then 1 else 0,
          if offlineStatus config goal = .failed then 1 else 0, w.pending⟩, w', t⟩ ∧
      Spent (offlineRounds config limit goal) w w' := by
  obtain ⟨t₀, hdecompose⟩ := decompose_mock goal w
  have hinfallible : (Act.mapTrace (QuestEvent.mk none)
      (Act.infallible ((LlmGoalDecomposer MockLlm).decompose goal)) : QuestRun ε String _) w =
        ⟨.ok [SubTask.new "st-1" goal], w, t₀.map (QuestEvent.mk none)⟩ := by
    rw [Act.mapTrace_apply, Act.infallible_apply, hdecompose]
    rfl
  have hbudget : (if config.maxSubtasks < [SubTask.new "st-1" goal].length then
      markSkipped config.maxSubtasks [SubTask.new "st-1" goal] else [SubTask.new "st-1" goal]) =
        [⟨"st-1", goal, if config.maxSubtasks = 0 then .skipped else .pending⟩] := by
    rcases Nat.eq_zero_or_pos config.maxSubtasks with hzero | hpos
    · rw [hzero]
      rfl
    · have hfits : ¬ config.maxSubtasks < [SubTask.new "st-1" goal].length := Nat.not_lt.mpr hpos
      rw [if_neg hfits, if_neg hpos.ne']
      rfl
  obtain ⟨w', t, hrun, hspent⟩ := runSubtasks_offline bridge config principal audit limit goal w
  refine ⟨w', t₀.map (QuestEvent.mk none) ++ (t ++ []), ?_, hspent⟩
  rw [run]
  show (Act.mapTrace (QuestEvent.mk none)
    (Act.infallible ((LlmGoalDecomposer MockLlm).decompose goal)) >>= _) w = _
  rw [Act.bind_apply_of_ok hinfallible]
  show Outcome.after _ ((runSubtasks _ (if config.maxSubtasks < _ then
    markSkipped config.maxSubtasks _ else _) 0 0 >>= _) w) = _
  rw [hbudget, Act.bind_apply_of_ok hrun, ← hspent.pending]
  rfl

/-- An attempt of an offline quest succeeds just if the goal shows the marker and there is
a step. -/
theorem executeLogged_offline (st : SubTask) {w w' : World ε} {made : Attempt}
    {t : List QuestEvent}
    (h : ((offline bridge config principal audit limit).executeLogged st :
      QuestRun ε Halt Attempt) w = ⟨.ok made, w', t⟩) :
    made.succeeded = decide (ShowsMarker st.description ∧ 0 < config.maxSteps) := by
  obtain ⟨w₁, t₁, hattempt, -⟩ := executeSubtask_offline bridge config principal audit limit st w
  have hresult : ((((offline bridge config principal audit limit).executeSubtask st).attempt :
      QuestRun ε Halt _) w).result = .ok (.ok (decide (ShowsMarker st.description ∧
        0 < config.maxSteps))) := by
    rw [Act.attempt_apply, hattempt]
  rw [executeSubtask_eq_map, Act.map_apply, h] at hresult
  have hmade : made.result.map (fun ending => decide (ending.answer = "task finished")) =
      .ok (decide (ShowsMarker st.description ∧ 0 < config.maxSteps)) := Except.ok.inj hresult
  rcases hcases : made.result with err | ending
  · rw [hcases] at hmade
    cases hmade
  · rw [hcases] at hmade
    rw [← Except.ok.inj hmade, Attempt.succeeded, hcases]

/-- Whatever becomes of the subtask, but a failure with as many retries as there are
machine integers, there is an end of it. -/
theorem finishes_offline {goal : String} (hstatus : offlineStatus config goal ≠ .failed)
    (w : World ε) :
    (offline bridge config principal audit limit).Finishes
      (markSkipped config.maxSubtasks [.new "st-1" goal]) w := by
  rcases Nat.eq_zero_or_pos config.maxSubtasks with hzero | hpos
  · rw [hzero]
    exact finishes_markSkipped_zero _ w
  · rw [markSkipped_of_length_le hpos]
    obtain ⟨made, w', hmade⟩ := (offline bridge config principal audit limit).executeLogged_apply
      Halt { SubTask.new "st-1" goal with status := .running } w
    refine .succeeds nofun (by decide) (.now hmade ?_) (.nil w')
    rw [executeLogged_offline bridge config principal audit limit _ hmade]
    by_contra hfailed
    have hgoal : ¬ (ShowsMarker goal ∧ 0 < config.maxSteps) := fun h => hfailed (decide_eq_true h)
    exact hstatus ((if_neg hpos.ne').trans (if_neg hgoal))

/-- **An offline quest**, whatever the host, the principal and the audit sink
are: the goal stays in one piece, which succeeds just if it shows the marker
and there is a step and a subtask to be had; every round costs one thought and one plan of
the model, which are one LLM call of the metrics, and one call of a tool; and nothing waits
for approval.  A goal that is to fail with as many retries as a machine integer can say
never does. -/
theorem whileRun_offline (checks : OverflowChecks)
    (hretries : config.subtaskMaxRetries < UInt64.size) (goal : String) (w : World ε) :
    (config.subtaskMaxRetries + 1 < UInt64.size ∨ offlineStatus config goal ≠ .failed →
      ∃ turns log w' t, (offline bridge config principal audit limit).whileRun checks turns goal w =
          ⟨.ok (⟨goal, [⟨"st-1", goal, offlineStatus config goal⟩],
            if offlineStatus config goal = .success then 1 else 0,
            if offlineStatus config goal = .failed then 1 else 0, w.pending⟩, log), w', t⟩ ∧
        Spent (offlineRounds config limit goal) w w') ∧
    (config.subtaskMaxRetries + 1 = UInt64.size → offlineStatus config goal = .failed →
      ∀ turns r, ((offline bridge config principal audit limit).whileRun checks turns goal
        w).result ≠ .ok r) := by
  obtain ⟨t₀, hdecompose⟩ := decompose_mock goal w
  refine ⟨fun h => ?_, fun hlast hstatus turns r => ?_⟩
  · obtain ⟨w', t, hrun, hspent⟩ := run_offline bridge config principal audit limit goal w
    have hends : config.subtaskMaxRetries + 1 < UInt64.size ∨
        (offline bridge config principal audit limit).Finishes
          (markSkipped config.maxSubtasks [.new "st-1" goal]) w :=
      h.imp_right fun hstatus => finishes_offline bridge config principal audit limit hstatus w
    obtain ⟨report, log, w₁, t₁, hwhile, hrun'⟩ :=
      @exists_whileRun _ (offline bridge config principal audit limit) w checks _ _ _ _
        hdecompose hretries hends
    obtain ⟨hok, rfl, rfl⟩ := Outcome.mk.inj (hrun.symm.trans hrun')
    refine ⟨config.subtaskMaxRetries + 1, log, w', t, ?_, hspent⟩
    rw [← Except.ok.inj hok] at hwhile
    exact hwhile
  · have hpos : 0 < config.maxSubtasks := by
      rcases Nat.eq_zero_or_pos config.maxSubtasks with hzero | hpos
      · rw [offlineStatus, if_pos hzero] at hstatus
        cases hstatus
      · exact hpos
    have hgoal : ¬ (ShowsMarker goal ∧ 0 < config.maxSteps) := by
      intro hgoal
      rw [offlineStatus, if_neg hpos.ne', if_pos hgoal] at hstatus
      cases hstatus
    have hfirst : markSkipped config.maxSubtasks [SubTask.new "st-1" goal] =
        [.new "st-1" goal] := markSkipped_of_length_le hpos
    have hfails : ∀ w made w' t, ((offline bridge config principal audit limit).executeLogged
        { SubTask.new "st-1" goal with status := .running } : QuestRun ε Halt Attempt) w =
          ⟨.ok made, w', t⟩ → made.succeeded = false := by
      intro w made w' t hmade
      rw [executeLogged_offline bridge config principal audit limit _ hmade]
      exact decide_eq_false hgoal
    exact @whileRun_ne_ok _ checks (offline bridge config principal audit limit) _ w hlast _ _ _
      _ _ hdecompose hfirst nofun hfails turns r

theorem whileRun_offline_demo : ∃ turns log w' t,
    (offline (idle .default).bridge .default (.all "t" "u") (idle .default).audit 8).whileRun .off
        turns "DONE" (.initial ()) =
      ⟨.ok (⟨"DONE", [⟨"st-1", "DONE", .success⟩], 1, 0, []⟩, log), w', t⟩ ∧
    Spent 1 (.initial ()) w' :=
  (whileRun_offline (idle .default).bridge .default (.all "t" "u") (idle .default).audit 8 .off
    (by decide) "DONE" (.initial ())).1 (.inl (by decide))

/-- The demo's goal is attempted twice, in eight rounds each. -/
example : offlineRounds .default 8 "add retry logic to utils" = 16 := by decide

end Quest

end AgenticIde
