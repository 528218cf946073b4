/-
AgenticIde/QuestEngineering.lean

Quests with real tools: what a planned command needs before a process is spawned for it
(`run_quest_with_engineering`).

The names that `ShellTool` turns into commands are not the names that `action_permission`
governs: of them only `shell` needs a bit.  A planned `sh`, `git`, `cargo` or build name passes
the planner unrecorded and the gate unheld, and spawns a process.  `command_gate_iff` says that
this is the whole defect: the gate stands exactly when no such name is planned, or there is
nothing to hold back.

The condition is read off the events of the run, in which every plan is one.  A command that
stands behind the gate is refused for a principal without the right, and waits for approval
where nothing is committed automatically; a process is spawned in neither case, whatever the
repairs propose, as they keep the tool they began with.
-/
import AgenticIde.QuestGate
import AgenticIde.Server

namespace AgenticIde

variable {ε : Type}

/-- The command names that no permission governs. -/
def ungovernedCommands : List String := commandNames.filter fun t => actionPermission t = none

example : ungovernedCommands = ["sh", "git", "cargo", "cargo_build", "build", "cargo_check",
    "check", "cargo_test", "test"] := by decide +kernel

/-- Every other command name is an `Execute`. -/
theorem actionPermission_of_command {tool : String} (h : tool ∈ commandNames)
    (hgoverned : tool ∉ ungovernedCommands) : actionPermission tool = some .execute := by
  have hall : ∀ t ∈ commandNames, t ∉ ungovernedCommands → actionPermission t = some .execute := by
    decide +kernel
  exact hall tool h hgoverned

/-! ### An ungoverned command spawns a process -/

/-- A command name runs its command first of all, healed or not. -/
theorem runShell_mem_healing (shell : Shell ε) {tool : String} (h : tool ∈ commandNames)
    (attempts : Nat) (llm : Llm ε) (argument : String) (w : World ε) :
    ∃ cmd answer, Event.runShell cmd answer ∈
      ((SelfHealingExecutor ⟨(ShellTool.new shell).executor, attempts⟩ llm).run tool
        argument w).trace := by
  obtain ⟨cmd, hcmd⟩ := Option.isSome_iff_exists.mp ((isSome_commandFor tool argument).mpr h)
  refine ⟨cmd, (shell.onRun cmd w.env).1, (SelfHeal.prefix_run _ llm tool argument w).subset ?_⟩
  show Event.runShell cmd _ ∈ ((ShellTool.new shell).run tool argument w).trace
  rw [ShellTool.run, hcmd]
  exact (Act.prefix_trace_bind (runShell (ShellTool.new shell).shell cmd) _ w).subset
    (by simp [runShell, ShellTool.new, World.call])

/-- The plan names an ungoverned command: a name that spawns a process and that no
right is needed for. -/
def QuestEvent.Ungoverned (e : QuestEvent) : Prop :=
  ∃ sid plan, e.planned = some (sid, plan) ∧ plan.tool ∈ ungovernedCommands

/-- The event spawns a process in the subtask of the other one. -/
def QuestEvent.SpawnedBy (e e' : QuestEvent) : Prop :=
  ∃ cmd answer, e' = ⟨e.subtask, .runShell cmd answer⟩

/-- In every quest over the engineering executor, an ungoverned command
spawns a process. -/
theorem obeys_spawning (quest : Quest ε) {shell : Shell ε}
    (htools : quest.tools = (ShellTool.new shell).executor) (goal : String) :
    (Law.answers _ QuestEvent.Ungoverned QuestEvent.SpawnedBy).Obeys (quest.run goal) := by
  have hserves : quest.tools.Serves := htools ▸ serves_shellTool serves_basicToolExecutor
  have hinner : quest.healing.Serves := serves_selfHealing quest.llm hserves
  have hplans : ∀ e : QuestEvent, e.Ungoverned → e.planned ≠ none := by
    rintro e ⟨sid, plan, hplanned, -⟩
    simp [hplanned]
  refine Quest.obeys_of_performed (admitsQuiet_answers hplans) ?_ goal
  intro st thought plan w t w' h
  have hgate : (quest.planner st).tools =
    QuestToolExecutor quest.healing quest.config.autoCommit st.id := rfl
  apply answers_performed hinner hgate hplans h
  rintro ⟨sid, plan', hplanned, htool⟩
  obtain ⟨rfl, rfl⟩ : st.id = sid ∧ plan = plan' := by simpa [QuestEvent.planned] using hplanned
  obtain ⟨hcommand, hnone⟩ := List.mem_filter.mp htool
  rw [decide_eq_true_eq] at hnone
  cases h with
  | denied p ts answer hp hdenied hpending => exact absurd hp (by simp [hnone])
  | @ran w₁ _ audits edits hauth h₁ hedit hpending =>
      -- nothing governs the name, so the gate passes it on
      have hpass : ¬ (needsApproval plan.tool = true ∧ quest.config.autoCommit = false) := by
        simp [needsApproval, hnone]
      obtain ⟨cmd, answer, hmem⟩ := runShell_mem_healing shell hcommand
        quest.config.maxRepairAttempts quest.llm plan.argument w₁
      refine ⟨.runShell cmd answer, ?_, cmd, answer, rfl⟩
      have hrun : (quest.planner st).tools.run plan.tool plan.argument =
          quest.healing.run plan.tool plan.argument := by rw [hgate, gate_passes hpass]
      rw [hrun, Quest.healing, htools]
      simp [hmem]

/-! ### The gate -/

/-- A planned command is refused or waits.  It is refused with an entry of the
denial in its own subtask, or the report has it among the pending approvals. -/
def RefusedOrPending (principal : Principal) (o : Outcome (World ε) QuestEvent String QuestReport)
    (sid : String) (plan : ActionPlan) : Prop :=
  (∃ ts payload answer,
    ⟨some sid, .audit (.new ts principal .execute false payload) answer⟩ ∈ o.trace) ∨
  ∃ report id, o.result = .ok report ∧ ⟨id, plan.tool, plan.argument, sid⟩ ∈ report.pendingApprovals

/-- The gate stands in a run: a process is spawned only for a principal who
holds `Execute`, when everything commits automatically; otherwise every
planned command is refused or waits. -/
def CommandGate (principal : Principal) (autoCommit : Bool)
    (o : Outcome (World ε) QuestEvent String QuestReport) : Prop :=
  (∀ s cmd answer, ⟨s, .runShell cmd answer⟩ ∈ o.trace →
    principal.holds .execute = true ∧ autoCommit = true) ∧
  (¬ (principal.holds .execute = true ∧ autoCommit = true) →
    ∀ sid thought plan, ⟨some sid, .planAction thought (.ok plan)⟩ ∈ o.trace →
      plan.tool ∈ commandNames → RefusedOrPending principal o sid plan)

/-- **The gate over real tools.**  In a run of the engineering quest the gate
stands exactly when there is nothing to hold back, or the LLM never plans a
command that no permission governs. -/
theorem command_gate_iff (server : AgentServer ε) (shell : Shell ε) (goal : String)
    (config : QuestConfig) (w : World ε) :
    CommandGate server.principal config.autoCommit
        (server.runQuestWithEngineering shell goal config w) ↔
      (server.principal.holds .execute = true ∧ config.autoCommit = true) ∨
        ∀ sid thought plan, ⟨some sid, .planAction thought (.ok plan)⟩ ∈
          (server.runQuestWithEngineering shell goal config w).trace →
            plan.tool ∉ ungovernedCommands := by
  rw [AgentServer.runQuestWithEngineering, AgentServer.runNewQuest_apply]
  set quest := server.quest (ShellTool.new shell).executor config with hquest
  set w₀ : World ε := { w with pending := [] } with hw₀
  have hserves : quest.tools.Serves := serves_shellTool serves_basicToolExecutor
  constructor
  · rintro ⟨hspawn, -⟩
    by_cases hopen : server.principal.holds .execute = true ∧ config.autoCommit = true
    · exact .inl hopen
    · refine .inr fun sid thought plan hmem htool => hopen ?_
      obtain ⟨e, he, cmd, answer, rfl⟩ :=
        obeys_spawning quest rfl goal w₀ _ hmem ⟨sid, plan, rfl, htool⟩
      exact hspawn _ _ _ he
  · rintro (hopen | hgoverned)
    · exact ⟨fun _ _ _ _ => hopen, fun hshut => absurd hopen hshut⟩
    · refine ⟨fun s cmd answer hmem => ?_, fun hshut sid thought plan hmem hcommand => ?_⟩
      · -- the plan behind the process names a governed command
        obtain ⟨pre, post, hsplit⟩ := List.append_of_mem hmem
        obtain ⟨⟨sid, plan⟩, hlatest, -,
            ⟨⟨argument, hcmd⟩, hmay, happroved⟩ | ⟨⟨edit, answer', he⟩, -⟩⟩ :=
          (obeys_governed hserves goal w₀).1 pre _ post hsplit trivial
        · obtain ⟨e, he, hplanned⟩ := Law.exists_of_latest hlatest
          obtain ⟨thought, rfl⟩ := QuestEvent.planned_eq_some hplanned
          have hcommand : plan.tool ∈ commandNames :=
            (isSome_commandFor plan.tool argument).mp (by rw [hcmd]; rfl)
          have hexecute := actionPermission_of_command hcommand
            (hgoverned sid thought plan (by rw [hsplit]; exact List.mem_append_left _ he))
          rw [Principal.mayRun_of_some hexecute] at hmay
          exact ⟨hmay, happroved ((needsApproval_iff _).mpr ⟨_, hexecute, .inl rfl⟩)⟩
        · simp at he
      · have hexecute := actionPermission_of_command hcommand (hgoverned sid thought plan hmem)
        -- the planner refuses it, or the gate holds it back
        rcases hholds : server.principal.holds .execute with - | -
        · obtain ⟨e, he, sid', plan', p, ts, payload, answer, hplanned, hp, rfl⟩ :=
            obeys_refusing hserves goal w₀ _ hmem ⟨sid, plan, rfl, by
              rw [Principal.mayRun_of_some hexecute]; exact hholds⟩
          obtain ⟨rfl, rfl⟩ : sid = sid' ∧ plan = plan' := by
            simpa [QuestEvent.planned] using hplanned
          obtain rfl : Permission.execute = p := by simpa [hexecute] using hp
          exact .inl ⟨ts, payload, answer, he⟩
        · have hcommit : config.autoCommit = false := by
            rcases hc : config.autoCommit with - | -
            · rfl
            · exact absurd ⟨hholds, hc⟩ hshut
          exact .inr (Quest.exists_pendingApproval hserves hmem
            (by rw [Principal.mayRun_of_some hexecute]; exact hholds)
            ((needsApproval_iff _).mpr ⟨_, hexecute, .inl rfl⟩) hcommit)

/-- A server whose LLM plans to run `true` in a shell, for a principal with
no rights. -/
def shellServer : AgentServer Unit where
  planner :=
    { llm := ⟨fun _ => (.ok ⟨"run it"⟩, ·), fun _ => (.ok ⟨"sh", "true"⟩, ·)⟩
      tools := BasicToolExecutor
      validator := BasicValidator 1
      bridge := ⟨fun _ => (.ok (), ·), fun _ => id⟩
      maxSteps := 1
      principal := Principal.fromMask "single" "core" 0
      audit := ⟨fun _ => (.ok (), ·)⟩ }
  nesBackend := ⟨fun _ => (.ok [], ·)⟩
  chatEngine :=
    { llm := ⟨fun _ => (.ok ⟨""⟩, ·), fun _ => (.ok ⟨"", ""⟩, ·)⟩
      perms := PermissionSet.empty
      principal := Principal.fromMask "single" "core" 0
      auditSink := ⟨fun _ => (.ok (), ·)⟩ }
  authenticator := NoopAuthenticator (Principal.fromMask "single" "core" 0)
  principal := Principal.fromMask "single" "core" 0
  auditSink := ⟨fun _ => (.ok (), ·)⟩

/-- The event spawns a process. -/
def QuestEvent.spawns : QuestEvent → Bool
  | ⟨_, .runShell _ _⟩ => true
  | _ => false

/-- A planned `sh` spawns its process for a principal without any right,
although nothing commits automatically. -/
theorem sh_spawned_without_execute :
    ¬ CommandGate shellServer.principal QuestConfig.default.autoCommit
      (shellServer.runQuestWithEngineering ⟨fun _ => (.ok ⟨true, "", ""⟩, ·)⟩ "do it"
        QuestConfig.default (.initial ())) := by
  rintro ⟨hspawn, -⟩
  have hany : (shellServer.runQuestWithEngineering ⟨fun _ => (.ok ⟨true, "", ""⟩, ·)⟩ "do it"
      QuestConfig.default (.initial ())).trace.any QuestEvent.spawns = true := by
    decide +kernel
  obtain ⟨⟨s, e⟩, hmem, hspawns⟩ := List.any_eq_true.mp hany
  rcases e <;> simp only [QuestEvent.spawns, Bool.false_eq_true] at hspawns
  exact absurd (hspawn _ _ _ hmem).2 (by decide)

end AgenticIde
