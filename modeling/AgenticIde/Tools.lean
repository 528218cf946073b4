/-
AgenticIde/Tools.lean

Tool executors and the validator of the ReAct loop: the built-in executor
(`tool_executor.rs`), the engineering executor that spawns processes (`engineering.rs`), and
the step budget (`validator.rs`).

An executor is modelled by what it does when it is run, so the wrappers of the self-healing
loop and of the approval gate are executors as well.  What the executors have in common is
`ToolExecutor.Serves`: running a tool leaves events of that tool only.

The built-in executor knows two names, the one that ends the run and the one that does not,
and answers every other one with a no-op.  The engineering executor takes the names of a
shell, of git and of cargo for commands, and hands every other one on; a command is one event,
with what the process answered, and one that fails is an error of the tool.  Neither asks for
a right: that was decided before they are run, and they would run whatever they are given.

An executor from outside answers as it likes from the hidden state of the world, and its run
is one event (`ToolExecutor.external`).  Statements about every executor that serves its tools
hold of it, of the executors here, and of what is wrapped around them.
-/
import AgenticIde.World

namespace AgenticIde

variable {ε : Type}

/-! ### The built-in executor -/

/-- The minimal ReAct tool set; every other name is a no-op. -/
def BasicToolExecutor : ToolExecutor ε where
  run tool argument :=
    match tool with
    | "inspect" => pure ⟨tool, s!"inspected {argument}", false⟩
    | "finish" => pure ⟨tool, "task finished", true⟩
    | other => pure ⟨other, s!"no-op tool: {other}", false⟩

/-! ### The validator -/

/-- Outcome of validating a step. -/
inductive Verdict
  | continue
  | done
  | budgetExhausted
  deriving DecidableEq

/-- Decides whether the planner may continue; `step` is 1-based. -/
structure Validator where
  validate : Observation → Nat → Verdict

/-- Default guardrail with a maximum step budget. -/
def BasicValidator (maxSteps : Nat) : Validator where
  validate observation step :=
    if observation.terminal then .done
    else if maxSteps ≤ step then .budgetExhausted
    else .continue

/-- A verdict of the step budget, and why it is given. -/
theorem BasicValidator_cases (maxSteps : Nat) (obs : Observation) (step : Nat) :
    (obs.terminal = true ∧ (BasicValidator maxSteps).validate obs step = .done) ∨
    (maxSteps ≤ step ∧ (BasicValidator maxSteps).validate obs step = .budgetExhausted) ∨
    (step < maxSteps ∧ (BasicValidator maxSteps).validate obs step = .continue) := by
  simp only [BasicValidator]
  cases hterminal : obs.terminal with
  | true => exact .inl ⟨rfl, rfl⟩
  | false =>
      rcases Nat.lt_or_ge step maxSteps with hleft | hspent
      · exact .inr (.inr ⟨hleft, by simp [Nat.not_le.mpr hleft]⟩)
      · exact .inr (.inl ⟨hspent, by simp [hspent]⟩)

/-! ### The engineering executor -/

/-- How the operating system runs `sh -c command`; an error is a spawn
failure. -/
structure Shell (ε : Type) where
  onRun : String → ε → Except String RunOutput × ε

/-- Run a command via `sh -c`: this is where a process is spawned. -/
def runShell (shell : Shell ε) (command : String) : Core ε String RunOutput :=
  Act.external (World.call (shell.onRun command)) (.runShell command)

/-- `ShellTool`: engineering tool names become commands, every other name
goes to the built-in executor. -/
structure ShellTool (ε : Type) where
  shell : Shell ε
  fallback : ToolExecutor ε

namespace ShellTool

/-- A tool over `shell`. -/
def new (shell : Shell ε) : ShellTool ε := ⟨shell, BasicToolExecutor⟩

/-- The shell command a tool name runs; `none` means the name is not an
engineering tool. -/
def commandFor (tool argument : String) : Option String :=
  match tool with
  | "sh" | "shell" => some argument
  | "git" => some s!"git {argument}"
  | "cargo" => some s!"cargo {argument}"
  | "cargo_build" | "build" => some "cargo build"
  | "cargo_check" | "check" => some "cargo check"
  | "cargo_test" | "test" => some "cargo test"
  | _ => none

/-- A failing command is an error, so that self-healing engages. -/
def run (self : ShellTool ε) (tool argument : String) : Core ε String Observation :=
  match commandFor tool argument with
  | some cmd => do
      let out ← runShell self.shell cmd
      if out.ok then pure ⟨tool, out.stdout, true⟩
      else Act.throw s!"command `{cmd}` failed: {Str.trim out.stderr}"
  | none => self.fallback.run tool argument

/-- The tool as an executor. -/
def executor (self : ShellTool ε) : ToolExecutor ε := ⟨self.run⟩

end ShellTool

/-- The names the engineering executor turns into a command. -/
def commandNames : List String :=
  ["sh", "shell", "git", "cargo", "cargo_build", "build", "cargo_check", "check", "cargo_test",
    "test"]

theorem isSome_commandFor (tool argument : String) :
    (ShellTool.commandFor tool argument).isSome ↔ tool ∈ commandNames := by
  unfold ShellTool.commandFor
  split <;> simp_all [commandNames]

/-! ### What an executor does for a tool -/

/-- What running a tool may do: reason, call the base executor under its own
name, spawn a command of its own. -/
def Event.Serves (tool : String) : Event → Prop
  | think _ _ => True
  | baseRun name _ _ => name = tool
  | runShell cmd _ => ∃ argument, ShellTool.commandFor tool argument = some cmd
  | _ => False

/-- The law of running a tool: only that tool is served, and the pending
approvals stay as they are. -/
def serving (ε : Type) (tool : String) : Law (World ε) Event :=
  (Law.always _ (Event.Serves tool)).and (Law.frame _ World.pending)

/-- Every run of the executor serves the tool it was asked for.  The executors of
the program do, and wrapping one keeps it. -/
def ToolExecutor.Serves (executor : ToolExecutor ε) : Prop :=
  ∀ tool argument, (serving ε tool).Obeys (executor.run tool argument)

/-- A call across the boundary whose event serves the tool. -/
theorem obeys_serving_call {ε' α : Type} {tool : String} {f : ε → Except ε' α × ε}
    {ev : Except ε' α → Event} (h : ∀ answer, Event.Serves tool (ev answer)) :
    (serving ε tool).Obeys (Act.external (World.call f) ev) := by
  intro w
  refine ⟨?_, rfl⟩
  simpa [Law.always] using h _

theorem serves_external (onRun : String → String → ε → Except String Observation × ε) :
    (ToolExecutor.external onRun).Serves :=
  fun _ _ => obeys_serving_call fun _ => rfl

theorem serves_basicToolExecutor : (BasicToolExecutor : ToolExecutor ε).Serves := by
  intro tool argument
  simp only [BasicToolExecutor]
  split <;> exact Law.obeys_pure _

theorem serves_shellTool {self : ShellTool ε} (hfallback : self.fallback.Serves) :
    self.executor.Serves := by
  intro tool argument
  show (serving ε tool).Obeys (self.run tool argument)
  unfold ShellTool.run
  rcases hcmd : ShellTool.commandFor tool argument with - | cmd
  · exact hfallback tool argument
  · refine Law.obeys_bind (obeys_serving_call fun _ => ⟨argument, hcmd⟩) fun out => ?_
    split
    · exact Law.obeys_pure _
    · exact Law.obeys_throw _

end AgenticIde
