/-
AgenticIde/World.lean

The world a Core computation runs in, and its collaborators.

`Core ε ε' α` is a traced computation over the shared state of the server and the hidden state
`ε` of everything outside: the language model, the host, the audit sink, the processes.  A
collaborator is the way it answers from that hidden state, so quantifying over collaborators
and over `ε` quantifies over every behaviour they can show, on every call, whatever they were
asked before.  Each call leaves one event with its answer.

Tracing spans and log lines are left out; the metrics are their counters.

The shared state is what the server keeps between requests: the counters, the sessions of the
chat, the approvals that wait, and the time.  A reading of the clock takes one tick, and what
it shows at a tick is any function, so no statement can rest on how much time has passed.

An event is what crosses the boundary of the program: a question to the model with its answer,
a run of a tool, a line or an edit for the host, an entry for the sink.  All that other modules
say about the behaviour of the program is said about the events of its computations, about the
state they leave and about what they return.
-/
import AgenticIde.Audit
import AgenticIde.ChatSession
import AgenticIde.Lib.Act

namespace AgenticIde

/-! ### What crosses the boundary -/

/-- A single reasoning step produced by the LLM. -/
structure Thought where
  text : String
  deriving DecidableEq

/-- The next action the planner should take. -/
structure ActionPlan where
  tool : String
  argument : String
  deriving DecidableEq

/-- Result of running a tool; `terminal` marks the goal as reached. -/
structure Observation where
  tool : String
  output : String
  terminal : Bool
  deriving DecidableEq

/-- Telemetry events emitted toward the host. -/
inductive HostEvent
  | status (text : String)
  | log (text : String)
  | completionAccepted (text : String)
  deriving DecidableEq

/-- Errors of a host that cannot fulfil a request. -/
inductive HostError
  | documentNotFound (text : String)
  | editRejected (text : String)
  | transport (text : String)
  | approvalDenied (text : String)
  deriving DecidableEq

/-- The `Display` text of a host error. -/
def HostError.toString : HostError → String
  | documentNotFound text => s!"document not found: {text}"
  | editRejected text => s!"edit rejected by host: {text}"
  | transport text => s!"host transport error: {text}"
  | approvalDenied text => s!"approval denied for action: {text}"

/-- A text edit applied to a host document. -/
structure TextEdit where
  documentUri : String
  oldText : String
  newText : String
  deriving DecidableEq

/-- Result of a shell command. -/
structure RunOutput where
  ok : Bool
  stdout : String
  stderr : String
  deriving DecidableEq

/-- A completion candidate of the NES backend. -/
structure Completion where
  text : String
  score : ℚ
  deriving DecidableEq

/-- One call across the boundary, with its answer.  A spawned audit has none:
it is recorded by a task of its own, at a time of the runtime's choosing. -/
inductive Event
  | emitEvent (event : HostEvent)
  | think (context : String) (answer : Except String Thought)
  | planAction (thought : Thought) (answer : Except String ActionPlan)
  | baseRun (tool argument : String) (answer : Except String Observation)
  | runShell (command : String) (answer : Except String RunOutput)
  | applyEdit (edit : TextEdit) (answer : Except HostError Unit)
  | audit (event : AuditEvent) (answer : Except String Unit)
  | spawnAudit (event : AuditEvent)
  | complete (pre suffix language : String) (answer : Except String (List Completion))

/-! ### Shared state -/

/-- Observability counters. -/
structure Metrics where
  requestsTotal : Nat
  toolCallsTotal : Nat
  llmCallsTotal : Nat
  completionsTotal : Nat
  denialsTotal : Nat
  auditEventsTotal : Nat
  deriving DecidableEq

/-- An `Execute` or `Commit` class action the approval gate held back. -/
structure PendingApproval where
  id : String
  tool : String
  argument : String
  subtaskId : String
  deriving DecidableEq

/-- The shared state of the Core.  `env` is the hidden state of the outside;
`clock` lists the readings of the system time, of which `ticks` are spent;
`pending` is the collection of a quest, `pendingIds` its id counter, and
`sessions` the chat sessions of a server. -/
structure World (ε : Type) where
  env : ε
  clock : Nat → Int
  ticks : Nat
  metrics : Metrics
  pending : List PendingApproval
  pendingIds : UInt64
  sessions : String → Option ChatSession

/-- A computation of the Core that fails with `ε'`. -/
abbrev Core (ε ε' α : Type) : Type := Act (World ε) Event ε' α

variable {ε ε' α : Type}

namespace World

/-- The world before anything happened, the time passing evenly. -/
def initial (env : ε) : World ε := ⟨env, fun n => n, 0, ⟨0, 0, 0, 0, 0, 0⟩, [], 0, fun _ => none⟩

/-- Let the outside answer. -/
def call (f : ε → α × ε) (w : World ε) : α × World ε :=
  ((f w.env).1, { w with env := (f w.env).2 })

@[simp] theorem call_pending (f : ε → α × ε) (w : World ε) :
    (call f w).2.pending = w.pending := rfl

end World

/-- Read the system time, in milliseconds. -/
def Core.now : Core ε ε' Int :=
  Act.modifyGet fun w => (w.clock w.ticks, { w with ticks := w.ticks + 1 })

/-- Count something. -/
def Core.count (f : Metrics → Metrics) : Core ε ε' Unit :=
  Act.modify fun w => { w with metrics := f w.metrics }

namespace Metrics

def incRequests (m : Metrics) : Metrics := { m with requestsTotal := m.requestsTotal + 1 }
def incToolCalls (m : Metrics) : Metrics := { m with toolCallsTotal := m.toolCallsTotal + 1 }
def incLlmCalls (m : Metrics) : Metrics := { m with llmCallsTotal := m.llmCallsTotal + 1 }
def incCompletions (m : Metrics) : Metrics :=
  { m with completionsTotal := m.completionsTotal + 1 }
def incDenials (m : Metrics) : Metrics := { m with denialsTotal := m.denialsTotal + 1 }
def incAuditEvents (m : Metrics) : Metrics :=
  { m with auditEventsTotal := m.auditEventsTotal + 1 }

end Metrics

/-! ### Collaborators -/

/-- The LLM service contract. -/
structure Llm (ε : Type) where
  onThink : String → ε → Except String Thought × ε
  onPlan : Thought → ε → Except String ActionPlan × ε

namespace Llm

/-- Produce the next reasoning step given the running context. -/
def think (llm : Llm ε) (context : String) : Core ε String Thought :=
  Act.external (World.call (llm.onThink context)) (.think context)

/-- Decide which tool to call next, given a thought. -/
def planAction (llm : Llm ε) (thought : Thought) : Core ε String ActionPlan :=
  Act.external (World.call (llm.onPlan thought)) (.planAction thought)

end Llm

/-- The host, behind its bridge. -/
structure HostBridge (ε : Type) where
  onApplyEdit : TextEdit → ε → Except HostError Unit × ε
  onEvent : HostEvent → ε → ε

namespace HostBridge

/-- Apply a text edit through the provider. -/
def applyEdit (bridge : HostBridge ε) (edit : TextEdit) : Core ε HostError Unit :=
  Act.external (World.call (bridge.onApplyEdit edit)) (.applyEdit edit)

/-- Emit an event; it cannot fail. -/
def emitEvent (bridge : HostBridge ε) (event : HostEvent) : Core ε ε' Unit :=
  Act.external (World.call fun env => (.ok (), bridge.onEvent event env)) fun _ =>
    .emitEvent event

end HostBridge

/-- Where audit records land. -/
structure AuditSink (ε : Type) where
  onRecord : AuditEvent → ε → Except String Unit × ε

/-- Append one audit event. -/
def AuditSink.record (sink : AuditSink ε) (event : AuditEvent) : Core ε String Unit :=
  Act.external (World.call (sink.onRecord event)) (.audit event)

/-- Executes named tools and returns observations. -/
structure ToolExecutor (ε : Type) where
  run : String → String → Core ε String Observation

/-- An executor outside the repository's code, answering as it likes. -/
def ToolExecutor.external (onRun : String → String → ε → Except String Observation × ε) :
    ToolExecutor ε where
  run tool argument := Act.external (World.call (onRun tool argument)) (.baseRun tool argument)

/-! ### Single calls -/

theorem Llm.think_apply (llm : Llm ε) (context : String) (w : World ε) :
    ∃ answer w', llm.think context w = ⟨answer, w', [.think context answer]⟩ := ⟨_, _, rfl⟩

theorem Llm.planAction_apply (llm : Llm ε) (thought : Thought) (w : World ε) :
    ∃ answer w', llm.planAction thought w = ⟨answer, w', [.planAction thought answer]⟩ :=
  ⟨_, _, rfl⟩

theorem ToolExecutor.external_apply (onRun : String → String → ε → Except String Observation × ε)
    (tool argument : String) (w : World ε) :
    ∃ answer w', (ToolExecutor.external onRun).run tool argument w =
      ⟨answer, w', [.baseRun tool argument answer]⟩ := ⟨_, _, rfl⟩

/-! ### Quiet events -/

/-- Events that act on nothing: telemetry, reasoning, and a plan that was
never made. -/
def Event.Quiet : Event → Prop
  | emitEvent _ => True
  | think _ _ => True
  | planAction _ (.error _) => True
  | _ => False

/-- The law allows whatever is made of quiet events and leaves the pending
approvals alone. -/
def Law.AdmitsQuiet (L : Law (World ε) Event) : Prop :=
  ∀ {w t w'}, (∀ e ∈ t, Event.Quiet e) → w'.pending = w.pending → L.rel w t w'

namespace Law.AdmitsQuiet

variable {L : Law (World ε) Event}

theorem obeys_count (hquiet : L.AdmitsQuiet) (f : Metrics → Metrics) :
    L.Obeys (Core.count f : Core ε ε' Unit) :=
  fun _ => hquiet (by simp [Core.count]) rfl

theorem obeys_think (hquiet : L.AdmitsQuiet) (llm : Llm ε) (context : String) :
    L.Obeys (llm.think context) :=
  fun _ => hquiet (by simp [Llm.think, Event.Quiet]) rfl

theorem obeys_emitEvent (hquiet : L.AdmitsQuiet) (bridge : HostBridge ε) (event : HostEvent) :
    L.Obeys (bridge.emitEvent event : Core ε ε' Unit) :=
  fun _ => hquiet (by simp [HostBridge.emitEvent, Event.Quiet]) rfl

end Law.AdmitsQuiet

end AgenticIde
