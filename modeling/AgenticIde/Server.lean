/-
AgenticIde/Server.lean

`AgentServer` (`agent.rs`): the handlers of the gRPC surface and the two quest hooks, over the
shared state of the server.

Every privileged handler authenticates its caller, checks one bit, and runs under the
caller's principal; the quest hooks run under the configured one.  `serve` takes one request,
and a server's life is `Machine.run` of it.  Uptime, spans and the latency histogram are left
out.

The shared state is the `World`: the metrics, the chat sessions, the pending approvals, the
clock, and whatever the outside keeps.  A request is its metadata and one of the calls, and
serving it is a computation that leaves a trace, so that what a handler does can be compared
with what it answers.

The order within a request is that of the source.  It is counted first, and a ping is
answered at once.  A caller that is unknown is refused without an entry; a caller without the
bit is refused with an entry of the denial; then the engine of the call runs, with the
caller's principal and the sink of the server, and the entry of the handler and its messages
come behind it, if it came through.  An error of an engine becomes a status with its text.

The statements about requests are in the modules above this one: which entries they leave
(`AuditOutcomes`), what they count (`ServerMetrics`), what their prompts show
(`ChatTenants`).
-/
import AgenticIde.Auth
import AgenticIde.Chat
import AgenticIde.Completion
import AgenticIde.Lib.Machine
import AgenticIde.Quest

namespace AgenticIde

variable {ε : Type}

/-! ### Requests and responses -/

/-- The status codes a handler answers with. -/
inductive Code
  | unauthenticated
  | permissionDenied
  | internal
  deriving DecidableEq

/-- A failed response. -/
structure Status where
  code : Code
  message : String
  deriving DecidableEq

/-- A chat request; the client names the session. -/
structure ChatRequest where
  sessionId : String
  message : String
  attachments : List String
  deriving DecidableEq

/-- One streamed chat message. -/
structure ChatMessage where
  role : String
  content : String
  deriving DecidableEq

/-- The privileged calls of the service. -/
inductive Rpc
  | ping
  | nesComplete (req : NesRequest)
  | runAgent (goal : String)
  | chat (req : ChatRequest)

/-- A call with its `Authorization` header. -/
structure Request where
  authorization : Option String
  rpc : Rpc

/-- What a handler streams back. -/
inductive Reply
  | pong
  | suggestions (ranked : List Completion)
  | agentEvents (payloads : List String)
  | messages (messages : List ChatMessage)

/-! ### The server -/

/-- What of `CoreConfig` decides identities and budgets. -/
structure CoreConfig where
  tenantId : String
  userId : String
  permMask : UInt32
  ssoEnabled : Bool
  ssoSecret : String
  ssoIssuer : String
  ssoClientId : String
  questMaxSteps : Nat

/-- The principal of the server. -/
def CoreConfig.principal (config : CoreConfig) : Principal :=
  .fromMask config.tenantId config.userId config.permMask

/-- `AgentServer`; its sessions and metrics are in the world. -/
structure AgentServer (ε : Type) where
  planner : Planner ε
  nesBackend : CompletionBackend ε
  chatEngine : ChatEngine ε
  authenticator : Authenticator
  principal : Principal
  auditSink : AuditSink ε

namespace AgentServer

/-- Fire-and-forget audit recording. -/
def audit (principal : Principal) (action : AuditAction) (granted : Bool) (payload : Json) :
    Core ε Status Unit := do
  let ev := AuditEvent.new (← Core.now) principal action granted payload
  Core.count .incAuditEvents
  Act.external (fun w => (.ok (), w)) fun _ => .spawnAudit ev

/-- Derive the principal of a request from its bearer token. -/
def principalFromRequest (self : AgentServer ε) (authorization : Option String) :
    Core ε Status Principal := do
  let now ← Core.now
  match self.authenticator.authenticate (extractBearer authorization) (now / 1000) with
  | .ok p => return p
  | .error e => do
      Core.count .incDenials
      Act.throw ⟨.unauthenticated, e.toString⟩

/-- Enforce a bit at the boundary of a handler; a denial is audited. -/
def requireBit (principal : Principal) (required : Permission) : Core ε Status Unit :=
  match checkPermission principal required with
  | .ok () => return ()
  | .error e => do
      Core.count .incDenials
      audit principal (.fromPermission required) false (.obj [("reason", .str e.toString)])
      Act.throw ⟨.permissionDenied, e.toString⟩

/-- `NesComplete`, for an authenticated principal. -/
def nesComplete (self : AgentServer ε) (principal : Principal) (req : NesRequest) :
    Core ε Status (List Completion) := do
  requireBit principal .generate
  let t0 ← Core.now
  let candidates ← (self.nesBackend.complete req).mapError (⟨.internal, ·⟩)
  let ranked := rankCompletions candidates 5
  let latency := (← Core.now) - t0
  Core.count .incCompletions
  audit principal .generate true
    (.obj [("candidates", .num ranked.length), ("latency_ms", .num latency)])
  return ranked

/-- `RunAgent`, for an authenticated principal. -/
def runAgent (self : AgentServer ε) (principal : Principal) (goal : String) :
    Core ε Status (List String) := do
  requireBit principal .execute
  -- not the configured principal: the one of the token
  let perRequest := self.planner.withGovernance principal self.auditSink
  let trace ← (perRequest.run goal).mapError (⟨.internal, ·⟩)
  audit principal .execute true
    (.obj [("goal", .str goal), ("steps", .num trace.steps.length)])
  return trace.steps.map fun s =>
    s!"thought={s.thought} action={s.action} obs={s.observation}"

/-- The session a chat continues, new when its id is.  `ChatSession::new` makes one of
2048 tokens and 64 turns in either build (`ChatSession.new_of_lt`). -/
def session (id : String) (w : World ε) : ChatSession :=
  (w.sessions id).getD (ChatSession.empty 2048 64)

/-- Keep a session under its id. -/
def storeSession (id : String) (session : ChatSession) : Core ε Status Unit :=
  Act.modify fun w => { w with sessions := Function.update w.sessions id (some session) }

/-- The messages of a reply: its chunks, then the suggested tools. -/
def replyMessages (reply : ChatReply) : List ChatMessage :=
  (ChatEngine.replyStream reply.content).map (⟨"assistant", ·⟩) ++
    if reply.suggestions.isEmpty then []
    else [⟨"system", "suggested tools:\n" ++ String.join (reply.suggestions.map fun s =>
      s!"- {s.tool} ({s.argument}): {s.rationale}\n")⟩]

/-- `Chat`, for an authenticated principal.  The session is looked up under
the client's id, and kept whether or not the reply succeeds. -/
def chat (self : AgentServer ε) (principal : Principal) (req : ChatRequest) :
    Core ε Status (List ChatMessage) := do
  requireBit principal .generate
  let w ← Act.get
  let current := session req.sessionId w
  storeSession req.sessionId current
  -- the engine takes the caller's tenant, the session key does not
  let engine := self.chatEngine.withGovernance principal self.auditSink
  let (next, reply) ←
    (engine.reply current req.message (parseAttachments req.attachments)).mapError (⟨.internal, ·⟩)
  storeSession req.sessionId next
  audit principal .generate true (.obj [("attachments", .num req.attachments.length)])
  return replyMessages reply

/-- A privileged call of an authenticated principal. -/
def handle (self : AgentServer ε) (principal : Principal) : Rpc → Core ε Status Reply
  | .ping => return .pong
  | .nesComplete req => .suggestions <$> self.nesComplete principal req
  | .runAgent goal => .agentEvents <$> self.runAgent principal goal
  | .chat req => .messages <$> self.chat principal req

/-- Serve one request; `Ping` needs no identity. -/
def serve (self : AgentServer ε) (request : Request) : Core ε Status Reply := do
  Core.count .incRequests
  match request.rpc with
  | .ping => return .pong
  | rpc => do
      let principal ← self.principalFromRequest request.authorization
      self.handle principal rpc

/-- The quest over the planner's collaborators, with the executor `tools` and
the configured principal. -/
def quest (self : AgentServer ε) (tools : ToolExecutor ε) (config : QuestConfig) : Quest ε where
  decomposer := LlmGoalDecomposer self.planner.llm
  llm := self.planner.llm
  tools := tools
  validator := self.planner.validator
  bridge := self.planner.bridge
  config := config
  principal := self.principal
  audit := self.auditSink

/-- Build a quest, whose pending approvals start empty, and run it. -/
def runNewQuest (quest : Quest ε) (goal : String) : QuestRun ε String QuestReport := do
  -- the collection belongs to the quest, the id counter does not
  Act.modify fun w => { w with pending := [] }
  quest.run goal

/-- Run a quest with the planner's own tools. -/
def runQuest (self : AgentServer ε) (goal : String) (config : QuestConfig) :
    QuestRun ε String QuestReport :=
  runNewQuest (self.quest self.planner.tools config) goal

/-- Run a quest with real build, test and git tools, over `shell`. -/
def runQuestWithEngineering (self : AgentServer ε) (shell : Shell ε) (goal : String)
    (config : QuestConfig) : QuestRun ε String QuestReport :=
  runNewQuest (self.quest (ShellTool.new shell).executor config) goal

/-- Build a server from a configuration: bearer tokens are verified when
single sign-on is on, and otherwise everyone is the configured principal.
The backends of the configuration are given. -/
def fromConfig (crypto : HsCrypto) (bridge : HostBridge ε) (llm : Llm ε)
    (nesBackend : CompletionBackend ε) (auditSink : AuditSink ε) (config : CoreConfig) :
    AgentServer ε where
  planner :=
    { llm := llm
      tools := BasicToolExecutor
      validator := BasicValidator config.questMaxSteps
      bridge := bridge
      maxSteps := 8
      principal := config.principal
      audit := auditSink }
  nesBackend := nesBackend
  chatEngine :=
    { llm := llm
      perms := config.principal.perms
      principal := config.principal
      auditSink := auditSink }
  authenticator :=
    if config.ssoEnabled then
      Hs256Authenticator.authenticator crypto
        ⟨config.ssoSecret, config.ssoIssuer, config.ssoClientId⟩
    else NoopAuthenticator config.principal
  principal := config.principal
  auditSink := auditSink

/-! ### Permitted callers -/

/-- The world a handler starts in, once its caller is known. -/
def entered (w : World ε) : World ε :=
  { w with metrics := w.metrics.incRequests, ticks := w.ticks + 1 }

/-- A privileged request is handled under the principal of its token. -/
theorem serve_eq_handle {server : AgentServer ε} {request : Request} {principal : Principal}
    {w : World ε} (hrpc : request.rpc ≠ .ping)
    (hauth : server.authenticator.authenticate (extractBearer request.authorization)
      (w.clock w.ticks / 1000) = .ok principal) :
    server.serve request w = server.handle principal request.rpc (entered w) := by
  have hprincipal : server.principalFromRequest request.authorization
      { w with metrics := w.metrics.incRequests } = ⟨.ok principal, entered w, []⟩ := by
    simp only [principalFromRequest, Core.now, Act.bind_apply, Act.modifyGet_apply,
      Outcome.andThen_mk_ok]
    rw [show server.authenticator.authenticate _ _ = _ from hauth]
    rfl
  rcases request with ⟨authorization, - | req | goal | req⟩
  · exact absurd rfl hrpc
  all_goals exact Act.bind_apply_of_ok hprincipal

theorem requireBit_of_holds {principal : Principal} {p : Permission}
    (hholds : principal.holds p = true) :
    (requireBit principal p : Core ε Status Unit) = pure () := by
  simp only [requireBit, checkPermission_of_holds hholds]

/-- A permitted caller is answered as the backend answers. -/
theorem nesComplete_result (server : AgentServer ε) {principal : Principal}
    (hholds : principal.holds .generate = true) (req : NesRequest) (w : World ε) :
    (server.nesComplete principal req w).result =
      match (server.nesBackend.onComplete req w.env).1 with
      | .ok candidates => .ok (rankCompletions candidates 5)
      | .error e => .error ⟨.internal, e⟩ := by
  simp only [nesComplete, requireBit_of_holds hholds, pure_bind]
  rcases hanswer : (server.nesBackend.onComplete req w.env).1 with e | candidates
  · simp [Core.now, CompletionBackend.complete, World.call, hanswer, Except.mapError]
  · simp [Core.now, CompletionBackend.complete, World.call, hanswer, Except.mapError, Core.count,
      audit, Except.map]

/-- A completion request of a permitted caller streams what the backend
answers, ranked, or its error. -/
theorem serve_nesComplete_result {server : AgentServer ε} {authorization : Option String}
    {principal : Principal} {w : World ε} (req : NesRequest)
    (hauth : server.authenticator.authenticate (extractBearer authorization)
      (w.clock w.ticks / 1000) = .ok principal)
    (hholds : principal.holds .generate = true) :
    (server.serve ⟨authorization, .nesComplete req⟩ w).result =
      match (server.nesBackend.onComplete req w.env).1 with
      | .ok candidates => .ok (.suggestions (rankCompletions candidates 5))
      | .error e => .error ⟨.internal, e⟩ := by
  have hserve : server.serve ⟨authorization, .nesComplete req⟩ w =
      server.handle principal (.nesComplete req) (entered w) := serve_eq_handle (by simp) hauth
  rw [hserve, handle, Act.map_apply]
  show Except.map Reply.suggestions (server.nesComplete principal req (entered w)).result = _
  have henv : (entered w).env = w.env := rfl
  rw [nesComplete_result server hholds, henv]
  rcases (server.nesBackend.onComplete req w.env).1 with e | candidates <;> rfl

/-! ### Quests -/

theorem runNewQuest_apply (quest : Quest ε) (goal : String) (w : World ε) :
    runNewQuest quest goal w = quest.run goal { w with pending := [] } := by
  rw [runNewQuest, Act.bind_apply, Act.modify_apply, Outcome.andThen_mk_ok, Outcome.after_nil]

end AgentServer

end AgenticIde
