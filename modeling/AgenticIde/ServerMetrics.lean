/-
AgenticIde/ServerMetrics.lean

What the counters of the registry (`Metrics`) say.

The engines count as they go: the planner a model call before it thinks, the chat one after it
has planned; a tool call is counted once it is authorized, a denial and an audit event next to
the entry that is handed to the sink.  None of them looks at what the others have counted.

Over any run of requests each counter is the sum of what the calls that crossed the boundary
are worth (`metrics_run`), whatever the model, the host, the sink and the completion backend
answered, and whoever asked.

What a call is worth is read off its events: a credit for each that adds to the counter, and
a debit where a later event shows that an earlier one did not count, as a plan that is refused
is no tool call.  Credits and debits are functions of an event, so those of a trace are sums,
and those of a run are the sums over its requests.  A denial at the boundary, of a caller that
is unknown, has no event; the response tells of it.

The engines are put together by the rules for a ledger: a law between the counters before, the
events, and the counters after, that holds of a sequence if it holds of its parts.  Only the
executor of the planner is asked for more, that it counts nothing itself
(`ToolExecutor.Unmetered`).
-/
import AgenticIde.AuditDelivery
import AgenticIde.Lib.Tally

namespace AgenticIde

variable {ε : Type}

/-! ### Counters and their worth -/

/-- The counters of the registry. -/
inductive Counter
  | requests
  | toolCalls
  | llmCalls
  | completions
  | denials
  | auditEvents
  deriving DecidableEq

/-- The value of a counter. -/
def Metrics.total (m : Metrics) : Counter → Nat
  | .requests => m.requestsTotal
  | .toolCalls => m.toolCallsTotal
  | .llmCalls => m.llmCallsTotal
  | .completions => m.completionsTotal
  | .denials => m.denialsTotal
  | .auditEvents => m.auditEventsTotal

/-- What an event of the planner adds to a counter: a thought is a model call,
and a plan a tool call. -/
def planCredit : Counter → Event → Nat
  | .llmCalls, .think _ _ => 1
  | .toolCalls, .planAction _ (.ok _) => 1
  | .denials, e => if e.handed.any (!·.granted) then 1 else 0
  | .auditEvents, e => if e.handed.isSome then 1 else 0
  | _, _ => 0

/-- A planned action that is refused is no tool call. -/
def planDebit : Counter → Event → Nat
  | .toolCalls, .audit event _ => if event.granted then 0 else 1
  | _, _ => 0

/-- What an event of any other call adds to a counter: a plan of the chat is a
model call, and a list of candidates a completion. -/
def callCredit : Counter → Event → Nat
  | .llmCalls, .planAction _ (.ok _) => 1
  | .completions, .complete _ _ _ (.ok _) => 1
  | .denials, e => if e.handed.any (!·.granted) then 1 else 0
  | .auditEvents, e => if e.handed.isSome then 1 else 0
  | _, _ => 0

/-- What an event of a call adds to a counter. -/
def Rpc.credit : Rpc → Counter → Event → Nat
  | .runAgent _ => planCredit
  | _ => callCredit

/-- What it takes off it. -/
def Rpc.debit : Rpc → Counter → Event → Nat
  | .runAgent _ => planDebit
  | _ => fun _ _ => 0

/-- A request that was served: the response and the events. -/
structure Served where
  request : Request
  response : Except Status Reply
  trace : List Event

namespace Served

/-- The response says that the caller is unknown. -/
def unauthenticated (self : Served) : Bool :=
  match self.response with
  | .error status => status.code = .unauthenticated
  | .ok _ => false

/-- What a request adds to a counter: itself, its events, and a denial where the
caller is unknown. -/
def credit (c : Counter) (self : Served) : Nat :=
  (self.trace.map (self.request.rpc.credit c)).sum + (if c = .requests then 1 else 0) +
    if c = .denials ∧ self.unauthenticated = true then 1 else 0

/-- What it takes off it. -/
def debit (c : Counter) (self : Served) : Nat := (self.trace.map (self.request.rpc.debit c)).sum

end Served

/-- The server takes a request, and it is noted how it was served. -/
def AgentServer.servedStep (server : AgentServer ε) (w : World ε) (request : Request) :
    World ε × List Served :=
  ((server.serve request w).state,
    [⟨request, (server.serve request w).result, (server.serve request w).trace⟩])

/-! ### The planner -/

/-- The planner's counters agree with its events. -/
def planLedger (ε : Type) (c : Counter) : Law (World ε) Event :=
  Law.ledger (fun w => w.metrics.total c) (planDebit c) (planCredit c)

/-- The executor counts nothing, and its calls are worth nothing.  The counters are
those of the server, and an executor gets the world they are in. -/
def ToolExecutor.Unmetered (executor : ToolExecutor ε) : Prop :=
  ∀ c tool argument, (planLedger ε c).Obeys (executor.run tool argument)

theorem unmetered_basicToolExecutor : (BasicToolExecutor : ToolExecutor ε).Unmetered := by
  intro c tool argument
  simp only [BasicToolExecutor]
  split <;> exact Law.obeys_pure _

namespace Planner

variable {self : Planner ε} {c : Counter}

/-- An entry is counted as an audit event, and whoever writes a refusal has
counted the denial. -/
theorem recordAudit_total (self : Planner ε) (c : Counter) (action : AuditAction) (granted : Bool)
    (payload : Json) (w : World ε) :
    ∃ event answer w', self.recordAudit action granted payload w =
        ⟨.ok (), w', [.audit event answer]⟩ ∧ event.granted = granted ∧
      w'.metrics.total c = w.metrics.total c + if c = .auditEvents then 1 else 0 := by
  refine ⟨_, _, _, rfl, rfl, ?_⟩
  cases c <;> rfl

/-- An authorized action leaves its entry, if it needs one; a refused one is a
denial, and no tool call. -/
theorem authorizeAndRecord_total (self : Planner ε) (c : Counter) (tool : String) (w : World ε) :
    (∃ w' t, self.authorizeAndRecord tool w = ⟨.ok (.ok ()), w', t⟩ ∧
      w'.metrics.total c + (t.map (planDebit c)).sum =
        w.metrics.total c + (t.map (planCredit c)).sum) ∨
    ∃ e w' t, self.authorizeAndRecord tool w = ⟨.ok (.error e), w', t⟩ ∧
      w'.metrics.total c + (t.map (planDebit c)).sum =
        w.metrics.total c + (t.map (planCredit c)).sum + if c = .toolCalls then 1 else 0 := by
  -- A name that needs no right leaves no entry; with one, the entry is written granted or
  -- denied, and counted in either case.
  rcases hp : actionPermission tool with - | required
  · refine .inl ⟨w, [], ?_, rfl⟩
    simp only [authorizeAndRecord, hp]
    rfl
  rcases hcheck : checkPermission self.principal required with e | ⟨⟩
  · obtain ⟨event, answer, w', hrecord, hgranted, htotal⟩ := recordAudit_total self c
      (.fromPermission required) false (.obj [("tool", .str tool), ("reason", .str e.toString)])
      { w with metrics := w.metrics.incDenials }
    refine .inr ⟨e, w', [.audit event answer], ?_, ?_⟩
    · simp only [authorizeAndRecord, hp, hcheck]
      simp [Core.count, hrecord, Except.map]
    -- A refused action: its plan was credited as a tool call, and the denied entry takes
    -- that off again.
    · rw [htotal]
      cases c <;> simp [Metrics.total, Metrics.incDenials, planDebit, planCredit, Event.handed,
        hgranted]
  · obtain ⟨event, answer, w', hrecord, hgranted, htotal⟩ := recordAudit_total self c
      (.fromPermission required) true (.obj [("tool", .str tool)]) w
    refine .inl ⟨w', [.audit event answer], ?_, ?_⟩
    · simp only [authorizeAndRecord, hp, hcheck]
      simp [hrecord]
    · rw [htotal]
      cases c <;> simp [planDebit, planCredit, Event.handed, hgranted]

/-- What counts nothing and is worth nothing. -/
theorem planLedger_of_idle {w w' : World ε} {t : List Event} (hmetrics : w'.metrics = w.metrics)
    (hdebit : ∀ e ∈ t, planDebit c e = 0) (hcredit : ∀ e ∈ t, planCredit c e = 0) :
    (planLedger ε c).rel w t w' := by
  show w'.metrics.total c + (t.map (planDebit c)).sum =
    w.metrics.total c + (t.map (planCredit c)).sum
  rw [hmetrics, List.sum_eq_zero, List.sum_eq_zero]
  · simpa using hcredit
  · simpa using hdebit

theorem planLedger_emitEvent (event : HostEvent) :
    (planLedger ε c).Obeys (self.bridge.emitEvent event : Core ε String Unit) := by
  intro w
  refine planLedger_of_idle rfl ?_ ?_ <;> cases c <;>
    simp [HostBridge.emitEvent, planDebit, planCredit, Event.handed]

theorem planLedger_applyEdit (edit : TextEdit) :
    (planLedger ε c).Obeys (self.bridge.applyEdit edit) := by
  intro w
  refine planLedger_of_idle rfl ?_ ?_ <;> cases c <;>
    simp [HostBridge.applyEdit, planDebit, planCredit, Event.handed]

/-- What comes behind a first part is worth what it is worth itself, and `j`
more. -/
theorem surplus_bind {α β : Type} {m : Core ε String α} {f : α → Core ε String β} {w w' : World ε}
    {a : α} {t : List Event} {j k : Nat} (hm : m w = ⟨.ok a, w', t⟩)
    (hfirst : w'.metrics.total c + (t.map (planDebit c)).sum =
      w.metrics.total c + (t.map (planCredit c)).sum + j)
    (hrest : (f a w').state.metrics.total c + ((f a w').trace.map (planDebit c)).sum =
      w'.metrics.total c + ((f a w').trace.map (planCredit c)).sum + k) :
    ((m >>= f) w).state.metrics.total c + (((m >>= f) w).trace.map (planDebit c)).sum =
      w.metrics.total c + (((m >>= f) w).trace.map (planCredit c)).sum + (j + k) := by
  rw [Act.bind_apply_of_ok hm, Outcome.after_state, Outcome.after_trace, List.map_append,
    List.map_append, List.sum_append, List.sum_append]
  omega

/-- Performing a plan is a tool call, unless it is refused. -/
theorem perform_total (htools : self.tools.Unmetered) (plan : ActionPlan) (w : World ε) :
    (self.perform plan w).state.metrics.total c +
        ((self.perform plan w).trace.map (planDebit c)).sum =
      w.metrics.total c + ((self.perform plan w).trace.map (planCredit c)).sum +
        if c = .toolCalls then 1 else 0 := by
  have hemit : (planLedger ε c).Obeys (self.bridge.emitEvent
      (.status s!"action={plan.tool} arg={plan.argument}") : Core ε String Unit) :=
    planLedger_emitEvent _
  rw [← Nat.zero_add (if c = .toolCalls then 1 else 0)]
  refine surplus_bind (j := 0) rfl (hemit w) ?_
  rcases authorizeAndRecord_total self c plan.tool
      ((self.bridge.emitEvent (.status s!"action={plan.tool} arg={plan.argument}") :
        Core ε String Unit) w).state with
    ⟨w', t, hauth, htotal⟩ | ⟨e, w', t, hauth, htotal⟩
  · -- the call is counted, and the tool is run
    rw [← Nat.zero_add (if c = .toolCalls then 1 else 0)]
    refine surplus_bind (j := 0) hauth htotal ?_
    rw [← Nat.add_zero (if c = .toolCalls then 1 else 0)]
    refine surplus_bind (j := if c = .toolCalls then 1 else 0) rfl ?_ ?_
    · cases c <;> rfl
    · refine Law.obeys_bind (L := planLedger ε c) (htools c _ _) (fun obs => ?_) _
      split
      · exact Law.obeys_bind (Law.obeys_ignore (planLedger_applyEdit _)) fun _ => Law.obeys_pure _
      · exact Law.obeys_pure _
  · refine surplus_bind (k := 0) hauth htotal ?_
    exact Law.obeys_bind (L := planLedger ε c) (planLedger_emitEvent _)
      (fun _ => Law.obeys_pure _) _

/-- A thought is counted before it is asked for, a plan when it is performed. -/
theorem planLedger_react (htools : self.tools.Unmetered) (context : String) :
    (planLedger ε c).Obeys (self.react context) := by
  -- The thought is counted together with the call, before anything can fail.
  rw [react, ← bind_assoc]
  refine Law.obeys_bind ?_ fun thought w => ?_
  · intro w
    cases c <;> rfl
  obtain ⟨answer, w', hplan, hmetrics⟩ : ∃ answer w', self.llm.planAction thought w =
      ⟨answer, w', [.planAction thought answer]⟩ ∧ w'.metrics = w.metrics := ⟨_, _, rfl, rfl⟩
  rw [Act.bind_apply, hplan]
  rcases answer with err | plan
  · refine planLedger_of_idle hmetrics ?_ ?_ <;> cases c <;>
      simp [planDebit, planCredit, Event.handed]
  · have hperform := perform_total (c := c) htools plan w'
    have hcredit : planCredit c (.planAction thought (.ok plan)) =
        if c = .toolCalls then 1 else 0 := by cases c <;> rfl
    have hdebit : planDebit c (.planAction thought (.ok plan)) = 0 := by cases c <;> rfl
    rw [Outcome.andThen_mk_ok, ← map_eq_pure_bind, Act.map_apply]
    show (self.perform plan w').state.metrics.total c +
        ((.planAction thought (.ok plan) :: (self.perform plan w').trace).map (planDebit c)).sum =
      w.metrics.total c +
        ((.planAction thought (.ok plan) :: (self.perform plan w').trace).map (planCredit c)).sum
    rw [List.map_cons, List.map_cons, List.sum_cons, List.sum_cons, hcredit, hdebit, ← hmetrics]
    -- What performing the plan is worth and what the plan itself is worth add up.
    omega

/-- **A run of the planner counts what it does.**  Nothing is asked of the tools but
that they count nothing themselves; the loop may end in any of its ways. -/
theorem planLedger_run (htools : self.tools.Unmetered) (goal : String) :
    (planLedger ε c).Obeys (self.run goal) :=
  obeys_loop planLedger_emitEvent (planLedger_react htools) _ _ _ _

end Planner

/-! ### The other calls -/

/-- The counters agree with the events of a call. -/
def callLedger (ε : Type) (rpc : Rpc) (c : Counter) : Law (World ε) Event :=
  Law.ledger (fun w => w.metrics.total c) (rpc.debit c) (rpc.credit c)

section Calls

variable {rpc : Rpc} {c : Counter}

theorem callLedger_of_idle {w w' : World ε} {t : List Event} (hmetrics : w'.metrics = w.metrics)
    (hdebit : ∀ e ∈ t, rpc.debit c e = 0) (hcredit : ∀ e ∈ t, rpc.credit c e = 0) :
    (callLedger ε rpc c).rel w t w' := by
  show w'.metrics.total c + (t.map (rpc.debit c)).sum =
    w.metrics.total c + (t.map (rpc.credit c)).sum
  rw [hmetrics, List.sum_eq_zero, List.sum_eq_zero]
  · simpa using hcredit
  · simpa using hdebit

namespace AgentServer

/-- A granted entry is counted as an audit event. -/
theorem callLedger_audit (principal : Principal) (action : AuditAction) (payload : Json) :
    (callLedger ε rpc c).Obeys (audit principal action true payload : Core ε Status Unit) := by
  intro w
  cases rpc <;> cases c <;> rfl

/-- A refused one comes with a denial. -/
theorem callLedger_requireBit (principal : Principal) (required : Permission) :
    (callLedger ε rpc c).Obeys (requireBit principal required : Core ε Status Unit) := by
  unfold requireBit
  rcases checkPermission principal required with e | ⟨⟩
  · intro w
    cases rpc <;> cases c <;> rfl
  · exact Law.obeys_pure _

theorem callLedger_nesComplete (server : AgentServer ε) (principal : Principal) (req : NesRequest) :
    (callLedger ε (.nesComplete req) c).Obeys (server.nesComplete principal req) := by
  refine Law.obeys_bind (callLedger_requireBit _ _) fun _ => ?_
  refine Law.obeys_bind (fun _ => callLedger_of_idle rfl ?_ ?_) fun t0 w => ?_
  · simp [Core.now]
  · simp [Core.now]
  rw [Act.bind_apply, Act.mapError_apply, CompletionBackend.complete, Act.external_apply]
  rcases (World.call (server.nesBackend.onComplete req) w).1 with err | candidates
  · cases c <;> rfl
  · cases c <;> rfl

theorem callLedger_runAgent (server : AgentServer ε) (htools : server.planner.tools.Unmetered)
    (principal : Principal) (goal : String) :
    (callLedger ε (.runAgent goal) c).Obeys (server.runAgent principal goal) := by
  refine Law.obeys_bind (callLedger_requireBit _ _) fun _ => ?_
  refine Law.obeys_bind (Law.obeys_mapError ?_) fun trace => ?_
  · have htools : (server.planner.withGovernance principal server.auditSink).tools.Unmetered :=
      htools
    exact Planner.planLedger_run htools goal
  · exact Law.obeys_bind (callLedger_audit _ _ _) fun _ => Law.obeys_pure _

/-- A reply of the chat counts the model call when it has planned. -/
theorem callLedger_reply (engine : ChatEngine ε) (session : ChatSession) (userMsg : String)
    (attachments : List Attachment) (req : ChatRequest) :
    (callLedger ε (.chat req) c).Obeys (engine.reply session userMsg attachments) := by
  have haudit : ∀ payload, (callLedger ε (.chat req) c).Obeys
      (engine.audit .generate true payload) := by
    intro payload w
    cases c <;> rfl
  unfold ChatEngine.reply
  rcases checkPermission engine.principal .generate with e | ⟨⟩
  · intro w
    cases c <;> rfl
  refine Law.obeys_bind (haudit _) fun _ => ?_
  -- The chat counts its model call only behind the plan, so a reply that fails before is
  -- worth nothing there.
  refine Law.obeys_bind (fun _ => callLedger_of_idle rfl ?_ ?_) fun thought w => ?_
  · intro e he
    rfl
  · intro e he
    rw [List.mem_singleton.mp he]
    cases c <;> rfl
  rw [Act.bind_apply, Llm.planAction, Act.external_apply]
  rcases (World.call (engine.llm.onPlan thought) w).1 with err | plan
  · cases c <;> rfl
  · cases c <;> rfl

theorem callLedger_chat (server : AgentServer ε) (principal : Principal) (req : ChatRequest) :
    (callLedger ε (.chat req) c).Obeys (server.chat principal req) := by
  have hstore : ∀ id session, (callLedger ε (.chat req) c).Obeys
      (storeSession id session : Core ε Status Unit) := by
    intro id session w
    cases c <;> rfl
  refine Law.obeys_bind (callLedger_requireBit _ _) fun _ => ?_
  refine Law.obeys_bind Law.obeys_get fun w => ?_
  refine Law.obeys_bind (hstore _ _) fun _ => Law.obeys_bind ?_ fun next => ?_
  · exact Law.obeys_mapError (callLedger_reply _ _ _ _ _)
  · exact Law.obeys_bind (hstore _ _) fun _ => Law.obeys_bind (callLedger_audit _ _ _) fun _ =>
      Law.obeys_pure _

/-- A call counts what it does. -/
theorem callLedger_handle (server : AgentServer ε) (htools : server.planner.tools.Unmetered)
    (principal : Principal) (rpc : Rpc) :
    (callLedger ε rpc c).Obeys (server.handle principal rpc) := by
  rcases rpc with - | req | goal | req
  · exact Law.obeys_pure _
  · exact Law.obeys_map _ (callLedger_nesComplete server principal req)
  · exact Law.obeys_map _ (callLedger_runAgent server htools principal goal)
  · exact Law.obeys_map _ (callLedger_chat server principal req)

end AgentServer

end Calls

/-! ### Requests -/

namespace AgentServer

variable {server : AgentServer ε}

/-- If the computation fails, it is not for an unknown caller; so the status of such
a caller comes from the authentication alone. -/
def KnowsCaller {α : Type} (m : Core ε Status α) : Prop :=
  ∀ w status, (m w).result = .error status → status.code ≠ .unauthenticated

section KnowsCaller

variable {α β : Type}

theorem knowsCaller_of_succeeds {m : Core ε Status α} (hm : m.Succeeds) : KnowsCaller m := by
  intro w status h
  obtain ⟨a, ha⟩ := hm w
  rw [ha] at h
  cases h

theorem knowsCaller_bind {m : Core ε Status α} {f : α → Core ε Status β} (hm : KnowsCaller m)
    (hf : ∀ a, KnowsCaller (f a)) : KnowsCaller (m >>= f) := by
  intro w status h
  rcases Act.error_of_bind h with h | ⟨a, w', h⟩
  · exact hm w status h
  · exact hf a w' status h

theorem knowsCaller_map {m : Core ε Status α} (f : α → β) (hm : KnowsCaller m) :
    KnowsCaller (f <$> m) := by
  rw [map_eq_pure_bind]
  exact knowsCaller_bind hm fun a => knowsCaller_of_succeeds (Act.succeeds_pure (f a))

theorem knowsCaller_mapError (m : Core ε String α) :
    KnowsCaller (m.mapError (Status.mk .internal)) := by
  intro w status h
  rw [Act.mapError_apply] at h
  rcases hm : (m w).result with err | a <;> rw [hm] at h <;> cases h
  exact fun hcode => by cases hcode

theorem knowsCaller_requireBit (principal : Principal) (required : Permission) :
    KnowsCaller (requireBit principal required : Core ε Status Unit) := by
  unfold requireBit
  rcases checkPermission principal required with err | ⟨⟩
  · intro w status h
    cases h
    exact fun hcode => by cases hcode
  · exact knowsCaller_of_succeeds (Act.succeeds_pure ())

/-- The handlers fail for other reasons than an unknown caller. -/
theorem knowsCaller_handle (server : AgentServer ε) (principal : Principal) (rpc : Rpc) :
    KnowsCaller (server.handle principal rpc) := by
  have hpure : ∀ {α : Type} (a : α), KnowsCaller (pure a : Core ε Status α) :=
    fun a => knowsCaller_of_succeeds (Act.succeeds_pure a)
  have haudit : ∀ action payload,
      KnowsCaller (audit principal action true payload : Core ε Status Unit) :=
    fun _ _ => knowsCaller_of_succeeds fun _ => ⟨(), rfl⟩
  have hnow : KnowsCaller (Core.now : Core ε Status Int) :=
    knowsCaller_of_succeeds fun _ => ⟨_, rfl⟩
  have hstore : ∀ id session, KnowsCaller (storeSession id session : Core ε Status Unit) :=
    fun _ _ => knowsCaller_of_succeeds fun _ => ⟨_, rfl⟩
  rcases rpc with - | req | goal | req
  -- Behind the check of the bit no handler fails with the status of an unknown caller.
  · exact hpure _
  · refine knowsCaller_map _ (knowsCaller_bind (knowsCaller_requireBit _ _) fun _ => ?_)
    refine knowsCaller_bind hnow fun _ => knowsCaller_bind (knowsCaller_mapError _) fun _ => ?_
    refine knowsCaller_bind hnow fun _ => knowsCaller_bind ?_ fun _ => ?_
    · exact knowsCaller_of_succeeds fun _ => ⟨_, rfl⟩
    · exact knowsCaller_bind (haudit _ _) fun _ => hpure _
  · refine knowsCaller_map _ (knowsCaller_bind (knowsCaller_requireBit _ _) fun _ => ?_)
    refine knowsCaller_bind (knowsCaller_mapError _) fun _ => ?_
    exact knowsCaller_bind (haudit _ _) fun _ => hpure _
  · refine knowsCaller_map _ (knowsCaller_bind (knowsCaller_requireBit _ _) fun _ => ?_)
    refine knowsCaller_bind (knowsCaller_of_succeeds fun _ => ⟨_, rfl⟩) fun w => ?_
    refine knowsCaller_bind (hstore _ _) fun _ => ?_
    refine knowsCaller_bind (knowsCaller_mapError _) fun _ => ?_
    refine knowsCaller_bind (hstore _ _) fun _ => ?_
    exact knowsCaller_bind (haudit _ _) fun _ => hpure _

end KnowsCaller

/-- A request adds to each counter what it is worth. -/
theorem serve_total (htools : server.planner.tools.Unmetered) (request : Request) (w : World ε)
    (c : Counter) {served : Served}
    (hserved : served =
      ⟨request, (server.serve request w).result, (server.serve request w).trace⟩) :
    (server.serve request w).state.metrics.total c + served.debit c =
      w.metrics.total c + served.credit c := by
  subst hserved
  rcases request with ⟨authorization, rpc⟩
  by_cases hping : rpc = .ping
  · subst hping
    cases c <;> rfl
  rcases hauth : server.authenticator.authenticate (extractBearer authorization)
    (w.clock w.ticks / 1000) with e | principal
  · -- an unknown caller is a denial
    have hserve : server.serve ⟨authorization, rpc⟩ w = ⟨.error ⟨.unauthenticated, e.toString⟩,
        { w with metrics := w.metrics.incRequests.incDenials, ticks := w.ticks + 1 }, []⟩ := by
      have hprincipal : server.principalFromRequest authorization
          { w with metrics := w.metrics.incRequests } = ⟨.error ⟨.unauthenticated, e.toString⟩,
            { w with metrics := w.metrics.incRequests.incDenials, ticks := w.ticks + 1 }, []⟩ := by
        simp only [principalFromRequest, Core.now, Act.bind_apply, Act.modifyGet_apply,
          Outcome.andThen_mk_ok]
        rw [show server.authenticator.authenticate _ _ = _ from hauth]
        rfl
      have hbind : ((server.principalFromRequest authorization) >>= fun principal =>
          server.handle principal rpc) { w with metrics := w.metrics.incRequests } =
          ⟨.error ⟨.unauthenticated, e.toString⟩,
            { w with metrics := w.metrics.incRequests.incDenials, ticks := w.ticks + 1 }, []⟩ := by
        rw [Act.bind_apply, hprincipal, Outcome.andThen_mk_error]
      rcases rpc with - | req | goal | req
      · exact absurd rfl hping
      all_goals exact hbind
    rw [hserve]
    cases c <;> rfl
  · have hledger := callLedger_handle (c := c) server htools principal rpc (entered w)
    have hknown : Served.unauthenticated ⟨⟨authorization, rpc⟩,
        (server.handle principal rpc (entered w)).result,
        (server.handle principal rpc (entered w)).trace⟩ = false := by
      rw [Served.unauthenticated]
      rcases hresult : (server.handle principal rpc (entered w)).result with status | reply
      · exact decide_eq_false (knowsCaller_handle server principal rpc _ status hresult)
      · rfl
    have hentered : (entered w).metrics.total c =
        w.metrics.total c + if c = .requests then 1 else 0 := by
      cases c <;> rfl
    rw [serve_eq_handle hping hauth, Served.debit, Served.credit, hknown]
    simp only [Bool.false_eq_true, and_false, if_false, Nat.add_zero]
    have hsum : (server.handle principal rpc (entered w)).state.metrics.total c +
        ((server.handle principal rpc (entered w)).trace.map (rpc.debit c)).sum =
      (entered w).metrics.total c +
        ((server.handle principal rpc (entered w)).trace.map (rpc.credit c)).sum := hledger
    omega

/-- After any run of requests, each counter is the sum of what the requests and
the calls of their handlers are worth. -/
theorem total_run (htools : server.planner.tools.Unmetered) (w : World ε)
    (requests : List Request) (c : Counter) :
    (Machine.run server.servedStep w requests).1.metrics.total c +
        ((Machine.run server.servedStep w requests).2.map (Served.debit c)).sum =
      w.metrics.total c +
        ((Machine.run server.servedStep w requests).2.map (Served.credit c)).sum := by
  refine Machine.run_induction (P := fun _ (w' : World ε) t => w'.metrics.total c +
    (t.map (Served.debit c)).sum = w.metrics.total c + (t.map (Served.credit c)).sum)
    rfl ?_ requests
  intro inputs request w' t ih
  have hserve := serve_total htools request w' c rfl
  rw [List.map_append, List.map_append, List.sum_append, List.sum_append]
  show (server.serve request w').state.metrics.total c + (_ + (Served.debit c _ + 0)) =
    _ + (_ + (Served.credit c _ + 0))
  omega

/-- **The counters say what was served.**  Of the server of a configuration,
whatever its collaborators answer and whoever asks: after any requests, there
are as many requests as that, as many audit events as entries handed to the
sink, as many denials as refusals among them and callers turned away, and as
many completions as lists of candidates.  A model call is a thought of the
planner, or a plan of the chat; a tool call is a plan of the planner that was
not refused. -/
theorem metrics_run (crypto : HsCrypto) (bridge : HostBridge ε) (llm : Llm ε)
    (nesBackend : CompletionBackend ε) (auditSink : AuditSink ε) (config : CoreConfig)
    (w : World ε) (requests : List Request) (c : Counter) :
    (Machine.run (fromConfig crypto bridge llm nesBackend auditSink config).servedStep w
        requests).1.metrics.total c +
        ((Machine.run (fromConfig crypto bridge llm nesBackend auditSink config).servedStep w
          requests).2.map (Served.debit c)).sum =
      w.metrics.total c +
        ((Machine.run (fromConfig crypto bridge llm nesBackend auditSink config).servedStep w
          requests).2.map (Served.credit c)).sum :=
  total_run unmetered_basicToolExecutor w requests c

end AgentServer

end AgenticIde
