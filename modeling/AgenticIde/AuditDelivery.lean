/-
AgenticIde/AuditDelivery.lean

Whether the audit events of a server's requests reach the table.

Three places decide: the token says for which tenant a request speaks (`handed_claimedTenant`),
the sink is connected for the configured tenant, and the policies of the table hold every row
to the tenant of the connection.  Under row-level security no record sees another one, so
however the statements of the calls are interleaved, the table is the one that recording the
events in the order of their last statements leaves (`runRecords_rls`).  `delivered_iff` puts
the three together.

Events are handed over and forgotten: a task of its own records each, and no handler waits for
it or learns what became of it.  So delivery is not a property of a request but of a schedule,
and it speaks of the records that have come to their end.

The invariant for the interleaving (`RlsInv`) says of a call between its statements that it
has found no previous row, and of the table that it is the one of the calls that are over.
-/
import AgenticIde.AuditChain
import AgenticIde.Server

namespace AgenticIde

variable {ε ε' α : Type} {sha256 : List UInt8 → List UInt8}

/-! ### Records under row-level security -/

/-- The statement was the last one of its call. -/
def ChainStep.final : ChainStep → Bool
  | selected _ => false
  | inserted _ => true
  | failed _ => true

/-- The calls that came to their end, each with the time of its last
statement, in the order of these. -/
def completions (steps : List ((Nat × Int) × ChainStep)) : List (Nat × Int) :=
  (steps.filter (·.2.final)).map (·.1)

/-- The statements of a schedule, with what each did. -/
def recordSteps (sha256 : List UInt8 → List UInt8) (tasks : List RecordTask) (db : AuditDb)
    (schedule : List (Nat × Int)) : List ((Nat × Int) × ChainStep) :=
  (Machine.run (Machine.tagged (recordStep sha256 tasks)) ⟨db, fun _ => .fresh⟩ schedule).2

/-- The events of calls, at their times. -/
def eventsOf (tasks : List RecordTask) (calls : List (Nat × Int)) : List (Int × AuditEvent) :=
  calls.filterMap fun c => tasks[c.1]?.map fun task => (c.2, task.event)

/-- Under row-level security a call that is between its statements found no
previous row, and the table is that of the completed calls. -/
structure RlsInv (sha256 : List UInt8 → List UInt8) (sink : PgAuditSink)
    (tasks : List RecordTask) (db : AuditDb) (s : RecordState)
    (steps : List ((Nat × Int) × ChainStep)) : Prop where
  selected : ∀ i prev, s.status i = .selected prev → prev = "" ∧
    ∀ task, tasks[i]? = some task → hasNul task.event.tenantId = false
  table : s.db = sink.recordAll sha256 (eventsOf tasks (completions steps)) db

section Rls

variable {sink : PgAuditSink} {tasks : List RecordTask} {db : AuditDb} {s : RecordState}
  {steps : List ((Nat × Int) × ChainStep)}

theorem eventsOf_completions_concat {task : RecordTask} {i : Nat × Int} {x : ChainStep}
    (htask : tasks[i.1]? = some task) (hx : x.final = true) :
    eventsOf tasks (completions (steps ++ [(i, x)])) =
      eventsOf tasks (completions steps) ++ [(i.2, task.event)] := by
  simp [eventsOf, completions, htask, hx]

/-- A call that comes to its end leaves the table that recording its event
leaves. -/
theorem RlsInv.finish (h : RlsInv sha256 sink tasks db s steps) {task : RecordTask} {i : Nat × Int}
    {x : ChainStep} (htask : tasks[i.1]? = some task) (hx : x.final = true) {db' : AuditDb}
    (hdb : db' = (sink.record sha256 i.2 task.event s.db).2) :
    RlsInv sha256 sink tasks db (s.mark i.1 .finished db') (steps ++ [(i, x)]) where
  selected j prev hj := h.selected j prev (RecordState.of_mark (by simp) hj).2
  table := by
    rw [eventsOf_completions_concat htask hx, PgAuditSink.recordAll_concat, ← h.table, ← hdb]
    rfl

/-- A SELECT keeps the invariant: the call found no previous row. -/
theorem RlsInv.select (h : RlsInv sha256 sink tasks db s steps) {task : RecordTask} {i : Nat × Int}
    (htask : tasks[i.1]? = some task) (hnul : hasNul task.event.tenantId = false) :
    RlsInv sha256 sink tasks db (s.mark i.1 (.selected "") s.db)
      (steps ++ [(i, .selected i.1)]) where
  selected j prev hj := by
    by_cases hji : j = i.1
    · subst hji
      obtain rfl : "" = prev := by simpa using hj
      refine ⟨rfl, fun task' htask' => ?_⟩
      obtain rfl : task = task' := Option.some.inj (htask.symm.trans htask')
      exact hnul
    · exact h.selected j prev ((s.mark_of_ne hji _ _).symm.trans hj)
  table := by simpa [completions, ChainStep.final] using h.table

/-- Every statement keeps the invariant. -/
theorem RlsInv.step (hrls : sink.client.bypassRls = false)
    (htasks : ∀ task ∈ tasks, task.sink = sink) (i : Nat × Int)
    (h : RlsInv sha256 sink tasks db s steps) :
    RlsInv sha256 sink tasks db (Machine.tagged (recordStep sha256 tasks) s i).1
      (steps ++ (Machine.tagged (recordStep sha256 tasks) s i).2) := by
  rcases htask : tasks[i.1]? with - | task
  · simpa [Machine.tagged, recordStep, htask] using h
  have hsink : task.sink = sink := htasks task (List.mem_of_getElem? htask)
  rcases hst : s.status i.1 with - | prev | -
  · rcases hnul : hasNul task.event.tenantId with - | -
    · -- the role reads no row, whatever is there
      have hfetch : sink.fetchPrev task.event s.db = .ok "" := by
        rw [PgAuditSink.fetchPrev_rls hrls, hnul]
        rfl
      simp only [Machine.tagged, recordStep, htask, hst, hsink, hfetch, List.map_cons,
        List.map_nil]
      exact h.select htask hnul
    · -- the SELECT itself fails
      have hfetch : sink.fetchPrev task.event s.db = .error .invalidText := by
        rw [PgAuditSink.fetchPrev_rls hrls, hnul]
        rfl
      simp only [Machine.tagged, recordStep, htask, hst, hsink, hfetch, List.map_cons,
        List.map_nil]
      apply h.finish htask rfl
      simp only [PgAuditSink.record, hfetch]
  · -- the INSERT alone does what the whole call would do now
    obtain ⟨rfl, hnul⟩ := h.selected _ _ hst
    have hrecord : sink.record sha256 i.2 task.event s.db =
        sink.append sha256 i.2 task.event "" s.db := by
      rw [PgAuditSink.record, PgAuditSink.fetchPrev_rls hrls, hnul task htask]
      rfl
    rcases happend : sink.append sha256 i.2 task.event "" s.db with ⟨err | ⟨⟩, db'⟩
    all_goals
      simp only [Machine.tagged, recordStep, htask, hst, hsink, happend, List.map_cons,
        List.map_nil]
      exact h.finish htask rfl (by rw [hrecord, happend])
  · simpa [Machine.tagged, recordStep, htask, hst] using h

/-- **Interleaving does not matter** to a role under row-level security.  Such a
role reads no row of the log, so what a task has read before another one wrote is
what it would read after; the tasks leave what they would leave one after the other,
in the order in which they were completed. -/
theorem runRecords_rls (hrls : sink.client.bypassRls = false)
    (htasks : ∀ task ∈ tasks, task.sink = sink) (db : AuditDb) (schedule : List (Nat × Int)) :
    (runRecords sha256 tasks db schedule).1.db = sink.recordAll sha256
      (eventsOf tasks (completions (recordSteps sha256 tasks db schedule))) db := by
  have hinit : RlsInv sha256 sink tasks db ⟨db, fun _ => .fresh⟩ [] :=
    { selected := by
        intro i prev hi
        cases hi
      table := rfl }
  have hinv := Machine.run_induction (P := fun _ s steps => RlsInv sha256 sink tasks db s steps)
    hinit (fun _ i _ _ h => h.step hrls htasks i) schedule
  rw [runRecords, Machine.run_tagged]
  exact hinv.table

end Rls

/-! ### The tenant of an event -/

/-- The audit event a call hands to the sink. -/
def Event.handed : Event → Option AuditEvent
  | audit event _ => some event
  | spawnAudit event => some event
  | _ => none

/-- Every audit event is the tenant's, and names no row of `users` as its actor: the server
knows the callers by their tokens only. -/
def speaksFor (ε : Type) (tenantId : String) : Law (World ε) Event :=
  Law.always _ fun e => ∀ event, e.handed = some event →
    event.tenantId = tenantId ∧ event.actorId = none

section Handlers

variable {tenantId : String}

/-- Whatever hands nothing to the sink. -/
theorem speaksFor_of_handed {w w' : World ε} {t : List Event} (h : ∀ e ∈ t, e.handed = none) :
    (speaksFor ε tenantId).rel w t w' := by
  intro e he event hevent
  rw [h e he] at hevent
  cases hevent

theorem admitsQuiet_speaksFor : (speaksFor ε tenantId).AdmitsQuiet := by
  intro w t w' ht _
  apply speaksFor_of_handed
  intro e he
  have hq := ht e he
  rcases e with _ | _ | ⟨_, _ | _⟩ | _ | _ | _ | _ | _ | _ <;> first | rfl | exact hq.elim

theorem handed_of_serves {tool : String} {e : Event} (h : e.Serves tool) : e.handed = none := by
  cases e <;> first | rfl | exact h.elim

/-- What the planner records of an action that `p` governs: the class of `p`, its
own principal, and whether that one holds `p`. -/
def Planner.Entry (self : Planner ε) (p : Permission) (event : AuditEvent) : Prop :=
  ∃ ts payload,
    event = .new ts self.principal (.fromPermission p) (self.principal.holds p) payload

section Performed

variable {self : Planner ε} {plan : ActionPlan} {w w' : World ε} {t : List Event}

theorem Planner.entry_denial {tool : String} {p : Permission} {ts : Int}
    (hdenied : self.principal.holds p = false) : self.Entry p (self.denial tool p ts) :=
  ⟨ts, _, by rw [denial, hdenied]⟩

theorem Planner.entry_new {p : Permission} {ts : Int} {payload : Json}
    (hholds : self.principal.holds p = true) :
    self.Entry p (.new ts self.principal (.fromPermission p) true payload) :=
  ⟨ts, payload, by rw [hholds]⟩

/-- A performed action hands over nothing but the entry of its tool. -/
theorem handed_performed (htools : self.tools.Serves) (h : Planner.Performed self plan w t w')
    {e : Event} {event : AuditEvent} (he : e ∈ t) (hevent : e.handed = some event) :
    ∃ p, actionPermission plan.tool = some p ∧ self.Entry p event := by
  cases h with
  -- a refused action hands over its denial, and nothing else
  | denied p ts answer hp hdenied hpending =>
      simp only [List.mem_cons, List.not_mem_nil, or_false] at he
      rcases he with rfl | rfl | rfl
      · cases hevent
      · cases hevent
        exact ⟨p, hp, Planner.entry_denial hdenied⟩
      · cases hevent
  -- an action that ran hands over its entry before it runs
  | ran hauth h₁ hedit hpending =>
      simp only [List.mem_cons, List.mem_append] at he
      rcases he with rfl | he | he | he
      · cases hevent
      · cases hauth with
        | unprivileged h => cases he
        | privileged p ts answer hp hholds =>
            obtain rfl := List.mem_singleton.mp he
            cases hevent
            exact ⟨p, hp, Planner.entry_new hholds⟩
      · rw [handed_of_serves ((htools _ _ _).1 e he)] at hevent
        cases hevent
      · obtain ⟨⟨edit, answer, rfl⟩, -⟩ := hedit.mem he
        cases hevent

/-- That entry is there if the tool is privileged. -/
theorem entry_performed (h : Planner.Performed self plan w t w') {p : Permission}
    (hp : actionPermission plan.tool = some p) :
    ∃ e ∈ t, ∃ event, e.handed = some event ∧ self.Entry p event := by
  cases h with
  | denied q ts answer hq hdenied hpending =>
      obtain rfl : p = q := Option.some.inj (hp.symm.trans hq)
      exact ⟨.audit (self.denial plan.tool p ts) answer, by simp, _, rfl,
        Planner.entry_denial hdenied⟩
  | ran hauth h₁ hedit hpending =>
      cases hauth with
      | unprivileged h =>
          rw [hp] at h
          cases h
      | privileged q ts answer hq hholds =>
          obtain rfl : p = q := Option.some.inj (hp.symm.trans hq)
          exact ⟨.audit (.new ts self.principal (.fromPermission p) true
            (.obj [("tool", .str plan.tool)])) answer, by simp, _, rfl, Planner.entry_new hholds⟩

theorem speaksFor_performed (htools : self.tools.Serves) (thought : Thought)
    (h : Planner.Performed self plan w t w') :
    (speaksFor ε self.principal.tenantId).rel w (.planAction thought (.ok plan) :: t) w' := by
  intro e he event hevent
  rcases List.mem_cons.mp he with rfl | he
  · cases hevent
  · obtain ⟨p, -, ts, payload, rfl⟩ := handed_performed htools h he hevent
    exact ⟨rfl, rfl⟩

end Performed

namespace AgentServer

variable {server : AgentServer ε} {principal : Principal}

theorem speaksFor_audit (action : AuditAction) (granted : Bool) (payload : Json) :
    (speaksFor ε principal.tenantId).Obeys (audit principal action granted payload) := by
  intro w e he event hevent
  obtain rfl := List.mem_singleton.mp he
  cases hevent
  exact ⟨rfl, rfl⟩

theorem speaksFor_requireBit (required : Permission) :
    (speaksFor ε principal.tenantId).Obeys (requireBit principal required) := by
  unfold requireBit
  rcases checkPermission principal required with e | ⟨⟩
  · apply Law.obeys_bind (admitsQuiet_speaksFor.obeys_count _)
    intro _
    exact Law.obeys_bind (speaksFor_audit _ _ _) fun _ => Law.obeys_throw _
  · exact Law.obeys_pure _

theorem speaksFor_nesComplete (req : NesRequest) :
    (speaksFor ε principal.tenantId).Obeys (server.nesComplete principal req) := by
  apply Law.obeys_bind (speaksFor_requireBit _)
  intro _
  apply Law.obeys_bind (fun _ => speaksFor_of_handed (by simp [Core.now]))
  intro t0
  refine Law.obeys_bind (Law.obeys_mapError fun _ => speaksFor_of_handed ?_) fun candidates => ?_
  · simp [CompletionBackend.complete, Event.handed]
  apply Law.obeys_bind (fun _ => speaksFor_of_handed (by simp [Core.now]))
  intro t1
  apply Law.obeys_bind (admitsQuiet_speaksFor.obeys_count _)
  intro _
  exact Law.obeys_bind (speaksFor_audit _ _ _) fun _ => Law.obeys_pure _

theorem speaksFor_runAgent (htools : server.planner.tools.Serves) (goal : String) :
    (speaksFor ε principal.tenantId).Obeys (server.runAgent principal goal) := by
  apply Law.obeys_bind (speaksFor_requireBit _)
  intro _
  refine Law.obeys_bind (Law.obeys_mapError ?_) fun trace => ?_
  · exact Planner.obeys_run admitsQuiet_speaksFor (fun thought {_ _ _ _} h =>
      @speaksFor_performed _ (server.planner.withGovernance principal server.auditSink)
        _ _ _ _ htools thought h) goal
  · exact Law.obeys_bind (speaksFor_audit _ _ _) fun _ => Law.obeys_pure _

end AgentServer

/-- A reply is audited for the engine's principal. -/
theorem ChatEngine.speaksFor_reply (engine : ChatEngine ε) (session : ChatSession)
    (userMsg : String)
    (attachments : List Attachment) :
    (speaksFor ε engine.principal.tenantId).Obeys (engine.reply session userMsg attachments) := by
  have haudit : ∀ action granted payload,
      (speaksFor ε engine.principal.tenantId).Obeys (engine.audit action granted payload) := by
    intro action granted payload w e he event hevent
    obtain rfl := List.mem_singleton.mp he
    cases hevent
    exact ⟨rfl, rfl⟩
  -- each branch records what it is about to do or has refused, under the engine's principal
  unfold ChatEngine.reply
  rcases checkPermission engine.principal .generate with e | ⟨⟩
  · apply Law.obeys_bind (admitsQuiet_speaksFor.obeys_count _)
    intro _
    exact Law.obeys_bind (haudit _ _ _) fun _ => Law.obeys_throw _
  · apply Law.obeys_bind (haudit _ _ _)
    intro _
    apply Law.obeys_bind (admitsQuiet_speaksFor.obeys_think _ _)
    intro thought
    refine Law.obeys_bind (fun _ => speaksFor_of_handed ?_) fun plan => ?_
    · simp [Llm.planAction, Event.handed]
    exact Law.obeys_bind (admitsQuiet_speaksFor.obeys_count _) fun _ => Law.obeys_pure _

namespace AgentServer

variable {server : AgentServer ε} {principal : Principal}

theorem speaksFor_storeSession (id : String) (session : ChatSession) :
    (speaksFor ε tenantId).Obeys (storeSession id session) :=
  fun _ => speaksFor_of_handed (by simp [storeSession])

theorem speaksFor_chat (req : ChatRequest) :
    (speaksFor ε principal.tenantId).Obeys (server.chat principal req) := by
  apply Law.obeys_bind (speaksFor_requireBit _)
  intro _
  apply Law.obeys_bind Law.obeys_get
  intro w
  apply Law.obeys_bind (speaksFor_storeSession _ _)
  intro _
  refine Law.obeys_bind (Law.obeys_mapError ?_) fun ⟨next, reply⟩ => ?_
  · exact ChatEngine.speaksFor_reply (server.chatEngine.withGovernance principal server.auditSink)
      _ _ _
  · apply Law.obeys_bind (speaksFor_storeSession _ _)
    intro _
    exact Law.obeys_bind (speaksFor_audit _ _ _) fun _ => Law.obeys_pure _

/-- **A handler speaks for its principal's tenant.**  Whatever entry it hands over,
by itself or through the engine it runs, bears the tenant of the principal it was
called with, and no actor. -/
theorem speaksFor_handle (htools : server.planner.tools.Serves) (rpc : Rpc) :
    (speaksFor ε principal.tenantId).Obeys (server.handle principal rpc) := by
  cases rpc with
  | ping => exact Law.obeys_pure _
  | nesComplete req => exact Law.obeys_map _ (speaksFor_nesComplete req)
  | runAgent goal => exact Law.obeys_map _ (speaksFor_runAgent htools goal)
  | chat req => exact Law.obeys_map _ (speaksFor_chat req)

end AgentServer

end Handlers

/-! ### The tenant of a request -/

/-- The claims a token carries, verified or not. -/
def tokenClaims (crypto : HsCrypto) (token : String) : Option HsClaims :=
  match (splitDots token.toList).map String.ofList with
  | [_, payload, _] =>
      match crypto.decode payload with
      | .ok bytes => (crypto.parseClaims bytes).toOption
      | .error _ => none
  | _ => none

/-- The tenant a request claims to speak for. -/
def Request.claimedTenant (crypto : HsCrypto) (request : Request) : Option String :=
  ((extractBearer request.authorization).bind (tokenClaims crypto)).map (·.tenantId)

theorem tokenClaims_of_verifyHs256 {crypto : HsCrypto} {token secret : String} {now : Int}
    {claims : HsClaims} (h : Hs256Authenticator.verifyHs256 crypto token secret now = .ok claims) :
    tokenClaims crypto token = some claims := by
  unfold Hs256Authenticator.verifyHs256 at h
  unfold tokenClaims
  rcases heq : (splitDots token.toList).map String.ofList with
    - | ⟨header, - | ⟨payload, - | ⟨signature, - | ⟨_, _⟩⟩⟩⟩
  case cons.cons.cons.nil =>
    simp only [heq] at h ⊢
    split_ifs at h
    · rcases hdecode : crypto.decode payload with e | bytes
      · simp [hdecode, Except.mapError, bind, Except.bind] at h
      · rcases hparse : crypto.parseClaims bytes with e | found
        · simp [hdecode, hparse, Except.mapError, bind, Except.bind] at h
        · simp only [hdecode, hparse, Except.mapError, bind, Except.bind, pure, Except.pure] at h
          suffices found = claims by simp [hparse, Except.toOption, this]
          -- an expired token fails, every other one yields the claims found
          split at h
          · split at h
            · cases h
            · exact Except.ok.inj h
          · exact Except.ok.inj h
    · simp [bind, Except.bind, throw, throwThe, MonadExceptOf.throw] at h
  -- a token that is not cut in three is malformed
  all_goals simp [heq, throw, throwThe, MonadExceptOf.throw] at h

theorem tenantId_of_authenticate {crypto : HsCrypto} {self : Hs256Authenticator}
    {token : Option String} {now : Int} {principal : Principal}
    (h : (self.authenticator crypto).authenticate token now = .ok principal) :
    (token.bind (tokenClaims crypto)).map (·.tenantId) = some principal.tenantId := by
  rcases token with - | token
  · cases h
  · simp only [Hs256Authenticator.authenticator] at h
    rcases hverify : Hs256Authenticator.verifyHs256 crypto token self.secret now with e | claims
    · rw [hverify] at h
      -- a token that is not verified, or has another issuer or audience, gives no identity
      cases h
    · rw [hverify] at h
      dsimp only at h
      split at h
      · cases h
      · split at h
        · cases h
        · cases h
          simp [tokenClaims_of_verifyHs256 hverify, Principal.fromMask]

/-- Deriving the principal of a request leaves no event. -/
theorem principalFromRequest_cases (server : AgentServer ε) (authorization : Option String)
    (w : World ε) :
    (∃ principal now w', server.principalFromRequest authorization w = ⟨.ok principal, w', []⟩ ∧
      server.authenticator.authenticate (extractBearer authorization) now = .ok principal) ∨
    ∃ e w', server.principalFromRequest authorization w = ⟨.error e, w', []⟩ := by
  simp only [AgentServer.principalFromRequest, Core.now, Act.bind_apply, Act.modifyGet_apply,
    Outcome.andThen_mk_ok]
  rcases hauth : server.authenticator.authenticate (extractBearer authorization)
    (w.clock w.ticks / 1000) with e | principal
  · exact .inr ⟨_, _, rfl⟩
  · exact .inl ⟨principal, _, _, rfl, hauth⟩

/-- **Every event of a request speaks for the tenant the request claims**, and names
no actor.  The claim is read off the token once, when the caller is authenticated;
no handler asks for a tenant again, and none has another one to go by. -/
theorem handed_claimedTenant {crypto : HsCrypto} {self : Hs256Authenticator}
    {server : AgentServer ε}
    (hauth : server.authenticator = self.authenticator crypto)
    (htools : server.planner.tools.Serves) {request : Request} {w : World ε} {e : Event}
    (he : e ∈ (server.serve request w).trace) {event : AuditEvent}
    (hevent : e.handed = some event) :
    request.claimedTenant crypto = some event.tenantId ∧ event.actorId = none := by
  obtain ⟨authorization, rpc⟩ := request
  have hcalled : e ∈ (((server.principalFromRequest authorization) >>= fun principal =>
      server.handle principal rpc)
        { w with metrics := w.metrics.incRequests }).trace := by
    cases rpc with
    | ping => cases he
    | _ => simpa [AgentServer.serve, Core.count] using he
  -- who is turned away has no event to hand over
  rcases principalFromRequest_cases server authorization
    { w with metrics := w.metrics.incRequests } with
    ⟨principal, now, w', hprincipal, hfrom⟩ | ⟨err, w', hprincipal⟩
  · rw [Act.bind_apply_of_ok hprincipal, Outcome.after_nil] at hcalled
    obtain ⟨htenant, hactor⟩ := AgentServer.speaksFor_handle htools rpc w' e hcalled event hevent
    rw [hauth] at hfrom
    exact ⟨htenant ▸ tenantId_of_authenticate hfrom, hactor⟩
  · rw [Act.bind_apply, hprincipal] at hcalled
    cases hcalled

/-! ### Runs of requests -/

/-- The server takes a request. -/
def serveStep (server : AgentServer ε) (w : World ε) (request : Request) :
    World ε × List Event :=
  ((server.serve request w).state, (server.serve request w).trace)

/-- The events a server hands to the sink while it serves the requests, each
with its request. -/
def handedEvents (server : AgentServer ε) (w : World ε) (requests : List Request) :
    List (Request × AuditEvent) :=
  (Machine.run (Machine.tagged (serveStep server)) w requests).2.filterMap fun p =>
    p.2.handed.map (p.1, ·)

theorem claimedTenant_of_mem_handedEvents {crypto : HsCrypto} {self : Hs256Authenticator}
    {server : AgentServer ε} (hauth : server.authenticator = self.authenticator crypto)
    (htools : server.planner.tools.Serves) {w : World ε} {requests : List Request}
    {p : Request × AuditEvent} (hp : p ∈ handedEvents server w requests) :
    p.1.claimedTenant crypto = some p.2.tenantId ∧ p.2.actorId = none := by
  have hrun : ∀ p ∈ (Machine.run (Machine.tagged (serveStep server)) w requests).2, ∀ event,
      p.2.handed = some event →
        p.1.claimedTenant crypto = some event.tenantId ∧ event.actorId = none := by
    refine Machine.run_induction (P := fun _ _ (t : List (Request × Event)) => ∀ p ∈ t, ∀ event,
      p.2.handed = some event →
        p.1.claimedTenant crypto = some event.tenantId ∧ event.actorId = none) ?_ ?_ requests
    -- before the first request nothing is handed over
    · intro p hp
      cases hp
    intro _ request w' t ih p hp event hevent
    rcases List.mem_append.mp hp with hp | hp
    · exact ih p hp event hevent
    · obtain ⟨e, he, rfl⟩ := List.mem_map.mp hp
      exact handed_claimedTenant hauth htools he hevent
  obtain ⟨⟨request, e⟩, he, hevent⟩ := List.mem_filterMap.mp hp
  obtain ⟨event, hhanded, rfl⟩ := Option.map_eq_some_iff.mp hevent
  exact hrun _ he event hhanded

/-- The record calls of the handed events. -/
def recordTasks (sink : PgAuditSink) (handed : List (Request × AuditEvent)) : List RecordTask :=
  handed.map fun p => ⟨sink, p.2⟩

/-- The record calls that came to their end under a schedule: the request,
the time of the last statement, the event. -/
def finishedRecords (sha256 : List UInt8 → List UInt8) (sink : PgAuditSink)
    (handed : List (Request × AuditEvent)) (db : AuditDb) (schedule : List (Nat × Int)) :
    List (Request × Int × AuditEvent) :=
  (completions (recordSteps sha256 (recordTasks sink handed) db schedule)).filterMap fun c =>
    handed[c.1]?.map fun p => (p.1, c.2, p.2)

/-- Every record call that came to its end inserted a row, its own event's
under its own tenant. -/
def Delivered (sha256 : List UInt8 → List UInt8) (sink : PgAuditSink)
    (handed : List (Request × AuditEvent)) (db : AuditDb) (schedule : List (Nat × Int)) : Prop :=
  ∃ new, (runRecords sha256 (recordTasks sink handed) db schedule).1.db.rows = db.rows ++ new ∧
    List.Forall₂ (fun c r => sink.Wrote sha256 c.2 r ∧ r.tenantId = c.2.2.tenantId)
      (finishedRecords sha256 sink handed db schedule) new

section Delivery

variable {sink : PgAuditSink} {handed : List (Request × AuditEvent)} {db : AuditDb}
  {schedule : List (Nat × Int)}

theorem eventsOf_recordTasks (sink : PgAuditSink) (handed : List (Request × AuditEvent))
    (calls : List (Nat × Int)) :
    eventsOf (recordTasks sink handed) calls =
      (calls.filterMap fun c => handed[c.1]?.map fun p => (p.1, c.2, p.2)).map (·.2) := by
  simp [eventsOf, recordTasks, List.map_filterMap, Function.comp_def]

theorem mem_handed_of_mem_finishedRecords {c : Request × Int × AuditEvent}
    (hc : c ∈ finishedRecords sha256 sink handed db schedule) : (c.1, c.2.2) ∈ handed := by
  obtain ⟨call, -, hcall⟩ := List.mem_filterMap.mp hc
  obtain ⟨p, hp, rfl⟩ := Option.map_eq_some_iff.mp hcall
  exact List.mem_of_getElem? hp

/-- Under row-level security the events arrive exactly when the database
accepts each of them. -/
theorem delivered_iff_accepts (hrls : sink.client.bypassRls = false) :
    Delivered sha256 sink handed db schedule ↔
      ∀ c ∈ finishedRecords sha256 sink handed db schedule,
        sink.accepts db c.2.1 c.2.2 = true := by
  have hread : sink.ReadsRecorded sha256 db := fun hb => by simp [hrls] at hb
  have htasks : ∀ task ∈ recordTasks sink handed, task.sink = sink := by
    intro task htask
    obtain ⟨p, -, rfl⟩ := List.mem_map.mp htask
    rfl
  set finished := finishedRecords sha256 sink handed db schedule with hfinished
  have hdb : (runRecords sha256 (recordTasks sink handed) db schedule).1.db =
      sink.recordAll sha256 (finished.map (·.2)) db := by
    rw [runRecords_rls hrls htasks, eventsOf_recordTasks]
    rfl
  obtain ⟨-, rows, hrows, hwrote⟩ := PgAuditSink.recordAll_rows hread (finished.map (·.2))
  rw [Delivered, hdb, hrows]
  constructor
  · -- as many rows as calls: none was dropped
    rintro ⟨new, hnew, hall⟩ c hc
    obtain rfl := List.append_cancel_left hnew
    have hlen : ((finished.map (·.2)).filter fun p => sink.accepts db p.1 p.2).length =
        (finished.map (·.2)).length := by
      rw [hwrote.length_eq, List.length_map, hall.length_eq]
    exact List.length_filter_eq_length_iff.mp hlen c.2 (List.mem_map_of_mem hc)
  · intro hall
    have hfilter : (finished.map (·.2)).filter (fun p => sink.accepts db p.1 p.2) =
        finished.map (·.2) := by
      rw [List.filter_eq_self]
      intro p hp
      obtain ⟨c, hc, rfl⟩ := List.mem_map.mp hp
      exact hall c hc
    rw [hfilter, List.forall₂_map_left_iff] at hwrote
    refine ⟨rows, rfl, hwrote.imp fun c r hr => ⟨hr, ?_⟩⟩
    obtain ⟨prev, id, -, -, rfl⟩ := hr
    rfl

end Delivery

/-- **Delivery.**  With single sign-on and a sink connected for the
configured tenant, every completed record is a row exactly when each comes
from a request that claims this tenant, holds no NUL, and is inserted at a
time some partition covers. -/
theorem delivered_iff {config : CoreConfig} (hsso : config.ssoEnabled = true)
    (sha256 : List UInt8 → List UInt8) (crypto : HsCrypto) (bridge : HostBridge ε) (llm : Llm ε)
    (nesBackend : CompletionBackend ε) (auditSink : AuditSink ε) (w : World ε)
    (requests : List Request) (db : AuditDb) (schedule : List (Nat × Int)) :
    Delivered sha256 (.connect false (.ok ()) config.tenantId)
        (handedEvents (.fromConfig crypto bridge llm nesBackend auditSink config) w requests) db
        schedule ↔
      ∀ c ∈ finishedRecords sha256 (.connect false (.ok ()) config.tenantId)
          (handedEvents (.fromConfig crypto bridge llm nesBackend auditSink config) w requests) db
          schedule,
        c.1.claimedTenant crypto = some config.tenantId ∧ c.2.2.storable = true ∧
          db.covers c.2.1 = true := by
  rw [delivered_iff_accepts rfl]
  apply forall₂_congr
  intro c hc
  have hauth :
      (AgentServer.fromConfig crypto bridge llm nesBackend auditSink config).authenticator =
      Hs256Authenticator.authenticator crypto
        ⟨config.ssoSecret, config.ssoIssuer, config.ssoClientId⟩ := if_pos hsso
  obtain ⟨htenant, hactor⟩ := claimedTenant_of_mem_handedEvents hauth serves_basicToolExecutor
    (mem_handed_of_mem_finishedRecords hc)
  -- an event without an actor meets the foreign key in every database
  have hknows : db.knows c.2.2.actorId = true := by
    rw [hactor]
    rfl
  rw [htenant]
  simp only [PgAuditSink.accepts, PgAuditSink.connect, tenantMatches, hknows, Bool.and_eq_true,
    Bool.false_or, Option.getD_some, beq_iff_eq, Option.some.injEq]
  tauto

/-- The cryptography on the token of `globexRequest`, whose payload is
`{"tenant_id":"globex"}`. -/
def globexCrypto : HsCrypto where
  hmacSha256 _ _ :=
    [42, 13, 131, 84, 83, 165, 41, 127, 62, 92, 67, 195, 240, 176, 12, 202, 29, 46, 132, 96, 182,
     184, 87, 203, 105, 120, 215, 21, 28, 138, 57, 81]
  encode _ := "Kg2DVFOlKX8-XEPD8LAMyh0uhGC2uFfLaXjXFRyKOVE"
  decode _ := .ok (utf8 "\x7b\"tenant_id\":\"globex\"\x7d")
  parseClaims _ := .ok ⟨"globex", "", 0, none, none, none⟩

/-- A request of the tenant `globex` to run the agent, which its mask does
not allow. -/
def globexRequest : Request where
  authorization := some ("Bearer eyJhbGciOiJIUzI1NiJ9.eyJ0ZW5hbnRfaWQiOiJnbG9iZXgifQ." ++
    "Kg2DVFOlKX8-XEPD8LAMyh0uhGC2uFfLaXjXFRyKOVE")
  rpc := .runAgent "deploy"

/-- A deployment for the tenant `acme` with single sign-on. -/
def acmeConfig : CoreConfig := ⟨"acme", "admin", 63, true, "s3cret", "", "", 8⟩

/-- Its server, over collaborators that answer nothing of interest. -/
def acmeServer : AgentServer Unit :=
  .fromConfig globexCrypto ⟨fun _ => (.ok (), ·), fun _ => id⟩
    ⟨fun _ => (.ok ⟨"done"⟩, ·), fun _ => (.ok ⟨"finish", ""⟩, ·)⟩ ⟨fun _ => (.ok [], ·)⟩
    ⟨fun _ => (.ok (), ·)⟩ acmeConfig

/-- The hash function on the text of the denial. -/
def sha256OfGlobex : List UInt8 → List UInt8 := digestTable
  [("execute|8|globex|",
    [201, 204, 185, 183, 151, 3, 126, 64, 175, 226, 65, 133, 43, 54, 17, 67, 184, 141, 68, 227,
     234, 200, 190, 64, 1, 58, 255, 245, 41, 117, 187, 65])]

theorem delivered_iff_globex :
    Delivered sha256OfGlobex (.connect false (.ok ()) acmeConfig.tenantId)
        (handedEvents acmeServer (.initial ()) [globexRequest]) (.empty [(0, 10)] [])
        [(0, 1), (0, 2)] ↔
      ∀ c ∈ finishedRecords sha256OfGlobex (.connect false (.ok ()) acmeConfig.tenantId)
          (handedEvents acmeServer (.initial ()) [globexRequest]) (.empty [(0, 10)] [])
          [(0, 1), (0, 2)],
        c.1.claimedTenant globexCrypto = some acmeConfig.tenantId ∧ c.2.2.storable = true ∧
          (AuditDb.empty [(0, 10)] []).covers c.2.1 = true :=
  delivered_iff rfl _ _ _ _ _ _ _ _ _ _

/-- The denial of the request is recorded nowhere: its row is `globex`'s, and
the connection is `acme`'s. -/
theorem denial_dropped :
    ¬ Delivered sha256OfGlobex (.connect false (.ok ()) acmeConfig.tenantId)
      (handedEvents acmeServer (.initial ()) [globexRequest]) (.empty [(0, 10)] [])
      [(0, 1), (0, 2)] := by
  rw [delivered_iff_accepts rfl]
  intro haccepts
  have hrejected : (finishedRecords sha256OfGlobex (.connect false (.ok ()) acmeConfig.tenantId)
      (handedEvents acmeServer (.initial ()) [globexRequest]) (.empty [(0, 10)] [])
      [(0, 1), (0, 2)]).all (fun c => (PgAuditSink.connect false (.ok ())
        acmeConfig.tenantId).accepts (.empty [(0, 10)] []) c.2.1 c.2.2) = false := by
    decide +kernel
  rw [List.all_eq_true.mpr haccepts] at hrejected
  cases hrejected

end AgenticIde
