/-
AgenticIde/ChatTenants.lean

What a chat prompt depends on, across tenants.

The sessions of a server are one map, keyed by the id the client chose; the tenant of the
caller is not part of the key.  A request therefore continues whatever conversation has its
id, and the prompt shows that conversation.  `prompts_of_exclusive` compares a run with the
run of one tenant's requests alone: their prompts are the same as long as no request of the
tenant names a session in which another tenant was answered before.  The invariant is that
the two runs agree on every such session.

The LLM is a fixed function of what it is shown (`Llm.fixed`), as otherwise two runs could
differ for no reason of the server's.  The condition `Exclusive` is one on the calls and on
who was answered, and not on prompts: it names the sessions, the rights of the callers and
the order.

Three lemmas about one call carry the run.  A call without the right shows nothing and
changes no session; a call with it shows the session it names and moves that one alone
(`chat_granted`); and what it does there depends on that session and on nothing else of the
server, so two worlds that agree on the session agree on the prompt, and on the session
after it.  Calls of other tenants only concern sessions that are shared from then on.
-/
import AgenticIde.Server

namespace AgenticIde

variable {ε : Type}

/-- An LLM whose answers are a fixed function of what it is shown. -/
def Llm.fixed (think : String → Except String Thought) (plan : Thought → Except String ActionPlan) :
    Llm ε where
  onThink context env := (think context, env)
  onPlan thought env := (plan thought, env)

/-- The prompt an event hands to the LLM. -/
def Event.prompt : Event → Option String
  | think context _ => some context
  | _ => none

/-! ### One reply -/

section Reply

variable (think : String → Except String Thought) (plan : Thought → Except String ActionPlan)

/-- What a fixed LLM makes of a session and a message: the next session and
the reply. -/
def answer (session : ChatSession) (userMsg : String) (attachments : List Attachment) :
    Except String (ChatSession × ChatReply) :=
  match think (session.composePrompt userMsg attachments) with
  | .error e => .error e
  | .ok thought =>
      match plan thought with
      | .error e => .error e
      | .ok plan =>
          let content := s!"(assistant) {thought.text}"
          .ok ((session.pushUser userMsg).pushAssistant content,
            ⟨content, ChatEngine.suggestions thought plan⟩)

variable {think plan}

/-- A granted reply shows the LLM one prompt and is its answer. -/
theorem reply_granted (engine : ChatEngine ε) (hllm : engine.llm = Llm.fixed think plan)
    (hholds : engine.principal.holds .generate = true) (session : ChatSession) (userMsg : String)
    (attachments : List Attachment) (w : World ε) :
    ∃ w' t, engine.reply session userMsg attachments w =
        ⟨answer think plan session userMsg attachments, w', t⟩ ∧
      t.filterMap Event.prompt = [session.composePrompt userMsg attachments] ∧
      w'.sessions = w.sessions := by
  obtain ⟨ev, a, w₁, haudit, h₁⟩ : ∃ ev a w₁, engine.audit .generate true
      (.obj [("user_msg", .str userMsg), ("attachments", .num attachments.length)]) w =
        ⟨.ok (), w₁, [.audit ev a]⟩ ∧ w₁.sessions = w.sessions := ⟨_, _, _, rfl, rfl⟩
  have hthink : ∀ context, engine.llm.think context w₁ =
      ⟨think context, w₁, [.think context (think context)]⟩ := by
    intro context
    rw [hllm]
    rfl
  have hplan : ∀ thought, engine.llm.planAction thought w₁ =
      ⟨plan thought, w₁, [.planAction thought (plan thought)]⟩ := by
    intro thought
    rw [hllm]
    rfl
  simp only [ChatEngine.reply, checkPermission_of_holds hholds, Act.bind_apply, haudit,
    Outcome.andThen_mk_ok, hthink, answer]
  rcases hth : think (session.composePrompt userMsg attachments) with err | thought
  · exact ⟨w₁, _, rfl, rfl, h₁⟩
  · -- planning shows the thought, not another prompt
    simp only [Outcome.andThen_mk_ok, Act.bind_apply, hplan]
    rcases hpl : plan thought with err | plan'
    · refine ⟨w₁, [.audit ev a, .think (session.composePrompt userMsg attachments) (.ok thought),
        .planAction thought (.error err)], rfl, rfl, h₁⟩
    · refine ⟨{ w₁ with metrics := w₁.metrics.incLlmCalls },
        [.audit ev a, .think (session.composePrompt userMsg attachments) (.ok thought),
          .planAction thought (.ok plan')], rfl, rfl, h₁⟩

end Reply

/-! ### One call -/

/-- A chat request of an authenticated principal. -/
structure ChatCall where
  principal : Principal
  request : ChatRequest

/-- The tenant of a call, and the prompts it hands to the LLM. -/
def chatStep (server : AgentServer ε) (w : World ε) (c : ChatCall) :
    World ε × List (String × List String) :=
  ((server.chat c.principal c.request w).state,
    [(c.principal.tenantId, (server.chat c.principal c.request w).trace.filterMap Event.prompt)])

/-- The call is answered, not refused and not failed. -/
def Answered (server : AgentServer ε) (w : World ε) (c : ChatCall) : Prop :=
  ∃ messages, (server.chat c.principal c.request w).result = .ok messages

section Call

variable {think : String → Except String Thought} {plan : Thought → Except String ActionPlan}
  {server : AgentServer ε} (hllm : server.chatEngine.llm = Llm.fixed think plan)

/-- A refused call shows the LLM nothing and touches no session. -/
theorem chat_denied (server : AgentServer ε) {c : ChatCall}
    (hdenied : c.principal.holds .generate = false) (w : World ε) :
    (chatStep server w c).2 = [(c.principal.tenantId, [])] ∧
      (chatStep server w c).1.sessions = w.sessions ∧ ¬ Answered server w c := by
  have hchat : ∃ e w' ev, server.chat c.principal c.request w =
      ⟨.error e, w', [.spawnAudit ev]⟩ ∧ w'.sessions = w.sessions := by
    simp only [AgentServer.chat, AgentServer.requireBit, checkPermission_of_not_holds hdenied]
    exact ⟨_, _, _, rfl, rfl⟩
  obtain ⟨e, w', ev, hchat, hsessions⟩ := hchat
  refine ⟨?_, ?_, ?_⟩
  · simp [chatStep, hchat, Event.prompt]
  · simpa [chatStep, hchat] using hsessions
  · rintro ⟨messages, hmessages⟩
    simp [hchat] at hmessages

/-- The answer a granted call gets, from the session it names. -/
def ChatCall.answer (think : String → Except String Thought)
    (plan : Thought → Except String ActionPlan) (c : ChatCall) (w : World ε) :
    Except String (ChatSession × ChatReply) :=
  AgenticIde.answer think plan (AgentServer.session c.request.sessionId w) c.request.message
    (parseAttachments c.request.attachments)

include hllm

/-- What a granted call does: it shows the LLM the session it names, answers
with its reply or fails, and keeps that session alone, moved on when the call
is answered. -/
theorem chat_apply_granted {c : ChatCall} (hholds : c.principal.holds .generate = true)
    (w : World ε) :
    ∃ w' t, server.chat c.principal c.request w =
        ⟨match c.answer think plan w with
          | .ok r => .ok (AgentServer.replyMessages r.2)
          | .error e => .error ⟨.internal, e⟩, w', t⟩ ∧
      t.filterMap Event.prompt =
        [(AgentServer.session c.request.sessionId w).composePrompt c.request.message
          (parseAttachments c.request.attachments)] ∧
      w'.sessions = Function.update w.sessions c.request.sessionId
        (some (match c.answer think plan w with
          | .ok r => r.1
          | .error _ => AgentServer.session c.request.sessionId w)) := by
  -- The session is stored before the model is asked, so that a first request whose reply
  -- fails leaves an empty session, which is what an absent one counts as.
  set current := AgentServer.session c.request.sessionId w with hcurrent
  set w₁ : World ε :=
    { w with sessions := Function.update w.sessions c.request.sessionId (some current) } with hw₁
  obtain ⟨w₂, t, hreply, hprompts, h₂⟩ := reply_granted
    (server.chatEngine.withGovernance c.principal server.auditSink) hllm hholds current
    c.request.message (parseAttachments c.request.attachments) w₁
  simp only [AgentServer.chat, AgentServer.requireBit, checkPermission_of_holds hholds,
    Act.bind_apply, Act.pure_apply, Outcome.andThen_mk_ok, Act.get_apply,
    AgentServer.storeSession, Act.modify_apply, Act.mapError_apply, ← hcurrent, ← hw₁, hreply]
  -- A failed reply leaves the session as it was stored; an answered one is stored anew.
  rcases hanswer : c.answer think plan w with err | ⟨next, reply⟩
  · have hfail : answer think plan current c.request.message
        (parseAttachments c.request.attachments) = .error err := hanswer
    refine ⟨w₂, t, ?_, hprompts, h₂⟩
    simp [hfail, Except.mapError]
  · have hok : answer think plan current c.request.message
        (parseAttachments c.request.attachments) = .ok (next, reply) := hanswer
    obtain ⟨w₃, ev, haudit, h₃⟩ : ∃ w₃ ev, (AgentServer.audit c.principal .generate true
        (.obj [("attachments", .num c.request.attachments.length)]) : Core ε Status Unit)
          { w₂ with sessions := Function.update w₂.sessions c.request.sessionId (some next) } =
        ⟨.ok (), w₃, [.spawnAudit ev]⟩ ∧
          w₃.sessions = Function.update w₂.sessions c.request.sessionId (some next) :=
      ⟨_, _, rfl, rfl⟩
    refine ⟨w₃, t ++ [.spawnAudit ev], ?_, ?_, ?_⟩
    · simp [hok, Except.mapError, Except.map, haudit]
    · rw [List.filterMap_append, hprompts]
      rfl
    · rw [h₃, h₂, hw₁, Function.update_idem]

/-- A granted call shows the LLM the session it names; that session moves on
when it is answered, and no other one does. -/
theorem chat_granted {c : ChatCall} (hholds : c.principal.holds .generate = true) (w : World ε) :
    (chatStep server w c).2 = [(c.principal.tenantId,
      [(AgentServer.session c.request.sessionId w).composePrompt c.request.message
        (parseAttachments c.request.attachments)])] ∧
    (Answered server w c ↔ ∃ r, c.answer think plan w = .ok r) ∧
    ∀ id, AgentServer.session id (chatStep server w c).1 =
      if id = c.request.sessionId then
        match c.answer think plan w with
        | .ok r => r.1
        | .error _ => AgentServer.session id w
      else AgentServer.session id w := by
  obtain ⟨w', t, hchat, hprompts, hsessions⟩ := chat_apply_granted hllm hholds w
  refine ⟨?_, ?_, fun id => ?_⟩
  · simp [chatStep, hchat, hprompts]
  · rw [Answered, hchat]
    rcases c.answer think plan w with err | ⟨next, reply⟩ <;> simp
  · show AgentServer.session id (server.chat c.principal c.request w).state = _
    rw [hchat]
    by_cases hid : id = c.request.sessionId
    · subst hid
      simp [AgentServer.session, hsessions]
    · simp [AgentServer.session, hsessions, hid]

end Call

/-! ### Runs -/

/-- A server's chat calls, one after the other. -/
def runChat (server : AgentServer ε) (w : World ε) (calls : List ChatCall) :
    World ε × List (String × List String) :=
  Machine.run (chatStep server) w calls

/-- The prompts of each of the tenant's calls. -/
def promptsOf (tenantId : String) (outputs : List (String × List String)) :
    List (String × List String) :=
  outputs.filter (·.1 == tenantId)

/-- Another tenant was answered in the session `id` during `calls`.  A call that was
refused or failed does not count, as it leaves the session as it was. -/
def Shared (server : AgentServer ε) (w : World ε) (tenantId : String) (calls : List ChatCall)
    (id : String) : Prop :=
  ∃ pre c post, calls = pre ++ c :: post ∧ c.principal.tenantId ≠ tenantId ∧
    c.request.sessionId = id ∧ Answered server (runChat server w pre).1 c

/-- No permitted call of the tenant names a session in which another tenant
was answered before. -/
def Exclusive (server : AgentServer ε) (w : World ε) (tenantId : String)
    (calls : List ChatCall) : Prop :=
  ∀ pre c post, calls = pre ++ c :: post → c.principal.tenantId = tenantId →
    c.principal.holds .generate = true → ¬ Shared server w tenantId pre c.request.sessionId

theorem Shared.mono {server : AgentServer ε} {w : World ε} {tenantId id : String}
    {calls : List ChatCall} (h : Shared server w tenantId calls id) (c : ChatCall) :
    Shared server w tenantId (calls ++ [c]) id := by
  obtain ⟨pre, c', post, rfl, hc⟩ := h
  exact ⟨pre, c', post ++ [c], by simp, hc⟩

/-- The two runs agree on every session no other tenant was answered in.  The first
is the run of all calls, the second that of the tenant's own. -/
def Agree (server : AgentServer ε) (w₀ : World ε) (tenantId : String) (calls : List ChatCall)
    (w w' : World ε) : Prop :=
  w = (runChat server w₀ calls).1 ∧
    ∀ id, ¬ Shared server w₀ tenantId calls id →
      AgentServer.session id w = AgentServer.session id w'

section Runs

variable {think : String → Except String Thought} {plan : Thought → Except String ActionPlan}
  {server : AgentServer ε} (hllm : server.chatEngine.llm = Llm.fixed think plan) {w₀ : World ε}
  {tenantId : String} {calls : List ChatCall} {c : ChatCall} {w w' : World ε}

theorem session_congr {w w' : World ε} (h : w.sessions = w'.sessions) (id : String) :
    AgentServer.session id w = AgentServer.session id w' := by
  simp only [AgentServer.session, h]

theorem runChat_concat (calls : List ChatCall) (c : ChatCall) :
    (runChat server w₀ (calls ++ [c])).1 = (chatStep server (runChat server w₀ calls).1 c).1 := by
  rw [runChat, Machine.run_concat]
  rfl

include hllm

/-- A call of the tenant keeps the agreement, and shows the LLM the same. -/
theorem Agree.own (hown : c.principal.tenantId = tenantId)
    (hexclusive : Exclusive server w₀ tenantId (calls ++ [c]))
    (h : Agree server w₀ tenantId calls w w') :
    Agree server w₀ tenantId (calls ++ [c]) (chatStep server w c).1 (chatStep server w' c).1 ∧
      (chatStep server w c).2 = (chatStep server w' c).2 := by
  obtain ⟨rfl, hagree⟩ := h
  have hagree' : ∀ id, ¬ Shared server w₀ tenantId (calls ++ [c]) id →
      AgentServer.session id (runChat server w₀ calls).1 = AgentServer.session id w' :=
    fun id hid => hagree id fun hshared => hid (hshared.mono c)
  rcases hholds : c.principal.holds .generate with - | -
  · obtain ⟨hout, hsessions, -⟩ := chat_denied server hholds (runChat server w₀ calls).1
    obtain ⟨hout', hsessions', -⟩ := chat_denied server hholds w'
    refine ⟨⟨(runChat_concat calls c).symm, fun id hid => ?_⟩, hout.trans hout'.symm⟩
    rw [session_congr hsessions, session_congr hsessions', hagree' id hid]
  · -- the session it names is one the runs agree on, so the answers are equal
    obtain ⟨hout, -, hsession⟩ := chat_granted hllm hholds (runChat server w₀ calls).1
    obtain ⟨hout', -, hsession'⟩ := chat_granted hllm hholds w'
    have hnamed := hagree _ (hexclusive calls c [] rfl hown hholds)
    have hanswer : c.answer think plan (runChat server w₀ calls).1 = c.answer think plan w' := by
      rw [ChatCall.answer, ChatCall.answer, hnamed]
    refine ⟨⟨(runChat_concat calls c).symm, fun id hid => ?_⟩, ?_⟩
    · rw [hsession, hsession', hanswer, hagree' id hid]
    · rw [hout, hout', hnamed]

/-- A call of another tenant keeps it, as its session is shared if it was
answered. -/
theorem Agree.other (hother : c.principal.tenantId ≠ tenantId)
    (h : Agree server w₀ tenantId calls w w') :
    Agree server w₀ tenantId (calls ++ [c]) (chatStep server w c).1 w' := by
  obtain ⟨rfl, hagree⟩ := h
  refine ⟨(runChat_concat calls c).symm, fun id hid => ?_⟩
  rw [← hagree id fun hshared => hid (hshared.mono c)]
  rcases hholds : c.principal.holds .generate with - | -
  · exact session_congr (chat_denied server hholds _).2.1 id
  · obtain ⟨-, hanswered, hsession⟩ := chat_granted hllm hholds (runChat server w₀ calls).1
    rw [hsession]
    split
    · rename_i hnamed
      -- `id` is not shared, so the call was not answered and the session stays
      have hunanswered : ¬ ∃ r, c.answer think plan (runChat server w₀ calls).1 = .ok r :=
        fun hr => hid ⟨calls, c, [], by simp, hother, hnamed.symm, hanswered.mpr hr⟩
      rcases hanswer : c.answer think plan (runChat server w₀ calls).1 with err | r
      · rfl
      · exact absurd ⟨r, hanswer⟩ hunanswered
    · rfl

end Runs

/-- The server with another chat LLM. -/
def AgentServer.withChatLlm (server : AgentServer ε) (llm : Llm ε) : AgentServer ε :=
  { server with chatEngine := { server.chatEngine with llm := llm } }

/-- **Chat prompts of a tenant.**  With an LLM that is a fixed function of the
prompt, in every run whose calls are exclusive the prompts of the tenant's
calls are those of the run of these calls alone. -/
theorem prompts_of_exclusive (server : AgentServer ε) (think : String → Except String Thought)
    (plan : Thought → Except String ActionPlan) (w : World ε) (tenantId : String)
    (calls : List ChatCall)
    (hexclusive : Exclusive (server.withChatLlm (.fixed think plan)) w tenantId calls) :
    promptsOf tenantId (runChat (server.withChatLlm (.fixed think plan)) w calls).2 =
      promptsOf tenantId (runChat (server.withChatLlm (.fixed think plan)) w
        (calls.filter (·.principal.tenantId == tenantId))).2 := by
  set served := server.withChatLlm (.fixed think plan) with hserved
  have hllm : served.chatEngine.llm = Llm.fixed think plan := rfl
  have hunwind := @Machine.outputs_eq_of_unwinding _ _ _ (chatStep served) w
    (fun c => c.principal.tenantId != tenantId) (Exclusive served w tenantId)
    (Agree served w tenantId) (·.1 == tenantId) ?_ ?_ ?_ ?_ calls hexclusive
  · simpa [promptsOf, runChat, bne] using hunwind.2
  · -- a prefix of an exclusive run is exclusive
    intro calls c h pre c' post hsplit
    exact h pre c' (post ++ [c]) (by simp [hsplit])
  · exact ⟨rfl, fun _ _ => rfl⟩
  · intro calls c w₁ w₂ hok hvisible hagree
    obtain ⟨hagree', hout⟩ := hagree.own hllm (by simpa using hvisible) hok
    exact ⟨hagree', by rw [hout]⟩
  · intro calls c w₁ w₂ hok hhidden hagree
    have hother : c.principal.tenantId ≠ tenantId := by simpa using hhidden
    refine ⟨hagree.other hllm hother, ?_⟩
    simp [chatStep, hother]

/-! ### Two tenants on one server -/

/-- A server that grants what its tokens claim; its LLM always answers. -/
def chatServer : AgentServer Unit where
  planner :=
    { llm := .fixed (fun _ => .ok ⟨"noted"⟩) fun _ => .ok ⟨"", ""⟩
      tools := BasicToolExecutor
      validator := BasicValidator 8
      bridge := ⟨fun _ => (.ok (), ·), fun _ => id⟩
      maxSteps := 8
      principal := .all "single" "core"
      audit := ⟨fun _ => (.ok (), ·)⟩ }
  nesBackend := ⟨fun _ => (.ok [], ·)⟩
  chatEngine :=
    { llm := .fixed (fun _ => .ok ⟨"noted"⟩) fun _ => .ok ⟨"", ""⟩
      perms := PermissionSet.all
      principal := .all "single" "core"
      auditSink := ⟨fun _ => (.ok (), ·)⟩ }
  authenticator := NoopAuthenticator (.all "single" "core")
  principal := .all "single" "core"
  auditSink := ⟨fun _ => (.ok (), ·)⟩

/-- A message of the tenant `globex`. -/
def globexCall (session : String) : ChatCall :=
  ⟨.all "globex" "bob", ⟨session, "the key is 42", []⟩⟩

/-- A message of the tenant `acme`. -/
def acmeCall (session : String) : ChatCall :=
  ⟨.all "acme" "ana", ⟨session, "hello", []⟩⟩

theorem prompts_of_exclusive_sessions :
    promptsOf "acme" (runChat (chatServer.withChatLlm
        (.fixed (fun _ => .ok ⟨"noted"⟩) fun _ => .ok ⟨"", ""⟩)) (.initial ())
          [globexCall "g", acmeCall "a"]).2 =
      promptsOf "acme" (runChat (chatServer.withChatLlm
        (.fixed (fun _ => .ok ⟨"noted"⟩) fun _ => .ok ⟨"", ""⟩)) (.initial ())
          ([globexCall "g", acmeCall "a"].filter (·.principal.tenantId == "acme"))).2 := by
  apply prompts_of_exclusive chatServer _ _ _ "acme" _
  rintro pre c post hsplit hown - ⟨pre', c', post', hpre, hother, hid, -⟩
  have hc : c = globexCall "g" ∨ c = acmeCall "a" := List.mem_pair.mp (by simp [hsplit])
  have hc' : c' = globexCall "g" ∨ c' = acmeCall "a" := List.mem_pair.mp (by simp [hsplit, hpre])
  rcases hc with rfl | rfl
  · exact absurd hown (by decide)
  · rcases hc' with rfl | rfl
    · exact absurd hid (by decide)
    · exact hother rfl

/-- In a session of the tenant `globex`, a request of `acme` shows the LLM
what `globex` said. -/
theorem prompts_shared :
    ∃ calls, promptsOf "acme" (runChat (chatServer.withChatLlm
        (.fixed (fun _ => .ok ⟨"noted"⟩) fun _ => .ok ⟨"", ""⟩)) (.initial ()) calls).2 ≠
      promptsOf "acme" (runChat (chatServer.withChatLlm
        (.fixed (fun _ => .ok ⟨"noted"⟩) fun _ => .ok ⟨"", ""⟩)) (.initial ())
          (calls.filter (·.principal.tenantId == "acme"))).2 := by
  refine ⟨[globexCall "s", acmeCall "s"], ?_⟩
  decide +kernel

end AgenticIde
