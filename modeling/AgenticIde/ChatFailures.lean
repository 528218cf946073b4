/-
AgenticIde/ChatFailures.lean

Chat turns that fail leave no trace in their session.

The program's `reply` changes the session it is given in place: what it has changed by the
time it fails stays changed.  `replyMut` is that program, with the session a part of the
state, and it is `reply` (`replyMut_apply`) because both pushes come after everything that
may fail.  So the calls of a conversation that returned an error may be left out of it
(`run_kept_calls`).

A call brings its own engine and its own LLM: the principal may lose the right in the middle
of a conversation, and the model answers as it likes.  Three things make a call fail, the
missing right, the model that thinks and the model that plans; the first is found before
anything is shown to the model, the others after.

What the world beside the session does is not part of the law.  The failed calls leave
entries in the log and in the metrics, and they take time; what a call answers does not
depend on these (`step_spec`), and that is why the calls can be taken out.
-/
import AgenticIde.ChatTenants
import AgenticIde.Lib.Zoom

namespace AgenticIde

variable {ε : Type}

namespace ChatEngine

/-- Non-streaming reply, on the session in the state. -/
def replyMut (self : ChatEngine ε) (userMsg : String) (attachments : List Attachment) :
    Act (World ε × ChatSession) Event String ChatReply :=
  match checkPermission self.principal .generate with
  | .error e => do
      Act.onFst (Core.count .incDenials)
      Act.onFst (self.audit .generate false
        (.obj [("reason", .str e.toString), ("user_msg", .str userMsg)]))
      Act.throw e.toString
  | .ok () => do
      Act.onFst (self.audit .generate true
        (.obj [("user_msg", .str userMsg), ("attachments", .num attachments.length)]))
      let session ← Act.getSnd
      let prompt := session.composePrompt userMsg attachments
      let thought ← Act.onFst (self.llm.think prompt)
      let plan ← Act.onFst (self.llm.planAction thought)
      Act.onFst (Core.count .incLlmCalls)
      let content := s!"(assistant) {thought.text}"
      Act.modifySnd fun session => session.pushUser userMsg
      Act.modifySnd fun session => session.pushAssistant content
      return ⟨content, suggestions thought plan⟩

/-- An audit never fails a reply. -/
theorem audit_apply (self : ChatEngine ε) (action : AuditAction) (granted : Bool) (payload : Json)
    (w : World ε) : ∃ w' t, self.audit action granted payload w = ⟨.ok (), w', t⟩ := ⟨_, _, rfl⟩

/-- A reply that is refused shows the LLM nothing. -/
theorem reply_denied (self : ChatEngine ε) (hdenied : self.principal.holds .generate = false)
    (session : ChatSession) (userMsg : String) (attachments : List Attachment) (w : World ε) :
    ∃ w' t, self.reply session userMsg attachments w =
        ⟨.error (PermissionDenied.toString ⟨.generate, self.principal.perms.mask⟩), w', t⟩ ∧
      t.filterMap Event.prompt = [] := by
  unfold reply
  rw [checkPermission_of_not_holds hdenied]
  exact ⟨_, _, rfl, rfl⟩

/-- The session after a reply: the new one, or after an error the one before. -/
def sessionAfter (session : ChatSession) : Except String (ChatSession × ChatReply) → ChatSession
  | .ok r => r.1
  | .error _ => session

/-- **The reply in place is the reply.**  The messages are pushed behind the last
place where it can fail, so after an error the session is the one before, and
otherwise the one that `reply` returns; the world and the events are the same. -/
theorem replyMut_apply (self : ChatEngine ε) (userMsg : String) (attachments : List Attachment)
    (w : World ε) (session : ChatSession) :
    self.replyMut userMsg attachments (w, session) =
      ⟨(self.reply session userMsg attachments w).result.map Prod.snd,
        ((self.reply session userMsg attachments w).state,
          sessionAfter session (self.reply session userMsg attachments w).result),
        (self.reply session userMsg attachments w).trace⟩ := by
  unfold replyMut reply
  -- By the three places where the reply can fail; both pushes stand behind the last of
  -- them.
  rcases checkPermission self.principal .generate with e | ⟨⟩
  · obtain ⟨w₁, t, haudit⟩ := audit_apply self .generate false
      (.obj [("reason", .str e.toString), ("user_msg", .str userMsg)])
      { w with metrics := w.metrics.incDenials }
    simp only [Act.bind_apply, Act.onFst_apply, Core.count, Act.modify_apply,
      Outcome.andThen_mk_ok, haudit, Act.throw_apply]
    rfl
  · obtain ⟨w₁, t, haudit⟩ := audit_apply self .generate true
      (.obj [("user_msg", .str userMsg), ("attachments", .num attachments.length)]) w
    simp only [Act.bind_apply, Act.onFst_apply, haudit, Outcome.andThen_mk_ok, Act.getSnd_apply]
    rcases self.llm.think (session.composePrompt userMsg attachments) w₁ with ⟨e | thought, w₂, t₂⟩
    · rfl
    · simp only [Outcome.andThen_mk_ok, Act.bind_apply, Act.onFst_apply]
      rcases self.llm.planAction thought w₂ with ⟨e | plan, w₃, t₃⟩ <;> rfl

end ChatEngine

/-! ### Conversations with failures -/

/-- A call of `reply`, with the engine it is made on and an LLM of its own. -/
structure ReplyCall (ε : Type) where
  engine : ChatEngine ε
  think : String → Except String Thought
  plan : Thought → Except String ActionPlan
  userMsg : String
  attachments : List Attachment

namespace ReplyCall

/-- The engine, with the LLM of the call. -/
def chatEngine (c : ReplyCall ε) : ChatEngine ε :=
  { c.engine with llm := Llm.fixed c.think c.plan }

/-- What a call does; the output is the prompts it shows the LLM, and what it
returns. -/
def step (s : World ε × ChatSession) (c : ReplyCall ε) :
    (World ε × ChatSession) × List (List String × Except String ChatReply) :=
  let o := c.chatEngine.replyMut c.userMsg c.attachments s
  (o.state, [(o.trace.filterMap Event.prompt, o.result)])

/-- The call returned a reply. -/
def returned (output : List String × Except String ChatReply) : Bool :=
  match output.2 with
  | .ok _ => true
  | .error _ => false

theorem step_of_reply (c : ReplyCall ε) {session : ChatSession} {w w' : World ε}
    {r : Except String (ChatSession × ChatReply)} {t : List Event}
    (h : c.chatEngine.reply session c.userMsg c.attachments w = ⟨r, w', t⟩) :
    c.step (w, session) = ((w', ChatEngine.sessionAfter session r),
      [(t.filterMap Event.prompt, r.map Prod.snd)]) := by
  have hreply := ChatEngine.replyMut_apply c.chatEngine c.userMsg c.attachments w session
  rw [h] at hreply
  unfold step
  rw [hreply]

/-- What a call makes of a session: its output, and the session after it. -/
theorem step_spec (c : ReplyCall ε) (session : ChatSession) :
    ∃ output session', (returned output = false → session' = session) ∧
      ∀ w, (c.step (w, session)).2 = [output] ∧ (c.step (w, session)).1.2 = session' := by
  -- Without the right the model is not asked; with it, what happens is a function of the
  -- session and of the answers of the model.
  rcases hholds : c.chatEngine.principal.holds .generate with - | -
  · refine ⟨([], .error (PermissionDenied.toString
      ⟨.generate, c.chatEngine.principal.perms.mask⟩)), session, fun _ => rfl, fun w => ?_⟩
    obtain ⟨w', t, hreply, hprompts⟩ :=
      ChatEngine.reply_denied c.chatEngine hholds session c.userMsg c.attachments w
    rw [step_of_reply c hreply, hprompts]
    exact ⟨rfl, rfl⟩
  · refine ⟨([session.composePrompt c.userMsg c.attachments],
      (answer c.think c.plan session c.userMsg c.attachments).map Prod.snd),
      ChatEngine.sessionAfter session (answer c.think c.plan session c.userMsg c.attachments),
      fun hfailed => ?_, fun w => ?_⟩
    · cases hanswer : answer c.think c.plan session c.userMsg c.attachments with
      | error e => rfl
      | ok r =>
          rw [hanswer] at hfailed
          cases hfailed
    · obtain ⟨w', t, hreply, hprompts, -⟩ :=
        reply_granted c.chatEngine rfl hholds session c.userMsg c.attachments w
      rw [step_of_reply c hreply, hprompts]
      exact ⟨rfl, rfl⟩

end ReplyCall

/-- **Failed turns leave no trace.**  Leaving out the calls that returned an error
changes neither the session in the end, nor what the other calls showed the
LLM, nor what they returned. -/
theorem run_kept_calls (w : World ε) (session : ChatSession) (calls : List (ReplyCall ε)) :
    let full := Machine.run ReplyCall.step (w, session) calls
    let rest := Machine.run ReplyCall.step (w, session)
      (Machine.kept ReplyCall.returned ReplyCall.step (w, session) calls)
    rest.1.2 = full.1.2 ∧ rest.2 = full.2.filter ReplyCall.returned := by
  intro full rest
  refine Machine.run_kept (R := fun s s' : World ε × ChatSession => s'.2 = s.2)
    (fun s c => ⟨_, rfl⟩) ?_ ?_ rfl calls
  · -- the outputs of the same session are the same
    rintro ⟨w₁, session₁⟩ ⟨w₂, session₂⟩ c output hsame hone -
    obtain rfl : session₂ = session₁ := hsame
    obtain ⟨output', session', -, hstep⟩ := c.step_spec session₂
    refine ⟨(hstep w₂).2.trans (hstep w₁).2.symm, ?_⟩
    rw [← hone]
    exact (hstep w₂).1.trans (hstep w₁).1.symm
  · rintro ⟨w₁, session₁⟩ s' c output hsame hone hfailed
    obtain ⟨output', session', hkeeps, hstep⟩ := c.step_spec session₁
    have houtput : output' = output := List.singleton_inj.mp ((hstep w₁).1.symm.trans hone)
    exact hsame.trans ((hstep w₁).2.trans (hkeeps (houtput ▸ hfailed))).symm

end AgenticIde
