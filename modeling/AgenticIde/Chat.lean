/-
AgenticIde/Chat.lean

The chat engine (`chat.rs`): one `Generate` action turns a user message into a reply and at
most one tool suggestion, and is recorded in the session.

A reply that fails leaves the session as it was: the turns are pushed last.

The reply asks the model twice, for a thought and for a plan, and runs nothing: the plan is
shown to the user as a suggestion.  Its entry is made before the model is asked, so it is there
whatever the model answers; without the right there is an entry of the denial, and the model
is not asked.  A reply is streamed by cutting the finished text at its sentence marks.
-/
import AgenticIde.World

namespace AgenticIde

variable {ε : Type}

/-- A tool the agent suggests to run next. -/
structure ToolSuggestion where
  tool : String
  argument : String
  rationale : String
  deriving DecidableEq

/-- The product of a reply. -/
structure ChatReply where
  content : String
  suggestions : List ToolSuggestion
  deriving DecidableEq

/-- Chat engine over an LLM. -/
structure ChatEngine (ε : Type) where
  llm : Llm ε
  perms : PermissionSet
  principal : Principal
  auditSink : AuditSink ε

namespace ChatEngine

/-- Override the governance triple. -/
def withGovernance (self : ChatEngine ε) (principal : Principal) (audit : AuditSink ε) :
    ChatEngine ε :=
  { self with perms := principal.perms, principal := principal, auditSink := audit }

/-- Append an audit event; errors are never fatal. -/
def audit (self : ChatEngine ε) (action : AuditAction) (granted : Bool) (payload : Json) :
    Core ε String Unit := do
  let ev := AuditEvent.new (← Core.now) self.principal action granted payload
  Core.count .incAuditEvents
  (self.auditSink.record ev).ignore

/-- The suggestion of a planned action; an empty tool name suggests nothing. -/
def suggestions (thought : Thought) (plan : ActionPlan) : List ToolSuggestion :=
  if plan.tool = "" then [] else [⟨plan.tool, plan.argument, s!"based on: {thought.text}"⟩]

/-- Non-streaming reply: the session after it, and the reply. -/
def reply (self : ChatEngine ε) (session : ChatSession) (userMsg : String)
    (attachments : List Attachment) : Core ε String (ChatSession × ChatReply) :=
  match checkPermission self.principal .generate with
  | .error e => do
      Core.count .incDenials
      self.audit .generate false (.obj [("reason", .str e.toString), ("user_msg", .str userMsg)])
      Act.throw e.toString
  | .ok () => do
      self.audit .generate true
        (.obj [("user_msg", .str userMsg), ("attachments", .num attachments.length)])
      -- a failure here or below leaves the session as it was
      let thought ← self.llm.think (session.composePrompt userMsg attachments)
      let plan ← self.llm.planAction thought
      Core.count .incLlmCalls
      let content := s!"(assistant) {thought.text}"
      return ((session.pushUser userMsg).pushAssistant content,
        ⟨content, suggestions thought plan⟩)

/-- `cur` reversed is the piece read so far; a sentence mark ends it. -/
def streamFrom (cur : List Char) : List Char → List String
  | [] =>
      let tail := Str.trim (String.ofList cur.reverse)
      if tail = "" then [] else [tail]
  | c :: cs =>
      if c = '.' ∨ c = '!' ∨ c = '?' then
        let piece := String.ofList (c :: cur).reverse
        if Str.trim piece = "" then streamFrom [] cs else piece :: streamFrom [] cs
      else streamFrom (c :: cur) cs

/-- Split a finished reply into chunks at sentence marks. -/
def replyStream (full : String) : List String := streamFrom [] full.toList

end ChatEngine

end AgenticIde
