/-
AgenticIde/AuditCount.lean

The counter of audit events against the in-memory log.

The planner, the chat engine and the craft engine share one sink and one
registry, and each has an audit helper of its own.  The sink is a list that only
grows (`MockAuditSink`), the counter a number beside it; both are in the state of
one world, so that operations of the three engines may be mixed in any order
(`AuditedOp`).

Two of the helpers count what they record and keep the counter in step with the
log (`inStep`), whatever the LLM, the tools and the host answer; the helper of
the craft engine records without counting, so the counter falls behind by one
with every proposal that is confirmed, permitted or not (`perform_total`).  A
counter that is behind stays behind, so the two are equal after every operation
exactly when no proposal is ever confirmed (`auditEvents_eq_count_iff`).
-/
import AgenticIde.Chat
import AgenticIde.Craft
import AgenticIde.Planner
import Mathlib.Data.List.Induction

namespace AgenticIde

variable {ε ε' α : Type}

/-! ### The in-memory sink -/

/-- `MockAuditSink`: the events, oldest first. -/
structure MockAuditSink where
  events : List AuditEvent

namespace MockAuditSink

/-- An empty sink. -/
def new : MockAuditSink := ⟨[]⟩

/-- Total number of recorded events. -/
def count (self : MockAuditSink) : Nat := self.events.length

/-- The sink of engines that keep it beside everything else of the outside;
recording never fails. -/
def sink : AuditSink (ε × MockAuditSink) where
  onRecord event env := (.ok (), env.1, ⟨env.2.events ++ [event]⟩)

/-- What answers without looking at the sink. -/
def beside (f : ε → α × ε) (env : ε × MockAuditSink) : α × (ε × MockAuditSink) :=
  ((f env.1).1, (f env.1).2, env.2)

end MockAuditSink

/-! ### The operations -/

/-- The collaborators of an engine and the principal it acts for; they answer
as they like, but have no access to the sink. -/
structure Party (ε : Type) where
  llm : Llm ε
  bridge : HostBridge ε
  onRun : String → String → ε → Except String Observation × ε
  principal : Principal

namespace Party

open MockAuditSink

/-- The LLM beside the sink. -/
def sharedLlm (self : Party ε) : Llm (ε × MockAuditSink) where
  onThink context := beside (self.llm.onThink context)
  onPlan thought := beside (self.llm.onPlan thought)

/-- The host beside the sink. -/
def sharedBridge (self : Party ε) : HostBridge (ε × MockAuditSink) where
  onApplyEdit edit := beside (self.bridge.onApplyEdit edit)
  onEvent event env := (self.bridge.onEvent event env.1, env.2)

/-- The planner over the shared sink. -/
def planner (self : Party ε) (validator : Validator) (maxSteps : Nat) :
    Planner (ε × MockAuditSink) where
  llm := self.sharedLlm
  tools := .external fun tool argument => beside (self.onRun tool argument)
  validator := validator
  bridge := self.sharedBridge
  maxSteps := maxSteps
  principal := self.principal
  audit := sink

/-- The chat engine over the shared sink. -/
def chatEngine (self : Party ε) : ChatEngine (ε × MockAuditSink) :=
  ⟨self.sharedLlm, self.principal.perms, self.principal, sink⟩

/-- The craft engine over the shared sink. -/
def craftEngine (self : Party ε) : CraftEngine (ε × MockAuditSink) :=
  ⟨self.sharedBridge, self.principal.perms, self.principal, sink⟩

end Party

/-- An operation that is audited. -/
inductive AuditedOp (ε : Type)
  | run (party : Party ε) (validator : Validator) (maxSteps : Nat) (goal : String)
  | runWithContext (party : Party ε) (validator : Validator) (maxSteps : Nat) (goal : String)
      (sources : List ContextChunk)
  | reply (party : Party ε) (session : ChatSession) (userMsg : String)
      (attachments : List Attachment)
  | confirm (party : Party ε) (proposal : CraftProposal)

namespace AuditedOp

/-- Perform an operation, whatever comes of it. -/
def perform : AuditedOp ε → Core (ε × MockAuditSink) PEmpty Unit
  | run party validator maxSteps goal => ((party.planner validator maxSteps).run goal).ignore
  | runWithContext party validator maxSteps goal sources =>
      ((party.planner validator maxSteps).runWithContext goal sources).ignore
  | reply party session userMsg attachments =>
      (party.chatEngine.reply session userMsg attachments).ignore
  | confirm party proposal => (party.craftEngine.confirm proposal).ignore

/-- Perform operations, one after the other. -/
def performAll (w : World (ε × MockAuditSink)) (ops : List (AuditedOp ε)) :
    World (ε × MockAuditSink) :=
  ops.foldl (fun w op => (op.perform w).state) w

/-- A proposal is confirmed. -/
def isConfirm : AuditedOp ε → Bool
  | confirm _ _ => true
  | _ => false

end AuditedOp

/-- A new registry and an empty sink, in the middle of anything else. -/
def World.freshAudit (w : World (ε × MockAuditSink)) : World (ε × MockAuditSink) :=
  { w with metrics := ⟨0, 0, 0, 0, 0, 0⟩, env := (w.env.1, .new) }

/-! ### What an operation counts -/

/-- The counter of audit events. -/
def World.auditEvents (w : World (ε × MockAuditSink)) : Nat := w.metrics.auditEventsTotal

/-- The law that the counter and the sink grow alike. -/
def inStep (ε : Type) : Law (World (ε × MockAuditSink)) Event where
  rel w _ w' := w'.auditEvents + w.env.2.count = w.auditEvents + w'.env.2.count
  refl _ := rfl
  comp h h' := by omega

/-- A call that leaves the sink alone. -/
theorem inStep_call (f : ε → Except ε' α × ε) (ev : Except ε' α → Event) :
    (inStep ε).Obeys (Act.external (World.call (MockAuditSink.beside f)) ev) := fun _ => rfl

/-- Recording what was counted. -/
theorem inStep_counted (ev : AuditEvent) :
    (inStep ε).Obeys (do
      Core.count .incAuditEvents
      (MockAuditSink.sink.record ev).ignore : Core (ε × MockAuditSink) String Unit) := by
  intro w
  show w.auditEvents + 1 + w.env.2.events.length =
    w.auditEvents + (w.env.2.events ++ [ev]).length
  rw [List.length_append, List.length_singleton]
  omega

theorem Party.callsObey (party : Party ε) (validator : Validator) (maxSteps : Nat) :
    Planner.CallsObey (inStep ε) (party.planner validator maxSteps) where
  emitEvent _ _ := rfl
  think _ := inStep_call _ _
  planAction _ := inStep_call _ _
  recordAudit _ _ _ := Law.obeys_bind (fun _ => rfl) fun _ => inStep_counted _
  tool _ _ := inStep_call _ _
  applyEdit _ := inStep_call _ _
  llmCalls _ := rfl
  toolCalls _ := rfl
  denials _ := rfl

theorem Party.inStep_reply (party : Party ε) (session : ChatSession) (userMsg : String)
    (attachments : List Attachment) :
    (inStep ε).Obeys (party.chatEngine.reply session userMsg attachments) := by
  have haudit : ∀ action granted payload,
      (inStep ε).Obeys (party.chatEngine.audit action granted payload) := fun _ _ _ =>
    Law.obeys_bind (fun _ => rfl) fun _ => inStep_counted _
  unfold ChatEngine.reply
  split
  · exact Law.obeys_bind (fun _ => rfl) fun _ =>
      Law.obeys_bind (haudit _ _ _) fun _ => Law.obeys_throw _
  · refine Law.obeys_bind (haudit _ _ _) fun _ => Law.obeys_bind (inStep_call _ _) fun _ => ?_
    refine Law.obeys_bind (inStep_call _ _) fun _ => ?_
    exact Law.obeys_bind (fun _ => rfl) fun _ => Law.obeys_pure _

/-- Applying a proposal records nothing. -/
theorem Party.inStep_apply (party : Party ε) (proposal : CraftProposal) :
    (inStep ε).Obeys (party.craftEngine.apply proposal) := by
  unfold CraftEngine.apply
  rcases proposal.kind with - | - | -
  · exact Law.obeys_bind (fun _ => rfl) fun _ => Law.obeys_mapError (inStep_call _ _)
  · exact Law.obeys_bind (fun _ => rfl) fun _ => fun _ => rfl
  · exact Law.obeys_bind (fun _ => rfl) fun _ => fun _ => rfl

/-- An entry of the craft engine is not counted; whatever keeps in step may
follow it. -/
theorem Party.audit_total (party : Party ε) (action : AuditAction) (granted : Bool)
    (payload : Json) {f : Unit → Core (ε × MockAuditSink) String α}
    (hrest : (inStep ε).Obeys (f ())) (w : World (ε × MockAuditSink)) :
    ((party.craftEngine.audit action granted payload >>= f) w).state.auditEvents +
        w.env.2.count + 1 =
      w.auditEvents +
        ((party.craftEngine.audit action granted payload >>= f) w).state.env.2.count := by
  -- the helper hands the entry over and touches no counter
  obtain ⟨ev, answer, w', hrun, hevents, htotal⟩ : ∃ ev answer w',
      (party.craftEngine.audit action granted payload : Core _ String Unit) w =
        ⟨.ok (), w', [.audit ev answer]⟩ ∧
      w'.env.2.events = w.env.2.events ++ [ev] ∧ w'.auditEvents = w.auditEvents :=
    ⟨_, _, _, rfl, rfl, rfl⟩
  have hcount : w'.env.2.count = w.env.2.count + 1 := by
    simp [MockAuditSink.count, hevents]
  have hafter := hrest w'
  rw [Act.bind_apply_of_ok hrun, Outcome.after_state]
  simp only [inStep] at hafter
  omega

/-- Every confirmation, granted or denied, is recorded and not counted. -/
theorem Party.confirm_total (party : Party ε) (proposal : CraftProposal)
    (w : World (ε × MockAuditSink)) :
    (party.craftEngine.confirm proposal w).state.auditEvents + w.env.2.count + 1 =
      w.auditEvents + (party.craftEngine.confirm proposal w).state.env.2.count := by
  rcases hcheck : checkPermission party.craftEngine.principal
    proposal.kind.requiredPermission with e | ⟨⟩
  · -- the denial is counted, its entry is not
    simp only [CraftEngine.confirm, hcheck]
    rw [Act.bind_apply_of_ok (show Core.count .incDenials w =
      ⟨.ok (), { w with metrics := w.metrics.incDenials }, []⟩ from rfl), Outcome.after_nil]
    exact party.audit_total _ _ _ (Law.obeys_throw _) { w with metrics := w.metrics.incDenials }
  · simp only [CraftEngine.confirm, hcheck]
    refine party.audit_total _ _ _ ?_ w
    exact Law.obeys_bind (party.inStep_apply proposal) fun _ => Law.obeys_pure _

/-- **What an operation counts**: all that it records, unless it confirms a
proposal. The equation is between sums, so that it says of a confirmation that it
records one event more than it counts, and of any other operation that the two go
together. -/
theorem AuditedOp.perform_total (op : AuditedOp ε) (w : World (ε × MockAuditSink)) :
    (op.perform w).state.auditEvents + w.env.2.count + (if op.isConfirm then 1 else 0) =
      w.auditEvents + (op.perform w).state.env.2.count := by
  rcases op with ⟨party, validator, maxSteps, goal⟩ | ⟨party, validator, maxSteps, goal, sources⟩ |
    ⟨party, session, userMsg, attachments⟩ | ⟨party, proposal⟩
  · exact (party.callsObey validator maxSteps).run goal w
  · exact (party.callsObey validator maxSteps).runWithContext goal sources w
  · exact party.inStep_reply session userMsg attachments w
  · exact party.confirm_total proposal w

/-! ### Runs -/

namespace AuditedOp

/-- The counter is behind by the confirmations. -/
theorem performAll_total (w : World (ε × MockAuditSink)) (ops : List (AuditedOp ε)) :
    (performAll w ops).auditEvents + w.env.2.count + ops.countP isConfirm =
      w.auditEvents + (performAll w ops).env.2.count := by
  induction ops using List.reverseRecOn with
  | nil => rfl
  | append_singleton ops op ih =>
      have hstep := op.perform_total (performAll w ops)
      have hlast : performAll w (ops ++ [op]) = (op.perform (performAll w ops)).state := by
        simp [performAll]
      rw [hlast, List.countP_append, List.countP_singleton]
      omega

/-- **The counter of audit events** equals the number of recorded events after every
operation exactly when no proposal is ever confirmed.  The craft engine records its
confirmations without counting them, and no operation counts without recording, so
what the counter has fallen behind it never catches up. -/
theorem auditEvents_eq_count_iff (w : World (ε × MockAuditSink)) (ops : List (AuditedOp ε)) :
    (∀ pre, pre <+: ops → (performAll w.freshAudit pre).auditEvents =
        (performAll w.freshAudit pre).env.2.count) ↔
      ∀ op ∈ ops, op.isConfirm = false := by
  have htotal : ∀ pre, (performAll w.freshAudit pre).auditEvents + 0 + pre.countP isConfirm =
      0 + (performAll w.freshAudit pre).env.2.count := performAll_total w.freshAudit
  constructor
  · intro h
    -- the difference is the number of confirmations, so at the end it is nought
    have hall := h ops List.prefix_rfl
    have hcount : ops.countP isConfirm = 0 := by
      have := htotal ops
      omega
    simpa using hcount
  · intro h pre hpre
    have hcount : pre.countP isConfirm = 0 := by
      simpa using fun op hop => h op (hpre.subset hop)
    have := htotal pre
    omega

/-- One confirmed proposal leaves one event and no count. -/
theorem auditEvents_ne_count :
    let party : Party Unit := ⟨⟨fun _ env => (.error "", env), fun _ env => (.error "", env)⟩,
      ⟨fun _ env => (.ok (), env), fun _ env => env⟩, fun _ _ env => (.error "", env),
      .all "t" "u"⟩
    let w := performAll (World.initial ((), MockAuditSink.new))
      [.confirm party (.new "p" "f" "a" "b" "" .fileEdit)]
    ¬ w.auditEvents = w.env.2.count := by
  decide

end AuditedOp

end AgenticIde
