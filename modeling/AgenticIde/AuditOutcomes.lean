/-
AgenticIde/AuditOutcomes.lean

Which outcomes of an RPC leave an audit event.

A denied request is audited at the boundary, and a request that runs to its end is audited
there; in between a handler returns early when its backend fails, and then it is audited
only if an engine below it already was.  The chat engine records before it asks the LLM.
The planner records each privileged action it plans, so a failed agent run is audited
exactly if it planned an action of the right class (`leaves_run_iff`).  The completion
backend records nothing.

So the three privileged calls differ, and `ComesThrough` says in what.  A `Chat` request
leaves an entry whatever happens; a `NesComplete` request does so if its backend answers; a
`RunAgent` request does so if the planner comes to its end, or has planned an action of the
class before it failed.  `leaves_handle_iff` puts the three into one statement, and
`leaves_serve_iff` adds the boundary: authentication, and the entry of a denial.

The tools of the planner are external here, so their events are theirs; they may record
what they like, and the statements are about entries of the caller.
-/
import AgenticIde.AuditDelivery

namespace AgenticIde

variable {ε : Type}

/-! ### What a request has to leave -/

/-- The permission a privileged call needs; its class is the action of the
call. -/
def Rpc.required : Rpc → Option Permission
  | .ping => none
  | .nesComplete _ => some .generate
  | .runAgent _ => some .execute
  | .chat _ => some .generate

/-- The event hands over an entry of the principal, for the class of `p`, and
granted when the principal holds `p`. -/
def Event.AnswersFor (principal : Principal) (p : Permission) (e : Event) : Prop :=
  ∃ ev, e.handed = some ev ∧ ev.tenantId = principal.tenantId ∧ ev.userId = principal.userId ∧
    ev.action = .fromPermission p ∧ ev.granted = principal.holds p

/-- Some event of the trace answers for the class of `p` and for the principal,
granted or denied as the principal's rights have it. -/
def Leaves (principal : Principal) (p : Permission) (t : List Event) : Prop :=
  ∃ e ∈ t, e.AnswersFor principal p

section Leaves

variable {principal : Principal} {p : Permission} {ε' α β : Type} {m : Core ε ε' α}
  {f : α → Core ε ε' β} {w : World ε}

/-- What a first part leaves is left, whatever becomes of it. -/
theorem Leaves.first (h : Leaves principal p (m w).trace) :
    Leaves principal p ((m >>= f) w).trace :=
  h.imp fun _ => And.imp_left ((Act.prefix_trace_bind m f w).subset ·)

/-- What follows a first part is left if that part succeeds. -/
theorem Leaves.next (hm : ∃ a, (m w).result = .ok a)
    (h : ∀ a w', Leaves principal p (f a w').trace) : Leaves principal p ((m >>= f) w).trace := by
  obtain ⟨a, ha⟩ := hm
  rw [Act.bind_apply_of_ok (show m w = ⟨.ok a, (m w).state, (m w).trace⟩ by rw [← ha]),
    Outcome.after_trace]
  exact (h a _).imp fun _ => And.imp_left (List.mem_append_right _)

end Leaves

/-! ### The planner -/

/-- A plan of the class of `p`. -/
def Event.Plans (p : Permission) (e : Event) : Prop :=
  ∃ thought plan, e = .planAction thought (.ok plan) ∧ actionPermission plan.tool = some p

/-- The law that entries of a class answer plans of the class, and the other
way round. -/
def matching (ε : Type) (principal : Principal) (p : Permission) : Law (World ε) Event :=
  (Law.answers _ (fun e => e.AnswersFor principal p) fun _ e' => e'.Plans p).and
    (Law.answers _ (Event.Plans p) fun _ e' => e'.AnswersFor principal p)

section Planner

variable {principal : Principal} {p : Permission}

theorem not_answersFor_of_handed {e : Event} (h : e.handed = none) :
    ¬ e.AnswersFor principal p := by
  rintro ⟨ev, hev, -⟩
  rw [h] at hev
  cases hev

theorem admitsQuiet_matching : (matching ε principal p).AdmitsQuiet := by
  intro w t w' ht _
  refine ⟨fun e he hanswers => ?_, fun e he ⟨thought, plan, heq, _⟩ => ?_⟩
  · -- nothing quiet is handed over
    have hq := ht e he
    refine (not_answersFor_of_handed ?_ hanswers).elim
    rcases e with _ | _ | ⟨_, _ | _⟩ | _ | _ | _ | _ | _ | _ <;> first | rfl | exact hq.elim
  · have hq := ht e he
    subst heq
    exact hq.elim

section Performed

variable {self : Planner ε} {plan : ActionPlan} {w w' : World ε} {t : List Event}

/-- A performed action makes no plan of its own. -/
theorem not_plans_performed (htools : self.tools.Serves) (h : Planner.Performed self plan w t w') :
    ∀ e ∈ t, ¬ e.Plans p := by
  rintro e he ⟨thought, plan', rfl, -⟩
  cases h with
  | denied q ts answer hq hdenied hpending => simp at he
  | ran hauth h₁ hedit hpending =>
      simp only [List.mem_cons, List.mem_append, reduceCtorEq, false_or] at he
      rcases he with he | he | he
      · cases hauth with
        | unprivileged h => cases he
        | privileged q ts answer hq hholds => cases List.mem_singleton.mp he
      · exact ((htools _ _ _).1 _ he).elim
      · obtain ⟨⟨edit, answer, hedit⟩, -⟩ := hedit.mem he
        cases hedit

theorem matching_performed (htools : self.tools.Serves) (thought : Thought)
    (h : Planner.Performed self plan w t w') :
    (matching ε self.principal p).rel w (.planAction thought (.ok plan) :: t) w' := by
  refine ⟨fun e he hanswers => ?_, fun e he hplans => ?_⟩
  · -- an entry is that of the plan's tool
    rcases List.mem_cons.mp he with rfl | he
    · exact absurd hanswers (not_answersFor_of_handed rfl)
    · obtain ⟨event, hevent, -, -, haction, -⟩ := hanswers
      obtain ⟨q, hq, ts, payload, rfl⟩ := handed_performed htools h he hevent
      obtain rfl : q = p := AuditAction.fromPermission_injective haction
      exact ⟨_, List.mem_cons_self, thought, plan, rfl, hq⟩
  · -- the only plan is the one performed, and its tool has an entry
    rcases List.mem_cons.mp he with rfl | he
    · obtain ⟨thought', plan', heq, hp⟩ := hplans
      cases heq
      obtain ⟨e, he, event, hevent, ts, payload, rfl⟩ := entry_performed h hp
      exact ⟨e, List.mem_cons_of_mem _ he, _, hevent, rfl, rfl, rfl, rfl⟩
    · exact absurd hplans (not_plans_performed htools h e he)

end Performed

/-- **A run of the planner is audited** in a class exactly if it plans an action of
that class, however it ends.  The entry is made when the action is checked, before
it is performed, so neither a refusal nor a failure of the tool takes it away. -/
theorem Planner.leaves_run_iff {self : Planner ε} (htools : self.tools.Serves) (p : Permission)
    (goal : String) (w : World ε) :
    Leaves self.principal p (self.run goal w).trace ↔
      ∃ e ∈ (self.run goal w).trace, e.Plans p := by
  have hmatching : (matching ε self.principal p).Obeys (self.run goal) :=
    Planner.obeys_run admitsQuiet_matching (fun thought {_ _ _ _} h =>
      matching_performed htools thought h) goal
  constructor
  · rintro ⟨e, he, hanswers⟩
    exact (hmatching w).1 e he hanswers
  · rintro ⟨e, he, hplans⟩
    exact (hmatching w).2 e he hplans

end Planner

/-! ### The handlers -/

namespace AgentServer

variable {server : AgentServer ε} {principal : Principal}

/-- The planner of an agent run. -/
def perRequest (server : AgentServer ε) (principal : Principal) : Planner ε :=
  server.planner.withGovernance principal server.auditSink

/-- What lies between the permission check and the audit of a handler comes
through, or is audited itself: the completion backend answers; the planner
comes to its end, or has planned an `Execute` action before it failed. -/
def ComesThrough (server : AgentServer ε) (principal : Principal) (w : World ε) : Rpc → Prop
  | .ping => True
  | .nesComplete req => ∃ candidates, (server.nesBackend.onComplete req w.env).1 = .ok candidates
  | .runAgent goal =>
      (∃ trace, ((server.perRequest principal).run goal w).result = .ok trace) ∨
        ∃ e ∈ ((server.perRequest principal).run goal w).trace, e.Plans .execute
  | .chat _ => True

/-- A denied request is audited. -/
theorem leaves_requireBit {p : Permission} (hdenied : principal.holds p = false) (w : World ε) :
    Leaves principal p (requireBit principal p w).trace := by
  simp only [requireBit, checkPermission_of_not_holds hdenied]
  exact ⟨_, List.mem_singleton_self _, _, rfl, rfl, rfl, rfl, hdenied.symm⟩

theorem leaves_audit {p : Permission} (hholds : principal.holds p = true) (payload : Json)
    (w : World ε) : Leaves principal p (audit principal (.fromPermission p) true payload w).trace :=
  ⟨_, List.mem_singleton_self _, _, rfl, rfl, rfl, rfl, hholds.symm⟩

/-- `NesComplete`, for a principal who may: audited if the backend answers. -/
theorem leaves_nesComplete_iff (hholds : principal.holds .generate = true) (req : NesRequest)
    (w : World ε) : Leaves principal .generate (server.nesComplete principal req w).trace ↔
      ∃ candidates, (server.nesBackend.onComplete req w.env).1 = .ok candidates := by
  simp only [nesComplete, requireBit_of_holds hholds, pure_bind]
  rcases hanswer : (server.nesBackend.onComplete req w.env).1 with err | candidates
  · -- the error leaves before anything is recorded
    simp [Core.now, CompletionBackend.complete, World.call, hanswer, Except.mapError, Leaves,
      Event.AnswersFor, Event.handed]
  · refine iff_of_true ?_ ⟨candidates, rfl⟩
    -- the clock, the backend, the clock again, the counter, the entry
    rw [Act.bind_apply_of_ok (show Core.now w = ⟨.ok _, _, []⟩ from rfl), Outcome.after_nil]
    refine .next ⟨candidates, ?_⟩ fun candidates w => ?_
    · simp [CompletionBackend.complete, World.call, hanswer, Except.mapError]
    · refine .next ⟨_, rfl⟩ fun _ w => .next ⟨_, rfl⟩ fun _ w => ?_
      exact (leaves_audit hholds _ w).first

/-- `RunAgent`, for a principal who may: audited if the planner comes to its
end, or planned an `Execute` action. -/
theorem leaves_runAgent_iff (htools : server.planner.tools.Serves)
    (hholds : principal.holds .execute = true) (goal : String) (w : World ε) :
    Leaves principal .execute (server.runAgent principal goal w).trace ↔
      server.ComesThrough principal w (.runAgent goal) := by
  have hrun : Leaves principal .execute ((server.perRequest principal).run goal w).trace ↔
      ∃ e ∈ ((server.perRequest principal).run goal w).trace, e.Plans .execute :=
    (server.perRequest principal).leaves_run_iff htools .execute goal w
  simp only [runAgent, requireBit_of_holds hholds, pure_bind]
  rcases hresult : (server.perRequest principal).run goal w with ⟨err | trace, w', t⟩
  · -- the error leaves with what the planner recorded
    have herror : (((server.perRequest principal).run goal).mapError (⟨.internal, ·⟩) :
        Core ε Status RunTrace) w = ⟨.error ⟨.internal, err⟩, w', t⟩ := by
      rw [Act.mapError_apply, hresult]
      rfl
    rw [Act.bind_apply, show Act.mapError _ ((server.planner.withGovernance principal
      server.auditSink).run goal) w = _ from herror]
    rw [hresult] at hrun
    simpa [ComesThrough, hresult] using hrun
  · refine iff_of_true (.next ⟨trace, ?_⟩ fun trace w => ?_) (.inl ⟨trace, by rw [hresult]⟩)
    · show ((server.perRequest principal).run goal w).result.mapError _ = .ok trace
      rw [hresult]
      rfl
    · exact (leaves_audit hholds _ w).first

/-- A chat reply is audited first. -/
theorem leaves_reply (engine : ChatEngine ε) (hholds : engine.principal.holds .generate = true)
    (session : ChatSession) (userMsg : String) (attachments : List Attachment) (w : World ε) :
    Leaves engine.principal .generate (engine.reply session userMsg attachments w).trace := by
  simp only [ChatEngine.reply, checkPermission_of_holds hholds]
  apply Leaves.first
  exact ⟨_, List.mem_singleton_self _, _, rfl, rfl, rfl, rfl, hholds.symm⟩

/-- `Chat`, for a principal who may, is audited. -/
theorem leaves_chat (hholds : principal.holds .generate = true) (req : ChatRequest)
    (w : World ε) : Leaves principal .generate (server.chat principal req w).trace := by
  simp only [chat, requireBit_of_holds hholds, pure_bind]
  refine .next ⟨_, rfl⟩ fun world w => .next ⟨_, rfl⟩ fun _ w => Leaves.first ?_
  -- the engine speaks for the caller
  exact leaves_reply (server.chatEngine.withGovernance principal server.auditSink) hholds _ _ _ w

/-- **What a handler leaves**: an entry, unless the caller may and the call does not
come through.  A caller who may not is refused with an entry; one who may leaves it
behind the call, where an error of the engine does not get to. -/
theorem leaves_handle_iff (htools : server.planner.tools.Serves) {rpc : Rpc} {p : Permission}
    (hrpc : rpc.required = some p) (w : World ε) :
    Leaves principal p (server.handle principal rpc w).trace ↔
      (principal.holds p = true → server.ComesThrough principal w rpc) := by
  rcases hholds : principal.holds p with - | -
  · simp only [Bool.false_eq_true, false_implies, iff_true]
    rcases rpc with - | req | goal | req <;> cases hrpc
    all_goals
      rw [handle, Act.map_apply]
      exact (leaves_requireBit hholds w).first
  · refine Iff.trans ?_ (forall_prop_of_true rfl).symm
    rcases rpc with - | req | goal | req <;> cases hrpc
    all_goals rw [handle, Act.map_apply]
    · exact leaves_nesComplete_iff hholds req w
    · exact leaves_runAgent_iff htools hholds goal w
    · exact iff_of_true (leaves_chat hholds req w) trivial

/-- **The audit of an authenticated request.**  Whatever the backends, the
LLM and the tools answer, a `NesComplete`, `RunAgent` or `Chat` request
leaves an entry of its class for its caller, granted as the caller's bit
says, exactly if the caller lacks the bit or the call comes through. -/
theorem leaves_serve_iff (server : AgentServer ε)
    (onRun : String → String → ε → Except String Observation × ε) (request : Request)
    (principal : Principal) (p : Permission) (w : World ε)
    (hrpc : request.rpc.required = some p)
    (hauth : server.authenticator.authenticate (extractBearer request.authorization)
      (w.clock w.ticks / 1000) = .ok principal) :
    let server := { server with planner := { server.planner with tools := .external onRun } }
    Leaves principal p (server.serve request w).trace ↔
      (principal.holds p = true → server.ComesThrough principal (entered w) request.rpc) := by
  intro server
  -- A ping is the one call that asks for no permission, and it is excluded by that.
  have hprivileged : request.rpc ≠ .ping := by
    intro hping
    rw [hping] at hrpc
    cases hrpc
  have hserve : server.serve request w = server.handle principal request.rpc (entered w) :=
    serve_eq_handle hprivileged hauth
  rw [hserve]
  exact leaves_handle_iff (serves_external onRun) hrpc _

/-- A server of one user who may do everything, and whose backends are all
down. -/
def downServer : AgentServer Unit where
  planner :=
    { llm := ⟨fun _ => (.error "down", ·), fun _ => (.error "down", ·)⟩
      tools := .external fun _ _ => (.error "down", ·)
      validator := BasicValidator 8
      bridge := ⟨fun _ => (.ok (), ·), fun _ => id⟩
      maxSteps := 8
      principal := .all "t" "u"
      audit := ⟨fun _ => (.ok (), ·)⟩ }
  nesBackend := ⟨fun _ => (.error "down", ·)⟩
  chatEngine :=
    { llm := ⟨fun _ => (.error "down", ·), fun _ => (.error "down", ·)⟩
      perms := PermissionSet.all
      principal := .all "t" "u"
      auditSink := ⟨fun _ => (.ok (), ·)⟩ }
  authenticator := NoopAuthenticator (.all "t" "u")
  principal := .all "t" "u"
  auditSink := ⟨fun _ => (.ok (), ·)⟩

theorem leaves_serve_iff_chat :
    Leaves (.all "t" "u") .generate
      (downServer.serve ⟨none, .chat ⟨"s", "hi", []⟩⟩ (.initial ())).trace :=
  (leaves_serve_iff downServer (fun _ _ => (.error "down", ·)) ⟨none, .chat ⟨"s", "hi", []⟩⟩
    (.all "t" "u") .generate (.initial ()) rfl rfl).mpr fun _ => trivial

/-- Its failed completions and agent runs leave nothing. -/
theorem downServer_unaudited :
    ¬ Leaves (.all "t" "u") .generate
        (downServer.serve ⟨none, .nesComplete ⟨"fn", "", "rust"⟩⟩ (.initial ())).trace ∧
      ¬ Leaves (.all "t" "u") .execute
        (downServer.serve ⟨none, .runAgent "goal"⟩ (.initial ())).trace := by
  have hnes : ∀ e ∈ (downServer.serve ⟨none, .nesComplete ⟨"fn", "", "rust"⟩⟩ (.initial ())).trace,
      e.handed = none := by
    decide +kernel
  have hrun : ∀ e ∈ (downServer.serve ⟨none, .runAgent "goal"⟩ (.initial ())).trace,
      e.handed = none := by
    decide +kernel
  exact ⟨fun ⟨e, he, h⟩ => not_answersFor_of_handed (hnes e he) h,
    fun ⟨e, he, h⟩ => not_answersFor_of_handed (hrun e he) h⟩

end AgentServer

end AgenticIde
