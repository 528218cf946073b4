/-
AgenticIde/Craft.lean

Craft mode (`craft.rs`): proposals that a user confirms or rejects, and the engine that
applies the confirmed ones through the host.

`confirm` checks the permission bit and not the state of the proposal, and `confirm_all`
confirms every proposal of the session; what that means for the lifecycle is in
`CraftLifecycle`.  `Confirmed` says once what confirming a proposal can do.

An engine records the decision before anything is done, granted or not, and ignores whether
the record was kept.  It counts nothing: the counter of audit events belongs to the engines
of chat and planning.  A file edit goes to the host, which may refuse it; a command or a
commit is only told to the host as an event, and cannot fail.  The state of a proposal is
set last, so after an error it is what it was.

Events of a session are marked with the position of their proposal, as several of them may
name the same document and even the same texts; so what a run does to one proposal can be
read off the trace.
-/
import AgenticIde.World

namespace AgenticIde

variable {ε ε' : Type}

/-! ### Proposals -/

/-- Lifecycle of a proposal. -/
inductive CraftState
  | suggestion
  | pendingConfirm
  | applied
  | rejected
  deriving DecidableEq

/-- What kind of action a proposal represents. -/
inductive EditKind
  | fileEdit
  | runCommand
  | commit
  deriving DecidableEq

namespace EditKind

/-- The permission required to apply this kind. -/
def requiredPermission : EditKind → Permission
  | fileEdit => .modify
  | runCommand => .execute
  | commit => .commit

/-- Stable string form. -/
def asStr : EditKind → String
  | fileEdit => "FileEdit"
  | runCommand => "RunCommand"
  | commit => "Commit"

end EditKind

/-- A proposed edit awaiting confirmation. -/
structure CraftProposal where
  id : String
  documentUri : String
  oldText : String
  newText : String
  rationale : String
  kind : EditKind
  state : CraftState
  deriving DecidableEq

namespace CraftProposal

/-- A proposal in the suggestion state. -/
def new (id documentUri oldText newText rationale : String) (kind : EditKind) : CraftProposal :=
  ⟨id, documentUri, oldText, newText, rationale, kind, .suggestion⟩

/-- Mark the proposal as under review. -/
def markPending (p : CraftProposal) : CraftProposal :=
  if p.state = .suggestion then { p with state := .pendingConfirm } else p

/-- Still awaiting a decision. -/
def undecided (p : CraftProposal) : Bool := p.state == .suggestion || p.state == .pendingConfirm

/-- The edit of the proposal. -/
def edit (p : CraftProposal) : TextEdit := ⟨p.documentUri, p.oldText, p.newText⟩

end CraftProposal

/-! ### The engine -/

/-- Propose, gate and apply edits. -/
structure CraftEngine (ε : Type) where
  bridge : HostBridge ε
  perms : PermissionSet
  principal : Principal
  auditSink : AuditSink ε

namespace CraftEngine

/-- Override the governance triple. -/
def withGovernance (self : CraftEngine ε) (principal : Principal) (audit : AuditSink ε) :
    CraftEngine ε :=
  { self with perms := principal.perms, principal := principal, auditSink := audit }

/-- Append an audit event; errors are never fatal, and nothing is counted. -/
def audit (self : CraftEngine ε) (action : AuditAction) (granted : Bool) (payload : Json) :
    Core ε ε' Unit := do
  let ev := AuditEvent.new (← Core.now) self.principal action granted payload
  (self.auditSink.record ev).ignore

/-- Perform a permitted proposal: apply its edit, or tell the host. -/
def apply (self : CraftEngine ε) (proposal : CraftProposal) : Core ε String Unit :=
  match proposal.kind with
  | .fileEdit => do
      Core.count .incToolCalls
      (self.bridge.applyEdit proposal.edit).mapError HostError.toString
  | .runCommand | .commit => do
      Core.count .incToolCalls
      self.bridge.emitEvent
        (.status s!"craft {proposal.kind.asStr} approved: {proposal.documentUri}")

/-- Confirm and apply: the confirmed proposal, or an error that leaves the
proposal as it is. -/
def confirm (self : CraftEngine ε) (proposal : CraftProposal) : Core ε String CraftProposal :=
  let action := proposal.kind.requiredPermission
  match checkPermission self.principal action with
  | .error e => do
      -- the state of the proposal is not looked at, here or below
      Core.count .incDenials
      self.audit (.fromPermission action) false
        (.obj [("kind", .str proposal.kind.asStr), ("uri", .str proposal.documentUri),
          ("reason", .str e.toString)])
      Act.throw e.toString
  | .ok () => do
      self.audit (.fromPermission action) true
        (.obj [("kind", .str proposal.kind.asStr), ("uri", .str proposal.documentUri)])
      self.apply proposal
      return { proposal with state := .applied }

/-- Reject a proposal, unless it has already been applied. -/
def reject (proposal : CraftProposal) : CraftProposal :=
  if proposal.state ≠ .applied then { proposal with state := .rejected } else proposal

end CraftEngine

/-! ### Sessions -/

/-- A plan of proposals the user reviews as one diff. -/
structure CraftSession where
  proposals : List CraftProposal
  deriving DecidableEq

namespace CraftSession

/-- Add a proposal to the plan. -/
def add (session : CraftSession) (p : CraftProposal) : CraftSession := ⟨session.proposals ++ [p]⟩

/-- Proposals still awaiting a decision. -/
def pending (session : CraftSession) : List CraftProposal :=
  session.proposals.filter CraftProposal.undecided

/-- Confirm one proposal, its events marked with the position `i`. -/
def confirmAt (engine : CraftEngine ε) (i : Nat) (p : CraftProposal) :
    Act (World ε) (Nat × Event) ε' (CraftProposal × Except String CraftState) := do
  match ← (Act.mapTrace (i, ·) (engine.confirm p)).attempt with
  | .ok p' => return (p', .ok p'.state)
  -- one failure does not stop the others
  | .error e => return (p, .error e)

/-- Confirm proposals in order, from the position `i` on. -/
def confirmFrom (engine : CraftEngine ε) :
    Nat → List CraftProposal →
      Act (World ε) (Nat × Event) ε' (List (CraftProposal × Except String CraftState))
  | _, [] => return []
  | i, p :: ps => do
      let r ← confirmAt engine i p
      let rs ← confirmFrom engine (i + 1) ps
      return r :: rs

/-- Confirm every proposal of the plan: the plan after it, and one result for
each proposal. -/
def confirmAll (session : CraftSession) (engine : CraftEngine ε) :
    Act (World ε) (Nat × Event) ε' (CraftSession × List (Except String CraftState)) := do
  let rs ← confirmFrom engine 0 session.proposals
  return (⟨rs.map (·.1)⟩, rs.map (·.2))

/-- Reject every proposal in the plan. -/
def rejectAll (session : CraftSession) : CraftSession :=
  ⟨session.proposals.map CraftEngine.reject⟩

end CraftSession

/-! ### What confirming does -/

/-- How a proposal can be confirmed: its events, and the proposal after it. -/
inductive Confirmed (engine : CraftEngine ε) (p : CraftProposal) :
    List Event → CraftProposal → Prop
  | denied (ev : AuditEvent) (answer : Except String Unit)
      (h : engine.principal.holds p.kind.requiredPermission = false) :
      Confirmed engine p [.audit ev answer] p
  | edited (ev : AuditEvent) (answer : Except String Unit)
      (h : engine.principal.holds p.kind.requiredPermission = true) (hkind : p.kind = .fileEdit) :
      Confirmed engine p [.audit ev answer, .applyEdit p.edit (.ok ())]
        { p with state := .applied }
  | refused (ev : AuditEvent) (answer : Except String Unit) (e : HostError)
      (h : engine.principal.holds p.kind.requiredPermission = true) (hkind : p.kind = .fileEdit) :
      Confirmed engine p [.audit ev answer, .applyEdit p.edit (.error e)] p
  | told (ev : AuditEvent) (answer : Except String Unit) (event : HostEvent)
      (h : engine.principal.holds p.kind.requiredPermission = true) (hkind : p.kind ≠ .fileEdit) :
      Confirmed engine p [.audit ev answer, .emitEvent event] { p with state := .applied }

/-- Without the right, confirming records a denial and nothing else. -/
theorem CraftEngine.confirm_denied (engine : CraftEngine ε) {p : CraftProposal}
    (h : engine.principal.holds p.kind.requiredPermission = false) (w : World ε) :
    ∃ e w' ev answer, engine.confirm p w = ⟨.error e, w', [.audit ev answer]⟩ ∧
      w'.env = (engine.auditSink.onRecord ev w.env).2 ∧ ev.granted = false := by
  have hcheck := checkPermission_of_not_holds h
  simp only [CraftEngine.confirm, hcheck]
  exact ⟨_, _, _, _, rfl, rfl, rfl⟩

/-- With it, confirming records a grant before anything is applied. -/
theorem CraftEngine.confirm_granted (engine : CraftEngine ε) {p : CraftProposal}
    (h : engine.principal.holds p.kind.requiredPermission = true) (w : World ε) :
    ∃ w' ev answer, engine.confirm p w =
        ((engine.apply p >>= fun _ => pure { p with state := .applied }) w').after
          [.audit ev answer] ∧
      w'.env = (engine.auditSink.onRecord ev w.env).2 ∧ ev.granted = true := by
  have hcheck := checkPermission_of_holds h
  simp only [CraftEngine.confirm, hcheck]
  exact ⟨_, _, _, rfl, rfl, rfl⟩

theorem CraftEngine.apply_fileEdit (engine : CraftEngine ε) {p : CraftProposal}
    (hkind : p.kind = .fileEdit) (w : World ε) :
    ∃ r w', engine.apply p w = ⟨r.mapError HostError.toString, w', [.applyEdit p.edit r]⟩ ∧
      engine.bridge.onApplyEdit p.edit w.env = (r, w'.env) := by
  simp only [CraftEngine.apply, hkind]
  exact ⟨_, _, rfl, rfl⟩

theorem CraftEngine.apply_other (engine : CraftEngine ε) {p : CraftProposal}
    (hkind : p.kind ≠ .fileEdit) (w : World ε) :
    ∃ event w', engine.apply p w = ⟨.ok (), w', [.emitEvent event]⟩ ∧
      engine.bridge.onEvent event w.env = w'.env := by
  rcases hk : p.kind with - | - | -
  · exact absurd hk hkind
  · simp only [CraftEngine.apply, hk]
    exact ⟨_, _, rfl, rfl⟩
  · simp only [CraftEngine.apply, hk]
    exact ⟨_, _, rfl, rfl⟩

/-- **Confirming goes one of the ways of `Confirmed`.**  A failed confirmation is no
failure of the operation: its error is the result that goes with the proposal. -/
theorem confirmed_confirmAt (ε' : Type) (engine : CraftEngine ε) (i : Nat) (p : CraftProposal)
    (w : World ε) :
    ∃ p' r w' t, (CraftSession.confirmAt engine i p :
        Act (World ε) (Nat × Event) ε' _) w = ⟨.ok (p', r), w', t.map (i, ·)⟩ ∧
      Confirmed engine p t p' := by
  -- The ways are the branches of `confirm`: the right, the kind, and for an edit the answer
  -- of the host.
  rcases hholds : engine.principal.holds p.kind.requiredPermission with - | -
  · obtain ⟨e, w', ev, answer, hconfirm, -⟩ := engine.confirm_denied hholds w
    refine ⟨p, .error e, w', [.audit ev answer], ?_, .denied ev answer hholds⟩
    simp [CraftSession.confirmAt, hconfirm]
  · obtain ⟨w₁, ev, answer, hconfirm, -⟩ := engine.confirm_granted hholds w
    by_cases hkind : p.kind = .fileEdit
    · obtain ⟨e | ⟨⟩, w₂, happly, -⟩ := engine.apply_fileEdit hkind w₁
      · refine ⟨p, .error e.toString, w₂, [.audit ev answer, .applyEdit p.edit (.error e)], ?_,
          .refused ev answer e hholds hkind⟩
        simp [CraftSession.confirmAt, hconfirm, happly, Except.mapError]
      · refine ⟨{ p with state := .applied }, .ok .applied, w₂,
          [.audit ev answer, .applyEdit p.edit (.ok ())], ?_, .edited ev answer hholds hkind⟩
        simp [CraftSession.confirmAt, hconfirm, happly, Except.mapError]
    · obtain ⟨event, w₂, happly, -⟩ := engine.apply_other hkind w₁
      refine ⟨{ p with state := .applied }, .ok .applied, w₂, [.audit ev answer, .emitEvent event],
        ?_, .told ev answer event hholds hkind⟩
      simp [CraftSession.confirmAt, hconfirm, happly]

end AgenticIde
