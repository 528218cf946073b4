/-
AgenticIde/QuestGate.lean

What a quest lets through: the six-bit mask of the planner, the approval gate, and the
self-healing below it, over every run.

`governed` is the invariant of the trace: whatever acts does so under the latest plan and
within what that plan may do; the audit entries are those the plans owe; and the pending
approvals grow by exactly the plans held back.  It is proved of one performed action, from
what an executor does (`serving`) and what the gate does (`gate_cases`), and lifted to quests
by `Quest.obeys_of_performed`.

The order of the layers matters.  The planner checks the bit and records it; the gate is the
executor that the planner is given, so it sees permitted actions only, and holds back those
of two classes unless everything is committed automatically; below it the action is run, and
run again with another input if it fails.  What reaches the base executor has therefore
passed both, and a repair has the tool of its plan: it changes the argument and nothing else.

What is held back is told to the model as an observation, and kept with its subtask.  It is
in the report at the end, as nothing of a quest removes it.  A quest that returns no report
has nothing to show, and the statement on pending approvals is of those that do; that all do
is part of it.
-/
import AgenticIde.Quest

namespace AgenticIde

variable {ε : Type}

/-! ### What the gate does -/

section Gate

variable {inner : ToolExecutor ε} {autoCommit : Bool} {sid tool argument : String}

variable (inner sid argument) in
/-- A held action runs nothing and waits. -/
theorem gate_holds (h : needsApproval tool = true) (hcommit : autoCommit = false) (w : World ε) :
    ∃ obs id w', (QuestToolExecutor inner autoCommit sid).run tool argument w = ⟨.ok obs, w', []⟩ ∧
      w'.pending = w.pending ++ [⟨id, tool, argument, sid⟩] := by
  simp only [QuestToolExecutor, h, hcommit]
  exact ⟨_, _, _, rfl, rfl⟩

/-- Every other action is run by the executor below. -/
theorem gate_passes (h : ¬ (needsApproval tool = true ∧ autoCommit = false)) :
    (QuestToolExecutor inner autoCommit sid).run tool argument = inner.run tool argument := by
  simp only [QuestToolExecutor]
  exact if_neg h

/-- The gate either holds the action back, or serves it. -/
theorem gate_cases {executor : ToolExecutor ε}
    (hgate : executor = QuestToolExecutor inner autoCommit sid) (hinner : inner.Serves)
    (tool argument : String) (w : World ε) :
    ((needsApproval tool = true ∧ autoCommit = false) ∧ (executor.run tool argument w).trace = [] ∧
      ∃ id, (executor.run tool argument w).state.pending =
        w.pending ++ [⟨id, tool, argument, sid⟩]) ∨
    (¬ (needsApproval tool = true ∧ autoCommit = false) ∧
      (∀ e ∈ (executor.run tool argument w).trace, e.Serves tool) ∧
      (executor.run tool argument w).state.pending = w.pending) := by
  subst hgate
  by_cases h : needsApproval tool = true ∧ autoCommit = false
  · obtain ⟨obs, id, w', hrun, hpending⟩ := gate_holds inner sid argument h.1 h.2 w
    rw [hrun]
    exact .inl ⟨h, rfl, id, hpending⟩
  · rw [gate_passes h]
    exact .inr ⟨h, hinner tool argument w⟩

end Gate

/-! ### The invariant of the trace -/

/-- The plan an event makes, with its subtask. -/
def QuestEvent.planned : QuestEvent → Option (String × ActionPlan)
  | ⟨some sid, .planAction _ (.ok plan)⟩ => some (sid, plan)
  | _ => none

theorem QuestEvent.planned_eq_some {e : QuestEvent} {sid : String} {plan : ActionPlan}
    (h : e.planned = some (sid, plan)) :
    ∃ thought, e = ⟨some sid, .planAction thought (.ok plan)⟩ := by
  unfold planned at h
  split at h
  · rename_i thought plan'
    obtain ⟨rfl, rfl⟩ : _ = sid ∧ plan' = plan := by simpa using h
    exact ⟨thought, rfl⟩
  · simp at h

/-- The event reaches the base executor, a process or the host's documents. -/
def QuestEvent.Acts : QuestEvent → Prop
  | ⟨_, .baseRun _ _ _⟩ => True
  | ⟨_, .runShell _ _⟩ => True
  | ⟨_, .applyEdit _ _⟩ => True
  | _ => False

/-- The tool may run: the principal holds its bit, and it needs no approval
unless everything commits automatically. -/
def Cleared (principal : Principal) (autoCommit : Bool) (tool : String) : Prop :=
  principal.mayRun tool = true ∧ (needsApproval tool = true → autoCommit = true)

/-- What a planned action may do: serve its tool when cleared, and edit when
it is a `modify` of a principal who holds the bit. -/
def Allows (principal : Principal) (autoCommit : Bool) (planned : String × ActionPlan)
    (e : QuestEvent) : Prop :=
  e.subtask = some planned.1 ∧
    ((e.event.Serves planned.2.tool ∧ Cleared principal autoCommit planned.2.tool) ∨
      (∃ edit answer, e.event = .applyEdit edit answer) ∧ planned.2.tool = "modify" ∧
        principal.holds .modify = true)

/-- Who did what, and whether it was granted. -/
structure AuditEntry where
  tenantId : String
  userId : String
  action : AuditAction
  granted : Bool
  deriving DecidableEq

/-- The entries an event records. -/
def QuestEvent.recorded (e : QuestEvent) : List AuditEntry :=
  match e.event with
  | .audit ev _ => [⟨ev.tenantId, ev.userId, ev.action, ev.granted⟩]
  | _ => []

/-- The entries a plan owes: one if its name is privileged, granted when the
principal holds the bit. -/
def QuestEvent.owed (principal : Principal) (e : QuestEvent) : List AuditEntry :=
  match e.planned with
  | some (_, plan) => (actionPermission plan.tool).toList.map fun p =>
      ⟨principal.tenantId, principal.userId, .fromPermission p, principal.holds p⟩
  | none => []

/-- The plan held back by an event: it is permitted, and needs approval. -/
def QuestEvent.heldBack (principal : Principal) (autoCommit : Bool) (e : QuestEvent) :
    List (String × ActionPlan) :=
  match e.planned with
  | some (sid, plan) =>
      if principal.mayRun plan.tool ∧ needsApproval plan.tool ∧ autoCommit = false then
        [(sid, plan)]
      else []
  | none => []

/-- The planned action a pending approval is about. -/
def PendingApproval.planned (pa : PendingApproval) : String × ActionPlan :=
  (pa.subtaskId, ⟨pa.tool, pa.argument⟩)

/-- What every quest of the principal keeps. -/
def governed (ε : Type) (principal : Principal) (autoCommit : Bool) : Law (World ε) QuestEvent :=
  (Law.under _ QuestEvent.planned QuestEvent.Acts (Allows principal autoCommit)).and
    ((Law.agree _ (QuestEvent.owed principal) QuestEvent.recorded).and
      (Law.records (fun w => w.pending.map PendingApproval.planned)
        (QuestEvent.heldBack principal autoCommit)))

/-- The plan lacks its bit: its tool needs a right that the principal does not hold.
-/
def QuestEvent.Forbidden (principal : Principal) (e : QuestEvent) : Prop :=
  ∃ sid plan, e.planned = some (sid, plan) ∧ principal.mayRun plan.tool = false

/-- The event is a refusal in the subtask of the other one, for its tool. -/
def QuestEvent.RefusedBy (principal : Principal) (e e' : QuestEvent) : Prop :=
  ∃ sid plan p ts payload answer, e.planned = some (sid, plan) ∧
    actionPermission plan.tool = some p ∧
    e' = ⟨some sid, .audit (.new ts principal (.fromPermission p) false payload) answer⟩

/-- The law that a forbidden plan is refused. -/
def refusing (ε : Type) (principal : Principal) : Law (World ε) QuestEvent :=
  Law.answers _ (QuestEvent.Forbidden principal) (QuestEvent.RefusedBy principal)

/-! ### One performed action -/

section Performed

variable {principal : Principal} {autoCommit : Bool} {sid : String} {planner : Planner ε}
  {thought : Thought} {plan : ActionPlan} {w w' : World ε} {t : List Event}

/-- What serves a tool makes no plan and records nothing. -/
theorem Event.Serves.inert {tool : String} {e : Event} (h : e.Serves tool) :
    (⟨some sid, e⟩ : QuestEvent).planned = none ∧ (⟨some sid, e⟩ : QuestEvent).recorded = [] := by
  rcases e <;> first | exact h.elim | exact ⟨rfl, rfl⟩

/-- Quiet events make no plan, record nothing and do not act. -/
theorem Event.Quiet.inert {s : Option String} {e : Event} (h : e.Quiet) :
    (⟨s, e⟩ : QuestEvent).planned = none ∧ (⟨s, e⟩ : QuestEvent).recorded = [] ∧
      ¬ (⟨s, e⟩ : QuestEvent).Acts := by
  rcases e with _ | _ | ⟨_, _ | _⟩ | _ | _ | _ | _ | _ <;>
    first | exact h.elim | (rcases s <;> exact ⟨rfl, rfl, fun h => h⟩)

theorem Planner.Authorized.mayRun {tool : String} {audits : List Event}
    (h : Planner.Authorized planner tool audits) : planner.principal.mayRun tool = true := by
  cases h with
  | unprivileged h => exact Principal.mayRun_of_none h
  | privileged p ts answer hp hholds => rw [Principal.mayRun_of_some hp, hholds]

/-- The entries of an authorized action are those its plan owes. -/
theorem Planner.Authorized.recorded {audits : List Event}
    (h : Planner.Authorized planner plan.tool audits) :
    (audits.map (QuestEvent.mk (some sid))).flatMap QuestEvent.recorded =
      QuestEvent.owed planner.principal ⟨some sid, .planAction thought (.ok plan)⟩ := by
  cases h with
  | unprivileged h => simp [QuestEvent.owed, QuestEvent.planned, h]
  | privileged p ts answer hp hholds =>
      simp [QuestEvent.owed, QuestEvent.planned, QuestEvent.recorded, AuditEvent.new, hp, hholds]

/-- An entry neither acts nor plans. -/
theorem Planner.Authorized.idle {tool : String} {audits : List Event}
    (h : Planner.Authorized planner tool audits) {e : Event} (he : e ∈ audits) :
    (⟨some sid, e⟩ : QuestEvent).planned = none ∧ ¬ (⟨some sid, e⟩ : QuestEvent).Acts := by
  cases h with
  | unprivileged h => simp at he
  | privileged p ts answer hp hholds =>
      obtain rfl := List.mem_singleton.mp he
      exact ⟨rfl, fun h => h⟩

/-- Without a plan nothing is owed. -/
theorem QuestEvent.owed_of_planned_eq_none {e : QuestEvent} (h : e.planned = none) :
    e.owed principal = [] := by
  simp [owed, h]

/-- Without a plan nothing is held back. -/
theorem QuestEvent.heldBack_of_planned_eq_none {e : QuestEvent} (h : e.planned = none) :
    e.heldBack principal autoCommit = [] := by
  simp [heldBack, h]

section Gated

variable {inner : ToolExecutor ε} (hinner : inner.Serves)
  (htools : planner.tools = QuestToolExecutor inner autoCommit sid)

include hinner htools

/-- One performed action makes no further plan. -/
theorem unplanned_performed (h : Planner.Performed planner plan w t w') :
    ∀ e ∈ t, (⟨some sid, e⟩ : QuestEvent).planned = none := by
  intro e he
  cases h with
  | denied p ts answer hp hdenied hpending =>
      simp only [List.mem_cons, List.not_mem_nil, or_false] at he
      rcases he with rfl | rfl | rfl <;> rfl
  | @ran w₁ _ audits edits hauth h₁ hedit hpending =>
      -- the plan's line, the entry, the tool's events, the edit
      have hrun := gate_cases htools hinner plan.tool plan.argument w₁
      simp only [List.mem_cons, List.mem_append] at he
      rcases he with rfl | he | he | he
      · rfl
      · exact (hauth.idle he).1
      · rcases hrun with ⟨-, htrace, -⟩ | ⟨-, hserves, -⟩
        · simp [htrace] at he
        · exact (hserves e he).inert.1
      · obtain ⟨⟨edit, answer, rfl⟩, -⟩ := hedit.mem he
        rfl

/-- A performed action acts within its plan. -/
theorem under_performed (h : Planner.Performed planner plan w t w') :
    (Law.under (World ε) QuestEvent.planned QuestEvent.Acts
      (Allows planner.principal autoCommit)).rel w
      (⟨some sid, .planAction thought (.ok plan)⟩ :: t.map (QuestEvent.mk (some sid))) w' := by
  have hplanned := unplanned_performed hinner htools h
  refine Law.under_of_mark rfl (fun h => h) ?_
  simp only [List.forall_mem_map]
  refine fun e he => ⟨hplanned e he, fun hacts => ⟨rfl, ?_⟩⟩
  cases h with
  | denied p ts answer hp hdenied hpending =>
      -- a denied action does nothing but tell
      simp only [List.mem_cons, List.not_mem_nil, or_false] at he
      rcases he with rfl | rfl | rfl <;> exact hacts.elim
  | @ran w₁ _ audits edits hauth h₁ hedit hpending =>
      have hrun := gate_cases htools hinner plan.tool plan.argument w₁
      simp only [List.mem_cons, List.mem_append] at he
      rcases he with rfl | he | he | he
      · exact hacts.elim
      · exact absurd hacts (hauth.idle he).2
      · rcases hrun with ⟨-, htrace, -⟩ | ⟨hpass, hserves, -⟩
        · -- held back: the tool has no events
          simp [htrace] at he
        · refine .inl ⟨hserves e he, hauth.mayRun, fun happroval => ?_⟩
          rcases hcommit : autoCommit with - | -
          · exact absurd ⟨happroval, hcommit⟩ hpass
          · rfl
      · -- `modify` is governed, so being authorized means holding its bit
        obtain ⟨⟨edit, answer, rfl⟩, hmodify⟩ := hedit.mem he
        refine .inr ⟨⟨edit, answer, rfl⟩, hmodify, ?_⟩
        rw [← hauth.mayRun, hmodify]
        exact (Principal.mayRun_of_some (by decide)).symm

/-- A performed action records what its plan owes. -/
theorem agree_performed (h : Planner.Performed planner plan w t w') :
    (Law.agree (World ε) (QuestEvent.owed planner.principal) QuestEvent.recorded).rel w
      (⟨some sid, .planAction thought (.ok plan)⟩ :: t.map (QuestEvent.mk (some sid))) w' := by
  have howed :
      (t.map (QuestEvent.mk (some sid))).flatMap (QuestEvent.owed planner.principal) = [] := by
    simp only [List.flatMap_eq_nil_iff, List.forall_mem_map]
    exact fun e he => QuestEvent.owed_of_planned_eq_none (unplanned_performed hinner htools h e he)
  -- only the plan itself owes anything
  show List.flatMap _ _ = List.flatMap _ _
  rw [List.flatMap_cons, List.flatMap_cons, howed, List.append_nil]
  cases h with
  | denied p ts answer hp hdenied hpending =>
      simp [QuestEvent.owed, QuestEvent.planned, QuestEvent.recorded, Planner.denial,
        AuditEvent.new, hp, hdenied]
  | @ran w₁ _ audits edits hauth h₁ hedit hpending =>
      have hrun : ((planner.tools.run plan.tool plan.argument w₁).trace.map
          (QuestEvent.mk (some sid))).flatMap QuestEvent.recorded = [] := by
        rcases gate_cases htools hinner plan.tool plan.argument w₁ with
          ⟨-, htrace, -⟩ | ⟨-, hserves, -⟩
        · simp [htrace]
        · simp only [List.flatMap_eq_nil_iff, List.forall_mem_map]
          exact fun e he => (hserves e he).inert.2
      have hedits : (edits.map (QuestEvent.mk (some sid))).flatMap QuestEvent.recorded = [] := by
        simp only [List.flatMap_eq_nil_iff, List.forall_mem_map]
        intro e he
        obtain ⟨⟨edit, answer, rfl⟩, -⟩ := hedit.mem he
        rfl
      rw [← hauth.recorded]
      simp [QuestEvent.recorded, List.map_append, hrun, hedits]

/-- A performed action waits exactly when its plan is held back. -/
theorem records_performed (h : Planner.Performed planner plan w t w') :
    (Law.records (fun w : World ε => w.pending.map PendingApproval.planned)
      (QuestEvent.heldBack planner.principal autoCommit)).rel w
      (⟨some sid, .planAction thought (.ok plan)⟩ :: t.map (QuestEvent.mk (some sid))) w' := by
  have hheld : (t.map (QuestEvent.mk (some sid))).flatMap
      (QuestEvent.heldBack planner.principal autoCommit) = [] := by
    simp only [List.flatMap_eq_nil_iff, List.forall_mem_map]
    exact fun e he =>
      QuestEvent.heldBack_of_planned_eq_none (unplanned_performed hinner htools h e he)
  show List.map _ _ = List.map _ _ ++ List.flatMap _ _
  rw [List.flatMap_cons, hheld, List.append_nil]
  -- A refusal waits for nothing, and nor does what passes the gate.
  cases h with
  | denied p ts answer hp hdenied hpending =>
      simp [QuestEvent.heldBack, QuestEvent.planned, Principal.mayRun_of_some hp, hdenied, hpending]
  | @ran w₁ _ audits edits hauth h₁ hedit hpending =>
      rcases gate_cases htools hinner plan.tool plan.argument w₁ with
        ⟨⟨happroval, hcommit⟩, -, id, hwaits⟩ | ⟨hpass, -, hframe⟩
      · simp [QuestEvent.heldBack, QuestEvent.planned, PendingApproval.planned, hauth.mayRun,
          happroval, hcommit, hpending, hwaits, h₁]
      · simp [QuestEvent.heldBack, QuestEvent.planned, hauth.mayRun, hpass, hpending, hframe, h₁]

/-- What every plan of some kind is answered by, a performed action has to
answer for its own plan only. -/
theorem answers_performed {p : QuestEvent → Prop} {q : QuestEvent → QuestEvent → Prop}
    (hp : ∀ e, p e → e.planned ≠ none) (h : Planner.Performed planner plan w t w')
    (hanswer : p ⟨some sid, .planAction thought (.ok plan)⟩ → ∃ e ∈ t,
      q ⟨some sid, .planAction thought (.ok plan)⟩ ⟨some sid, e⟩) :
    (Law.answers (World ε) p q).rel w
      (⟨some sid, .planAction thought (.ok plan)⟩ :: t.map (QuestEvent.mk (some sid))) w' := by
  intro e he hpe
  -- `e` is the plan itself: nothing behind it is one
  rcases List.mem_cons.mp he with rfl | he
  · obtain ⟨e', he', hq⟩ := hanswer hpe
    exact ⟨_, List.mem_cons_of_mem _ (List.mem_map_of_mem he'), hq⟩
  · obtain ⟨e', he', rfl⟩ := List.mem_map.mp he
    exact absurd (unplanned_performed hinner htools h e' he') (hp _ hpe)

/-- A performed action refuses a forbidden plan. -/
theorem refusing_performed (h : Planner.Performed planner plan w t w') :
    (refusing ε planner.principal).rel w
      (⟨some sid, .planAction thought (.ok plan)⟩ :: t.map (QuestEvent.mk (some sid))) w' := by
  refine answers_performed hinner htools ?_ h ?_
  · rintro e ⟨sid, plan, hplanned, -⟩
    simp [hplanned]
  · rintro ⟨sid', plan', hplanned, hforbidden⟩
    obtain ⟨rfl, rfl⟩ : sid = sid' ∧ plan = plan' := by simpa [QuestEvent.planned] using hplanned
    cases h with
    | denied p ts answer hp hdenied hpending =>
        -- the denied entry of the same subtask
        refine ⟨.audit (planner.denial plan.tool p ts) answer, by simp, ?_⟩
        exact ⟨sid, plan, p, ts, _, answer, rfl, hp, rfl⟩
    | @ran w₁ _ audits edits hauth h₁ hedit hpending =>
        exact absurd hauth.mayRun (by simp [hforbidden])

/-- A performed action is governed. -/
theorem governed_performed (h : Planner.Performed planner plan w t w') :
    (governed ε planner.principal autoCommit).rel w
      (⟨some sid, .planAction thought (.ok plan)⟩ :: t.map (QuestEvent.mk (some sid))) w' :=
  ⟨under_performed hinner htools h, agree_performed hinner htools h,
    records_performed hinner htools h⟩

end Gated

end Performed

/-! ### Whole quests -/

theorem admitsQuiet_governed (principal : Principal) (autoCommit : Bool) (s : Option String) :
    ((governed ε principal autoCommit).comap (QuestEvent.mk s)).AdmitsQuiet := by
  intro w t w' hquiet hpending
  have hidle : ∀ e ∈ t.map (QuestEvent.mk s), e.planned = none ∧ e.recorded = [] ∧ ¬ e.Acts := by
    simp only [List.forall_mem_map]
    exact fun e he => (hquiet e he).inert
  have hrecorded : (t.map (QuestEvent.mk s)).flatMap QuestEvent.recorded = [] :=
    List.flatMap_eq_nil_iff.mpr fun e he => (hidle e he).2.1
  have howed : (t.map (QuestEvent.mk s)).flatMap (QuestEvent.owed principal) = [] :=
    List.flatMap_eq_nil_iff.mpr fun e he => QuestEvent.owed_of_planned_eq_none (hidle e he).1
  have hheld : (t.map (QuestEvent.mk s)).flatMap (QuestEvent.heldBack principal autoCommit) = [] :=
    List.flatMap_eq_nil_iff.mpr fun e he => QuestEvent.heldBack_of_planned_eq_none (hidle e he).1
  refine ⟨Law.under_of_idle fun e he => (hidle e he).2.2, howed.trans hrecorded.symm, ?_⟩
  show List.map _ _ = List.map _ _ ++ List.flatMap _ _
  rw [hheld, hpending, List.append_nil]

theorem admitsQuiet_answers {p : QuestEvent → Prop} {q : QuestEvent → QuestEvent → Prop}
    (hp : ∀ e, p e → e.planned ≠ none) (s : Option String) :
    ((Law.answers (World ε) p q).comap (QuestEvent.mk s)).AdmitsQuiet := by
  intro w t w' hquiet hpending e he hpe
  obtain ⟨e', he', rfl⟩ := List.mem_map.mp he
  exact absurd (hquiet e' he').inert.1 (hp _ hpe)

/-- A quest obeys every law that each of its performed actions obeys. -/
theorem Quest.obeys_of_performed {quest : Quest ε} {L : Law (World ε) QuestEvent}
    (hquiet : ∀ s, (L.comap (QuestEvent.mk s)).AdmitsQuiet)
    (hperformed : ∀ st thought plan w t w', Planner.Performed (quest.planner st) plan w t w' →
      L.rel w
        (⟨some st.id, .planAction thought (.ok plan)⟩ :: t.map (QuestEvent.mk (some st.id))) w')
    (goal : String) : L.Obeys (quest.run goal) := by
  refine Quest.obeys_run (hquiet _) (fun st => ?_) goal
  refine Planner.obeys_run (hquiet _) ?_ _
  intro thought plan w t w' h
  exact hperformed st thought plan w t w' h

/-- **Every quest is governed**, whatever its collaborators answer.  The gate stands
above the repairs, and a repair keeps its tool, so what the gate has let through is
still what runs. -/
theorem obeys_governed {quest : Quest ε} (hserves : quest.tools.Serves) (goal : String) :
    (governed ε quest.principal quest.config.autoCommit).Obeys (quest.run goal) := by
  have hinner : quest.healing.Serves := serves_selfHealing quest.llm hserves
  refine Quest.obeys_of_performed (admitsQuiet_governed _ _) ?_ goal
  intro st thought plan w t w' h
  have htools : (quest.planner st).tools =
    QuestToolExecutor quest.healing quest.config.autoCommit st.id := rfl
  show (governed ε (quest.planner st).principal quest.config.autoCommit).rel w _ w'
  exact governed_performed hinner htools h

/-- In every quest a forbidden plan is refused. -/
theorem obeys_refusing {quest : Quest ε} (hserves : quest.tools.Serves) (goal : String) :
    (refusing ε quest.principal).Obeys (quest.run goal) := by
  have hinner : quest.healing.Serves := serves_selfHealing quest.llm hserves
  refine Quest.obeys_of_performed (admitsQuiet_answers ?_) ?_ goal
  · rintro e ⟨sid, plan, hplanned, -⟩
    simp [hplanned]
  · intro st thought plan w t w' h
    have htools : (quest.planner st).tools =
      QuestToolExecutor quest.healing quest.config.autoCommit st.id := rfl
    show (refusing ε (quest.planner st).principal).rel w _ w'
    exact refusing_performed hinner htools h

/-- The pending approvals of the report are those before the run and, in
order, one for each plan held back. -/
theorem Quest.report_pending {quest : Quest ε} (hserves : quest.tools.Serves) (goal : String)
    (w : World ε) :
    ∃ report, (quest.run goal w).result = .ok report ∧
      report.pendingApprovals.map PendingApproval.planned =
        w.pending.map PendingApproval.planned ++ (quest.run goal w).trace.flatMap
          (QuestEvent.heldBack quest.principal quest.config.autoCommit) := by
  obtain ⟨report, hresult, hpending⟩ := quest.run_result goal w
  exact ⟨report, hresult, hpending ▸ (obeys_governed hserves goal w).2.2⟩

/-- A permitted plan that needs approval is among them, with its tool,
argument and subtask. -/
theorem Quest.exists_pendingApproval {quest : Quest ε} (hserves : quest.tools.Serves)
    {goal : String} {w : World ε} {sid : String} {thought : Thought} {plan : ActionPlan}
    (hmem : ⟨some sid, .planAction thought (.ok plan)⟩ ∈ (quest.run goal w).trace)
    (hmay : quest.principal.mayRun plan.tool = true) (happroval : needsApproval plan.tool = true)
    (hcommit : quest.config.autoCommit = false) :
    ∃ report id, (quest.run goal w).result = .ok report ∧
      ⟨id, plan.tool, plan.argument, sid⟩ ∈ report.pendingApprovals := by
  obtain ⟨report, hresult, hpending⟩ := Quest.report_pending hserves goal w
  have hheld : (sid, plan) ∈ report.pendingApprovals.map PendingApproval.planned := by
    rw [hpending, List.mem_append, List.mem_flatMap]
    refine .inr ⟨_, hmem, ?_⟩
    simp [QuestEvent.heldBack, QuestEvent.planned, hmay, happroval, hcommit]
  obtain ⟨⟨id, tool, argument, subtask⟩, hpa, hkey⟩ := List.mem_map.mp hheld
  obtain ⟨rfl, rfl⟩ : subtask = sid ∧ (⟨tool, argument⟩ : ActionPlan) = plan := by
    simpa [PendingApproval.planned] using hkey
  exact ⟨report, id, hresult, hpa⟩

/-- What reaches the base executor serves the latest plan, which was cleared. -/
theorem Quest.baseRun_cleared {quest : Quest ε} (hserves : quest.tools.Serves) {goal : String}
    {w : World ε} {pre post : List QuestEvent} {s : Option String} {tool argument : String}
    {answer : Except String Observation}
    (h : (quest.run goal w).trace = pre ++ ⟨s, .baseRun tool argument answer⟩ :: post) :
    ∃ sid plan, s = some sid ∧ Law.latest QuestEvent.planned pre = some (sid, plan) ∧
      tool = plan.tool ∧ Cleared quest.principal quest.config.autoCommit tool := by
  obtain ⟨⟨sid, plan⟩, hlatest, hs, ⟨htool, hcleared⟩ | ⟨⟨edit, answer, hedit⟩, -⟩⟩ :=
    (obeys_governed hserves goal w).1 pre _ post h trivial
  · exact ⟨sid, plan, hs, hlatest, htool, htool ▸ hcleared⟩
  · exact absurd hedit (by simp)

/-- A tool that waits for approval never reaches the base executor. -/
theorem Quest.not_mem_baseRun {quest : Quest ε} (hserves : quest.tools.Serves) (goal : String)
    (w : World ε) {tool : String} (happroval : needsApproval tool = true)
    (hcommit : quest.config.autoCommit = false) (s : Option String) (argument : String)
    (answer : Except String Observation) :
    ⟨s, .baseRun tool argument answer⟩ ∉ (quest.run goal w).trace := by
  intro hmem
  obtain ⟨pre, post, hsplit⟩ := List.append_of_mem hmem
  obtain ⟨-, -, -, -, -, -, hcleared⟩ := Quest.baseRun_cleared hserves hsplit
  exact absurd (hcleared happroval) (by simp [hcommit])

/-- **Quest authorization.**  Whatever the decomposer, the LLM, the base
executor and the host answer:

1. what reaches the base executor, healed re-runs included, serves the plan
   of its subtask, with a name that is unprivileged or whose bit is held, and
   that waits for no approval;
2. a permitted plan that needs approval is in the report with its tool,
   argument and subtask, and never reaches the base executor;
3. the host's documents are edited only under a `modify` of a principal who
   holds the bit;
4. the audit entries are those of the privileged plans, in order. -/
theorem quest_authorized (quest : Quest ε)
    (onRun : String → String → ε → Except String Observation × ε) (goal : String) (w : World ε) :
    let quest := { quest with tools := .external onRun }
    let trace := (quest.run goal w).trace
    (∀ pre s tool argument answer post,
      trace = pre ++ ⟨s, .baseRun tool argument answer⟩ :: post →
      (∃ sid plan, s = some sid ∧ Law.latest QuestEvent.planned pre = some (sid, plan) ∧
        tool = plan.tool) ∧
      (∀ p, actionPermission tool = some p → quest.principal.holds p = true ∧
        (p = .execute ∨ p = .commit → quest.config.autoCommit = true))) ∧
    (∀ sid thought plan p, ⟨some sid, .planAction thought (.ok plan)⟩ ∈ trace →
      actionPermission plan.tool = some p → p = .execute ∨ p = .commit →
      quest.principal.holds p = true → quest.config.autoCommit = false →
      (∃ report id, (quest.run goal w).result = .ok report ∧
        ⟨id, plan.tool, plan.argument, sid⟩ ∈ report.pendingApprovals) ∧
      ∀ s argument answer, ⟨s, .baseRun plan.tool argument answer⟩ ∉ trace) ∧
    (∀ pre s edit answer post, trace = pre ++ ⟨s, .applyEdit edit answer⟩ :: post →
      ∃ sid plan, s = some sid ∧ Law.latest QuestEvent.planned pre = some (sid, plan) ∧
        plan.tool = "modify" ∧ quest.principal.holds .modify = true) ∧
    trace.flatMap QuestEvent.recorded = trace.flatMap (QuestEvent.owed quest.principal) := by
  intro quest trace
  have hserves : quest.tools.Serves := serves_external onRun
  refine ⟨?_, ?_, ?_, ?_⟩
  -- What reached the base executor was cleared under its latest plan.
  · intro pre s tool argument answer post hsplit
    obtain ⟨sid, plan, hs, hlatest, htool, hmay, happroved⟩ :=
      Quest.baseRun_cleared hserves hsplit
    refine ⟨⟨sid, plan, hs, hlatest, htool⟩, fun p hp => ⟨?_, fun hclass => happroved ?_⟩⟩
    · rw [← Principal.mayRun_of_some hp, hmay]
    · exact (needsApproval_iff tool).mpr ⟨p, hp, hclass⟩
  -- A permitted plan that needs approval: it waits, and is not run.
  · intro sid thought plan p hmem hp hclass hholds hcommit
    have happroval := (needsApproval_iff plan.tool).mpr ⟨p, hp, hclass⟩
    have hmay : quest.principal.mayRun plan.tool = true := by
      rw [Principal.mayRun_of_some hp, hholds]
    exact ⟨Quest.exists_pendingApproval hserves hmem hmay happroval hcommit,
      Quest.not_mem_baseRun hserves goal w happroval hcommit⟩
  -- An edit acts as well, so the invariant applies to it; serving a tool it cannot be.
  · intro pre s edit answer post hsplit
    obtain ⟨⟨sid, plan⟩, hlatest, hs, ⟨hserve, -⟩ | ⟨-, hmodify, hholds⟩⟩ :=
      (obeys_governed hserves goal w).1 pre _ post hsplit trivial
    · exact hserve.elim
    · exact ⟨sid, plan, hs, hlatest, hmodify, hholds⟩
  · exact (obeys_governed hserves goal w).2.1.symm

end AgenticIde
