/-
AgenticIde/QuestAudit.lean

Executions and their audit entries.

The planner audits a privileged action once, when it authorizes it.  The self-healing below
it runs the tool again for every repair, and no entry is made there; so the executions of a
quest outnumber its granted entries by exactly the repairs (`Quest.obeys_balance`), and every
execution has an entry of its own exactly in the runs that repair nothing privileged.

Which entry may stand for which execution is a parameter (`Keying`): by the class of the
action, so that any entry of the class will do, or by the tool, so that the entry has to name
it.  The two give the same answer, and the lemmas are proved for all keyings at once: an
execution, an entry and a repair are counted under their key, and `balance` says that the
first number is the sum of the others.

A repair shows in the trace as a thought behind an execution that failed.  That is why the
balance also says that the part of the trace it is about begins with no thought (`Closed`):
put behind a failure, such a part would make a repair of it that there was not.

Keys that wait for approval are left out.  Their actions are held back at the gate, so they
have entries without executions, and not the other way round.
-/
import AgenticIde.Lib.Tally
import AgenticIde.QuestGate

namespace AgenticIde

variable {ε : Type}

/-! ### Keys -/

/-- A way to tell which audit entries may stand for which executions: by the
keys of both.  Every privileged tool has a key; the entry of an authorized
action has the key of its tool, and a denied entry has none. -/
structure Keying (κ : Type) where
  ofTool : String → Option κ
  ofEntry : AuditEvent → Option κ
  isSome_ofTool : ∀ tool, (ofTool tool).isSome = (actionPermission tool).isSome
  needsApproval_eq : ∀ {tool tool'}, ofTool tool = ofTool tool' →
    needsApproval tool = needsApproval tool'
  ofEntry_granted : ∀ {tool p} ts principal, actionPermission tool = some p →
    ofEntry (.new ts principal (.fromPermission p) true (.obj [("tool", .str tool)])) = ofTool tool
  ofEntry_denied : ∀ {event}, event.granted = false → ofEntry event = none

namespace Keying

/-- Any granted entry of the action class stands for an execution. -/
def byAction : Keying AuditAction where
  ofTool tool := (actionPermission tool).map .fromPermission
  ofEntry event := if event.granted then some event.action else none
  isSome_ofTool tool := by simp
  needsApproval_eq h := by
    rw [needsApproval, needsApproval, Option.map_injective AuditAction.fromPermission_injective h]
  ofEntry_granted ts principal hp := by simp [AuditEvent.new, hp]
  ofEntry_denied h := by simp [h]

/-- The tool that the payload of an entry names. -/
def toolOf : Json → Option String
  | .obj fields =>
      match fields.lookup "tool" with
      | some (.str tool) => some tool
      | _ => none
  | _ => none

/-- Only a granted entry that names the tool stands for its execution. -/
def byTool : Keying (AuditAction × String) where
  ofTool tool := (actionPermission tool).map fun p => (.fromPermission p, tool)
  ofEntry event :=
    if event.granted then (toolOf event.payload).map fun tool => (event.action, tool) else none
  isSome_ofTool tool := by simp
  needsApproval_eq {tool tool'} h := by
    rcases hp : actionPermission tool with - | p <;>
      rcases hp' : actionPermission tool' with - | p'
    · rw [needsApproval, needsApproval, hp, hp']
    · simp [hp, hp'] at h
    · simp [hp, hp'] at h
    · obtain ⟨-, rfl⟩ : AuditAction.fromPermission p = .fromPermission p' ∧ tool = tool' := by
        simpa [hp, hp'] using h
      rfl
  ofEntry_granted ts principal hp := by simp [AuditEvent.new, toolOf, hp]
  ofEntry_denied h := by simp [h]

variable {κ : Type} (keying : Keying κ)

/-- The key of an execution at the base executor. -/
def executed : QuestEvent → Option κ
  | ⟨_, .baseRun tool _ _⟩ => keying.ofTool tool
  | _ => none

/-- The key of an audit entry. -/
def entered : QuestEvent → Option κ
  | ⟨_, .audit event _⟩ => keying.ofEntry event
  | _ => none

/-- The key of an execution that failed. -/
def failed : QuestEvent → Option κ
  | ⟨some _, .baseRun tool _ (.error _)⟩ => keying.ofTool tool
  | _ => none

theorem entered_emitEvent (s : Option String) (event : HostEvent) :
    keying.entered ⟨s, .emitEvent event⟩ = none := rfl

theorem executed_baseRun (s : Option String) (tool argument : String)
    (answer : Except String Observation) :
    keying.executed ⟨s, .baseRun tool argument answer⟩ = keying.ofTool tool := rfl

variable {keying} {k : κ} {e : QuestEvent}

theorem executed_eq_some (h : keying.executed e = some k) :
    ∃ s tool argument answer, e = ⟨s, .baseRun tool argument answer⟩ ∧
      keying.ofTool tool = some k := by
  unfold executed at h
  split at h
  · exact ⟨_, _, _, _, rfl, h⟩
  · simp at h

theorem failed_eq_some (h : keying.failed e = some k) :
    ∃ s tool argument err, e = ⟨some s, .baseRun tool argument (.error err)⟩ ∧
      keying.ofTool tool = some k := by
  unfold failed at h
  split at h
  · exact ⟨_, _, _, _, rfl, h⟩
  · simp at h

theorem executed_of_failed (h : keying.failed e = some k) : keying.executed e = some k := by
  obtain ⟨s, tool, argument, err, rfl, hkey⟩ := failed_eq_some h
  exact hkey

end Keying

/-- The LLM had a thought. -/
def QuestEvent.isThought : QuestEvent → Bool
  | ⟨some _, .think _ (.ok _)⟩ => true
  | _ => false

theorem QuestEvent.eq_think {e : QuestEvent} (h : e.isThought = true) :
    ∃ s context thought, e = ⟨some s, .think context (.ok thought)⟩ := by
  unfold isThought at h
  split at h
  · exact ⟨_, _, _, rfl⟩
  · simp at h

/-- No failed call of a privileged tool is repaired: the LLM never answers
right after one. -/
def Unrepaired (trace : List QuestEvent) : Prop :=
  ∀ pre post s s' tool argument err context thought,
    trace = pre ++ ⟨some s, .baseRun tool argument (.error err)⟩ ::
      ⟨some s', .think context (.ok thought)⟩ :: post →
    actionPermission tool = none

/-! ### The balance of executions and entries -/

namespace Keying

variable {κ : Type} [DecidableEq κ] (keying : Keying κ) (k : κ)

/-- One for the key, none for every other. -/
def hits (k : κ) (key : Option κ) : Nat := if key = some k then 1 else 0

@[simp] theorem hits_none (k : κ) : hits k none = 0 := rfl

/-- The executions with the key. -/
def executions (t : List QuestEvent) : Nat := t.countP fun e => keying.executed e = some k

/-- The entries with the key. -/
def entries (t : List QuestEvent) : Nat := t.countP fun e => keying.entered e = some k

/-- The repairs of executions with the key. -/
def repairs (t : List QuestEvent) : Nat :=
  neighbours (fun e => keying.failed e = some k) QuestEvent.isThought t

/-- The law that executions are entries and repairs. -/
def balance (ε : Type) : Law (World ε) QuestEvent :=
  Law.balance _ (fun e => keying.executed e = some k) (fun e => keying.entered e = some k)
    (fun e => keying.failed e = some k) QuestEvent.isThought

variable {keying k} {e : QuestEvent} {t t' : List QuestEvent}

@[simp] theorem executions_append :
    keying.executions k (t ++ t') = keying.executions k t + keying.executions k t' :=
  List.countP_append

@[simp] theorem entries_append :
    keying.entries k (t ++ t') = keying.entries k t + keying.entries k t' :=
  List.countP_append

theorem repairs_append (h : Closed QuestEvent.isThought t') :
    keying.repairs k (t ++ t') = keying.repairs k t + keying.repairs k t' :=
  neighbours_append h

theorem executions_of_unexecuted (h : ∀ e ∈ t, keying.executed e = none) :
    keying.executions k t = 0 := by
  rw [executions, List.countP_eq_zero]
  intro e he
  simp [h e he]

theorem entries_of_unentered (h : ∀ e ∈ t, keying.entered e = none) :
    keying.entries k t = 0 := by
  rw [entries, List.countP_eq_zero]
  intro e he
  simp [h e he]

/-- What is repaired was executed. -/
theorem repairs_of_executions (h : keying.executions k t = 0) : keying.repairs k t = 0 := by
  rw [repairs, neighbours_eq_zero_iff]
  rintro pre e e' post rfl hfailed
  rw [executions, List.countP_eq_zero] at h
  exact absurd (executed_of_failed (of_decide_eq_true hfailed)) (by simpa using h e (by simp))

@[simp] theorem executions_nil : keying.executions k [] = 0 := rfl

theorem executions_cons (e : QuestEvent) (t : List QuestEvent) :
    keying.executions k (e :: t) =
      hits k (keying.executed e) + keying.executions k t := by
  simp [executions, hits, List.countP_cons, Nat.add_comm]

theorem entries_cons (e : QuestEvent) (t : List QuestEvent) :
    keying.entries k (e :: t) =
      hits k (keying.entered e) + keying.entries k t := by
  simp [entries, hits, List.countP_cons, Nat.add_comm]

theorem repairs_cons_cons (e e' : QuestEvent) (t : List QuestEvent) :
    keying.repairs k (e :: e' :: t) =
      (if e'.isThought then hits k (keying.failed e) else 0) +
        keying.repairs k (e' :: t) := by
  rcases h : e'.isThought <;> simp [repairs, neighbours, hits, h]

theorem repairs_singleton (e : QuestEvent) : keying.repairs k [e] = 0 := rfl

/-- An event that executes nothing is not repaired. -/
theorem repairs_cons_of_executed (h : keying.executed e = none) (t : List QuestEvent) :
    keying.repairs k (e :: t) = keying.repairs k t := by
  have hfailed : ¬ keying.failed e = some k := by
    intro hfailed
    have hexecuted := executed_of_failed hfailed
    simp [h] at hexecuted
  exact neighbours_cons_of_not (p := fun e => keying.failed e = some k)
    (decide_eq_false hfailed) t

/-! ### The balance of a round -/

section Round

variable {sid tool : String} {u : List Event}

/-- A healed call executes once, and once more for each repair. -/
theorem executions_healed (h : Healed tool u) :
    keying.executions k (u.map (QuestEvent.mk (some sid))) =
      hits k (keying.ofTool tool) +
        keying.repairs k (u.map (QuestEvent.mk (some sid))) := by
  induction h with
  | succeeded argument obs => simp [executions_cons, repairs_singleton, executed_baseRun]
  | failed argument err => simp [executions_cons, repairs_singleton, executed_baseRun]
  | unanswered argument err context err' =>
      have hthink : keying.executed ⟨some sid, .think context (.error err')⟩ = none := rfl
      simp [executions_cons, repairs_cons_cons, repairs_singleton, executed_baseRun, hthink,
        QuestEvent.isThought]
  | @repaired argument err context thought t h ih =>
      have hthink : keying.executed ⟨some sid, .think context (.ok thought)⟩ = none := rfl
      rw [List.map_cons, List.map_cons, executions_cons, executions_cons, repairs_cons_cons,
        repairs_cons_of_executed hthink, ih]
      simp [executed_baseRun, hthink, Keying.failed, QuestEvent.isThought]

theorem entries_healed (h : Healed tool u) :
    keying.entries k (u.map (QuestEvent.mk (some sid))) = 0 := by
  apply entries_of_unentered
  induction h with
  | succeeded argument obs => simp [entered]
  | failed argument err => simp [entered]
  | unanswered argument err context err' => simp [entered]
  | repaired argument err context thought h ih => simpa [entered] using ih

theorem closed_healed (h : Healed tool u) :
    Closed QuestEvent.isThought (u.map (QuestEvent.mk (some sid))) := by
  rcases h <;> exact closed_cons.mpr rfl

variable {planner : Planner ε} {plan : ActionPlan} {inner : ToolExecutor ε} {autoCommit : Bool}
  {w w' : World ε}

/-- An authorized action has the one entry that its tool needs. -/
theorem entries_authorized (h : planner.Authorized tool u) :
    keying.entries k (u.map (QuestEvent.mk (some sid))) = hits k (keying.ofTool tool) := by
  cases h with
  | unprivileged h =>
      have hnone : keying.ofTool tool = none := by
        rw [← Option.not_isSome_iff_eq_none, keying.isSome_ofTool, h]
        simp
      rw [hnone]
      rfl
  | privileged p ts answer hp hholds =>
      have hentered := keying.ofEntry_granted ts planner.principal hp
      rw [List.map_singleton, entries_cons]
      show hits k (keying.ofEntry _) + _ = _
      rw [hentered]
      rfl

omit [DecidableEq κ] in
theorem unexecuted_authorized (h : planner.Authorized tool u) :
    ∀ e ∈ u.map (QuestEvent.mk (some sid)), keying.executed e = none := by
  cases h with
  | unprivileged h => simp
  | privileged p ts answer hp hholds => simp [executed]

omit [DecidableEq κ] in
theorem inert_edited (h : Planner.Edited plan u) :
    ∀ e ∈ u.map (QuestEvent.mk (some sid)),
      keying.executed e = none ∧ keying.entered e = none ∧ e.isThought = false := by
  cases h with
  | none => simp
  | modify edit answer hmodify => simp [executed, entered, QuestEvent.isThought]

/-- What the gate passes is a healed call; what it holds back has a key that
waits for approval. -/
theorem executions_gate
    (hk : ∀ tool, keying.ofTool tool = some k → ¬ (needsApproval tool = true ∧ autoCommit = false))
    (htools : planner.tools = QuestToolExecutor inner autoCommit sid)
    (hinner : ∀ tool argument w, Healed tool (inner.run tool argument w).trace)
    (tool argument : String) (w : World ε) :
    let t := (planner.tools.run tool argument w).trace.map (QuestEvent.mk (some sid))
    keying.executions k t = hits k (keying.ofTool tool) + keying.repairs k t ∧
      keying.entries k t = 0 ∧ Closed QuestEvent.isThought t := by
  intro t
  -- What is held back at the gate is not run, and its key is excluded.
  by_cases hheld : needsApproval tool = true ∧ autoCommit = false
  · obtain ⟨obs, id, w', hrun, -⟩ := gate_holds inner sid argument hheld.1 hheld.2 w
    have hkey : keying.ofTool tool ≠ some k := fun h => hk tool h hheld
    have ht : t = [] := by simp only [t, htools, hrun, List.map_nil]
    rw [ht, hits, if_neg hkey]
    exact ⟨rfl, rfl, closed_nil⟩
  · have ht : t = (inner.run tool argument w).trace.map (QuestEvent.mk (some sid)) := by
      simp only [t, htools, gate_passes hheld]
    have hhealed := hinner tool argument w
    rw [ht]
    exact ⟨executions_healed hhealed, entries_healed hhealed, closed_healed hhealed⟩

/-- A performed action executes as often as it is recorded and repaired,
unless its tool is one that waits for approval. -/
theorem balance_performed
    (hk : ∀ tool, keying.ofTool tool = some k → ¬ (needsApproval tool = true ∧ autoCommit = false))
    (htools : planner.tools = QuestToolExecutor inner autoCommit sid)
    (hinner : ∀ tool argument w, Healed tool (inner.run tool argument w).trace)
    (h : planner.Performed plan w u w') :
    keying.executions k (u.map (QuestEvent.mk (some sid))) =
      keying.entries k (u.map (QuestEvent.mk (some sid))) +
        keying.repairs k (u.map (QuestEvent.mk (some sid))) := by
  cases h with
  | denied p ts answer hp hdenied hpending =>
      -- a denied action runs nothing, and its entry is no grant
      have hentered :
          keying.entered ⟨some sid, .audit (planner.denial plan.tool p ts) answer⟩ = none :=
        keying.ofEntry_denied rfl
      have hexecutions : keying.executions k (List.map (QuestEvent.mk (some sid))
          [.emitEvent (.status s!"action={plan.tool} arg={plan.argument}"),
            .audit (planner.denial plan.tool p ts) answer,
            .emitEvent (.status s!"permission denied: {plan.tool}")]) = 0 :=
        executions_of_unexecuted (by simp [executed])
      rw [repairs_of_executions hexecutions, hexecutions, entries_of_unentered]
      simp [hentered, entered_emitEvent]
  | @ran w₁ _ audits edits hauth h₁ hedit hpending =>
      obtain ⟨hrun, hrunEntries, hrunClosed⟩ :=
        executions_gate hk htools hinner plan.tool plan.argument w₁
      have hedits : ∀ e ∈ edits.map (QuestEvent.mk (some sid)),
          keying.executed e = none ∧ keying.entered e = none ∧ e.isThought = false :=
        inert_edited hedit
      have heditsClosed : Closed QuestEvent.isThought (edits.map (QuestEvent.mk (some sid))) :=
        closed_of_forall fun e he => (hedits e he).2.2
      have heditsZero := executions_of_unexecuted (k := k) fun e he => (hedits e he).1
      have hauditsZero : keying.executions k (audits.map (QuestEvent.mk (some sid))) = 0 :=
        executions_of_unexecuted (unexecuted_authorized hauth)
      have hemit : keying.executed ⟨some sid, .emitEvent
        (.status s!"action={plan.tool} arg={plan.argument}")⟩ = none := rfl
      simp only [List.map_cons, List.map_append]
      rw [repairs_cons_of_executed hemit, repairs_append (hrunClosed.append heditsClosed),
        repairs_append heditsClosed, repairs_of_executions hauditsZero,
        repairs_of_executions heditsZero, executions_cons, entries_cons]
      simp only [executions_append, entries_append]
      rw [hauditsZero, heditsZero, hrun, hrunEntries, entries_authorized hauth,
        entries_of_unentered fun e he => (hedits e he).2.1]
      show 0 + _ = 0 + _ + _
      omega

/-- **A round is balanced**: it executes a tool as often as it writes an entry for
it or repairs a call of it.  By the ways of a round; only the last has executed
anything. -/
theorem balance_round
    (hk : ∀ tool, keying.ofTool tool = some k → ¬ (needsApproval tool = true ∧ autoCommit = false))
    (htools : planner.tools = QuestToolExecutor inner autoCommit sid)
    (hinner : ∀ tool argument w, Healed tool (inner.run tool argument w).trace)
    (h : planner.Round u) (w w' : World ε) :
    (keying.balance k ε).rel w (u.map (QuestEvent.mk (some sid))) w' := by
  -- A round begins with a line for the host, so it follows no failure with a thought.
  refine ⟨by rcases h <;> exact closed_cons.mpr rfl, ?_⟩
  show keying.executions k _ = keying.entries k _ + keying.repairs k _
  rcases h with ⟨event, context, err⟩ | ⟨event, context, thought, err⟩ |
    @⟨event, context, thought, plan, w₁, w₂, t, hperformed⟩
  · rfl
  · rfl
  · have hbalance := balance_performed hk htools hinner hperformed
    -- The three events before the performed action have no key, and none is a failure.
    have hunexecuted : ∀ e ∈ [Event.emitEvent event, .think context (.ok thought),
        .planAction thought (.ok plan)],
        keying.executed ⟨some sid, e⟩ = none ∧ keying.entered ⟨some sid, e⟩ = none := by
      simp [executed, entered]
    simp only [List.forall_mem_cons] at hunexecuted
    obtain ⟨⟨h₁, h₁'⟩, ⟨h₂, h₂'⟩, ⟨h₃, h₃'⟩, -⟩ := hunexecuted
    simp only [List.map_cons]
    rw [repairs_cons_of_executed h₁, repairs_cons_of_executed h₂, repairs_cons_of_executed h₃]
    simp only [executions_cons, entries_cons, h₁, h₁', h₂, h₂', h₃, h₃', hits_none, Nat.zero_add]
    exact hbalance

end Round

/-- What a decomposer does is balanced. -/
theorem admitsQuiet_balance : (((keying.balance k ε).comap (QuestEvent.mk none))).AdmitsQuiet := by
  intro w t w' hquiet hpending
  have hinert : ∀ e ∈ t.map (QuestEvent.mk none),
      keying.executed e = none ∧ keying.entered e = none ∧ e.isThought = false := by
    simp only [List.forall_mem_map]
    intro e he
    have hq := hquiet e he
    rcases e <;> first | exact ⟨rfl, rfl, rfl⟩ | exact hq.elim
  have hexecutions : keying.executions k (t.map (QuestEvent.mk none)) = 0 :=
    executions_of_unexecuted fun e he => (hinert e he).1
  refine ⟨closed_of_forall fun e he => (hinert e he).2.2, ?_⟩
  show keying.executions k _ = keying.entries k _ + keying.repairs k _
  rw [repairs_of_executions hexecutions, hexecutions,
    entries_of_unentered fun e he => (hinert e he).2.1]

end Keying

/-! ### Whole quests -/

namespace Quest

variable {κ : Type} [DecidableEq κ] {keying : Keying κ} {k : κ} {quest : Quest ε}
  {onRun : String → String → ε → Except String Observation × ε}

/-- **The executions of a quest are its entries and its repairs**, key by key, where
the key waits for no approval.  A tool that waits leaves an entry and is not run, so
there the equation would not hold. -/
theorem obeys_balance (htools : quest.tools = .external onRun)
    (hk : ∀ tool, keying.ofTool tool = some k →
      ¬ (needsApproval tool = true ∧ quest.config.autoCommit = false)) (goal : String) :
    (keying.balance k ε).Obeys (quest.run goal) := by
  have hinner : ∀ tool argument w, Healed tool (quest.healing.run tool argument w).trace := by
    intro tool argument w
    rw [healing, htools]
    exact healed_run onRun _ _ _ _ _
  refine obeys_run Keying.admitsQuiet_balance (fun st => ?_) goal
  refine Planner.obeys_loop_of_round (fun event context w => ?_) _ _ _ _
  exact Keying.balance_round hk rfl hinner
    (Planner.round_react (quest.planner st) event context w) w w

/-- What waits for approval is never executed. -/
theorem executions_of_held (htools : quest.tools = .external onRun) {tool : String}
    (hkey : keying.ofTool tool = some k)
    (hheld : needsApproval tool = true ∧ quest.config.autoCommit = false) (goal : String)
    (w : World ε) : keying.executions k (quest.run goal w).trace = 0 := by
  have hserves : quest.tools.Serves := htools ▸ serves_external onRun
  rw [Keying.executions, List.countP_eq_zero]
  intro e he hexecuted
  obtain ⟨s, tool', argument, answer, rfl, hkey'⟩ :=
    Keying.executed_eq_some (of_decide_eq_true hexecuted)
  have happroval : needsApproval tool' = true := by
    rw [← hheld.1]
    exact keying.needsApproval_eq (hkey'.trans hkey.symm)
  exact not_mem_baseRun hserves goal w happroval hheld.2 s argument answer he

/-- Executions have entries of their own exactly when none is repaired. -/
theorem covered_iff_unrepaired (keying : Keying κ) (htools : quest.tools = .external onRun)
    (goal : String) (w : World ε) :
    Covered keying.executed keying.entered (quest.run goal w).trace ↔
      Unrepaired (quest.run goal w).trace := by
  set trace := (quest.run goal w).trace with htrace
  have hcount : ∀ k, keying.executions k trace ≤ keying.entries k trace ↔
      keying.repairs k trace = 0 := by
    intro k
    by_cases hheld : ∃ tool, keying.ofTool tool = some k ∧
        needsApproval tool = true ∧ quest.config.autoCommit = false
    · obtain ⟨tool, hkey, hheld⟩ := hheld
      have hzero := executions_of_held htools hkey hheld goal w
      rw [← htrace] at hzero
      simp [hzero, Keying.repairs_of_executions hzero]
    · have hbalance : keying.executions k trace =
          keying.entries k trace + keying.repairs k trace :=
        (obeys_balance htools (fun tool hkey h => hheld ⟨tool, hkey, h⟩) goal w).2
      omega
  rw [covered_iff]
  refine (forall_congr' hcount).trans ⟨fun hrepairs => ?_, fun hunrepaired k => ?_⟩
  · intro pre post s s' tool argument err context thought hsplit
    rcases hp : actionPermission tool with - | p
    · rfl
    · -- a privileged tool has a key, and its repairs count under it
      obtain ⟨k, hkey⟩ : ∃ k, keying.ofTool tool = some k := by
        rw [← Option.isSome_iff_exists, keying.isSome_ofTool, hp]
        rfl
      have hthought := neighbours_eq_zero_iff.mp (hrepairs k) _ _ _ _ hsplit (decide_eq_true hkey)
      exact absurd hthought (by simp [QuestEvent.isThought])
  · apply neighbours_eq_zero_iff.mpr
    intro pre e e' post hsplit hfailed
    obtain ⟨s, tool, argument, err, rfl, hkey⟩ :=
      Keying.failed_eq_some (of_decide_eq_true hfailed)
    rcases hthought : e'.isThought with - | -
    · rfl
    · obtain ⟨s', context, thought, rfl⟩ := QuestEvent.eq_think hthought
      have hnone := hunrepaired pre post s s' tool argument err context thought hsplit
      have hsome := keying.isSome_ofTool tool
      simp [hkey, hnone] at hsome

/-- **Audit completeness of executions.**  Whatever the LLM, the tools and
the host answer, and whatever the principal and the configuration, every
privileged execution of a quest at the base executor has a granted entry of
its own exactly when the run repairs no privileged call; and it makes no
difference whether any granted entry of its action will do, or only one that
names its tool. -/
theorem executions_audited_iff (quest : Quest ε)
    (onRun : String → String → ε → Except String Observation × ε) (goal : String) (w : World ε) :
    let trace := ({ quest with tools := .external onRun }.run goal w).trace
    (Covered Keying.byAction.executed Keying.byAction.entered trace ↔ Unrepaired trace) ∧
      (Covered Keying.byTool.executed Keying.byTool.entered trace ↔ Unrepaired trace) :=
  ⟨covered_iff_unrepaired .byAction rfl goal w, covered_iff_unrepaired .byTool rfl goal w⟩

/-- A quest of one step whose LLM reads a file under a wrong name, and
corrects it when told of the failure. -/
def repairing : Quest Unit where
  decomposer := .external fun goal env => ([.new "st-1" goal], env)
  llm := ⟨fun _ env => (.ok ⟨"PATCH: lib.rs"⟩, env), fun _ env => (.ok ⟨"read", "lob.rs"⟩, env)⟩
  tools := .external fun tool argument env =>
    (if argument = "lib.rs" then .ok ⟨tool, "pub mod ide", false⟩ else .error "no such file", env)
  validator := BasicValidator 1
  bridge := ⟨fun _ env => (.ok (), env), fun _ env => env⟩
  config := ⟨1, 1, false, 3, 0⟩
  principal := .all "t" "u"
  audit := ⟨fun _ env => (.ok (), env)⟩

/-- It reads twice and records once. -/
theorem repairing_uncovered :
    ¬ Covered Keying.byAction.executed Keying.byAction.entered
      (repairing.run "goal" (.initial ())).trace := by
  rw [covered_iff]
  intro h
  exact absurd (h .read) (by decide +kernel)

end Quest

end AgenticIde
