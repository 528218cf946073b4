/-
AgenticIde/QuestRuns.lean

Several runs of one quest.

The collection of pending approvals belongs to the quest and not to the run: a run adds what
its gate holds back (`Quest.report_pending`) and nothing empties the collection.  A report
therefore lists the approvals of every run so far, and is about its own run exactly when no
earlier run held anything back.

The server makes a new quest for each request, so it never comes to this; a caller that keeps
the quest does.  Nothing else is carried from one run to the next but the world, which goes on
changing in between.

The invariant (`History`) has both halves: what waits is what all runs so far have held back,
and a report is about its own run as long as only the last run has held anything back.
-/
import AgenticIde.Lib.Machine
import AgenticIde.QuestGate

namespace AgenticIde

variable {ε : Type}

/-- What comes of one run: its report, and the calls that its gate held back,
in the order they were planned, with their subtasks. -/
structure QuestOutcome where
  report : Except String QuestReport
  gated : List (String × ActionPlan)

/-- The approvals of the report are those of the run: the calls that its own gate
held back, in the order they were planned, and none of an earlier run. -/
def QuestOutcome.Own (outcome : QuestOutcome) : Prop :=
  ∃ report, outcome.report = .ok report ∧
    report.pendingApprovals.map PendingApproval.planned = outcome.gated

namespace Quest

/-- A new quest, in the middle of anything else. -/
def freshPending (w : World ε) : World ε := { w with pending := [] }

/-- One more run. -/
def step (self : Quest ε) (w : World ε) (goal : String) : World ε × List QuestOutcome :=
  let o := self.run goal w
  (o.state,
    [⟨o.result, o.trace.flatMap (QuestEvent.heldBack self.principal self.config.autoCommit)⟩])

/-- Run one quest after the other, toward each goal. -/
def runGoals (self : Quest ε) (w : World ε) (goals : List String) : World ε × List QuestOutcome :=
  Machine.run self.step (freshPending w) goals

variable {self : Quest ε}

/-- A run adds what it holds back, and reports all there is. -/
theorem step_pending (hserves : self.tools.Serves) (w : World ε) (goal : String) :
    ∃ report gated, (self.step w goal).2 = [⟨.ok report, gated⟩] ∧
      report.pendingApprovals.map PendingApproval.planned =
        w.pending.map PendingApproval.planned ++ gated ∧
      (self.step w goal).1.pending.map PendingApproval.planned =
        w.pending.map PendingApproval.planned ++ gated := by
  obtain ⟨report, hresult, hpending⟩ := self.report_pending hserves goal w
  refine ⟨report, _, ?_, hpending, (obeys_governed hserves goal w).2.2⟩
  rw [step, hresult]

/-- The history of a quest: what waits is what all runs held back, and every
report is about its own run as long as only the last run held anything back. -/
def History (w : World ε) (outcomes : List QuestOutcome) : Prop :=
  w.pending.map PendingApproval.planned = outcomes.flatMap QuestOutcome.gated ∧
    ((∀ o ∈ outcomes, o.Own) ↔ ∀ o ∈ outcomes.dropLast, o.gated = [])

theorem history_step (hserves : self.tools.Serves) {w : World ε} {outcomes : List QuestOutcome}
    (h : History w outcomes) (goal : String) :
    History (self.step w goal).1 (outcomes ++ (self.step w goal).2) := by
  obtain ⟨hpending, hown⟩ := h
  obtain ⟨report, gated, houtcome, hreport, hafter⟩ := step_pending hserves w goal
  rw [houtcome]
  refine ⟨by rw [hafter, hpending, List.flatMap_append]; simp, ?_⟩
  -- the new report is about its own run when nothing waited before
  have hlast : QuestOutcome.Own ⟨.ok report, gated⟩ ↔ ∀ o ∈ outcomes, o.gated = [] := by
    rw [← List.flatMap_eq_nil_iff, ← hpending]
    constructor
    · rintro ⟨report', hok, hgated⟩
      obtain rfl : report = report' := by simpa using hok
      simpa using hreport.symm.trans hgated
    · intro hnone
      exact ⟨report, rfl, by rw [hreport, hnone, List.nil_append]⟩
  simp only [List.mem_append, List.mem_singleton, or_imp, forall_and, forall_eq, hown, hlast,
    List.dropLast_concat]
  exact ⟨fun h => h.2, fun h => ⟨fun o ho => h o (List.dropLast_subset _ ho), h⟩⟩

/-- **Whose approvals a report lists.**  Over the runs of one quest, every
report lists the calls that the gate held back in its own run, in the order
they were planned and with their subtasks, exactly when no run but the last
held anything back. -/
theorem runGoals_own_iff (self : Quest ε)
    (onRun : String → String → ε → Except String Observation × ε) (w : World ε)
    (goals : List String) :
    let quest := { self with tools := .external onRun }
    (∀ o ∈ (quest.runGoals w goals).2, o.Own) ↔
      ∀ o ∈ (quest.runGoals w goals).2.dropLast, o.gated = [] := by
  intro quest
  have hserves : quest.tools.Serves := serves_external onRun
  have hstart : History (freshPending w) [] := ⟨rfl, by simp⟩
  have hhistory : History (quest.runGoals w goals).1 (quest.runGoals w goals).2 :=
    Machine.run_induction (P := fun _ w outcomes => History w outcomes) hstart
      (fun _ goal _ _ h => history_step hserves h goal) goals
  exact hhistory.2

/-- A quest of one step that always plans a commit. -/
def committing : Quest Unit where
  decomposer := .external fun goal env => ([.new "st-1" goal], env)
  llm := ⟨fun _ env => (.ok ⟨""⟩, env), fun _ env => (.ok ⟨"commit", "all"⟩, env)⟩
  tools := .external fun _ _ env => (.error "", env)
  validator := BasicValidator 1
  bridge := ⟨fun _ env => (.ok (), env), fun _ env => env⟩
  config := ⟨1, 1, false, 0, 0⟩
  principal := .all "t" "u"
  audit := ⟨fun _ env => (.ok (), env)⟩

/-- Its second report lists the commit of the first run as well. -/
theorem committing_not_own :
    ¬ ∀ o ∈ (committing.runGoals (World.initial ()) ["a", "b"]).2, o.Own := by
  intro h
  obtain ⟨o, ho, hreport, hgated⟩ : ∃ o ∈ (committing.runGoals (World.initial ()) ["a", "b"]).2,
      o.report.toOption.map (fun report => report.pendingApprovals.length) = some 2 ∧
        o.gated.length = 1 := by
    decide +kernel
  obtain ⟨report, hok, hown⟩ := h o ho
  have hlength := congrArg List.length hown
  simp only [hok, Except.toOption, Option.map_some, Option.some.injEq] at hreport
  simp only [List.length_map] at hlength
  omega

end Quest

end AgenticIde
