/-
AgenticIde/QuestLoop.lean

The loop over the attempts at a subtask, with the counter that the source has.

`Quest.retry` counts the attempts down, so that it ends by itself.  The source
counts them up, in a machine integer, while the counter is at most
`subtask_max_retries`; a counter that is a `usize` is at most `usize::MAX`, so
with that bound the guard can never fail.  A subtask that does not succeed then
has no last attempt: the increment behind attempt number `usize::MAX` panics in
a build that checks overflow, and in one that does not the counter starts again
from nought.

The loop is run for so many turns, and says so when they are spent
(`Halt.turns`); a run returns when some number of turns is enough, and any
larger number then makes no difference (`within_whileRun`).

Up to the last retry but one the two loops are one (`whileRun_eq_runLogged`):
the quest of the other modules is the quest of the source.  At `usize::MAX` it
still is, as long as each subtask has a success among its attempts; and nothing
less will do (`finishes_of_whileRun`).  `accounts_iff` puts both together.
-/
import AgenticIde.Lib.Usize
import AgenticIde.QuestAccounting

namespace AgenticIde

variable {ε : Type}

/-- What stops a quest short of its report. -/
inductive Halt
  /-- The counter of the attempts overflows, in a build that checks it. -/
  | overflow
  /-- The turns that a loop may take are spent. -/
  | turns

namespace Quest

section Loop

variable (checks : OverflowChecks) (self : Quest ε)

/-! ### The loops of the source -/

/-- `while attempt <= self.config.subtask_max_retries && !ok`, from `attempt` on and for
so many turns. -/
def whileAttempts (st : SubTask) : Nat → Nat → QuestRun ε Halt (List Attempt)
  | 0, attempt =>
      if attempt ≤ self.config.subtaskMaxRetries then Act.throw .turns else return []
  | turns + 1, attempt =>
      if attempt ≤ self.config.subtaskMaxRetries then do
        let made ← self.executeLogged st
        if made.succeeded then return [made]
        else
          -- not a terminal success, or an error of the planner: `attempt += 1`
          match usizeAdd checks attempt 1 with
          | none => Act.throw .overflow
          | some next => do
              let rest ← whileAttempts st turns next
              return made :: rest
      else return []

/-- The subtasks in order, with the counters of the report. -/
def whileSubtasks (turns : Nat) :
    List SubTask → Nat → Nat → QuestRun ε Halt (List LogEntry × Nat × Nat)
  | [], successes, failures => return ([], successes, failures)
  | st :: rest, successes, failures => do
      if st.status = .skipped then
        let (log, counts) ← whileSubtasks turns rest successes failures
        return (⟨st, []⟩ :: log, counts)
      else
        let attempts ← self.whileAttempts checks { st with status := .running } turns 0
        if attempts.any Attempt.succeeded then
          let (log, counts) ← whileSubtasks turns rest (successes + 1) failures
          return (⟨{ st with status := .success }, attempts⟩ :: log, counts)
        else
          let (log, counts) ← whileSubtasks turns rest successes (failures + 1)
          return (⟨{ st with status := .failed }, attempts⟩ :: log, counts)

/-- Run an autonomous quest toward `goal`: the report, with the log of its
attempts beside it. -/
def whileRun (turns : Nat) (goal : String) : QuestRun ε Halt (QuestReport × List LogEntry) := do
  let subtasks ← Act.mapTrace (QuestEvent.mk none) (Act.infallible (self.decomposer.decompose goal))
  let subtasks :=
    if self.config.maxSubtasks < subtasks.length then markSkipped self.config.maxSubtasks subtasks
    else subtasks
  let (log, successes, failures) ← self.whileSubtasks checks turns subtasks 0 0
  let w ← Act.get
  return (⟨goal, log.map LogEntry.subtask, successes, failures, w.pending⟩, log)

end Loop

variable {checks : OverflowChecks} {self : Quest ε} {st : SubTask} {w w' : World ε}

/-! ### The first success -/

/-- The first success at a subtask comes with attempt number `n`, counted from nought,
and leaves `w'`. -/
inductive SucceedsAt (self : Quest ε) (st : SubTask) : Nat → World ε → World ε → Prop
  | now {w w' : World ε} {made : Attempt} {t : List QuestEvent}
      (h : (self.executeLogged st : QuestRun ε Halt Attempt) w = ⟨.ok made, w', t⟩)
      (hsucceeded : made.succeeded = true) : SucceedsAt self st 0 w w'
  | later {n : Nat} {w w₁ w' : World ε} {made : Attempt} {t : List QuestEvent}
      (h : (self.executeLogged st : QuestRun ε Halt Attempt) w = ⟨.ok made, w₁, t⟩)
      (hfailed : made.succeeded = false) (hlater : SucceedsAt self st n w₁ w') :
      SucceedsAt self st (n + 1) w w'

/-- A first success is an attempt that succeeds. -/
theorem SucceedsAt.exists_succeeded {n : Nat} (h : SucceedsAt self st n w w') :
    ∃ w made w' t, (self.executeLogged st : QuestRun ε Halt Attempt) w = ⟨.ok made, w', t⟩ ∧
      made.succeeded = true := by
  induction h with
  | now h hsucceeded => exact ⟨_, _, _, _, h, hsucceeded⟩
  | later h hfailed hlater ih => exact ih

/-- Every subtask that is not skipped has a success among as many attempts as there
are machine integers. -/
inductive Finishes (self : Quest ε) : List SubTask → World ε → Prop
  | nil (w : World ε) : Finishes self [] w
  | skipped {st : SubTask} {rest : List SubTask} {w : World ε} (hskipped : st.status = .skipped)
      (hrest : Finishes self rest w) : Finishes self (st :: rest) w
  | succeeds {st : SubTask} {rest : List SubTask} {n : Nat} {w w' : World ε}
      (hskipped : st.status ≠ .skipped) (hn : n < UInt64.size)
      (hsuccess : SucceedsAt self { st with status := .running } n w w')
      (hrest : Finishes self rest w') : Finishes self (st :: rest) w

/-- A success that is in reach is found, and nothing is tried after it. -/
theorem retryLogged_of_succeedsAt {n m : Nat} (h : SucceedsAt self st n w w') (hm : n < m) :
    ∃ attempts, (self.retryLogged st m : QuestRun ε Halt (List Attempt)) w =
      ⟨.ok attempts, w', attempts.flatMap Attempt.events⟩ ∧
        attempts.any Attempt.succeeded = true := by
  obtain ⟨attempts, w'', hretried, -⟩ := self.retryLogged_apply Halt st m w
  suffices hend : w'' = w' ∧ attempts.any Attempt.succeeded = true by
    exact ⟨attempts, by rw [hretried, hend.1], hend.2⟩
  -- By induction on the attempts before the first success.
  induction h generalizing m attempts w'' with
  | now h hsucceeded =>
      obtain ⟨m, rfl⟩ := Nat.exists_eq_add_one.mpr hm
      rw [retryLogged, Act.bind_apply_of_ok h, if_pos hsucceeded] at hretried
      obtain ⟨hok, rfl, -⟩ := Outcome.mk.inj hretried
      rw [← Except.ok.inj hok]
      simp [hsucceeded]
  -- A failed attempt uses up one of the attempts that are left, and the success is one
  -- nearer.
  | later h hfailed hlater ih =>
      rename_i n _ w₁ _ made t
      obtain ⟨m, rfl⟩ := Nat.exists_eq_add_one.mpr (Nat.zero_lt_of_lt hm)
      obtain ⟨rest, w₂, hrest, -⟩ := self.retryLogged_apply Halt st m w₁
      rw [retryLogged, Act.bind_apply_of_ok h, if_neg (by simp [hfailed]),
        Act.bind_apply_of_ok hrest] at hretried
      obtain ⟨hok, rfl, -⟩ := Outcome.mk.inj hretried
      obtain ⟨rfl, hany⟩ := ih (Nat.lt_of_succ_lt_succ hm) rest _ hrest
      rw [← Except.ok.inj hok]
      simp [hany]

/-! ### Where the two loops are one -/

/-- The loop counts up to the same attempts as `retryLogged` counts down, if its counter
can pass the last of them, or need not. -/
theorem whileAttempts_eq {n turns attempt : Nat}
    (hn : attempt + n = self.config.subtaskMaxRetries + 1)
    (hturns : n ≤ turns) (hretries : self.config.subtaskMaxRetries < UInt64.size)
    (h : self.config.subtaskMaxRetries + 1 < UInt64.size ∨
      ∃ i w', i < n ∧ SucceedsAt self st i w w') :
    self.whileAttempts checks st turns attempt w = self.retryLogged st n w := by
  induction n generalizing turns attempt w with
  | zero =>
      have hspent : ¬ attempt ≤ self.config.subtaskMaxRetries := by omega
      cases turns with
      | zero => rw [whileAttempts, if_neg hspent, retryLogged]
      | succ turns => rw [whileAttempts, if_neg hspent, retryLogged]
  | succ n ih =>
      obtain ⟨turns, rfl⟩ := Nat.exists_eq_add_one.mpr (Nat.lt_of_succ_le hturns).pos
      obtain ⟨made, w₁, hmade⟩ := self.executeLogged_apply Halt st w
      rw [whileAttempts, if_pos (by omega), retryLogged, Act.bind_apply_of_ok hmade,
        Act.bind_apply_of_ok hmade]
      rcases hsucceeded : made.succeeded with - | -
      · -- a failure: some attempt is left, or the counter may leave the loop
        have hrest : self.config.subtaskMaxRetries + 1 < UInt64.size ∨
            ∃ i w', i < n ∧ SucceedsAt self st i w₁ w' := by
          rcases h with hfits | ⟨i, w', hi, hsuccess⟩
          · exact .inl hfits
          · cases hsuccess with
            | now hnow hyes =>
                rw [hmade] at hnow
                obtain ⟨hok, -⟩ := Outcome.mk.inj hnow
                rw [← Except.ok.inj hok, hsucceeded] at hyes
                cases hyes
            | later hnow hno hlater =>
                rw [hmade] at hnow
                obtain ⟨-, rfl, -⟩ := Outcome.mk.inj hnow
                exact .inr ⟨_, w', Nat.lt_of_succ_lt_succ hi, hlater⟩
        have hnext : usizeAdd checks attempt 1 = some (attempt + 1) := by
          apply usizeAdd_of_lt
          rcases hrest with hfits | ⟨i, -, hi, -⟩ <;> omega
        rw [if_neg (by simp), if_neg (by simp), hnext]
        show Outcome.after _ ((self.whileAttempts checks st turns (attempt + 1) >>= _) w₁) = _
        rw [Act.bind_apply, ih (by omega) (by omega) hrest, ← Act.bind_apply]
      · rw [if_pos rfl, if_pos rfl]

/-- The counters are those of the log. -/
def counted (successes failures : Nat) (log : List LogEntry) : List LogEntry × Nat × Nat :=
  (log, successes + (log.countP fun entry => entry.subtask.status = .success),
    failures + (log.countP fun entry => entry.subtask.status = .failed))

theorem counted_cons {st : SubTask} {attempts : List Attempt} {status : SubTaskStatus}
    (successes failures : Nat) (log : List LogEntry) :
    counted successes failures (⟨{ st with status := status }, attempts⟩ :: log) =
      (⟨{ st with status := status }, attempts⟩ :: log,
        (counted (successes + if status = .success then 1 else 0)
          (failures + if status = .failed then 1 else 0) log).2) := by
  simp [counted, List.countP_cons, Nat.add_assoc, Nat.add_comm]

/-- The attempts at a subtask come to an end, in a world from which the rest can go on. -/
theorem exists_whileAttempts (checks : OverflowChecks) {rest : List SubTask} {turns : Nat}
    (hturns : self.config.subtaskMaxRetries + 1 ≤ turns)
    (hretries : self.config.subtaskMaxRetries < UInt64.size) (hskipped : st.status ≠ .skipped)
    (h : self.config.subtaskMaxRetries + 1 < UInt64.size ∨ self.Finishes (st :: rest) w) :
    ∃ attempts w₁ t,
      (self.retryLogged { st with status := .running } (self.config.subtaskMaxRetries + 1) :
        QuestRun ε Halt _) w = ⟨.ok attempts, w₁, t⟩ ∧
      self.whileAttempts checks { st with status := .running } turns 0 w =
        ⟨.ok attempts, w₁, t⟩ ∧
      (self.config.subtaskMaxRetries + 1 < UInt64.size ∨ self.Finishes rest w₁) := by
  by_cases hfits : self.config.subtaskMaxRetries + 1 < UInt64.size
  · obtain ⟨attempts, w₁, hattempts, -⟩ := self.retryLogged_apply Halt
      { st with status := .running } (self.config.subtaskMaxRetries + 1) w
    refine ⟨attempts, w₁, _, hattempts, ?_, .inl hfits⟩
    rw [whileAttempts_eq (Nat.zero_add _) hturns hretries (.inl hfits), hattempts]
  · -- the bound is the largest machine integer, so the success is within the retries
    cases h.resolve_left hfits with
    | skipped hnot => exact absurd hnot hskipped
    | succeeds _ hn hsuccess hrest =>
        have hwithin := Nat.lt_of_lt_of_le hn (Nat.le_of_not_lt hfits)
        obtain ⟨attempts, hattempts, -⟩ := retryLogged_of_succeedsAt hsuccess hwithin
        refine ⟨attempts, _, _, hattempts, ?_, .inr hrest⟩
        rw [whileAttempts_eq (Nat.zero_add _) hturns hretries (.inr ⟨_, _, hwithin, hsuccess⟩),
          hattempts]

/-- So do the loops over the subtasks, and their counters are those of the log. -/
theorem whileSubtasks_eq (checks : OverflowChecks) {turns : Nat}
    (hturns : self.config.subtaskMaxRetries + 1 ≤ turns)
    (hretries : self.config.subtaskMaxRetries < UInt64.size) {subtasks : List SubTask}
    (h : self.config.subtaskMaxRetries + 1 < UInt64.size ∨ self.Finishes subtasks w)
    (successes failures : Nat) :
    ∃ log w' t, (self.runSubtasksLogged subtasks : QuestRun ε Halt _) w = ⟨.ok log, w', t⟩ ∧
      self.whileSubtasks checks turns subtasks successes failures w =
        ⟨.ok (counted successes failures log), w', t⟩ := by
  induction subtasks generalizing w successes failures with
  | nil => exact ⟨[], w, [], rfl, rfl⟩
  | cons st rest ih =>
      -- A skipped subtask is passed over on both sides.
      by_cases hskipped : st.status = .skipped
      · have hrest : self.config.subtaskMaxRetries + 1 < UInt64.size ∨ self.Finishes rest w := by
          refine h.imp_right fun hfinishes => ?_
          cases hfinishes with
          | skipped _ hrest => exact hrest
          | succeeds hnot => exact absurd hskipped hnot
        obtain ⟨log, w', t, hlog, hwhile⟩ := ih hrest successes failures
        refine ⟨⟨st, []⟩ :: log, w', t ++ [], ?_, ?_⟩
        · rw [runSubtasksLogged, if_pos hskipped, Act.bind_apply_of_ok hlog]
          rfl
        · rw [whileSubtasks, if_pos hskipped, Act.bind_apply_of_ok hwhile]
          simp [counted, hskipped]
      · obtain ⟨attempts, w₁, t₁, hattempts, hwhile₁, hrest⟩ :=
          exists_whileAttempts checks hturns hretries hskipped h
        rw [runSubtasksLogged, whileSubtasks, if_neg hskipped, if_neg hskipped,
          Act.bind_apply_of_ok hattempts, Act.bind_apply_of_ok hwhile₁]
        -- The counter that is raised is the one of how the subtask ended.
        rcases hany : attempts.any Attempt.succeeded with - | -
        · obtain ⟨log, w', t, hlog, hwhile⟩ := ih hrest successes (failures + 1)
          refine ⟨_, w', t₁ ++ (t ++ []), by rw [Act.bind_apply_of_ok hlog]; rfl, ?_⟩
          rw [if_neg (by simp), Act.bind_apply_of_ok hwhile]
          simp [counted_cons]
          rfl
        · obtain ⟨log, w', t, hlog, hwhile⟩ := ih hrest (successes + 1) failures
          refine ⟨_, w', t₁ ++ (t ++ []), by rw [Act.bind_apply_of_ok hlog]; rfl, ?_⟩
          rw [if_pos rfl, Act.bind_apply_of_ok hwhile]
          simp [counted_cons]
          rfl

/-- The attempts are the same, whatever else may stop the computation they are part of. -/
theorem exists_retryLogged (ε₁ ε₂ : Type) (self : Quest ε) (st : SubTask) (n : Nat) (w : World ε) :
    ∃ attempts w' t, (self.retryLogged st n : QuestRun ε ε₁ _) w = ⟨.ok attempts, w', t⟩ ∧
      (self.retryLogged st n : QuestRun ε ε₂ _) w = ⟨.ok attempts, w', t⟩ := by
  induction n generalizing w with
  | zero => exact ⟨[], w, [], rfl, rfl⟩
  | succ n ih =>
      obtain ⟨made, w₁, t₁, hmade₁, hmade₂⟩ : ∃ made w₁ t₁,
          (self.executeLogged st : QuestRun ε ε₁ _) w = ⟨.ok made, w₁, t₁⟩ ∧
            (self.executeLogged st : QuestRun ε ε₂ _) w = ⟨.ok made, w₁, t₁⟩ := by
        simp [executeLogged, Except.map]
      rw [retryLogged, retryLogged, Act.bind_apply_of_ok hmade₁, Act.bind_apply_of_ok hmade₂]
      -- Whether there is another attempt is up to the one that was made.
      rcases made.succeeded with - | -
      · obtain ⟨rest, w', t, hrest₁, hrest₂⟩ := ih w₁
        refine ⟨made :: rest, w', t₁ ++ (t ++ []), ?_, ?_⟩
        · rw [if_neg (by simp), Act.bind_apply_of_ok hrest₁]
          rfl
        · rw [if_neg (by simp), Act.bind_apply_of_ok hrest₂]
          rfl
      · exact ⟨[made], w₁, t₁ ++ [], rfl, rfl⟩

/-- So are the subtasks and their attempts. -/
theorem exists_runSubtasksLogged (ε₁ ε₂ : Type) (self : Quest ε) (subtasks : List SubTask)
    (w : World ε) :
    ∃ log w' t, (self.runSubtasksLogged subtasks : QuestRun ε ε₁ _) w = ⟨.ok log, w', t⟩ ∧
      (self.runSubtasksLogged subtasks : QuestRun ε ε₂ _) w = ⟨.ok log, w', t⟩ := by
  induction subtasks generalizing w with
  | nil => exact ⟨[], w, [], rfl, rfl⟩
  | cons st rest ih =>
      rw [runSubtasksLogged, runSubtasksLogged]
      by_cases hskipped : st.status = .skipped
      · obtain ⟨log, w', t, hlog₁, hlog₂⟩ := ih w
        rw [if_pos hskipped, if_pos hskipped, Act.bind_apply_of_ok hlog₁,
          Act.bind_apply_of_ok hlog₂]
        exact ⟨⟨st, []⟩ :: log, w', t ++ [], rfl, rfl⟩
      · obtain ⟨attempts, w₁, t₁, hattempts₁, hattempts₂⟩ := exists_retryLogged ε₁ ε₂ self
          { st with status := .running } (self.config.subtaskMaxRetries + 1) w
        obtain ⟨log, w', t, hlog₁, hlog₂⟩ := ih w₁
        rw [if_neg hskipped, if_neg hskipped, Act.bind_apply_of_ok hattempts₁,
          Act.bind_apply_of_ok hattempts₂, Act.bind_apply_of_ok hlog₁, Act.bind_apply_of_ok hlog₂]
        exact ⟨_, w', t₁ ++ (t ++ []), rfl, rfl⟩

/-- A decomposition always has an end. -/
theorem exists_decompose (self : Quest ε) (goal : String) (w : World ε) :
    ∃ subtasks w₁ t, self.decomposer.decompose goal w = ⟨.ok subtasks, w₁, t⟩ := by
  rcases self.decomposer.decompose goal w with ⟨err | subtasks, w₁, t⟩
  · exact err.elim
  · exact ⟨subtasks, w₁, t, rfl⟩

/-- The decomposition, as the first thing a quest does. -/
theorem infallible_decompose {ε' : Type} {goal : String} {subtasks : List SubTask} {w₁ : World ε}
    {t : List Event} (hdecompose : self.decomposer.decompose goal w = ⟨.ok subtasks, w₁, t⟩) :
    (Act.mapTrace (QuestEvent.mk none) (Act.infallible (self.decomposer.decompose goal)) :
      QuestRun ε ε' (List SubTask)) w = ⟨.ok subtasks, w₁, t.map (QuestEvent.mk none)⟩ := by
  rw [Act.mapTrace_apply, Act.infallible_apply, hdecompose]
  rfl

/-- **The bounded quest is the quest of the source**, whatever its configuration is below
the largest machine integer, and at it if every subtask within the budget has a success. -/
theorem whileRun_eq_runLogged {goal : String} {subtasks : List SubTask} {w₁ : World ε}
    {t : List Event} (hdecompose : self.decomposer.decompose goal w = ⟨.ok subtasks, w₁, t⟩)
    (hretries : self.config.subtaskMaxRetries < UInt64.size)
    (h : self.config.subtaskMaxRetries + 1 < UInt64.size ∨
      self.Finishes (markSkipped self.config.maxSubtasks subtasks) w₁) :
    ∃ log w' t', self.whileRun checks (self.config.subtaskMaxRetries + 1) goal w =
        ⟨.ok (reportOf goal log w'.pending, log), w', t'⟩ ∧
      self.runLogged goal w = ⟨.ok (reportOf goal log w'.pending, log), w', t'⟩ := by
  obtain ⟨log, w', t', hlog, hwhile⟩ := whileSubtasks_eq checks le_rfl hretries h 0 0
  -- the same log, in a computation that stops for nothing
  have hlog' : (self.runSubtasksLogged (markSkipped self.config.maxSubtasks subtasks) :
      QuestRun ε String _) w₁ = ⟨.ok log, w', t'⟩ := by
    obtain ⟨log₂, w₂, t₂, hhalt, hstring⟩ := exists_runSubtasksLogged Halt String self
      (markSkipped self.config.maxSubtasks subtasks) w₁
    obtain ⟨hok, rfl, rfl⟩ := Outcome.mk.inj (hhalt.symm.trans hlog)
    rw [hstring, Except.ok.inj hok]
  refine ⟨log, w', t.map (QuestEvent.mk none) ++ (t' ++ []), ?_, ?_⟩
  · rw [whileRun, Act.bind_apply_of_ok (infallible_decompose hdecompose), markSkipped_budget,
      Act.bind_apply_of_ok hwhile]
    simp [counted, reportOf]
  · rw [runLogged, Act.bind_apply_of_ok (infallible_decompose hdecompose), markSkipped_budget,
      Act.bind_apply_of_ok hlog']
    rfl

/-- So the report, the world and the events of the source's loops are those of `Quest.run`. -/
theorem exists_whileRun (checks : OverflowChecks) {goal : String} {subtasks : List SubTask}
    {w₁ : World ε} {t : List Event}
    (hdecompose : self.decomposer.decompose goal w = ⟨.ok subtasks, w₁, t⟩)
    (hretries : self.config.subtaskMaxRetries < UInt64.size)
    (h : self.config.subtaskMaxRetries + 1 < UInt64.size ∨
      self.Finishes (markSkipped self.config.maxSubtasks subtasks) w₁) :
    ∃ report log w' t', self.whileRun checks (self.config.subtaskMaxRetries + 1) goal w =
        ⟨.ok (report, log), w', t'⟩ ∧
      self.run goal w = ⟨.ok report, w', t'⟩ := by
  obtain ⟨log, w', t', hwhile, hlogged⟩ :=
    @whileRun_eq_runLogged _ checks _ _ _ _ _ _ hdecompose hretries h
  refine ⟨_, log, w', t', hwhile, ?_⟩
  rw [run_eq_map_runLogged, Act.map_apply, hlogged]
  rfl

/-- A budget of no subtask leaves nothing to attempt. -/
theorem finishes_markSkipped_zero (subtasks : List SubTask) (w : World ε) :
    self.Finishes (markSkipped 0 subtasks) w := by
  have hskipped : ∀ st ∈ markSkipped 0 subtasks, st.status = .skipped := by
    intro st hst
    obtain ⟨⟨st', i⟩, -, rfl⟩ := List.mem_map.mp hst
    rfl
  generalize markSkipped 0 subtasks = marked at hskipped
  induction marked with
  | nil => exact .nil w
  | cons st rest ih =>
      exact .skipped (hskipped st (.head _)) (ih fun st' h => hskipped st' (.tail _ h))

/-! ### More turns -/

/-- Turns that are not needed make no difference. -/
theorem within_whileAttempts {turns turns' : Nat} (hle : turns ≤ turns') (attempt : Nat) :
    (self.whileAttempts checks st turns attempt).Within
      (self.whileAttempts checks st turns' attempt) := by
  induction turns generalizing turns' attempt with
  | zero =>
      -- The loop may be out of turns, but only where its guard still holds.
      by_cases hguard : attempt ≤ self.config.subtaskMaxRetries
      · rw [whileAttempts, if_pos hguard]
        exact .throw _ _
      · rw [whileAttempts, if_neg hguard]
        rcases turns' with - | turns'
        · rw [whileAttempts, if_neg hguard]
          exact .refl _
        · rw [whileAttempts, if_neg hguard]
          exact .refl _
  | succ turns ih =>
      obtain ⟨turns', rfl⟩ := Nat.exists_eq_add_one.mpr (Nat.lt_of_succ_le hle).pos
      rw [whileAttempts, whileAttempts]
      by_cases hguard : attempt ≤ self.config.subtaskMaxRetries
      · rw [if_pos hguard, if_pos hguard]
        apply Act.Within.bind (.refl _)
        intro made
        -- Another turn is made behind a failure, unless the counter panics.
        split
        · exact .refl _
        · rcases usizeAdd checks attempt 1 with - | next
          · exact .refl _
          · exact .bind (ih (Nat.le_of_succ_le_succ hle) next) fun _ => .refl _
      · rw [if_neg hguard, if_neg hguard]
        exact .refl _

theorem within_whileSubtasks {turns turns' : Nat} (hle : turns ≤ turns')
    (subtasks : List SubTask) (successes failures : Nat) :
    (self.whileSubtasks checks turns subtasks successes failures).Within
      (self.whileSubtasks checks turns' subtasks successes failures) := by
  induction subtasks generalizing successes failures with
  | nil => exact .refl _
  | cons st rest ih =>
      rw [whileSubtasks, whileSubtasks]
      split
      · exact .bind (ih _ _) fun _ => .refl _
      · apply Act.Within.bind (within_whileAttempts hle 0)
        intro attempts
        split
        · exact .bind (ih _ _) fun _ => .refl _
        · exact .bind (ih _ _) fun _ => .refl _

/-- **A report needs no particular number of turns**: from the least number that
brings it on, every number brings the same report, world and events.  Turns are what
the model has in place of time, and no result depends on them. -/
theorem within_whileRun {turns turns' : Nat} (hle : turns ≤ turns') (goal : String) :
    (self.whileRun checks turns goal).Within (self.whileRun checks turns' goal) :=
  .bind (.refl _) fun _ => .bind (within_whileSubtasks hle _ 0 0) fun _ => .refl _

/-! ### Where they part -/

/-- A loop that has begun with a failure has gone on to the rest. -/
theorem rest_of_whileAttempts {turns attempt : Nat} {made : Attempt} {w₁ : World ε}
    {attempts : List Attempt} {t : List QuestEvent}
    (hguard : attempt ≤ self.config.subtaskMaxRetries)
    (hmade : (self.executeLogged st : QuestRun ε Halt Attempt) w = ⟨.ok made, w₁, made.events⟩)
    (hfailed : made.succeeded = false)
    (h : self.whileAttempts checks st (turns + 1) attempt w = ⟨.ok attempts, w', t⟩) :
    ∃ next rest t', usizeAdd checks attempt 1 = some next ∧
      self.whileAttempts checks st turns next w₁ = ⟨.ok rest, w', t'⟩ ∧
      attempts = made :: rest ∧ t = made.events ++ t' := by
  rw [whileAttempts, if_pos hguard, Act.bind_apply_of_ok hmade, if_neg (by simp [hfailed])] at h
  rcases hnext : usizeAdd checks attempt 1 with - | next
  · rw [hnext] at h
    cases h
  · rw [hnext] at h
    obtain ⟨rest, w₂, t', hrest, -⟩ := Act.exists_of_bind_eq_ok (congrArg Outcome.result h)
    rw [show Outcome.after made.events ((self.whileAttempts checks st turns next >>= fun rest =>
      pure (made :: rest)) w₁) = _ from congrArg _ (Act.bind_apply_of_ok hrest)] at h
    obtain ⟨hok, rfl, rfl⟩ := Outcome.mk.inj h
    exact ⟨next, rest, t', rfl, hrest, (Except.ok.inj hok).symm, by simp⟩

/-- Where the counter cannot pass the bound, the loop ends with a success or not at all. -/
theorem succeedsAt_of_whileAttempts (hretries : self.config.subtaskMaxRetries + 1 = UInt64.size)
    {turns attempt : Nat} (hattempt : attempt < UInt64.size) {attempts : List Attempt}
    {t : List QuestEvent}
    (h : self.whileAttempts checks st turns attempt w = ⟨.ok attempts, w', t⟩) :
    ∃ n, n + 1 = attempts.length ∧ SucceedsAt self st n w w' := by
  induction turns generalizing attempt w attempts t with
  | zero =>
      rw [whileAttempts, if_pos (by omega)] at h
      cases h
  | succ turns ih =>
      have hguard : attempt ≤ self.config.subtaskMaxRetries := by omega
      obtain ⟨made, w₁, hmade⟩ := self.executeLogged_apply Halt st w
      rcases hsucceeded : made.succeeded with - | -
      · obtain ⟨next, rest, t', hnext, hrest, rfl, -⟩ :=
          rest_of_whileAttempts hguard hmade hsucceeded h
        -- the counter starts again from a machine integer, which the bound lets pass
        obtain ⟨n, hn, hlater⟩ := ih (lt_of_usizeAdd hnext) hrest
        exact ⟨n + 1, by rw [List.length_cons, hn], .later hmade hsucceeded hlater⟩
      · rw [whileAttempts, if_pos hguard, Act.bind_apply_of_ok hmade, if_pos hsucceeded] at h
        obtain ⟨hok, rfl, -⟩ := Outcome.mk.inj h
        rw [← Except.ok.inj hok]
        exact ⟨0, rfl, .now hmade hsucceeded⟩

/-- A list of subtasks that is done has been done one by one. -/
theorem rest_of_whileSubtasks {turns : Nat} {rest : List SubTask} {successes failures : Nat}
    {log : List LogEntry} {counts : Nat × Nat} {t : List QuestEvent}
    (hskipped : st.status ≠ .skipped)
    (h : self.whileSubtasks checks turns (st :: rest) successes failures w =
      ⟨.ok (log, counts), w', t⟩) :
    ∃ entry log' successes' failures' counts' w₁ t₁ t',
      self.whileAttempts checks { st with status := .running } turns 0 w =
        ⟨.ok entry.attempts, w₁, t₁⟩ ∧
      self.whileSubtasks checks turns rest successes' failures' w₁ = ⟨.ok (log', counts'), w', t'⟩ ∧
      log = entry :: log' := by
  rw [whileSubtasks, if_neg hskipped] at h
  obtain ⟨attempts, w₁, t₁, hattempts, -⟩ := Act.exists_of_bind_eq_ok (congrArg Outcome.result h)
  rw [Act.bind_apply_of_ok hattempts] at h
  rcases hany : attempts.any Attempt.succeeded with - | -
  · rw [if_neg (by simp [hany])] at h
    obtain ⟨⟨log', counts'⟩, w₂, t', hrest, hok⟩ :=
      Act.exists_of_bind_eq_ok (congrArg Outcome.result h)
    rw [Act.bind_apply_of_ok hrest] at h
    obtain ⟨-, rfl, -⟩ := Outcome.mk.inj h
    obtain ⟨rfl, -⟩ := Prod.mk.inj (Except.ok.inj hok)
    exact ⟨_, log', _, _, _, w₁, t₁, t', hattempts, hrest, rfl⟩
  · rw [if_pos hany] at h
    obtain ⟨⟨log', counts'⟩, w₂, t', hrest, hok⟩ :=
      Act.exists_of_bind_eq_ok (congrArg Outcome.result h)
    rw [Act.bind_apply_of_ok hrest] at h
    obtain ⟨-, rfl, -⟩ := Outcome.mk.inj h
    obtain ⟨rfl, -⟩ := Prod.mk.inj (Except.ok.inj hok)
    exact ⟨_, log', _, _, _, w₁, t₁, t', hattempts, hrest, rfl⟩

/-- A list of subtasks that is done with no more attempts than there are machine integers
has had a success for each. -/
theorem finishes_of_whileSubtasks (hretries : self.config.subtaskMaxRetries + 1 = UInt64.size)
    {turns : Nat} {subtasks : List SubTask} {successes failures : Nat} {log : List LogEntry}
    {counts : Nat × Nat} {t : List QuestEvent}
    (h : self.whileSubtasks checks turns subtasks successes failures w =
      ⟨.ok (log, counts), w', t⟩)
    (hwithin : ∀ entry ∈ log, entry.attempts.length ≤ UInt64.size) : self.Finishes subtasks w := by
  induction subtasks generalizing w successes failures log counts t with
  | nil => exact .nil w
  | cons st rest ih =>
      rw [whileSubtasks] at h
      by_cases hskipped : st.status = .skipped
      · rw [if_pos hskipped] at h
        obtain ⟨⟨log', counts'⟩, w₂, t', hrest, hok⟩ :=
          Act.exists_of_bind_eq_ok (congrArg Outcome.result h)
        obtain ⟨rfl, -⟩ := Prod.mk.inj (Except.ok.inj hok)
        rw [Act.bind_apply_of_ok hrest] at h
        obtain ⟨-, rfl, -⟩ := Outcome.mk.inj h
        exact .skipped hskipped (ih hrest fun entry he => hwithin entry (.tail _ he))
      · obtain ⟨entry, log', _, _, _, w₁, t₁, t', hattempts, hrest, rfl⟩ :=
          rest_of_whileSubtasks hskipped h
        obtain ⟨n, hn, hsuccess⟩ := succeedsAt_of_whileAttempts hretries (by decide) hattempts
        refine .succeeds hskipped ?_ hsuccess (ih hrest fun e he => hwithin e (.tail _ he))
        have hlength := hwithin entry (.head _)
        omega

/-- **A report within the bound takes a success for each subtask**, where the bound is the
largest machine integer. -/
theorem finishes_of_whileRun (hretries : self.config.subtaskMaxRetries + 1 = UInt64.size)
    {turns : Nat} {goal : String} {subtasks : List SubTask} {w₁ : World ε} {t : List Event}
    (hdecompose : self.decomposer.decompose goal w = ⟨.ok subtasks, w₁, t⟩)
    {report : QuestReport} {log : List LogEntry} {t' : List QuestEvent}
    (h : self.whileRun checks turns goal w = ⟨.ok (report, log), w', t'⟩)
    (hwithin : ∀ entry ∈ log, entry.attempts.length ≤ UInt64.size) :
    self.Finishes (markSkipped self.config.maxSubtasks subtasks) w₁ := by
  rw [whileRun, Act.bind_apply_of_ok (infallible_decompose hdecompose), markSkipped_budget] at h
  obtain ⟨⟨log', counts⟩, w₂, t₂, hwhile, hok⟩ :=
    Act.exists_of_bind_eq_ok (congrArg Outcome.result h)
  obtain ⟨-, rfl⟩ := Prod.mk.inj (Except.ok.inj hok)
  exact finishes_of_whileSubtasks hretries hwhile hwithin

/-- **A quest without a success does not end** where the bound is the largest machine
integer: no number of turns brings its report. -/
theorem whileRun_ne_ok (hretries : self.config.subtaskMaxRetries + 1 = UInt64.size)
    {goal : String} {subtasks rest : List SubTask} {w₁ : World ε} {t : List Event}
    (hdecompose : self.decomposer.decompose goal w = ⟨.ok subtasks, w₁, t⟩)
    (hfirst : markSkipped self.config.maxSubtasks subtasks = st :: rest)
    (hskipped : st.status ≠ .skipped)
    (hnever : ∀ w made w' t,
      (self.executeLogged { st with status := .running } : QuestRun ε Halt Attempt) w =
        ⟨.ok made, w', t⟩ → made.succeeded = false)
    (turns : Nat) (r : QuestReport × List LogEntry) :
    (self.whileRun checks turns goal w).result ≠ .ok r := by
  intro hreturns
  rw [whileRun, Act.bind_apply_of_ok (infallible_decompose hdecompose), markSkipped_budget,
    hfirst] at hreturns
  obtain ⟨⟨log, counts⟩, w₂, t₂, hwhile, -⟩ := Act.exists_of_bind_eq_ok hreturns
  obtain ⟨entry, _, _, _, _, w₃, _, _, hattempts, -⟩ := rest_of_whileSubtasks hskipped hwhile
  obtain ⟨n, -, hsuccess⟩ := succeedsAt_of_whileAttempts hretries (by decide) hattempts
  obtain ⟨w₄, made, w₅, t₄, hmade, hsucceeded⟩ := hsuccess.exists_succeeded
  rw [hnever _ _ _ _ hmade] at hsucceeded
  cases hsucceeded

/-! ### The accounting of a report -/

/-- **When a report accounts for its subtasks.**  Pending subtasks are accounted for, in a
run that returns, exactly if the retries are below the largest machine integer or every
subtask within the budget has a success among as many attempts as there are such integers. -/
theorem accounts_iff (checks : OverflowChecks) (self : Quest ε) (goal : String) (w w₁ : World ε)
    (subtasks : List SubTask) (t : List Event)
    (hdecompose : self.decomposer.decompose goal w = ⟨.ok subtasks, w₁, t⟩)
    (hpending : ∀ st ∈ subtasks, st.status = .pending)
    (hretries : self.config.subtaskMaxRetries < UInt64.size) :
    (∃ turns report log w', self.whileRun checks turns goal w =
        ⟨.ok (report, log), w', t.map (QuestEvent.mk none) ++ log.flatMap LogEntry.events⟩ ∧
      Accounts self.config subtasks report log) ↔
    self.config.subtaskMaxRetries + 1 < UInt64.size ∨
      self.Finishes (markSkipped self.config.maxSubtasks subtasks) w₁ := by
  constructor
  · rintro ⟨turns, report, log, w', hreturns, haccounts⟩
    by_cases hfits : self.config.subtaskMaxRetries + 1 < UInt64.size
    · exact .inl hfits
    · have hlast : self.config.subtaskMaxRetries + 1 = UInt64.size :=
        Nat.le_antisymm hretries (Nat.le_of_not_lt hfits)
      refine .inr (finishes_of_whileRun hlast hdecompose hreturns fun entry he => ?_)
      obtain ⟨i, hi⟩ := List.getElem?_of_mem he
      by_cases hover : self.config.maxSubtasks ≤ i
      · rw [haccounts.unattempted i entry hi hover]
        exact Nat.zero_le _
      · rw [← hlast]
        exact (haccounts.attempted i entry hi (Nat.lt_of_not_le hover)).2.1
  · intro h
    obtain ⟨log, w', t', hreturns, hlogged⟩ := whileRun_eq_runLogged hdecompose hretries h
    obtain ⟨subtasks', log', w₂, hsubtasks, hlogged', hprocessed⟩ := self.runLogged_apply goal w
    rw [hdecompose] at hsubtasks hlogged'
    obtain rfl := Except.ok.inj hsubtasks
    obtain ⟨hok, rfl, rfl⟩ := Outcome.mk.inj (hlogged.symm.trans hlogged')
    obtain ⟨-, rfl⟩ := Prod.mk.inj (Except.ok.inj hok)
    exact ⟨_, _, log, w', hreturns, accounts_of_processed hpending hprocessed goal w'.pending⟩

/-- Whatever an idle quest attempts, it fails: without a step there is no answer, and the
first step has no thought. -/
theorem succeeded_idle (config : QuestConfig) (st : SubTask) (w : World Unit) (made : Attempt)
    (w' : World Unit) (t : List QuestEvent)
    (h : ((idle config).executeLogged st : QuestRun Unit Halt Attempt) w = ⟨.ok made, w', t⟩) :
    made.succeeded = false := by
  have hending : ∀ r, (((idle config).planner st).runEnding st.description w).result = .ok r →
      r.2 = .stepsSpent := by
    intro r hr
    rw [Planner.runEnding] at hr
    rcases hsteps : ((idle config).planner st).maxSteps with - | steps
    · rw [hsteps] at hr
      rw [← Except.ok.inj hr]
    · rw [hsteps] at hr
      cases hr
  have hmade : made.result =
      (((idle config).planner st).runEnding st.description w).result.map Prod.snd := by
    have hresult := congrArg Outcome.result h
    simp [executeLogged, Except.map] at hresult
    rw [← hresult]
    rfl
  rw [Attempt.succeeded, hmade]
  rcases hrun : (((idle config).planner st).runEnding st.description w).result with err | r
  · rfl
  · show decide (r.2.answer = "task finished") = false
    rw [hending r hrun]
    decide

theorem accounts_iff_idle :
    ∃ turns report log w', (idle .default).whileRun .off turns "goal" (.initial ()) =
        ⟨.ok (report, log), w', log.flatMap LogEntry.events⟩ ∧
      Accounts .default [.new "st-1" "goal"] report log :=
  (accounts_iff .off (idle .default) "goal" (.initial ()) (.initial ()) [.new "st-1" "goal"] []
    rfl (by simp [SubTask.new]) (by decide)).mpr (.inl (by decide))

/-- With as many retries as a machine integer can say, an idle quest never reports, in
either build. -/
theorem accounts_endless : ¬ ∃ checks turns r,
    ((idle { QuestConfig.default with subtaskMaxRetries := UInt64.size - 1 }).whileRun checks
      turns "goal" (.initial ())).result = .ok r := by
  rintro ⟨checks, turns, r, h⟩
  exact whileRun_ne_ok (by decide) rfl rfl (by decide) (succeeded_idle _ _) turns r h

end Quest

end AgenticIde
