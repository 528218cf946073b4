/-
AgenticIde/QuestAccounting.lean

What the report of a quest says about its subtasks.

`accounts_of_processed`: the subtasks of the report are those of the decomposer, each skipped
for the budget or attempted within its retries, and the counters count them (`Accounts`).
`terminal_iff`: success is decided by the text of the final answer, so an attempt that ends
with a terminal observation counts exactly if that observation reads as `finish` would have
it.

Both are about the report with the log of its attempts beside it (`QuestLog.lean`), for
otherwise a statement about attempts would have nothing to speak of.  The accounting holds of
every report that the quest returns; whether it returns one is `QuestLoop.lean`.

`finish` is not the only tool with a terminal observation: those of the engineering tools are
terminal too, whenever the command comes through, and then the planner ends with the output
of the command as its answer.  The quest compares that answer with the one text that `finish`
gives.  So such a subtask is done by the one measure and fails by the other, and is attempted
again.
-/
import AgenticIde.QuestLog
import Mathlib.Data.List.Forall2

namespace AgenticIde

variable {ε : Type}

/-! ### Accounting -/

theorem getElem?_markSkipped (maxSubtasks : Nat) (subtasks : List SubTask) (i : Nat) :
    (Quest.markSkipped maxSubtasks subtasks)[i]? = subtasks[i]?.map fun st =>
      if maxSubtasks ≤ i then { st with status := .skipped } else st := by
  simp only [Quest.markSkipped, List.getElem?_map, List.getElem?_zipIdx, Nat.zero_add,
    Option.map_map]
  rfl

namespace Processed

variable {retries : Nat} {st : SubTask} {entry : LogEntry}

/-- Processing keeps the id and the description. -/
theorem same (h : Processed retries st entry) :
    entry.subtask.id = st.id ∧ entry.subtask.description = st.description := by
  cases h with
  | skipped h => exact ⟨rfl, rfl⟩
  | attempted attempts h hretried => exact ⟨rfl, rfl⟩

/-- Processing leaves one of three statuses. -/
theorem status (h : Processed retries st entry) :
    entry.subtask.status = .success ∨ entry.subtask.status = .failed ∨
      entry.subtask.status = .skipped := by
  cases h with
  | skipped h => exact .inr (.inr h)
  | attempted attempts h hretried =>
      rcases hany : attempts.any Attempt.succeeded with - | -
      · exact .inr (.inl (by simp))
      · exact .inl (by simp)

/-- A subtask is skipped if it was marked, and then it has no attempt. -/
theorem skipped_iff (h : Processed retries st entry) :
    (entry.subtask.status = .skipped ↔ st.status = .skipped) ∧
      (st.status = .skipped → entry.attempts = []) := by
  cases h with
  | skipped h => exact ⟨Iff.rfl, fun _ => rfl⟩
  | attempted attempts h hretried =>
      rcases hany : attempts.any Attempt.succeeded with - | - <;> simp [h]

/-- Any other subtask is attempted, within its retries. -/
theorem retried (h : Processed retries st entry) (hst : st.status ≠ .skipped) :
    Retried (retries + 1) entry.attempts := by
  cases h with
  | skipped h => exact absurd h hst
  | attempted attempts h hretried => exact hretried

end Processed

/-- An entry of the right list has its partner on the left. -/
theorem exists_of_forall₂ {α β : Type*} {R : α → β → Prop} {l₁ : List α} {l₂ : List β}
    (h : List.Forall₂ R l₁ l₂) {i : Nat} {b : β} (hb : l₂[i]? = some b) :
    ∃ a, l₁[i]? = some a ∧ R a b := by
  obtain ⟨hi, rfl⟩ := List.getElem?_eq_some_iff.mp hb
  have hi' : i < l₁.length := h.length_eq ▸ hi
  exact ⟨l₁[i], List.getElem?_eq_getElem hi', h.get hi' hi⟩

theorem map_eq_of_forall₂ {α β γ : Type*} {R : α → β → Prop} {f : α → γ} {g : β → γ} {l₁ : List α}
    {l₂ : List β} (h : List.Forall₂ R l₁ l₂) (hfg : ∀ {a b}, R a b → f a = g b) :
    l₁.map f = l₂.map g := by
  rw [← List.forall₂_eq_eq_eq, List.forall₂_map_left_iff, List.forall₂_map_right_iff]
  exact h.imp fun _ _ hab => hfg hab

/-- Skipping keeps the ids and the descriptions. -/
theorem map_markSkipped (maxSubtasks : Nat) (subtasks : List SubTask) :
    (Quest.markSkipped maxSubtasks subtasks).map (fun st => (st.id, st.description)) =
      subtasks.map (fun st => (st.id, st.description)) := by
  apply List.ext_getElem?
  intro i
  simp only [List.getElem?_map, getElem?_markSkipped, Option.map_map]
  congr 1
  funext st
  simp only [Function.comp_apply]
  split <;> rfl

/-- Three statuses exhaust a list. -/
theorem count_statuses {log : List LogEntry}
    (h : ∀ entry ∈ log, entry.subtask.status = .success ∨ entry.subtask.status = .failed ∨
      entry.subtask.status = .skipped) :
    (log.countP fun entry => entry.subtask.status = .success) +
      (log.countP fun entry => entry.subtask.status = .failed) +
      (log.countP fun entry => entry.subtask.status = .skipped) = log.length := by
  induction log with
  | nil => rfl
  | cons entry log ih =>
      have hrest := ih fun e he => h e (List.mem_cons_of_mem _ he)
      simp only [List.countP_cons, List.length_cons]
      rcases h entry List.mem_cons_self with hs | hs | hs <;> simp [hs] <;> omega

/-- **The accounting of a report.**  What a report, with the log of its attempts
beside it, owes to the subtasks of the decomposer:

1. it has these subtasks in their order, with their ids and descriptions, each
   with one of three statuses;
2. its counters are the numbers of successes and failures, and with the skipped
   subtasks they are all;
3. the subtasks over the budget are the skipped ones, and have no attempt;
4. every other subtask is attempted at least once and at most as often as the
   retries allow, and only its last attempt may have succeeded. -/
structure Accounts (config : QuestConfig) (subtasks : List SubTask) (report : QuestReport)
    (log : List LogEntry) : Prop where
  logged : report.subtasks = log.map LogEntry.subtask
  listed : report.subtasks.map (fun st => (st.id, st.description)) =
    subtasks.map (fun st => (st.id, st.description))
  status : ∀ st ∈ report.subtasks, st.status = .success ∨ st.status = .failed ∨ st.status = .skipped
  successes : report.successes = report.subtasks.countP (·.status = .success)
  failures : report.failures = report.subtasks.countP (·.status = .failed)
  total : report.successes + report.failures + report.subtasks.countP (·.status = .skipped) =
    report.subtasks.length
  skipped : ∀ i entry, log[i]? = some entry →
    (entry.subtask.status = .skipped ↔ config.maxSubtasks ≤ i)
  unattempted : ∀ i entry, log[i]? = some entry → config.maxSubtasks ≤ i → entry.attempts = []
  attempted : ∀ i entry, log[i]? = some entry → i < config.maxSubtasks →
    1 ≤ entry.attempts.length ∧ entry.attempts.length ≤ config.subtaskMaxRetries + 1 ∧
      ∀ attempt ∈ entry.attempts.dropLast, attempt.succeeded = false

namespace Quest

/-- The subtask of an entry, by its position. -/
theorem exists_of_entry {retries maxSubtasks : Nat} {subtasks : List SubTask} {log : List LogEntry}
    (h : List.Forall₂ (Processed retries) (markSkipped maxSubtasks subtasks) log) {i : Nat}
    {entry : LogEntry} (hi : log[i]? = some entry) :
    ∃ st ∈ subtasks,
      Processed retries (if maxSubtasks ≤ i then { st with status := .skipped } else st) entry := by
  obtain ⟨marked, hmarked, hprocess⟩ := exists_of_forall₂ h hi
  rw [getElem?_markSkipped] at hmarked
  obtain ⟨st, hst, rfl⟩ := Option.map_eq_some_iff.mp hmarked
  exact ⟨st, List.mem_of_getElem? hst, hprocess⟩

/-- A log whose entries come of pending subtasks makes a report that accounts for them. -/
theorem accounts_of_processed {config : QuestConfig} {subtasks : List SubTask}
    {log : List LogEntry} (hpending : ∀ st ∈ subtasks, st.status = .pending)
    (h : List.Forall₂ (Processed config.subtaskMaxRetries)
      (markSkipped config.maxSubtasks subtasks) log)
    (goal : String) (approvals : List PendingApproval) :
    Accounts config subtasks (reportOf goal log approvals) log := by
  have hstatus : ∀ entry ∈ log, entry.subtask.status = .success ∨
      entry.subtask.status = .failed ∨ entry.subtask.status = .skipped := by
    intro entry he
    obtain ⟨i, hi⟩ := List.getElem?_of_mem he
    obtain ⟨st, -, hprocess⟩ := exists_of_entry h hi
    exact hprocess.status
  refine ⟨rfl, ?_, ?_, ?_, ?_, ?_, ?_, ?_, ?_⟩
  · rw [← map_markSkipped config.maxSubtasks subtasks]
    show (log.map LogEntry.subtask).map _ = _
    rw [List.map_map]
    refine (map_eq_of_forall₂ h fun hprocess => ?_).symm
    rw [Function.comp_apply, hprocess.same.1, hprocess.same.2]
  · simpa [reportOf] using hstatus
  · simp [reportOf, List.countP_map, Function.comp_def]
  · simp [reportOf, List.countP_map, Function.comp_def]
  · -- every entry has one of the three
    simpa [reportOf, List.countP_map, Function.comp_def] using count_statuses hstatus
  · intro i entry hi
    obtain ⟨st, hst, hprocess⟩ := exists_of_entry h hi
    rw [hprocess.skipped_iff.1]
    by_cases hover : config.maxSubtasks ≤ i
    · simp [hover]
    · simp [hover, hpending st hst]
  · intro i entry hi hover
    obtain ⟨st, -, hprocess⟩ := exists_of_entry h hi
    rw [if_pos hover] at hprocess
    exact hprocess.skipped_iff.2 rfl
  · intro i entry hi hwithin
    obtain ⟨st, hst, hprocess⟩ := exists_of_entry h hi
    rw [if_neg (Nat.not_le.mpr hwithin)] at hprocess
    have hretried := hprocess.retried (by simp [hpending st hst])
    exact ⟨List.length_pos_iff.mpr (hretried.ne_nil (Nat.succ_pos _)), hretried.length_le,
      hretried.failed⟩

/-- A quest of one pending subtask, whose LLM is down, and its tools with it. -/
def idle (config : QuestConfig) : Quest Unit where
  decomposer := .external fun goal env => ([.new "st-1" goal], env)
  llm := ⟨fun _ env => (.error "down", env), fun _ env => (.error "down", env)⟩
  tools := .external fun _ _ env => (.error "down", env)
  validator := BasicValidator 8
  bridge := ⟨fun _ env => (.ok (), env), fun _ env => env⟩
  config := config
  principal := .all "t" "u"
  audit := ⟨fun _ env => (.ok (), env)⟩

end Quest

/-! ### Terminal completion -/

theorem eq_of_not_mem_dropLast {α : Type*} {l : List α} {a b : α} (ha : a ∈ l) (hb : b ∈ l)
    (ha' : a ∉ l.dropLast) (hb' : b ∉ l.dropLast) : a = b := by
  have hne : l ≠ [] := List.ne_nil_of_mem ha
  rw [← List.dropLast_concat_getLast hne, List.mem_append, List.mem_singleton] at ha hb
  rw [ha.resolve_left ha', hb.resolve_left hb']

/-- The attempt ended with `Verdict::Done`. -/
def Attempt.IsDone (attempt : Attempt) : Prop := ∃ obs, attempt.EndedDone obs

/-- Success means terminal completion: the subtask is a success exactly when
an attempt ended with `Verdict::Done`, no such attempt is retried, and no
subtask with one has failed. -/
def LogEntry.SucceedsWhenDone (entry : LogEntry) : Prop :=
  (entry.subtask.status = .success ↔ ∃ attempt ∈ entry.attempts, attempt.IsDone) ∧
    (∀ attempt ∈ entry.attempts.dropLast, ¬ attempt.IsDone) ∧
    ((∃ attempt ∈ entry.attempts, attempt.IsDone) → entry.subtask.status ≠ .failed)

/-- Every terminal observation reads as that of `finish`, which is the text a
subtask's success is told by. -/
def LogEntry.ReadsFinished (entry : LogEntry) : Prop :=
  ∀ attempt ∈ entry.attempts, ∀ obs, attempt.EndedDone obs → obs.output = "task finished"

namespace Processed

variable {retries : Nat} {st : SubTask} {entry : LogEntry}

/-- Success is a successful attempt, and failure is none. -/
theorem success_iff (h : Processed retries st entry) :
    (entry.subtask.status = .success ↔ ∃ attempt ∈ entry.attempts, attempt.succeeded = true) ∧
      (entry.subtask.status = .failed →
        ∀ attempt ∈ entry.attempts, attempt.succeeded = false) := by
  cases h with
  | skipped h => simp [h]
  | attempted attempts h hretried =>
      rw [← List.any_eq_true]
      rcases hany : attempts.any Attempt.succeeded with - | -
      · simpa using hany
      · simp

/-- Only the last attempt may be a success. -/
theorem failed_dropLast (h : Processed retries st entry) :
    ∀ attempt ∈ entry.attempts.dropLast, attempt.succeeded = false := by
  cases h with
  | skipped h => simp
  | attempted attempts h hretried => exact hretried.failed

/-- **What a subtask succeeds by**: terminal completion and the text of
`finish` come to the same exactly when every terminal observation has that
text. -/
theorem terminal_iff (h : Processed retries st entry) :
    entry.SucceedsWhenDone ↔ entry.ReadsFinished := by
  constructor
  · rintro ⟨hsuccess, hretried, -⟩ attempt hattempt obs hdone
    obtain ⟨last, hlast, hsucceeded⟩ :=
      h.success_iff.1.mp (hsuccess.mpr ⟨attempt, hattempt, obs, hdone⟩)
    -- the success is the last attempt, and so is the terminal one
    have hsame : attempt = last := eq_of_not_mem_dropLast hattempt hlast
      (fun hmem => hretried attempt hmem ⟨obs, hdone⟩)
      (fun hmem => by simp [h.failed_dropLast last hmem] at hsucceeded)
    subst hsame
    obtain ⟨obs', hdone', houtput⟩ := attempt.succeeded_iff.mp hsucceeded
    obtain rfl : obs = obs' := by
      simpa [Attempt.EndedDone] using hdone.symm.trans hdone'
    exact houtput
  · intro hreads
    have hdone : ∀ attempt ∈ entry.attempts, attempt.IsDone ↔ attempt.succeeded = true := by
      intro attempt hattempt
      rw [attempt.succeeded_iff]
      constructor
      · rintro ⟨obs, hdone⟩
        exact ⟨obs, hdone, hreads attempt hattempt obs hdone⟩
      · rintro ⟨obs, hdone, -⟩
        exact ⟨obs, hdone⟩
    refine ⟨?_, ?_, ?_⟩
    · rw [h.success_iff.1]
      exact exists_congr fun attempt =>
        and_congr_right fun hattempt => (hdone attempt hattempt).symm
    · intro attempt hattempt hterminal
      have hsucceeded := (hdone attempt (List.dropLast_subset _ hattempt)).mp hterminal
      simp [h.failed_dropLast attempt hattempt] at hsucceeded
    · rintro ⟨attempt, hattempt, hterminal⟩ hfailed
      have hsucceeded := (hdone attempt hattempt).mp hterminal
      simp [h.success_iff.2 hfailed attempt hattempt] at hsucceeded

end Processed

namespace Quest

/-- **Success and terminal completion.**  In a run of a quest, success means
terminal completion for every subtask exactly when every terminal observation
that ended an attempt reads "task finished". -/
theorem succeedsWhenDone_iff (self : Quest ε) (goal : String) (w : World ε) :
    ∃ report log, (self.run goal w).result = .ok report ∧
      (self.runLogged goal w).result = .ok (report, log) ∧
      report.subtasks = log.map LogEntry.subtask ∧
      ((∀ entry ∈ log, entry.SucceedsWhenDone) ↔ ∀ entry ∈ log, entry.ReadsFinished) := by
  obtain ⟨subtasks, log, w', -, hlogged, hprocessed⟩ := self.runLogged_apply goal w
  refine ⟨reportOf goal log w'.pending, log, ?_, by rw [hlogged], rfl, ?_⟩
  · rw [run_eq_map_runLogged, Act.map_apply, hlogged]
    rfl
  · apply forall₂_congr
    intro entry he
    obtain ⟨i, hi⟩ := List.getElem?_of_mem he
    obtain ⟨st, -, hprocess⟩ := exists_of_forall₂ hprocessed hi
    exact hprocess.terminal_iff

/-- A quest whose LLM runs `git status` in a real shell. -/
def gitQuest : Quest Unit where
  decomposer := .external fun goal env => ([.new "st-1" goal], env)
  llm := ⟨fun _ env => (.ok ⟨""⟩, env), fun _ env => (.ok ⟨"git", "status"⟩, env)⟩
  tools := (ShellTool.new ⟨fun _ env => (.ok ⟨true, "clean", ""⟩, env)⟩).executor
  validator := BasicValidator 8
  bridge := ⟨fun _ env => (.ok (), env), fun _ env => env⟩
  config := .default
  principal := .all "t" "u"
  audit := ⟨fun _ env => (.ok (), env)⟩

/-- The command comes to a terminal observation, is retried, and the subtask
fails. -/
theorem gitQuest_failed :
    ∃ report log, (gitQuest.run "goal" (.initial ())).result = .ok report ∧
      (gitQuest.runLogged "goal" (.initial ())).result = .ok (report, log) ∧
      ¬ ∀ entry ∈ log, entry.SucceedsWhenDone := by
  -- The whole run is evaluated once, and what is needed of it is its statuses and results.
  have heval : (gitQuest.runLogged "goal" (.initial ())).result.toOption.map (fun r =>
      r.2.map fun entry => (entry.subtask.status, entry.attempts.map (·.result.toOption))) =
      some [(.failed, [some (.done ⟨"git", "clean", true⟩),
        some (.done ⟨"git", "clean", true⟩)])] := by
    decide +kernel
  rcases hlogged : (gitQuest.runLogged "goal" (.initial ())).result with err | ⟨report, log⟩
  · simp [hlogged, Except.toOption] at heval
  · refine ⟨report, log, ?_, rfl, fun h => ?_⟩
    · rw [run_eq_map_runLogged, Act.map_apply, hlogged]
      rfl
    · rw [hlogged] at heval
      obtain ⟨entry, rfl, hentry⟩ := List.map_eq_singleton_iff.mp (Option.some.inj heval)
      obtain ⟨hstatus, hattempts⟩ := Prod.mk.inj hentry
      obtain ⟨attempt, rest, hcons, hresult, -⟩ := List.map_eq_cons_iff.mp hattempts
      have hdone : attempt.IsDone := by
        refine ⟨⟨"git", "clean", true⟩, ?_⟩
        rcases hr : attempt.result with err | ending
        · simp [hr, Except.toOption] at hresult
        · simpa [Attempt.EndedDone, hr, Except.toOption] using hresult
      exact (h entry (List.mem_singleton_self _)).2.2 ⟨attempt, by simp [hcons], hdone⟩ hstatus

end Quest

end AgenticIde
