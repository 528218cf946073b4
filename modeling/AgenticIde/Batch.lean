/-
AgenticIde/Batch.lean

Batch completion with bounded concurrency (`run_batch` of `ollama.rs`).

Several things may happen next while a batch runs: the loop that spawns takes a permit and
spawns the next task, a task that was spawned calls the backend, a call is answered and its
task gives the permit back, or the loop that collects takes the next result.  The schedule
is not the program's to choose, so a run is any list of these events that can happen one
after the other.

An answer is part of the event that brings it: whatever the backend returns, the result of
an item is the answer its one call was given.

The permit of a task is taken before it is spawned and given back when its call has been
answered, not when its result is collected.  So `BatchRun` keeps the free permits and the
phase of every task, and nothing else is needed to say what can happen: `step` is a partial
function, and `step_cases` says once what each event asks for and what it does.  All that
is proved about runs goes through it.

A semaphore has an upper bound on its permits, and asking for more panics; `start` is
partial for that reason.
-/
import AgenticIde.Completion
import AgenticIde.Lib.Trace

namespace AgenticIde

/-! ### The semaphore -/

/-- The most permits a semaphore of the runtime has (`usize::MAX >> 3`). -/
def Semaphore.maxPermits : Nat := 2 ^ 61 - 1

/-- A semaphore, by the permits it has; asking for too many panics. -/
def Semaphore.new (permits : Nat) : Option Nat :=
  if permits ≤ Semaphore.maxPermits then some permits else none

/-! ### The run of a batch -/

/-- One item for batch completion. -/
abbrev BatchItem : Type := NesRequest

/-- Where a spawned task is; it has its permit until it is done. -/
inductive BatchPhase
  | spawned
  | inFlight
  | done (result : Except String (List Completion))

/-- The task of an item. -/
structure BatchTask where
  item : BatchItem
  phase : BatchPhase

namespace BatchTask

/-- The task has called the backend. -/
def submitted (t : BatchTask) : Bool :=
  match t.phase with
  | .spawned => false
  | .inFlight => true
  | .done _ => true

/-- The call has been answered. -/
def isDone (t : BatchTask) : Bool :=
  match t.phase with
  | .spawned => false
  | .inFlight => false
  | .done _ => true

/-- The call is in flight. -/
def isInFlight (t : BatchTask) : Bool :=
  match t.phase with
  | .spawned => false
  | .inFlight => true
  | .done _ => false

variable (item : BatchItem) (result : Except String (List Completion))

@[simp] theorem submitted_spawned : submitted ⟨item, .spawned⟩ = false := rfl
@[simp] theorem submitted_inFlight : submitted ⟨item, .inFlight⟩ = true := rfl
@[simp] theorem submitted_done : submitted ⟨item, .done result⟩ = true := rfl
@[simp] theorem isDone_spawned : isDone ⟨item, .spawned⟩ = false := rfl
@[simp] theorem isDone_inFlight : isDone ⟨item, .inFlight⟩ = false := rfl
@[simp] theorem isDone_done : isDone ⟨item, .done result⟩ = true := rfl

end BatchTask

/-- What `run_batch` has got to: the free permits, the tasks behind the handles,
and the results collected. -/
structure BatchRun where
  permits : Nat
  tasks : List BatchTask
  out : List (Except String (List Completion))

/-- What may happen. -/
inductive BatchEvent
  | spawn
  | submit (i : Nat) (item : BatchItem)
  | finish (i : Nat) (result : Except String (List Completion))
  | join

namespace BatchRun

/-- The run before anything is spawned: a semaphore of at least one permit. -/
def start (concurrency : Nat) : Option BatchRun :=
  (Semaphore.new (max concurrency 1)).map fun permits => ⟨permits, [], []⟩

/-- What an event makes of the run. -/
def step (items : List BatchItem) (s : BatchRun) : BatchEvent → Option BatchRun
  | .spawn =>
      -- the next item is spawned as soon as a permit can be acquired
      match items[s.tasks.length]? with
      | some item =>
          if 0 < s.permits then
            some { s with permits := s.permits - 1, tasks := s.tasks ++ [⟨item, .spawned⟩] }
          else none
      | none => none
  | .submit i item =>
      match s.tasks[i]? with
      | some ⟨item', .spawned⟩ =>
          if item = item' then some { s with tasks := s.tasks.set i ⟨item, .inFlight⟩ } else none
      | _ => none
  | .finish i result =>
      match s.tasks[i]? with
      | some ⟨item, .inFlight⟩ =>
          -- the permit is dropped with the task
          some { s with permits := s.permits + 1, tasks := s.tasks.set i ⟨item, .done result⟩ }
      | _ => none
  | .join =>
      -- the handles are awaited in order, after all have been spawned
      if s.tasks.length = items.length then
        match s.tasks[s.out.length]? with
        | some ⟨_, .done result⟩ => some { s with out := s.out ++ [result] }
        | _ => none
      else none

/-- The run has returned its results: every item has its task, and every task has
been joined. -/
def Returned (items : List BatchItem) (s : BatchRun) : Prop :=
  s.tasks.length = items.length ∧ s.out.length = items.length

/-- The number of backend calls in flight. -/
def inFlight (s : BatchRun) : Nat := s.tasks.countP BatchTask.isInFlight

end BatchRun

/-- The call an event submits to the backend, with the place of its item. -/
def BatchEvent.submitted : BatchEvent → Option (BatchItem × Nat)
  | submit i item => some (item, i)
  | _ => none

/-- **What one event does.**  Each kind of event has its guard and its change, and
there are no others: the invariants of a batch are derived from these four cases,
without a look at the definition of a step. -/
theorem BatchRun.step_cases {items : List BatchItem} {s s' : BatchRun} {e : BatchEvent}
    (h : s.step items e = some s') :
    (∃ item, e = .spawn ∧ items[s.tasks.length]? = some item ∧ 0 < s.permits ∧
      s' = ⟨s.permits - 1, s.tasks ++ [⟨item, .spawned⟩], s.out⟩) ∨
    (∃ i item, e = .submit i item ∧ s.tasks[i]? = some ⟨item, .spawned⟩ ∧
      s' = ⟨s.permits, s.tasks.set i ⟨item, .inFlight⟩, s.out⟩) ∨
    (∃ i item result, e = .finish i result ∧ s.tasks[i]? = some ⟨item, .inFlight⟩ ∧
      s' = ⟨s.permits + 1, s.tasks.set i ⟨item, .done result⟩, s.out⟩) ∨
    (∃ item result, e = .join ∧ s.tasks.length = items.length ∧
      s.tasks[s.out.length]? = some ⟨item, .done result⟩ ∧
      s' = ⟨s.permits, s.tasks, s.out ++ [result]⟩) := by
  -- One event after the other; an event whose guard fails is no step.
  cases e with
  | spawn =>
      simp only [step] at h
      split at h
      case h_1 item hitem =>
        split at h
        case isTrue hpermits =>
          exact .inl ⟨item, rfl, hitem, hpermits, (Option.some.inj h).symm⟩
        case isFalse => cases h
      case h_2 => cases h
  | submit i item =>
      simp only [step] at h
      split at h
      case h_1 item' htask =>
        split at h
        case isTrue heq =>
          subst heq
          exact .inr (.inl ⟨i, item, rfl, htask, (Option.some.inj h).symm⟩)
        case isFalse => cases h
      case h_2 => cases h
  | finish i result =>
      simp only [step] at h
      split at h
      case h_1 item htask =>
        exact .inr (.inr (.inl ⟨i, item, result, rfl, htask, (Option.some.inj h).symm⟩))
      case h_2 => cases h
  | join =>
      simp only [step] at h
      split at h
      case isTrue hlength =>
        split at h
        case h_1 item result htask =>
          exact .inr (.inr (.inr ⟨item, result, rfl, hlength, htask, (Option.some.inj h).symm⟩))
        case h_2 => cases h
      case isFalse => cases h

/-- The answer an event brings, if any, is what `answer` makes of the item. -/
def BatchEvent.AnsweredBy (answer : BatchItem → Except String (List Completion))
    (items : List BatchItem) : BatchEvent → Prop
  | finish i result => ∃ item, items[i]? = some item ∧ answer item = result
  | _ => True

/-- A task that is not done can go on, whatever its call is answered. -/
theorem BatchRun.exists_step_of_not_done {items : List BatchItem} {s : BatchRun} {i : Nat}
    {t : BatchTask} (htask : s.tasks[i]? = some t) (hitem : items[i]? = some t.item)
    (hdone : t.isDone = false) (answer : BatchItem → Except String (List Completion)) :
    ∃ e s', s.step items e = some s' ∧ e.AnsweredBy answer items := by
  obtain ⟨item, phase⟩ := t
  cases phase with
  | spawned =>
      refine ⟨.submit i item, ⟨s.permits, s.tasks.set i ⟨item, .inFlight⟩, s.out⟩, ?_, trivial⟩
      simp only [step, htask, if_true]
  | inFlight =>
      refine ⟨.finish i (answer item),
        ⟨s.permits + 1, s.tasks.set i ⟨item, .done (answer item)⟩, s.out⟩, ?_, item, hitem, rfl⟩
      simp only [step, htask]
  | done result => cases hdone

end AgenticIde
