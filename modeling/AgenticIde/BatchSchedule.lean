/-
AgenticIde/BatchSchedule.lean

What holds of a batch however it is scheduled.

A task has a permit from when it is spawned until it is done, so the permits that are free
and the tasks that are not done always add up to the concurrency (`Inv.held`): there are
never too many calls in flight, and a spawning loop that waits for a permit waits for a
task that can go on.  A run is one event for each step a task has taken and one for each
result collected (`Inv.length_eq`), so there is no endless one.

The invariant joins a trace with the state it leads to.  What the trace says, that an item
was submitted and what its call was answered, the state says too, in the phases of the
tasks (`Inv.submitted_iff`, `Inv.answered_iff`); the results collected are those of the
first handles (`Inv.joined`).  There is one lemma for each event, which takes the fields
one by one, and `Inv.step` puts them together.

Only the fields are used from there on.  Progress is a case split on how far the two loops
have got (`Inv.progress`).  A batch that has returned has every task done, so its results
are the answers in the order of the items, whichever call was answered first
(`Inv.out_iff`), and each item was submitted exactly once (`Inv.submitted_perm`).
-/
import AgenticIde.Batch
import Mathlib.Data.List.Sigma

namespace AgenticIde

namespace BatchRun

/-! ### The invariant -/

/-- What holds after the events of a trace, with `permits` in the semaphore at
the start. -/
structure Inv (permits : Nat) (items : List BatchItem) (trace : List BatchEvent) (s : BatchRun) :
    Prop where
  held : s.permits + s.tasks.countP (!·.isDone) = permits
  item_eq : ∀ (i : Nat) (t : BatchTask), s.tasks[i]? = some t → items[i]? = some t.item
  submitted_nodup : (trace.filterMap BatchEvent.submitted).Nodup
  submitted_iff : ∀ (item : BatchItem) (i : Nat),
    (item, i) ∈ trace.filterMap BatchEvent.submitted ↔
      ∃ t : BatchTask, s.tasks[i]? = some t ∧ t.item = item ∧ t.submitted = true
  answered_iff : ∀ (i : Nat) (result : Except String (List Completion)),
    BatchEvent.finish i result ∈ trace ↔
      ∃ item : BatchItem, s.tasks[i]? = some ⟨item, .done result⟩
  joined : ∀ (j : Nat) (result : Except String (List Completion)), s.out[j]? = some result →
    ∃ item : BatchItem, s.tasks[j]? = some ⟨item, .done result⟩
  length_eq : trace.length = s.tasks.length + s.tasks.countP BatchTask.submitted +
    s.tasks.countP BatchTask.isDone + s.out.length

variable {permits : Nat} {items : List BatchItem} {trace : List BatchEvent} {s : BatchRun}

theorem inv_start (permits : Nat) (items : List BatchItem) :
    Inv permits items [] ⟨permits, [], []⟩ where
  held := rfl
  item_eq i t h := by cases h
  submitted_nodup := List.nodup_nil
  submitted_iff item i := by
    apply iff_of_false List.not_mem_nil
    rintro ⟨t, h, -⟩
    cases h
  answered_iff i result := by
    apply iff_of_false List.not_mem_nil
    rintro ⟨item, h⟩
    cases h
  joined j result h := by cases h
  length_eq := rfl

/-- An event that submits nothing leaves what was submitted. -/
theorem submitted_concat (trace : List BatchEvent) {e : BatchEvent} (h : e.submitted = none) :
    (trace ++ [e]).filterMap BatchEvent.submitted = trace.filterMap BatchEvent.submitted := by
  rw [List.filterMap_append, List.filterMap_cons_none h, List.filterMap_nil, List.append_nil]

/-- A task that takes a step is counted with its new phase. -/
theorem countP_set_of_getElem? {p : BatchTask → Bool} {tasks : List BatchTask} {i : Nat}
    {t u : BatchTask} (h : tasks[i]? = some t) :
    (tasks.set i u).countP p + (if p t then 1 else 0) =
      tasks.countP p + (if p u then 1 else 0) := by
  obtain ⟨hi, rfl⟩ := List.getElem?_eq_some_iff.mp h
  have hle := List.boole_getElem_le_countP (p := p) hi
  rw [List.countP_set hi]
  omega

theorem getElem?_set_of_getElem? {tasks : List BatchTask} {i : Nat} {t t' : BatchTask}
    (h : tasks[i]? = some t) (j : Nat) :
    (tasks.set i t')[j]? = if i = j then some t' else tasks[j]? := by
  obtain ⟨hi, -⟩ := List.getElem?_eq_some_iff.mp h
  rw [List.getElem?_set, if_pos hi]

theorem getElem?_concat_eq_some_iff {tasks : List BatchTask} {t t' : BatchTask} {i : Nat} :
    (tasks ++ [t'])[i]? = some t ↔ tasks[i]? = some t ∨ i = tasks.length ∧ t' = t := by
  rw [List.getElem?_append]
  split
  case isTrue hi => rw [or_iff_left fun h => absurd h.1 (Nat.ne_of_lt hi)]
  case isFalse hi =>
    have hnone : tasks[i]? = none := List.getElem?_eq_none (Nat.not_lt.mp hi)
    rw [hnone, or_iff_right (by rintro h; cases h), List.getElem?_singleton]
    by_cases heq : i = tasks.length
    · rw [if_pos (by omega), Option.some_inj, and_iff_right heq]
    · rw [if_neg (by omega)]
      exact iff_of_false (by rintro h; cases h) fun h => heq h.1

/-- A step of a task leaves its item. -/
theorem Inv.item_eq_set (h : Inv permits items trace s) {i : Nat} {t t' : BatchTask}
    (htask : s.tasks[i]? = some t) (hitem : t'.item = t.item) (j : Nat) (u : BatchTask)
    (hu : (s.tasks.set i t')[j]? = some u) : items[j]? = some u.item := by
  rw [getElem?_set_of_getElem? htask] at hu
  split at hu
  case isTrue heq =>
    obtain rfl := Option.some.inj hu
    rw [← heq, hitem]
    exact h.item_eq i t htask
  case isFalse => exact h.item_eq j u hu

/-- The results collected are those of other tasks than one that is not done. -/
theorem Inv.joined_set (h : Inv permits items trace s) {i : Nat} {t t' : BatchTask}
    (htask : s.tasks[i]? = some t) (hdone : t.isDone = false) (j : Nat)
    (result : Except String (List Completion)) (hout : s.out[j]? = some result) :
    ∃ item : BatchItem, (s.tasks.set i t')[j]? = some ⟨item, .done result⟩ := by
  obtain ⟨item, ht⟩ := h.joined j result hout
  have hne : i ≠ j := by
    rintro rfl
    rw [htask] at ht
    obtain rfl := Option.some.inj ht
    cases hdone
  refine ⟨item, ?_⟩
  rw [getElem?_set_of_getElem? htask, if_neg hne]
  exact ht

/-- Spawning keeps the invariant: the new task holds the permit that was taken, and
nothing was submitted, answered or collected. -/
theorem Inv.spawn (h : Inv permits items trace s) {item : BatchItem}
    (hitem : items[s.tasks.length]? = some item) (hpermits : 0 < s.permits) :
    Inv permits items (trace ++ [.spawn])
      ⟨s.permits - 1, s.tasks ++ [⟨item, .spawned⟩], s.out⟩ where
  held := by
    have hheld := h.held
    simp only [List.countP_append, List.countP_singleton, BatchTask.isDone_spawned, Bool.not_false,
      if_true]
    omega
  item_eq := by
    -- The new task stands at the end, at the place of the item that was read.
    intro i t ht
    rcases getElem?_concat_eq_some_iff.mp ht with ht | ⟨rfl, rfl⟩
    · exact h.item_eq i t ht
    · exact hitem
  submitted_nodup := by
    rw [submitted_concat trace rfl]
    exact h.submitted_nodup
  submitted_iff := by
    intro item' i
    rw [submitted_concat trace rfl, h.submitted_iff]
    constructor
    · rintro ⟨t, ht, hrest⟩
      exact ⟨t, getElem?_concat_eq_some_iff.mpr (.inl ht), hrest⟩
    · rintro ⟨t, ht, hitem', hsubmitted⟩
      -- The new task has submitted nothing, so it is no witness.
      rcases getElem?_concat_eq_some_iff.mp ht with ht | ⟨-, rfl⟩
      · exact ⟨t, ht, hitem', hsubmitted⟩
      · cases hsubmitted
  answered_iff := by
    intro i result
    rw [List.mem_append, or_iff_left (by simp), h.answered_iff]
    constructor
    · rintro ⟨item', ht⟩
      exact ⟨item', getElem?_concat_eq_some_iff.mpr (.inl ht)⟩
    · rintro ⟨item', ht⟩
      -- Nor is it done.
      rcases getElem?_concat_eq_some_iff.mp ht with ht | ⟨-, heq⟩
      · exact ⟨item', ht⟩
      · cases heq
  joined := by
    intro j result hout
    obtain ⟨item', ht⟩ := h.joined j result hout
    exact ⟨item', getElem?_concat_eq_some_iff.mpr (.inl ht)⟩
  length_eq := by
    have hlength := h.length_eq
    simp only [List.length_append, List.length_singleton, List.countP_append,
      List.countP_singleton, BatchTask.submitted_spawned, BatchTask.isDone_spawned,
      Bool.false_eq_true, if_false]
    omega

/-- Submitting keeps the invariant: the task keeps its permit, and its item, which
was not submitted before, is now. -/
theorem Inv.submit (h : Inv permits items trace s) {i : Nat} {item : BatchItem}
    (htask : s.tasks[i]? = some ⟨item, .spawned⟩) :
    Inv permits items (trace ++ [.submit i item])
      ⟨s.permits, s.tasks.set i ⟨item, .inFlight⟩, s.out⟩ where
  held := by
    -- The task was not done and is not done, so the same number of permits is held.
    have hcount := countP_set_of_getElem? (p := (!·.isDone)) (u := ⟨item, .inFlight⟩) htask
    simp only [BatchTask.isDone_spawned, BatchTask.isDone_inFlight, Bool.not_false, if_true]
      at hcount
    have hheld := h.held
    show s.permits + (s.tasks.set i ⟨item, .inFlight⟩).countP (!·.isDone) = permits
    omega
  item_eq := h.item_eq_set htask rfl
  submitted_nodup := by
    -- Had the item been submitted from this place before, its task would not be `spawned`
    -- now.
    have hfresh : (item, i) ∉ trace.filterMap BatchEvent.submitted := by
      intro hmem
      obtain ⟨t, ht, -, hsubmitted⟩ := (h.submitted_iff item i).mp hmem
      rw [htask] at ht
      obtain rfl := Option.some.inj ht
      cases hsubmitted
    rw [List.filterMap_append]
    show (trace.filterMap BatchEvent.submitted ++ [(item, i)]).Nodup
    rw [← List.concat_eq_append]
    exact List.Nodup.concat hfresh h.submitted_nodup
  submitted_iff := by
    intro item' j
    rw [List.filterMap_append, List.mem_append, h.submitted_iff,
      getElem?_set_of_getElem? htask]
    show _ ∨ (item', j) ∈ [(item, i)] ↔ _
    rw [List.mem_singleton, Prod.mk.injEq]
    split
    -- At the place of the event: nothing was submitted before, and now the item of the task
    -- is.
    case isTrue heq =>
      subst heq
      constructor
      · rintro (⟨t, ht, -, hsubmitted⟩ | ⟨rfl, -⟩)
        · rw [htask] at ht
          obtain rfl := Option.some.inj ht
          cases hsubmitted
        · exact ⟨_, rfl, rfl, rfl⟩
      · rintro ⟨t, ht, rfl, -⟩
        obtain rfl := Option.some.inj ht
        exact .inr ⟨rfl, rfl⟩
    -- At any other place neither the trace nor the task has changed.
    case isFalse hne => rw [or_iff_left fun heq => hne heq.2.symm]
  answered_iff := by
    intro j result
    rw [List.mem_append, or_iff_left (by simp), h.answered_iff, getElem?_set_of_getElem? htask]
    split
    -- A call that has just been submitted was not answered, neither before nor now.
    case isTrue heq =>
      subst heq
      rw [htask]
      constructor
      · rintro ⟨item', ht⟩
        cases ht
      · rintro ⟨item', ht⟩
        cases ht
    case isFalse => rfl
  joined := h.joined_set htask rfl
  length_eq := by
    -- The trace is longer by one, and so is the number of tasks that have submitted.
    have hsubmitted := countP_set_of_getElem? (p := BatchTask.submitted) (u := ⟨item, .inFlight⟩)
      htask
    have hdone := countP_set_of_getElem? (p := BatchTask.isDone) (u := ⟨item, .inFlight⟩) htask
    simp only [BatchTask.submitted_spawned, BatchTask.submitted_inFlight, BatchTask.isDone_spawned,
      BatchTask.isDone_inFlight, Bool.false_eq_true, if_false, if_true] at hsubmitted hdone
    have hlength := h.length_eq
    simp only [List.length_append, List.length_singleton, List.length_set]
    omega

/-- An answer keeps the invariant: the task gives its permit back, and its result is
the answer. -/
theorem Inv.finish (h : Inv permits items trace s) {i : Nat} {item : BatchItem}
    (htask : s.tasks[i]? = some ⟨item, .inFlight⟩) (result : Except String (List Completion)) :
    Inv permits items (trace ++ [.finish i result])
      ⟨s.permits + 1, s.tasks.set i ⟨item, .done result⟩, s.out⟩ where
  held := by
    -- The task is done now, and its permit is free: the sum stays.
    have hcount := countP_set_of_getElem? (p := (!·.isDone)) (u := ⟨item, .done result⟩) htask
    simp only [BatchTask.isDone_inFlight, BatchTask.isDone_done, Bool.not_false, Bool.not_true,
      Bool.false_eq_true, if_true, if_false] at hcount
    have hheld := h.held
    show s.permits + 1 + (s.tasks.set i ⟨item, .done result⟩).countP (!·.isDone) = permits
    omega
  item_eq := h.item_eq_set htask rfl
  submitted_nodup := by
    rw [submitted_concat trace rfl]
    exact h.submitted_nodup
  submitted_iff := by
    intro item' j
    rw [submitted_concat trace rfl, h.submitted_iff, getElem?_set_of_getElem? htask]
    split
    -- The task had submitted its item when the answer came, and still counts as one that
    -- has.
    case isTrue heq =>
      subst heq
      rw [htask]
      constructor
      · rintro ⟨t, ht, rfl, -⟩
        obtain rfl := Option.some.inj ht
        exact ⟨_, rfl, rfl, rfl⟩
      · rintro ⟨t, ht, rfl, -⟩
        obtain rfl := Option.some.inj ht
        exact ⟨_, rfl, rfl, rfl⟩
    case isFalse => rfl
  answered_iff := by
    intro j result'
    rw [List.mem_append, List.mem_singleton, BatchEvent.finish.injEq, h.answered_iff,
      getElem?_set_of_getElem? htask]
    split
    -- At the place of the event there was no answer before; now there is this one.
    case isTrue heq =>
      subst heq
      rw [htask]
      constructor
      · rintro (⟨item', ht⟩ | ⟨-, rfl⟩)
        · cases ht
        · exact ⟨item, rfl⟩
      · rintro ⟨item', ht⟩
        cases ht
        exact .inr ⟨rfl, rfl⟩
    case isFalse hne => rw [or_iff_left fun heq => hne heq.1.symm]
  joined := h.joined_set htask rfl
  length_eq := by
    have hsubmitted := countP_set_of_getElem? (p := BatchTask.submitted)
      (u := ⟨item, .done result⟩) htask
    have hdone := countP_set_of_getElem? (p := BatchTask.isDone) (u := ⟨item, .done result⟩) htask
    simp only [BatchTask.submitted_inFlight, BatchTask.submitted_done, BatchTask.isDone_inFlight,
      BatchTask.isDone_done, Bool.false_eq_true, if_false, if_true] at hsubmitted hdone
    have hlength := h.length_eq
    simp only [List.length_append, List.length_singleton, List.length_set]
    omega

/-- Collecting keeps the invariant: the result is that of the next handle, whose
task is done. -/
theorem Inv.join (h : Inv permits items trace s) {item : BatchItem}
    {result : Except String (List Completion)}
    (htask : s.tasks[s.out.length]? = some ⟨item, .done result⟩) :
    Inv permits items (trace ++ [.join]) ⟨s.permits, s.tasks, s.out ++ [result]⟩ where
  held := h.held
  item_eq := h.item_eq
  submitted_nodup := by
    rw [submitted_concat trace rfl]
    exact h.submitted_nodup
  submitted_iff := by
    intro item' i
    rw [submitted_concat trace rfl]
    exact h.submitted_iff item' i
  answered_iff := by
    intro i result'
    rw [List.mem_append, or_iff_left (by simp)]
    exact h.answered_iff i result'
  joined := by
    intro j result' hout
    rw [List.getElem?_append] at hout
    split at hout
    case isTrue => exact h.joined j result' hout
    -- The result collected last stands behind all others, at the place of its task.
    case isFalse hj =>
      obtain ⟨hlast, hresult⟩ := List.getElem?_eq_some_iff.mp hout
      rw [List.length_singleton] at hlast
      obtain rfl : j = s.out.length := by omega
      rw [List.getElem_singleton] at hresult
      exact ⟨item, hresult ▸ htask⟩
  length_eq := by
    have hlength := h.length_eq
    simp only [List.length_append, List.length_singleton]
    omega

/-- **Every event keeps the invariant.**  By the cases of a step; the trace is the
one of the calls so far, with the event added at its end. -/
theorem Inv.step (h : Inv permits items trace s) {e : BatchEvent} {s' : BatchRun}
    (hstep : s.step items e = some s') : Inv permits items (trace ++ [e]) s' := by
  rcases step_cases hstep with ⟨item, rfl, hitem, hpermits, rfl⟩ | ⟨i, item, rfl, htask, rfl⟩ |
    ⟨i, item, result, rfl, htask, rfl⟩ | ⟨item, result, rfl, -, htask, rfl⟩
  · exact h.spawn hitem hpermits
  · exact h.submit htask
  · exact h.finish htask result
  · exact h.join htask

/-- Every run keeps it. -/
theorem inv_of_runs (h : Trace.Runs (BatchRun.step items) ⟨permits, [], []⟩ trace s) :
    Inv permits items trace s :=
  h.invariant (inv_start permits items) fun _ _ _ _ hinv hstep => hinv.step hstep

/-! ### What follows of it -/

theorem length_le_of_getElem? {α β : Type*} {l : List α} {l' : List β}
    (h : ∀ (i : Nat) (a : α), l[i]? = some a → ∃ b : β, l'[i]? = some b) :
    l.length ≤ l'.length := by
  by_contra hlt
  obtain ⟨b, hb⟩ := h l'.length _ (List.getElem?_eq_getElem (Nat.not_le.mp hlt))
  rw [List.getElem?_eq_none (Nat.le_refl _)] at hb
  cases hb

theorem Inv.tasks_length_le (h : Inv permits items trace s) : s.tasks.length ≤ items.length :=
  length_le_of_getElem? fun i t ht => ⟨t.item, h.item_eq i t ht⟩

theorem Inv.out_length_le (h : Inv permits items trace s) : s.out.length ≤ s.tasks.length := by
  apply length_le_of_getElem?
  intro j result hout
  obtain ⟨item, ht⟩ := h.joined j result hout
  exact ⟨_, ht⟩

theorem Inv.inFlight_le (h : Inv permits items trace s) : s.inFlight ≤ permits := by
  have hmono : s.tasks.countP BatchTask.isInFlight ≤ s.tasks.countP (!·.isDone) := by
    apply List.countP_mono_left
    rintro ⟨item, phase⟩ - hphase
    cases phase with
    | spawned => rfl
    | inFlight => rfl
    | done result => cases hphase
  have hheld := h.held
  unfold inFlight
  omega

theorem Inv.length_le (h : Inv permits items trace s) : trace.length ≤ 4 * items.length := by
  have hlength := h.length_eq
  have htasks := h.tasks_length_le
  have hout := h.out_length_le
  have hsubmitted := List.countP_le_length (p := BatchTask.submitted) (l := s.tasks)
  have hdone := List.countP_le_length (p := BatchTask.isDone) (l := s.tasks)
  omega

/-- Where no permit is free, some task is not done. -/
theorem Inv.exists_not_done (h : Inv permits items trace s) (hpos : 0 < permits)
    (hpermits : s.permits = 0) :
    ∃ (i : Nat) (t : BatchTask), s.tasks[i]? = some t ∧ t.isDone = false := by
  have hheld := h.held
  have hcount : 0 < s.tasks.countP (!·.isDone) := by omega
  obtain ⟨t, ht, hdone⟩ := List.countP_pos_iff.mp hcount
  obtain ⟨i, hi⟩ := List.getElem?_of_mem ht
  exact ⟨i, t, hi, by simpa using hdone⟩

/-- **A batch that has not returned can go on**, whatever the calls are answered.
If not every item has its task yet, one can be spawned or a running one can go on;
otherwise the task whose result is awaited next is on its way or is done. -/
theorem Inv.progress (h : Inv permits items trace s) (hpos : 0 < permits)
    (answer : BatchItem → Except String (List Completion)) :
    s.Returned items ∨ ∃ e s', s.step items e = some s' ∧ e.AnsweredBy answer items := by
  rcases Nat.lt_or_eq_of_le h.tasks_length_le with hspawning | hspawned
  · -- the spawning loop has a permit, or waits for a task that can go on
    right
    rcases Nat.eq_zero_or_pos s.permits with hpermits | hpermits
    · obtain ⟨i, t, ht, hdone⟩ := h.exists_not_done hpos hpermits
      exact exists_step_of_not_done ht (h.item_eq i t ht) hdone answer
    · have hitem := List.getElem?_eq_getElem hspawning
      refine ⟨.spawn, ⟨s.permits - 1, s.tasks ++ [⟨items[s.tasks.length], .spawned⟩], s.out⟩,
        ?_, trivial⟩
      simp only [BatchRun.step, hitem, if_pos hpermits]
  · rcases Nat.lt_or_eq_of_le h.out_length_le with hjoining | hjoined
    · -- the next handle is done, or its task can go on
      right
      have htask := List.getElem?_eq_getElem hjoining
      rcases hphase : s.tasks[s.out.length] with ⟨item, phase⟩
      rw [hphase] at htask
      have hitem := h.item_eq _ _ htask
      cases phase with
      | spawned => exact exists_step_of_not_done htask hitem rfl answer
      | inFlight => exact exists_step_of_not_done htask hitem rfl answer
      | done result =>
          refine ⟨.join, ⟨s.permits, s.tasks, s.out ++ [result]⟩, ?_, trivial⟩
          simp only [BatchRun.step, htask, if_pos hspawned]
    · exact .inl ⟨hspawned, hjoined.trans hspawned⟩

/-- The results of a batch that has returned are the answers. -/
theorem Inv.out_iff (h : Inv permits items trace s) (hreturned : s.Returned items) (i : Nat)
    (result : Except String (List Completion)) :
    s.out[i]? = some result ↔ BatchEvent.finish i result ∈ trace := by
  rw [h.answered_iff]
  constructor
  · exact h.joined i result
  · rintro ⟨item, ht⟩
    obtain ⟨hi, -⟩ := List.getElem?_eq_some_iff.mp ht
    have hout := List.getElem?_eq_getElem (l := s.out) (i := i)
      (by rw [hreturned.2, ← hreturned.1]; exact hi)
    obtain ⟨item', ht'⟩ := h.joined i _ hout
    rw [ht] at ht'
    cases ht'
    exact hout

/-- It has submitted each item once. -/
theorem Inv.submitted_perm (h : Inv permits items trace s) (hreturned : s.Returned items) :
    (trace.filterMap BatchEvent.submitted).Perm items.zipIdx := by
  have hnodup : items.zipIdx.Nodup := List.Nodup.of_map _ (List.nodup_zipIdx_map_snd items)
  apply (List.perm_ext_iff_of_nodup h.submitted_nodup hnodup).mpr
  rintro ⟨item, i⟩
  rw [h.submitted_iff, List.mk_mem_zipIdx_iff_getElem?]
  constructor
  · rintro ⟨t, ht, rfl, -⟩
    exact h.item_eq i t ht
  · intro hitem
    obtain ⟨hi, -⟩ := List.getElem?_eq_some_iff.mp hitem
    obtain ⟨item', ht⟩ := h.joined i _ (List.getElem?_eq_getElem (by rw [hreturned.2]; exact hi))
    have hitem' := h.item_eq i _ ht
    rw [hitem] at hitem'
    exact ⟨_, ht, (Option.some.inj hitem').symm, rfl⟩

/-! ### Orderly runs -/

/-- What is asked of a batch after the events of a trace: no more calls are in
flight than allowed, no item has been submitted twice, some event can come next
unless the results are returned, and whatever the calls are answered it can be
brought to its end, within a bound; and where it has returned, each item has
been submitted, and the results are the answers, in the order of the items. -/
structure Orderly (concurrency : Nat) (items : List BatchItem) (start : BatchRun)
    (trace : List BatchEvent) (s : BatchRun) : Prop where
  bounded : s.inFlight ≤ max 1 concurrency
  once : (trace.filterMap BatchEvent.submitted).Nodup
  progress : ∀ answer : BatchItem → Except String (List Completion),
    s.Returned items ∨ ∃ e s', s.step items e = some s' ∧ e.AnsweredBy answer items
  finite : trace.length ≤ 4 * items.length
  completes : ∀ answer : BatchItem → Except String (List Completion), ∃ rest s',
    Trace.Runs (BatchRun.step items) start (trace ++ rest) s' ∧
      (∀ e ∈ rest, e.AnsweredBy answer items) ∧ s'.Returned items
  submitted : s.Returned items → (trace.filterMap BatchEvent.submitted).Perm items.zipIdx
  length : s.Returned items → s.out.length = items.length
  results : s.Returned items → ∀ (i : Nat) (result : Except String (List Completion)),
    s.out[i]? = some result ↔ BatchEvent.finish i result ∈ trace

theorem start_eq_some {concurrency : Nat} (h : max concurrency 1 ≤ Semaphore.maxPermits) :
    start concurrency = some ⟨max concurrency 1, [], []⟩ := by
  unfold start Semaphore.new
  rw [if_pos h]
  rfl

theorem le_maxPermits_of_start {concurrency : Nat} {start : BatchRun}
    (h : BatchRun.start concurrency = some start) : max concurrency 1 ≤ Semaphore.maxPermits := by
  by_contra hmax
  unfold BatchRun.start Semaphore.new at h
  rw [if_neg hmax] at h
  cases h

theorem orderly_of_runs {concurrency : Nat}
    (h : Trace.Runs (BatchRun.step items) ⟨max concurrency 1, [], []⟩ trace s) :
    Orderly concurrency items ⟨max concurrency 1, [], []⟩ trace s where
  bounded := (inv_of_runs h).inFlight_le.trans_eq (Nat.max_comm _ _)
  once := (inv_of_runs h).submitted_nodup
  progress := (inv_of_runs h).progress (Nat.le_max_right _ _)
  finite := (inv_of_runs h).length_le
  completes answer := h.exists_finished
    (fun hrun => (inv_of_runs hrun).progress (Nat.le_max_right _ _) answer)
    fun hrun => (inv_of_runs hrun).length_le
  submitted := (inv_of_runs h).submitted_perm
  length hreturned := hreturned.2
  results := (inv_of_runs h).out_iff

end BatchRun

/-- The batch can start, and every run of it is orderly.  The runs are all the lists
of events that can happen one after the other, whether they have come to the end or
not. -/
def BatchOrderly (concurrency : Nat) (items : List BatchItem) : Prop :=
  ∃ start, BatchRun.start concurrency = some start ∧
    ∀ trace s, Trace.Runs (BatchRun.step items) start trace s →
      BatchRun.Orderly concurrency items start trace s

/-- **Every run of a batch is orderly**, for every concurrency that a semaphore can
have.  A number beyond that fails before the first item, so there the batch has no
result at all; a concurrency of zero counts as one. -/
theorem batchOrderly_iff (concurrency : Nat) (items : List BatchItem) :
    BatchOrderly concurrency items ↔ max 1 concurrency ≤ Semaphore.maxPermits := by
  rw [Nat.max_comm]
  constructor
  · rintro ⟨start, hstart, -⟩
    exact BatchRun.le_maxPermits_of_start hstart
  · intro hmax
    exact ⟨_, BatchRun.start_eq_some hmax, fun trace s h => BatchRun.orderly_of_runs h⟩

/-- A concurrency of one more than a semaphore can have. -/
theorem not_batchOrderly_maxPermits : ¬ BatchOrderly (Semaphore.maxPermits + 1) [] := by
  rintro ⟨start, hstart, -⟩
  have hnone : BatchRun.start (Semaphore.maxPermits + 1) = none := rfl
  rw [hnone] at hstart
  cases hstart

end AgenticIde
