/-
AgenticIde/NesBatch.lean

The batches of `NesClient`, against its single calls.

`complete_batch` hands the items to the real client.  It has neither the cache nor the rules
of `complete`, so the two agree exactly where these make no difference
(`NesClient.batchAgrees_iff`).  The real client is taken to be a function of the request, for
otherwise even two single calls differ.

How a batch runs is `BatchSchedule.lean`: whatever the schedule, a batch that returns has for
each item the answer its call was given, in the order of the items.  Over a fixed function
that leaves one possible result (`runBatch_iff`), and it exists for every concurrency that a
semaphore can have.

A single call is compared in the state the client is in, as its cache may hold an answer from
before.  It never fails, since the rules answer when the real client does not; so an item
that the real client fails on is one on which the two differ, and so is one for which the
cache has another answer.
-/
import AgenticIde.BatchSchedule
import AgenticIde.Ollama

namespace AgenticIde

variable {ε : Type}

/-- A backend whose answer is a function of the request. -/
def CompletionBackend.fixed (answer : NesRequest → Except String (List Completion)) :
    CompletionBackend ε where
  onComplete req env := (answer req, env)

/-- `run_batch` over such a backend may return `out`.  There may be many runs that
do, with the calls overtaking each other in different ways. -/
def RunBatch (answer : NesRequest → Except String (List Completion)) (items : List BatchItem)
    (concurrency : Nat) (out : List (Except String (List Completion))) : Prop :=
  ∃ start trace s, BatchRun.start concurrency = some start ∧
    Trace.Runs (BatchRun.step items) start trace s ∧
    (∀ e ∈ trace, e.AnsweredBy answer items) ∧ s.Returned items ∧ s.out = out

/-- In a run that has returned, the answers stand in the place of the items. -/
theorem BatchRun.Inv.out_eq_map {permits : Nat} {items : List BatchItem} {trace : List BatchEvent}
    {s : BatchRun} (h : BatchRun.Inv permits items trace s) (hreturned : s.Returned items)
    {answer : NesRequest → Except String (List Completion)}
    (hanswered : ∀ e ∈ trace, e.AnsweredBy answer items) : s.out = items.map answer := by
  apply List.ext_getElem?
  intro i
  rw [List.getElem?_map]
  rcases hout : s.out[i]? with - | result
  · have hlength := List.getElem?_eq_none_iff.mp hout
    rw [hreturned.2] at hlength
    rw [List.getElem?_eq_none hlength]
    rfl
  · obtain ⟨item, hitem, hanswer⟩ := hanswered _ ((h.out_iff hreturned i result).mp hout)
    rw [hitem, ← hanswer]
    rfl

/-- **What a batch returns**, if the semaphore can be made: an answer for each item.
The order is that of the items, however the calls overtake each other. -/
theorem runBatch_iff (answer : NesRequest → Except String (List Completion))
    (items : List BatchItem) (concurrency : Nat) (out : List (Except String (List Completion))) :
    RunBatch answer items concurrency out ↔
      max 1 concurrency ≤ Semaphore.maxPermits ∧ out = items.map answer := by
  rw [Nat.max_comm]
  constructor
  · rintro ⟨start, trace, s, hstart, hrun, hanswered, hreturned, rfl⟩
    have hmax := BatchRun.le_maxPermits_of_start hstart
    rw [BatchRun.start_eq_some hmax] at hstart
    obtain rfl := Option.some.inj hstart
    exact ⟨hmax, (BatchRun.inv_of_runs hrun).out_eq_map hreturned hanswered⟩
  · rintro ⟨hmax, rfl⟩
    obtain ⟨rest, s, hrun, hanswered, hreturned⟩ :=
      (BatchRun.orderly_of_runs
        (Trace.Runs.nil : Trace.Runs (BatchRun.step items) _ [] _)).completes answer
    exact ⟨_, rest, s, BatchRun.start_eq_some hmax, hrun, hanswered, hreturned,
      (BatchRun.inv_of_runs hrun).out_eq_map hreturned hanswered⟩

namespace NesClient

/-- `complete_batch` may return `out`: the client's cache is not asked, and neither
is its fallback. -/
def CompleteBatch (real : NesRequest → Except String (List Completion)) (batchConcurrency : Nat)
    (items : List BatchItem) (out : List (Except String (List Completion))) : Prop :=
  RunBatch real items batchConcurrency out

/-- The batch returns, and every item of it has what a single call would be
answered in the state the client is in. -/
def BatchAgrees (real : NesRequest → Except String (List Completion)) (batchConcurrency : Nat)
    (s : ε × CompletionCache) (items : List BatchItem) : Prop :=
  (∃ out, CompleteBatch real batchConcurrency items out) ∧
    ∀ out, CompleteBatch real batchConcurrency items out →
      ∀ (i : Nat) (item : BatchItem), items[i]? = some item →
        ∃ cands, out[i]? = some (.ok cands) ∧
          ((NesClient (.fixed real) RuleBasedBackend).onComplete item s).1 = .ok cands

/-- A single call has the answer `cands` of the real client, unless the cache has
another one. -/
theorem onComplete_fixed_eq_ok_iff {real : NesRequest → Except String (List Completion)}
    {item : BatchItem} {cands : List Completion} (hreal : real item = .ok cands)
    (s : ε × CompletionCache) :
    ((NesClient (.fixed real) RuleBasedBackend).onComplete item s).1 = .ok cands ↔
      ∀ hit, s.2.get item.key = some hit → hit = cands := by
  rw [onComplete_fst]
  cases hget : s.2.get item.key with
  | some hit =>
      constructor
      · intro hhit hit' hhit'
        rw [← Option.some.inj hhit']
        exact Except.ok.inj hhit
      · intro hhit
        rw [hhit hit rfl]
  | none =>
      simp only [CompletionBackend.fixed, hreal]
      exact iff_of_true trivial fun hit hhit => by cases hhit

/-- **A batch agrees with single calls** exactly when it can start, the real client
answers every item, and the cache has no other answer for any.  The batch asks the
client itself, past the cache and past the fallback. -/
theorem batchAgrees_iff (real : NesRequest → Except String (List Completion))
    (batchConcurrency : Nat) (s : ε × CompletionCache) (items : List BatchItem) :
    BatchAgrees real batchConcurrency s items ↔
      max 1 batchConcurrency ≤ Semaphore.maxPermits ∧
        ∀ item ∈ items, ∃ cands, real item = .ok cands ∧
          ∀ hit, s.2.get item.key = some hit → hit = cands := by
  unfold BatchAgrees CompleteBatch
  simp only [runBatch_iff]
  constructor
  · rintro ⟨⟨out, hmax, -⟩, hagrees⟩
    -- An item whose batch answer is that of a single call was answered by the real client,
    -- as no single call fails.
    refine ⟨hmax, fun item hitem => ?_⟩
    obtain ⟨i, hi⟩ := List.getElem?_of_mem hitem
    obtain ⟨cands, hout, hsingle⟩ := hagrees _ ⟨hmax, rfl⟩ i item hi
    rw [List.getElem?_map, hi] at hout
    have hreal : real item = .ok cands := Option.some.inj hout
    exact ⟨cands, hreal, (onComplete_fixed_eq_ok_iff hreal s).mp hsingle⟩
  · rintro ⟨hmax, hitems⟩
    refine ⟨⟨_, hmax, rfl⟩, ?_⟩
    rintro out ⟨-, rfl⟩ i item hi
    obtain ⟨cands, hreal, hcache⟩ := hitems item (List.mem_of_getElem? hi)
    refine ⟨cands, ?_, (onComplete_fixed_eq_ok_iff hreal s).mpr hcache⟩
    rw [List.getElem?_map, hi, ← hreal]
    rfl

/-- One item, with an empty cache, while the endpoint is down: the rules answer
the single call, and nothing answers the batch. -/
theorem not_batchAgrees_outage :
    ¬ BatchAgrees (fun _ => .error "ollama request failed") 4 ((), Cache.new 1024)
      [⟨"let x = ", "", "rust"⟩] := by
  rintro ⟨⟨out, hbatch⟩, hagrees⟩
  obtain ⟨cands, hout, -⟩ := hagrees out hbatch 0 _ rfl
  rw [((runBatch_iff _ _ _ _).mp hbatch).2] at hout
  cases hout

end NesClient

end AgenticIde
