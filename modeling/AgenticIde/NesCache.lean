/-
AgenticIde/NesCache.lean

What the completion cache holds, and what `NesClient` does with it.

The cache is first in, first out, with the value inserted last for each key
(`CompletionCache.law`).  `NesClient` is the composition of the three parts it fuses, the
cache around the real client and the rules behind both: the two answer every run of calls
alike (`NesClient.eq_composition`).  What the real client is asked, and what it answers, is
kept by a recorder around it.

The law of the cache is an instance of `Lib.Fifo`, over any keys and values: the queue has
the keys of the map and no other, without repetition and within the capacity.  Inserting a
key anew changes its value and not its place, so the key goes when its first insertion is
the oldest.  A capacity of zero keeps nothing.

The recorder changes no answer (`run_recorded`), and lets the log be asked about: each entry
of the cache was answered by the real client for that key, an error is never kept, and the
calls of the real client are those that missed (`Served`).  The real client may have a state
of its own and answer one request in different ways; the statements are about what it did
answer.
-/
import AgenticIde.Lib.Fifo
import AgenticIde.Ollama

namespace AgenticIde

variable {ε : Type}

/-- **The completion cache**, after any sequence of insertions: its queue has
no duplicates, has the keys of the map, and is within the capacity; and an
entry is that of one of the keys admitted last, with the value inserted last
for it. -/
theorem CompletionCache.law (capacity : Nat)
    (ops : List ((String × String) × List Completion)) :
    let cache : CompletionCache := Cache.insertAll capacity ops
    cache.order.Nodup ∧ (∀ k, k ∈ cache.order ↔ (cache.get k).isSome) ∧
      cache.order.length ≤ max 1 capacity ∧
      ∀ k v, cache.get k = some v ↔
        k ∈ (Cache.admitted capacity ops).rtake (max 1 capacity) ∧
          Cache.lastInserted ops k = some v := by
  intro cache
  have h := Cache.holds_insertAll capacity ops
  have hlength := h.wellFormed.length
  rw [h.capacity_eq, Nat.max_comm] at hlength
  refine ⟨h.wellFormed.nodup, h.wellFormed.keys, hlength, ?_⟩
  intro k v
  rw [Nat.max_comm]
  exact Cache.get_insertAll capacity ops k v

example : Cache.admitted 1 [(1, "a"), (2, "b"), (2, "c"), (1, "d")] = [1, 2, 1] := by decide

/-! ### Calls -/

/-- One call of a backend; the output is what it returns. -/
def CompletionBackend.call {σ : Type} (backend : CompletionBackend σ) (s : σ) (req : NesRequest) :
    σ × List (Except String (List Completion)) :=
  ((backend.onComplete req s).2, [(backend.onComplete req s).1])

/-- A call and its answer. -/
abbrev AnsweredCall : Type := NesRequest × Except String (List Completion)

/-- A backend with a record of its calls. -/
def recorded (backend : CompletionBackend ε) : CompletionBackend (ε × List AnsweredCall) where
  onComplete req s :=
    ((backend.onComplete req s.1).1,
      ((backend.onComplete req s.1).2, s.2 ++ [(req, (backend.onComplete req s.1).1)]))

/-- A call of a client that keeps a cache; the output is the request if the cache
misses it. -/
def CompletionBackend.miss {σ : Type} (backend : CompletionBackend (σ × CompletionCache))
    (s : σ × CompletionCache) (req : NesRequest) : (σ × CompletionCache) × List NesRequest :=
  ((backend.onComplete req s).2, if (s.2.get req.key).isSome then [] else [req])

namespace NesClient

/-- The three parts, composed. -/
def composition (real : CompletionBackend ε) : CompletionBackend (ε × CompletionCache) :=
  DegradingBackend (CachedCompletionBackend real) RuleBasedBackend

/-- One call of the fused client is one call of the composition. -/
theorem onComplete_eq_composition (real : CompletionBackend ε) (req : NesRequest)
    (s : ε × CompletionCache) :
    (NesClient real RuleBasedBackend).onComplete req s = (composition real).onComplete req s := by
  cases hget : s.2.get req.key with
  | some hit => simp only [NesClient, composition, DegradingBackend, CachedCompletionBackend, hget]
  | none =>
      rcases hreal : real.onComplete req s.1 with ⟨e | cands, env⟩
      · simp only [NesClient, composition, DegradingBackend, CachedCompletionBackend, hget, hreal,
          RuleBasedBackend]
      · simp only [NesClient, composition, DegradingBackend, CachedCompletionBackend, hget, hreal]

/-- What the calls so far make of a client that records: every entry of the cache
is an answer of the real client for its key, every call was answered, and the
real client was asked what the cache missed. -/
structure Served (s : (ε × List AnsweredCall) × CompletionCache)
    (answers : List (Except String (List Completion))) (missed : List NesRequest) : Prop where
  entries : ∀ k cands, s.2.get k = some cands → ∃ req : NesRequest, req.key = k ∧
    (req, .ok cands) ∈ s.1.2
  answered : ∀ r ∈ answers, ∃ cands, r = .ok cands
  asked : s.1.2.map Prod.fst = missed

variable {real : CompletionBackend ε} {s : (ε × List AnsweredCall) × CompletionCache}
  {answers : List (Except String (List Completion))} {missed : List NesRequest}

/-- One more call is served: from the cache, by the real client, or by the
rules. -/
theorem Served.call (h : Served s answers missed) (req : NesRequest) :
    let client := NesClient (recorded real) RuleBasedBackend
    Served (client.call s req).1 (answers ++ (client.call s req).2)
      (missed ++ (client.miss s req).2) := by
  intro client
  cases hget : s.2.get req.key with
  | some hit =>
      have hcall : client.onComplete req s = (.ok hit, s) := by
        simp only [client, NesClient, hget]
      simp only [CompletionBackend.call, CompletionBackend.miss, hcall, hget, Option.isSome_some,
        if_true, List.append_nil]
      exact ⟨h.entries, List.forall_mem_append.mpr ⟨h.answered, by simp⟩, h.asked⟩
  | none =>
      simp only [CompletionBackend.call, CompletionBackend.miss, hget, Option.isSome_none,
        Bool.false_eq_true, if_false]
      rcases hreal : real.onComplete req s.1.1 with ⟨e | cands, env⟩
      · have hcall : client.onComplete req s =
            (.ok (deriveRuleCandidates req.pre req.suffix req.language),
              ((env, s.1.2 ++ [(req, .error e)]), s.2)) := by
          simp only [client, NesClient, hget, recorded, hreal, RuleBasedBackend]
        rw [hcall]
        refine ⟨fun k cands hk => ?_, List.forall_mem_append.mpr ⟨h.answered, by simp⟩, ?_⟩
        · obtain ⟨req', hkey, hmem⟩ := h.entries k cands hk
          exact ⟨req', hkey, List.mem_append_left _ hmem⟩
        · rw [List.map_append, h.asked]
          rfl
      · have hcall : client.onComplete req s =
            (.ok cands, ((env, s.1.2 ++ [(req, .ok cands)]), s.2.insert req.key cands)) := by
          simp only [client, NesClient, hget, recorded, hreal]
        rw [hcall]
        refine ⟨?_, List.forall_mem_append.mpr ⟨h.answered, by simp⟩, ?_⟩
        · -- the new entry is the new answer, the others have theirs already
          have hall : s.2.All fun k cands' => ∃ req' : NesRequest, req'.key = k ∧
              (req', .ok cands') ∈ s.1.2 ++ [(req, .ok cands)] := by
            intro k cands' hk
            obtain ⟨req', hkey, hmem⟩ := h.entries k cands' hk
            exact ⟨req', hkey, List.mem_append_left _ hmem⟩
          exact hall.insert ⟨req, rfl, List.mem_append_right _ List.mem_cons_self⟩
        · rw [List.map_append, h.asked]
          rfl

/-- The two outputs are those of one run. -/
theorem run_miss_fst (client : CompletionBackend (ε × CompletionCache)) (s : ε × CompletionCache)
    (reqs : List NesRequest) :
    (Machine.run client.miss s reqs).1 = (Machine.run client.call s reqs).1 := by
  induction reqs using List.reverseRecOn with
  | nil => rfl
  | append_singleton reqs req ih =>
      rw [Machine.run_concat, Machine.run_concat, ih]
      rfl

/-- Every run of calls is served. -/
theorem served_run (real : CompletionBackend ε) (env : ε) (capacity : Nat)
    (reqs : List NesRequest) :
    let client := NesClient (recorded real) RuleBasedBackend
    let start := ((env, ([] : List AnsweredCall)), (Cache.new capacity : CompletionCache))
    Served (Machine.run client.call start reqs).1 (Machine.run client.call start reqs).2
      (Machine.run client.miss start reqs).2 := by
  intro client start
  induction reqs using List.reverseRecOn with
  | nil => exact ⟨fun k cands hk => (by cases hk), fun r hr => (by cases hr), rfl⟩
  | append_singleton reqs req ih =>
      rw [Machine.run_concat, Machine.run_concat, run_miss_fst]
      exact ih.call req

/-- A record changes no answer. -/
theorem run_recorded (real : CompletionBackend ε) (env : ε) (capacity : Nat)
    (reqs : List NesRequest) :
    (Machine.run (NesClient (recorded real) RuleBasedBackend).call
        ((env, []), Cache.new capacity) reqs).2 =
      (Machine.run (NesClient real RuleBasedBackend).call (env, Cache.new capacity) reqs).2 := by
  -- Step by step: with the log forgotten, the states of the two clients are the same, and
  -- so are their answers.
  have hstep : ∀ (s : ε × CompletionCache) (s' : (ε × List AnsweredCall) × CompletionCache)
      (req : NesRequest), s = (s'.1.1, s'.2) →
        ((NesClient real RuleBasedBackend).call s req).1 =
            (((NesClient (recorded real) RuleBasedBackend).call s' req).1.1.1,
              ((NesClient (recorded real) RuleBasedBackend).call s' req).1.2) ∧
          ((NesClient (recorded real) RuleBasedBackend).call s' req).2 =
            ((NesClient real RuleBasedBackend).call s req).2.map id := by
    rintro s ⟨⟨env, log⟩, cache⟩ req rfl
    cases hget : cache.get req.key with
    | some hit => simp [CompletionBackend.call, NesClient, hget]
    | none =>
        rcases hreal : real.onComplete req env with ⟨e | cands, env'⟩ <;>
          simp [CompletionBackend.call, NesClient, hget, recorded, hreal, RuleBasedBackend]
  have hrun : (Machine.run (NesClient (recorded real) RuleBasedBackend).call
      ((env, []), Cache.new capacity) reqs).2 =
        (Machine.run (NesClient real RuleBasedBackend).call
          (env, Cache.new capacity) reqs).2.map id :=
    (Machine.outputs_of_simulation hstep rfl reqs).2
  rwa [List.map_id] at hrun

/-- **The client is the composition of its parts**: from an empty cache they
answer every run of calls alike.  It answers every call, it keeps nothing but
answers of the real client, and it asks the real client for what the cache
misses and for nothing else. -/
theorem eq_composition (real : CompletionBackend ε) (env : ε) (capacity : Nat)
    (reqs : List NesRequest) :
    Machine.run (NesClient real RuleBasedBackend).call (env, Cache.new capacity) reqs =
        Machine.run (composition real).call (env, Cache.new capacity) reqs ∧
      let client := NesClient (recorded real) RuleBasedBackend
      let start := ((env, ([] : List AnsweredCall)), (Cache.new capacity : CompletionCache))
      let run := Machine.run client.call start reqs
      run.2 =
        (Machine.run (NesClient real RuleBasedBackend).call (env, Cache.new capacity) reqs).2 ∧
      (∀ r ∈ run.2, ∃ cands, r = .ok cands) ∧
      (∀ k cands, run.1.2.get k = some cands →
        ∃ req : NesRequest, req.key = k ∧ (req, .ok cands) ∈ run.1.1.2) ∧
      run.1.1.2.map Prod.fst = (Machine.run client.miss start reqs).2 := by
  constructor
  -- Not only the answers but the steps are the same, so nothing has to be said about runs.
  · have hcall : (NesClient real RuleBasedBackend).call = (composition real).call := by
      funext s req
      rw [CompletionBackend.call, CompletionBackend.call, onComplete_eq_composition]
    rw [hcall]
  · intro client start run
    have hserved := served_run real env capacity reqs
    exact ⟨run_recorded real env capacity reqs, hserved.answered, hserved.entries, hserved.asked⟩

end NesClient

end AgenticIde
