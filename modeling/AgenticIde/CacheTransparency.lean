/-
AgenticIde/CacheTransparency.lean

What callers see of the completion cache.

The cache key has the prefix and the language, and the prompt has the suffix as well.  A call
that hits is therefore given the answer to an earlier request, which may have had another
suffix.  `Cache.served` says which, from the requests alone; the two caching backends are
simulated by it, whatever the backend below them computes.

So the answers are those without a cache exactly if the backend computes the same of each
request and of the one that is served in its place.  That is a condition on the requests and
on what is computed, and on no state: which requests are served is read off the keys and the
capacity.

The backend below must not fail and must answer by the request alone.  One that fails keeps
nothing in the cache, and one that answers as it likes is not the same with and without one.
-/
import AgenticIde.Ollama

namespace AgenticIde

variable {ε : Type}

namespace CompletionBackend

/-- Complete one request after the other; the answers, in order. -/
def completeAll (backend : CompletionBackend ε) (env : ε) (reqs : List NesRequest) :
    List (Except String (List Completion)) :=
  (Machine.run (fun env req => ((backend.onComplete req env).2, [(backend.onComplete req env).1]))
    env reqs).2

/-- The backend never fails, and answers by the request alone: neither the state nor
what was asked before makes a difference. -/
def Computes (backend : CompletionBackend ε) (f : NesRequest → List Completion) : Prop :=
  ∀ req env, (backend.onComplete req env).1 = .ok (f req)

/-- The backend answers what `f` computes of the request it serves, over a
cache of requests. -/
def ServesCached (backend : CompletionBackend (ε × CompletionCache))
    (f : NesRequest → List Completion) : Prop :=
  ∀ req env (c : Cache (String × String) NesRequest),
    (backend.onComplete req (env, c.map f)).1 = .ok (f ((c.get req.key).getD req)) ∧
      (backend.onComplete req (env, c.map f)).2.2 = (c.serve NesRequest.key req).1.map f

variable {f : NesRequest → List Completion}

/-- The answers of a caching backend are those to the requests served. -/
theorem completeAll_eq {backend : CompletionBackend (ε × CompletionCache)}
    (h : backend.ServesCached f) (capacity : Nat) (env : ε) (reqs : List NesRequest) :
    backend.completeAll (env, .new capacity) reqs =
      (Cache.served NesRequest.key capacity reqs).map fun req => .ok (f req) := by
  refine (Machine.outputs_of_simulation (R := fun c s => s.2 = c.map f) ?_ rfl reqs).2
  rintro c ⟨env, -⟩ req rfl
  obtain ⟨hanswer, hcache⟩ := h req env c
  refine ⟨hcache, ?_⟩
  rw [hanswer]
  rcases hget : c.get req.key with - | served <;> simp [Cache.serve, hget]

/-- So every call is answered as its own request exactly when the request it
is served for has the same answer. -/
theorem completeAll_eq_iff {backend : CompletionBackend (ε × CompletionCache)}
    (h : backend.ServesCached f) (capacity : Nat) (env : ε) (reqs : List NesRequest) :
    backend.completeAll (env, .new capacity) reqs = (reqs.map fun req => .ok (f req)) ↔
      List.Forall₂ (fun req served => f req = f served) reqs
        (Cache.served NesRequest.key capacity reqs) := by
  rw [completeAll_eq h, eq_comm, ← List.forall₂_eq_eq_eq, List.forall₂_map_left_iff,
    List.forall₂_map_right_iff]
  simp only [Except.ok.injEq]

end CompletionBackend

section Backends

variable {inner real : CompletionBackend ε} {f : NesRequest → List Completion}

theorem servesCached_cachedCompletionBackend (hinner : inner.Computes f) :
    (CachedCompletionBackend inner).ServesCached f := by
  intro req env c
  rcases hget : c.get req.key with - | served
  · have hmiss := hinner req env
    rcases hcomplete : inner.onComplete req env with ⟨r, env'⟩
    obtain rfl : r = .ok (f req) := by simpa [hcomplete] using hmiss
    simp [CachedCompletionBackend, Cache.serve, hget, hcomplete, Cache.map_insert]
  · simp [CachedCompletionBackend, Cache.serve, hget]

theorem servesCached_nesClient (hreal : real.Computes f) (fallback : CompletionBackend ε) :
    (NesClient real fallback).ServesCached f := by
  intro req env c
  rcases hget : c.get req.key with - | served
  · have hmiss := hreal req env
    rcases hcomplete : real.onComplete req env with ⟨r, env'⟩
    obtain rfl : r = .ok (f req) := by simpa [hcomplete] using hmiss
    simp [NesClient, Cache.serve, hget, hcomplete, Cache.map_insert]
  · simp [NesClient, Cache.serve, hget]

/-- **Cache transparency.**  Over a backend that never fails and answers by
the request alone, a cached backend and the production client answer every
call of a sequence as the backend would exactly when each call is served for
a request with the same answer. -/
theorem cached_transparent_iff (fallback : CompletionBackend ε) (hinner : inner.Computes f)
    (capacity : Nat) (env : ε) (reqs : List NesRequest) :
    let served := Cache.served NesRequest.key capacity reqs
    let answers : List (Except String (List Completion)) := reqs.map fun req => .ok (f req)
    ((CachedCompletionBackend inner).completeAll (env, .new capacity) reqs = answers ↔
        List.Forall₂ (fun req served => f req = f served) reqs served) ∧
      ((NesClient inner fallback).completeAll (env, .new capacity) reqs = answers ↔
        List.Forall₂ (fun req served => f req = f served) reqs served) :=
  ⟨CompletionBackend.completeAll_eq_iff (servesCached_cachedCompletionBackend hinner) _ _ _,
    CompletionBackend.completeAll_eq_iff (servesCached_nesClient hinner fallback) _ _ _⟩

/-- The rules do not look at the suffix. -/
theorem cached_transparent_iff_mock :
    (CachedCompletionBackend MockOllamaClient).completeAll ((), .new 1)
        [⟨"fn main(", ")", "rust"⟩, ⟨"fn main(", "", "rust"⟩] =
      [.ok (deriveRuleCandidates "fn main(" ")" "rust"),
        .ok (deriveRuleCandidates "fn main(" "" "rust")] :=
  (cached_transparent_iff RuleBasedBackend
    (f := fun req => deriveRuleCandidates req.pre req.suffix req.language) (fun _ _ => rfl) 1 ()
    [⟨"fn main(", ")", "rust"⟩, ⟨"fn main(", "", "rust"⟩]).1.mpr (.cons rfl (.cons rfl .nil))

/-- A model that answers with the prompt. -/
def echoing : Http Unit where
  postGenerate _ body env := (.ok body.prompt, env)
  postChat _ _ body env := (.ok (body.messages.map (·.content)), env)
  sleep _ env := env

/-- Two requests that differ in the suffix have two prompts and one entry. -/
theorem echoing_not_transparent :
    let inner := OllamaClient echoing .default
    let f := fun req : NesRequest =>
      [⟨Str.trim (buildGeneratePrompt req.pre req.suffix req.language), 8 / 10⟩]
    let reqs : List NesRequest := [⟨"f(", ")", "rust"⟩, ⟨"f(", "", "rust"⟩]
    inner.Computes f ∧
      ¬ (CachedCompletionBackend inner).completeAll ((), .new 2) reqs =
        (reqs.map fun req => .ok (f req)) ∧
      ¬ (NesClient.fromConfig echoing .default).completeAll ((), .new 2) reqs =
        (reqs.map fun req => .ok (f req)) := by
  refine ⟨fun _ _ => rfl, ?_, ?_⟩
  · decide +kernel
  · decide +kernel

end Backends

end AgenticIde
