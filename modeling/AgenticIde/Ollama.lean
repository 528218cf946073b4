/-
AgenticIde/Ollama.lean

The clients of a local model (`ollama.rs`): the HTTP client with its retries, the completion
cache, the wrapper that degrades, and `NesClient`, which is all three in one.

The network is a collaborator: how an endpoint answers a request, and how waiting passes.  A
client that keeps a cache has it next to the hidden state.  Embeddings are left out.

The order in `NesClient` is that of the source: first the cache, then the real client, and
after an error the fallback.  Only what the real client answered is kept, so a fallback is
asked again each time, and a model that comes back is noticed at once.

Retries and waits are plain numbers here, counted down; `OllamaRetry` has the loop of the
source over machine integers, and says that the two agree.
-/
import AgenticIde.Completion
import AgenticIde.Lib.Cache

namespace AgenticIde

variable {ε : Type}

/-! ### The network -/

/-- How a request fails: the time is over, nothing comes back, an error
status comes back, or a body that is not the expected JSON. -/
inductive HttpError
  | elapsed (text : String)
  | send (text : String)
  | status (text : String)
  | body (text : String)
  deriving DecidableEq

/-- The body of `/api/generate`. -/
structure GenerateRequest where
  model : String
  prompt : String
  stream : Bool
  deriving DecidableEq

/-- One message of `/chat/completions`. -/
structure PromptMessage where
  role : String
  content : String
  deriving DecidableEq

/-- The body of `/chat/completions`. -/
structure CompletionRequest where
  model : String
  messages : List PromptMessage
  stream : Bool
  temperature : ℚ
  deriving DecidableEq

/-- The model endpoints: `postGenerate` answers with the `response` of the
body, `postChat` with the contents of its choices. -/
structure Http (ε : Type) where
  postGenerate : String → GenerateRequest → ε → Except HttpError String × ε
  postChat : String → Option String → CompletionRequest → ε → Except HttpError (List String) × ε
  sleep : Nat → ε → ε

/-- A failure that lasts: in the states in `down` no generation succeeds, and no
post and no waiting leaves them. -/
structure Http.Outage (http : Http ε) (down : Set ε) : Prop where
  fails : ∀ {env}, env ∈ down → ∀ url body, ∃ e, (http.postGenerate url body env).1 = .error e
  generate : ∀ {env}, env ∈ down → ∀ url body, (http.postGenerate url body env).2 ∈ down
  sleep : ∀ {env}, env ∈ down → ∀ ms, http.sleep ms env ∈ down

/-! ### The client -/

/-- Configuration of the client; `timeout` is the duration as it is
printed. -/
structure OllamaConfig where
  endpoint : String
  model : String
  timeout : String
  maxRetries : Nat
  backoffBaseMs : Nat
  backoffMaxMs : Nat
  cacheCapacity : Nat

/-- The default configuration. -/
def OllamaConfig.default : OllamaConfig :=
  ⟨"http://localhost:11434", "nes-tab:latest", "280ms", 2, 50, 500, 1024⟩

/-- Exponential backoff in milliseconds: the product saturates at `u64::MAX`,
and the result is capped. -/
def computeBackoffMs (attempt base cap : Nat) : Nat :=
  min (min (base * 2 ^ min attempt 30) (2 ^ 64 - 1)) cap

namespace OllamaClient

variable (http : Http ε) (config : OllamaConfig)

/-- One unprotected attempt. -/
def tryCompleteOnce (req : NesRequest) (env : ε) : Except String (List Completion) × ε :=
  let body : GenerateRequest :=
    ⟨config.model, buildGeneratePrompt req.pre req.suffix req.language, false⟩
  match http.postGenerate s!"{config.endpoint}/api/generate" body env with
  | (.ok response, env) => (.ok [⟨Str.trim response, 8 / 10⟩], env)
  | (.error (.elapsed _), env) =>
      (.error s!"ollama request timeout after {config.timeout}", env)
  | (.error (.send e), env) => (.error s!"ollama http error: {e}", env)
  | (.error (.status e), env) => (.error e, env)
  | (.error (.body e), env) => (.error e, env)

/-- Attempt number `attempt`, with `remaining` retries after it. -/
def retry (req : NesRequest) : Nat → Nat → ε → Except String (List Completion) × ε
  | 0, _, env => tryCompleteOnce http config req env
  | remaining + 1, attempt, env =>
      match tryCompleteOnce http config req env with
      | (.ok c, env) => (.ok c, env)
      | (.error _, env) =>
          let backoff := computeBackoffMs attempt config.backoffBaseMs config.backoffMaxMs
          retry req remaining (attempt + 1) (http.sleep backoff env)

variable {http config} {req : NesRequest} {env : ε}

theorem tryCompleteOnce_ne_nil {cands : List Completion}
    (h : (tryCompleteOnce http config req env).1 = .ok cands) : cands ≠ [] := by
  simp only [tryCompleteOnce] at h
  split at h
  · cases h
    exact List.cons_ne_nil _ _
  all_goals cases h

/-- The model answers with one candidate, at whichever attempt. -/
theorem retry_ne_nil {remaining attempt : Nat} {cands : List Completion}
    (h : (retry http config req remaining attempt env).1 = .ok cands) : cands ≠ [] := by
  induction remaining generalizing attempt env with
  | zero => exact tryCompleteOnce_ne_nil h
  | succ remaining ih =>
      rw [retry] at h
      rcases hattempt : tryCompleteOnce http config req env with ⟨err | first, env'⟩ <;>
        rw [hattempt] at h
      · exact ih h
      · exact tryCompleteOnce_ne_nil ((congrArg Prod.fst hattempt).trans h)

variable {down : Set ε}

theorem tryCompleteOnce_outage (hdown : http.Outage down) (henv : env ∈ down) :
    ∃ e env', tryCompleteOnce http config req env = (.error e, env') ∧ env' ∈ down := by
  rw [tryCompleteOnce]
  generalize s!"{config.endpoint}/api/generate" = url
  generalize (⟨config.model, buildGeneratePrompt req.pre req.suffix req.language, false⟩ :
    GenerateRequest) = body
  obtain ⟨e, he⟩ := hdown.fails henv url body
  have hstays := hdown.generate henv url body
  rcases hpost : http.postGenerate url body env with ⟨r, env'⟩
  rw [hpost] at he hstays
  obtain rfl : r = .error e := he
  rcases e with e | e | e | e <;> exact ⟨_, env', rfl, hstays⟩

/-- In an outage every attempt fails. -/
theorem retry_outage (hdown : http.Outage down) (henv : env ∈ down) (remaining attempt : Nat) :
    ∃ e, (retry http config req remaining attempt env).1 = .error e := by
  induction remaining generalizing attempt env with
  | zero =>
      obtain ⟨e, env', hattempt, -⟩ := tryCompleteOnce_outage hdown henv
      exact ⟨e, congrArg Prod.fst hattempt⟩
  | succ remaining ih =>
      obtain ⟨e, env', hattempt, henv'⟩ := tryCompleteOnce_outage hdown henv
      rw [retry, hattempt]
      exact ih (hdown.sleep henv' _) _

end OllamaClient

/-- Complete, with retries after failed attempts. -/
def OllamaClient (http : Http ε) (config : OllamaConfig) : CompletionBackend ε where
  onComplete req env := OllamaClient.retry http config req config.maxRetries 0 env

/-! ### The cache -/

/-- Completions by prefix and language. -/
abbrev CompletionCache : Type := Cache (String × String) (List Completion)

/-- What a completion is kept under. -/
def NesRequest.key (req : NesRequest) : String × String := (req.pre, req.language)

/-- Serve from the cache, and keep what the inner backend answers. -/
def CachedCompletionBackend (inner : CompletionBackend ε) :
    CompletionBackend (ε × CompletionCache) where
  onComplete req s :=
    match s.2.get req.key with
    | some hit => (.ok hit, s)
    | none =>
        match inner.onComplete req s.1 with
        | (.ok res, env) => (.ok res, (env, s.2.insert req.key res))
        | (.error e, env) => (.error e, (env, s.2))

/-- Try the primary backend, and the fallback after an error. -/
def DegradingBackend (primary fallback : CompletionBackend ε) : CompletionBackend ε where
  onComplete req env :=
    match primary.onComplete req env with
    | (.ok c, env) => (.ok c, env)
    | (.error _, env) => fallback.onComplete req env

/-! ### The production client -/

/-- The productionized client: the cache, then the real client, then the
fallback. -/
def NesClient (real fallback : CompletionBackend ε) : CompletionBackend (ε × CompletionCache) where
  onComplete req s :=
    match s.2.get req.key with
    | some hit => (.ok hit, s)
    | none =>
        match real.onComplete req s.1 with
        | (.ok cands, env) => (.ok cands, (env, s.2.insert req.key cands))
        -- only what the real client answers is kept
        | (.error _, env) =>
            let (r, env) := fallback.onComplete req env
            (r, (env, s.2))

/-- The client of a configuration. -/
def NesClient.fromConfig (http : Http ε) (config : OllamaConfig) :
    CompletionBackend (ε × CompletionCache) :=
  NesClient (OllamaClient http config) RuleBasedBackend

namespace NesClient

variable {real fallback : CompletionBackend ε}

/-- What holds of all the real client answers, holds of the cache. -/
theorem all_onComplete {P : List Completion → Prop}
    (hreal : ∀ req env cands, (real.onComplete req env).1 = .ok cands → P cands)
    (req : NesRequest) {s : ε × CompletionCache} (hs : s.2.All fun _ => P) :
    (((NesClient real fallback).onComplete req s).2.2).All fun _ => P := by
  rcases hget : s.2.get req.key with - | hit
  · rcases hcomplete : real.onComplete req s.1 with ⟨e | cands, env⟩
    · simpa [NesClient, hget, hcomplete] using hs
    · have hcands := hreal req s.1 cands (congrArg Prod.fst hcomplete)
      simpa [NesClient, hget, hcomplete] using hs.insert hcands
  · simpa [NesClient, hget] using hs

/-- A call is answered by the cache, or else by the real client, or else by
the fallback. -/
theorem onComplete_fst (req : NesRequest) (s : ε × CompletionCache) :
    ((NesClient real fallback).onComplete req s).1 =
      match s.2.get req.key with
      | some hit => .ok hit
      | none =>
          match (real.onComplete req s.1).1 with
          | .ok cands => .ok cands
          | .error _ => (fallback.onComplete req (real.onComplete req s.1).2).1 := by
  rcases hget : s.2.get req.key with - | hit
  · rcases hcomplete : real.onComplete req s.1 with ⟨e | cands, env⟩ <;>
      simp [NesClient, hget, hcomplete]
  · simp [NesClient, hget]

end NesClient

end AgenticIde
