/-
AgenticIde/NesBackends.lean

The completion backends a server is wired with, and what becomes of a completion while the
model endpoint is down.

The client of the local model keeps a cache and degrades to the rules; the OpenAI-compatible
one (`openai.rs`) leaves that to whoever wires it, and `defaultNesBackend`
(`default_nes_backend` in `agent.rs`) wires it bare.

The local endpoint is down if every generation fails, and no post and no waiting brings it back
(`Http.Outage`); of the other it is enough that it fails on the request at hand.  The local
client then comes to its fallback, or to what its cache has, and a caller with the right gets
suggestions; the bare client passes the error on, and the caller gets that.

The cache of a server has no empty entry, since what it is filled with never is one
(`NesCache`); so a hit has suggestions as well.
-/
import AgenticIde.Ollama
import AgenticIde.Server

namespace AgenticIde

variable {ε : Type}

/-! ### The OpenAI-compatible client -/

/-- Configuration of the client; the time limit is the network's. -/
structure OpenAiConfig where
  baseUrl : String
  apiKey : String
  model : String

/-- What the model is told to do. -/
def completionInstruction : String :=
  "You are a code completion engine. Given a code prefix, suffix, " ++
    "and language, output ONLY the code that fills the gap between them. Do not repeat " ++
    "the prefix or suffix. No explanation, no markdown fences."

/-- The full address of a request. -/
def OpenAiConfig.completionsUrl (config : OpenAiConfig) : String :=
  let base := Str.trimEndMatches '/' config.baseUrl
  s!"{base}/chat/completions"

/-- The key of a request; a local gateway needs none. -/
def OpenAiConfig.bearer (config : OpenAiConfig) : Option String :=
  (some (Str.trim config.apiKey)).filter (· ≠ "")

/-- The body of a request: the instruction, and the prompt every backend
builds. -/
def OpenAiConfig.body (config : OpenAiConfig) (req : NesRequest) : CompletionRequest where
  model := config.model
  messages := [⟨"system", completionInstruction⟩,
    ⟨"user", buildGeneratePrompt req.pre req.suffix req.language⟩]
  stream := false
  temperature := 1 / 10

/-- What a request gets from the endpoint. -/
def OpenAiConfig.post (config : OpenAiConfig) (http : Http ε) (req : NesRequest) (env : ε) :
    Except HttpError (List String) × ε :=
  http.postChat config.completionsUrl config.bearer (config.body req) env

/-- The text of the first choice, if it is not blank. -/
def firstChoice (choices : List String) : Option String :=
  (choices.head?.map Str.trim).filter (· ≠ "")

/-- One request, with no retry: a failure is left to the layer above. -/
def OpenAiCompletionBackend (http : Http ε) (config : OpenAiConfig) : CompletionBackend ε where
  onComplete req env :=
    match config.post http req env with
    | (.ok choices, env) =>
        match firstChoice choices with
        | some text => (.ok [⟨text, 8 / 10⟩], env)
        | none => (.error "openai returned no completion choice", env)
    | (.error (.elapsed e), env) => (.error s!"openai request failed: {e}", env)
    | (.error (.send e), env) => (.error s!"openai request failed: {e}", env)
    | (.error (.status e), env) => (.error s!"openai http error: {e}", env)
    | (.error (.body e), env) => (.error s!"invalid openai response: {e}", env)

/-! ### The cache of a server -/

/-- A completion cache without an empty entry. -/
structure NesCache where
  cache : CompletionCache
  nonempty : cache.All fun _ cands => cands ≠ []

/-- The production client over such a cache: its model answers with one
candidate, so no empty entry comes in. -/
def NesCache.client (http : Http ε) (config : OllamaConfig) :
    CompletionBackend (ε × NesCache) where
  onComplete req s :=
    let o := (NesClient.fromConfig http config).onComplete req (s.1, s.2.cache)
    have hnonempty : o.2.2.All fun _ cands => cands ≠ [] :=
      NesClient.all_onComplete (fun _ _ _ h => OllamaClient.retry_ne_nil h) req s.2.nonempty
    (o.1, (o.2.1, ⟨o.2.2, hnonempty⟩))

/-- A backend that keeps nothing, next to a cache. -/
def CompletionBackend.uncached {γ : Type} (backend : CompletionBackend ε) :
    CompletionBackend (ε × γ) where
  onComplete req s := ((backend.onComplete req s.1).1, ((backend.onComplete req s.1).2, s.2))

/-! ### The wiring -/

/-- Which completion backend a server uses; the third is a server of its own
on the same machine. -/
inductive NesBackend
  | mock
  | ollama
  | openAi
  | localServer
  deriving DecidableEq

theorem NesBackend.openAi_or_localServer_iff (b : NesBackend) :
    b = .openAi ∨ b = .localServer ↔ ¬ (b = .ollama ∨ b = .mock) := by
  cases b <;> simp

/-- What of `CoreConfig` decides the backends. -/
structure BackendConfig where
  nesBackend : NesBackend
  modelEndpoint : String
  modelName : String
  llmBaseUrl : String
  llmApiKey : String
  llmModel : String

/-- The configuration of the OpenAI-compatible client in it. -/
def BackendConfig.openAi (config : BackendConfig) : OpenAiConfig :=
  ⟨config.llmBaseUrl, config.llmApiKey, config.llmModel⟩

/-- The completion backend of a configuration.  Only the first is wrapped in
something that degrades. -/
def defaultNesBackend (http : Http ε) (config : BackendConfig) : CompletionBackend (ε × NesCache) :=
  match config.nesBackend with
  | .ollama =>
      NesCache.client http
        { OllamaConfig.default with endpoint := config.modelEndpoint, model := config.modelName }
  | .openAi => (OpenAiCompletionBackend http config.openAi).uncached
  | .localServer => (OpenAiCompletionBackend http config.openAi).uncached
  | .mock => MockOllamaClient

/-! ### A failing endpoint -/

/-- The OpenAI-compatible client passes the failure of its request on. -/
theorem OpenAiCompletionBackend.onComplete_of_fails {http : Http ε} {config : OpenAiConfig}
    {req : NesRequest} {env : ε} (hfails : ∃ e, (config.post http req env).1 = .error e) :
    ∃ e, ((OpenAiCompletionBackend http config).onComplete req env).1 = .error e := by
  obtain ⟨e, he⟩ := hfails
  simp only [OpenAiCompletionBackend]
  rcases hpost : config.post http req env with ⟨r, env'⟩
  rw [hpost] at he
  obtain rfl : r = .error e := he
  -- each kind of failure has its own text
  rcases e with e | e | e | e <;> exact ⟨_, rfl⟩

namespace NesCache

variable {http : Http ε} {config : OllamaConfig} {req : NesRequest} {s : ε × NesCache}

theorem client_fst :
    ((client http config).onComplete req s).1 =
      match s.2.cache.get req.key with
      | some hit => .ok hit
      | none =>
          match ((OllamaClient http config).onComplete req s.1).1 with
          | .ok cands => .ok cands
          | .error _ => .ok (deriveRuleCandidates req.pre req.suffix req.language) :=
  NesClient.onComplete_fst req (s.1, s.2.cache)

/-- The production client has candidates, whatever its endpoint does. -/
theorem client_ne_nil :
    ∃ cands, ((client http config).onComplete req s).1 = .ok cands ∧ cands ≠ [] := by
  rw [client_fst]
  rcases hget : s.2.cache.get req.key with - | hit
  · rcases hreal : ((OllamaClient http config).onComplete req s.1).1 with e | cands
    · exact ⟨_, rfl, List.cons_ne_nil _ _⟩
    · exact ⟨cands, rfl, OllamaClient.retry_ne_nil hreal⟩
  · exact ⟨hit, rfl, s.2.nonempty _ _ hget⟩

/-- While the endpoint stays down, they are those of the cache or the rules. -/
theorem client_outage {down : Set ε} (hdown : http.Outage down) (hs : s.1 ∈ down) :
    ((client http config).onComplete req s).1 = .ok ((s.2.cache.get req.key).getD
      (deriveRuleCandidates req.pre req.suffix req.language)) := by
  obtain ⟨e, he⟩ : ∃ e, ((OllamaClient http config).onComplete req s.1).1 = .error e :=
    OllamaClient.retry_outage hdown hs _ _
  rw [client_fst, he]
  rcases s.2.cache.get req.key with - | hit <;> rfl

end NesCache

variable {http : Http ε} {config : BackendConfig} {req : NesRequest} {s : ε × NesCache}

/-- Two of the wirings have candidates, whatever the endpoint does. -/
theorem defaultNesBackend_ne_nil (h : config.nesBackend = .ollama ∨ config.nesBackend = .mock) :
    ∃ cands, ((defaultNesBackend http config).onComplete req s).1 = .ok cands ∧ cands ≠ [] := by
  rw [defaultNesBackend]
  rcases h with h | h <;> rw [h]
  · exact NesCache.client_ne_nil
  · exact ⟨_, rfl, List.cons_ne_nil _ _⟩

/-- The other two fail with it. -/
theorem defaultNesBackend_of_fails
    (hfails : ∃ e, (config.openAi.post http req s.1).1 = .error e)
    (h : config.nesBackend = .openAi ∨ config.nesBackend = .localServer) :
    ∃ e, ((defaultNesBackend http config).onComplete req s).1 = .error e := by
  rw [defaultNesBackend]
  rcases h with h | h <;> rw [h]
  · exact OpenAiCompletionBackend.onComplete_of_fails hfails
  · exact OpenAiCompletionBackend.onComplete_of_fails hfails

namespace AgentServer

/-- **Degradation.**  For a caller who may generate, and when the chat endpoint
fails on the caller's own request, a server wired by `defaultNesBackend` streams
suggestions exactly if the backend is the production client or the mock, and
answers with an internal error if it is one of the other two.  If the endpoint of
the production client stays down, it streams what its cache or the rules have. -/
theorem nesComplete_degrades_iff (http : Http ε) (config : BackendConfig)
    (server : AgentServer (ε × NesCache)) (authorization : Option String) (req : NesRequest)
    (principal : Principal) (w : World (ε × NesCache))
    (hauth : server.authenticator.authenticate (extractBearer authorization)
      (w.clock w.ticks / 1000) = .ok principal)
    (hholds : principal.holds .generate = true)
    (hfails : ∃ e, (config.openAi.post http req w.env.1).1 = .error e) :
    let server := { server with nesBackend := defaultNesBackend http config }
    let reply := (server.serve ⟨authorization, .nesComplete req⟩ w).result
    ((∃ ranked, reply = .ok (.suggestions ranked) ∧ ranked ≠ []) ↔
        config.nesBackend = .ollama ∨ config.nesBackend = .mock) ∧
      ((∃ message, reply = .error ⟨.internal, message⟩) ↔
        config.nesBackend = .openAi ∨ config.nesBackend = .localServer) ∧
      (config.nesBackend = .ollama → ∀ down, http.Outage down → w.env.1 ∈ down →
        reply = .ok (.suggestions (rankCompletions ((w.env.2.cache.get req.key).getD
          (deriveRuleCandidates req.pre req.suffix req.language)) 5))) := by
  intro server reply
  have hreply : reply = match ((defaultNesBackend http config).onComplete req w.env).1 with
      | .ok candidates => .ok (.suggestions (rankCompletions candidates 5))
      | .error e => .error ⟨.internal, e⟩ :=
    serve_nesComplete_result req hauth hholds
  rw [NesBackend.openAi_or_localServer_iff]
  by_cases hkind : config.nesBackend = .ollama ∨ config.nesBackend = .mock
  · obtain ⟨cands, hok, hne⟩ := @defaultNesBackend_ne_nil _ http config req w.env hkind
    rw [hok] at hreply
    refine ⟨iff_of_true ⟨_, hreply, rankCompletions_ne_nil hne 5⟩ hkind,
      iff_of_false ?_ (not_not_intro hkind), fun hollama down hdown hw => ?_⟩
    · rintro ⟨message, hmessage⟩
      simp [hreply] at hmessage
    · -- the client has nothing but its cache and the rules
      have hclient := @NesCache.client_outage _ http
        { OllamaConfig.default with endpoint := config.modelEndpoint, model := config.modelName }
        req w.env down hdown hw
      rw [defaultNesBackend, hollama] at hok
      rw [hreply, Except.ok.inj (hok.symm.trans hclient)]
  · obtain ⟨e, he⟩ := @defaultNesBackend_of_fails _ http config req w.env hfails
      ((NesBackend.openAi_or_localServer_iff _).mpr hkind)
    rw [he] at hreply
    refine ⟨iff_of_false ?_ hkind, iff_of_true ⟨e, hreply⟩ hkind,
      fun hollama => absurd (.inl hollama) hkind⟩
    rintro ⟨ranked, hranked, -⟩
    simp [hreply] at hranked

/-- A network that nothing comes through. -/
def noNetwork : Http Unit where
  postGenerate _ _ env := (.error (.send "connection refused"), env)
  postChat _ _ _ env := (.error (.send "connection refused"), env)
  sleep _ env := env

/-- The backends of the bundled stack. -/
def bundled (backend : NesBackend) : BackendConfig where
  nesBackend := backend
  modelEndpoint := "http://localhost:11434"
  modelName := "nes-tab:latest"
  llmBaseUrl := "http://127.0.0.1:8080/v1"
  llmApiKey := ""
  llmModel := "nes-tab"

/-- A server of one user who may do everything, without a network. -/
def offlineServer (backend : NesBackend) : AgentServer (Unit × NesCache) :=
  fromConfig ⟨fun _ _ => [], fun _ => "", fun _ => .error "", fun _ => .error ""⟩
    ⟨fun _ => (.ok (), ·), fun _ => id⟩ ⟨fun _ => (.error "down", ·), fun _ => (.error "down", ·)⟩
    (defaultNesBackend noNetwork (bundled backend)) ⟨fun _ => (.ok (), ·)⟩
    ⟨"t", "u", 63, false, "", "", "", 8⟩

/-- The world before it served anything. -/
def offlineWorld : World (Unit × NesCache) := .initial ((), ⟨.new 1024, Cache.all_new _ _⟩)

theorem nesComplete_degrades_iff_ollama :
    ∃ ranked, ((offlineServer .ollama).serve
      ⟨none, .nesComplete ⟨"fn main(", "", "rust"⟩⟩ offlineWorld).result =
        .ok (.suggestions ranked) ∧ ranked ≠ [] :=
  (nesComplete_degrades_iff noNetwork (bundled .ollama) (offlineServer .ollama) none
    ⟨"fn main(", "", "rust"⟩ (.fromMask "t" "u" 63) offlineWorld rfl (by decide)
    ⟨_, rfl⟩).1.mpr (.inl rfl)

/-- With the bundled model server it answers with an error. -/
theorem offlineServer_fails :
    ¬ ∃ ranked, ((offlineServer .localServer).serve
      ⟨none, .nesComplete ⟨"fn main(", "", "rust"⟩⟩ offlineWorld).result =
        .ok (.suggestions ranked) ∧ ranked ≠ [] := by
  have hresult : ((offlineServer .localServer).serve
      ⟨none, .nesComplete ⟨"fn main(", "", "rust"⟩⟩ offlineWorld).result =
        .error ⟨.internal, "openai request failed: connection refused"⟩ :=
    @serve_nesComplete_result _ (offlineServer .localServer) none (.fromMask "t" "u" 63)
      offlineWorld ⟨"fn main(", "", "rust"⟩ rfl (by decide)
  rintro ⟨ranked, hranked, -⟩
  rw [hresult] at hranked
  cases hranked

end AgentServer

end AgenticIde
