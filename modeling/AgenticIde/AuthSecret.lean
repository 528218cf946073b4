/-
AgenticIde/AuthSecret.lean

Single sign-on without a secret.

An empty issuer or client turns its check off, and so does an empty secret,
though nothing says it should: HMAC takes a key of any length, so whoever
signs with the empty key is whoever they claim to be.  No step between the
environment and the authenticator asks whether there is a secret
(`CoreConfig.fromMap`, `AgentServer.fromConfig`): the server authenticates
requests that nobody with its secret has signed, for every such configuration.
-/
import AgenticIde.AuthTokens
import AgenticIde.Config

namespace AgenticIde

variable {ε : Type}

namespace AgentServer

/-- The server authenticates no request, whatever it carries and whenever it
comes. -/
def AuthenticatesNone (server : AgentServer ε) : Prop :=
  ∀ (authorization : Option String) (w : World ε), ∃ status,
    (server.principalFromRequest authorization w).result = .error status ∧
      status.code = .unauthenticated

/-- The claims of whoever one likes to be, pinned as the configuration asks. -/
def forgedClaims (config : CoreConfig) (tenantId userId : String) (permMask : UInt32) : HsClaims :=
  ⟨tenantId, userId, permMask, none, some config.ssoIssuer, some config.ssoClientId⟩

/-- A token that was minted with the secret of the server is accepted, with
the identity it claims. -/
theorem principalFromRequest_mint {crypto : HsCrypto} {toVec : HsClaims → List UInt8}
    {config : CoreConfig} (hsso : config.ssoEnabled = true) {tenantId userId : String}
    {permMask : UInt32}
    (hreads : crypto.Reads toVec (forgedClaims config tenantId userId permMask))
    (bridge : HostBridge ε) (llm : Llm ε) (nesBackend : CompletionBackend ε)
    (auditSink : AuditSink ε) (w : World ε) :
    let token := Hs256Authenticator.mintHs256Token crypto toVec config.ssoSecret
      (forgedClaims config tenantId userId permMask)
    ((fromConfig crypto bridge llm nesBackend auditSink config).principalFromRequest
      (some s!"Bearer {token}") w).result = .ok (.fromMask tenantId userId permMask) := by
  intro token
  have hne : token ≠ "" := by
    -- The token has its dots, so it is not empty.
    intro hempty
    have hdots : '.' ∈ token.toList := by
      show '.' ∈ (_ ++ "." ++ _ ++ "." ++ _ : String).toList
      simp [String.toList_append]
    rw [hempty] at hdots
    exact absurd hdots (by decide)
  have hbearer : extractBearer (some s!"Bearer {token}") = some token :=
    extractBearer_bearer (hreads.not_isWhitespace_mint config.ssoSecret) hne
  have hauth : ∀ now, (fromConfig crypto bridge llm nesBackend auditSink
      config).authenticator.authenticate (some token) now =
        .ok (.fromMask tenantId userId permMask) := by
    -- The claims name the pins of the configuration, and never expire: each check passes.
    intro now
    simp only [fromConfig, hsso, if_true]
    exact Hs256Authenticator.authenticate_mint hreads (fun exp h => (by cases h)) (fun _ => rfl)
      fun _ => rfl
  simp only [principalFromRequest, Core.now, Act.bind_apply, Act.modifyGet_apply,
    Outcome.andThen_mk_ok, hbearer, hauth]
  rfl

theorem not_authenticatesNone {server : AgentServer ε} {authorization : Option String}
    {w : World ε} {principal : Principal}
    (h : (server.principalFromRequest authorization w).result = .ok principal) :
    ¬ server.AuthenticatesNone := by
  intro hnone
  obtain ⟨status, herror, -⟩ := hnone authorization w
  rw [h] at herror
  cases herror

/-- **Without a secret everyone is authenticated**: a server whose
configuration turns single sign-on on and leaves the secret empty accepts, at
any time, a token signed with the empty key for any tenant, user and mask,
whatever issuer and client it pins. -/
theorem accepts_token_of_empty_secret (crypto : HsCrypto) (toVec : HsClaims → List UInt8)
    (config : CoreConfig) (hsso : config.ssoEnabled = true) (hsecret : config.ssoSecret = "")
    (tenantId userId : String) (permMask : UInt32)
    (hreads : crypto.Reads toVec (forgedClaims config tenantId userId permMask))
    (bridge : HostBridge ε) (llm : Llm ε) (nesBackend : CompletionBackend ε)
    (auditSink : AuditSink ε) (w : World ε) :
    let server := fromConfig crypto bridge llm nesBackend auditSink config
    let token := Hs256Authenticator.mintHs256Token crypto toVec ""
      (forgedClaims config tenantId userId permMask)
    (server.principalFromRequest (some s!"Bearer {token}") w).result =
        .ok (.fromMask tenantId userId permMask) ∧
      ¬ server.AuthenticatesNone := by
  intro server token
  have haccepted : (server.principalFromRequest (some s!"Bearer {token}") w).result =
      .ok (.fromMask tenantId userId permMask) := by
    -- The key of the forger is the secret of the server; nothing else is asked of the
    -- secret.
    have hmint := principalFromRequest_mint hsso hreads bridge llm nesBackend auditSink w
    rw [hsecret] at hmint
    exact hmint
  exact ⟨haccepted, not_authenticatesNone haccepted⟩

/-- Single sign-on for one issuer and one client, and no secret. -/
def secretless : CoreConfig :=
  .fromMap fun key =>
    match key with
    | "SSO_ENABLED" => some "true"
    | "SSO_ISSUER" => some "aidea"
    | "SSO_CLIENT_ID" => some "cli"
    | _ => none

/-- The claims of an attacker, as JSON. -/
def malloryJson : List UInt8 :=
  utf8 ("\x7b\"tenant_id\":\"acme\",\"user_id\":\"mallory\",\"perm_mask\":63," ++
    "\"exp\":null,\"iss\":\"aidea\",\"aud\":\"cli\"\x7d")

/-- The crates on the attacker's token: the MAC of its header and payload under
the empty key, and its claims. -/
def malloryCrypto : HsCrypto where
  hmacSha256 key _ :=
    if key = [] then
      [103, 105, 242, 72, 176, 248, 239, 45, 51, 53, 224, 156, 100, 176, 231, 95, 85, 194, 188,
        118, 101, 115, 56, 70, 85, 89, 31, 74, 80, 165, 13, 253]
    else []
  encode := Base64.encode
  decode s :=
    match Base64.decode s with
    | some bs => .ok bs
    | none => .error "Invalid symbol"
  parseClaims bs :=
    if bs = malloryJson then .ok (forgedClaims secretless "acme" "mallory" 63)
    else .error "expected value"

theorem reads_malloryCrypto :
    malloryCrypto.Reads (fun _ => malloryJson)
      (forgedClaims secretless "acme" "mallory" 63) where
  decode_encode bs := by simp [malloryCrypto, Base64.decode_encode]
  urlSafe _ _ := Base64.mem_encode
  parse_toVec := by simp [malloryCrypto]

/-- An attacker is whoever they claim to be. -/
theorem accepts_mallory :
    let server := fromConfig malloryCrypto ⟨fun _ env => (.ok (), env), fun _ env => env⟩
      ⟨fun _ env => (.error "", env), fun _ env => (.error "", env)⟩
      ⟨fun _ env => (.error "", env)⟩ ⟨fun _ env => (.ok (), env)⟩ secretless
    let token := Hs256Authenticator.mintHs256Token malloryCrypto (fun _ => malloryJson) ""
      (forgedClaims secretless "acme" "mallory" 63)
    (server.principalFromRequest (some s!"Bearer {token}") (World.initial ())).result =
        .ok (.fromMask "acme" "mallory" 63) ∧
      ¬ server.AuthenticatesNone :=
  accepts_token_of_empty_secret malloryCrypto (fun _ => malloryJson) secretless rfl rfl "acme"
    "mallory" 63 reads_malloryCrypto _ _ _ _ (World.initial ())

/-- A server without a secret does authenticate. -/
theorem not_authenticatesNone_secretless :
    ¬ (fromConfig malloryCrypto ⟨fun _ env => (.ok (), env), fun _ env => env⟩
      ⟨fun _ env => (.error "", env), fun _ env => (.error "", env)⟩
      ⟨fun _ env => (.error "", env)⟩ ⟨fun _ env => (.ok (), env)⟩
      secretless : AgentServer Unit).AuthenticatesNone :=
  not_authenticatesNone (principalFromRequest_mint rfl reads_malloryCrypto _ _ _ _
    (World.initial ()))

end AgentServer

end AgenticIde
