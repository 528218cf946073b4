/-
AgenticIde/AuthTokens.lean

Which bearer tokens `Hs256Authenticator` accepts.

A token is accepted exactly when it has three segments, the third is the signature of the
first two, the second decodes to claims that have not expired, and the pins agree with the
claims (`authenticate_iff`).  The algorithm that the header names is not among the
conditions.  A token that was minted with the secret of the verifier meets them all, so it
brings the identity it was minted for.

`Segments` is a token that is cut: three texts without a dot, by a field each, so that
cutting the text of one brings it back (`splitDots_text`).  `Accepts` names what the
authenticator asks of it, one field for each check of the source, and the theorems go
through the checks in the order of the code: `verifyHs256_eq_ok_iff` for those of the
verifier, `authenticate_eq_ok_iff` for the pins behind it.

The mask of the claims is not checked: bits that stand for no right are dropped when the
principal is made.
-/
import AgenticIde.Auth

namespace AgenticIde

/-! ### Comparing -/

theorem foldl_or_eq_zero_iff (xys : List (UInt8 × UInt8)) (diff : UInt8) :
    xys.foldl (fun diff xy => diff ||| (xy.1 ^^^ xy.2)) diff = 0 ↔
      diff = 0 ∧ ∀ xy ∈ xys, xy.1 = xy.2 := by
  induction xys generalizing diff with
  | nil => simp
  | cons xy xys ih =>
      rw [List.foldl_cons, ih, UInt8.or_eq_zero_iff, UInt8.xor_eq_zero_iff, List.forall_mem_cons,
        and_assoc]

/-- Lists of one length that differ nowhere are the same. -/
theorem eq_of_forall_mem_zip {α : Type*} {xs ys : List α} (hlength : xs.length = ys.length)
    (h : ∀ xy ∈ xs.zip ys, xy.1 = xy.2) : xs = ys := by
  induction xs generalizing ys with
  | nil => exact (List.length_eq_zero_iff.mp hlength.symm).symm
  | cons x xs ih =>
      cases ys with
      | nil => cases hlength
      | cons y ys =>
          rw [List.zip_cons_cons, List.forall_mem_cons] at h
          obtain ⟨hxy, hrest⟩ := h
          rw [show x = y from hxy, ih (Nat.succ.inj hlength) hrest]

/-- The comparison in constant time is a comparison. -/
theorem constantTimeEq_iff (a b : List UInt8) : constantTimeEq a b = true ↔ a = b := by
  constructor
  · intro h
    rw [constantTimeEq, Bool.and_eq_true, beq_iff_eq, beq_iff_eq, foldl_or_eq_zero_iff] at h
    exact eq_of_forall_mem_zip h.1 h.2.2
  · rintro rfl
    exact constantTimeEq_self a

/-! ### Segments -/

/-- There is always a part. -/
theorem splitDots_ne_nil (cs : List Char) : splitDots cs ≠ [] := by
  cases cs with
  | nil => exact List.cons_ne_nil _ _
  | cons c cs =>
      rw [splitDots]
      split
      · exact List.cons_ne_nil _ _
      · split <;> exact List.cons_ne_nil _ _

/-- The first part ends at the first dot, or is everything. -/
theorem splitDots_cases {cs part : List Char} {parts : List (List Char)}
    (h : splitDots cs = part :: parts) :
    '.' ∉ part ∧ (cs = part ∧ parts = [] ∨
      ∃ rest, cs = part ++ '.' :: rest ∧ splitDots rest = parts) := by
  -- By induction on the characters, with the first part left open, as it grows by each of
  -- them.
  induction cs generalizing part with
  | nil =>
      obtain ⟨rfl, rfl⟩ := List.cons.inj h
      exact ⟨List.not_mem_nil, .inl ⟨rfl, rfl⟩⟩
  | cons c cs ih =>
      rw [splitDots] at h
      by_cases hc : c = '.'
      · rw [if_pos hc] at h
        obtain ⟨rfl, rfl⟩ := List.cons.inj h
        exact ⟨List.not_mem_nil, .inr ⟨cs, by rw [hc, List.nil_append], rfl⟩⟩
      · rw [if_neg hc] at h
        cases hsplit : splitDots cs with
        | nil => exact absurd hsplit (splitDots_ne_nil cs)
        | cons part' parts' =>
            rw [hsplit] at h
            obtain ⟨rfl, rfl⟩ := List.cons.inj h
            obtain ⟨hdot, hrest⟩ := ih hsplit
            refine ⟨List.not_mem_cons_of_ne_of_not_mem (Ne.symm hc) hdot, ?_⟩
            rcases hrest with ⟨rfl, hparts⟩ | ⟨rest, rfl, hrest⟩
            · exact .inl ⟨rfl, hparts⟩
            · exact .inr ⟨rest, rfl, hrest⟩

/-- The three segments of a token. -/
structure Segments where
  header : String
  payload : String
  signature : String
  header_dot : '.' ∉ header.toList
  payload_dot : '.' ∉ payload.toList
  signature_dot : '.' ∉ signature.toList

namespace Segments

/-- The token of three segments. -/
def text (t : Segments) : String := s!"{t.header}.{t.payload}.{t.signature}"

theorem splitDots_text (t : Segments) :
    (splitDots t.text.toList).map String.ofList = [t.header, t.payload, t.signature] :=
  splitDots_token t.header_dot t.payload_dot t.signature_dot

/-- A text that splits in three is the token of its segments. -/
theorem exists_of_splitDots {token header payload signature : String}
    (h : (splitDots token.toList).map String.ofList = [header, payload, signature]) :
    ∃ t : Segments, t.text = token ∧
      t.header = header ∧ t.payload = payload ∧ t.signature = signature := by
  obtain ⟨a, l, ha, rfl, hl⟩ := List.map_eq_cons_iff.mp h
  obtain ⟨b, l', hb, rfl, hl'⟩ := List.map_eq_cons_iff.mp hl
  obtain ⟨c, l'', hc, rfl, hl''⟩ := List.map_eq_cons_iff.mp hl'
  obtain rfl := List.map_eq_nil_iff.mp hl''
  subst hb hc
  -- The text is cut at its first two dots, and there is no third.
  obtain ⟨hadot, ⟨-, hnil⟩ | ⟨rest, htoken, hrest⟩⟩ := splitDots_cases ha
  · cases hnil
  obtain ⟨hbdot, ⟨-, hnil⟩ | ⟨rest', rfl, hrest'⟩⟩ := splitDots_cases hrest
  · cases hnil
  obtain ⟨hcdot, ⟨rfl, -⟩ | ⟨rest'', -, hrest''⟩⟩ := splitDots_cases hrest'
  · refine ⟨⟨String.ofList a, String.ofList b, String.ofList rest', ?_, ?_, ?_⟩, ?_, rfl, rfl, rfl⟩
    · rwa [String.toList_ofList]
    · rwa [String.toList_ofList]
    · rwa [String.toList_ofList]
    · rw [← String.toList_inj, htoken]
      show (String.ofList a ++ "." ++ String.ofList b ++ "." ++ String.ofList rest').toList = _
      simp [String.toList_append]
  · exact absurd hrest'' (splitDots_ne_nil rest'')

end Segments

/-! ### Verifying -/

namespace Hs256Authenticator

/-- What an authenticator asks of a token and its claims at a time.  The pins are
asked only where they are configured; a token without an expiry never expires. -/
structure Accepts (crypto : HsCrypto) (verifier : Hs256Authenticator) (now : Int) (t : Segments)
    (claims : HsClaims) : Prop where
  signature : t.signature = signHs256 crypto s!"{t.header}.{t.payload}" verifier.secret
  payload : ∃ bytes, crypto.decode t.payload = .ok bytes ∧ crypto.parseClaims bytes = .ok claims
  exp : ∀ exp ∈ claims.exp, now ≤ exp
  issuer : verifier.issuer ≠ "" → claims.iss = some verifier.issuer
  client : verifier.clientId ≠ "" → claims.aud = some verifier.clientId

variable {crypto : HsCrypto} {self : Hs256Authenticator} {now : Int} {claims : HsClaims}

/-- The expiry check passes exactly on claims that have not expired, and passes
them on. -/
theorem checkExp_eq_ok_iff (claims claims' : HsClaims) (now : Int) :
    (match claims.exp with
      | some exp =>
          if exp < now then throw s!"token expired at {exp}, now {now}" else pure claims
      | none => pure claims : Except String HsClaims) = .ok claims' ↔
      claims = claims' ∧ ∀ exp ∈ claims.exp, now ≤ exp := by
  cases hexp : claims.exp with
  | none => simp [pure, Except.pure]
  | some exp =>
      by_cases hlt : exp < now
      · simp [hlt, throw, throwThe, MonadExceptOf.throw]
      · simpa [hlt, pure, Except.pure] using fun _ => not_lt.mp hlt

theorem mapError_eq_ok_iff {ε ε' α : Type*} {f : ε → ε'} {r : Except ε α} {a : α} :
    r.mapError f = .ok a ↔ r = .ok a := by
  cases r with
  | error e => simp [Except.mapError]
  | ok b => simp [Except.mapError]

theorem bind_eq_ok_iff {ε α β : Type} {r : Except ε α} {f : α → Except ε β} {b : β} :
    (r >>= f) = .ok b ↔ ∃ a, r = .ok a ∧ f a = .ok b := by
  cases r with
  | error e => simp [bind, Except.bind]
  | ok a => simp [bind, Except.bind]

/-- **What `verify_hs256` accepts.**  The token is three segments, the third the
signature of the first two under the secret; the second decodes to the claims; and
they have not expired, if they say when they do.  Nothing is asked of the first. -/
theorem verifyHs256_eq_ok_iff (token secret : String) :
    verifyHs256 crypto token secret now = .ok claims ↔
      ∃ t : Segments, token = t.text ∧
        t.signature = signHs256 crypto s!"{t.header}.{t.payload}" secret ∧
        (∃ bytes, crypto.decode t.payload = .ok bytes ∧ crypto.parseClaims bytes = .ok claims) ∧
        ∀ exp ∈ claims.exp, now ≤ exp := by
  -- The checks are peeled off in the order of the code; each failure ends the function.
  unfold verifyHs256
  constructor
  · intro h
    split at h
    case h_2 => cases h
    case h_1 header payload signature hsplit =>
      obtain ⟨t, rfl, rfl, rfl, rfl⟩ := Segments.exists_of_splitDots hsplit
      simp only at h
      split at h
      case isFalse => cases h
      case isTrue hsignature =>
        obtain ⟨bytes, hdecode, h⟩ := bind_eq_ok_iff.mp h
        obtain ⟨parsed, hparse, h⟩ := bind_eq_ok_iff.mp h
        obtain ⟨rfl, hexp⟩ := (checkExp_eq_ok_iff parsed claims now).mp h
        exact ⟨t, rfl, (utf8_injective ((constantTimeEq_iff _ _).mp hsignature)).symm,
          ⟨bytes, mapError_eq_ok_iff.mp hdecode, mapError_eq_ok_iff.mp hparse⟩, hexp⟩
  -- The other way round every check is known to pass, and the claims come out.
  · rintro ⟨t, rfl, hsignature, ⟨bytes, hdecode, hparse⟩, hexp⟩
    rw [t.splitDots_text]
    simp only [hsignature, constantTimeEq_self, if_true]
    apply bind_eq_ok_iff.mpr
    refine ⟨bytes, mapError_eq_ok_iff.mpr hdecode, ?_⟩
    apply bind_eq_ok_iff.mpr
    exact ⟨claims, mapError_eq_ok_iff.mpr hparse,
      (checkExp_eq_ok_iff claims claims now).mpr ⟨rfl, hexp⟩⟩

/-- The authenticator brings the identity of the claims it accepts. -/
theorem authenticate_eq_ok_iff (token : Option String) (principal : Principal) :
    (self.authenticator crypto).authenticate token now = .ok principal ↔
      ∃ t claims, token = some t.text ∧ Accepts crypto self now t claims ∧
        principal = .fromMask claims.tenantId claims.userId claims.permMask := by
  constructor
  · intro h
    cases token with
    | none => cases h
    | some token =>
        simp only [authenticator] at h
        split at h
        case h_1 => cases h
        case h_2 claims hverify =>
          split at h
          · cases h
          · split at h
            · cases h
            · rename_i hissuer hclient
              -- What is left are the pins: each was checked only where it is not empty.
              obtain ⟨t, rfl, hsignature, hpayload, hexp⟩ := (verifyHs256_eq_ok_iff _ _).mp hverify
              refine ⟨t, claims, rfl, ⟨hsignature, hpayload, hexp, ?_, ?_⟩, (Except.ok.inj h).symm⟩
              · intro hpinned
                by_contra hiss
                exact hissuer ⟨hpinned, hiss⟩
              · intro hpinned
                by_contra haud
                exact hclient ⟨hpinned, haud⟩
  · rintro ⟨t, claims, rfl, haccepts, rfl⟩
    have hverify : verifyHs256 crypto t.text self.secret now = .ok claims :=
      (verifyHs256_eq_ok_iff _ _).mpr
        ⟨t, rfl, haccepts.signature, haccepts.payload, haccepts.exp⟩
    have hissuer : ¬ (self.issuer ≠ "" ∧ claims.iss ≠ some self.issuer) := fun h =>
      h.2 (haccepts.issuer h.1)
    have hclient : ¬ (self.clientId ≠ "" ∧ claims.aud ≠ some self.clientId) := fun h =>
      h.2 (haccepts.client h.1)
    simp only [authenticator, hverify, if_neg hissuer, if_neg hclient]

/-! ### Minting -/

variable {toVec : HsClaims → List UInt8}

/-- The segments of a minted token. -/
def mintSegments (hreads : crypto.Reads toVec claims) (secret : String) : Segments :=
  let header := crypto.encode (utf8 "\x7b\"alg\":\"HS256\",\"typ\":\"JWT\"\x7d")
  let payload := crypto.encode (toVec claims)
  ⟨header, payload, signHs256 crypto s!"{header}.{payload}" secret, hreads.dot_not_mem _,
    hreads.dot_not_mem _, hreads.dot_not_mem _⟩

/-- A minted token that has not expired, with the pins of the verifier, brings
the identity of its claims. -/
theorem authenticate_mint (hreads : crypto.Reads toVec claims)
    (hexp : ∀ exp ∈ claims.exp, now ≤ exp)
    (hissuer : self.issuer ≠ "" → claims.iss = some self.issuer)
    (hclient : self.clientId ≠ "" → claims.aud = some self.clientId) :
    (self.authenticator crypto).authenticate
        (some (mintHs256Token crypto toVec self.secret claims)) now =
      .ok (.fromMask claims.tenantId claims.userId claims.permMask) := by
  apply (authenticate_eq_ok_iff _ _).mpr
  refine ⟨mintSegments hreads self.secret, claims, rfl, ?_, rfl⟩
  exact ⟨rfl, ⟨toVec claims, hreads.decode_encode _, hreads.parse_toVec⟩, hexp, hissuer, hclient⟩

/-- **Which tokens are accepted, and as whom.**  At any time a token brings a
principal exactly when it has three segments that are accepted with some
claims, and the principal has the tenant and the user of these claims and the
six rights of their mask.  So does every token that was minted with the same
secret, unless it has expired or has other pins. -/
theorem authenticate_iff (crypto : HsCrypto) (self : Hs256Authenticator) (now : Int) :
    (∀ token principal, (self.authenticator crypto).authenticate token now = .ok principal ↔
      ∃ t claims, token = some t.text ∧ Accepts crypto self now t claims ∧
        principal = ⟨claims.tenantId, claims.userId, ⟨claims.permMask &&& 63⟩⟩) ∧
    ∀ (toVec : HsClaims → List UInt8) (claims : HsClaims), crypto.Reads toVec claims →
      (∀ exp ∈ claims.exp, now ≤ exp) →
      (self.issuer ≠ "" → claims.iss = some self.issuer) →
      (self.clientId ≠ "" → claims.aud = some self.clientId) →
      (self.authenticator crypto).authenticate
          (some (mintHs256Token crypto toVec self.secret claims)) now =
        .ok ⟨claims.tenantId, claims.userId, ⟨claims.permMask &&& 63⟩⟩ := by
  constructor
  · intro token principal
    exact authenticate_eq_ok_iff token principal
  · intro toVec claims hreads hexp hissuer hclient
    exact authenticate_mint hreads hexp hissuer hclient

/-- The claims of a user, with a bit that stands for no right. -/
def anaClaims : HsClaims := ⟨"acme", "ana", 127, some 2000000000, none, none⟩

/-- The same as JSON. -/
def anaJson : List UInt8 :=
  utf8 ("\x7b\"tenant_id\":\"acme\",\"user_id\":\"ana\",\"perm_mask\":127," ++
    "\"exp\":2000000000,\"iss\":null,\"aud\":null\x7d")

/-- The crates on the user's token: the MAC of its header and payload under
`s3cret`, and its claims. -/
def anaCrypto : HsCrypto where
  hmacSha256 key _ :=
    if key = utf8 "s3cret" then
      [174, 62, 201, 122, 10, 25, 123, 73, 220, 51, 210, 249, 217, 122, 188, 59, 58, 118, 28, 245,
        53, 26, 254, 136, 74, 83, 138, 101, 55, 68, 56, 7]
    else []
  encode := Base64.encode
  decode s :=
    match Base64.decode s with
    | some bs => .ok bs
    | none => .error "Invalid symbol"
  parseClaims bs := if bs = anaJson then .ok anaClaims else .error "expected value"

theorem reads_anaCrypto : anaCrypto.Reads (fun _ => anaJson) anaClaims where
  decode_encode bs := by simp [anaCrypto, Base64.decode_encode]
  urlSafe _ _ := Base64.mem_encode
  parse_toVec := by simp [anaCrypto]

/-- A verifier without pins. -/
def anaVerifier : Hs256Authenticator := ⟨"s3cret", "", ""⟩

theorem authenticate_iff_ana :
    (anaVerifier.authenticator anaCrypto).authenticate
        (some (mintHs256Token anaCrypto (fun _ => anaJson) anaVerifier.secret anaClaims))
        1700000000 =
      .ok ⟨"acme", "ana", ⟨63⟩⟩ := by
  have hprincipal : (⟨anaClaims.tenantId, anaClaims.userId, ⟨anaClaims.permMask &&& 63⟩⟩ :
      Principal) = ⟨"acme", "ana", ⟨63⟩⟩ := by decide
  have hexp : ∀ exp ∈ anaClaims.exp, (1700000000 : Int) ≤ exp := by
    intro exp h
    rw [← Option.some.inj h]
    decide
  rw [← hprincipal]
  exact (authenticate_iff anaCrypto anaVerifier 1700000000).2 (fun _ => anaJson) anaClaims
    reads_anaCrypto hexp (fun h => absurd rfl h) fun h => absurd rfl h

end Hs256Authenticator

end AgenticIde
