/-
AgenticIde/Auth.lean

Authentication (`auth.rs`): a bearer token becomes a principal.

The cryptography is a parameter: the MAC, the base64url codec and the JSON parser of the
claims.  What the repository decides is modelled: how a token is cut, what is signed, which
checks are made in which order, and that the claims become the principal.

A token is three segments between dots.  The signature of the first two is compared in
constant time with the third before anything is decoded, so a forged token costs its
sender nothing but the comparison, and the texts of later errors are seen only by those
who know the secret.  Then the payload is decoded, and the time of expiry, the issuer and
the client are checked, the last two only where the configuration pins them.  The header of
the token is signed and never read.

`extractBearer` strips the scheme from the header of a request, and `mintHs256Token` makes
tokens for tests and tools.  The lemmas at the end join the two: what is minted has no
blank in it, so the header brings the token back as it was (`extractBearer_bearer`).  That
rests on the alphabet of the codec, and is the only place where the codec is asked for more
than to read what it wrote (`HsCrypto.Reads`).
-/
import AgenticIde.Lib.Base64
import AgenticIde.Lib.Encoding
import AgenticIde.Principal

namespace AgenticIde

/-- Authentication failure. -/
inductive AuthError
  | unauthorized (text : String)
  deriving DecidableEq

/-- The `Display` text of the error. -/
def AuthError.toString : AuthError → String
  | unauthorized text => s!"unauthorized: {text}"

/-- Pluggable identity source: a bearer token, if any, at a time in seconds. -/
structure Authenticator where
  authenticate : Option String → Int → Except AuthError Principal

/-- Dev mode: always the configured principal. -/
def NoopAuthenticator (fallback : Principal) : Authenticator where
  authenticate _ _ := .ok fallback

/-- Decoded claims; what a token leaves out has its default. -/
structure HsClaims where
  tenantId : String
  userId : String
  permMask : UInt32
  exp : Option Int
  iss : Option String
  aud : Option String
  deriving DecidableEq

/-- The crates the verifier calls: `hmac`, `base64` and `serde_json`. -/
structure HsCrypto where
  hmacSha256 : List UInt8 → List UInt8 → List UInt8
  encode : List UInt8 → String
  decode : String → Except String (List UInt8)
  parseClaims : List UInt8 → Except String HsClaims

/-- HS256 bearer-token verifier; an empty issuer or client disables its
check. -/
structure Hs256Authenticator where
  secret : String
  issuer : String
  clientId : String

/-- `constant_time_eq`: the bytes differ nowhere. -/
def constantTimeEq (a b : List UInt8) : Bool :=
  a.length == b.length && (a.zip b).foldl (fun diff xy => diff ||| (xy.1 ^^^ xy.2)) 0 == 0

/-- `split('.')` on characters. -/
def splitDots : List Char → List (List Char)
  | [] => [[]]
  | c :: cs =>
      if c = '.' then [] :: splitDots cs
      else
        match splitDots cs with
        | [] => [[c]]
        | part :: parts => (c :: part) :: parts

namespace Hs256Authenticator

variable (crypto : HsCrypto)

/-- The signature of a signing input. -/
def signHs256 (signingInput secret : String) : String :=
  crypto.encode (crypto.hmacSha256 (utf8 secret) (utf8 signingInput))

/-- Verify a token and return its claims. -/
def verifyHs256 (token secret : String) (now : Int) : Except String HsClaims :=
  match (splitDots token.toList).map String.ofList with
  | [header, payload, signature] => do
      let expected := signHs256 crypto s!"{header}.{payload}" secret
      -- the algorithm named in the header is not looked at
      if constantTimeEq (utf8 expected) (utf8 signature) then pure ()
      else throw "signature verification failed"
      let bytes ← (crypto.decode payload).mapError fun e => s!"payload is not base64url: {e}"
      let claims ← (crypto.parseClaims bytes).mapError fun e =>
        s!"payload is not valid claims JSON: {e}"
      match claims.exp with
      | some exp => if exp < now then throw s!"token expired at {exp}, now {now}" else pure claims
      | none => pure claims
  | _ => throw "malformed JWT: expected 3 segments"

/-- `mint_hs256_token`: a signed token of some claims, which `toVec` writes
as JSON. -/
def mintHs256Token (toVec : HsClaims → List UInt8) (secret : String) (claims : HsClaims) : String :=
  let header := crypto.encode (utf8 "\x7b\"alg\":\"HS256\",\"typ\":\"JWT\"\x7d")
  let payload := crypto.encode (toVec claims)
  let signature := signHs256 crypto s!"{header}.{payload}" secret
  s!"{header}.{payload}.{signature}"

/-- Verify the token, pin issuer and audience, and map the claims. -/
def authenticator (self : Hs256Authenticator) : Authenticator where
  authenticate token now :=
    match token with
    | none => .error (.unauthorized "missing bearer token")
    | some token =>
        match verifyHs256 crypto token self.secret now with
        | .error e => .error (.unauthorized e)
        | .ok claims =>
            if self.issuer ≠ "" ∧ claims.iss ≠ some self.issuer then
              .error (.unauthorized "issuer mismatch")
            else if self.clientId ≠ "" ∧ claims.aud ≠ some self.clientId then
              .error (.unauthorized "audience mismatch")
            else .ok (Principal.fromMask claims.tenantId claims.userId claims.permMask)

end Hs256Authenticator

/-- Strip the `Bearer ` scheme from an `Authorization` header. -/
def extractBearer (authorization : Option String) : Option String :=
  match authorization.map Str.trim with
  | none => none
  | some v =>
      match Str.stripPrefix "Bearer " v with
      | some tok => some (Str.trim tok)
      | none =>
          match Str.stripPrefix "bearer " v with
          | some tok => some (Str.trim tok)
          | none => if v = "" then none else some v

/-! ### Tokens that are accepted -/

theorem splitDots_of_not_mem {cs : List Char} (h : '.' ∉ cs) : splitDots cs = [cs] := by
  induction cs with
  | nil => rfl
  | cons c cs ih =>
      rw [List.mem_cons, not_or] at h
      rw [splitDots, if_neg (Ne.symm h.1), ih h.2]

/-- The first dot ends the first part. -/
theorem splitDots_append {cs : List Char} (h : '.' ∉ cs) (rest : List Char) :
    splitDots (cs ++ '.' :: rest) = cs :: splitDots rest := by
  induction cs with
  | nil => rw [List.nil_append, splitDots, if_pos rfl]
  | cons c cs ih =>
      rw [List.mem_cons, not_or] at h
      rw [List.cons_append, splitDots, if_neg (Ne.symm h.1), ih h.2]

/-- Three parts without a dot are the segments of their token. -/
theorem splitDots_token {a b c : String} (ha : '.' ∉ a.toList) (hb : '.' ∉ b.toList)
    (hc : '.' ∉ c.toList) :
    (splitDots (s!"{a}.{b}.{c}").toList).map String.ofList = [a, b, c] := by
  have htoken : (s!"{a}.{b}.{c}").toList =
      a.toList ++ '.' :: (b.toList ++ '.' :: c.toList) := by
    show (a ++ "." ++ b ++ "." ++ c).toList = _
    simp [String.toList_append]
  rw [htoken, splitDots_append ha, splitDots_append hb, splitDots_of_not_mem hc]
  simp

theorem constantTimeEq_self (bs : List UInt8) : constantTimeEq bs bs = true := by
  have hfold : ∀ bs : List UInt8,
      (bs.zip bs).foldl (fun diff xy => diff ||| (xy.1 ^^^ xy.2)) 0 = (0 : UInt8) := by
    intro bs
    induction bs with
    | nil => rfl
    | cons b bs ih => simpa using ih
  simp [constantTimeEq, hfold]

/-- The crates behave as documented where a token is concerned: the codec
reads back what it wrote, in the URL-safe alphabet, and the JSON of some
claims is read back as these claims. -/
structure HsCrypto.Reads (crypto : HsCrypto) (toVec : HsClaims → List UInt8) (claims : HsClaims) :
    Prop where
  decode_encode : ∀ bs, crypto.decode (crypto.encode bs) = .ok bs
  urlSafe : ∀ bs, ∀ c ∈ (crypto.encode bs).toList, c ∈ Base64.urlSafe
  parse_toVec : crypto.parseClaims (toVec claims) = .ok claims

namespace HsCrypto.Reads

variable {crypto : HsCrypto} {toVec : HsClaims → List UInt8} {claims : HsClaims}

theorem dot_not_mem (h : crypto.Reads toVec claims) (bs : List UInt8) :
    '.' ∉ (crypto.encode bs).toList := fun hdot =>
  absurd (h.urlSafe bs '.' hdot) (by decide)

/-- The characters of a minted token are dots and digits of the alphabet. -/
theorem not_isWhitespace_mint (h : crypto.Reads toVec claims) (secret : String) :
    ∀ c ∈ (Hs256Authenticator.mintHs256Token crypto toVec secret claims).toList,
      Str.isWhitespace c = false := by
  -- Every character is a dot, which is no blank, or a digit of the URL-safe alphabet.
  have hall : (Base64.urlSafe.all fun c => !Str.isWhitespace c) = true := by decide
  have hdigit : ∀ c ∈ Base64.urlSafe, Str.isWhitespace c = false := fun c hc => by
    simpa using List.all_eq_true.mp hall c hc
  have hencode : ∀ bs, ∀ c ∈ (crypto.encode bs).toList, Str.isWhitespace c = false :=
    fun bs c hc => hdigit c (h.urlSafe bs c hc)
  intro c hc
  have hmem : c ∈ ((crypto.encode (utf8 "\x7b\"alg\":\"HS256\",\"typ\":\"JWT\"\x7d") ++ "." ++
      crypto.encode (toVec claims) ++ ".") ++
        Hs256Authenticator.signHs256 crypto _ secret).toList := hc
  simp only [String.toList_append, List.mem_append] at hmem
  rcases hmem with (((hc | hc) | hc) | hc) | hc
  · exact hencode _ c hc
  · rw [List.mem_singleton.mp hc]
    rfl
  · exact hencode _ c hc
  · rw [List.mem_singleton.mp hc]
    rfl
  · exact hencode _ c hc

end HsCrypto.Reads

/-- A header with the scheme and a token without whitespace brings the token. -/
theorem extractBearer_bearer {token : String}
    (h : ∀ c ∈ token.toList, Str.isWhitespace c = false) (hne : token ≠ "") :
    extractBearer (some s!"Bearer {token}") = some token := by
  have htoken : token.toList ≠ [] := fun hnil => hne (by
    rw [← String.ofList_toList (s := token), hnil])
  -- Neither the token nor the header has blanks at its ends, so both trims do nothing.
  have htrim : Str.trim token = token :=
    Str.trim_eq (fun c hc => h c (List.mem_of_mem_head? hc))
      fun c hc => h c (List.mem_of_mem_getLast? hc)
  have hheader : Str.trim ("Bearer " ++ token) = "Bearer " ++ token := by
    refine Str.trim_eq ?_ ?_
    · intro c hc
      rw [String.toList_append] at hc
      obtain rfl : 'B' = c := by simpa using hc
      rfl
    · intro c hc
      rw [String.toList_append, List.getLast?_append_of_ne_nil _ htoken] at hc
      exact h c (List.mem_of_mem_getLast? hc)
  show extractBearer (some ("Bearer " ++ token)) = some token
  simp only [extractBearer, Option.map_some, hheader, Str.stripPrefix_append, htrim]

end AgenticIde
