/-
AgenticIde/AuthMint.lean

Tokens that are minted under one secret and verified under another.

The codec reads back what it wrote, so it writes no two lists of bytes alike; and the segments
of a token are told by its text.  So a minted token, sent as a Bearer header, brings an identity
exactly when the secret of the verifier gives its header and payload the MAC that the secret
of the mint gave them, it has not expired, and the pins agree; and the identity is that of the
claims (`authenticate_mintBearer_iff`).  Nothing is assumed of the MAC.

With one secret on both sides the first condition is met, so what is left is the clock and the
pins.  With two secrets it is a collision of the MAC, which is for cryptography to exclude and
not for this code.
-/
import AgenticIde.AuthTokens

namespace AgenticIde

/-- What is encoded is told by its text. -/
theorem HsCrypto.Reads.encode_injective {crypto : HsCrypto} {toVec : HsClaims → List UInt8}
    {claims : HsClaims} (hreads : crypto.Reads toVec claims) {bs bs' : List UInt8}
    (h : crypto.encode bs = crypto.encode bs') : bs = bs' := by
  have hdecode := hreads.decode_encode bs
  rw [h, hreads.decode_encode] at hdecode
  exact (Except.ok.inj hdecode).symm

namespace Hs256Authenticator

variable {crypto : HsCrypto} {toVec : HsClaims → List UInt8} {claims : HsClaims}

/-- The segments of a token are told by its text. -/
theorem segments_inj {t t' : Segments} (h : t.text = t'.text) :
    t.header = t'.header ∧ t.payload = t'.payload ∧ t.signature = t'.signature := by
  have hsplit := t.splitDots_text
  rw [h, t'.splitDots_text] at hsplit
  obtain ⟨hheader, hrest⟩ := List.cons.inj hsplit
  obtain ⟨hpayload, hrest⟩ := List.cons.inj hrest
  exact ⟨hheader.symm, hpayload.symm, (List.cons.inj hrest).1.symm⟩

/-- What the MAC of a minted token is taken of. -/
def mintInput (crypto : HsCrypto) (toVec : HsClaims → List UInt8) (claims : HsClaims) :
    List UInt8 :=
  utf8 (crypto.encode (utf8 "\x7b\"alg\":\"HS256\",\"typ\":\"JWT\"\x7d") ++ "." ++
    crypto.encode (toVec claims))

/-- The header brings the token. -/
theorem extractBearer_mint (hreads : crypto.Reads toVec claims) (secret : String) :
    extractBearer (some s!"Bearer {mintHs256Token crypto toVec secret claims}") =
      some (mintHs256Token crypto toVec secret claims) := by
  refine extractBearer_bearer (hreads.not_isWhitespace_mint secret) fun hempty => ?_
  have hdots : '.' ∈ (mintHs256Token crypto toVec secret claims).toList := by
    show '.' ∈ (_ ++ "." ++ _ ++ "." ++ _ : String).toList
    simp [String.toList_append]
  rw [hempty] at hdots
  exact absurd hdots (by decide)

/-- **Which minted tokens are accepted, and as whom.**  A token minted from any
claims under any secret brings an identity exactly when the secret of the verifier
gives it the same MAC, it has not expired and the pins agree; and then it is the
identity of these claims. -/
theorem authenticate_mintBearer_iff (self : Hs256Authenticator)
    (hreads : crypto.Reads toVec claims) (secret : String) (now : Int) (principal : Principal) :
    (self.authenticator crypto).authenticate
        (extractBearer (some ("Bearer " ++ mintHs256Token crypto toVec secret claims)))
        now = .ok principal ↔
      crypto.hmacSha256 (utf8 self.secret) (mintInput crypto toVec claims) =
          crypto.hmacSha256 (utf8 secret) (mintInput crypto toVec claims) ∧
        (∀ exp ∈ claims.exp, now ≤ exp) ∧
        (self.issuer ≠ "" → claims.iss = some self.issuer) ∧
        (self.clientId ≠ "" → claims.aud = some self.clientId) ∧
        principal = ⟨claims.tenantId, claims.userId, ⟨claims.permMask &&& 63⟩⟩ := by
  have hbearer : extractBearer (some ("Bearer " ++ mintHs256Token crypto toVec secret claims)) =
      some (mintHs256Token crypto toVec secret claims) := extractBearer_mint hreads secret
  rw [hbearer]
  apply (authenticate_eq_ok_iff _ _).trans
  constructor
  · rintro ⟨t, claims', htoken, haccepts, rfl⟩
    -- the accepted segments are those that were minted
    obtain ⟨hheader, hpayload, hsignature⟩ :=
      segments_inj (t := mintSegments hreads secret) (Option.some.inj htoken)
    obtain ⟨bytes, hdecode, hparse⟩ := haccepts.payload
    rw [← hpayload] at hdecode
    obtain rfl : toVec claims = bytes :=
      Except.ok.inj ((hreads.decode_encode _).symm.trans hdecode)
    obtain rfl : claims = claims' := Except.ok.inj (hreads.parse_toVec.symm.trans hparse)
    refine ⟨hreads.encode_injective ?_, haccepts.exp, haccepts.issuer, haccepts.client, rfl⟩
    have hequal := haccepts.signature
    rw [← hsignature, ← hheader, ← hpayload] at hequal
    exact hequal.symm
  · rintro ⟨hmac, hunexpired, hissuer, hclient, rfl⟩
    refine ⟨mintSegments hreads secret, claims, rfl, ⟨?_, ?_, hunexpired, hissuer, hclient⟩, rfl⟩
    · show crypto.encode (crypto.hmacSha256 (utf8 secret) (mintInput crypto toVec claims)) =
        crypto.encode (crypto.hmacSha256 (utf8 self.secret) (mintInput crypto toVec claims))
      rw [hmac]
    · exact ⟨toVec claims, hreads.decode_encode _, hreads.parse_toVec⟩

/-- The token of a user, at a verifier with a pin that the claims do not have. -/
theorem authenticate_mintBearer_iff_ana :
    ((⟨"s3cret", "", "ide"⟩ : Hs256Authenticator).authenticator anaCrypto).authenticate
        (extractBearer (some ("Bearer " ++ mintHs256Token anaCrypto (fun _ => anaJson) "s3cret"
          anaClaims))) 1700000000 = .ok ⟨"acme", "ana", ⟨63⟩⟩ ↔
      anaCrypto.hmacSha256 (utf8 "s3cret") (mintInput anaCrypto (fun _ => anaJson) anaClaims) =
          anaCrypto.hmacSha256 (utf8 "s3cret") (mintInput anaCrypto (fun _ => anaJson) anaClaims) ∧
        (∀ exp ∈ anaClaims.exp, 1700000000 ≤ exp) ∧
        ("" ≠ "" → anaClaims.iss = some "") ∧
        ("ide" ≠ "" → anaClaims.aud = some "ide") ∧
        (⟨"acme", "ana", ⟨63⟩⟩ : Principal) =
          ⟨anaClaims.tenantId, anaClaims.userId, ⟨anaClaims.permMask &&& 63⟩⟩ :=
  authenticate_mintBearer_iff ⟨"s3cret", "", "ide"⟩ reads_anaCrypto "s3cret" 1700000000 _

end Hs256Authenticator

end AgenticIde
