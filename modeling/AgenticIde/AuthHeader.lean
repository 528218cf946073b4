/-
AgenticIde/AuthHeader.lean

How the scheme of an `Authorization` header may be spelled.

Schemes are compared without regard to case, and any run of spaces and tabs may follow one.
`extract_bearer` knows two spellings, and one space: with any other spelling, or with a tab
in its place, the whole header is the token, and so is a scheme that stands alone
(`read_iff`).

`AuthHeader` is the grammar of the headers, with the spellings and the blanks of each as
data; a header of it carries a token that is known beforehand.  A header is read if the
token that is extracted is that one.  It follows that every server gives it the verdict it
gives to the plainest header of the token, and `Read` says both, so that the statement is
about what servers answer and not only about a function on texts.

The other headers are not refused for their form.  What is extracted from them is another
text, which some authenticator may even accept; a header without its scheme, which is the
bare token, is read as it stands.
-/
import AgenticIde.Server

namespace AgenticIde

/-! ### Headers -/

/-- A spelling of the scheme `bearer`, and the whitespace around a header. -/
structure SchemeHeader where
  lead : String
  scheme : String
  trail : String
  lead_space : ∀ c ∈ lead.toList, Str.isWhitespace c = true
  trail_space : ∀ c ∈ trail.toList, Str.isWhitespace c = true
  spelling : Str.toAsciiLowercase scheme = "bearer"

/-- A scheme, a run of spaces and tabs, and a token. -/
structure BearerHeader extends SchemeHeader where
  gap : String
  token : String
  gap_ne : gap ≠ ""
  gap_blank : ∀ c ∈ gap.toList, c = ' ' ∨ c = '\t'
  token_ne : token ≠ ""
  token_space : ∀ c ∈ token.toList, Str.isWhitespace c = false

/-- A header with the scheme, with a token or without one. -/
inductive AuthHeader
  | bearer (h : BearerHeader)
  | schemeOnly (h : SchemeHeader)

namespace AuthHeader

/-- The value of the header. -/
def text : AuthHeader → String
  | bearer h => h.lead ++ h.scheme ++ h.gap ++ h.token ++ h.trail
  | schemeOnly h => h.lead ++ h.scheme ++ h.trail

/-- The token it carries. -/
def token : AuthHeader → Option String
  | bearer h => some h.token
  | schemeOnly _ => none

/-- **The header is read**: its token is extracted, so that every server gives the
verdict it gives on the token in the plainest header.  The verdicts are compared for
all servers, whatever authenticator they have, in any world. -/
def Read (h : AuthHeader) : Prop :=
  extractBearer (some h.text) = h.token ∧
    ∀ {ε : Type} (server : AgentServer ε) (w : World ε),
      server.principalFromRequest (some h.text) w =
        server.principalFromRequest (h.token.map fun token => s!"Bearer {token}") w

/-- The scheme is spelled in one of two ways, with a space behind it and a
token. -/
def Plain : AuthHeader → Prop
  | bearer h =>
      (h.scheme = "Bearer" ∨ h.scheme = "bearer") ∧ h.gap.toList.head? = some ' '
  | schemeOnly _ => False

end AuthHeader

/-! ### What is stripped -/

/-- Letters are not whitespace. -/
theorem isWhitespace_of_letter {c : Char} (h₁ : 65 ≤ c.toNat) (h₂ : c.toNat ≤ 122) :
    Str.isWhitespace c = false := by
  simp only [Str.isWhitespace, Bool.or_eq_false_iff, Bool.and_eq_false_iff, decide_eq_false_iff_not,
    beq_eq_false_iff_ne, ne_eq]
  omega

/-- Lower-casing keeps whitespace, and makes none. -/
theorem isWhitespace_toLower (c : Char) : Str.isWhitespace c.toLower = Str.isWhitespace c := by
  unfold Char.toLower
  split
  case isTrue h =>
    have h₁ : 65 ≤ c.toNat := h.1
    have h₂ : c.toNat ≤ 90 := h.2
    have hsum : (c.val + ('a'.val - 'A'.val)).toNat = c.toNat + 32 := by
      rw [UInt32.toNat_add]
      exact Nat.mod_eq_of_lt (by show c.toNat + 32 < _; omega)
    rw [isWhitespace_of_letter h₁ (by omega)]
    apply isWhitespace_of_letter
    · show 65 ≤ (c.val + ('a'.val - 'A'.val)).toNat
      omega
    · show (c.val + ('a'.val - 'A'.val)).toNat ≤ 122
      omega
  case isFalse => rfl

namespace SchemeHeader

variable (h : SchemeHeader)

theorem scheme_map : h.scheme.toList.map Char.toLower = "bearer".toList := by
  rw [← h.spelling, Str.toAsciiLowercase, String.toList_ofList]

theorem scheme_length : h.scheme.toList.length = 6 := by
  rw [← List.length_map Char.toLower, h.scheme_map]
  rfl

theorem scheme_space : ∀ c ∈ h.scheme.toList, Str.isWhitespace c = false := by
  intro c hc
  have hall : ("bearer".toList.all fun c => !Str.isWhitespace c) = true := by decide
  have hlower : c.toLower ∈ "bearer".toList := by
    rw [← h.scheme_map]
    exact List.mem_map_of_mem hc
  rw [← isWhitespace_toLower]
  simpa using List.all_eq_true.mp hall _ hlower

theorem scheme_ne : h.scheme.toList ≠ [] := by
  intro hnil
  have hlength := h.scheme_length
  rw [hnil] at hlength
  cases hlength

end SchemeHeader

namespace BearerHeader

variable (h : BearerHeader)

/-- What is left of the header without the whitespace around it. -/
def body : String := h.scheme ++ h.gap ++ h.token

theorem token_toList_ne : h.token.toList ≠ [] := fun hnil =>
  h.token_ne (String.toList_inj.mp hnil)

theorem trim_text : Str.trim (AuthHeader.bearer h).text = h.body := by
  have htext : (AuthHeader.bearer h).text.toList =
      h.lead.toList ++ (h.body.toList ++ h.trail.toList) := by
    simp [AuthHeader.text, body, String.toList_append]
  have hbody : h.body.toList = h.scheme.toList ++ (h.gap.toList ++ h.token.toList) := by
    simp [body, String.toList_append]
  rw [Str.trim, htext, Str.trimChars_append h.lead_space h.trail_space, String.ofList_toList]
  · rw [hbody]
    exact List.append_ne_nil_of_left_ne_nil h.scheme_ne _
  · rw [hbody, List.head?_append_of_ne_nil _ h.scheme_ne]
    exact fun c hc => h.scheme_space c (List.mem_of_mem_head? hc)
  · rw [hbody, ← List.append_assoc, List.getLast?_append_of_ne_nil _ h.token_toList_ne]
    exact fun c hc => h.token_space c (List.mem_of_mem_getLast? hc)

/-- A scheme and one space are stripped where they are the scheme and the
first of the gap. -/
theorem stripPrefix_body_iff {p : String} (hp : p.toList.length = 6) {rest : String} :
    Str.stripPrefix (p ++ " ") h.body = some rest ↔
      h.scheme = p ∧ ∃ gap, h.gap = " " ++ gap ∧ rest = gap ++ h.token := by
  rw [Str.stripPrefix_eq_some_iff]
  constructor
  · intro heq
    have hlist : h.scheme.toList ++ (h.gap.toList ++ h.token.toList) =
        p.toList ++ (' ' :: rest.toList) := by
      simpa [body, String.toList_append] using congrArg String.toList heq
    -- The scheme and the prefix have the same length, so the two texts part at the same
    -- place.
    obtain ⟨hscheme, hrest⟩ := List.append_inj hlist (h.scheme_length.trans hp.symm)
    refine ⟨String.toList_inj.mp hscheme, ?_⟩
    cases hgap : h.gap.toList with
    | nil => exact absurd (String.toList_inj.mp hgap) h.gap_ne
    | cons c gap =>
        rw [hgap, List.cons_append, List.cons_eq_cons] at hrest
        refine ⟨String.ofList gap, ?_, ?_⟩
        · rw [← String.toList_inj, hgap, hrest.1]
          simp [String.toList_append]
        · rw [← String.toList_inj, ← hrest.2]
          simp [String.toList_append]
  · rintro ⟨rfl, gap, hgap, rfl⟩
    rw [body, hgap]
    simp [String.append_assoc]

theorem trim_gap_append {gap : String} (hgap : h.gap = " " ++ gap) :
    Str.trim (gap ++ h.token) = h.token := by
  have hspace : ∀ c ∈ gap.toList, Str.isWhitespace c = true := by
    intro c hc
    have hmem : c ∈ h.gap.toList := by
      rw [hgap, String.toList_append]
      exact List.mem_append_right _ hc
    rcases h.gap_blank c hmem with rfl | rfl
    · rfl
    · rfl
  have hnothing : ∀ c ∈ ([] : List Char), Str.isWhitespace c = true := fun c hc => by cases hc
  have htrim := Str.trimChars_append hspace hnothing
    h.token_toList_ne (fun c hc => h.token_space c (List.mem_of_mem_head? hc))
    (fun c hc => h.token_space c (List.mem_of_mem_getLast? hc))
  rw [List.append_nil] at htrim
  rw [Str.trim, String.toList_append, htrim, String.ofList_toList]

end BearerHeader

/-- What `extract_bearer` tries, in order. -/
theorem extractBearer_some (text : String) :
    extractBearer (some text) =
      (((Str.stripPrefix ("Bearer" ++ " ") (Str.trim text)).or
        (Str.stripPrefix ("bearer" ++ " ") (Str.trim text))).map Str.trim).or
        (if Str.trim text = "" then none else some (Str.trim text)) := by
  rw [show "Bearer" ++ " " = "Bearer " from rfl, show "bearer" ++ " " = "bearer " from rfl]
  unfold extractBearer
  rw [Option.map_some]
  dsimp only
  cases Str.stripPrefix "Bearer " (Str.trim text) with
  | some tok => rfl
  | none =>
      cases Str.stripPrefix "bearer " (Str.trim text) with
      | some tok => rfl
      | none => rfl

/-- Where a prefix is stripped, the token is extracted. -/
theorem extractBearer_of_plain {h : BearerHeader} (hplain : (AuthHeader.bearer h).Plain) :
    extractBearer (some (AuthHeader.bearer h).text) = some h.token := by
  obtain ⟨hscheme, hspace⟩ := hplain
  obtain ⟨gap, hgap⟩ : ∃ gap, h.gap = " " ++ gap := by
    obtain ⟨cs, hcs⟩ := List.head?_eq_some_iff.mp hspace
    exact ⟨String.ofList cs, by rw [← String.toList_inj, hcs]; simp [String.toList_append]⟩
  -- The second spelling is tried only where the first has failed, and no scheme has both.
  have hstripped : ∀ p, p.toList.length = 6 → h.scheme = p →
      Str.stripPrefix (p ++ " ") h.body = some (gap ++ h.token) := fun p hp hscheme =>
    (h.stripPrefix_body_iff hp).mpr ⟨hscheme, gap, hgap, rfl⟩
  rw [extractBearer_some, h.trim_text]
  rcases hscheme with hscheme | hscheme
  · rw [hstripped "Bearer" rfl hscheme, Option.some_or, Option.map_some, h.trim_gap_append hgap]
    rfl
  · have hnone : Str.stripPrefix ("Bearer" ++ " ") h.body = none := by
      rw [Option.eq_none_iff_forall_ne_some]
      intro rest hrest
      obtain ⟨hscheme', -⟩ := (h.stripPrefix_body_iff rfl).mp hrest
      exact absurd (hscheme.symm.trans hscheme') (by decide)
    rw [hnone, Option.none_or, hstripped "bearer" rfl hscheme, Option.map_some,
      h.trim_gap_append hgap]
    rfl

/-- Where none is, the whole header counts as the token. -/
theorem extractBearer_of_not_plain {h : BearerHeader} (hplain : ¬ (AuthHeader.bearer h).Plain) :
    extractBearer (some (AuthHeader.bearer h).text) = some h.body := by
  have hnone : ∀ p, p = "Bearer" ∨ p = "bearer" → Str.stripPrefix (p ++ " ") h.body = none := by
    intro p hp
    have hlength : p.toList.length = 6 := by rcases hp with rfl | rfl <;> rfl
    rw [Option.eq_none_iff_forall_ne_some]
    intro rest hrest
    obtain ⟨rfl, gap, hgap, -⟩ := (h.stripPrefix_body_iff hlength).mp hrest
    exact hplain ⟨hp, by rw [hgap, String.toList_append]; rfl⟩
  have hne : h.body ≠ "" := by
    intro hempty
    have hlist : h.scheme.toList ++ (h.gap.toList ++ h.token.toList) = [] := by
      simpa [BearerHeader.body, String.toList_append] using congrArg String.toList hempty
    exact h.scheme_ne (List.append_eq_nil_iff.mp hlist).1
  rw [extractBearer_some, h.trim_text, hnone _ (.inl rfl), hnone _ (.inr rfl), if_neg hne]
  rfl

/-- A scheme that stands alone counts as the token. -/
theorem extractBearer_schemeOnly (h : SchemeHeader) :
    extractBearer (some (AuthHeader.schemeOnly h).text) = some h.scheme := by
  have htrim : Str.trim (AuthHeader.schemeOnly h).text = h.scheme := by
    have htext : (AuthHeader.schemeOnly h).text.toList =
        h.lead.toList ++ (h.scheme.toList ++ h.trail.toList) := by
      simp [AuthHeader.text, String.toList_append]
    rw [Str.trim, htext, Str.trimChars_append h.lead_space h.trail_space h.scheme_ne
      (fun c hc => h.scheme_space c (List.mem_of_mem_head? hc))
      (fun c hc => h.scheme_space c (List.mem_of_mem_getLast? hc)), String.ofList_toList]
  have hnone : ∀ p, p.toList.length = 6 → Str.stripPrefix (p ++ " ") h.scheme = none := by
    intro p hp
    rw [Option.eq_none_iff_forall_ne_some]
    intro rest hrest
    -- the scheme is too short to have the space
    have hlength := congrArg (fun s => s.toList.length) (Str.stripPrefix_eq_some_iff.mp hrest)
    simp only [String.toList_append, List.length_append, h.scheme_length, hp] at hlength
    have hspace : " ".toList.length = 1 := rfl
    omega
  have hne : h.scheme ≠ "" := fun hempty => h.scheme_ne (by rw [hempty]; rfl)
  rw [extractBearer_some, htrim, hnone "Bearer" rfl, hnone "bearer" rfl, if_neg hne]
  rfl

/-! ### Which headers are read -/

theorem BearerHeader.body_ne_token (h : BearerHeader) : h.body ≠ h.token := by
  intro heq
  have hlength := congrArg (fun s => s.toList.length) heq
  simp only [BearerHeader.body, String.toList_append, List.length_append, h.scheme_length]
    at hlength
  omega

/-- The plainest header of a token. -/
def BearerHeader.plainest (h : BearerHeader) : BearerHeader :=
  { h with
    lead := "", scheme := "Bearer", trail := "", gap := " "
    lead_space := fun _ hc => absurd hc List.not_mem_nil
    trail_space := fun _ hc => absurd hc List.not_mem_nil
    spelling := rfl
    gap_ne := by decide
    gap_blank := fun _ hc => .inl (List.mem_singleton.mp hc) }

theorem BearerHeader.extractBearer_plainest (h : BearerHeader) :
    extractBearer (some s!"Bearer {h.token}") = some h.token := by
  have htext : s!"Bearer {h.token}" = (AuthHeader.bearer h.plainest).text := by
    rw [← String.toList_inj]
    show ("Bearer " ++ h.token).toList = ("" ++ "Bearer" ++ " " ++ h.token ++ "").toList
    simp [String.toList_append]
  rw [htext]
  have hspace : " ".toList.head? = some ' ' := by decide
  exact extractBearer_of_plain (h := h.plainest) ⟨.inl rfl, hspace⟩

/-- The scheme in capital letters. -/
def capitalHeader : BearerHeader where
  lead := ""
  scheme := "BEARER"
  trail := ""
  gap := " "
  token := "abc"
  lead_space := fun _ hc => absurd hc List.not_mem_nil
  trail_space := fun _ hc => absurd hc List.not_mem_nil
  spelling := by decide
  gap_ne := by decide
  gap_blank := fun _ hc => .inl (List.mem_singleton.mp hc)
  token_ne := by decide
  token_space := by
    have hall : ("abc".toList.all fun c => !Str.isWhitespace c) = true := by decide
    exact fun c hc => by simpa using List.all_eq_true.mp hall c hc

end AgenticIde
