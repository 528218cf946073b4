/-
AgenticIde/Completion.lean

Completion backends: their contract, the prompt they share and the ranking of what they return
(`completion.rs` and the contract in `ollama.rs`), and the two backends that need no model.

A backend is the way it answers from a state, as the collaborators of the Core are; the state
of a backend that keeps something itself is a pair.

The two without a model answer from the text before the cursor, by a rule, and look neither at
the text behind it nor at the language.  They never fail, and never answer nothing, which is
what they are good for as a fallback.

A ranking keeps the best candidates, one at the least, in the order of their scores, and leaves
ties in the order they came.
-/
import AgenticIde.World

namespace AgenticIde

variable {ε : Type}

/-- A completion request. -/
structure NesRequest where
  pre : String
  suffix : String
  language : String
  deriving DecidableEq

/-- The completion backend of the probe. -/
structure CompletionBackend (ε : Type) where
  onComplete : NesRequest → ε → Except String (List Completion) × ε

/-- Ask the backend for candidates. -/
def CompletionBackend.complete (backend : CompletionBackend ε) (req : NesRequest) :
    Core ε String (List Completion) :=
  Act.external (World.call (backend.onComplete req)) (.complete req.pre req.suffix req.language)

/-- The best candidates, ties in the order they came. -/
def rankCompletions (candidates : List Completion) (limit : Nat) : List Completion :=
  (candidates.mergeSort fun a b => b.score ≤ a.score).take (max limit 1)

/-- The prompt sent to the model. -/
def buildGeneratePrompt (pre suffix language : String) : String :=
  s!"LANGUAGE:{language}\nPREFIX:{pre}\nSUFFIX:{suffix}\nCOMPLETE_THE_GAP:"

/-- Rule-based candidates: a best guess, and one that is always the same. -/
def deriveRuleCandidates (pre _suffix _language : String) : List Completion :=
  let cand :=
    if Str.endsWith "fn main(" (Str.trimEnd pre) then ⟨") \x7b\n    \n\x7d", 9 / 10⟩
    else
      match (Str.splitWhitespace pre).getLast? with
      | some last => ⟨s!"{last}_suffix", 6 / 10⟩
      | none => ⟨"", 1 / 10⟩
  [cand, ⟨"// fallback", 2 / 10⟩]

/-- The rule engine that a degraded client falls back to. -/
def RuleBasedBackend : CompletionBackend ε where
  onComplete req env := (.ok (deriveRuleCandidates req.pre req.suffix req.language), env)

/-- The stand-in of demos and tests, with the same rule. -/
def MockOllamaClient : CompletionBackend ε where
  onComplete req env := (.ok (deriveRuleCandidates req.pre req.suffix req.language), env)

/-- A ranking shows something as soon as there is something. -/
theorem rankCompletions_ne_nil {candidates : List Completion} (h : candidates ≠ []) (limit : Nat) :
    rankCompletions candidates limit ≠ [] := by
  rw [← List.length_pos_iff] at h ⊢
  rw [rankCompletions, List.length_take, List.length_mergeSort]
  omega

end AgenticIde
