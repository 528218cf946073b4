/-
AgenticIde/Retrieval.lean

Retrieval of context chunks by similarity (`retrieval.rs`, and the embedding of
`context_manager.rs`), and the ranking of completions (`completion.rs`).

The numbers of the program are a parameter (`Arith`), so what is shown here holds of floats
as of exact numbers.  An index that grows ranks like a fresh computation
(`retrieve_foldl_add`).  Both rankings give the first items of a stable order wherever the
scores at hand are ordered (`topK_rankings`).

A comparison of floats may have no answer, and the source then takes the two for equal.  With
such scores a sort may give any order, so the statement asks that the scores that occur in
the list are ordered; numbers are, whatever the others would do.

The first `k` of a stable order are determined: no item that is left out is above one that is
kept, and of two with the same score the one that came first is kept first.  Both rankings of
the program, that of the chunks and that of the completions, are instances of one law about
lists.
-/
import AgenticIde.Ckg
import AgenticIde.Completion
import AgenticIde.Context
import AgenticIde.Lib.TopK
import Mathlib.Analysis.Real.Sqrt

namespace AgenticIde

/-! ### Numbers -/

/-- The operations of `f32` that are used. -/
class Arith (F : Type) where
  zero : F
  one : F
  add : F → F → F
  mul : F → F → F
  div : F → F → F
  sqrt : F → F
  partialCmp : F → F → Option Ordering

/-- Exact numbers. -/
noncomputable instance : Arith ℝ where
  zero := 0
  one := 1
  add := (· + ·)
  mul := (· * ·)
  div := (· / ·)
  sqrt := Real.sqrt
  partialCmp a b := some (compare a b)

namespace Retrieval

variable {F : Type} [Arith F]

/-- `Iterator::sum`. -/
def sum (xs : List F) : F := xs.foldl Arith.add Arith.zero

/-- `slice::sort_by`, which is stable. -/
def sortBy {α : Type} (cmp : α → α → Ordering) (l : List α) : List α :=
  l.mergeSort fun a b => (cmp a b).isLE

/-- The comparison of the rankings, the higher score first; scores that cannot be compared
count as equal. -/
def byScore {α : Type} (score : α → F) (a b : α) : Ordering :=
  (Arith.partialCmp (score b) (score a)).getD .eq

/-! ### Embeddings -/

/-- `EMBED_DIM`. -/
def embedDim : Nat := 1536

/-- The feature a character at a position counts for. -/
def featureIndex (ch : Char) (i : Nat) : Nat := (ch.toNat * 31 + i) % embedDim

/-- The features of a text, counted. -/
def featureCounts (text : String) : List F :=
  text.toList.zipIdx.foldl
    (fun vec p => vec.modify (featureIndex p.1 p.2) fun v => Arith.add v Arith.one)
    (List.replicate embedDim Arith.zero)

/-- The length of a vector. -/
def norm (vec : List F) : F := Arith.sqrt (sum (vec.map fun v => Arith.mul v v))

/-- `embed`: the counts, scaled to the length one. -/
def embed (text : String) : List F :=
  let vec := featureCounts text
  let norm := norm vec
  if Arith.partialCmp norm Arith.zero = some .gt then vec.map (Arith.div · norm) else vec

/-- `cosine_similarity`. -/
def cosineSimilarity (a b : List F) : F :=
  let dot := sum (List.zipWith Arith.mul a b)
  let na := norm a
  let nb := norm b
  if Arith.partialCmp na Arith.zero = some .eq ∨ Arith.partialCmp nb Arith.zero = some .eq then
    Arith.zero
  else Arith.div dot (Arith.mul na nb)

/-! ### Ranking chunks -/

/-- A chunk with its score. -/
structure RetrievedChunk (F : Type) where
  chunk : ContextChunk
  score : F

/-- The scores of an indexed corpus. -/
def scored (q : List F) (indexed : List (ContextChunk × List F)) : List (RetrievedChunk F) :=
  indexed.map fun p => ⟨p.1, cosineSimilarity q p.2⟩

/-- `rank_chunks`. -/
def rankChunks (query : String) (indexed : List (ContextChunk × List F)) (k : Nat) :
    List (RetrievedChunk F) :=
  (sortBy (byScore RetrievedChunk.score) (scored (embed query) indexed)).take (max k 1)

/-- `rank_raw`: the same, each chunk embedded on the way. -/
def rankRaw (query : String) (candidates : List ContextChunk) (k : Nat) :
    List (RetrievedChunk F) :=
  let q := embed query
  let scored := candidates.map fun c => ⟨c, cosineSimilarity q (embed c.content)⟩
  (sortBy (byScore RetrievedChunk.score) scored).take (max k 1)

/-- An index of chunks with their embeddings. -/
structure InMemoryRetriever (F : Type) where
  indexed : List (ContextChunk × List F)

namespace InMemoryRetriever

/-- Embed a corpus. -/
def build (corpus : List ContextChunk) : InMemoryRetriever F :=
  ⟨corpus.map fun c => (c, embed c.content)⟩

/-- Add a chunk. -/
def add (self : InMemoryRetriever F) (chunk : ContextChunk) : InMemoryRetriever F :=
  ⟨self.indexed ++ [(chunk, embed chunk.content)]⟩

def retrieve (self : InMemoryRetriever F) (query : String) (k : Nat) : List (RetrievedChunk F) :=
  rankChunks query self.indexed k

end InMemoryRetriever

/-- A neighbour in the code graph as a chunk, supplementary context without a score. -/
def neighbour (r : Ckg.RelatedSymbol) : RetrievedChunk F where
  chunk := .new .symbol r.file
    -- a relation is printed by its name, which is its stable form too
    s!"{r.symbol.kind.asStr} {r.symbol.name} (relation: {r.relation.asStr}, line {r.symbol.line})"
    .medium
  score := Arith.zero

/-- `retrieve_with_ckg`; a code graph is the way it answers. -/
def retrieveWithCkg (query : String) (corpus : List ContextChunk) (k : Nat)
    (ckg : String → List Ckg.RelatedSymbol) : List (RetrievedChunk F) :=
  (ckg query).foldl (fun top r => top ++ [neighbour r]) (rankRaw query corpus k)

/-! ### Ranking completions -/

/-- A candidate of a backend. -/
structure Candidate (F : Type) where
  text : String
  confidence : F

/-- What is shown of it. -/
structure CompletionItem (F : Type) where
  text : String
  score : F

/-- `rank_completions`. -/
def rankCompletions (candidates : List (Candidate F)) (limit : Nat) : List (CompletionItem F) :=
  ((sortBy (byScore Candidate.confidence) candidates).take (max limit 1)).map fun c =>
    ⟨c.text, c.confidence⟩

/-! ### The index -/

theorem foldl_add (corpus added : List ContextChunk) :
    added.foldl InMemoryRetriever.add (.build corpus : InMemoryRetriever F) =
      .build (corpus ++ added) := by
  induction added generalizing corpus with
  | nil => rw [List.append_nil, List.foldl_nil]
  | cons chunk added ih =>
      have hadd : (InMemoryRetriever.build corpus : InMemoryRetriever F).add chunk =
          .build (corpus ++ [chunk]) := by
        rw [InMemoryRetriever.add, InMemoryRetriever.build, InMemoryRetriever.build,
          List.map_append]
        rfl
      rw [List.foldl_cons, hadd, ih, List.append_assoc]
      rfl

/-- **The index ranks like a fresh computation** over what was in the corpus and
what was added since: the same chunks, the same scores, the same order.  The
embedding of a chunk is computed once, when it comes in, and depends on its content
alone. -/
theorem retrieve_foldl_add (corpus added : List ContextChunk) (query : String) (k : Nat) :
    (added.foldl InMemoryRetriever.add
        (.build corpus : InMemoryRetriever F)).retrieve query k =
      rankRaw query (corpus ++ added) k := by
  rw [foldl_add, InMemoryRetriever.retrieve, InMemoryRetriever.build, rankChunks, scored,
    List.map_map]
  rfl

/-! ### The first items -/

/-- Some scores are ordered: comparing two of them is comparing their values.
Floats are, unless one of them is no number. -/
def OrderedBy {L : Type} [LinearOrder L] (value : F → L) (scores : List F) : Prop :=
  ∀ x ∈ scores, ∀ y ∈ scores, Arith.partialCmp x y = some (compare (value x) (value y))

/-- A ranking by scores that are ordered gives the first items. -/
theorem topK_sortBy {α L : Type} [LinearOrder L] {value : F → L} {score : α → F} {l : List α}
    (h : OrderedBy value (l.map score)) (k : Nat) :
    TopK (value ∘ score) k l ((sortBy (byScore score) l).take k) := by
  refine topK_take_mergeSort (fun a ha b hb => ?_) k
  have hcmp := h (score b) (List.mem_map_of_mem hb) (score a) (List.mem_map_of_mem ha)
  rw [byScore, hcmp, Option.getD_some, Bool.eq_iff_iff, decide_eq_true_iff,
    Ordering.isLE_iff_ne_gt]
  exact compare_le_iff_le

/-- **Both rankings give the first items**: as many as asked for, and one at least, in the
order of their scores and then of their places, before everything that is left over. -/
theorem topK_rankings {L : Type} [LinearOrder L] (value : F → L) :
    (∀ (query : String) (indexed : List (ContextChunk × List F)) (k : Nat),
      OrderedBy value ((scored (embed query) indexed).map RetrievedChunk.score) →
        TopK (value ∘ RetrievedChunk.score) (max 1 k) (scored (embed query) indexed)
          (rankChunks query indexed k)) ∧
      ∀ (candidates : List (Candidate F)) (limit : Nat),
        OrderedBy value (candidates.map Candidate.confidence) →
          TopK (value ∘ CompletionItem.score) (max 1 limit)
            (candidates.map fun c => ⟨c.text, c.confidence⟩)
            (rankCompletions candidates limit) := by
  constructor
  · intro query indexed k h
    rw [max_comm]
    exact topK_sortBy h (max k 1)
  · intro candidates limit h
    rw [max_comm]
    exact TopK.map (topK_sortBy h (max limit 1))

/-- Exact numbers are ordered. -/
theorem orderedBy_real (scores : List ℝ) : OrderedBy id scores := fun _ _ _ _ => rfl

theorem topK_rankings_real :
    TopK (id ∘ RetrievedChunk.score) (max 1 2)
        (scored (embed "fn") [(.new .symbol "a.rs" "fn a" .low, (embed "fn a" : List ℝ))])
        (rankChunks "fn" [(.new .symbol "a.rs" "fn a" .low, (embed "fn a" : List ℝ))] 2) ∧
      TopK (id ∘ CompletionItem.score) (max 1 0)
        ([⟨"a", 0⟩, ⟨"b", 0⟩].map fun c : Candidate ℝ => ⟨c.text, c.confidence⟩)
        (rankCompletions [⟨"a", 0⟩, ⟨"b", 0⟩] 0) :=
  ⟨(topK_rankings id).1 "fn" _ 2 (orderedBy_real _),
    (topK_rankings id).2 [⟨"a", 0⟩, ⟨"b", 0⟩] 0 (orderedBy_real _)⟩

end Retrieval

/-- Candidates with exact scores are ranked the same way. -/
theorem topK_rankCompletions (candidates : List Completion) (limit : Nat) :
    TopK Completion.score (max limit 1) candidates (rankCompletions candidates limit) :=
  topK_take_mergeSort (fun _ _ _ _ => rfl) (max limit 1)

end AgenticIde
