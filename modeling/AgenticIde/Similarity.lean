/-
AgenticIde/Similarity.lean

Similarity in exact numbers: what the scores of `retrieval.rs` can be.

The features of a text are counts, so no entry of its embedding is negative, and neither is
the product of two of them; by Cauchy and Schwarz the product is at most that of the lengths.
Scores are therefore between zero and one (`cosine_mem`), and what has no score, the
neighbours in the code graph, fits in behind everything that has one (`similarity_bounds`).

The numbers are reals, with a square root for the length of an embedding; the source has
floats in their place, and rounding may carry a score a little beyond its bounds.  An
embedding of a text without features has the length zero, and then the source gives the score
zero instead of dividing.

A merged list has the ranked chunks first and the neighbours behind them, with the score
zero.  No chunk has less than that, so the whole list is sorted by its scores, which is what
the callers take for granted.
-/
import AgenticIde.Retrieval
import Mathlib.Algebra.Order.BigOperators.Ring.Finset

namespace AgenticIde

namespace Retrieval

/-! ### Products -/

/-- The product of two vectors. -/
noncomputable def dot (a b : List ℝ) : ℝ := sum (List.zipWith Arith.mul a b)

theorem sum_eq (xs : List ℝ) : sum xs = xs.sum := by
  rw [List.sum_eq_foldl]
  rfl

/-- The product as a sum over the places. -/
theorem dot_eq_sum {a b : List ℝ} (h : a.length = b.length) :
    dot a b = ∑ i ∈ Finset.range a.length, a.getD i 0 * b.getD i 0 := by
  rw [dot, sum_eq]
  induction a generalizing b with
  | nil => simp
  | cons x a ih =>
      rcases b with - | ⟨y, b⟩
      · cases h
      · rw [List.zipWith_cons_cons, List.sum_cons, ih (Nat.succ_inj.mp h), List.length_cons,
          Finset.sum_range_succ', add_comm]
        rfl

theorem norm_eq (a : List ℝ) : norm a = √(dot a a) := by
  rw [norm, dot, List.zipWith_self]
  rfl

theorem dot_self_nonneg (a : List ℝ) : 0 ≤ dot a a := by
  rw [dot_eq_sum rfl]
  exact Finset.sum_nonneg fun i _ => mul_self_nonneg _

/-- **Cauchy and Schwarz**, for vectors of one length; the program's have all the
same. -/
theorem sq_dot_le {a b : List ℝ} (h : a.length = b.length) :
    dot a b ^ 2 ≤ dot a a * dot b b := by
  have hcs := Finset.sum_mul_sq_le_sq_mul_sq (Finset.range a.length) (a.getD · 0) (b.getD · 0)
  rw [dot_eq_sum h, dot_eq_sum rfl, dot_eq_sum (rfl : b.length = b.length), ← h]
  simpa only [sq] using hcs

theorem dot_nonneg {a b : List ℝ} (ha : ∀ x ∈ a, 0 ≤ x) (hb : ∀ y ∈ b, 0 ≤ y) :
    0 ≤ dot a b := by
  rw [dot, sum_eq]
  refine List.sum_nonneg fun z hz => ?_
  rw [← List.map_uncurry_zip_eq_zipWith] at hz
  obtain ⟨⟨x, y⟩, hxy, rfl⟩ := List.mem_map.mp hz
  obtain ⟨hx, hy⟩ := List.of_mem_zip hxy
  exact mul_nonneg (ha x hx) (hb y hy)

theorem dot_self_pos {a : List ℝ} (ha : 0 < a.sum) : 0 < dot a a := by
  obtain ⟨x, hx, hpos⟩ : ∃ x ∈ a, 0 < x := by
    refine List.exists_lt_of_sum_lt (fun _ => 0) id ?_
    simpa using ha
  rw [dot, List.zipWith_self, sum_eq]
  have hle : x * x ≤ (a.map fun x => x * x).sum := by
    refine List.single_le_sum (fun z hz => ?_) _ (List.mem_map_of_mem hx)
    obtain ⟨y, -, rfl⟩ := List.mem_map.mp hz
    exact mul_self_nonneg y
  exact lt_of_lt_of_le (mul_pos hpos hpos) hle

/-! ### Counts -/

theorem sum_modify {vec : List ℝ} {i : Nat} (hi : i < vec.length) :
    (vec.modify i (Arith.add · Arith.one)).sum = vec.sum + 1 := by
  induction vec generalizing i with
  | nil => exact absurd hi (Nat.not_lt_zero i)
  | cons x vec ih =>
      rcases i with - | i
      · rw [List.modify_zero_cons, List.sum_cons, List.sum_cons]
        exact add_right_comm x 1 vec.sum
      · rw [List.modify_succ_cons, List.sum_cons, List.sum_cons, ih (Nat.lt_of_succ_lt_succ hi),
          add_assoc]

/-- A vector of counts: a place for each feature, and none negative.  Embeddings are
such vectors too, since scaling keeps the signs. -/
structure Counts (vec : List ℝ) : Prop where
  length : vec.length = embedDim
  nonneg : ∀ v ∈ vec, 0 ≤ v

/-- Counting one more. -/
theorem Counts.modify {vec : List ℝ} (h : Counts vec) (i : Nat) :
    Counts (vec.modify i (Arith.add · Arith.one)) where
  length := by rw [List.length_modify, h.length]
  nonneg := by
    intro v hv
    obtain ⟨j, hj, rfl⟩ := List.getElem_of_mem hv
    have hj' : j < vec.length := by simpa using hj
    have hold : 0 ≤ vec[j] := h.nonneg _ (List.getElem_mem hj')
    rw [List.getElem_modify]
    split
    · exact add_nonneg hold zero_le_one
    · exact hold

/-- Counting some characters: each one counts once. -/
theorem counts_foldl (ps : List (Char × Nat)) {vec : List ℝ} (h : Counts vec) :
    let counted := ps.foldl
      (fun vec p => vec.modify (featureIndex p.1 p.2) fun v => Arith.add v Arith.one) vec
    Counts counted ∧ counted.sum = vec.sum + ps.length := by
  induction ps generalizing vec with
  | nil =>
      refine ⟨h, ?_⟩
      rw [List.foldl_nil, List.length_nil, Nat.cast_zero, add_zero]
  | cons p ps ih =>
      -- a feature is a place of the vector
      have hi : featureIndex p.1 p.2 < vec.length := by
        rw [h.length]
        exact Nat.mod_lt _ (by decide)
      obtain ⟨hcounts, hsum⟩ := ih (h.modify (featureIndex p.1 p.2))
      refine ⟨hcounts, ?_⟩
      rw [List.foldl_cons, hsum, sum_modify hi, List.length_cons, Nat.cast_succ, add_assoc,
        add_comm (1 : ℝ)]

theorem counts_zero : Counts (List.replicate embedDim Arith.zero) where
  length := List.length_replicate
  nonneg := fun _ hv => le_of_eq (List.eq_of_mem_replicate hv).symm

theorem counts_featureCounts (text : String) : Counts (featureCounts text) :=
  (counts_foldl text.toList.zipIdx counts_zero).1

/-- All features together are as many as the characters. -/
theorem sum_featureCounts (text : String) :
    (featureCounts text : List ℝ).sum = text.toList.length := by
  have hzero : (List.replicate embedDim Arith.zero : List ℝ).sum = 0 := by
    rw [List.sum_replicate]
    exact smul_zero embedDim
  rw [featureCounts, (counts_foldl text.toList.zipIdx counts_zero).2, hzero, zero_add,
    List.length_zipIdx]

/-! ### Embeddings -/

theorem partialCmp_gt {a b : ℝ} : Arith.partialCmp a b = some .gt ↔ b < a :=
  Option.some_inj.trans compare_gt_iff_gt

theorem partialCmp_eq {a b : ℝ} : Arith.partialCmp a b = some .eq ↔ a = b :=
  Option.some_inj.trans compare_eq_iff_eq

theorem embed_eq (text : String) :
    (embed text : List ℝ) =
      if 0 < norm (featureCounts text : List ℝ) then
        (featureCounts text).map (· / norm (featureCounts text))
      else featureCounts text :=
  if_congr partialCmp_gt rfl rfl

/-- Scaling keeps the places and the signs. -/
theorem counts_embed (text : String) : Counts (embed text) := by
  have hcounts := counts_featureCounts text
  rw [embed_eq]
  split
  · next hpos =>
      constructor
      · rw [List.length_map, hcounts.length]
      · intro v hv
        obtain ⟨w, hw, rfl⟩ := List.mem_map.mp hv
        exact div_nonneg (hcounts.nonneg w hw) hpos.le
  · exact hcounts

theorem sq_norm (a : List ℝ) : norm a ^ 2 = dot a a := by
  rw [norm_eq, Real.sq_sqrt (dot_self_nonneg a)]

theorem norm_pos_iff {a : List ℝ} : 0 < norm a ↔ 0 < dot a a := by
  rw [norm_eq, Real.sqrt_pos]

/-- The embedding of a text with characters is not zero. -/
theorem norm_embed_pos {text : String} (h : text ≠ "") : 0 < norm (embed text : List ℝ) := by
  have hsum : 0 < (featureCounts text : List ℝ).sum := by
    rw [sum_featureCounts, Nat.cast_pos, List.length_pos_iff]
    exact fun hnil => h (String.toList_eq_nil_iff.mp hnil)
  have hpos := norm_pos_iff.mpr (dot_self_pos hsum)
  -- scaled, the counts still have a positive sum
  rw [embed_eq, if_pos hpos, norm_pos_iff]
  refine dot_self_pos ?_
  simp only [div_eq_mul_inv]
  rw [List.sum_map_mul_right, List.map_id']
  exact mul_pos hsum (inv_pos.mpr hpos)

/-- That of the empty text is. -/
theorem norm_embed_empty : norm (embed "" : List ℝ) = 0 := by
  have hcounts : (featureCounts "" : List ℝ) = List.replicate embedDim 0 := rfl
  have hdot : dot (List.replicate embedDim 0) (List.replicate embedDim 0) = 0 := by
    rw [dot, List.zipWith_self, List.map_replicate, sum_eq, List.sum_replicate]
    show embedDim • ((0 : ℝ) * 0) = 0
    rw [mul_zero, smul_zero]
  have hnorm : norm (List.replicate embedDim 0 : List ℝ) = 0 := by
    rw [norm_eq, hdot, Real.sqrt_zero]
  rw [embed_eq, hcounts, hnorm, if_neg (lt_irrefl 0), hnorm]

/-! ### Scores -/

theorem cosineSimilarity_eq (a b : List ℝ) :
    cosineSimilarity a b = if norm a = 0 ∨ norm b = 0 then 0 else dot a b / (norm a * norm b) :=
  if_congr (or_congr partialCmp_eq partialCmp_eq) rfl rfl

theorem norm_nonneg (a : List ℝ) : 0 ≤ norm a := by
  rw [norm_eq]
  exact Real.sqrt_nonneg _

theorem dot_le_norm {a b : List ℝ} (h : a.length = b.length) : dot a b ≤ norm a * norm b := by
  rw [norm_eq, norm_eq, ← Real.sqrt_mul (dot_self_nonneg a)]
  exact Real.le_sqrt_of_sq_le (sq_dot_le h)

/-- A score of counts is between zero and one. -/
theorem cosine_mem {a b : List ℝ} (ha : Counts a) (hb : Counts b) :
    cosineSimilarity a b ∈ Set.Icc 0 1 := by
  rw [cosineSimilarity_eq]
  split
  · exact ⟨le_rfl, zero_le_one⟩
  · next hne =>
      rw [not_or] at hne
      have hna := lt_of_le_of_ne (norm_nonneg a) (Ne.symm hne.1)
      have hnb := lt_of_le_of_ne (norm_nonneg b) (Ne.symm hne.2)
      have hpos := mul_pos hna hnb
      refine ⟨div_nonneg (dot_nonneg ha.nonneg hb.nonneg) hpos.le, ?_⟩
      rw [div_le_one hpos]
      exact dot_le_norm (ha.length.trans hb.length.symm)

theorem cosine_self {a : List ℝ} (h : 0 < norm a) : cosineSimilarity a a = 1 := by
  have hdot : dot a a = norm a * norm a := by
    rw [norm_eq, Real.mul_self_sqrt (dot_self_nonneg a)]
  rw [cosineSimilarity_eq, if_neg (by simpa using h.ne'), hdot, div_self (mul_pos h h).ne']

/-! ### The ranking -/

/-- No hit has a negative score. -/
theorem score_nonneg {query : String} {corpus : List ContextChunk} {k : Nat}
    {r : RetrievedChunk ℝ} (hr : r ∈ rankRaw query corpus k) : 0 ≤ r.score := by
  have hmem := List.mem_mergeSort.mp (List.mem_of_mem_take hr)
  obtain ⟨c, -, rfl⟩ := List.mem_map.mp hmem
  exact (cosine_mem (counts_embed query) (counts_embed c.content)).1

theorem pairwise_rankRaw (query : String) (corpus : List ContextChunk) (k : Nat) :
    (rankRaw query corpus k).Pairwise fun a b : RetrievedChunk ℝ => b.score ≤ a.score := by
  obtain ⟨ranked, -, -, hranked, -, hordered, -⟩ := topK_sortBy
    (orderedBy_real ((corpus.map fun c =>
      (⟨c, cosineSimilarity (embed query) (embed c.content)⟩ : RetrievedChunk ℝ)).map
        RetrievedChunk.score)) (max k 1)
  rw [rankRaw, hranked, List.pairwise_map]
  exact hordered.imp fun h => h.elim le_of_lt fun h => h.1.ge

theorem retrieveWithCkg_eq (query : String) (corpus : List ContextChunk) (k : Nat)
    (ckg : String → List Ckg.RelatedSymbol) :
    (retrieveWithCkg query corpus k ckg : List (RetrievedChunk ℝ)) =
      rankRaw query corpus k ++ (ckg query).map neighbour := by
  rw [retrieveWithCkg]
  induction ckg query using List.reverseRecOn with
  | nil => rw [List.foldl_nil, List.map_nil, List.append_nil]
  | append_singleton related r ih =>
      rw [List.foldl_append, ih, List.map_append, ← List.append_assoc]
      rfl

/-- **Similarity bounds.**  The product of two embeddings is not negative, and by Cauchy and
Schwarz its square is at most the product of the squared lengths.  So a score is between zero
and one, zero where a text is empty, one for a text with itself; and what is retrieved is
ordered by score all through, the neighbours in the code graph at the end. -/
theorem similarity_bounds :
    (∀ s t : String,
      0 ≤ dot (embed s) (embed t) ∧
      dot (embed s) (embed t) ^ 2 ≤ norm (embed s) ^ 2 * norm (embed t) ^ 2 ∧
      cosineSimilarity (embed s) (embed t) ∈ Set.Icc (0 : ℝ) 1 ∧
      (s = "" ∨ t = "" → cosineSimilarity (embed s) (embed t) = (0 : ℝ)) ∧
      (s = t → s ≠ "" → cosineSimilarity (embed s) (embed t) = (1 : ℝ))) ∧
    ∀ (query : String) (corpus : List ContextChunk) (k : Nat)
      (ckg : String → List Ckg.RelatedSymbol),
      retrieveWithCkg query corpus k ckg =
          (rankRaw query corpus k ++ (ckg query).map neighbour : List (RetrievedChunk ℝ)) ∧
        (retrieveWithCkg query corpus k ckg).Pairwise
          fun a b : RetrievedChunk ℝ => b.score ≤ a.score := by
  constructor
  · intro s t
    have hs := counts_embed s
    have ht := counts_embed t
    refine ⟨dot_nonneg hs.nonneg ht.nonneg, ?_, cosine_mem hs ht, ?_, ?_⟩
    · rw [sq_norm, sq_norm]
      exact sq_dot_le (hs.length.trans ht.length.symm)
    · rintro (rfl | rfl)
      · rw [cosineSimilarity_eq, if_pos (.inl norm_embed_empty)]
      · rw [cosineSimilarity_eq, if_pos (.inr norm_embed_empty)]
    · rintro rfl hne
      exact cosine_self (norm_embed_pos hne)
  · intro query corpus k ckg
    refine ⟨retrieveWithCkg_eq query corpus k ckg, ?_⟩
    rw [retrieveWithCkg_eq, List.pairwise_append, List.pairwise_map]
    refine ⟨pairwise_rankRaw query corpus k, List.pairwise_of_forall fun _ _ => le_rfl, ?_⟩
    intro a ha b hb
    -- a neighbour has the score zero
    obtain ⟨r, -, rfl⟩ := List.mem_map.mp hb
    exact score_nonneg ha

theorem similarity_bounds_fn :
    cosineSimilarity (embed "fn") (embed "") = (0 : ℝ) ∧
      cosineSimilarity (embed "fn") (embed "fn") = (1 : ℝ) :=
  ⟨(similarity_bounds.1 "fn" "").2.2.2.1 (.inr rfl),
    (similarity_bounds.1 "fn" "fn").2.2.2.2 rfl (by decide)⟩

end Retrieval

end AgenticIde
