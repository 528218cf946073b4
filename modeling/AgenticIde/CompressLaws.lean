/-
AgenticIde/CompressLaws.lean

Compression of ASCII chunks: what is left of a content (`keptText`), when contents stay
distinct, and when nothing grows.

Duplicates are removed before contents are cut, so different contents may be cut to the same
text (`recompress_iff`).  The marker comes on top of the cap, so a content that is over the
cap by less than the marker grows (`neverGrows_iff`).

In ASCII a character is a byte, so no cut is inside of one, compression always completes,
and what it makes can be written down: `compressed` removes the duplicates and keeps the
text of each content.  `keptText` is one to one but where two contents are both over the cap
and begin alike, and that is the condition of `recompress_iff`.

What was cut is over the cap again, by the marker; cutting it once more gives the same text,
since the cap's worth of it is what was kept before (`truncate_shortened`).  That is why a
second compression can only remove duplicates which the first has made.

Sizes are compared chunk by chunk.  An estimate is a function of the size, so it does not
grow where the content does not, as long as it was made by `ContextChunk.new`.
-/
import AgenticIde.ContextCompress
import AgenticIde.ContextTrim

namespace AgenticIde

/-- What is left of an ASCII content. -/
def keptText (s : String) : String :=
  if contentCap < s.utf8ByteSize then
    String.ofList (s.toList.take contentCap) ++ truncationMarker
  else s

/-- A chunk with what is left of its content. -/
def ContextChunk.shortened (c : ContextChunk) : ContextChunk :=
  if contentCap < c.content.utf8ByteSize then
    { c with content := keptText c.content, tokenEst := estimateTokens (keptText c.content) }
  else c

/-! ### One content -/

section

variable {s t : String}

theorem keptText_of_le (h : s.utf8ByteSize ≤ contentCap) : keptText s = s :=
  if_neg (Nat.not_lt.mpr h)

theorem keptText_of_lt (h : contentCap < s.utf8ByteSize) :
    keptText s = String.ofList (s.toList.take contentCap) ++ truncationMarker := if_pos h

/-- The head of an oversized content has the size of the cap. -/
theorem utf8ByteSize_head (hs : Str.IsAscii s) (h : contentCap < s.utf8ByteSize) :
    (String.ofList (s.toList.take contentCap)).utf8ByteSize = contentCap := by
  rw [Str.utf8ByteSize_eq_byteLen, String.toList_ofList,
    Str.byteLen_of_ascii fun c hc => hs c (List.mem_of_mem_take hc), List.length_take]
  exact Nat.min_eq_left (hs.utf8ByteSize ▸ Nat.le_of_lt h)

/-- A content that was cut is over the cap by the size of the marker. -/
theorem utf8ByteSize_keptText (hs : Str.IsAscii s) (h : contentCap < s.utf8ByteSize) :
    (keptText s).utf8ByteSize = contentCap + 14 := by
  rw [keptText_of_lt h, String.utf8ByteSize_append, utf8ByteSize_head hs h]
  rfl

/-- **Two contents are cut to the same text** where they are the same, or both are
oversized and begin alike.  A content that is not cut cannot be the text of one that
is, since that one is longer than the cap by its marker. -/
theorem keptText_inj_iff (hs : Str.IsAscii s) (ht : Str.IsAscii t) :
    keptText s = keptText t ↔
      s = t ∨ contentCap < s.utf8ByteSize ∧ contentCap < t.utf8ByteSize ∧
        s.toList.take contentCap = t.toList.take contentCap := by
  constructor
  · intro h
    -- By which of the two are over the cap. A text that was cut is longer than the cap, so
    -- it is none that was not.
    rcases Nat.lt_or_ge contentCap s.utf8ByteSize with hlarge | hsmall
    · rcases Nat.lt_or_ge contentCap t.utf8ByteSize with hlarge' | hsmall'
      · rw [keptText_of_lt hlarge, keptText_of_lt hlarge'] at h
        have hchars := congrArg String.toList h
        rw [String.toList_append, String.toList_append] at hchars
        have hhead := List.append_cancel_right hchars
        rw [String.toList_ofList, String.toList_ofList] at hhead
        exact .inr ⟨hlarge, hlarge', hhead⟩
      · have hsize := congrArg String.utf8ByteSize h
        rw [utf8ByteSize_keptText hs hlarge, keptText_of_le hsmall'] at hsize
        omega
    · rcases Nat.lt_or_ge contentCap t.utf8ByteSize with hlarge' | hsmall'
      · have hsize := congrArg String.utf8ByteSize h
        rw [utf8ByteSize_keptText ht hlarge', keptText_of_le hsmall] at hsize
        omega
      · rw [keptText_of_le hsmall, keptText_of_le hsmall'] at h
        exact .inl h
  · rintro (rfl | ⟨hlarge, hlarge', hhead⟩)
    · rfl
    · rw [keptText_of_lt hlarge, keptText_of_lt hlarge', hhead]

end

/-! ### One chunk -/

section

variable {c : ContextChunk}

theorem ContextChunk.shortened_content (c : ContextChunk) :
    c.shortened.content = keptText c.content := by
  unfold ContextChunk.shortened
  split
  case isTrue => rfl
  case isFalse hsmall => exact (keptText_of_le (Nat.not_lt.mp hsmall)).symm

theorem ContextChunk.shortened_of_le (h : c.content.utf8ByteSize ≤ contentCap) :
    c.shortened = c := if_neg (Nat.not_lt.mpr h)

theorem ContextChunk.shortened_tokenEst (h : contentCap < c.content.utf8ByteSize) :
    c.shortened.tokenEst = estimateTokens (keptText c.content) := by
  rw [ContextChunk.shortened, if_pos h]

/-- The content is over the cap by less than the marker, so that cutting it and
adding the marker makes it longer. -/
def ContextChunk.JustOver (c : ContextChunk) : Prop :=
  contentCap < c.content.utf8ByteSize ∧
    c.content.utf8ByteSize < contentCap + truncationMarker.utf8ByteSize

/-- Such a content grows, and no other does. -/
theorem ContextChunk.shortened_content_le_iff (h : Str.IsAscii c.content) :
    c.shortened.content.utf8ByteSize ≤ c.content.utf8ByteSize ↔ ¬ c.JustOver := by
  have hmarker : truncationMarker.utf8ByteSize = 14 := rfl
  rw [ContextChunk.JustOver, c.shortened_content, hmarker]
  rcases Nat.lt_or_ge contentCap c.content.utf8ByteSize with hlarge | hsmall
  · rw [utf8ByteSize_keptText h hlarge]
    omega
  · rw [keptText_of_le hsmall]
    omega

theorem estimateTokens_mono {s t : String} (h : s.utf8ByteSize ≤ t.utf8ByteSize) :
    estimateTokens s ≤ estimateTokens t :=
  Nat.div_le_div_right (Nat.add_le_add_right h 3)

/-- An estimate grows with the content only. -/
theorem ContextChunk.shortened_tokenEst_le (hnew : c = .new c.source c.uri c.content c.priority)
    (h : c.shortened.content.utf8ByteSize ≤ c.content.utf8ByteSize) :
    c.shortened.tokenEst ≤ c.tokenEst := by
  have hest : c.tokenEst = estimateTokens c.content := congrArg ContextChunk.tokenEst hnew
  rcases Nat.lt_or_ge contentCap c.content.utf8ByteSize with hlarge | hsmall
  · rw [ContextChunk.shortened_tokenEst hlarge, hest]
    exact estimateTokens_mono (c.shortened_content ▸ h)
  · rw [ContextChunk.shortened_of_le hsmall]

/-- Truncating an ASCII chunk never fails. -/
theorem truncate_of_ascii (h : Str.IsAscii c.content) : c.truncate = some c.shortened := by
  unfold ContextChunk.truncate ContextChunk.shortened
  split
  case isTrue hlarge =>
    rw [h.sliceTo (Nat.le_of_lt hlarge), keptText_of_lt hlarge]
    rfl
  case isFalse => rfl

/-- What was cut is cut to itself. -/
theorem truncate_shortened (h : Str.IsAscii c.content) :
    c.shortened.truncate = some c.shortened := by
  rcases Nat.lt_or_ge contentCap c.content.utf8ByteSize with hlarge | hsmall
  · have hover : contentCap < c.shortened.content.utf8ByteSize := by
      rw [c.shortened_content, utf8ByteSize_keptText h hlarge]
      omega
    -- Its first bytes are those that were kept, so it is cut in the same place.
    have hslice : Str.sliceTo contentCap c.shortened.content =
        some (String.ofList (c.content.toList.take contentCap)) := by
      rw [c.shortened_content, keptText_of_lt hlarge, Str.sliceTo_eq_some_iff]
      refine ⟨truncationMarker.toList, String.toList_append, ?_⟩
      rw [← Str.utf8ByteSize_eq_byteLen]
      exact utf8ByteSize_head h hlarge
    have htext : String.ofList (c.content.toList.take contentCap) ++ truncationMarker =
        keptText c.content := (keptText_of_lt hlarge).symm
    rw [ContextChunk.truncate, if_pos hover, hslice]
    show some { c.shortened with
      content := String.ofList (c.content.toList.take contentCap) ++ truncationMarker
      tokenEst := estimateTokens
        (String.ofList (c.content.toList.take contentCap) ++ truncationMarker) } = _
    rw [htext, ContextChunk.shortened, if_pos hlarge]
  · rw [ContextChunk.shortened_of_le hsmall]
    exact if_neg (Nat.not_lt.mpr hsmall)

end

/-! ### Removing duplicates -/

/-- What is kept has no duplicates, and nothing that was seen. -/
theorem nodup_retainNew (seen : List String) (chunks : List ContextChunk) :
    ((retainNew seen chunks).map (·.content)).Nodup ∧
      ∀ c ∈ retainNew seen chunks, c.content ∉ seen := by
  -- By induction on the chunks; what was seen grows by what is kept.
  induction chunks generalizing seen with
  | nil => exact ⟨List.nodup_nil, fun c hc => by cases hc⟩
  | cons c cs ih =>
      rw [retainNew]
      split
      case isTrue => exact ih seen
      case isFalse hnew =>
        obtain ⟨hnodup, hunseen⟩ := ih (c.content :: seen)
        rw [List.map_cons, List.nodup_cons, List.mem_map]
        refine ⟨⟨?_, hnodup⟩, ?_⟩
        · rintro ⟨d, hd, heq⟩
          exact hunseen d hd (heq ▸ List.mem_cons_self)
        · intro d hd
          rcases List.mem_cons.mp hd with rfl | hd
          · exact hnew
          · exact fun hmem => hunseen d hd (List.mem_cons_of_mem _ hmem)

theorem sublist_retainNew (seen : List String) (chunks : List ContextChunk) :
    (retainNew seen chunks).Sublist chunks := by
  induction chunks generalizing seen with
  | nil => exact List.Sublist.refl _
  | cons c cs ih =>
      rw [retainNew]
      split
      case isTrue => exact (ih seen).cons c
      case isFalse => exact (ih _).cons_cons c

/-- Chunks that differ from each other and from what was seen are all kept. -/
theorem retainNew_of_nodup {seen : List String} {chunks : List ContextChunk}
    (hnodup : (chunks.map (·.content)).Nodup) (hnew : ∀ c ∈ chunks, c.content ∉ seen) :
    retainNew seen chunks = chunks := by
  induction chunks generalizing seen with
  | nil => rfl
  | cons c cs ih =>
      rw [List.map_cons, List.nodup_cons, List.mem_map] at hnodup
      rw [retainNew, if_neg (hnew c List.mem_cons_self), ih hnodup.2]
      intro d hd hmem
      rcases List.mem_cons.mp hmem with heq | hseen
      · exact hnodup.1 ⟨d, hd, heq⟩
      · exact hnew d (List.mem_cons_of_mem _ hd) hseen

theorem retainNew_eq_self_iff (chunks : List ContextChunk) :
    retainNew [] chunks = chunks ↔ (chunks.map (·.content)).Nodup := by
  constructor
  · intro h
    rw [← h]
    exact (nodup_retainNew [] chunks).1
  · exact fun h => retainNew_of_nodup h fun c _ => List.not_mem_nil

namespace ContextManager

variable {ctx : ContextManager}

/-- All contents are ASCII. -/
def IsAscii (ctx : ContextManager) : Prop := ∀ c ∈ ctx.chunks, Str.IsAscii c.content

/-- What compression makes of ASCII chunks. -/
def compressed (ctx : ContextManager) : ContextManager :=
  { ctx with chunks := (retainNew [] ctx.chunks).map ContextChunk.shortened }

theorem IsAscii.of_mem_retainNew (h : ctx.IsAscii) {c : ContextChunk}
    (hc : c ∈ retainNew [] ctx.chunks) : Str.IsAscii c.content :=
  h c (retainNew_subset [] _ hc)

theorem compress_of_ascii (h : ctx.IsAscii) : ctx.compress = some ctx.compressed := by
  have htruncated : (retainNew [] ctx.chunks).mapM ContextChunk.truncate =
      some ((retainNew [] ctx.chunks).map ContextChunk.shortened) := by
    rw [mapM_eq_some_iff, List.forall₂_map_right_iff, List.forall₂_same]
    exact fun c hc => truncate_of_ascii (h.of_mem_retainNew hc)
  rw [compress, htruncated]
  rfl

/-- There is nothing to cut any more. -/
theorem mapM_truncate_compressed (h : ctx.IsAscii) {chunks : List ContextChunk}
    (hchunks : chunks ⊆ ctx.compressed.chunks) :
    chunks.mapM ContextChunk.truncate = some chunks := by
  rw [mapM_eq_some_iff, List.forall₂_same]
  intro c hc
  obtain ⟨d, hd, rfl⟩ := List.mem_map.mp (hchunks hc)
  exact truncate_shortened (h.of_mem_retainNew hd)

/-- A second run removes duplicates only. -/
theorem compress_compressed (h : ctx.IsAscii) :
    ctx.compressed.compress =
      some { ctx.compressed with chunks := retainNew [] ctx.compressed.chunks } := by
  rw [compress, mapM_truncate_compressed h (retainNew_subset [] _)]
  rfl

/-! ### Distinct contents -/

/-- Different contents that are over the cap begin differently, within the cap; so
cutting makes no two of them alike. -/
def HeadsDiffer (ctx : ContextManager) : Prop :=
  ∀ c ∈ ctx.chunks, ∀ d ∈ ctx.chunks,
    contentCap < c.content.utf8ByteSize → contentCap < d.content.utf8ByteSize →
      c.content.toList.take contentCap = d.content.toList.take contentCap → c.content = d.content

/-- The contents that are left are distinct where the oversized ones begin
differently. -/
theorem nodup_compressed_iff (h : ctx.IsAscii) :
    (ctx.compressed.chunks.map (·.content)).Nodup ↔ ctx.HeadsDiffer := by
  have hcontents : ctx.compressed.chunks.map (·.content) =
      ((retainNew [] ctx.chunks).map (·.content)).map keptText := by
    rw [compressed, List.map_map, List.map_map]
    apply List.map_congr_left
    exact fun c _ => c.shortened_content
  rw [hcontents, List.nodup_map_iff_inj_on (nodup_retainNew [] ctx.chunks).1]
  constructor
  · intro hinj c hc d hd hlarge hlarge' hhead
    -- the chunks that were kept have the same contents
    obtain ⟨c', hc', hcontent⟩ := exists_mem_retainNew hc List.not_mem_nil
    obtain ⟨d', hd', hcontent'⟩ := exists_mem_retainNew hd List.not_mem_nil
    rw [← hcontent, ← hcontent']
    apply hinj _ (List.mem_map_of_mem hc') _ (List.mem_map_of_mem hd')
    rw [hcontent, hcontent']
    exact (keptText_inj_iff (h c hc) (h d hd)).mpr (.inr ⟨hlarge, hlarge', hhead⟩)
  · intro hheads s hs t ht heq
    obtain ⟨c, hc, rfl⟩ := List.mem_map.mp hs
    obtain ⟨d, hd, rfl⟩ := List.mem_map.mp ht
    rcases (keptText_inj_iff (h.of_mem_retainNew hc) (h.of_mem_retainNew hd)).mp heq with
      hsame | ⟨hlarge, hlarge', hhead⟩
    · exact hsame
    · exact hheads c (retainNew_subset [] _ hc) d (retainNew_subset [] _ hd) hlarge hlarge' hhead

/-- A second run changes nothing where no duplicates are left. -/
theorem compress_compressed_iff (h : ctx.IsAscii) :
    ctx.compressed.compress = some ctx.compressed ↔
      (ctx.compressed.chunks.map (·.content)).Nodup := by
  rw [compress_compressed h, ← retainNew_eq_self_iff, Option.some_inj]
  exact ⟨fun heq => congrArg ContextManager.chunks heq, fun heq => by rw [heq]⟩

/-- What a second run leaves, a third one leaves as it is. -/
theorem compress_settles (h : ctx.IsAscii) :
    ∃ ctx', ctx.compressed.compress = some ctx' ∧ ctx'.compress = some ctx' := by
  refine ⟨_, compress_compressed h, ?_⟩
  have hretain := (retainNew_eq_self_iff (retainNew [] ctx.compressed.chunks)).mpr
    (nodup_retainNew [] _).1
  rw [compress, hretain, mapM_truncate_compressed h (retainNew_subset [] _)]
  rfl

/-- **Compression of ASCII chunks** completes.  It leaves distinct contents
exactly where different contents over the cap begin differently, and there alone
a second compression changes nothing. -/
theorem recompress_iff (ctx : ContextManager) (h : ctx.IsAscii) :
    ∃ ctx', ctx.compress = some ctx' ∧
      ((ctx'.chunks.map (·.content)).Nodup ↔ ctx.HeadsDiffer) ∧
      (ctx'.compress = some ctx' ↔ ctx.HeadsDiffer) :=
  ⟨ctx.compressed, compress_of_ascii h, nodup_compressed_iff h,
    (compress_compressed_iff h).trans (nodup_compressed_iff h)⟩

/-- A line of 2000 characters, and one more. -/
def longLine (last : Char) : String := String.ofList (List.replicate contentCap 'x' ++ [last])

theorem isAscii_longLine {last : Char} (h : last.toNat < 128) : Str.IsAscii (longLine last) := by
  intro c hc
  rw [longLine, String.toList_ofList] at hc
  rcases List.mem_append.mp hc with hc | hc
  · rw [List.eq_of_mem_replicate hc]
    decide
  · rwa [List.mem_singleton.mp hc]

theorem take_longLine (last : Char) :
    (longLine last).toList.take contentCap = List.replicate contentCap 'x' := by
  rw [longLine, String.toList_ofList, List.take_left' List.length_replicate]

theorem utf8ByteSize_longLine {last : Char} (h : last.toNat < 128) :
    (longLine last).utf8ByteSize = contentCap + 1 := by
  rw [(isAscii_longLine h).utf8ByteSize, longLine, String.toList_ofList, List.length_append,
    List.length_replicate]
  rfl

/-- Two logs that differ in their last character. -/
def twoLogs : ContextManager :=
  ⟨[], 8,
    [.new .openFile "a.log" (longLine 'a') .low, .new .openFile "b.log" (longLine 'b') .low], 4096⟩

theorem isAscii_twoLogs : twoLogs.IsAscii :=
  List.forall_mem_cons.mpr ⟨isAscii_longLine (by decide),
    List.forall_mem_singleton.mpr (isAscii_longLine (by decide))⟩

theorem recompress_iff_twoLogs :
    twoLogs.IsAscii ∧ ∃ ctx', twoLogs.compress = some ctx' ∧
      ((ctx'.chunks.map (·.content)).Nodup ↔ twoLogs.HeadsDiffer) ∧
      (ctx'.compress = some ctx' ↔ twoLogs.HeadsDiffer) :=
  ⟨isAscii_twoLogs, recompress_iff twoLogs isAscii_twoLogs⟩

/-- Compression makes them alike, and a second one removes one of them. -/
theorem twoLogs_recompressed :
    twoLogs.IsAscii ∧ ∃ ctx', twoLogs.compress = some ctx' ∧
      ¬ (ctx'.chunks.map (·.content)).Nodup ∧ ctx'.compress ≠ some ctx' := by
  have hlarge : ∀ last : Char, last.toNat < 128 → contentCap < (longLine last).utf8ByteSize :=
    fun last h => (utf8ByteSize_longLine h).symm ▸ Nat.lt_succ_self _
  have hheads : ¬ twoLogs.HeadsDiffer := by
    intro hdiffer
    have hsame := hdiffer _ List.mem_cons_self _ (List.mem_cons_of_mem _ List.mem_cons_self)
      (hlarge 'a' (by decide)) (hlarge 'b' (by decide))
      ((take_longLine 'a').trans (take_longLine 'b').symm)
    have hchars := List.append_cancel_left (String.ofList_injective hsame)
    exact absurd hchars (by decide)
  have hnodup := mt (nodup_compressed_iff isAscii_twoLogs).mp hheads
  exact ⟨isAscii_twoLogs, twoLogs.compressed, compress_of_ascii isAscii_twoLogs, hnodup,
    mt (compress_compressed_iff isAscii_twoLogs).mp hnodup⟩

/-! ### Sizes -/

/-- Every chunk was built by `ContextChunk.new`, so its estimate is that of its
content. -/
def IsEstimated (ctx : ContextManager) : Prop :=
  ∀ c ∈ ctx.chunks, c = .new c.source c.uri c.content c.priority

/-- What is asked of a compression: no content grows, no estimate does, nor their
total, and a budget that was kept is kept. -/
structure NeverGrows (ctx ctx' : ContextManager) : Prop where
  chunks : List.Forall₂ (fun c c' : ContextChunk =>
    c'.content.utf8ByteSize ≤ c.content.utf8ByteSize ∧ c'.tokenEst ≤ c.tokenEst)
      (retainNew [] ctx.chunks) ctx'.chunks
  total : ctx'.totalTokens ≤ ctx.totalTokens
  budget : ctx.totalTokens ≤ ctx.budgetTokens → ctx'.totalTokens ≤ ctx'.budgetTokens

/-- The machine sums of such totals come out right after it if they do before. -/
theorem NeverGrows.usizeTotal {ctx' : ContextManager} (h : ctx.NeverGrows ctx')
    (checks : OverflowChecks) (hsum : ctx.totalTokens < UInt64.size) :
    ctx'.usizeTotal checks = some ctx'.totalTokens :=
  usizeTotal_of_lt checks (Nat.lt_of_le_of_lt h.total hsum)

/-- Compression grows nothing exactly where no content is over the cap by less than
the marker. -/
theorem neverGrows_compressed_iff (h : ctx.IsAscii) (hnew : ctx.IsEstimated) :
    ctx.NeverGrows ctx.compressed ↔ ∀ c ∈ ctx.chunks, ¬ c.JustOver := by
  constructor
  · intro hgrows c hc hover
    -- A duplicate of the chunk is kept, and has its content.
    obtain ⟨c', hc', hcontent⟩ := exists_mem_retainNew hc List.not_mem_nil
    have hchunks := hgrows.chunks
    rw [compressed, List.forall₂_map_right_iff, List.forall₂_same] at hchunks
    have hover' : c'.JustOver := by
      unfold ContextChunk.JustOver
      rwa [hcontent]
    have hgrown := ContextChunk.shortened_content_le_iff (h.of_mem_retainNew hc')
    exact hgrown.mp (hchunks c' hc').1 hover'
  · intro hover
    have hone : ∀ c ∈ retainNew [] ctx.chunks,
        c.shortened.content.utf8ByteSize ≤ c.content.utf8ByteSize ∧
          c.shortened.tokenEst ≤ c.tokenEst := by
      intro c hc
      have hmem := retainNew_subset [] _ hc
      have hle := (ContextChunk.shortened_content_le_iff (h c hmem)).mpr (hover c hmem)
      exact ⟨hle, ContextChunk.shortened_tokenEst_le (hnew c hmem) hle⟩
    have htotal : ctx.compressed.totalTokens ≤ ctx.totalTokens := by
      -- Each chunk is no larger than it was, and what is kept is part of what there was.
      have hcut : ((retainNew [] ctx.chunks).map fun c => c.shortened.tokenEst).sum ≤
          ((retainNew [] ctx.chunks).map (·.tokenEst)).sum :=
        List.sum_le_sum fun c hc => (hone c hc).2
      have hkept : ((retainNew [] ctx.chunks).map (·.tokenEst)).sum ≤
          (ctx.chunks.map (·.tokenEst)).sum :=
        ((sublist_retainNew [] ctx.chunks).map _).sum_le_sum (by simp)
      rw [totalTokens_eq, totalTokens_eq]
      apply Nat.add_le_add_left
      rw [compressed, List.map_map]
      exact hcut.trans hkept
    refine ⟨?_, htotal, htotal.trans⟩
    rw [compressed, List.forall₂_map_right_iff, List.forall₂_same]
    exact hone

/-- **Compression of ASCII chunks grows nothing** exactly when no content is over
the cap by less than the marker.  Such a content is cut and marked, and comes out
longer than it was; all others come out shorter or as they are. -/
theorem neverGrows_iff (ctx : ContextManager) (h : ctx.IsAscii) (hnew : ctx.IsEstimated) :
    (∃ ctx', ctx.compress = some ctx' ∧ ctx.NeverGrows ctx') ↔
      ∀ c ∈ ctx.chunks, ¬ c.JustOver := by
  rw [← neverGrows_compressed_iff h hnew, compress_of_ascii h]
  constructor
  · rintro ⟨ctx', hcompress, hgrows⟩
    rwa [Option.some.inj hcompress]
  · exact fun hgrows => ⟨_, rfl, hgrows⟩

theorem neverGrows_iff_twoLogs :
    (twoLogs.IsAscii ∧ twoLogs.IsEstimated) ∧
      ((∃ ctx', twoLogs.compress = some ctx' ∧ twoLogs.NeverGrows ctx') ↔
        ∀ c ∈ twoLogs.chunks, ¬ c.JustOver) :=
  have hnew : twoLogs.IsEstimated :=
    List.forall_mem_cons.mpr ⟨rfl, List.forall_mem_singleton.mpr rfl⟩
  ⟨⟨isAscii_twoLogs, hnew⟩, neverGrows_iff twoLogs isAscii_twoLogs hnew⟩

/-- One log, on a budget that 2001 characters just fit. -/
def oneLog (content : String) : ContextManager :=
  ⟨[], 8, [.new .openFile "a.log" content .low], 501⟩

theorem totalTokens_oneLog (content : String) :
    (oneLog content).totalTokens = estimateTokens content := by
  rw [totalTokens_eq]
  simp [oneLog, ContextChunk.new]

theorem totalTokens_compressed_oneLog {content : String}
    (h : contentCap < content.utf8ByteSize) :
    (oneLog content).compressed.totalTokens = estimateTokens (keptText content) := by
  have hchunk : (ContextChunk.new .openFile "a.log" content .low).shortened.tokenEst =
      estimateTokens (keptText content) := ContextChunk.shortened_tokenEst h
  rw [totalTokens_eq, ← hchunk]
  simp [oneLog, compressed, retainNew]

/-- A log of 2001 characters is within the budget until it is compressed. -/
theorem oneLog_grows :
    (oneLog (longLine 'a')).IsAscii ∧ (oneLog (longLine 'a')).IsEstimated ∧
      ∃ ctx', (oneLog (longLine 'a')).compress = some ctx' ∧
      (oneLog (longLine 'a')).totalTokens ≤ (oneLog (longLine 'a')).budgetTokens ∧
      ctx'.budgetTokens < ctx'.totalTokens := by
  have hascii : Str.IsAscii (longLine 'a') := isAscii_longLine (by decide)
  have hsize : (longLine 'a').utf8ByteSize = contentCap + 1 := utf8ByteSize_longLine (by decide)
  have hlarge : contentCap < (longLine 'a').utf8ByteSize := hsize.symm ▸ Nat.lt_succ_self _
  have hascii' : (oneLog (longLine 'a')).IsAscii := List.forall_mem_singleton.mpr hascii
  refine ⟨hascii', List.forall_mem_singleton.mpr rfl, _, compress_of_ascii hascii', ?_, ?_⟩
  · rw [totalTokens_oneLog, estimateTokens, hsize]
    decide
  · rw [totalTokens_compressed_oneLog hlarge, estimateTokens, utf8ByteSize_keptText hascii hlarge]
    decide

end ContextManager

end AgenticIde
