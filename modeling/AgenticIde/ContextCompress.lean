/-
AgenticIde/ContextCompress.lean

Compression of the gathered chunks (`compress` of `context_manager.rs`).

Chunks with the content of an earlier one are removed, and a content over the cap is cut at
the cap.  The cap counts bytes, and cutting inside a character panics, so what decides is
whether a character of a long content straddles it (`compresses_iff`).

`retain` with a set of the contents seen so far keeps the first chunk of each content;
`retainNew` is that loop, with the contents as a list.  A chunk may be removed although its
other fields are those of no other chunk: the path and the priority are not compared.

Cutting is partial here, as slicing is in the source.  A content of ASCII is always cut; one
with longer characters is cut if the byte at the cap begins a character.  What is cut is a
property of a content alone, so compression completes exactly where each content that
survives can be cut, and then every oversized one ends with the marker.
-/
import AgenticIde.Context
import AgenticIde.Lib.Slice
import Mathlib.Data.List.Forall2

namespace AgenticIde

/-- The most bytes of a content that are kept. -/
def contentCap : Nat := 2000

/-- What ends a content that was cut. -/
def truncationMarker : String := "…[truncated]"

/-- `retain` with the contents seen so far. -/
def retainNew (seen : List String) : List ContextChunk → List ContextChunk
  | [] => []
  | c :: cs =>
      if c.content ∈ seen then retainNew seen cs
      else c :: retainNew (c.content :: seen) cs

/-- Truncate an oversized chunk, and re-estimate its tokens. -/
def ContextChunk.truncate (c : ContextChunk) : Option ContextChunk :=
  if contentCap < c.content.utf8ByteSize then
    (Str.sliceTo contentCap c.content).map fun head =>
      let content := s!"{head}…[truncated]"
      { c with content := content, tokenEst := estimateTokens content }
  else some c

namespace ContextManager

/-- Layered compression: remove duplicates, then truncate. -/
def compress (ctx : ContextManager) : Option ContextManager :=
  ((retainNew [] ctx.chunks).mapM ContextChunk.truncate).map fun chunks =>
    { ctx with chunks := chunks }

end ContextManager

/-! ### What is kept -/

theorem retainNew_subset (seen : List String) (chunks : List ContextChunk) :
    retainNew seen chunks ⊆ chunks := by
  induction chunks generalizing seen with
  | nil => exact List.Subset.refl _
  | cons c cs ih =>
      rw [retainNew]
      split
      case isTrue => exact List.subset_cons_of_subset c (ih seen)
      case isFalse => exact List.cons_subset_cons c (ih _)

/-- Every content that was not seen before stays, with one chunk. -/
theorem exists_mem_retainNew {seen : List String} {chunks : List ContextChunk} {c : ContextChunk}
    (hc : c ∈ chunks) (hseen : c.content ∉ seen) :
    ∃ c' ∈ retainNew seen chunks, c'.content = c.content := by
  -- By induction on the chunks: the first with the content is kept, as nothing before it
  -- had it.
  induction chunks generalizing seen with
  | nil => cases hc
  | cons d cs ih =>
      rw [retainNew]
      by_cases hsame : d.content = c.content
      · rw [if_neg (hsame ▸ hseen)]
        exact ⟨d, List.mem_cons_self, hsame⟩
      · have hcs : c ∈ cs := (List.mem_cons.mp hc).resolve_left fun heq => hsame (heq ▸ rfl)
        split
        case isTrue => exact ih hcs hseen
        case isFalse =>
          have hseen' : c.content ∉ d.content :: seen := by
            rw [List.mem_cons, not_or]
            exact ⟨Ne.symm hsame, hseen⟩
          obtain ⟨c', hc', hcontent⟩ := ih hcs hseen'
          exact ⟨c', List.mem_cons_of_mem _ hc', hcontent⟩

theorem mapM_eq_some_iff {α β : Type*} {f : α → Option β} {xs : List α} {ys : List β} :
    xs.mapM f = some ys ↔ List.Forall₂ (fun x y => f x = some y) xs ys := by
  induction xs generalizing ys with
  | nil =>
      rw [List.mapM_nil, List.forall₂_nil_left_iff]
      exact Option.some_inj.trans eq_comm
  | cons x xs ih =>
      rw [List.mapM_cons, List.forall₂_cons_left_iff]
      constructor
      · intro h
        obtain ⟨y, hy, hrest⟩ := Option.bind_eq_some_iff.mp h
        obtain ⟨ys', hys', hcons⟩ := Option.bind_eq_some_iff.mp hrest
        exact ⟨y, ys', hy, ih.mp hys', (Option.some.inj hcons).symm⟩
      · rintro ⟨y, ys', hy, hys', rfl⟩
        rw [hy, ih.mpr hys']
        rfl

theorem mapM_isSome_iff {α β : Type*} {f : α → Option β} {xs : List α} :
    (xs.mapM f).isSome ↔ ∀ x ∈ xs, (f x).isSome := by
  induction xs with
  | nil => exact iff_of_true rfl fun x hx => by cases hx
  | cons x xs ih =>
      rw [List.mapM_cons, List.forall_mem_cons, ← ih]
      cases f x with
      | none => exact iff_of_false (by simp) fun h => by cases h.1
      | some y =>
          cases xs.mapM f with
          | none => exact iff_of_false (by simp) fun h => by cases h.2
          | some ys => exact iff_of_true rfl ⟨rfl, rfl⟩

/-! ### What is cut -/

/-- What is asked of a chunk: it stays as it is, unless it is oversized; then its
content becomes the cap's worth of it, followed by the marker. -/
structure Truncated (c c' : ContextChunk) : Prop where
  others : c'.source = c.source ∧ c'.uri = c.uri ∧ c'.priority = c.priority
  small : c.content.utf8ByteSize ≤ contentCap → c' = c
  large : contentCap < c.content.utf8ByteSize → ∃ head rest : String,
    c.content = head ++ rest ∧ head.utf8ByteSize = contentCap ∧
      c'.content = head ++ truncationMarker ∧ c'.tokenEst = estimateTokens c'.content

theorem truncated_of_truncate {c c' : ContextChunk} (h : c.truncate = some c') :
    Truncated c c' := by
  rw [ContextChunk.truncate] at h
  split at h
  case isTrue hlarge =>
    obtain ⟨head, hhead, rfl⟩ := Option.map_eq_some_iff.mp h
    obtain ⟨rest, hsplit, hlength⟩ := Str.sliceTo_eq_some_iff.mp hhead
    refine ⟨⟨rfl, rfl, rfl⟩, fun hsmall => absurd hlarge (Nat.not_lt.mpr hsmall), fun _ => ?_⟩
    refine ⟨head, String.ofList rest, ?_, ?_, rfl, rfl⟩
    · rw [← String.toList_inj, String.toList_append, String.toList_ofList]
      exact hsplit
    · rw [Str.utf8ByteSize_eq_byteLen]
      exact hlength
  case isFalse hsmall =>
    obtain rfl := Option.some.inj h
    exact ⟨⟨rfl, rfl, rfl⟩, fun _ => rfl, fun hlarge => absurd hlarge hsmall⟩

/-- A chunk can be truncated unless the cut is inside a character. -/
theorem truncate_isSome_iff (c : ContextChunk) :
    c.truncate.isSome ↔
      (contentCap < c.content.utf8ByteSize → Str.IsCharBoundary c.content contentCap) := by
  rw [ContextChunk.truncate]
  split
  case isTrue hlarge =>
    rw [Option.isSome_map, Str.sliceTo_isSome_iff]
    exact ⟨fun h _ => h, fun h => h hlarge⟩
  case isFalse hsmall => exact iff_of_true rfl fun hlarge => absurd hlarge hsmall

namespace ContextManager

/-- Compression completes, and cuts what is oversized as it is to.  Of chunks with
the same content the first one is kept, and the order of those that are kept does
not change. -/
def Compresses (ctx : ContextManager) : Prop :=
  ∃ ctx', ctx.compress = some ctx' ∧ ctx' = { ctx with chunks := ctx'.chunks } ∧
    List.Forall₂ Truncated (retainNew [] ctx.chunks) ctx'.chunks

/-- What a compression returns is compressed as it is to be. -/
theorem compresses_iff_isSome (ctx : ContextManager) : ctx.Compresses ↔ ctx.compress.isSome := by
  rw [Option.isSome_iff_exists]
  constructor
  · rintro ⟨ctx', hcompress, -⟩
    exact ⟨ctx', hcompress⟩
  · rintro ⟨ctx', hcompress⟩
    obtain ⟨chunks, hchunks, rfl⟩ := Option.map_eq_some_iff.mp hcompress
    exact ⟨_, hcompress, rfl, (mapM_eq_some_iff.mp hchunks).imp fun _ _ => truncated_of_truncate⟩

/-- **Compression completes** exactly when no character of an oversized content
straddles the cap.  The content is sliced at a fixed octet, and a slice within a
character panics, in either build. -/
theorem compresses_iff (ctx : ContextManager) :
    ctx.Compresses ↔ ∀ c ∈ ctx.chunks, contentCap < c.content.utf8ByteSize →
      Str.IsCharBoundary c.content contentCap := by
  rw [compresses_iff_isSome, compress, Option.isSome_map, mapM_isSome_iff]
  constructor
  · intro h c hc
    obtain ⟨c', hc', hcontent⟩ := exists_mem_retainNew hc List.not_mem_nil
    rw [← hcontent]
    exact (truncate_isSome_iff c').mp (h c' hc')
  · intro h c hc
    exact (truncate_isSome_iff c).mpr (h c (retainNew_subset [] _ hc))

/-- A text of one character, repeated, has boundaries at the multiples of its
size only. -/
theorem not_isCharBoundary_replicate {c : Char} {n k : Nat} (hn : ¬ c.utf8Size ∣ n) :
    ¬ Str.IsCharBoundary (String.ofList (List.replicate k c)) n := by
  rintro ⟨pre, post, hsplit, hlength⟩
  rw [String.toList_ofList] at hsplit
  have hpre : pre = List.replicate pre.length c :=
    List.eq_replicate_length.mpr fun d hd =>
      List.eq_of_mem_replicate (hsplit ▸ List.mem_append_left post hd)
  apply hn
  rw [← hlength, hpre, Str.byteLen, List.map_replicate, List.sum_replicate_nat]
  exact Nat.dvd_mul_left _ _

/-- A source file with a comment of 667 characters of three bytes each. -/
def wideContext : ContextManager :=
  ⟨[], 8, [.new .openFile "notes.rs" (String.ofList (List.replicate 667 '…')) .low], 4096⟩

/-- The cap is inside one of them. -/
theorem not_compresses_wideContext : ¬ wideContext.Compresses := by
  intro h
  rw [compresses_iff_isSome, compress, Option.isSome_map, mapM_isSome_iff] at h
  have htruncate := (truncate_isSome_iff _).mp (h _ List.mem_cons_self)
  apply not_isCharBoundary_replicate (c := '…') (n := contentCap) (k := 667) (by decide)
  apply htruncate
  rw [Str.utf8ByteSize_eq_byteLen]
  show contentCap < Str.byteLen (String.ofList (List.replicate 667 '…')).toList
  rw [String.toList_ofList, Str.byteLen, List.map_replicate, List.sum_replicate_nat]
  decide

end ContextManager

end AgenticIde
