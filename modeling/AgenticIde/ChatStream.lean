/-
AgenticIde/ChatStream.lean

What a streamed reply shows (`reply_stream` of `chat.rs`).

The program walks over the bytes of the reply and slices at byte offsets.  A sentence mark
is one byte, and no byte of another character is one, so every slice is between characters
and the walk splits as `replyStream` does (`replyStreamBytes_eq`).

A piece keeps the whitespace it starts with, but what follows the last mark is trimmed.  So
a client that appends the chunks shows the reply unless there is something after the last
mark, with whitespace between (`streamsWhole_iff`).

Two walks are compared.  `streamBytes` is the loop of the source, with its two offsets; it
is partial, since a slice that is not between characters panics.  `streamFrom` is the same
walk over characters, with the piece so far in hand.  `streamBytes_chars` runs them side by
side: the text before the piece and the piece itself are the invariant, and the offsets are
their lengths in bytes.

What the chunks show is then a matter of lists of characters.  A piece that ends in a mark
is never blank, so no piece but the rest can be left out, and nothing but the rest is ever
trimmed (`join_streamFrom`).
-/
import AgenticIde.Chat
import AgenticIde.Lib.Slice

namespace AgenticIde

namespace ChatEngine

/-! ### The walk over the bytes -/

/-- `b'.'`, `b'!'` or `b'?'`. -/
def isMarkByte (b : UInt8) : Bool := b == 46 || b == 33 || b == 63

/-- `'.'`, `'!'` or `'?'`. -/
def isMark (c : Char) : Bool := c == '.' || c == '!' || c == '?'

theorem isMark_iff (c : Char) : isMark c = true ↔ c = '.' ∨ c = '!' ∨ c = '?' := by
  simp only [isMark, Bool.or_eq_true, beq_iff_eq, or_assoc]

/-- The loop over the bytes, from the byte at `i` on: the chunks, and where the
rest starts; none where a slice panics. -/
def streamBytes (full : String) : List UInt8 → Nat → Nat → List String → Option (List String × Nat)
  | [], _, start, chunks => some (chunks, start)
  | b :: bytes, i, start, chunks =>
      if isMarkByte b then
        match Str.slice start (i + 1) full with
        | none => none
        | some piece =>
            streamBytes full bytes (i + 1) (i + 1)
              (if Str.trim piece = "" then chunks else chunks ++ [piece])
      else streamBytes full bytes (i + 1) start chunks

/-- The rest of the reply, after the loop. -/
def streamTail (full : String) (chunks : List String) (start : Nat) : Option (List String) :=
  if start < full.utf8ByteSize then
    (Str.sliceFrom start full).map fun rest =>
      let tail := Str.trim rest
      if tail = "" then chunks else chunks ++ [tail]
  else some chunks

/-- Split a finished reply into chunks, at byte offsets. -/
def replyStreamBytes (full : String) : Option (List String) :=
  (streamBytes full (utf8 full) 0 0 []).bind fun r => streamTail full r.1 r.2

/-- A mark is one byte, and a mark byte. -/
theorem utf8EncodeChar_of_isMark {c : Char} (h : isMark c = true) :
    ∃ b, String.utf8EncodeChar c = [b] ∧ isMarkByte b = true := by
  rcases (isMark_iff c).mp h with rfl | rfl | rfl
  · exact ⟨46, by decide, by decide⟩
  · exact ⟨33, by decide, by decide⟩
  · exact ⟨63, by decide, by decide⟩

/-- No byte of another character is a mark byte. -/
theorem isMarkByte_of_mem {c : Char} (h : isMark c = false) {b : UInt8}
    (hb : b ∈ String.utf8EncodeChar c) : isMarkByte b = false := by
  by_contra hmark
  rw [Bool.not_eq_false] at hmark
  simp only [isMarkByte, Bool.or_eq_true, beq_iff_eq] at hmark
  have hchar : ∀ m : Char, c.toNat = m.toNat → c = m := fun m heq =>
    Char.ext (UInt32.toNat_inj.mp heq)
  have hnot : isMark c = true := by
    rcases hmark with (rfl | rfl) | rfl
    · rw [hchar '.' ((mem_utf8EncodeChar_iff (by decide) c).mp hb)]
      rfl
    · rw [hchar '!' ((mem_utf8EncodeChar_iff (by decide) c).mp hb)]
      rfl
    · rw [hchar '?' ((mem_utf8EncodeChar_iff (by decide) c).mp hb)]
      rfl
  rw [h] at hnot
  cases hnot

/-- Bytes that are no marks are walked over. -/
theorem streamBytes_append {bytes : List UInt8} (h : ∀ b ∈ bytes, isMarkByte b = false)
    (full : String) (rest : List UInt8) (i start : Nat) (chunks : List String) :
    streamBytes full (bytes ++ rest) i start chunks =
      streamBytes full rest (i + bytes.length) start chunks := by
  induction bytes generalizing i with
  | nil => rfl
  | cons b bytes ih =>
      have hb : ¬ isMarkByte b = true := by
        rw [h b List.mem_cons_self]
        exact Bool.false_ne_true
      rw [List.cons_append, streamBytes, if_neg hb,
        ih (fun b' hb' => h b' (List.mem_cons_of_mem _ hb')), List.length_cons]
      congr 1
      omega

/-- A chunk that is pushed comes before those that follow. -/
theorem ite_append_chunk (blank : Prop) [Decidable blank] (chunks rest : List String)
    (chunk : String) :
    (if blank then chunks else chunks ++ [chunk]) ++ rest =
      chunks ++ (if blank then rest else chunk :: rest) := by
  split
  case isTrue => rfl
  case isFalse => rw [List.append_assoc, List.singleton_append]

theorem streamFrom_nil (cur : List Char) :
    streamFrom cur [] =
      if Str.trim (String.ofList cur.reverse) = "" then []
      else [Str.trim (String.ofList cur.reverse)] := rfl

theorem streamFrom_mark {c : Char} (h : isMark c = true) (cur cs : List Char) :
    streamFrom cur (c :: cs) =
      if Str.trim (String.ofList (c :: cur).reverse) = "" then streamFrom [] cs
      else String.ofList (c :: cur).reverse :: streamFrom [] cs := by
  rw [streamFrom, if_pos ((isMark_iff c).mp h)]

theorem streamFrom_other {c : Char} (h : isMark c = false) (cur cs : List Char) :
    streamFrom cur (c :: cs) = streamFrom (c :: cur) cs := by
  have hnot : ¬ (c = '.' ∨ c = '!' ∨ c = '?') := by
    rw [← isMark_iff, h]
    exact Bool.false_ne_true
  rw [streamFrom, if_neg hnot]

/-- **The walk splits at the marks.** It is at the end of `done` and `cur`, with a
piece that starts after `done`.  By induction on the characters to come: every place
it cuts at is the end of a character, so that no slice can fail. -/
theorem streamBytes_chars (full : String) (rest : List Char) (done cur : List Char)
    (chunks : List String) (hfull : full.toList = done ++ cur ++ rest) :
    ((streamBytes full (rest.flatMap String.utf8EncodeChar) (Str.byteLen (done ++ cur))
        (Str.byteLen done) chunks).bind fun r => streamTail full r.1 r.2) =
      some (chunks ++ streamFrom cur.reverse rest) := by
  -- By induction on the characters to come. At a mark the walk begins a new piece, so what
  -- was the piece moves to what is done.
  induction rest generalizing done cur chunks with
  | nil =>
      rw [List.append_nil] at hfull
      have hsize : full.utf8ByteSize = Str.byteLen done + Str.byteLen cur := by
        rw [Str.utf8ByteSize_eq_byteLen, hfull, Str.byteLen_append]
      show streamTail full chunks (Str.byteLen done) = _
      rw [streamTail, hsize, Str.sliceFrom_eq_some hfull, streamFrom_nil, List.reverse_reverse,
        ← ite_append_chunk, List.append_nil]
      cases cur with
      | nil =>
          rw [if_neg (by simp), if_pos (by decide)]
      | cons d cur =>
          have hd := d.utf8Size_pos
          rw [if_pos (by rw [Str.byteLen_cons]; omega), Option.map_some]
  | cons c rest ih =>
      have hfull' : full.toList = done ++ (cur ++ [c]) ++ rest := by
        rw [hfull]
        simp only [List.append_assoc, List.singleton_append]
      rw [List.flatMap_cons]
      cases hmark : isMark c with
      | true =>
          obtain ⟨b, hbytes, hb⟩ := utf8EncodeChar_of_isMark hmark
          -- A mark is one byte, so the offset behind it is the offset the slice ends at.
          have hend : Str.byteLen (done ++ cur) + 1 = Str.byteLen (done ++ (cur ++ [c])) := by
            rw [← List.append_assoc, Str.byteLen_append (done ++ cur), Str.byteLen_cons,
              Str.byteLen_nil, ← String.length_utf8EncodeChar, hbytes]
            rfl
          rw [hbytes, List.singleton_append, streamBytes, if_pos hb, hend,
            Str.slice_eq_some hfull', streamFrom_mark hmark]
          have hnext := ih (done ++ (cur ++ [c])) []
            (if Str.trim (String.ofList (cur ++ [c])) = "" then chunks
              else chunks ++ [String.ofList (cur ++ [c])]) (by rw [hfull', List.append_nil])
          rw [List.append_nil] at hnext
          rw [List.reverse_cons, List.reverse_reverse, ← ite_append_chunk]
          exact hnext
      | false =>
          -- The bytes of any other character are passed one by one; none of them is a mark.
          have hend : Str.byteLen (done ++ cur) + (String.utf8EncodeChar c).length =
              Str.byteLen (done ++ (cur ++ [c])) := by
            rw [← List.append_assoc, Str.byteLen_append (done ++ cur), Str.byteLen_cons,
              Str.byteLen_nil, String.length_utf8EncodeChar, Nat.add_zero]
          rw [streamBytes_append (fun b hb => isMarkByte_of_mem hmark hb), hend,
            streamFrom_other hmark, ih done (cur ++ [c]) chunks hfull', List.reverse_append]
          rfl

/-- **No slice panics**, and the chunks are those of `replyStream`: a mark is one
octet that is part of no other character, so the walk over the octets stops where
one over the characters does. -/
theorem replyStreamBytes_eq (full : String) : replyStreamBytes full = some (replyStream full) :=
  streamBytes_chars full full.toList [] [] [] rfl

example : replyStreamBytes "First sentence. Second one! Third?" =
    some ["First sentence.", " Second one!", " Third?"] := by decide

/-! ### What the chunks show -/

theorem isWhitespace_of_isMark {c : Char} (h : isMark c = true) : Str.isWhitespace c = false := by
  rcases (isMark_iff c).mp h with rfl | rfl | rfl <;> decide

theorem trim_ne_empty_iff (cs : List Char) :
    Str.trim (String.ofList cs) ≠ "" ↔ Str.trimChars cs ≠ [] := by
  rw [Str.trim, String.toList_ofList, Ne, Ne, ← String.toList_inj, String.toList_ofList]
  rfl

/-- A piece is never blank, for it ends with a mark. -/
theorem trim_piece_ne_empty {c : Char} (h : isMark c = true) (cur : List Char) :
    Str.trim (String.ofList (c :: cur).reverse) ≠ "" := by
  rw [trim_ne_empty_iff, List.reverse_cons,
    Str.trimChars_append_cons (isWhitespace_of_isMark h)]
  simp

/-- No chunk is blank. -/
theorem trim_ne_empty_of_mem_streamFrom {cur cs : List Char} {chunk : String}
    (h : chunk ∈ streamFrom cur cs) : Str.trim chunk ≠ "" := by
  -- The one chunk that is trimmed is the rest, and the source shows it only if it is not
  -- blank.
  induction cs generalizing cur with
  | nil =>
      rw [streamFrom_nil] at h
      split at h
      case isTrue => cases h
      case isFalse htail =>
        obtain rfl := List.mem_singleton.mp h
        rwa [Str.trim_trim]
  | cons c cs ih =>
      cases hmark : isMark c with
      | true =>
          rw [streamFrom_mark hmark, if_neg (trim_piece_ne_empty hmark cur)] at h
          rcases List.mem_cons.mp h with rfl | h
          · exact trim_piece_ne_empty hmark cur
          · exact ih h
      | false =>
          rw [streamFrom_other hmark] at h
          exact ih h

/-- **What the chunks show**: everything up to the last mark as it is, and what
follows it trimmed.  Pieces that end with a mark are kept as they are, blanks and
all; only the rest behind the last one is trimmed before it is sent. -/
theorem join_streamFrom (cur cs : List Char) (hcur : ∀ c ∈ cur, isMark c = false) :
    ∃ body tail, cur.reverse ++ cs = body ++ tail ∧ (∀ c ∈ tail, isMark c = false) ∧
      (body = [] ∨ ∃ front m, body = front ++ [m] ∧ isMark m = true) ∧
      (String.join (streamFrom cur cs)).toList = body ++ Str.trimChars tail := by
  induction cs generalizing cur with
  | nil =>
      refine ⟨[], cur.reverse, List.append_nil _, ?_, .inl rfl, ?_⟩
      · exact fun c hc => hcur c (List.mem_reverse.mp hc)
      · rw [streamFrom_nil]
        split
        -- A blank rest is left out; trimmed, it would have shown nothing.
        case isTrue htail =>
          by_contra hne
          exact (trim_ne_empty_iff _).mpr (Ne.symm hne) htail
        case isFalse =>
          rw [String.join_cons, String.join_nil, String.append_empty, Str.trim,
            String.toList_ofList, String.toList_ofList]
          rfl
  | cons c cs ih =>
      cases hmark : isMark c with
      | true =>
          obtain ⟨body, tail, hsplit, htail, hbody, hjoin⟩ := ih [] (fun c hc => (by cases hc))
          -- The piece ends in a mark, so it is shown whole, and becomes part of the body.
          refine ⟨cur.reverse ++ c :: body, tail, ?_, htail, .inr ?_, ?_⟩
          · rw [List.append_assoc, List.cons_append, ← hsplit]
            rfl
          · rcases hbody with rfl | ⟨front, m, rfl, hm⟩
            · exact ⟨cur.reverse, c, rfl, hmark⟩
            · exact ⟨cur.reverse ++ c :: front, m, by simp, hm⟩
          · rw [streamFrom_mark hmark, if_neg (trim_piece_ne_empty hmark cur), String.join_cons,
              String.toList_append, String.toList_ofList, hjoin, List.reverse_cons]
            simp only [List.append_assoc, List.cons_append, List.nil_append]
      | false =>
          -- No mark yet: the piece grows, and the rest is as for the longer piece.
          have hcur' : ∀ d ∈ c :: cur, isMark d = false := List.forall_mem_cons.mpr ⟨hmark, hcur⟩
          obtain ⟨body, tail, hsplit, hrest⟩ := ih (c :: cur) hcur'
          rw [List.reverse_cons, List.append_assoc] at hsplit
          rw [streamFrom_other hmark]
          exact ⟨body, tail, hsplit, hrest⟩

/-- What follows the last mark of a text; all of it, where there is none. -/
def afterLastMark (cs : List Char) : List Char := cs.rtakeWhile fun c => !isMark c

theorem afterLastMark_append {body tail : List Char} (htail : ∀ c ∈ tail, isMark c = false)
    (hbody : body = [] ∨ ∃ front m, body = front ++ [m] ∧ isMark m = true) :
    afterLastMark (body ++ tail) = tail := by
  have hpos : ∀ c ∈ tail.reverse, (!isMark c) = true := by
    intro c hc
    rw [htail c (List.mem_reverse.mp hc)]
    rfl
  rw [afterLastMark, List.rtakeWhile, List.reverse_append, List.takeWhile_append_of_pos hpos]
  rcases hbody with rfl | ⟨front, m, rfl, hm⟩
  · simp
  · have hreverse : (front ++ [m]).reverse = m :: front.reverse := List.reverse_concat
    rw [hreverse, List.takeWhile_cons_of_neg (by simp [hm]), List.append_nil, List.reverse_reverse]

/-- Every slice is between characters, no chunk is blank, and the chunks one after
the other are the reply, up to the whitespace around it. -/
def StreamsWhole (full : String) : Prop :=
  ∃ chunks, replyStreamBytes full = some chunks ∧ (∀ chunk ∈ chunks, Str.trim chunk ≠ "") ∧
    Str.trim (String.join chunks) = Str.trim full

/-- The reply has no mark, or what follows its last mark does not start with
whitespace, or is only that. -/
def EndsTight (full : String) : Prop :=
  (∀ c ∈ full.toList, isMark c = false) ∨
    ∀ c, (afterLastMark full.toList).head? = some c → Str.isWhitespace c = true →
      ∀ d ∈ afterLastMark full.toList, Str.isWhitespace d = true

/-- **Streaming shows the whole reply** exactly when no whitespace is between its
last mark and something that follows.  Whitespace at the ends of the reply is not
missed, and a rest that is only whitespace is at its end. -/
theorem streamsWhole_iff (full : String) : StreamsWhole full ↔ EndsTight full := by
  obtain ⟨body, tail, hsplit, htail, hbody, hjoin⟩ :=
    join_streamFrom [] full.toList (fun c hc => (by cases hc))
  rw [List.reverse_nil, List.nil_append] at hsplit
  have hafter : afterLastMark full.toList = tail := hsplit ▸ afterLastMark_append htail hbody
  have hwhole : StreamsWhole full ↔
      Str.trimChars (body ++ Str.trimChars tail) = Str.trimChars (body ++ tail) := by
    rw [← hjoin, ← hsplit]
    constructor
    · rintro ⟨chunks, hchunks, -, htrim⟩
      rw [replyStreamBytes_eq] at hchunks
      obtain rfl := Option.some.inj hchunks
      exact String.ofList_inj.mp htrim
    · intro htrim
      exact ⟨_, replyStreamBytes_eq full, fun chunk => trim_ne_empty_of_mem_streamFrom,
        congrArg String.ofList htrim⟩
  rw [hwhole, EndsTight, hafter, ← Str.trimChars_eq_rdropWhile_iff]
  rcases hbody with rfl | ⟨front, m, rfl, hm⟩
  · -- without a mark all of the reply is trimmed
    apply iff_of_true
    · rw [List.nil_append, List.nil_append, Str.trimChars_trimChars]
    · left
      rw [hsplit]
      exact htail
  · have hmark : ¬ ∀ c ∈ full.toList, isMark c = false := by
      intro hall
      have hnot := hall m (by rw [hsplit]; simp)
      rw [hm] at hnot
      cases hnot
    have hspace := isWhitespace_of_isMark hm
    rw [or_iff_right hmark, List.append_assoc, List.append_assoc, List.singleton_append,
      List.singleton_append, Str.trimChars_append_cons hspace, Str.trimChars_append_cons hspace,
      List.append_cancel_left_eq, List.cons.injEq, and_iff_right rfl]
    have hidem : (Str.trimChars tail).rdropWhile Str.isWhitespace = Str.trimChars tail := by
      rw [Str.trimChars_eq_rdropWhile, List.rdropWhile_idempotent]
    rw [hidem]

/-- The space before what follows the last mark is lost. -/
theorem not_streamsWhole_hello : ¬ StreamsWhole "Hello. World" := by
  rintro ⟨chunks, hchunks, -, htrim⟩
  rw [replyStreamBytes_eq] at hchunks
  obtain rfl := Option.some.inj hchunks
  revert htrim
  decide

end ChatEngine

end AgenticIde
