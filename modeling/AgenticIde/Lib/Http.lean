/-
AgenticIde/Lib/Http.lean

HTTP/1.1 responses on the wire, and how a client reads one: lines up to an empty one, the
status in the first of them, the length of the body in one of the others, and so many bytes
after that.

What the body is made of makes no difference, and what follows it is not read
(`readResponse_response`): a response whose header lines are plain is read back as it was
written.

Header lines are ASCII without a carriage return, and that is all that keeps the head together
(`Plain`): the first empty line is then the one that ends it.  The body may have such lines,
since the client counts its bytes and does not look into it.
-/
import AgenticIde.Lib.Decimal
import AgenticIde.Lib.Encoding
import AgenticIde.Lib.Str

namespace AgenticIde

namespace Http

/-! ### Writing and reading -/

/-- The end of a line. -/
def crlf : List UInt8 := [13, 10]

/-- A response: the status line, the headers, an empty line and the body. -/
def response (head : List String) (body : List UInt8) : List UInt8 :=
  head.flatMap (fun line => utf8 line ++ crlf) ++ crlf ++ body

/-- The lines up to an empty one, and what follows it; `cur` holds the line so
far reversed. -/
def readHead (cur : List UInt8) : List UInt8 → Option (List (List UInt8) × List UInt8)
  | [] => none
  | 13 :: 10 :: rest =>
      if cur = [] then some ([], rest)
      else (readHead [] rest).map fun r => (cur.reverse :: r.1, r.2)
  | b :: rest => readHead (b :: cur) rest

/-- The text of a line of ASCII. -/
def asciiText (line : List UInt8) : String := String.ofList (line.map fun b => Char.ofNat b.toNat)

/-- A number of digits only. -/
def readNumber (s : String) : Option Nat := Decimal.readNat s.toList

/-- The status of a status line, and the length of a `Content-Length`. -/
def readStatus (line : String) : Option Nat :=
  (Str.stripPrefix "HTTP/1.1 " line).bind fun s =>
    (Str.splitOnce (· == ' ') s).bind fun r => readNumber r.1

def readLength (line : String) : Option Nat :=
  (Str.stripPrefix "Content-Length: " line).bind readNumber

/-- The status and the body of the response at the start of some bytes. -/
def readResponse (bytes : List UInt8) : Option (Nat × List UInt8) :=
  match readHead [] bytes with
  | none => none
  | some (head, rest) =>
      match readStatus (asciiText (head.headD [])), head.findSome? (readLength ∘ asciiText) with
      | some status, some length =>
          if length ≤ rest.length then some (status, rest.take length) else none
      | _, _ => none

/-! ### The law -/

/-- A line of the head: some ASCII, and no carriage return. -/
structure Plain (line : String) : Prop where
  ne : line ≠ ""
  ascii : ∀ c ∈ line.toList, c.toNat < 128
  noCr : '\r' ∉ line.toList

theorem utf8EncodeChar_of_ascii {c : Char} (h : c.toNat < 128) :
    String.utf8EncodeChar c = [UInt8.ofNat c.toNat] := by
  have hval : c.val.toNat ≤ 127 := Nat.le_of_lt_succ h
  rw [String.utf8EncodeChar]
  exact if_pos hval

theorem asciiText_utf8 {s : String} (h : ∀ c ∈ s.toList, c.toNat < 128) :
    asciiText (utf8 s) = s := by
  have hutf8 : utf8 s = s.toList.map fun c => UInt8.ofNat c.toNat := by
    rw [utf8, List.map_eq_flatMap]
    exact List.flatMap_congr fun c hc => utf8EncodeChar_of_ascii (h c hc)
  have hback : (utf8 s).map (fun b => Char.ofNat b.toNat) = s.toList := by
    rw [hutf8, List.map_map]
    refine (List.map_congr_left fun c hc => ?_).trans (List.map_id _)
    have hsmall : c.toNat < 256 := Nat.lt_trans (h c hc) (by decide)
    show Char.ofNat (UInt8.ofNat c.toNat).toNat = c
    rw [UInt8.toNat_ofNat_of_lt' hsmall, Char.ofNat_toNat]
  rw [asciiText, hback, String.ofList_toList]

theorem readHead_cons {b : UInt8} (h : b ≠ 13) (cur rest : List UInt8) :
    readHead cur (b :: rest) = readHead (b :: cur) rest := by
  rw [readHead]
  exact fun _ hcr => absurd hcr h

theorem readHead_append {line : List UInt8} (h : (13 : UInt8) ∉ line) (cur rest : List UInt8) :
    readHead cur (line ++ rest) = readHead (line.reverse ++ cur) rest := by
  induction line generalizing cur with
  | nil => rfl
  | cons b line ih =>
      rw [List.mem_cons, not_or] at h
      rw [List.cons_append, readHead_cons (Ne.symm h.1), ih h.2, List.reverse_cons,
        List.append_assoc, List.singleton_append]

/-- The head of a response is read line by line. -/
theorem readHead_lines {lines : List (List UInt8)} (h : ∀ line ∈ lines, line ≠ [] ∧ 13 ∉ line)
    (rest : List UInt8) :
    readHead [] (lines.flatMap (· ++ crlf) ++ crlf ++ rest) = some (lines, rest) := by
  induction lines with
  | nil => rfl
  | cons line lines ih =>
      obtain ⟨⟨hne, hcr⟩, hlines⟩ := List.forall_mem_cons.mp h
      have hread := ih hlines
      rw [List.flatMap_cons, List.append_assoc, List.append_assoc, List.append_assoc,
        readHead_append hcr, List.append_nil]
      show readHead line.reverse (13 :: 10 :: (lines.flatMap (· ++ crlf) ++ (crlf ++ rest))) = _
      rw [readHead, if_neg (fun h => hne (List.reverse_eq_nil_iff.mp h)), ← List.append_assoc,
        hread, List.reverse_reverse]
      rfl

theorem Plain.line {line : String} (h : Plain line) :
    utf8 line ≠ [] ∧ (13 : UInt8) ∉ utf8 line := by
  refine ⟨fun hnil => h.ne (utf8_injective hnil), fun hmem => ?_⟩
  obtain ⟨c, hc, hb⟩ := List.mem_flatMap.mp hmem
  have hcr : c.toNat = 13 := (mem_utf8EncodeChar_iff (by decide) c).mp hb
  obtain rfl : c = '\r' := Char.toNat_inj.mp hcr
  exact h.noCr hc

/-- **Framing.**  A response with plain header lines, one of which gives the length
of the body, is read back, whatever the body is and whatever comes behind it. -/
theorem readResponse_response {statusLine : String} {headers : List String} {status : Nat}
    {body : List UInt8} (hplain : ∀ line ∈ statusLine :: headers, Plain line)
    (hstatus : readStatus statusLine = some status)
    (hlength : (statusLine :: headers).findSome? readLength = some body.length)
    (rest : List UInt8) :
    readResponse (response (statusLine :: headers) body ++ rest) = some (status, body) := by
  have htexts : ((statusLine :: headers).map utf8).map asciiText = statusLine :: headers := by
    rw [List.map_map]
    refine (List.map_congr_left fun line hline => ?_).trans (List.map_id _)
    exact asciiText_utf8 (hplain line hline).ascii
  have hhead : readHead [] (response (statusLine :: headers) body ++ rest) =
      some ((statusLine :: headers).map utf8, body ++ rest) := by
    have hlines : ∀ line ∈ (statusLine :: headers).map utf8, line ≠ [] ∧ 13 ∉ line := by
      intro line hline
      obtain ⟨text, htext, rfl⟩ := List.mem_map.mp hline
      exact (hplain text htext).line
    rw [response, List.append_assoc, ← readHead_lines hlines, List.flatMap_map]
  have hfirst : asciiText (((statusLine :: headers).map utf8).headD []) = statusLine :=
    (List.cons.inj htexts).1
  have hfind : ((statusLine :: headers).map utf8).findSome? (readLength ∘ asciiText) =
      some body.length := by
    have hmap : ((statusLine :: headers).map utf8).findSome? (readLength ∘ asciiText) =
        (((statusLine :: headers).map utf8).map asciiText).findSome? readLength :=
      List.findSome?_map.symm
    rw [hmap, htexts, hlength]
  rw [readResponse, hhead]
  simp only [hfirst, hstatus, hfind]
  rw [if_pos (by rw [List.length_append]; omega), List.take_left]

end Http

end AgenticIde
