/-
AgenticIde/Admin.lean

The admin listener (`admin.rs`): `/metrics`, `/healthz` and the read-only
`/console` as plain text over HTTP, and the text of the counters (`metrics.rs`).

The model is what one connection does: the one read, of 2048 octets at most, that
finds the request line (`requestPath`), the route it asks for, the page that is
rendered, and the response that is written.  What is not text of the program is a
parameter (`Formats`): how a number is printed and how `serde_json` writes the
object of the console.  The accept loop and the socket are left out.

The response is put together as a string around a text of any length and any
content: the names of the tenant and the user are as they were configured, and
may hold line breaks of their own.  A client is not misled by them, because it
takes as much for the body as the header says, and the header is counted in
octets of the body as it was rendered.  `readResponse_headOf` says this of one
response, `handleConn_framed` of the listener: whatever bytes come in, a client
reads the status and the body as they were rendered, and nothing of the body for
a header.
-/
import AgenticIde.HistogramP95
import AgenticIde.Lib.Find
import AgenticIde.Lib.Lines
import AgenticIde.Lib.Lossy
import AgenticIde.World

namespace AgenticIde

namespace Admin

/-! ### Routes -/

/-- Admin route resolved from a request path. -/
inductive AdminRoute
  | metrics
  | healthz
  | console
  | notFound
  deriving DecidableEq

/-- Resolve a request path; what follows `?` or `#` is ignored. -/
def routeAdmin (path : String) : AdminRoute :=
  let path := String.ofList (path.toList.takeWhile fun c => !(c == '?' || c == '#'))
  if path = "/metrics" then .metrics
  else if path = "/healthz" then .healthz
  else if path = "/console" then .console
  else .notFound

/-! ### The registry -/

/-- The registry: the counters and the two latency histograms. -/
structure Registry where
  counters : Metrics
  requestLatency : Histogram
  completionLatency : Histogram

/-- How numbers that are no integers, and values of `serde_json`, are printed. -/
structure Formats where
  display : ℚ → String
  /-- With one decimal. -/
  fixed1 : ℚ → String
  /-- A value as JSON. -/
  json : Json → String
  /-- There is no blank in a number. -/
  display_plain : ∀ q, ∀ ch ∈ (display q).toList, Str.isWhitespace ch = false

/-- A counter with its two lines of comment. -/
def renderCounter (name help : String) (value : Nat) : String :=
  s!"# HELP {name} {help}\n" ++ s!"# TYPE {name} counter\n" ++ s!"{name} {value}\n"

/-- `render_prometheus`. -/
def renderPrometheus (text : Formats) (self : Registry) : String :=
  let s := ""
  let s := s ++ renderCounter "aidea_requests_total" "Total gRPC/CLI requests handled."
    self.counters.requestsTotal
  let s := s ++ renderCounter "aidea_tool_calls_total" "Tool/action executions."
    self.counters.toolCallsTotal
  let s := s ++ renderCounter "aidea_llm_calls_total" "LLM think/plan invocations."
    self.counters.llmCallsTotal
  let s := s ++ renderCounter "aidea_completions_total" "NES completions produced."
    self.counters.completionsTotal
  let s := s ++ renderCounter "aidea_denials_total" "Actions denied by the six-bit mask."
    self.counters.denialsTotal
  let s := s ++ renderCounter "aidea_audit_events_total" "Append-only audit events recorded."
    self.counters.auditEventsTotal
  let s := renderHistogram text.display s "aidea_request_latency_ms" self.requestLatency
  renderHistogram text.display s "aidea_completion_latency_ms" self.completionLatency

/-! ### The console -/

/-- Read-only snapshot of the tenant. -/
structure ConsoleStatus where
  tenantId : String
  userId : String
  permMask : UInt32
  auditEvents : Nat
  requests : Nat
  toolCalls : Nat
  llmCalls : Nat
  completions : Nat
  denials : Nat
  requestP95Ms : ℚ

/-- `PermissionSet::labels`. -/
def labels (perms : PermissionSet) : List String :=
  (Permission.all.filter perms.has).map Permission.label

/-- The object of the console; its keys are in order. -/
def consoleObject (status : ConsoleStatus) (perms : String) : Json :=
  .obj [("audit_events", .num status.auditEvents),
    ("metrics", .obj [("completions", .num status.completions),
      ("denials", .num status.denials),
      ("llm_calls", .num status.llmCalls),
      ("request_p95_ms", .num status.requestP95Ms),
      ("requests", .num status.requests),
      ("tool_calls", .num status.toolCalls)]),
    ("perm_mask", .num status.permMask.toNat),
    ("permissions", .str perms),
    ("tenant_id", .str status.tenantId),
    ("user_id", .str status.userId)]

/-- Render the console status: a text block, and the object. -/
def renderConsole (text : Formats) (status : ConsoleStatus) : String :=
  let perms := ", ".intercalate (labels (.fromMask status.permMask))
  let body := text.json (consoleObject status perms)
  "=== Agentic IDE Enterprise Console ===\n" ++
    s!"tenant:        {status.tenantId}\n" ++
    s!"user:          {status.userId}\n" ++
    s!"perm_mask:     {status.permMask} ({perms})\n" ++
    s!"audit_events:  {status.auditEvents}\n" ++
    s!"requests:      {status.requests}\n" ++
    s!"tool_calls:    {status.toolCalls}\n" ++
    s!"llm_calls:     {status.llmCalls}\n" ++
    s!"completions:   {status.completions}\n" ++
    s!"denials:       {status.denials}\n" ++
    s!"request_p95:   {text.fixed1 status.requestP95Ms} ms\n" ++
    "--- json ---\n" ++
    s!"{body}\n"

/-- `AdminConsole`: the identity of the server, and the registry. -/
structure AdminConsole where
  principal : Principal
  metrics : Registry

/-- `console_status`; none where the percentile indexes out of range. -/
def AdminConsole.consoleStatus (self : AdminConsole) : Option ConsoleStatus :=
  self.metrics.requestLatency.p95Ms.map fun p95 =>
    { tenantId := self.principal.tenantId
      userId := self.principal.userId
      permMask := self.principal.permMask
      auditEvents := self.metrics.counters.auditEventsTotal
      requests := self.metrics.counters.requestsTotal
      toolCalls := self.metrics.counters.toolCallsTotal
      llmCalls := self.metrics.counters.llmCallsTotal
      completions := self.metrics.counters.completionsTotal
      denials := self.metrics.counters.denialsTotal
      requestP95Ms := p95 }

/-! ### Responses -/

/-- The status and the body of a route; the console has a rendering of its
own. -/
def renderAdmin (text : Formats) (route : AdminRoute) (metrics : Registry) : Nat × String :=
  match route with
  | .metrics => (200, renderPrometheus text metrics)
  | .healthz => (200, "ok\n")
  | .console => (200, "")
  | .notFound => (404, "not found\n")

/-- A minimal HTTP/1.1 response; the length is in bytes. -/
def httpResponse (text : Formats) (route : AdminRoute) (metrics : Registry) : String :=
  let (status, body) := renderAdmin text route metrics
  let reason := if status = 200 then "OK" else "Not Found"
  s!"HTTP/1.1 {status} {reason}\r\n" ++
    "Content-Type: text/plain; charset=utf-8\r\n" ++
    s!"Content-Length: {(utf8 body).length}\r\n" ++
    "Connection: close\r\n\r\n" ++ body

/-- The same of the console. -/
def httpResponseConsole (text : Formats) (status : ConsoleStatus) : String :=
  let body := renderConsole text status
  "HTTP/1.1 200 OK\r\n" ++
    "Content-Type: text/plain; charset=utf-8\r\n" ++
    s!"Content-Length: {(utf8 body).length}\r\n" ++
    "Connection: close\r\n\r\n" ++ body

/-- The path of a request: the second word of its first line. -/
def requestPath (req : String) : String :=
  ((Str.lines req).head?.bind fun line => (Str.splitWhitespace line)[1]?).getD "/"

/-- The route of the bytes that were read. -/
def routeOf (buf : List UInt8) : AdminRoute :=
  routeAdmin (requestPath (String.ofList (fromUtf8Lossy buf)))

/-- Handle a connection: read once, 2048 bytes at most, and respond; no bytes are
no request.  `received` is what the one read finds there: what the client sends
later is not looked at, also where the request line is not complete. -/
def handleConn (text : Formats) (console : AdminConsole) (received : List UInt8) :
    Option (List UInt8) :=
  let buf := received.take 2048
  if buf = [] then none
  else
    match routeOf buf with
    | .console => console.consoleStatus.map fun status => utf8 (httpResponseConsole text status)
    | route => some (utf8 (httpResponse text route console.metrics))

/-! ### Framing -/

/-- The head of a response. -/
def headOf (statusLine : String) (length : Nat) : List String :=
  [statusLine, "Content-Type: text/plain; charset=utf-8", s!"Content-Length: {length}",
    "Connection: close"]

/-- The two status lines.  Either is plain, names its status, and is not itself
taken for the header with the length. -/
structure IsStatusLine (statusLine : String) (status : Nat) : Prop where
  plain : Http.Plain statusLine
  status : Http.readStatus statusLine = some status
  noLength : Http.readLength statusLine = none

theorem isStatusLine_ok : IsStatusLine "HTTP/1.1 200 OK" 200 :=
  ⟨⟨by decide, Str.forall_mem_of_all (by decide), by decide⟩, by decide, by decide⟩

theorem isStatusLine_notFound : IsStatusLine "HTTP/1.1 404 Not Found" 404 :=
  ⟨⟨by decide, Str.forall_mem_of_all (by decide), by decide⟩, by decide, by decide⟩

theorem plain_contentLength (n : Nat) : Http.Plain s!"Content-Length: {n}" := by
  have hlist : (s!"Content-Length: {n}" : String).toList =
      "Content-Length: ".toList ++ (toString n).toList := by
    rw [← String.toList_append]
    rfl
  refine ⟨fun h => ?_, ?_, ?_⟩
  · rw [h] at hlist
    cases hlist
  · rw [hlist, List.forall_mem_append]
    refine ⟨Str.forall_mem_of_all (by decide), fun ch hch => ?_⟩
    have hnine := (Decimal.toNat_of_isDigit (Decimal.isDigit_of_mem hch)).2
    omega
  · rw [hlist, List.mem_append, not_or]
    refine ⟨by decide, fun hmem => ?_⟩
    exact absurd (Decimal.isDigit_of_mem hmem) (by decide)

/-- A response is read back, whatever its body is. -/
theorem readResponse_headOf {statusLine : String} {status : Nat}
    (h : IsStatusLine statusLine status) (body rest : List UInt8) :
    Http.readResponse (Http.response (headOf statusLine body.length) body ++ rest) =
      some (status, body) := by
  have hplain : ∀ line ∈ headOf statusLine body.length, Http.Plain line := by
    intro line hline
    simp only [headOf, List.mem_cons, List.not_mem_nil, or_false] at hline
    rcases hline with rfl | rfl | rfl | rfl
    -- each line of the head is plain text, so the client finds its end, and only one of
    -- them is read as the length
    · exact h.plain
    · exact ⟨by decide, Str.forall_mem_of_all (by decide), by decide⟩
    · exact plain_contentLength _
    · exact ⟨by decide, Str.forall_mem_of_all (by decide), by decide⟩
  have hlength : (headOf statusLine body.length).findSome? Http.readLength = some body.length := by
    -- the content type is read for no length, though it stands first
    have htype : Http.readLength "Content-Type: text/plain; charset=utf-8" = none := by decide
    have hnumber : Http.readLength s!"Content-Length: {body.length}" = some body.length := by
      have hstrip : Str.stripPrefix "Content-Length: " s!"Content-Length: {body.length}" =
          some (toString body.length) := Str.stripPrefix_append _ _
      rw [Http.readLength, hstrip]
      exact Decimal.readNat_toString _
    rw [headOf, List.findSome?_cons, h.noLength]
    simp only [List.findSome?_cons, htype, hnumber]
  exact Http.readResponse_response hplain h.status hlength rest

theorem utf8_head (statusLine body : String) :
    utf8 (statusLine ++ "\r\n" ++ "Content-Type: text/plain; charset=utf-8\r\n" ++
      s!"Content-Length: {(utf8 body).length}\r\n" ++ "Connection: close\r\n\r\n" ++ body) =
      Http.response (headOf statusLine (utf8 body).length) (utf8 body) := by
  have htype : utf8 "Content-Type: text/plain; charset=utf-8\r\n" =
      utf8 "Content-Type: text/plain; charset=utf-8" ++ Http.crlf := rfl
  have hlength : utf8 s!"Content-Length: {(utf8 body).length}\r\n" =
      utf8 s!"Content-Length: {(utf8 body).length}" ++ Http.crlf := utf8_append _ _
  have hclose : utf8 "Connection: close\r\n\r\n" =
      utf8 "Connection: close" ++ Http.crlf ++ Http.crlf := rfl
  have hcrlf : utf8 "\r\n" = Http.crlf := rfl
  rw [utf8_append, utf8_append, utf8_append, utf8_append, utf8_append, htype, hlength, hclose,
    hcrlf]
  simp only [Http.response, headOf, List.flatMap_cons, List.flatMap_nil, List.append_assoc,
    List.append_nil]

/-- The percentile is never out of range. -/
theorem isSome_p95From {buckets : List ℚ} {target : Nat} {rest : List (ℚ × Nat)} {i cum : Nat}
    (h : i + rest.length ≤ buckets.length) :
    (Histogram.p95From buckets target i cum rest).isSome = true := by
  induction rest generalizing i cum with
  | nil => rfl
  | cons b rest ih =>
      rw [List.length_cons] at h
      have hlower : (Histogram.lowerBound buckets i).isSome = true := by
        rw [Histogram.lowerBound]
        split
        · rfl
        · rw [List.getElem?_eq_getElem (by omega)]
          rfl
      rw [Histogram.p95From]
      split
      · rw [Option.isSome_map, hlower]
      · exact ih (by omega)

theorem exists_consoleStatus (console : AdminConsole) :
    ∃ status, console.consoleStatus = some status := by
  have hp95 : console.metrics.requestLatency.p95Ms.isSome = true := by
    rw [Histogram.p95Ms, Option.isSome_map, Histogram.p95Exit]
    split
    · rfl
    · apply isSome_p95From
      rw [List.length_zip, Nat.zero_add]
      exact Nat.min_le_left _ _
  rw [← Option.isSome_iff_exists, AdminConsole.consoleStatus, Option.isSome_map]
  exact hp95

/-- The status line of a route. -/
def statusLineOf (status : Nat) : String :=
  if status = 200 then "HTTP/1.1 200 OK" else "HTTP/1.1 404 Not Found"

theorem isStatusLine_renderAdmin (text : Formats) (route : AdminRoute) (metrics : Registry) :
    IsStatusLine (statusLineOf (renderAdmin text route metrics).1)
      (renderAdmin text route metrics).1 := by
  cases route
  case notFound => exact isStatusLine_notFound
  all_goals exact isStatusLine_ok

theorem utf8_httpResponse (text : Formats) (route : AdminRoute) (metrics : Registry) :
    utf8 (httpResponse text route metrics) =
      Http.response (headOf (statusLineOf (renderAdmin text route metrics).1)
        (utf8 (renderAdmin text route metrics).2).length)
        (utf8 (renderAdmin text route metrics).2) := by
  have hline : ∀ status, status = 200 ∨ status = 404 →
      "HTTP/1.1 " ++ toString status ++ " " ++ (if status = 200 then "OK" else "Not Found") ++
        "\r\n" = statusLineOf status ++ "\r\n" := by
    rintro status (rfl | rfl) <;> decide
  have hstatus : (renderAdmin text route metrics).1 = 200 ∨
      (renderAdmin text route metrics).1 = 404 := by
    cases route
    case notFound => exact .inr rfl
    all_goals exact .inl rfl
  rw [← utf8_head, ← hline _ hstatus]
  rfl

/-- **Framing.**  Whatever bytes come in, whoever the tenant and the user are and
whatever was counted, there is a response, and a client reads its status and its
body just as they were rendered. -/
theorem handleConn_framed (text : Formats) (console : AdminConsole) (first : UInt8)
    (received rest : List UInt8) :
    ∃ response, handleConn text console (first :: received) = some response ∧
      if routeOf ((first :: received).take 2048) = .console then
        ∃ status, console.consoleStatus = some status ∧
          Http.readResponse (response ++ rest) = some (200, utf8 (renderConsole text status))
      else
        Http.readResponse (response ++ rest) =
          some ((renderAdmin text (routeOf ((first :: received).take 2048)) console.metrics).1,
            utf8 (renderAdmin text (routeOf ((first :: received).take 2048))
              console.metrics).2) := by
  have hbuf : (first :: received).take 2048 ≠ [] := fun h => by cases h
  rw [handleConn]
  simp only [if_neg hbuf]
  generalize routeOf ((first :: received).take 2048) = route
  -- the console is written by a function of its own, with the same framing
  by_cases hconsole : route = .console
  · subst hconsole
    obtain ⟨status, hstatus⟩ := exists_consoleStatus console
    refine ⟨utf8 (httpResponseConsole text status), ?_, ?_⟩
    · simp only [hstatus, Option.map_some]
    · rw [if_pos rfl]
      refine ⟨status, hstatus, ?_⟩
      have hutf8 := utf8_head "HTTP/1.1 200 OK" (renderConsole text status)
      rw [show utf8 (httpResponseConsole text status) = _ from hutf8]
      exact readResponse_headOf isStatusLine_ok _ rest
  · refine ⟨utf8 (httpResponse text route console.metrics), ?_, ?_⟩
    · cases route
      case console => exact absurd rfl hconsole
      all_goals rfl
    · rw [if_neg hconsole, utf8_httpResponse]
      exact readResponse_headOf (isStatusLine_renderAdmin text route console.metrics) _ rest

/-! ### The request -/

/-- The line of a `GET`. -/
def getLine (target : String) : String := s!"GET {target} HTTP/1.1\r\n"

theorem toList_getLine (target : String) :
    (getLine target).toList = "GET".toList ++ ' ' :: (target.toList ++
      ' ' :: ("HTTP/1.1\r".toList ++ ['\n'])) := by
  show ("GET " ++ target ++ " HTTP/1.1\r\n").toList = _
  rw [String.toList_append, String.toList_append]
  simp

/-- The path of a `GET` is the word behind it, whatever follows the line. -/
theorem requestPath_getLine {target : String} (hne : target ≠ "")
    (hplain : ∀ ch ∈ target.toList, Str.isWhitespace ch = false) (more : List Char) :
    requestPath (String.ofList ((getLine target).toList ++ more)) = target := by
  have hnil : target.toList ≠ [] := fun h => hne (String.toList_eq_nil_iff.mp h)
  have hrow : '\n' ∉ "GET".toList ++ ' ' :: (target.toList ++ ' ' :: "HTTP/1.1\r".toList) := by
    simp only [List.mem_append, List.mem_cons, not_or]
    refine ⟨by decide, by decide, fun hmem => ?_, by decide, by decide⟩
    exact absurd (hplain _ hmem) (by decide)
  -- the first line, without the carriage return
  have hfirst : (Str.lines (String.ofList ((getLine target).toList ++ more))).head? =
      some (String.ofList ("GET".toList ++ ' ' :: (target.toList ++
        ' ' :: "HTTP/1.1".toList))) := by
    have hsplit : (getLine target).toList ++ more =
        ("GET".toList ++ ' ' :: (target.toList ++ ' ' :: "HTTP/1.1\r".toList)) ++
          '\n' :: more := by
      rw [toList_getLine]
      simp only [List.append_assoc, List.cons_append, List.nil_append]
    have hreturn : "GET".toList ++ ' ' :: (target.toList ++ ' ' :: "HTTP/1.1\r".toList) =
        ("GET".toList ++ ' ' :: (target.toList ++ ' ' :: "HTTP/1.1".toList)) ++ ['\r'] := by
      rw [show "HTTP/1.1\r".toList = "HTTP/1.1".toList ++ ['\r'] by decide]
      simp only [List.append_assoc, List.cons_append]
    rw [Str.lines, String.toList_ofList, hsplit, Str.linesFrom_row hrow, List.reverse_nil,
      List.nil_append, hreturn, Str.stripCr, if_pos List.getLast?_concat, List.dropLast_concat]
    rfl
  have hwords : Str.wordsFrom [] ("GET".toList ++ ' ' :: (target.toList ++
      ' ' :: "HTTP/1.1".toList)) =
      "GET".toList :: target.toList :: Str.wordsFrom [] "HTTP/1.1".toList := by
    rw [Str.wordsFrom_word (by decide) (Str.forall_mem_of_all (by decide)) (by decide),
      Str.wordsFrom_word hnil hplain (by decide)]
  rw [requestPath, hfirst, Option.bind_some, Str.splitWhitespace, String.toList_ofList, hwords]
  show String.ofList target.toList = target
  exact String.ofList_toList

/-- A request line that is short enough is read whole. -/
theorem routeOf_getLine {target : String} {more : List UInt8} (hne : target ≠ "")
    (hascii : ∀ ch ∈ target.toList, ch.toNat < 128 ∧ Str.isWhitespace ch = false)
    (hlen : (utf8 (getLine target)).length ≤ 2048) :
    routeOf ((utf8 (getLine target) ++ more).take 2048) = routeAdmin target := by
  have hline : ∀ ch ∈ (getLine target).toList, ch.toNat < 128 := by
    rw [toList_getLine]
    simp only [List.forall_mem_append, List.forall_mem_cons]
    refine ⟨Str.forall_mem_of_all (by decide), by decide, fun ch hch => (hascii ch hch).1,
      by decide, Str.forall_mem_of_all (by decide), by decide, fun ch hch => by cases hch⟩
  rw [routeOf, List.take_append, List.take_of_length_le hlen, fromUtf8Lossy_append hline,
    requestPath_getLine hne fun ch hch => (hascii ch hch).2]

theorem take_getLine_ne_nil (target : String) (more : List UInt8) :
    (utf8 (getLine target) ++ more).take 2048 ≠ [] := by
  have hget : utf8 (getLine target) = utf8 "GET " ++ utf8 (target ++ " HTTP/1.1\r\n") := by
    rw [← utf8_append, ← String.append_assoc]
    rfl
  rw [hget]
  exact fun h => by cases h

end Admin

end AgenticIde
