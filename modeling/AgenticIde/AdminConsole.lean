/-
AgenticIde/AdminConsole.lean

What a machine reads of `/console`.

Behind the text block, which shows the names of the tenant and the user as they
are, `render_console` puts an object on a line of its own.  Writing and reading
JSON is left to `serde_json` and the client: what is relied on is that a value is
written on one line, its line breaks escaped, and read back from it
(`ReadsBack`).  A number that is no integer need not come back to the last bit,
so the latency is read as whatever the client makes of its text.

Then whatever lines the names have themselves, the last line of the page is that
object, and over the connection it reads back as the snapshot it was made from
(`console_get`).
-/
import AgenticIde.AdminScrape

namespace AgenticIde

namespace Admin

/-- The object of a page: its last line, as the client reads JSON. -/
def readConsole (fromStr : String → Option Json) (page : String) : Option Json :=
  (Str.lines page).getLast?.bind fromStr

/-- The names of the rights of a snapshot. -/
def permsText (status : ConsoleStatus) : String :=
  ", ".intercalate (labels (.fromMask status.permMask))

/-- The object as it comes back, where a latency comes back as `reread` of it. -/
def objectRead (reread : ℚ → ℚ) (status : ConsoleStatus) : Json :=
  consoleObject { status with requestP95Ms := reread status.requestP95Ms } (permsText status)

/-- `v` is written on one line, from which `v'` is read.  The two may differ: a
number that is no integer need not come back to its last bit. -/
structure ReadsBack (text : Formats) (fromStr : String → Option Json) (v v' : Json) : Prop where
  oneLine : ∀ ch ∈ (text.json v).toList, ch ≠ '\n' ∧ ch ≠ '\r'
  read : fromStr (text.json v) = some v'

/-- The last row of a text. -/
theorem getLast?_lines {front row : String} (hfront : front.toList.getLast? = some '\n')
    (hrow : ∀ ch ∈ row.toList, ch ≠ '\n' ∧ ch ≠ '\r') :
    (Str.lines (front ++ row ++ "\n")).getLast? = some row := by
  have hbreak : '\n' ∉ row.toList := fun h => (hrow _ h).1 rfl
  have hreturn : row.toList.getLast? ≠ some '\r' :=
    fun h => (hrow _ (List.mem_of_getLast? h)).2 rfl
  have hlist : (front ++ row ++ "\n").toList = front.toList ++ (row.toList ++ '\n' :: []) := by
    rw [String.toList_append, String.toList_append, List.append_assoc]
    rfl
  rw [Str.lines, hlist, Str.linesFrom_append (.inr hfront), Str.linesFrom_row hbreak,
    List.reverse_nil, List.nil_append, Str.stripCr, if_neg hreturn]
  simp [Str.linesFrom]

/-- **The page is read back**, whoever the tenant and the user are.  What comes
before the object may have line breaks of the names; the object itself is one line,
and the last one. -/
theorem readConsole_renderConsole {text : Formats} {fromStr : String → Option Json}
    {status : ConsoleStatus} {v : Json}
    (hreads : ReadsBack text fromStr (consoleObject status (permsText status)) v) :
    readConsole fromStr (renderConsole text status) = some v := by
  have hlast : (Str.lines (renderConsole text status)).getLast? =
      some (text.json (consoleObject status (permsText status))) := by
    obtain ⟨front, hpage⟩ : ∃ front, renderConsole text status = front ++ "--- json ---\n" ++
        text.json (consoleObject status (permsText status)) ++ "\n" :=
      ⟨_, (String.append_assoc).symm⟩
    have hfront : (front ++ "--- json ---\n").toList.getLast? = some '\n' := by
      rw [String.toList_append, List.getLast?_append]
      rfl
    rw [hpage]
    exact getLast?_lines hfront hreads.oneLine
  rw [readConsole, hlast, Option.bind_some, hreads.read]

/-- **The console over the connection.**  Whoever the tenant and the user are,
a client of `/console` reads from the last line of the page the object of the
snapshot that was taken. -/
theorem console_get (text : Formats) (fromStr : String → Option Json) (reread : ℚ → ℚ)
    (console : AdminConsole)
    (hreads : ∀ status ∈ console.consoleStatus,
      ReadsBack text fromStr (consoleObject status (permsText status)) (objectRead reread status))
    {target : String} (htarget : routeAdmin target = .console)
    (hascii : ∀ ch ∈ target.toList, ch.toNat < 128 ∧ Str.isWhitespace ch = false)
    (hlen : (utf8 (getLine target)).length ≤ 2048) (more rest : List UInt8) :
    ∃ response page status,
      handleConn text console (utf8 (getLine target) ++ more) = some response ∧
        Http.readResponse (response ++ rest) = some (200, utf8 page) ∧
        console.consoleStatus = some status ∧
        readConsole fromStr page = some (objectRead reread status) := by
  have hne : target ≠ "" := by
    rintro rfl
    exact absurd htarget (by decide)
  -- the route depends on the request line alone, which the read finds whole
  have hroute : routeOf ((utf8 (getLine target) ++ more).take 2048) = .console := by
    rw [routeOf_getLine hne hascii hlen, htarget]
  obtain ⟨status, hstatus⟩ := exists_consoleStatus console
  refine ⟨utf8 (httpResponseConsole text status), renderConsole text status, status, ?_, ?_,
    hstatus, readConsole_renderConsole (hreads status hstatus)⟩
  · rw [handleConn]
    simp only [if_neg (take_getLine_ne_nil target more), hroute, hstatus, Option.map_some]
  · have hutf8 := utf8_head "HTTP/1.1 200 OK" (renderConsole text status)
    rw [show utf8 (httpResponseConsole text status) = _ from hutf8]
    exact readResponse_headOf isStatusLine_ok _ rest

/-- A tenant whose name has the lines of a page in it. -/
def linesConsole : AdminConsole :=
  ⟨⟨"acme\n--- json ---\n\x7b\x7d", "ada\"", .fromMask 63⟩, registryAfter ⟨1, 2, 3, 4, 5, 6⟩ [] []⟩

/-- Its snapshot. -/
def linesStatus : ConsoleStatus :=
  ⟨"acme\n--- json ---\n\x7b\x7d", "ada\"", 63, 6, 1, 2, 3, 4, 5, 0⟩

/-- What `serde_json` writes for the snapshot. -/
def linesJson : String :=
  "\x7b\"audit_events\":6,\"metrics\":\x7b\"completions\":4,\"denials\":5,\"llm_calls\":3," ++
    "\"request_p95_ms\":0.0,\"requests\":1,\"tool_calls\":2\x7d,\"perm_mask\":63," ++
    "\"permissions\":\"Read, Generate, Modify, Execute, Commit, Audit\"," ++
    "\"tenant_id\":\"acme\\n--- json ---\\n\x7b\x7d\",\"user_id\":\"ada\\\"\"\x7d"

/-- The crates on this snapshot. -/
def linesText : Formats := { wholeText with json := fun _ => linesJson }

def linesFromStr (s : String) : Option Json :=
  if s = linesJson then some (consoleObject linesStatus (permsText linesStatus)) else none

theorem console_get_lines :
    ∃ response page status,
      handleConn linesText linesConsole (utf8 (getLine "/console") ++ []) = some response ∧
        Http.readResponse (response ++ []) = some (200, utf8 page) ∧
        linesConsole.consoleStatus = some status ∧
        readConsole linesFromStr page = some (objectRead id status) := by
  have hreads : ∀ status ∈ linesConsole.consoleStatus, ReadsBack linesText linesFromStr
      (consoleObject status (permsText status)) (objectRead id status) := by
    intro status hstatus
    obtain rfl : linesStatus = status := Option.some.inj hstatus
    exact ⟨Str.forall_mem_of_all (by decide +kernel), if_pos rfl⟩
  exact console_get linesText linesFromStr id linesConsole hreads (by decide)
    (Str.forall_mem_of_all (by decide)) (by decide) [] []

end Admin

end AgenticIde
