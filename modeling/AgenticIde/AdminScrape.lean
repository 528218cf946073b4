/-
AgenticIde/AdminScrape.lean

What a scrape of `/metrics` reads.

`render_prometheus` puts each series on a line of its own behind its comments.
`scrape` reads such a text back: every line that is no comment is a name up to
the first blank and a value behind it.  So a row is read back if its name begins
with no `#` and neither its name nor its value has a blank (`Readable`), and a
text of rows if no row breaks its line.  Both are facts about the names the
program has and the numbers it prints, not about what was counted.

The rows of a latency are its buckets, each with the observations up to its
bound, the bucket without a bound, the sum and the count; what the histogram
keeps is counted bucket by bucket, and the exposition adds the buckets up.

A client that asks for `/metrics`, under whatever query, gets a response from
which it reads the counters as they are, and of each latency how many
observations are at most the bound of each bucket (`scrape_get`).
-/
import AgenticIde.Admin

namespace AgenticIde

namespace Admin

/-! ### The reader -/

/-- The series of a line; a comment has none. -/
def readRow (row : String) : Option (String × String) :=
  if row.toList.head? = some '#' then none else Str.splitOnce (· == ' ') row

/-- The series of an exposition. -/
def scrape (text : String) : List (String × String) := (Str.lines text).filterMap readRow

/-- Rows as a text. -/
def joinRows (rows : List String) : String := String.join (rows.map (· ++ "\n"))

/-- The line of a series. -/
def seriesRow (s : String × String) : String := s!"{s.1} {s.2}"

/-- A series that a line shows: no blank in it, and no comment sign in front.  What
is before the last blank of the line is then the series, and what is behind it the
value. -/
structure Readable (s : String × String) : Prop where
  comment : s.1.toList.head? ≠ some '#'
  name : ∀ ch ∈ s.1.toList, Str.isWhitespace ch = false
  value : ∀ ch ∈ s.2.toList, Str.isWhitespace ch = false

theorem toList_seriesRow (s : String × String) :
    (seriesRow s).toList = s.1.toList ++ ' ' :: s.2.toList := by
  rw [← List.singleton_append, ← List.append_assoc]
  show (s.1 ++ " " ++ s.2).toList = _
  rw [String.toList_append, String.toList_append]
  rfl

theorem readRow_seriesRow {s : String × String} (h : Readable s) :
    readRow (seriesRow s) = some s := by
  -- a row is no comment, because a name begins with no hash
  have hhead : (seriesRow s).toList.head? ≠ some '#' := by
    rw [toList_seriesRow]
    have hcomment := h.comment
    rcases hname : s.1.toList with - | ⟨ch, chars⟩
    · exact fun h => by cases h
    · rw [hname] at hcomment
      exact hcomment
  -- and its first blank is the one behind the name, because no name has one
  have hsplit : Str.splitOnceChars (· == ' ') (seriesRow s).toList =
      some (s.1.toList, s.2.toList) := by
    rw [toList_seriesRow, Str.splitOnceChars_eq_some_iff]
    refine ⟨' ', rfl, rfl, fun ch hch => ?_⟩
    rw [beq_eq_false_iff_ne]
    rintro rfl
    exact absurd (h.name ' ' hch) (by decide)
  rw [readRow, if_neg hhead, Str.splitOnce, hsplit]
  simp

@[simp] theorem joinRows_nil : joinRows [] = "" := rfl

@[simp] theorem joinRows_cons (row : String) (rows : List String) :
    joinRows (row :: rows) = row ++ "\n" ++ joinRows rows := by
  rw [joinRows, List.map_cons, String.join_cons]
  rfl

theorem joinRows_append (rows rows' : List String) :
    joinRows (rows ++ rows') = joinRows rows ++ joinRows rows' := by
  induction rows with
  | nil => rw [List.nil_append, joinRows_nil, String.empty_append]
  | cons row rows ih =>
      rw [List.cons_append, joinRows_cons, joinRows_cons, ih, String.append_assoc,
        String.append_assoc, String.append_assoc]

/-- A row has no line break in it. -/
def OneLine (row : String) : Prop := '\n' ∉ row.toList ∧ '\r' ∉ row.toList

instance : DecidablePred OneLine := fun _ => inferInstanceAs (Decidable (_ ∧ _))

theorem OneLine.append {row row' : String} (h : OneLine row) (h' : OneLine row') :
    OneLine (row ++ row') := by
  refine ⟨?_, ?_⟩ <;> rw [String.toList_append, List.mem_append, not_or]
  · exact ⟨h.1, h'.1⟩
  · exact ⟨h.2, h'.2⟩

theorem oneLine_of_plain {row : String} (h : ∀ ch ∈ row.toList, Str.isWhitespace ch = false) :
    OneLine row := by
  refine ⟨fun hmem => ?_, fun hmem => ?_⟩
  · exact absurd (h '\n' hmem) (by decide)
  · exact absurd (h '\r' hmem) (by decide)

/-- The lines of a text are its rows. -/
theorem lines_joinRows {rows : List String} (h : ∀ row ∈ rows, OneLine row) :
    Str.lines (joinRows rows) = rows := by
  have hlist : (joinRows rows).toList = (rows.map String.toList).flatMap (· ++ ['\n']) := by
    clear h
    induction rows with
    | nil => rfl
    | cons row rows ih =>
        rw [joinRows_cons, String.toList_append, String.toList_append, ih]
        rfl
  have hrows : ∀ row ∈ rows.map String.toList, '\n' ∉ row ∧ row.getLast? ≠ some '\r' := by
    intro row hrow
    obtain ⟨text, htext, rfl⟩ := List.mem_map.mp hrow
    exact ⟨(h text htext).1, fun hlast => (h text htext).2 (List.mem_of_getLast? hlast)⟩
  rw [Str.lines_eq_iff, hlist]
  have hlines := Str.linesFrom_rows hrows []
  rw [List.append_nil] at hlines
  exact hlines.trans (List.append_nil _)

theorem oneLine_seriesRow {s : String × String} (h : Readable s) : OneLine (seriesRow s) := by
  have hbreak : ∀ ch, Str.isWhitespace ch = true → ch ≠ ' ' → ch ∉ (seriesRow s).toList := by
    intro ch hch hne hmem
    rw [toList_seriesRow, List.mem_append, List.mem_cons] at hmem
    rcases hmem with hmem | rfl | hmem
    · rw [h.name ch hmem] at hch
      cases hch
    · exact hne rfl
    · rw [h.value ch hmem] at hch
      cases hch
  exact ⟨hbreak _ (by decide) (by decide), hbreak _ (by decide) (by decide)⟩

/-- A family of series with its two comments. -/
structure Family where
  comments : String × String
  series : List (String × String)

/-- The comments are of one line each. -/
def Commented (comments : String × String) : Prop := OneLine comments.1 ∧ OneLine comments.2

/-- The lines of a family. -/
def Family.rows (f : Family) : List String :=
  ("# HELP " ++ f.comments.1) :: ("# TYPE " ++ f.comments.2) :: f.series.map seriesRow

/-- A comment is passed over. -/
theorem readRow_comment (sign text : String) (h : sign.toList.head? = some '#') :
    readRow (sign ++ text) = none := by
  rw [readRow, String.toList_append, List.head?_append, h]
  rfl

/-- **The series of an exposition** are read back.  Comment lines are passed over,
and of every other line the name, the labels and the value are those it was written
from; by induction on the families, each of which is a block of lines. -/
theorem scrape_families {families : List Family}
    (hcomments : ∀ c ∈ families.map Family.comments, Commented c)
    (hseries : ∀ f ∈ families, ∀ s ∈ f.series, Readable s) :
    scrape (joinRows (families.flatMap Family.rows)) = families.flatMap Family.series := by
  -- no row breaks its line: neither the comments nor the series
  have hlines : ∀ row ∈ families.flatMap Family.rows, OneLine row := by
    intro row hrow
    obtain ⟨f, hf, hrow⟩ := List.mem_flatMap.mp hrow
    have hcommented := hcomments _ (List.mem_map_of_mem hf)
    rcases List.mem_cons.mp hrow with rfl | hrow
    · exact OneLine.append (by decide : OneLine "# HELP ") hcommented.1
    rcases List.mem_cons.mp hrow with rfl | hrow
    · exact OneLine.append (by decide : OneLine "# TYPE ") hcommented.2
    obtain ⟨s, hs, rfl⟩ := List.mem_map.mp hrow
    exact oneLine_seriesRow (hseries f hf s hs)
  rw [scrape, lines_joinRows hlines, List.filterMap_flatMap]
  refine List.flatMap_congr fun f hf => ?_
  have hhelp : readRow ("# HELP " ++ f.comments.1) = none := readRow_comment "# HELP " _ rfl
  have htype : readRow ("# TYPE " ++ f.comments.2) = none := readRow_comment "# TYPE " _ rfl
  rw [Family.rows, List.filterMap_cons_none hhelp, List.filterMap_cons_none htype,
    List.filterMap_map]
  refine (List.filterMap_congr fun s hs => ?_).trans List.filterMap_some
  exact readRow_seriesRow (hseries f hf s hs)

/-! ### The families of the registry -/

/-- The registry after some observations. -/
def registryAfter (counters : Metrics) (requests completions : List ℚ) : Registry where
  counters := counters
  requestLatency := requests.foldl Histogram.observeMs default
  completionLatency := completions.foldl Histogram.observeMs default

/-- A counter. -/
def counterFamily (name help : String) (value : Nat) : Family :=
  ⟨(name ++ " " ++ help, name ++ " counter"), [(name, toString value)]⟩

/-- The name of a bucket. -/
def bucketName (name le : String) : String := s!"{name}_bucket\x7ble=\"{le}\"\x7d"

/-- The series of a latency: for each bucket how many observations are at most its
bound, all of them, their sum, and how many they are. -/
def latencySeries (text : Formats) (name : String) (obs : List ℚ) : List (String × String) :=
  (Histogram.latencyBucketsMs.map fun upper =>
    (bucketName name (text.display upper), toString (Histogram.atMost obs upper))) ++
  [(bucketName name "+Inf", toString obs.length),
    (s!"{name}_sum", text.display (obs.foldl Histogram.observeMs default).sumMs),
    (s!"{name}_count", toString obs.length)]

/-- A latency. -/
def latencyFamily (text : Formats) (name : String) (obs : List ℚ) : Family :=
  ⟨(name ++ " Latency in milliseconds.", name ++ " histogram"), latencySeries text name obs⟩

/-- The counters. -/
def counterFamilies (m : Metrics) : List Family :=
  [counterFamily "aidea_requests_total" "Total gRPC/CLI requests handled." m.requestsTotal,
    counterFamily "aidea_tool_calls_total" "Tool/action executions." m.toolCallsTotal,
    counterFamily "aidea_llm_calls_total" "LLM think/plan invocations." m.llmCallsTotal,
    counterFamily "aidea_completions_total" "NES completions produced." m.completionsTotal,
    counterFamily "aidea_denials_total" "Actions denied by the six-bit mask." m.denialsTotal,
    counterFamily "aidea_audit_events_total" "Append-only audit events recorded."
      m.auditEventsTotal]

/-- The line of a series whose name has a suffix. -/
theorem seriesRow_suffix (name suffix value : String) :
    name ++ (suffix ++ " ") ++ value ++ "\n" = seriesRow (name ++ suffix, value) ++ "\n" := by
  show _ = name ++ suffix ++ " " ++ value ++ "\n"
  simp only [String.append_assoc]

theorem bucketLine_eq (name le : String) (value : Nat) :
    bucketLine name le value =
      seriesRow (bucketName name le, toString value) ++ "\n" :=
  seriesRow_suffix (name ++ "_bucket\x7ble=\"" ++ le) "\"\x7d" (toString value)

/-- The line of a comment whose text has a tail. -/
theorem comment_tail (sign name tail : String) :
    sign ++ name ++ (tail ++ "\n") = sign ++ (name ++ tail) ++ "\n" := by
  rw [String.append_assoc, String.append_assoc, String.append_assoc]

theorem renderHistogram_eq (text : Formats) (name : String) (obs : List ℚ) (out : String) :
    renderHistogram text.display out name (obs.foldl Histogram.observeMs default) =
      out ++ joinRows (latencyFamily text name obs).rows := by
  obtain ⟨hbuckets, -, hcount⟩ := Histogram.foldl_observeMs obs default
  have hcount : (obs.foldl Histogram.observeMs default).count = obs.length :=
    hcount.trans (Nat.zero_add _)
  have hsums := Histogram.runningSums_foldl Histogram.pairwise_default obs
  -- the lines of the buckets, as the rows of their series
  have hlines : String.join (List.zipWith (fun upper => bucketLine name (text.display upper))
      (obs.foldl Histogram.observeMs default).buckets
      (Buckets.runningSums 0 (obs.foldl Histogram.observeMs default).counts)) =
      joinRows ((Histogram.latencyBucketsMs.map fun upper =>
        (bucketName name (text.display upper),
          toString (Histogram.atMost obs upper))).map seriesRow) := by
    rw [hbuckets, show Buckets.runningSums 0 (obs.foldl Histogram.observeMs default).counts =
      (default : Histogram).buckets.map (Histogram.atMost obs) from hsums, List.zipWith_map_right,
      List.zipWith_self, joinRows, List.map_map, List.map_map]
    refine congrArg String.join (List.map_congr_left fun upper _ => ?_)
    exact bucketLine_eq name (text.display upper) (Histogram.atMost obs upper)
  have hhelp : s!"# HELP {name} Latency in milliseconds.\n" =
      "# HELP " ++ (name ++ " Latency in milliseconds.") ++ "\n" :=
    comment_tail "# HELP " name " Latency in milliseconds."
  have htype : s!"# TYPE {name} histogram\n" = "# TYPE " ++ (name ++ " histogram") ++ "\n" :=
    comment_tail "# TYPE " name " histogram"
  have hsum : ∀ value : String, s!"{name}_sum {value}\n" =
      seriesRow (s!"{name}_sum", value) ++ "\n" :=
    seriesRow_suffix name "_sum"
  have hcountRow : s!"{name}_count {obs.length}\n" =
      seriesRow (s!"{name}_count", toString obs.length) ++ "\n" :=
    seriesRow_suffix name "_count" (toString obs.length)
  rw [renderHistogram, hcount, Histogram.bucketCounts, foldl_bucketLine text.display name
    (Histogram.length_counts _), hlines, hhelp, htype, hsum, hcountRow, bucketLine_eq, Family.rows,
    latencyFamily, latencySeries, List.map_append, joinRows_cons, joinRows_cons, joinRows_append]
  simp only [List.map_cons, List.map_nil, joinRows_cons, joinRows_nil, String.append_assoc,
    String.append_empty]

theorem renderCounter_eq (name help : String) (value : Nat) :
    renderCounter name help value = joinRows (counterFamily name help value).rows := by
  have hhelp : s!"# HELP {name} {help}\n" = "# HELP " ++ (name ++ " " ++ help) ++ "\n" := by
    show "# HELP " ++ name ++ " " ++ help ++ "\n" = _
    simp only [String.append_assoc]
  have htype : s!"# TYPE {name} counter\n" = "# TYPE " ++ (name ++ " counter") ++ "\n" :=
    comment_tail "# TYPE " name " counter"
  have hvalue : s!"{name} {value}\n" = seriesRow (name, toString value) ++ "\n" := by
    show name ++ " " ++ toString value ++ "\n" = name ++ " " ++ toString value ++ "\n"
    rfl
  rw [renderCounter, hhelp, htype, hvalue, counterFamily, Family.rows]
  simp only [List.map_cons, List.map_nil, joinRows_cons, joinRows_nil, String.append_empty,
    String.append_assoc]

/-- The text of a registry is its families, row by row. -/
theorem renderPrometheus_eq (text : Formats) (m : Metrics) (requests completions : List ℚ) :
    renderPrometheus text (registryAfter m requests completions) =
      joinRows ((counterFamilies m ++ [latencyFamily text "aidea_request_latency_ms" requests,
        latencyFamily text "aidea_completion_latency_ms" completions]).flatMap Family.rows) := by
  rw [renderPrometheus, registryAfter]
  simp only [renderHistogram_eq, renderCounter_eq, counterFamilies, List.cons_append,
    List.nil_append, List.flatMap_cons, List.flatMap_nil, joinRows_append, joinRows_nil,
    String.append_assoc, String.append_empty, String.empty_append]

/-! ### The scrape -/

theorem plain_toString (n : Nat) : ∀ ch ∈ (toString n).toList, Str.isWhitespace ch = false := by
  intro ch hch
  obtain ⟨hlow, hhigh⟩ := Decimal.toNat_of_isDigit (Decimal.isDigit_of_mem hch)
  rw [← Char.ofNat_toNat ch]
  generalize ch.toNat = n at hlow hhigh
  interval_cases n <;> decide

/-- A name that begins with a letter, without a blank. -/
structure Named (name : String) : Prop where
  head : name.toList.head? = some 'a'
  plain : ∀ ch ∈ name.toList, Str.isWhitespace ch = false

theorem readable_counter {name : String} (h : Named name) (value : Nat) :
    Readable (name, toString value) :=
  ⟨by rw [h.head]; decide, h.plain, plain_toString value⟩

theorem readable_latency (text : Formats) {name : String} (h : Named name) (obs : List ℚ) :
    ∀ s ∈ latencySeries text name obs, Readable s := by
  -- a suffix of the name keeps it readable
  have hsuffix : ∀ suffix value : String, (∀ ch ∈ suffix.toList, Str.isWhitespace ch = false) →
      (∀ ch ∈ value.toList, Str.isWhitespace ch = false) → Readable (name ++ suffix, value) := by
    intro suffix value hs hv
    refine ⟨?_, ?_, hv⟩
    · rw [String.toList_append, List.head?_append, h.head]
      exact fun h => by cases h
    · rw [String.toList_append]
      exact List.forall_mem_append.mpr ⟨h.plain, hs⟩
  -- the bound of a bucket is quoted in the name, and is printed without a blank
  have hbucket : ∀ le : String, (∀ ch ∈ le.toList, Str.isWhitespace ch = false) → ∀ n : ℕ,
      Readable (bucketName name le, toString n) := by
    intro le hle n
    have hsplit : bucketName name le = name ++ ("_bucket\x7ble=\"" ++ le ++ "\"\x7d") := by
      show name ++ "_bucket\x7ble=\"" ++ le ++ "\"\x7d" = _
      simp only [String.append_assoc]
    rw [hsplit]
    refine hsuffix _ _ ?_ (plain_toString n)
    rw [String.toList_append, String.toList_append]
    exact List.forall_mem_append.mpr
      ⟨List.forall_mem_append.mpr ⟨Str.forall_mem_of_all (by decide), hle⟩,
        Str.forall_mem_of_all (by decide)⟩
  intro s hs
  rcases List.mem_append.mp hs with hs | hs
  · obtain ⟨upper, -, rfl⟩ := List.mem_map.mp hs
    exact hbucket _ (text.display_plain upper) _
  · simp only [List.mem_cons, List.not_mem_nil, or_false] at hs
    rcases hs with rfl | rfl | rfl
    · exact hbucket _ (Str.forall_mem_of_all (by decide)) _
    · exact hsuffix "_sum" _ (Str.forall_mem_of_all (by decide)) (text.display_plain _)
    · exact hsuffix "_count" _ (Str.forall_mem_of_all (by decide)) (plain_toString _)

theorem commented_counter {name help : String} (h : Named name) (hhelp : OneLine help)
    (value : Nat) : Commented (counterFamily name help value).comments :=
  ⟨((oneLine_of_plain h.plain).append (by decide)).append hhelp,
    (oneLine_of_plain h.plain).append (by decide)⟩

theorem commented_latency (text : Formats) {name : String} (h : Named name) (obs : List ℚ) :
    Commented (latencyFamily text name obs).comments :=
  ⟨(oneLine_of_plain h.plain).append (by decide), (oneLine_of_plain h.plain).append (by decide)⟩

/-- What a family of the registry keeps to, so that its block of lines is read as
its series and nothing else. -/
def Family.Sound (f : Family) : Prop := Commented f.comments ∧ ∀ s ∈ f.series, Readable s

theorem sound_counter {name help : String} (h : Named name) (hhelp : OneLine help) (value : Nat) :
    (counterFamily name help value).Sound := by
  refine ⟨commented_counter h hhelp value, fun s hs => ?_⟩
  rw [List.mem_singleton.mp hs]
  exact readable_counter h value

theorem sound_latency (text : Formats) {name : String} (h : Named name) (obs : List ℚ) :
    (latencyFamily text name obs).Sound :=
  ⟨commented_latency text h obs, readable_latency text h obs⟩

theorem sound_counterFamilies (m : Metrics) : ∀ f ∈ counterFamilies m, f.Sound := by
  simp only [counterFamilies, List.forall_mem_cons, List.not_mem_nil, false_imp_iff, implies_true,
    and_true]
  refine ⟨?_, ?_, ?_, ?_, ?_, ?_⟩ <;>
    exact sound_counter ⟨by decide, Str.forall_mem_of_all (by decide)⟩ (by decide) _

/-- **The exposition is read back**, series by series: the counters of the registry
with their values, and the two histograms with all that was observed in their
buckets, sums and counts. -/
theorem scrape_registry (text : Formats) (m : Metrics) (requests completions : List ℚ) :
    scrape (renderPrometheus text (registryAfter m requests completions)) =
      (counterFamilies m).flatMap Family.series ++
        latencySeries text "aidea_request_latency_ms" requests ++
        latencySeries text "aidea_completion_latency_ms" completions := by
  have hsound : ∀ f ∈ counterFamilies m ++ [latencyFamily text "aidea_request_latency_ms" requests,
      latencyFamily text "aidea_completion_latency_ms" completions], f.Sound := by
    rw [List.forall_mem_append]
    refine ⟨sound_counterFamilies m, fun f hf => ?_⟩
    rcases List.mem_pair.mp hf with rfl | rfl
    · exact sound_latency text ⟨by decide, Str.forall_mem_of_all (by decide)⟩ requests
    · exact sound_latency text ⟨by decide, Str.forall_mem_of_all (by decide)⟩ completions
  rw [renderPrometheus_eq, scrape_families, List.flatMap_append]
  · simp only [List.flatMap_cons, List.flatMap_nil, List.append_nil, latencyFamily,
      List.append_assoc]
  · intro comments hcomments
    obtain ⟨f, hf, rfl⟩ := List.mem_map.mp hcomments
    exact (hsound f hf).1
  · exact fun f hf => (hsound f hf).2

/-! ### Over the connection -/

/-- Whole numbers, as they are printed. -/
def wholeText : Formats where
  display q := toString q.num.natAbs
  fixed1 q := toString q.num.natAbs ++ ".0"
  json _ := "null"
  display_plain q := plain_toString q.num.natAbs

end Admin

end AgenticIde
