/-
AgenticIde/CkgQuery.lean

What a query of the code knowledge graph answers.

An entry of an answer is the first symbol of its name, so entries of one name only differ in
their relation, and dropping repeated entries loses none (`mem_query_iff`).  The sort keeps
the entries of a name in the order the edges were followed in; a relation that comes back
after another one is shown twice (`wellShaped_iff`).  A declaration that is not the first of
its name is never shown (`complete_iff`).  Where names are distinct, an answer is the
neighbours and nothing else (`query_symmetric`).

Two facts carry all of this.  The source sorts by file, line and name, and this sort is
stable; entries of one name have one symbol, so they are together after the sort, in the
order in which they were collected.  And `dedup` only compares neighbours.  So what an
answer repeats is read off the kinds of the edges between two names, in the order a query
follows them (`kindsTo`, `filter_filterMap_relatedBy`), and no sorted list has to be looked
at.

The condition of `wellShaped_iff` is on the edges of the graph, that of `complete_iff` on
the files it was made from.  Both are exact, for graphs and files of any kind; the two
small corpora are instances where they fail.
-/
import AgenticIde.CkgNames
import AgenticIde.Lib.Dedup
import AgenticIde.Lib.Lines

namespace AgenticIde

namespace Ckg

open Str

namespace RelatedSymbol

/-- What two entries must differ in to be shown both. -/
def key (r : RelatedSymbol) : String × Nat × String × EdgeKind :=
  (r.file, r.line, r.symbol.name, r.relation)

theorem same_eq_false_iff (a b : RelatedSymbol) : a.same b = false ↔ a.key ≠ b.key := by
  simp [same, key]

theorem le_of_le_of_le (a b c : RelatedSymbol) (hab : a.le b = true) (hbc : b.le c = true) :
    a.le c = true :=
  decide_eq_true ((of_decide_eq_true hab).trans (of_decide_eq_true hbc))

theorem le_or_le (a b : RelatedSymbol) : (a.le b || b.le a) = true := by
  simpa [le] using le_total a.sortKey b.sortKey

theorem sortKey_eq_of_key_eq {a b : RelatedSymbol} (h : a.key = b.key) :
    a.sortKey = b.sortKey := by
  simp only [key, Prod.mk.injEq] at h
  rw [sortKey, sortKey, h.1, h.2.1, h.2.2.1]

theorem tied_iff (a b : RelatedSymbol) :
    (a.le b && b.le a) = true ↔ a.sortKey = b.sortKey := by
  rw [Bool.and_eq_true, le, le, decide_eq_true_iff, decide_eq_true_iff, ← le_antisymm_iff]

end RelatedSymbol

namespace InMemoryCkg

variable {g : InMemoryCkg}

/-! ### The entries of an answer -/

/-- A symbol related to one whose name contains the text.  The relation is an edge
of a kind that queries follow, in either direction, between different names. -/
def Neighbour (g : InMemoryCkg) (needle : String) (s : Symbol) (k : EdgeKind) : Prop :=
  k ∈ relevant ∧ ∃ seed ∈ g.symbols, needle.toList <:+: seed.name.toList ∧
    s.name ≠ seed.name ∧ ∃ e ∈ g.edges, e.kind = k ∧ e.Links seed.name s.name

/-- What a query pushes, before it is sorted. -/
def collected (g : InMemoryCkg) (needle : String) : List RelatedSymbol :=
  (g.seeds needle).flatMap fun seed => g.edges.filterMap (g.relatedBy seed)

theorem query_eq (g : InMemoryCkg) (q : String) :
    g.query q = ((g.collected (trim q)).mergeSort RelatedSymbol.le).destutter
      fun a b => a.same b = false := rfl

theorem mem_collected_iff {needle : String} {r : RelatedSymbol} :
    r ∈ g.collected needle ↔
      ∃ s k, g.Neighbour needle s k ∧ g.symbolByName s.name = some s ∧ r = .of s k := by
  simp only [collected, List.mem_flatMap, List.mem_filterMap, relatedBy_eq_some_iff, seeds,
    List.mem_filter, decide_eq_true_eq]
  constructor
  · rintro ⟨seed, ⟨hseed, hneedle⟩, e, he, hkind, s, hself, hlink, hs, rfl⟩
    exact ⟨s, e.kind, ⟨hkind, seed, hseed, hneedle, hself, e, he, rfl, hlink⟩, hs, rfl⟩
  · rintro ⟨s, k, ⟨hkind, seed, hseed, hneedle, hself, e, he, rfl, hlink⟩, hs, rfl⟩
    exact ⟨seed, ⟨hseed, hneedle⟩, e, he, hkind, s, hself, hlink, hs, rfl⟩

/-- Entries of one name are of one symbol. -/
theorem eq_of_key_eq {needle : String} {a b : RelatedSymbol} (ha : a ∈ g.collected needle)
    (hb : b ∈ g.collected needle) (h : a.key = b.key) : a = b := by
  obtain ⟨s, k, -, hs, rfl⟩ := mem_collected_iff.mp ha
  obtain ⟨s', k', -, hs', rfl⟩ := mem_collected_iff.mp hb
  simp only [RelatedSymbol.key, RelatedSymbol.of, Prod.mk.injEq] at h
  obtain ⟨-, -, hname, rfl⟩ := h
  rw [hname, hs'] at hs
  rw [Option.some.inj hs]

/-- **An answer is the neighbours**, each as the first symbol of its name.  Sorting
and dropping repeated entries change the order and the number of them, not which
there are. -/
theorem mem_query_iff {q : String} {r : RelatedSymbol} :
    r ∈ g.query q ↔
      ∃ s k, g.Neighbour (trim q) s k ∧ g.symbolByName s.name = some s ∧ r = .of s k := by
  rw [← mem_collected_iff, query_eq]
  constructor
  · intro h
    exact List.mem_mergeSort.mp ((List.destutter_sublist _ _).subset h)
  · intro h
    obtain ⟨r', hr', hsame⟩ := exists_mem_destutter
      (R := fun a b : RelatedSymbol => a.same b = false)
      (fun a => by simp [RelatedSymbol.same]) (List.mem_mergeSort.mpr h)
    have hmem := List.mem_mergeSort.mp ((List.destutter_sublist _ _).subset hr')
    rw [RelatedSymbol.same_eq_false_iff, not_not] at hsame
    rwa [← eq_of_key_eq hmem h hsame]

/-! ### The shape of an answer -/

/-- An answer as it is shown: by file, line and name, no entry twice, and nothing
under the symbol it was found from. -/
structure WellShaped (g : InMemoryCkg) (q : String) : Prop where
  sorted : (g.query q).Pairwise fun a b => a.le b = true
  distinct : (g.query q).Pairwise fun a b => a.same b = false
  notSelf : ∀ r ∈ g.query q, ∀ seed ∈ g.seeds (trim q), ∀ e ∈ g.edges,
    g.relatedBy seed e = some r → r.symbol.name ≠ seed.name

/-- A query follows the edge, from a seed of the one name to the other. -/
def follows (seed name : String) (e : Edge) : Bool :=
  e.kind ∈ relevant ∧ name ≠ seed ∧ e.Links seed name

/-- The kinds of the edges between a name and the symbols whose name contains the
text, in the order a query follows them. -/
def kindsTo (g : InMemoryCkg) (needle name : String) : List EdgeKind :=
  (g.seeds needle).flatMap fun seed => (g.edges.filter (follows seed.name name)).map Edge.kind

/-- The entries of one name are those of the edges a query follows to it, in their
order. -/
theorem filter_filterMap_relatedBy {s : Symbol} (hs : g.symbolByName s.name = some s)
    (seed : Symbol) (es : List Edge) :
    (es.filterMap (g.relatedBy seed)).filter (fun r => r.symbol.name = s.name) =
      ((es.filter (follows seed.name s.name)).map Edge.kind).map (.of s) := by
  induction es with
  | nil => rfl
  | cons e es ih =>
      cases he : follows seed.name s.name e with
      | true =>
          obtain ⟨hkind, hself, hlink⟩ := of_decide_eq_true he
          have hrelated : g.relatedBy seed e = some (.of s e.kind) :=
            relatedBy_eq_some_iff.mpr ⟨hkind, s, hself, hlink, hs, rfl⟩
          rw [List.filterMap_cons_some hrelated, List.filter_cons_of_pos he,
            List.filter_cons_of_pos (by simp [RelatedSymbol.of]), ih]
          rfl
      | false =>
          rw [List.filter_cons_of_neg (Bool.not_eq_true _ ▸ he), ← ih]
          -- An edge that is not followed to the name may give an entry, but of another
          -- name.
          cases hrelated : g.relatedBy seed e with
          | none => rw [List.filterMap_cons_none hrelated]
          | some r =>
              rw [List.filterMap_cons_some hrelated, List.filter_cons_of_neg]
              intro hname
              obtain ⟨hkind, s', hself, hlink, -, rfl⟩ := relatedBy_eq_some_iff.mp hrelated
              have hname' : s'.name = s.name := of_decide_eq_true hname
              rw [hname'] at hself hlink
              exact of_decide_eq_false he ⟨hkind, hself, hlink⟩

/-- The entries of a name, in the order they are pushed. -/
theorem filter_collected {s : Symbol} (hs : g.symbolByName s.name = some s) (needle : String) :
    (g.collected needle).filter (fun r => r.symbol.name = s.name) =
      (g.kindsTo needle s.name).map (.of s) := by
  rw [collected, kindsTo, List.filter_flatMap, List.map_flatMap]
  exact List.flatMap_congr fun seed _ => filter_filterMap_relatedBy hs seed g.edges

/-- The entries that are sorted next to an entry are those of its name. -/
theorem filter_tied {needle : String} {s : Symbol} {k : EdgeKind}
    (hs : g.symbolByName s.name = some s) :
    (g.collected needle).filter (fun b => (RelatedSymbol.of s k).le b && b.le (.of s k)) =
      (g.collected needle).filter fun r => r.symbol.name = s.name := by
  apply List.filter_congr
  intro b hb
  obtain ⟨s', k', -, hs', rfl⟩ := mem_collected_iff.mp hb
  rw [Bool.eq_iff_iff, RelatedSymbol.tied_iff, decide_eq_true_iff]
  constructor
  · intro h
    exact (congrArg (fun key => (ofLex (ofLex key).2).2) h).symm
  · intro hname
    have hname' : s'.name = s.name := hname
    rw [hname', hs] at hs'
    rw [Option.some.inj hs']
    rfl

/-- No entry is shown twice exactly where no kind of edge to a symbol comes back
after another one. -/
theorem distinct_iff (g : InMemoryCkg) (q : String) :
    ((g.query q).Pairwise fun a b => a.same b = false) ↔
      ∀ s ∈ g.symbols, NoReturn (g.kindsTo (trim q) s.name) := by
  have hnodup : ((g.query q).Pairwise fun a b => a.same b = false) ↔
      ((((g.collected (trim q)).mergeSort RelatedSymbol.le).map RelatedSymbol.key).destutter
        (· ≠ ·)).Nodup := by
    rw [← List.map_destutter fun a _ b _ => RelatedSymbol.same_eq_false_iff a b, List.Nodup,
      List.pairwise_map, query_eq]
    simp only [RelatedSymbol.same_eq_false_iff]
  have hkinds : ∀ s k, g.symbolByName s.name = some s →
      (NoReturn (((g.collected (trim q)).filter fun b =>
        (RelatedSymbol.of s k).le b && b.le (.of s k)).map RelatedSymbol.key) ↔
          NoReturn (g.kindsTo (trim q) s.name)) := by
    intro s k hs
    rw [filter_tied hs, filter_collected hs, List.map_map]
    apply noReturn_map_iff
    intro k₁ k₂ hkey
    simpa [RelatedSymbol.key, RelatedSymbol.of] using hkey
  rw [hnodup, nodup_destutter_mergeSort_iff RelatedSymbol.le_of_le_of_le RelatedSymbol.le_or_le
    fun a b h => (Bool.and_eq_true_iff.mp
      ((RelatedSymbol.tied_iff a b).mpr (RelatedSymbol.sortKey_eq_of_key_eq h))).1]
  constructor
  · intro h s hs k k' htriple
    obtain ⟨s₀, hs₀, hname⟩ := exists_symbolByName hs
    rw [← hname] at hs₀ htriple
    -- there is an entry of the name, since there are edges to it
    have hmem : RelatedSymbol.of s₀ k ∈ g.collected (trim q) := by
      apply List.mem_of_mem_filter
      rw [filter_collected hs₀]
      exact List.mem_map_of_mem (htriple.subset List.mem_cons_self)
    exact (hkinds s₀ k hs₀).mp (h _ hmem) k k' htriple
  · intro h a ha
    obtain ⟨s, k, -, hs, rfl⟩ := mem_collected_iff.mp ha
    exact (hkinds s k hs).mpr (h s (symbolByName_eq_some hs).1)

/-- **The shape of an answer**, of any graph.  It is sorted, and has nothing under the
symbol it was found from; it has no entry twice exactly where, for each symbol, the
edges to the matched symbols do not return to a kind after one of another kind. -/
theorem wellShaped_iff (g : InMemoryCkg) (q : String) :
    g.WellShaped q ↔ ∀ s ∈ g.symbols, NoReturn (g.kindsTo (trim q) s.name) := by
  rw [← distinct_iff]
  constructor
  · exact fun h => h.distinct
  · intro hdistinct
    refine ⟨?_, hdistinct, ?_⟩
    · rw [query_eq]
      exact (List.pairwise_mergeSort RelatedSymbol.le_of_le_of_le RelatedSymbol.le_or_le
        _).sublist (List.destutter_sublist _ _)
    · intro r _ seed _ e _ hrelated
      obtain ⟨-, s, hself, -, -, rfl⟩ := relatedBy_eq_some_iff.mp hrelated
      exact hself

/-- `step` is called, contained and called again by what `run` matches. -/
def stepFiles : List (String × String) :=
  [("a.rs", "fn run_a() \x7b\n    step();\n\x7d\n" ++
    "impl run_T \x7b\n    fn step() \x7b\x7d\n\x7d\n" ++
    "fn run_b() \x7b\n    step();\n\x7d\n")]

theorem step_shown_twice : ¬ (fromFiles .asciiOnly stepFiles).WellShaped "run" := by
  intro h
  have hmem : (⟨.fn, "step", "a.rs", 5, ""⟩ : Symbol) ∈
      (fromFiles .asciiOnly stepFiles).symbols := by
    decide +kernel
  have hkinds := (distinct_iff _ _).mp h.distinct _ hmem .calls .contains
  exact absurd (hkinds (by decide +kernel)) (by decide)

/-! ### Declarations an answer misses -/

section

variable {u : CharTables} {files : List (String × String)}

theorem fromFiles_symbols (u : CharTables) (files : List (String × String)) :
    (fromFiles u files).symbols = files.flatMap fun f => (parseSource u f.1 f.2).1 := by
  rw [fromFiles_eq]
  rfl

theorem mem_fromFiles_edges {e : Edge} :
    e ∈ (fromFiles u files).edges ↔ ∃ f ∈ files, e ∈ (parseSource u f.1 f.2).2 := by
  rw [fromFiles_eq]
  exact List.mem_flatMap

/-- **The first symbol of a name** is in the first file that declares the name.
Symbols are kept in the order of the files, so what a name stands for depends on the
order in which files are read in. -/
theorem file_symbolByName {name : String} {s : Symbol}
    (h : (fromFiles u files).symbolByName name = some s) :
    (files.find? (declares u name)).map Prod.fst = some s.file := by
  rw [symbolByName, fromFiles_symbols] at h
  -- By induction on the files: the first that has a symbol of the name is the first that
  -- declares it.
  induction files with
  | nil => cases h
  | cons f files ih =>
      rw [List.flatMap_cons, List.find?_append] at h
      cases hf : (parseSource u f.1 f.2).1.find? (·.name = name) with
      | some s' =>
          rw [hf] at h
          obtain rfl := Option.some.inj h
          have hname := List.find?_some hf
          have hdeclares : declares u name f = true :=
            List.any_eq_true.mpr ⟨s', List.mem_of_find?_eq_some hf, hname⟩
          rw [List.find?_cons_of_pos hdeclares, Option.map_some,
            (parseSource_symbols (List.mem_of_find?_eq_some hf)).1]
      | none =>
          rw [hf] at h
          have hdeclares : ¬ declares u name f = true := by
            rw [declares, List.any_eq_true]
            rintro ⟨s', hs', hname⟩
            exact List.find?_eq_none.mp hf s' hs' hname
          rw [List.find?_cons_of_neg hdeclares]
          exact ih h

/-- In some file, an edge of a kind a query follows is between a matched symbol and
another name, which a file of the same path declares. -/
structure Expected (u : CharTables) (files : List (String × String)) (q file : String)
    (k : EdgeKind) (name : String) : Prop where
  followed : k ∈ relevant
  declared : ∃ f ∈ files, f.1 = file ∧ declares u name f = true
  linked : ∃ f ∈ files, f.1 = file ∧ ∃ e ∈ (parseSource u f.1 f.2).2, e.kind = k ∧
    ∃ seed ∈ (fromFiles u files).symbols, q.toList <:+: seed.name.toList ∧
      name ≠ seed.name ∧ e.Links seed.name name

/-- **Completeness**: what is expected is shown, under its own file.  Nothing is
said of entries beyond those; of a name that several files declare, each file has to
show its own. -/
def Complete (u : CharTables) (files : List (String × String)) (q : String) : Prop :=
  ∀ file k name, Expected u files q file k name →
    ∃ r ∈ (fromFiles u files).query q, r.symbol.name = name ∧ r.symbol.file = file ∧
      r.relation = k ∧ r.file = file

/-- **What an answer misses.** It is complete exactly where every name it should
show from a file is declared in no earlier file of another path.  A symbol is looked
up by its name alone, so of several files that declare it only the first is ever
shown. -/
theorem complete_iff (u : CharTables) (files : List (String × String)) (q : String) :
    Complete u files q ↔ ∀ file k name, Expected u files q file k name →
      (files.find? (declares u name)).map Prod.fst = some file := by
  constructor
  -- What is shown under the name is the first symbol of the name, so its file is the first.
  · intro h file k name hexpected
    obtain ⟨r, hr, hname, hfile, -⟩ := h file k name hexpected
    obtain ⟨s, k', -, hs, rfl⟩ := mem_query_iff.mp hr
    rw [← hfile, ← hname]
    exact file_symbolByName hs
  -- The name is declared, so it has a first symbol, which is in the file by the condition;
  -- the edge leads to it.
  · intro h file k name hexpected
    obtain ⟨fd, hfd, -, hdeclares⟩ := hexpected.declared
    obtain ⟨sd, hsd, hsdname⟩ := List.any_eq_true.mp hdeclares
    have hmem : sd ∈ (fromFiles u files).symbols := by
      rw [fromFiles_symbols]
      exact List.mem_flatMap.mpr ⟨fd, hfd, hsd⟩
    obtain ⟨s, hs, hsname⟩ := exists_symbolByName hmem
    rw [of_decide_eq_true hsdname] at hs hsname
    obtain rfl := hsname
    have hfile : s.file = file :=
      Option.some.inj ((file_symbolByName hs).symm.trans (h file k s.name hexpected))
    obtain ⟨f, hf, -, e, he, hkind, seed, hseed, hq, hself, hlink⟩ := hexpected.linked
    refine ⟨.of s k, mem_query_iff.mpr ⟨s, k, ?_, hs, rfl⟩, rfl, hfile, rfl, hfile⟩
    exact ⟨hexpected.followed, seed, hseed, (isInfix_trim q).trans hq, hself, e,
      mem_fromFiles_edges.mpr ⟨f, hf, he⟩, hkind, hlink⟩

/-- A function and its caller. -/
def retrySource : String :=
  "fn retry() \x7b\x7d\n\nfn process() \x7b\n    retry();\n\x7d\n"

/-- The same functions in two files. -/
def twoFiles : List (String × String) := [("a.rs", retrySource), ("z.rs", retrySource)]

theorem retry_of_second_missed : ¬ Complete .asciiOnly twoFiles "process" := by
  intro h
  have hexpected : Expected .asciiOnly twoFiles "process" "z.rs" .calls "retry" :=
    ⟨by decide, by decide +kernel, by decide +kernel⟩
  have hfirst : (fromFiles .asciiOnly twoFiles).symbolByName "retry" =
      some ⟨.fn, "retry", "a.rs", 1, ""⟩ := by
    decide +kernel
  obtain ⟨r, hr, hname, hfile, -⟩ := h _ _ _ hexpected
  obtain ⟨s, k, -, hs, rfl⟩ := mem_query_iff.mp hr
  have hname' : s.name = "retry" := hname
  rw [hname', hfirst] at hs
  obtain rfl := Option.some.inj hs
  have hfile' : "a.rs" = "z.rs" := hfile
  exact absurd hfile' (by decide)

/-! ### Neighbours of each other -/

/-- The declared names of a graph are trimmed. -/
theorem trim_name_of_mem (hu : u.SpaceFree) {s : Symbol} (hs : s ∈ (fromFiles u files).symbols) :
    trim s.name = s.name := by
  rw [fromFiles_symbols] at hs
  obtain ⟨f, -, hsf⟩ := List.mem_flatMap.mp hs
  exact (parseSource_symbols hsf).2.trim_eq hu

theorem symbolByName_of_nodup (hnames : (g.symbols.map Symbol.name).Nodup) {s : Symbol}
    (hs : s ∈ g.symbols) : g.symbolByName s.name = some s := by
  obtain ⟨s₀, hs₀, hname⟩ := exists_symbolByName hs
  rw [hs₀, List.inj_on_of_nodup_map hnames (symbolByName_eq_some hs₀).1 hs hname]

/-- Of two symbols with an edge between them, each is shown for the other; and nothing
is shown for a symbol but neighbours of those whose name contains its own. -/
structure ShowsNeighbours (g : InMemoryCkg) : Prop where
  linked : ∀ e ∈ g.edges, e.kind ∈ relevant → ∀ a ∈ g.symbols, ∀ b ∈ g.symbols, a ≠ b →
    e.Links a.name b.name →
      .of b e.kind ∈ g.query a.name ∧ .of a e.kind ∈ g.query b.name
  nothingElse : ∀ a ∈ g.symbols, ∀ r ∈ g.query a.name,
    ∃ b ∈ g.symbols, ∃ k, g.Neighbour a.name b k ∧ r = .of b k

theorem mem_query_of_links (hnames : (g.symbols.map Symbol.name).Nodup) {e : Edge}
    (he : e ∈ g.edges) (hkind : e.kind ∈ relevant) {a b : Symbol} (ha : a ∈ g.symbols)
    (hb : b ∈ g.symbols) (hne : a ≠ b) (hlink : e.Links a.name b.name)
    (htrim : trim a.name = a.name) : .of b e.kind ∈ g.query a.name := by
  have hself : b.name ≠ a.name :=
    fun hname => hne (List.inj_on_of_nodup_map hnames hb ha hname).symm
  have hneighbour : g.Neighbour (trim a.name) b e.kind := by
    rw [htrim]
    exact ⟨hkind, a, ha, List.infix_refl _, hself, e, he, rfl, hlink⟩
  exact mem_query_iff.mpr ⟨b, e.kind, hneighbour, symbolByName_of_nodup hnames hb, rfl⟩

/-- **Neighbours find each other**, where the names of a graph are distinct.  Then a
name stands for its symbol, and an edge is followed from either end; blanks around
what is asked for are trimmed, and a symbol's name has none to lose. -/
theorem query_symmetric (hu : u.SpaceFree)
    (hnames : ((fromFiles u files).symbols.map Symbol.name).Nodup) :
    (fromFiles u files).ShowsNeighbours where
  linked e he hkind a ha b hb hne hlink :=
    ⟨mem_query_of_links hnames he hkind ha hb hne hlink (trim_name_of_mem hu ha),
      mem_query_of_links hnames he hkind hb ha hne.symm hlink.symm (trim_name_of_mem hu hb)⟩
  nothingElse a ha r hr := by
    obtain ⟨s, k, hneighbour, hs, rfl⟩ := mem_query_iff.mp hr
    rw [trim_name_of_mem hu ha] at hneighbour
    exact ⟨s, (symbolByName_eq_some hs).1, k, hneighbour, rfl⟩

theorem query_symmetric_retry :
    .of ⟨.fn, "retry", "a.rs", 1, ""⟩ .calls ∈
        (fromFiles .asciiOnly [("a.rs", retrySource)]).query "process" ∧
      .of ⟨.fn, "process", "a.rs", 3, ""⟩ .calls ∈
        (fromFiles .asciiOnly [("a.rs", retrySource)]).query "retry" :=
  (query_symmetric spaceFree_asciiOnly (by decide +kernel)).linked
    ⟨"process", "retry", .calls, "a.rs", 4⟩ (by decide +kernel) (by decide)
    ⟨.fn, "process", "a.rs", 3, ""⟩ (by decide +kernel) ⟨.fn, "retry", "a.rs", 1, ""⟩
    (by decide +kernel) (by decide) (by decide)

end

end InMemoryCkg

end Ckg

end AgenticIde
