/-
AgenticIde/CkgPersistence.lean

What a code knowledge graph store has after it connects: rows of its own tenant only
(`connect_isolated`), and what an earlier store of the tenant had ingested, if that was
nothing (`roundTrip_iff`).

Both are due to the type of one column.  The store binds and reads a line number as a 64-bit
integer, and 0004 made the columns `INTEGER`: the driver refuses every INSERT, which is only
logged, and `load` fails at the first row it sees, before anything is pushed.

So the mirror of a store that has connected is empty, whatever is in the tables and whatever
the server does with the session, and isolation holds for a poor reason.  A store still
answers from what it has ingested itself, since ingesting a file extends the mirror before
it is written; that is why a round trip is asked for between two stores, and why it fails
only once a restart lies in between.

`CkgServer` has the two outcomes that are not the store's, whether the role reads past the
policies and whether the server accepts the setting of the tenant.  The results hold for
both, and for different servers before and after the restart.
-/
import AgenticIde.PgCkg

namespace AgenticIde

namespace Ckg

open RowSecurity Pg

/-! ### Tenants -/

/-- The graph in the rows of one tenant. -/
def CkgDb.graphOf (db : CkgDb) (tenantId : String) : InMemoryCkg where
  symbols := (db.symbols.filter (·.tenantId = tenantId)).map CkgSymbolRow.toSymbol
  edges := (db.edges.filter (·.tenantId = tenantId)).map CkgEdgeRow.toEdge

/-- **Isolation.**  Whatever the tables hold and whatever the server does, a
store that has connected has symbols and edges of its tenant only, and answers
from them. -/
theorem connect_isolated (server : CkgServer) (tenantId : String) (db : CkgDb) :
    let mirror := (PgCkgStore.connect server .v15 tenantId db).mirror
    mirror.symbols ⊆ (db.graphOf tenantId).symbols ∧ mirror.edges ⊆ (db.graphOf tenantId).edges ∧
      ∀ q, ∀ r ∈ mirror.query q, r.symbol ∈ (db.graphOf tenantId).symbols ∧
        ∃ e ∈ (db.graphOf tenantId).edges, r.relation = e.kind := by
  intro mirror
  have hmirror : mirror = .new := PgCkgStore.connect_v15_mirror server tenantId db
  have hsymbols : mirror.symbols ⊆ (db.graphOf tenantId).symbols := by
    rw [hmirror]
    exact List.nil_subset _
  have hedges : mirror.edges ⊆ (db.graphOf tenantId).edges := by
    rw [hmirror]
    exact List.nil_subset _
  refine ⟨hsymbols, hedges, fun q r hr => ?_⟩
  obtain ⟨hsymbol, e, he, hrelation⟩ := InMemoryCkg.mem_query hr
  exact ⟨hsymbols hsymbol, e, hedges he, hrelation⟩

/-! ### Restarts -/

/-- Two graphs have the same symbols and edges, and answer with the same
related symbols. -/
def SameGraph (m m' : InMemoryCkg) : Prop :=
  m.symbols.Perm m'.symbols ∧ m.edges.Perm m'.edges ∧ ∀ q r, r ∈ m.query q ↔ r ∈ m'.query q

/-- **Round trip.** A store that connects has what a store of the tenant had that
connected before and ingested some files.  The two may meet different servers, which
answer their statements differently; what is compared is the graph in memory, where
queries are answered. -/
def RoundTrip (u : Str.CharTables) (columns : CkgColumns) (server server' : CkgServer)
    (tenantId : String) (db : CkgDb) (files : List (String × String)) : Prop :=
  let before := (PgCkgStore.connect server columns tenantId db).ingestAll u columns files db
  SameGraph (PgCkgStore.connect server' columns tenantId before.2).mirror before.1.mirror

/-- Over the columns of 0004, the mirror grows and the tables stay. -/
theorem ingestAll_v15 (u : Str.CharTables) (self : PgCkgStore) (files : List (String × String))
    (db : CkgDb) :
    self.ingestAll u .v15 files db =
      ({ self with mirror := self.mirror.extend (parseAll u files) }, db) := by
  induction files generalizing self with
  | nil =>
      show (self, db) = ({ self with mirror := self.mirror.extend ([], []) }, db)
      rw [InMemoryCkg.extend_nil]
  | cons f files ih =>
      rw [PgCkgStore.ingestAll, List.foldl_cons, PgCkgStore.ingestFile_v15,
        InMemoryCkg.extend_parseAll_cons]
      exact ih _

/-- **Nothing survives a restart.**  Over the columns of 0004 a store has what
an earlier one had ingested exactly when no file declared or related
anything. -/
theorem roundTrip_iff (u : Str.CharTables) (server server' : CkgServer) (tenantId : String)
    (db : CkgDb) (files : List (String × String)) :
    RoundTrip u .v15 server server' tenantId db files ↔
      ∀ f ∈ files, parseSource u f.1 f.2 = ([], []) := by
  unfold RoundTrip
  rw [ingestAll_v15]
  simp only [PgCkgStore.connect_v15_mirror]
  constructor
  -- Nothing came back, so nothing may have been ingested: neither a symbol nor an edge, in
  -- any file.
  · rintro ⟨hsymbols, hedges, -⟩ f hf
    have hsymbols' : files.flatMap (fun f => (parseSource u f.1 f.2).1) = [] :=
      List.nil_perm.mp hsymbols
    have hedges' : files.flatMap (fun f => (parseSource u f.1 f.2).2) = [] :=
      List.nil_perm.mp hedges
    exact Prod.ext (List.flatMap_eq_nil_iff.mp hsymbols' f hf)
      (List.flatMap_eq_nil_iff.mp hedges' f hf)
  · intro hfiles
    have hall : parseAll u files = ([], []) := by
      refine Prod.ext ?_ ?_
      · exact List.flatMap_eq_nil_iff.mpr fun f hf => by rw [hfiles f hf]
      · exact List.flatMap_eq_nil_iff.mpr fun f hf => by rw [hfiles f hf]
    rw [hall, InMemoryCkg.extend_nil]
    exact ⟨.refl _, .refl _, fun _ _ => Iff.rfl⟩

/-- A function, ingested on a server that answers everything. -/
theorem not_roundTrip_fn :
    ¬ RoundTrip .asciiOnly .v15 ⟨true, true, false, true, true⟩ ⟨true, true, false, true, true⟩
      "acme" ⟨[], []⟩ [("a.rs", "fn f() \x7b\x7d")] := by
  rintro ⟨hsymbols, -⟩
  have hlength := hsymbols.length_eq
  exact absurd hlength (by decide +kernel)

end Ckg

end AgenticIde
