/-
AgenticIde/PgCkg.lean

The code knowledge graph in PostgreSQL: the tables `ckg_symbols` and `ckg_edges` (migrations
0004 and 0005) and the store that mirrors them in memory (`PgCkgStore` of `ckg.rs`).

Queries read the mirror.  The tables are read once, when the store connects, and written as
files are ingested; a statement that fails is logged and nothing else comes of it.  Which
rows the store reads is up to the row-level security policy alone: the SELECT statements have
no WHERE clause, and the outcome of the statement that sets the tenant is ignored.

Lines are written and read as 64-bit integers, and the columns have 32 bits.  So no row is
ever written (`insertSymbol_v15`), and the first row that is read ends the loading
(`load_v15`).

What the server does is a parameter: whether it can be reached, whether it takes the setting
of the tenant, whether the role reads past the policies, and whether each statement comes
through.  The types of the columns are data, so that the gates of an `INSERT` can be written
as the driver and the server apply them: the driver compares the type of each parameter with
that of its column, before the server sees the texts and the policy sees the row.

A kind of symbol or edge is stored as a text, and an unknown text is read as a function or a
call.
-/
import AgenticIde.Ckg
import AgenticIde.Lib.PgTypes
import AgenticIde.PgAudit

namespace AgenticIde

namespace Ckg

open RowSecurity Pg

/-! ### The tables -/

/-- A row of `ckg_symbols`. -/
structure CkgSymbolRow where
  tenantId : String
  kind : String
  name : String
  file : String
  line : Int
  doc : String

/-- A row of `ckg_edges`. -/
structure CkgEdgeRow where
  tenantId : String
  fromName : String
  toName : String
  kind : String
  file : String
  line : Int

/-- The two tables. -/
structure CkgDb where
  symbols : List CkgSymbolRow
  edges : List CkgEdgeRow

/-- The types of the columns `line` of the two tables. -/
structure CkgColumns where
  symbolLine : ColumnType
  edgeLine : ColumnType

/-- The columns of migration 0004. -/
def CkgColumns.v15 : CkgColumns := ⟨.integer, .integer⟩

/-- `ckg_symbols_tenant_isolation` and `ckg_edges_tenant_isolation` (0005):
permissive, `FOR ALL`. -/
def ckgTenantIsolation {ρ : Type} (tenantId : ρ → String) : Policy PgSession ρ where
  permissive := true
  command := none
  admits := fun _ s r => tenantMatches s (tenantId r)

/-- The policies on `ckg_symbols`. -/
def ckgSymbolsPolicies : List (Policy PgSession CkgSymbolRow) :=
  [ckgTenantIsolation CkgSymbolRow.tenantId]

/-- The policies on `ckg_edges`. -/
def ckgEdgesPolicies : List (Policy PgSession CkgEdgeRow) :=
  [ckgTenantIsolation CkgEdgeRow.tenantId]

@[simp] theorem rowAdmitted_ckgTenantIsolation {ρ : Type} (tenantId : ρ → String) (c : Command)
    (s : PgSession) (r : ρ) :
    rowAdmitted [ckgTenantIsolation tenantId] c s r = tenantMatches s (tenantId r) := by
  simp [rowAdmitted, ckgTenantIsolation, Policy.appliesTo]

/-- The rows a session reads. -/
def CkgDb.visible (db : CkgDb) (s : PgSession) : CkgDb where
  symbols := visibleRows ckgSymbolsPolicies s.bypassRls s db.symbols
  edges := visibleRows ckgEdgesPolicies s.bypassRls s db.edges

/-- What a statement can fail with. -/
inductive CkgError
  /-- the connection fails -/
  | unavailable
  /-- a parameter, or a column, of a type the driver does not convert -/
  | wrongType (e : WrongType)
  /-- invalid byte sequence for encoding "UTF8": 0x00 -/
  | invalidText
  /-- new row violates row-level security policy -/
  | rowSecurity
  deriving DecidableEq

/-! ### Reading -/

/-- The kind a `ckg_symbols.kind` stands for; an unknown one counts as a
function. -/
def SymbolKind.ofStr (s : String) : SymbolKind :=
  if s = "Mod" then .mod
  else if s = "Fn" then .fn
  else if s = "Struct" then .struct
  else if s = "Impl" then .impl
  else if s = "Trait" then .trait
  else .fn

/-- The kind a `ckg_edges.kind` stands for; an unknown one counts as a call. -/
def EdgeKind.ofStr (s : String) : EdgeKind :=
  if s = "Calls" then .calls
  else if s = "Defines" then .defines
  else if s = "Imports" then .imports
  else if s = "Contains" then .contains
  else .calls

theorem SymbolKind.ofStr_asStr (k : SymbolKind) : ofStr k.asStr = k := by
  cases k <;> rfl

theorem EdgeKind.ofStr_asStr (k : EdgeKind) : ofStr k.asStr = k := by
  cases k <;> rfl

/-- The symbol of a row. -/
def CkgSymbolRow.toSymbol (r : CkgSymbolRow) : Symbol :=
  ⟨.ofStr r.kind, r.name, r.file, asUsize r.line, r.doc⟩

/-- The edge of a row. -/
def CkgEdgeRow.toEdge (r : CkgEdgeRow) : Edge :=
  ⟨r.fromName, r.toName, .ofStr r.kind, r.file, asUsize r.line⟩

/-- Read `kind, name, file, line, doc`. -/
def symbolFromRow (columns : CkgColumns) (r : CkgSymbolRow) : Except WrongType Symbol :=
  (checkTypes [(.string, .text), (.string, .text), (.string, .text), (.i64, columns.symbolLine),
    (.string, .text)]).map fun _ => r.toSymbol

/-- Read `from_name, to_name, kind, file, line`. -/
def edgeFromRow (columns : CkgColumns) (r : CkgEdgeRow) : Except WrongType Edge :=
  (checkTypes [(.string, .text), (.string, .text), (.string, .text), (.string, .text),
    (.i64, columns.edgeLine)]).map fun _ => r.toEdge

/-- Push the rows of a result one after the other; the first one that cannot be
read ends it. -/
def pushRows {ρ α : Type} (read : ρ → Except WrongType α) (push : InMemoryCkg → α → InMemoryCkg) :
    List ρ → InMemoryCkg → Except CkgError Unit × InMemoryCkg
  | [], m => (.ok (), m)
  | r :: rs, m =>
      match read r with
      | .error e => (.error (.wrongType e), m)
      | .ok a => pushRows read push rs (push m a)

/-- What a server does for a store: whether it can be reached, whether it
executes `SET app.tenant_id = $1`, whether its role bypasses row-level
security, and whether the two SELECT statements get an answer. -/
structure CkgServer where
  reachable : Bool
  setAccepted : Bool
  bypassRls : Bool
  readsSymbols : Bool
  readsEdges : Bool

/-- Load persisted symbols and edges into the mirror. -/
def load (server : CkgServer) (columns : CkgColumns) (s : PgSession) (db : CkgDb)
    (m : InMemoryCkg) : Except CkgError Unit × InMemoryCkg :=
  if !server.readsSymbols then (.error .unavailable, m)
  else
    match pushRows (symbolFromRow columns) (fun m a => { m with symbols := m.symbols ++ [a] })
      (db.visible s).symbols m with
    | (.error e, m) => (.error e, m)
    | (.ok (), m) =>
        if !server.readsEdges then (.error .unavailable, m)
        else
          pushRows (edgeFromRow columns) (fun m a => { m with edges := m.edges ++ [a] })
            (db.visible s).edges m

/-! ### Writing -/

/-- The row of a symbol. -/
def Symbol.toRow (s : Symbol) (tenantId : String) : CkgSymbolRow :=
  ⟨tenantId, s.kind.asStr, s.name, s.file, asI64 s.line, s.doc⟩

/-- The row of an edge. -/
def Edge.toRow (e : Edge) (tenantId : String) : CkgEdgeRow :=
  ⟨tenantId, e.fromName, e.toName, e.kind.asStr, e.file, asI64 e.line⟩

/-- An INSERT: the driver checks the types of the parameters, the server their
texts, and the policy the row. -/
def insertRow {ρ : Type} (types : List (RustType × ColumnType)) (texts : ρ → List String)
    (policies : List (Policy PgSession ρ)) (put : CkgDb → ρ → CkgDb) (s : PgSession) (r : ρ)
    (db : CkgDb) : Except CkgError CkgDb :=
  match checkTypes types with
  | .error e => .error (.wrongType e)
  | .ok () =>
      if (texts r).any hasNul then .error .invalidText
      else if !insertAdmitted policies s.bypassRls s r then .error .rowSecurity
      else .ok (put db r)

/-- The INSERT into `ckg_symbols`. -/
def insertSymbol (columns : CkgColumns) :
    PgSession → CkgSymbolRow → CkgDb → Except CkgError CkgDb :=
  insertRow
    [(.string, .text), (.string, .text), (.string, .text), (.string, .text),
      (.i64, columns.symbolLine), (.string, .text)]
    (fun r => [r.tenantId, r.kind, r.name, r.file, r.doc]) ckgSymbolsPolicies
    fun db r => { db with symbols := db.symbols ++ [r] }

/-- The INSERT into `ckg_edges`. -/
def insertEdge (columns : CkgColumns) : PgSession → CkgEdgeRow → CkgDb → Except CkgError CkgDb :=
  insertRow
    [(.string, .text), (.string, .text), (.string, .text), (.string, .text), (.string, .text),
      (.i64, columns.edgeLine)]
    (fun r => [r.tenantId, r.fromName, r.toName, r.kind, r.file]) ckgEdgesPolicies
    fun db r => { db with edges := db.edges ++ [r] }

/-- Execute statements one after the other; one that fails is logged. -/
def persistAll {α : Type} (insert : α → CkgDb → Except CkgError CkgDb) (as : List α) (db : CkgDb) :
    CkgDb :=
  as.foldl (fun db a => match insert a db with
    | .ok db' => db'
    | .error _ => db) db

/-! ### The store -/

/-- Postgres-backed CKG store: the mirror, the session if there is one, and the
tenant it writes under. -/
structure PgCkgStore where
  mirror : InMemoryCkg
  client : Option PgSession
  tenantId : String

namespace PgCkgStore

/-- An in-memory-only store. -/
def new : PgCkgStore := ⟨.new, none, ""⟩

/-- The session of a store that connects: the outcome of `SET` is ignored. -/
def session (server : CkgServer) (tenantId : String) : PgSession where
  setting := if server.setAccepted && !hasNul tenantId then some tenantId else none
  bypassRls := server.bypassRls

/-- Connect to Postgres and load any previously persisted graph; whether the
loading fails is only logged. -/
def connect (server : CkgServer) (columns : CkgColumns) (tenantId : String) (db : CkgDb) :
    PgCkgStore :=
  let store := { new with tenantId := tenantId }
  if server.reachable then
    let client := session server tenantId
    { store with client := some client, mirror := (load server columns client db store.mirror).2 }
  else store

/-- Parse and ingest a source file into the mirror; best-effort persist to PG. -/
def ingestFile (u : Str.CharTables) (columns : CkgColumns) (self : PgCkgStore)
    (file content : String) (db : CkgDb) : PgCkgStore × CkgDb :=
  let parsed := parseSource u file content
  ({ self with mirror := self.mirror.extend parsed },
    match self.client with
    | none => db
    | some client =>
        persistAll (insertEdge columns client) (parsed.2.map (·.toRow self.tenantId))
          (persistAll (insertSymbol columns client) (parsed.1.map (·.toRow self.tenantId)) db))

/-- The files one after the other. -/
def ingestAll (u : Str.CharTables) (columns : CkgColumns) (self : PgCkgStore)
    (files : List (String × String)) (db : CkgDb) : PgCkgStore × CkgDb :=
  files.foldl (fun p f => p.1.ingestFile u columns f.1 f.2 p.2) (self, db)

end PgCkgStore

/-! ### What the statements do over the columns of 0004 -/

theorem symbolFromRow_v15 (r : CkgSymbolRow) : ∃ e, symbolFromRow .v15 r = .error e :=
  ⟨⟨3, .i64, .integer⟩, rfl⟩

theorem edgeFromRow_v15 (r : CkgEdgeRow) : ∃ e, edgeFromRow .v15 r = .error e :=
  ⟨⟨4, .i64, .integer⟩, rfl⟩

theorem insertSymbol_v15 (s : PgSession) (r : CkgSymbolRow) (db : CkgDb) :
    ∃ e, insertSymbol .v15 s r db = .error e :=
  ⟨.wrongType ⟨4, .i64, .integer⟩, rfl⟩

theorem insertEdge_v15 (s : PgSession) (r : CkgEdgeRow) (db : CkgDb) :
    ∃ e, insertEdge .v15 s r db = .error e :=
  ⟨.wrongType ⟨5, .i64, .integer⟩, rfl⟩

/-- Where no row can be read, nothing is pushed. -/
theorem pushRows_of_error {ρ α : Type} {read : ρ → Except WrongType α}
    (hread : ∀ r, ∃ e, read r = .error e) (push : InMemoryCkg → α → InMemoryCkg) (rs : List ρ)
    (m : InMemoryCkg) : (pushRows read push rs m).2 = m := by
  cases rs with
  | nil => rfl
  | cons r rs =>
      obtain ⟨e, he⟩ := hread r
      rw [pushRows, he]

/-- Where no statement succeeds, nothing is stored. -/
theorem persistAll_of_error {α : Type} {insert : α → CkgDb → Except CkgError CkgDb}
    (hinsert : ∀ a db, ∃ e, insert a db = .error e) (as : List α) (db : CkgDb) :
    persistAll insert as db = db := by
  induction as generalizing db with
  | nil => rfl
  | cons a as ih =>
      obtain ⟨e, he⟩ := hinsert a db
      rw [persistAll, List.foldl_cons, he]
      exact ih db

/-- **Loading pushes nothing**, whatever is stored and whatever fails.  A row cannot
be read in the type it is asked for, so the first one ends the loading. -/
theorem load_v15 (server : CkgServer) (s : PgSession) (db : CkgDb) (m : InMemoryCkg) :
    (load server .v15 s db m).2 = m := by
  have hsymbols := pushRows_of_error symbolFromRow_v15
    (fun m a => { m with symbols := m.symbols ++ [a] }) (db.visible s).symbols m
  have hedges := fun m' => pushRows_of_error edgeFromRow_v15
    (fun m a => { m with edges := m.edges ++ [a] }) (db.visible s).edges m'
  unfold load
  -- Whether or not a SELECT comes through, no row of its result can be read, so the mirror
  -- is as it was.
  cases hreads : server.readsSymbols with
  | false => rfl
  | true =>
      cases hpush : pushRows (symbolFromRow .v15)
          (fun m a => { m with symbols := m.symbols ++ [a] }) (db.visible s).symbols m with
      | mk result m' =>
          rw [hpush] at hsymbols
          cases hsymbols
          cases result with
          | error e => rfl
          | ok =>
              cases hreads' : server.readsEdges with
              | false => rfl
              | true => exact hedges m'

/-- A store that has just connected mirrors nothing. -/
theorem PgCkgStore.connect_v15_mirror (server : CkgServer) (tenantId : String) (db : CkgDb) :
    (connect server .v15 tenantId db).mirror = .new := by
  unfold connect
  by_cases h : server.reachable = true
  · rw [if_pos h]
    exact load_v15 server _ db _
  · rw [if_neg h]
    rfl

/-- Ingesting a file stores nothing. -/
theorem PgCkgStore.ingestFile_v15 (u : Str.CharTables) (self : PgCkgStore) (file content : String)
    (db : CkgDb) :
    self.ingestFile u .v15 file content db =
      ({ self with mirror := self.mirror.extend (parseSource u file content) }, db) := by
  unfold ingestFile
  cases self.client with
  | none => rfl
  | some client =>
      simp only [persistAll_of_error (insertSymbol_v15 client),
        persistAll_of_error (insertEdge_v15 client)]

end Ckg

end AgenticIde
