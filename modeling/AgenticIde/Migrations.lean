/-
AgenticIde/Migrations.lean

The schema of the bundled database: `migrations/0001_init.sql` to
`0005_v20.sql` as statements over the objects they define, and
`apply_migrations` of the GUI (`bootstrap/pg.rs`), which runs them.

What a statement needs is what PostgreSQL looks up when it is executed: the
table of an index, the types of a column or a parameter, what the body of an SQL
function names (that of a PL/pgSQL one is not looked at).  An extension has to
be installed on the server before it can be created.

`psql` runs one file after the other, each statement in a transaction of its
own; with `ON_ERROR_STOP=0` a failed one is passed over.  Every object is
defined by one statement only, so a catalog is the set of its objects.

The two `DO` blocks over the partitions of `audit` quote a name twice, so they
fail, for all partitions, where one has a name that needs to be quoted
(`attachTriggers_of_quoted`).  Nothing else can fail by what a partition is
called (`sound_script`).
-/
import AgenticIde.Lib.Script
import Mathlib.Data.String.Basic

namespace AgenticIde

namespace Migrations

open Script

/-! ### Objects -/

inductive Extension
  | vector
  | pgcrypto
  deriving DecidableEq

inductive Table
  | orgs | users | roles | userRoles | projects | sessions | messages | toolCalls | checkpoints
  | embeddings | knowledgeItems | audit
  | craftProposals | contextSources
  | ckgSymbols | ckgEdges
  | comments | locks | secrets
  deriving DecidableEq

inductive SqlFunction
  | permHas | permGrant | permRevoke | userPermMask | searchContext | auditNoMutation
  | logCraftApply
  | logAudit | logAuditEvent
  | setSecret | getSecret | pgEncryptText | pgDecryptText
  | auditChainPayload | auditRowHash | auditChainBeforeInsert | auditVerifyChain
  deriving DecidableEq

inductive Index
  | embeddingsEmbedding
  | craftProposalsSession | contextSourcesProject | contextSourcesEmbedding
  | ckgSymbolsName | ckgSymbolsFile | ckgEdgesFrom | ckgEdgesTo | ckgEdgesKind
  | commentsTenantFile
  /-- The index on the `tenant_id` of a table. -/
  | tenant (t : Table)
  deriving DecidableEq

/-- The columns that `ALTER TABLE` adds. -/
inductive Column
  | tenantId | prevHash | rowHash | detailEncrypted
  deriving DecidableEq

/-- `audit_append_only`, or the `…_tenant_isolation` of a table. -/
inductive PolicyName
  | appendOnly
  | tenantIsolation
  deriving DecidableEq

/-- `audit_no_update` (0001) and `audit_chain_hash` (0005). -/
inductive TriggerName
  | noUpdate
  | chainHash
  deriving DecidableEq

/-- The objects of a catalog. -/
inductive Obj
  /-- The server has the files of the extension. -/
  | installed (e : Extension)
  | extension (e : Extension)
  /-- The domain `perm_mask`. -/
  | permMaskDomain
  | function (f : SqlFunction)
  | table (t : Table)
  | index (i : Index)
  | column (t : Table) (c : Column)
  /-- Row-level security is enabled on the table. -/
  | rowSecurity (t : Table)
  | policy (t : Table) (p : PolicyName)
  /-- The row `demo-org`. -/
  | demoOrg
  /-- The row `admin`, of that organisation. -/
  | adminRole
  /-- A partition of `audit`, by a name that no other relation has. -/
  | partition (name : String)
  /-- A trigger on a partition of `audit`. -/
  | trigger (partition : String) (t : TriggerName)
  deriving DecidableEq

/-- What the loops over partitions tell apart, and what is dropped. -/
inductive ObjSort
  | partition
  | trigger (t : TriggerName)
  | policy
  | other
  deriving DecidableEq

def Obj.sort : Obj → ObjSort
  | partition _ => .partition
  | trigger _ t => .trigger t
  | policy _ _ => .policy
  | _ => .other

/-- A trigger on a partition. -/
def Obj.withTrigger (t : TriggerName) : Obj → Obj
  | partition name => trigger name t
  | o => o

/-- A catalog. -/
abbrev Catalog : Type := Finset Obj

/-- The statements of a migration. -/
abbrev Sql : Type := Statement Obj ObjSort

/-! ### Names -/

/-- The keywords of PostgreSQL 17 that are not free to be used as names. -/
def keywords : List String :=
  ["all", "analyse", "analyze", "and", "any", "array", "as", "asc", "asymmetric",
    "authorization", "between", "bigint", "binary", "bit", "boolean", "both", "case", "cast",
    "char", "character", "check", "coalesce", "collate", "collation", "column", "concurrently",
    "constraint", "create", "cross", "current_catalog", "current_date", "current_role",
    "current_schema", "current_time", "current_timestamp", "current_user", "dec", "decimal",
    "default", "deferrable", "desc", "distinct", "do", "else", "end", "except", "exists",
    "extract", "false", "fetch", "float", "for", "foreign", "freeze", "from", "full", "grant",
    "greatest", "group", "grouping", "having", "ilike", "in", "initially", "inner", "inout",
    "int", "integer", "intersect", "interval", "into", "is", "isnull", "join", "json",
    "json_array", "json_arrayagg", "json_exists", "json_object", "json_objectagg", "json_query",
    "json_scalar", "json_serialize", "json_table", "json_value", "lateral", "leading", "least",
    "left", "like", "limit", "localtime", "localtimestamp", "merge_action", "national",
    "natural", "nchar", "none", "normalize", "not", "notnull", "null", "nullif", "numeric",
    "offset", "on", "only", "or", "order", "out", "outer", "overlaps", "overlay", "placing",
    "position", "precision", "primary", "real", "references", "returning", "right", "row",
    "select", "session_user", "setof", "similar", "smallint", "some", "substring", "symmetric",
    "system_user", "table", "tablesample", "then", "time", "timestamp", "to", "trailing",
    "treat", "trim", "true", "union", "unique", "user", "using", "values", "varchar", "variadic",
    "verbose", "when", "where", "window", "with", "xmlattributes", "xmlconcat", "xmlelement",
    "xmlexists", "xmlforest", "xmlnamespaces", "xmlparse", "xmlpi", "xmlroot", "xmlserialize",
    "xmltable"]

/-- A name that stands for itself in a statement: lower-case letters, digits and
underscores, not a digit first, and no keyword. -/
def isPlain (name : String) : Bool :=
  let letter := fun c : Char => decide (97 ≤ c.toNat ∧ c.toNat ≤ 122) || c == '_'
  let digit := fun c : Char => decide (48 ≤ c.toNat ∧ c.toNat ≤ 57)
  name.toList.head?.any letter && name.toList.all (fun c => letter c || digit c) &&
    !keywords.contains name

/-- `quote_ident`, which `regclass::text` and `%I` apply: a name that does not
stand for itself is put in quotes, and those within it are doubled. -/
def quoteIdent (name : String) : String :=
  if isPlain name then name
  else
    let doubled := name.toList.flatMap fun c => if c.toNat = 34 then [c, c] else [c]
    "\"" ++ String.ofList doubled ++ "\""

/-- The text of the name, quoted once more, still names the partition. -/
def Obj.namedByText : Obj → Bool
  | partition name => quoteIdent name = name
  | _ => true

/-! ### The files -/

open Statement Obj

/-- The `DO` block that attaches a trigger to every partition of `audit`.  It
takes the name of each as `inhrelid::regclass::text`, which is quoted where
that is needed, and puts this text into the statement by `%I`: quoted again it
names no relation, and the whole block fails. -/
def attachTriggers (t : TriggerName) (f : SqlFunction) : Sql :=
  forEach [table .audit, function f] .partition (.trigger t) namedByText (withTrigger t)

/-- `0001_init.sql`. -/
def init0001 : List Sql :=
  [ensure [installed .vector] (extension .vector),
    ensure [installed .pgcrypto] (extension .pgcrypto),
    -- there is no IF NOT EXISTS for a domain
    create [] permMaskDomain,
    ensure [permMaskDomain] (function .permHas),
    ensure [permMaskDomain] (function .permGrant),
    ensure [permMaskDomain] (function .permRevoke),
    ensure [] (table .orgs),
    ensure [table .orgs] (table .users),
    ensure [table .orgs, permMaskDomain] (table .roles),
    ensure [table .users, table .roles] (table .userRoles),
    ensure [permMaskDomain, table .userRoles, table .roles] (function .userPermMask),
    ensure [table .orgs] (table .projects),
    ensure [table .projects, table .users] (table .sessions),
    ensure [table .sessions] (table .messages),
    ensure [table .sessions] (table .toolCalls),
    ensure [table .sessions] (table .checkpoints),
    ensure [table .projects, extension .vector] (table .embeddings),
    ensure [table .embeddings] (index .embeddingsEmbedding),
    ensure [extension .vector, table .embeddings] (function .searchContext),
    ensure [table .projects, extension .vector] (table .knowledgeItems),
    ensure [table .users] (table .audit),
    ensure [table .audit] (partition "audit_2025_07"),
    ensure [table .audit] (partition "audit_2025_08"),
    ensure [] (function .auditNoMutation),
    attachTriggers .noUpdate .auditNoMutation,
    ensure [table .audit] (rowSecurity .audit),
    drop (policy .audit .appendOnly),
    create [table .audit] (policy .audit .appendOnly),
    ensure [table .orgs] demoOrg,
    ensure [table .roles, demoOrg] adminRole]

/-- `0002_v05.sql`. -/
def v05 : List Sql :=
  [ensure [table .sessions] (table .craftProposals),
    ensure [table .craftProposals] (index .craftProposalsSession),
    ensure [table .projects, extension .vector] (table .contextSources),
    ensure [table .contextSources] (index .contextSourcesProject),
    ensure [table .contextSources] (index .contextSourcesEmbedding),
    ensure [table .audit] (function .logCraftApply)]

/-- `0003_v10.sql`. -/
def v10 : List Sql :=
  [ensure [] (function .logAudit),
    ensure [function .logAudit] (function .logAuditEvent)]

/-- `0004_v15.sql`. -/
def v15 : List Sql :=
  [ensure [] (table .ckgSymbols),
    ensure [] (table .ckgEdges),
    ensure [table .ckgSymbols] (index .ckgSymbolsName),
    ensure [table .ckgSymbols] (index .ckgSymbolsFile),
    ensure [table .ckgEdges] (index .ckgEdgesFrom),
    ensure [table .ckgEdges] (index .ckgEdgesTo),
    ensure [table .ckgEdges] (index .ckgEdgesKind)]

/-- Tenant isolation of a table: row-level security, and the policy anew. -/
def isolateTenants (t : Table) (needs : List Obj) : List Sql :=
  [ensure [table t] (rowSecurity t),
    drop (policy t .tenantIsolation),
    create needs (policy t .tenantIsolation)]

/-- The tenant scope of an older table. -/
def addTenant (t : Table) : List Sql :=
  [ensure [table t] (column t .tenantId),
    ensure [table t, column t .tenantId] (index (.tenant t))] ++
    isolateTenants t [table t, column t .tenantId]

/-- `0005_v20.sql`. -/
def v20 : List Sql :=
  [ensure [table .audit] (column .audit .tenantId),
    ensure [table .audit] (column .audit .prevHash),
    ensure [table .audit] (column .audit .rowHash),
    ensure [table .audit] (column .audit .detailEncrypted),
    ensure [table .audit, column .audit .tenantId] (index (.tenant .audit))] ++
  isolateTenants .audit [table .audit, column .audit .tenantId] ++
  addTenant .contextSources ++
  addTenant .ckgSymbols ++
  addTenant .ckgEdges ++
  [ensure [] (table .comments),
    ensure [table .comments] (index .commentsTenantFile),
    ensure [table .comments] (index (.tenant .comments)),
    ensure [] (table .locks),
    ensure [table .locks] (index (.tenant .locks))] ++
  isolateTenants .comments [table .comments] ++
  isolateTenants .locks [table .locks] ++
  [ensure [] (table .secrets),
    ensure [table .secrets] (index (.tenant .secrets))] ++
  isolateTenants .secrets [table .secrets] ++
  [ensure [] (function .setSecret),
    ensure [] (function .getSecret),
    ensure [extension .pgcrypto] (function .pgEncryptText),
    ensure [extension .pgcrypto] (function .pgDecryptText),
    ensure [] (function .auditChainPayload),
    ensure [function .auditChainPayload] (function .auditRowHash),
    ensure [] (function .auditChainBeforeInsert),
    attachTriggers .chainHash .auditChainBeforeInsert,
    ensure [table .audit, column .audit .rowHash, column .audit .prevHash,
      column .audit .tenantId, function .auditRowHash] (function .auditVerifyChain)]

/-- A file of the directory `resources/migrations`. -/
structure File where
  name : String
  statements : List Sql

/-- The files of the bundle. -/
def bundle : List File :=
  [⟨"0001_init.sql", init0001⟩, ⟨"0002_v05.sql", v05⟩, ⟨"0003_v10.sql", v10⟩,
    ⟨"0004_v15.sql", v15⟩, ⟨"0005_v20.sql", v20⟩]

/-- All their statements, in the order of the names. -/
def script : List Sql := init0001 ++ v05 ++ v10 ++ v15 ++ v20

/-! ### `apply_migrations` -/

/-- `Path::extension`: what follows the last dot, unless the name begins with
it. -/
def pathExtension (name : String) : Option String :=
  let back := name.toList.reverse
  let ext := back.takeWhile (· != '.')
  -- the characters before the dot
  if 1 < (back.drop ext.length).length then some (String.ofList ext.reverse) else none

/-- The files `apply_migrations` runs, of those the directory lists. -/
def migrationFiles (listing : List File) : List File :=
  (listing.filter fun f => pathExtension f.name = some "sql").mergeSort (·.name ≤ ·.name)

/-- `apply_migrations`: every file with `ON_ERROR_STOP=0`. -/
def applyMigrations (listing : List File) (c : Catalog) : Catalog :=
  (migrationFiles listing).foldl (fun c f => run Obj.sort f.statements c) c

/-- `psql` with `ON_ERROR_STOP=1`, on the files one after the other as they are
applied by hand. -/
def applyByHand (c : Catalog) : Catalog :=
  bundle.foldl (fun c f => runStopping Obj.sort f.statements c) c

/-- The order of the statements is sound: what one needs is not made behind it,
and what it makes is not dropped behind it. -/
theorem ordered_script : ordered Obj.sort script = true := by
  decide +kernel

/-- What a loop over the partitions is about. -/
theorem eq_partition_of_sort {x : Obj} (hx : x.sort = .partition) : ∃ name, x = partition name := by
  rcases x with _ | _ | _ | _ | _ | _ | _ | _ | _ | _ | _ | name | _
  case partition => exact ⟨name, rfl⟩
  all_goals cases hx

theorem wellSorted_script : ∀ s ∈ script, s.WellSorted Obj.sort := by
  have hattach : ∀ t f, (attachTriggers t f).WellSorted Obj.sort := by
    intro t f y hy
    obtain ⟨name, rfl⟩ := eq_partition_of_sort hy
    rfl
  -- only the two loops make what depends on what is there
  simp only [script, init0001, v05, v10, v15, v20, addTenant, isolateTenants, List.cons_append,
    List.nil_append, List.forall_mem_cons, List.not_mem_nil, false_imp_iff, implies_true,
    and_true, WellSorted, true_and]
  exact ⟨hattach .noUpdate .auditNoMutation, hattach .chainHash .auditChainBeforeInsert⟩

/-- The files give their own partitions names that need no quotes, so only the
partitions of others can make the two loops fail. -/
theorem sound_script : ∀ s ∈ script, s.Sound Obj.sort (namedByText · = true) := by
  have hattach : ∀ t f, (attachTriggers t f).Sound Obj.sort (namedByText · = true) := by
    intro t f y hy hnamed
    obtain ⟨name, rfl⟩ := eq_partition_of_sort hy
    exact ⟨hnamed, rfl⟩
  have hown : decide (quoteIdent "audit_2025_07" = "audit_2025_07") = true ∧
      decide (quoteIdent "audit_2025_08" = "audit_2025_08") = true := by decide +kernel
  simp only [script, init0001, v05, v10, v15, v20, addTenant, isolateTenants, List.cons_append,
    List.nil_append, List.forall_mem_cons, List.not_mem_nil, false_imp_iff, implies_true,
    and_true, Sound, namedByText, hown.1, hown.2, true_and]
  exact ⟨hattach .noUpdate .auditNoMutation, hattach .chainHash .auditChainBeforeInsert⟩

/-- One name that needs quotes, and no partition gets its trigger. -/
theorem attachTriggers_of_quoted {c : Catalog} {name : String} (hname : quoteIdent name ≠ name)
    (hmem : partition name ∈ c) (t : TriggerName) (f : SqlFunction) :
    (attachTriggers t f).effect Obj.sort c = c := by
  rw [attachTriggers, effect_forEach, if_neg]
  intro hcan
  exact hname (of_decide_eq_true (hcan.2 (partition name) hmem rfl))

example : quoteIdent "audit_2025_09" = "audit_2025_09" := by decide +kernel

example : quoteIdent "Audit-2025" = "\"Audit-2025\"" := by decide +kernel

end Migrations

end AgenticIde
