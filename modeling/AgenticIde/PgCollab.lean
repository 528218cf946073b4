/-
AgenticIde/PgCollab.lean

Code-review comments in PostgreSQL: the `comments` table (migration 0005) and the store over
it (`PgCommentStore` of `collab.rs`).

Every call runs in a transaction of its own that first sets the tenant for the row-level
security policy, and that is rolled back when anything in it fails.  An INSERT passes four
gates: the driver converts every parameter to the type of its column, the texts hold no NUL,
the policy admits the row, and the id is new to the whole table, whoever owns the other rows.
`add_of_accepts` and `add_of_not_accepts` say what becomes of a comment.

The line numbers are bound and read as 64-bit integers.  Their columns have 32 bits, which
closes the first gate for good (`accepts_v20`).

`CommentColumns` has the types of these two columns, so that the same store can be looked at
over the columns it would need; what is proved over those says what the other gates do.  The
server may refuse the statement that sets the tenant, and then no call of the store succeeds.
The order of a listing is by the texts of the ids at last, and how the database compares
texts is its own (`collate`).

Resolving is one `UPDATE`, whose policy is that of the `SELECT`; it changes the rows with the
id that the tenant may see, and says whether there was one.
-/
import AgenticIde.Collab
import AgenticIde.Lib.Machine
import AgenticIde.Lib.PgTypes
import AgenticIde.PgAudit
import Mathlib.Data.List.Nodup

namespace AgenticIde

open RowSecurity Pg

/-! ### The table -/

/-- A row of the `comments` table; `createdAt` is in microseconds. -/
structure CommentRow where
  id : String
  tenantId : String
  file : String
  lineStart : Int
  lineEnd : Int
  author : String
  body : String
  resolved : Bool
  createdAt : Int

/-- The texts of a row. -/
def CommentRow.texts (r : CommentRow) : List String :=
  [r.id, r.tenantId, r.file, r.author, r.body]

/-- The types of the two columns that hold line numbers. -/
structure CommentColumns where
  lineStart : ColumnType
  lineEnd : ColumnType
  deriving DecidableEq

/-- The columns of migration 0005. -/
def CommentColumns.v20 : CommentColumns := ⟨.integer, .integer⟩

/-- The columns the store would need. -/
def CommentColumns.wide : CommentColumns := ⟨.bigint, .bigint⟩

/-- The `comments` table, in the order of the inserts. -/
structure CommentDb where
  rows : List CommentRow
  /-- `id` is the primary key. -/
  primaryKey : (rows.map CommentRow.id).Nodup

namespace CommentDb

/-- An empty table. -/
def empty : CommentDb := ⟨[], List.nodup_nil⟩

/-- The ids of the table, of all tenants. -/
def ids (db : CommentDb) : List String := db.rows.map CommentRow.id

/-- Append a row under an id that is new. -/
def push (db : CommentDb) (row : CommentRow) (h : row.id ∉ db.ids) : CommentDb where
  rows := db.rows ++ [row]
  primaryKey := by
    rw [List.map_append]
    exact db.primaryKey.append (List.nodup_singleton _) (by simpa [ids] using h)

/-- Mark the rows that match as resolved. -/
def markResolved (db : CommentDb) (p : CommentRow → Bool) : CommentDb where
  rows := db.rows.map fun r => if p r then { r with resolved := true } else r
  primaryKey := by
    have hids : (db.rows.map fun r => if p r then { r with resolved := true } else r).map
        CommentRow.id = db.rows.map CommentRow.id := by
      rw [List.map_map]
      apply List.map_congr_left
      intro r _
      by_cases h : p r <;> simp [h]
    rw [hids]
    exact db.primaryKey

theorem nodup_ids (db : CommentDb) : db.ids.Nodup := db.primaryKey

@[simp] theorem ids_push (db : CommentDb) (row : CommentRow) (h : row.id ∉ db.ids) :
    (db.push row h).ids = db.ids ++ [row.id] := by
  simp [ids, push]

end CommentDb

/-- `comments_tenant_isolation` (0005): permissive, `FOR ALL`. -/
def commentsTenantIsolation : Policy PgSession CommentRow where
  permissive := true
  command := none
  admits := fun _ s r => tenantMatches s r.tenantId

/-- The policies on `comments`. -/
def commentsPolicies : List (Policy PgSession CommentRow) := [commentsTenantIsolation]

theorem insertAdmitted_commentsPolicies (bypass : Bool) (s : PgSession) (r : CommentRow) :
    insertAdmitted commentsPolicies bypass s r = (bypass || tenantMatches s r.tenantId) := by
  simp [insertAdmitted, rowAdmitted, commentsPolicies, commentsTenantIsolation, Policy.appliesTo]

/-- What a call can fail with. -/
inductive PgCommentError
  /-- syntax error at or near "$1": `SET` takes no parameter -/
  | setRefused
  /-- a parameter, or a column, of a type the driver does not convert -/
  | wrongType (e : WrongType)
  /-- invalid byte sequence for encoding "UTF8": 0x00 -/
  | invalidText
  /-- new row violates row-level security policy for table "comments" -/
  | rowSecurity
  /-- duplicate key value violates unique constraint "comments_pkey" -/
  | uniqueViolation
  deriving DecidableEq

/-! ### The store -/

/-- `PgCommentStore`: a connection, by what the server makes of it.  `collate`
is the order of the database on texts. -/
structure PgCommentStore where
  /-- `SET LOCAL app.tenant_id = $1` is executed. -/
  setAccepted : Bool
  bypassRls : Bool
  collate : String → String → Bool

namespace PgCommentStore

/-- Run `f` in a transaction scoped to the tenant: committed if it succeeds,
dropped, and so rolled back, if it fails. -/
def withTenant {α : Type} (self : PgCommentStore) (tenantId : String)
    (f : PgSession → CommentDb → Except PgCommentError (α × CommentDb)) (db : CommentDb) :
    Except PgCommentError α × CommentDb :=
  if !self.setAccepted then (.error .setRefused, db)
  else if hasNul tenantId then (.error .invalidText, db)
  else
    match f ⟨some tenantId, self.bypassRls⟩ db with
    | .ok (a, db') => (.ok a, db')
    | .error e => (.error e, db)

/-- The parameters of the INSERT, and their columns. -/
def insertTypes (columns : CommentColumns) : List (RustType × ColumnType) :=
  [(.string, .text), (.string, .text), (.string, .text), (.i64, columns.lineStart),
    (.i64, columns.lineEnd), (.string, .text), (.string, .text)]

/-- The INSERT of `add`. -/
def insertComment (columns : CommentColumns) (s : PgSession) (row : CommentRow) (db : CommentDb) :
    Except PgCommentError CommentDb :=
  match checkTypes (insertTypes columns) with
  -- the driver refuses before anything is sent
  | .error e => .error (.wrongType e)
  | .ok () =>
      if row.texts.any hasNul then .error .invalidText
      else if !insertAdmitted commentsPolicies s.bypassRls s row then .error .rowSecurity
      else if h : row.id ∈ db.ids then .error .uniqueViolation
      else .ok (db.push row h)

/-- The id a comment is stored under. -/
def idFor (comment : Comment) : String :=
  if comment.id = "" then s!"c{comment.createdAt}" else comment.id

/-- The row of a comment.  `created_at` is left to its default, the time
`now` of the transaction. -/
def rowFor (now : Int) (comment : Comment) : CommentRow where
  id := idFor comment
  tenantId := comment.tenantId
  file := comment.file
  lineStart := asI64 comment.lineStart
  lineEnd := asI64 comment.lineEnd
  author := comment.author
  body := comment.body
  resolved := false
  createdAt := now

/-- Add a comment, under its time of creation unless it has an id. -/
def add (self : PgCommentStore) (columns : CommentColumns) (now : Int) (comment : Comment)
    (db : CommentDb) : Except PgCommentError String × CommentDb :=
  self.withTenant comment.tenantId (fun s db =>
    (insertComment columns s (rowFor now comment) db).map fun db' => (idFor comment, db')) db

/-- The columns of a listing, and what they are read as.  The last one is
`extract(epoch from created_at)::bigint * 1000`. -/
def selectTypes (columns : CommentColumns) : List (RustType × ColumnType) :=
  [(.string, .text), (.string, .text), (.string, .text), (.i64, columns.lineStart),
    (.i64, columns.lineEnd), (.string, .text), (.string, .text), (.bool, .boolean),
    (.i64, .bigint)]

/-- Map a `comments` row to a `Comment`. -/
def commentFromRow (columns : CommentColumns) (row : CommentRow) : Except WrongType Comment :=
  (checkTypes (selectTypes columns)).map fun _ =>
    { id := row.id
      tenantId := row.tenantId
      file := row.file
      lineStart := asUsize row.lineStart
      lineEnd := asUsize row.lineEnd
      author := row.author
      body := row.body
      resolved := row.resolved
      -- the cast rounds to whole seconds
      createdAt := (row.createdAt + 500000) / 1000000 * 1000 }

/-- `ORDER BY resolved ASC, line_start ASC, id ASC`. -/
def rowLe (self : PgCommentStore) (a b : CommentRow) : Bool :=
  if a.resolved = b.resolved then
    if a.lineStart = b.lineStart then self.collate a.id b.id else a.lineStart < b.lineStart
  else !a.resolved

/-- The rows of the table the WHERE clause of a statement selects. -/
def selectRows (s : PgSession) (p : CommentRow → Bool) (db : CommentDb) : List CommentRow :=
  (visibleRows commentsPolicies s.bypassRls s db.rows).filter p

/-- The comments of a tenant on a file, in the order of a listing. -/
def listForFile (self : PgCommentStore) (columns : CommentColumns) (tenantId file : String)
    (db : CommentDb) : Except PgCommentError (List Comment) × CommentDb :=
  self.withTenant tenantId (fun s db =>
    if hasNul file then .error .invalidText
    else
      let rows := (selectRows s (fun r => r.tenantId = tenantId ∧ r.file = file) db).mergeSort
        self.rowLe
      match rows.mapM (commentFromRow columns) with
      | .error e => .error (.wrongType e)
      | .ok comments => .ok (comments, db)) db

/-- Mark a comment as resolved for a tenant; whether a row changed.  The
policy is the same for SELECT and UPDATE. -/
def resolve (self : PgCommentStore) (tenantId id : String) (db : CommentDb) :
    Except PgCommentError Bool × CommentDb :=
  self.withTenant tenantId (fun s db =>
    if hasNul id then .error .invalidText
    else
      let p := fun r : CommentRow => decide (r.tenantId = tenantId ∧ r.id = id)
      let admitted := rowAdmitted commentsPolicies .select s
      .ok (0 < (selectRows s p db).length,
        db.markResolved fun r => p r && (s.bypassRls || admitted r))) db

/-- Perform an operation, in a transaction that begins at `now`. -/
def perform (self : PgCommentStore) (columns : CommentColumns) (now : Int) (op : CommentOp)
    (db : CommentDb) : Except PgCommentError CommentReply × CommentDb :=
  match op with
  | .add tenantId file lineStart lineEnd author body created =>
      let (id, db) := self.add columns now
        (.new tenantId file lineStart lineEnd author body created) db
      (id.map .added, db)
  | .resolve tenantId id =>
      let (found, db) := self.resolve tenantId id db
      (found.map .resolved, db)
  | .listForFile tenantId file =>
      let (comments, db) := self.listForFile columns tenantId file db
      (comments.map .listed, db)

/-! ### What becomes of a comment -/

variable {self : PgCommentStore} {columns : CommentColumns} {now : Int} {comment : Comment}
  {db : CommentDb}

/-- A comment passes every gate but the primary key. -/
def accepts (self : PgCommentStore) (columns : CommentColumns) (comment : Comment) : Bool :=
  self.setAccepted && columns == .wide && !(rowFor 0 comment).texts.any hasNul

theorem checkTypes_insertTypes :
    checkTypes (insertTypes columns) = .ok () ↔ columns = .wide := by
  obtain ⟨lineStart, lineEnd⟩ := columns
  rw [checkTypes_eq_ok]
  simp [insertTypes, CommentColumns.wide, RustType.column, eq_comm]

/-- A comment of the tenant the transaction is scoped to passes the policy. -/
theorem insertAdmitted_rowFor (bypass : Bool) (now : Int) (comment : Comment) :
    insertAdmitted commentsPolicies bypass ⟨some comment.tenantId, bypass⟩ (rowFor now comment) =
      true := by
  rw [insertAdmitted_commentsPolicies]
  simp [tenantMatches, rowFor]

theorem add_of_accepts (h : self.accepts columns comment = true) :
    self.add columns now comment db =
      if hid : idFor comment ∈ db.ids then (.error .uniqueViolation, db)
      else (.ok (idFor comment), db.push (rowFor now comment) hid) := by
  simp only [accepts, Bool.and_eq_true, beq_iff_eq, Bool.not_eq_true'] at h
  obtain ⟨⟨hset, hcolumns⟩, hnul⟩ := h
  have htenant : hasNul comment.tenantId = false :=
    Bool.eq_false_of_not_eq_true (List.any_eq_false.mp hnul _ (by simp [CommentRow.texts, rowFor]))
  have htypes : checkTypes (insertTypes columns) = .ok () := checkTypes_insertTypes.mpr hcolumns
  have hrow : (rowFor now comment).texts.any hasNul = false := hnul
  by_cases hid : idFor comment ∈ db.ids
  · have hid' : (rowFor now comment).id ∈ db.ids := hid
    simp [add, withTenant, hset, htenant, insertComment, htypes, hrow, insertAdmitted_rowFor, hid,
      hid', Except.map]
  · have hid' : (rowFor now comment).id ∉ db.ids := hid
    simp [add, withTenant, hset, htenant, insertComment, htypes, hrow, insertAdmitted_rowFor, hid,
      hid', Except.map]

/-- Otherwise nothing is stored. -/
theorem add_of_not_accepts (h : self.accepts columns comment = false) (now : Int)
    (db : CommentDb) : ∃ e, self.add columns now comment db = (.error e, db) := by
  -- The gates in their order; each that stays shut has its own error, and none has changed
  -- the table.
  cases hset : self.setAccepted with
  | false => exact ⟨.setRefused, by simp [add, withTenant, hset]⟩
  | true =>
      cases htenant : hasNul comment.tenantId with
      | true => exact ⟨.invalidText, by simp [add, withTenant, hset, htenant]⟩
      | false =>
          cases htypes : checkTypes (insertTypes columns) with
          | error e =>
              exact ⟨.wrongType e, by
                simp [add, withTenant, hset, htenant, insertComment, htypes, Except.map]⟩
          | ok =>
              have hcolumns := checkTypes_insertTypes.mp htypes
              have hrow : (rowFor now comment).texts.any hasNul = true := by
                show (rowFor 0 comment).texts.any hasNul = true
                cases hnul : (rowFor 0 comment).texts.any hasNul with
                | true => rfl
                | false => exact absurd h (by simp only [accepts, hset, hcolumns, hnul]; decide)
              refine ⟨.invalidText, ?_⟩
              simp only [add, withTenant, hset, htenant, insertComment, htypes, hrow, Except.map,
                Bool.not_true, Bool.false_eq_true, if_false, if_true]

/-- Over columns for 64-bit line numbers a comment reads back as it was added,
but for the time of creation: that of the insert, in whole seconds. -/
theorem commentFromRow_rowFor (hstart : comment.lineStart < UInt64.size)
    (hend : comment.lineEnd < UInt64.size) (now : Int) :
    commentFromRow .wide (rowFor now comment) =
      .ok { comment with
        id := idFor comment
        resolved := false
        createdAt := (now + 500000) / 1000000 * 1000 } := by
  have htypes : checkTypes (selectTypes .wide) = .ok () := rfl
  rw [commentFromRow, htypes]
  simp [Except.map, rowFor, asUsize_asI64 hstart, asUsize_asI64 hend]

/-- **No comment passes the driver** over the columns of 0005: two of its numbers
are bound in a type that is wider than their columns. -/
@[simp] theorem accepts_v20 (self : PgCommentStore) (comment : Comment) :
    self.accepts .v20 comment = false := by
  simp [accepts, CommentColumns.v20, CommentColumns.wide]

end PgCommentStore

end AgenticIde
