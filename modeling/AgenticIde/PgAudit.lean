/-
AgenticIde/PgAudit.lean

The `audit` table (migrations 0001 and 0005) and the sink that appends to it
(`PgAuditSink` of `audit.rs`).

A table is its rows in id order, the sequence that numbers them, and the
ranges of its partitions.  `record` issues two statements: `selectLastHash`
reads the hash of the tenant's last visible row, `insertAudit` appends.
Each statement is atomic; nothing ties the two together.

An INSERT passes five gates, in this order: the parameters hold no NUL, a
partition covers the insert time, the BEFORE trigger fills missing hashes, the
row-level security policies admit the row, and the foreign key of 0001 finds
the actor, if the row names one, among the users.  `append_of_accepts` and
`append_of_not_accepts` say what the statement does: where every gate is
open (`PgAuditSink.accepts`) it appends one row, otherwise it fails and the
rows are unchanged.

Nothing here writes the table `users`: what the audit log sees of it is the
set of ids that the foreign key may refer to.
-/
import AgenticIde.Audit
import AgenticIde.Lib.HashChain
import AgenticIde.Lib.RowSecurity
import Mathlib.Data.List.MinMax

namespace AgenticIde

open RowSecurity

/-! ### The table -/

/-- A row of the `audit` table. -/
structure AuditRow where
  id : Nat
  ts : Int
  actorId : Option Int
  action : String
  permBit : Option Int
  detail : Option Json
  tenantId : String
  prevHash : Option String
  rowHash : Option String

/-- The `audit` table.  `partitions` lists the half-open ranges of `ts`, and
`users` the ids of the table that `actor_id` references. -/
structure AuditDb where
  rows : List AuditRow
  nextId : Nat
  partitions : List (Int × Int)
  users : List Int
  /-- Ids are assigned in insert order. -/
  sorted : rows.Pairwise fun r r' => r.id < r'.id
  /-- The sequence is ahead of every id it has assigned. -/
  below : ∀ r ∈ rows, r.id < nextId

/-- What a statement can fail with. -/
inductive PgError
  /-- syntax error at or near "$1" -/
  | syntaxError
  /-- invalid byte sequence for encoding "UTF8": 0x00 -/
  | invalidText
  /-- unsupported Unicode escape sequence -/
  | invalidJsonb
  /-- no partition of relation "audit" found for row -/
  | noPartition
  /-- new row violates row-level security policy for table "audit" -/
  | rowSecurity
  /-- insert or update on table "audit" violates foreign key constraint -/
  | foreignKey
  /-- invalid input syntax for type bytea -/
  | invalidBytea
  deriving DecidableEq

/-- What a connection carries: the setting `app.tenant_id`, and whether its
role bypasses row-level security. -/
structure PgSession where
  setting : Option String
  bypassRls : Bool

namespace AuditDb

/-- An empty table. -/
def empty (partitions : List (Int × Int)) (users : List Int) : AuditDb where
  rows := []
  nextId := 1
  partitions := partitions
  users := users
  sorted := .nil
  below := by simp

/-- Some partition holds rows of the time. -/
def covers (db : AuditDb) (ts : Int) : Bool := db.partitions.any fun p => p.1 ≤ ts && ts < p.2

/-- `actor_id bigint REFERENCES users(id)` (0001): an actor is a user, and a row
may do without one. -/
def knows (db : AuditDb) (actorId : Option Int) : Bool := actorId.all db.users.contains

/-- The same partitions and the same users: the same rows are taken.  Nothing is
said of the rows that are there already. -/
structure Like (db' db : AuditDb) : Prop where
  partitions : db'.partitions = db.partitions
  users : db'.users = db.users

theorem Like.refl (db : AuditDb) : db.Like db := ⟨rfl, rfl⟩

theorem Like.trans {db db' db'' : AuditDb} (h : db''.Like db') (h' : db'.Like db) :
    db''.Like db :=
  ⟨h.partitions.trans h'.partitions, h.users.trans h'.users⟩

/-- The rows of one tenant, in id order. -/
def tenantRows (db : AuditDb) (tenantId : String) : List AuditRow :=
  db.rows.filter (·.tenantId == tenantId)

/-- `nextval` of the id sequence; a later failure of the statement does not
give the id back. -/
def nextval (db : AuditDb) : AuditDb :=
  { db with
    nextId := db.nextId + 1
    below := fun r hr => Nat.lt_succ_of_lt (db.below r hr) }

/-- Append a row under the next id of the sequence. -/
def push (db : AuditDb) (row : AuditRow) : AuditDb where
  rows := db.rows ++ [{ row with id := db.nextId }]
  nextId := db.nextId + 1
  partitions := db.partitions
  users := db.users
  sorted := by
    rw [List.pairwise_append]
    refine ⟨db.sorted, List.pairwise_singleton _ _, fun r hr r' hr' => ?_⟩
    rw [List.mem_singleton.mp hr']
    exact db.below r hr
  below := by
    intro r hr
    rcases List.mem_append.mp hr with hr | hr
    · exact Nat.lt_succ_of_lt (db.below r hr)
    · rw [List.mem_singleton.mp hr]
      exact Nat.lt_succ_self _

theorem push_like (db : AuditDb) (row : AuditRow) : (db.push row).Like db := ⟨rfl, rfl⟩

theorem tenantRows_push (db : AuditDb) {row : AuditRow} {t : String} (h : row.tenantId = t) :
    (db.push row).tenantRows t = db.tenantRows t ++ [{ row with id := db.nextId }] := by
  simp [tenantRows, push, h]

theorem tenantRows_congr {db db' : AuditDb} (h : db'.rows = db.rows) (t : String) :
    db'.tenantRows t = db.tenantRows t := by
  rw [tenantRows, tenantRows, h]

end AuditDb

/-! ### Row-level security -/

/-- `tenant_id = coalesce(current_setting('app.tenant_id', true), tenant_id)`. -/
def tenantMatches (s : PgSession) (tenantId : String) : Bool :=
  tenantId == s.setting.getD tenantId

/-- `audit_append_only` (0001): permissive, `FOR INSERT WITH CHECK (true)`. -/
def auditAppendOnly : Policy PgSession AuditRow where
  permissive := true
  command := some .insert
  admits := fun _ _ _ => true

/-- `audit_tenant_isolation` (0005): restrictive, `FOR ALL`. -/
def auditTenantIsolation : Policy PgSession AuditRow where
  permissive := false
  command := none
  admits := fun _ s r => tenantMatches s r.tenantId

/-- The policies on `audit` after 0001 and 0005. -/
def auditPolicies : List (Policy PgSession AuditRow) := [auditAppendOnly, auditTenantIsolation]

/-- A role subject to the policies reads no audit row: the only permissive
policy is for INSERT. -/
theorem visibleRows_auditPolicies (s : PgSession) (rows : List AuditRow) :
    visibleRows auditPolicies false s rows = [] := by
  refine visibleRows_eq_nil (fun p hp => ?_) s rows
  simp only [auditPolicies, List.mem_cons, List.not_mem_nil, or_false] at hp
  rcases hp with rfl | rfl
  · exact fun h => absurd h (by decide)
  · exact fun _ => rfl

theorem insertAdmitted_auditPolicies (bypass : Bool) (s : PgSession) (r : AuditRow) :
    insertAdmitted auditPolicies bypass s r = (bypass || tenantMatches s r.tenantId) := by
  simp [insertAdmitted, rowAdmitted, auditPolicies, auditAppendOnly, auditTenantIsolation,
    Policy.appliesTo]

/-! ### The SQL functions of the chain -/

section

variable (sha256 : List UInt8 → List UInt8)

/-- `audit_chain_payload`. -/
def auditChainPayload (action : Option String) (permBit : Option Int)
    (tenantId prevHash : Option String) : String :=
  action.getD "" ++ "|" ++ (permBit.map toString).getD "" ++ "|" ++ tenantId.getD "" ++ "|" ++
    prevHash.getD ""

/-- The octets `audit_row_hash` digests: the text cast to `bytea`. -/
def auditHashedBytes (action : Option String) (permBit : Option Int)
    (tenantId prevHash : Option String) : Except PgError (List UInt8) :=
  match byteaIn (utf8 (auditChainPayload action permBit tenantId prevHash)) with
  | some bytes => .ok bytes
  | none => .error .invalidBytea

/-- `audit_row_hash`. -/
def auditRowHash (action : Option String) (permBit : Option Int)
    (tenantId prevHash : Option String) : Except PgError String :=
  (auditHashedBytes action permBit tenantId prevHash).map fun bytes => hex (sha256 bytes)

/-- `audit_row_hash` of a row's own columns. -/
def AuditRow.ownHash (r : AuditRow) : Except PgError String :=
  auditRowHash sha256 (some r.action) r.permBit (some r.tenantId) r.prevHash

/-- `audit_verify_chain()`: the rows whose stored hash differs from their own
one, then the rows without a hash.  A failing cast fails the query. -/
def auditVerifyChain (rows : List AuditRow) : Except PgError (List (Nat × String)) := do
  let own ← rows.mapM fun r => (r.ownHash sha256).map (r, ·)
  let bad := own.filter fun p => p.1.rowHash != some p.2
  let missing := rows.filter (·.rowHash.isNone)
  return bad.map (fun p => (p.1.id, "row_hash mismatch")) ++
    missing.map fun r => (r.id, "missing row_hash")

/-- `SELECT row_hash FROM audit WHERE tenant_id = … ORDER BY id DESC LIMIT 1`,
on the rows the session reads. -/
def lastRowHash (s : PgSession) (tenantId : String) (rows : List AuditRow) :
    Option (Option String) :=
  (((visibleRows auditPolicies s.bypassRls s rows).filter (·.tenantId == tenantId)).argmax
    (·.id)).map (·.rowHash)

/-- The trigger `audit_chain_before_insert`: fill the hashes the client left
out. -/
def auditChainBeforeInsert (s : PgSession) (rows : List AuditRow) (new : AuditRow) :
    Except PgError AuditRow :=
  let new := match new.prevHash with
    | some _ => new
    | none => { new with prevHash := some ((lastRowHash s new.tenantId rows).join.getD "") }
  match new.rowHash with
  | some _ => .ok new
  | none => (new.ownHash sha256).map fun h => { new with rowHash := some h }

/-! ### Statements -/

/-- The SELECT statement of `record`. -/
def selectLastHash (s : PgSession) (tenantId : String) (db : AuditDb) :
    Except PgError (Option (Option String)) :=
  if hasNul tenantId then .error .invalidText else .ok (lastRowHash s tenantId db.rows)

/-- The server accepts the parameters of an INSERT of `row`. -/
def checkParams (row : AuditRow) : Except PgError Unit :=
  if hasNul row.action then .error .invalidText
  else if row.detail.any Json.hasNul then .error .invalidJsonb
  else if hasNul row.tenantId || row.prevHash.any hasNul || row.rowHash.any hasNul then
    .error .invalidText
  else .ok ()

/-- The INSERT statement of `record`, executed at time `now`. -/
def insertAudit (s : PgSession) (now : Int) (row : AuditRow) (db : AuditDb) :
    Except PgError Unit × AuditDb :=
  match checkParams row with
  -- refused before the statement runs: the sequence is not touched
  | .error e => (.error e, db)
  | .ok () =>
      let row := { row with id := db.nextId, ts := now }
      if db.covers now then
        -- the trigger runs before the policies are checked
        match auditChainBeforeInsert sha256 s db.rows row with
        | .error e => (.error e, db.nextval)
        | .ok row =>
            if insertAdmitted auditPolicies s.bypassRls s row then
              -- the constraint is checked when the row is in place
              if db.knows row.actorId then (.ok (), db.push row)
              else (.error .foreignKey, db.nextval)
            else (.error .rowSecurity, db.nextval)
      else (.error .noPartition, db.nextval)

end

/-! ### The sink -/

/-- The columns `record` inserts for an event, the database assigning `id`
and `ts`. -/
def AuditEvent.toRow (sha256 : List UInt8 → List UInt8) (e : AuditEvent) (prevHash : String)
    (id : Nat) (ts : Int) : AuditRow where
  id := id
  ts := ts
  actorId := e.actorId
  action := e.action.asStr
  permBit := some e.action.permBit
  detail := some e.detailJson
  tenantId := e.tenantId
  prevHash := some prevHash
  rowHash := some (e.rowHash sha256 prevHash)

/-- `PgAuditSink`: a connection, and the tenant it was opened for. -/
structure PgAuditSink where
  client : PgSession
  tenantId : String

namespace PgAuditSink

variable (sha256 : List UInt8 → List UInt8)

/-- `connect`, for a role that bypasses row-level security or not.  The
outcome `set` of `SET app.tenant_id = $1` is ignored: where it fails the
setting stays unset, and `tenantMatches` lets every tenant through.  PostgreSQL
itself refuses the statement, because SET takes no parameters. -/
def connect (bypassRls : Bool) (set : Except PgError Unit) (tenantId : String) : PgAuditSink where
  client :=
    { setting := match set with
        | .ok () => some tenantId
        | .error _ => none
      bypassRls := bypassRls }
  tenantId := tenantId

/-- The first statement of `record`: the hash the new row will name. -/
def fetchPrev (sink : PgAuditSink) (e : AuditEvent) (db : AuditDb) : Except PgError String :=
  (selectLastHash sink.client e.tenantId db).map fun prev => prev.join.getD ""

/-- The second statement of `record`. -/
def append (sink : PgAuditSink) (now : Int) (e : AuditEvent) (prevHash : String) (db : AuditDb) :
    Except PgError Unit × AuditDb :=
  insertAudit sha256 sink.client now (e.toRow sha256 prevHash 0 0) db

/-- Append one audit event. -/
def record (sink : PgAuditSink) (now : Int) (e : AuditEvent) (db : AuditDb) :
    Except PgError Unit × AuditDb :=
  match sink.fetchPrev e db with
  | .error err => (.error err, db)
  | .ok prevHash => sink.append sha256 now e prevHash db

/-- Record the events one after the other, each at its own time; an event
the database rejects is dropped with a warning. -/
def recordAll (sink : PgAuditSink) (es : List (Int × AuditEvent)) (db : AuditDb) : AuditDb :=
  es.foldl (fun db e => (sink.record sha256 e.1 e.2 db).2) db

end PgAuditSink

/-! ### What the statements do -/

/-- No NUL in the columns of the event. -/
def AuditEvent.storable (e : AuditEvent) : Bool := !hasNul e.tenantId && !e.detailJson.hasNul

theorem hasNul_of_isHexText {s : String} (h : IsHexText s) : hasNul s = false := by
  simp only [hasNul, List.any_eq_false, beq_iff_eq]
  rintro c hc rfl
  exact h.not_mem (by decide) hc

theorem AuditAction.hasNul_asStr (a : AuditAction) : hasNul a.asStr = false := by
  cases a <;> decide

/-- In a table sorted by id, `ORDER BY id DESC LIMIT 1` is the last row. -/
theorem argmax_id_of_sorted {rows : List AuditRow}
    (h : rows.Pairwise fun r r' => r.id < r'.id) : rows.argmax (·.id) = rows.getLast? := by
  induction rows using List.reverseRecOn with
  | nil => rfl
  | append_singleton rows r _ =>
      -- the last row's id is above every other one
      rw [List.pairwise_append] at h
      rw [List.argmax_concat, List.getLast?_concat]
      rcases e : rows.argmax (·.id) with - | r'
      · rw [e]
      · rw [e]
        exact if_pos (h.2.2 r' (List.argmax_mem e) r (List.mem_singleton_self r))

theorem lastRowHash_bypass {s : PgSession} (hs : s.bypassRls = true) (tenantId : String)
    (db : AuditDb) :
    lastRowHash s tenantId db.rows = (db.tenantRows tenantId).getLast?.map (·.rowHash) := by
  rw [lastRowHash, hs, visibleRows_bypass]
  exact congrArg _ (argmax_id_of_sorted (db.sorted.filter _))

theorem lastRowHash_rls {s : PgSession} (hs : s.bypassRls = false) (tenantId : String)
    (rows : List AuditRow) : lastRowHash s tenantId rows = none := by
  rw [lastRowHash, hs, visibleRows_auditPolicies]
  rfl

namespace PgAuditSink

variable {sha256 : List UInt8 → List UInt8} {sink : PgAuditSink} {e : AuditEvent} {now : Int}
  {db : AuditDb} {prevHash : String}

/-- The database takes the event's row at time `now`. -/
def accepts (sink : PgAuditSink) (db : AuditDb) (now : Int) (e : AuditEvent) : Bool :=
  e.storable && db.covers now &&
    (sink.client.bypassRls || tenantMatches sink.client e.tenantId) && db.knows e.actorId

theorem checkParams_toRow (hprev : hasNul prevHash = false) (id : Nat) (ts : Int) :
    checkParams (e.toRow sha256 prevHash id ts) = .ok () ↔ e.storable = true := by
  have hhash : hasNul (e.rowHash sha256 prevHash) = false :=
    hasNul_of_isHexText (isHexText_hex _)
  rcases ht : hasNul e.tenantId <;> rcases hd : e.detailJson.hasNul <;>
    simp [checkParams, AuditEvent.toRow, AuditEvent.storable, AuditAction.hasNul_asStr, hprev,
      hhash, ht, hd]

/-- The INSERT of an event: its parameters, its partition, its policies, its
actor.  The client supplies both hashes, so the trigger leaves the row alone. -/
theorem append_eq (hstore : e.storable = true) (hprev : hasNul prevHash = false) :
    sink.append sha256 now e prevHash db =
      if db.covers now then
        if sink.client.bypassRls || tenantMatches sink.client e.tenantId then
          if db.knows e.actorId then (.ok (), db.push (e.toRow sha256 prevHash db.nextId now))
          else (.error .foreignKey, db.nextval)
        else (.error .rowSecurity, db.nextval)
      else (.error .noPartition, db.nextval) := by
  rw [append, insertAudit, (checkParams_toRow hprev 0 0).mpr hstore]
  have hadmit : insertAdmitted auditPolicies sink.client.bypassRls sink.client
      (e.toRow sha256 prevHash db.nextId now) =
        (sink.client.bypassRls || tenantMatches sink.client e.tenantId) :=
    insertAdmitted_auditPolicies _ _ _
  rw [← hadmit]
  rfl

theorem append_of_accepts (h : sink.accepts db now e = true) (hprev : hasNul prevHash = false) :
    sink.append sha256 now e prevHash db =
      (.ok (), db.push (e.toRow sha256 prevHash db.nextId now)) := by
  simp only [accepts, Bool.and_eq_true] at h
  obtain ⟨⟨⟨hstore, hcover⟩, hrls⟩, hactor⟩ := h
  rw [append_eq hstore hprev, if_pos hcover, if_pos hrls, if_pos hactor]

/-- A rejected INSERT fails; it leaves the rows, and what decides about the next one. -/
theorem append_of_not_accepts (sha256 : List UInt8 → List UInt8) (h : sink.accepts db now e = false)
    (hprev : hasNul prevHash = false) :
    ∃ err db', sink.append sha256 now e prevHash db = (.error err, db') ∧
      db'.rows = db.rows ∧ db'.Like db := by
  rcases hstore : e.storable with - | -
  · -- a NUL in a parameter
    rcases hp : checkParams (e.toRow sha256 prevHash 0 0) with err | ⟨⟩
    · refine ⟨err, db, ?_, rfl, .refl db⟩
      rw [append, insertAudit, hp]
    · exact absurd ((checkParams_toRow hprev 0 0).mp hp) (by simp [hstore])
  · rw [append_eq hstore hprev]
    rcases hcover : db.covers now with - | -
    · exact ⟨_, _, if_neg (by simp), rfl, rfl, rfl⟩
    · rcases hrls : sink.client.bypassRls || tenantMatches sink.client e.tenantId with - | -
      · exact ⟨_, _, rfl, rfl, rfl, rfl⟩
      · -- every other gate is open, so the actor is unknown
        rcases hactor : db.knows e.actorId with - | -
        · exact ⟨_, _, rfl, rfl, rfl, rfl⟩
        · exact absurd h (by simp [accepts, hstore, hcover, hrls, hactor])

/-- A role subject to row-level security never finds a previous row. -/
theorem fetchPrev_rls (h : sink.client.bypassRls = false) :
    sink.fetchPrev e db = if hasNul e.tenantId then .error .invalidText else .ok "" := by
  rw [fetchPrev, selectLastHash, lastRowHash_rls h]
  split <;> rfl

/-- A role that bypasses it finds the tenant's last row. -/
theorem fetchPrev_bypass (h : sink.client.bypassRls = true) :
    sink.fetchPrev e db =
      if hasNul e.tenantId then .error .invalidText
      else .ok (((db.tenantRows e.tenantId).getLast?.map (·.rowHash)).join.getD "") := by
  rw [fetchPrev, selectLastHash, lastRowHash_bypass h]
  split <;> rfl

end PgAuditSink

end AgenticIde
