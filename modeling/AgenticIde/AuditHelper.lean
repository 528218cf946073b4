/-
AgenticIde/AuditHelper.lean

The SQL functions that write the audit table (`log_audit` and `log_audit_event` of
`0003_v10.sql`), beside the sink of `audit.rs`.  Nothing in the application calls them;
they are there for an operator, or a job of the database, that has something to log.

The functions are older than the columns of `0005_v20.sql`.  They leave the hashes to the
trigger, which fills in what the sink computes; they leave the tenant to the default of the
column, and no trigger fills that in.  So a row is the one the sink inserts for the tenant
`default` alone (`sameRow_iff`).  For that tenant the two may be mixed at will
(`writeAll_eq_recordAll`).

Two things can part the writers.  One is the tenant.  The other is the octets that are
hashed: the trigger casts the text to `bytea`, where a backslash begins an escape, and the
sink hashes the text.  The names of the actions and the hashes have no backslash, so for the
tenant of the default the second never shows; it does only where a row in the table has a
hash that no writer computed.  Beyond both lies what the database refuses: it refuses the
row of either writer, and then neither inserts anything.

SHA-256 is a parameter.  Where a statement asks for no collision, it asks so only of the
octets of the event at hand.
-/
import AgenticIde.AuditVerify

namespace AgenticIde

open RowSecurity

/-! ### Access to a `jsonb` object -/

/-- `->`: the value of a key. -/
def Json.get? (key : String) : Json → Option Json
  | .obj fields => fields.reverse.lookup key
  | _ => none

/-- `->>`: the value of a key as a text; `render` prints a number, an array or an object. -/
def Json.getText (render : Json → String) (key : String) (j : Json) : Option String :=
  match j.get? key with
  | none | some .null => none
  | some (.str s) => some s
  | some (.bool b) => some (if b then "true" else "false")
  | some value => some (render value)

/-- `text::boolean`: a word for yes or no, or the beginning of one. -/
def booleanIn (s : String) : Option Bool :=
  let word := Str.toAsciiLowercase (Str.trim s)
  if word ∈ ["t", "tr", "tru", "true", "y", "ye", "yes", "on", "1"] then some true
  else if word ∈ ["f", "fa", "fal", "fals", "false", "n", "no", "of", "off", "0"] then some false
  else none

/-- A text, or the JSON null where there is none. -/
def Json.ofText (s : Option String) : Json := (s.map Json.str).getD .null

/-! ### The functions -/

/-- What a call of the functions can fail with. -/
inductive HelperError
  | pg (e : PgError)
  /-- invalid input syntax for type boolean -/
  | invalidBoolean
  deriving DecidableEq

section

variable (sha256 : List UInt8 → List UInt8)

/-- `log_audit`: insert the columns it is given, with the defaults of the others. -/
def logAudit (s : PgSession) (now : Int) (actorId : Option Int) (action : String)
    (permBit : Option Int) (tenantId userId : Option String) (granted : Option Bool)
    (payload : Option Json) (db : AuditDb) : Except PgError Unit × AuditDb :=
  insertAudit sha256 s now
    { id := 0
      ts := 0
      actorId := actorId
      action := action
      permBit := permBit
      detail := some (.obj [("tenant_id", .ofText tenantId), ("user_id", .ofText userId),
        ("granted", (granted.map Json.bool).getD .null), ("payload", payload.getD .null)])
      tenantId := "default"
      prevHash := none
      rowHash := none } db

/-- `log_audit_event`: take the arguments of `log_audit` out of one `jsonb`. -/
def logAuditEvent (render : Json → String) (s : PgSession) (now : Int) (actorId : Option Int)
    (action : String) (permBit : Option Int) (detail : Json) (db : AuditDb) :
    Except HelperError Unit × AuditDb :=
  if detail.hasNul then (.error (.pg .invalidJsonb), db)
  else
    match (detail.getText render "granted").map booleanIn with
    | some none => (.error .invalidBoolean, db)
    | granted =>
        let (result, db) := logAudit sha256 s now actorId action permBit
          (detail.getText render "tenant_id") (detail.getText render "user_id") granted.join
          (detail.get? "payload") db
        (result.mapError .pg, db)

/-- The call for an event. -/
def AuditEvent.logged (render : Json → String) (s : PgSession) (now : Int) (e : AuditEvent)
    (db : AuditDb) : Except HelperError Unit × AuditDb :=
  logAuditEvent sha256 render s now e.actorId e.action.asStr (some e.action.permBit) e.detailJson
    db

end

/-! ### The row of a call -/

variable {sha256 : List UInt8 → List UInt8} {render : Json → String} {sink : PgAuditSink}
  {e : AuditEvent} {now : Int} {db : AuditDb}

/-- The columns of an event, for the tenant of the default. -/
def AuditEvent.toDefaultRow (e : AuditEvent) : AuditRow where
  id := 0
  ts := 0
  actorId := e.actorId
  action := e.action.asStr
  permBit := some e.action.permBit
  detail := some e.detailJson
  tenantId := "default"
  prevHash := none
  rowHash := none

/-- What is taken out of the details of an event is what was put in. -/
theorem getText_detailJson (render : Json → String) (e : AuditEvent) :
    e.detailJson.getText render "tenant_id" = some e.tenantId ∧
      e.detailJson.getText render "user_id" = some e.userId ∧
      (e.detailJson.getText render "granted").map booleanIn = some (some e.granted) ∧
      e.detailJson.get? "payload" = some e.payload := by
  have hgranted : booleanIn (if e.granted then "true" else "false") = some e.granted := by
    cases e.granted <;> decide
  refine ⟨?_, ?_, ?_, ?_⟩
  · simp [Json.getText, Json.get?, AuditEvent.detailJson, List.lookup_cons]
  · simp [Json.getText, Json.get?, AuditEvent.detailJson, List.lookup_cons]
  · simpa [Json.getText, Json.get?, AuditEvent.detailJson, List.lookup_cons] using hgranted
  · simp [Json.get?, AuditEvent.detailJson]

theorem logged_eq (hnul : e.detailJson.hasNul = false) (s : PgSession) :
    e.logged sha256 render s now db =
      ((insertAudit sha256 s now e.toDefaultRow db).1.mapError .pg,
        (insertAudit sha256 s now e.toDefaultRow db).2) := by
  obtain ⟨htenant, huser, hgranted, hpayload⟩ := getText_detailJson render e
  rw [AuditEvent.logged, logAuditEvent, hnul, if_neg Bool.false_ne_true, htenant, huser, hgranted,
    hpayload]
  rfl

/-- The database takes a row of the tenant `t` with the columns of the event. -/
def PgAuditSink.takes (sink : PgAuditSink) (db : AuditDb) (now : Int) (e : AuditEvent)
    (t : String) : Bool :=
  e.storable && db.covers now && (sink.client.bypassRls || tenantMatches sink.client t) &&
    db.knows e.actorId

/-- The hash the trigger finds for the tenant of the default. -/
def PgAuditSink.defaultHash (sink : PgAuditSink) (db : AuditDb) : String :=
  (lastRowHash sink.client "default" db.rows).join.getD ""

/-- The hash SQL computes for the row. -/
def PgAuditSink.sqlHash (sha256 : List UInt8 → List UInt8) (sink : PgAuditSink) (db : AuditDb)
    (e : AuditEvent) : Except PgError String :=
  auditRowHash sha256 (some e.action.asStr) (some e.action.permBit) (some "default")
    (some (sink.defaultHash db))

/-- The row of a call as the trigger leaves it. -/
def PgAuditSink.filledRow (sink : PgAuditSink) (db : AuditDb) (now : Int) (e : AuditEvent)
    (h : String) : AuditRow :=
  { e.toDefaultRow with
    id := db.nextId
    ts := now
    prevHash := some (sink.defaultHash db)
    rowHash := some h }

/-- The trigger fills in both hashes. -/
theorem chain_toDefaultRow (sha256 : List UInt8 → List UInt8) (sink : PgAuditSink) (db : AuditDb)
    (now : Int) (e : AuditEvent) :
    auditChainBeforeInsert sha256 sink.client db.rows
        { e.toDefaultRow with id := db.nextId, ts := now } =
      (sink.sqlHash sha256 db e).map (sink.filledRow db now e) := rfl

/-- **What a call does.**  It inserts a row of the tenant `default`, if the database
takes one and the trigger computes a hash.  The sequence of ids moves on whether or
not the row is taken, as it does for the sink's own insert. -/
theorem logged_db (hstore : e.storable = true) :
    (e.logged sha256 render sink.client now db).2 =
      if db.covers now then
        match sink.sqlHash sha256 db e with
        | .error _ => db.nextval
        | .ok h =>
            if sink.client.bypassRls || tenantMatches sink.client "default" then
              if db.knows e.actorId then db.push (sink.filledRow db now e h) else db.nextval
            else db.nextval
      else db.nextval := by
  have hnul : e.detailJson.hasNul = false := by
    simp only [AuditEvent.storable, Bool.and_eq_true, Bool.not_eq_true'] at hstore
    exact hstore.2
  have hparams : checkParams e.toDefaultRow = .ok () := by
    have hdefault : hasNul "default" = false := by decide
    simp [checkParams, AuditEvent.toDefaultRow, AuditAction.hasNul_asStr, hnul, hdefault]
  have hadmitted : ∀ h, insertAdmitted auditPolicies sink.client.bypassRls sink.client
      (sink.filledRow db now e h) =
        (sink.client.bypassRls || tenantMatches sink.client "default") := fun h =>
    insertAdmitted_auditPolicies _ _ _
  rw [logged_eq hnul, insertAudit, hparams]
  simp only [chain_toDefaultRow]
  rcases hcover : db.covers now with - | -
  · rfl
  · rcases hhash : sink.sqlHash sha256 db e with err | h
    · rfl
    · -- the row names the actor of the event
      have hactor : (sink.filledRow db now e h).actorId = e.actorId := rfl
      simp only [Except.map, if_true, hadmitted, hactor]
      split_ifs <;> rfl

/-- The tenant is among the details, so they have its NULs. -/
theorem storable_eq (e : AuditEvent) : e.storable = !e.detailJson.hasNul := by
  rcases htenant : hasNul e.tenantId with - | -
  · rw [AuditEvent.storable, htenant, Bool.not_false, Bool.true_and]
  · have hdetail : e.detailJson.hasNul = true := by
      simp [AuditEvent.detailJson, Json.hasNul, Json.fieldsHaveNul, htenant]
    rw [AuditEvent.storable, htenant, hdetail]
    rfl

/-- A call the database does not take leaves the rows. -/
theorem logged_of_not_takes (h : sink.takes db now e "default" = false) :
    (e.logged sha256 render sink.client now db).2.rows = db.rows := by
  rcases hstore : e.storable with - | -
  · have hnul : e.detailJson.hasNul = true := by
      rw [storable_eq, Bool.not_eq_false'] at hstore
      exact hstore
    rw [AuditEvent.logged, logAuditEvent, hnul, if_pos rfl]
  · rw [logged_db hstore]
    rw [PgAuditSink.takes, hstore, Bool.true_and] at h
    rcases hcover : db.covers now with - | -
    · rfl
    · rw [hcover, Bool.true_and, Bool.and_eq_false_iff] at h
      rw [if_pos rfl]
      rcases sink.sqlHash sha256 db e with err | hash
      · rfl
      · -- the policies refuse the row, or the foreign key does
        rcases h with hrls | hactor
        · simp only [hrls]
          rfl
        · simp only [hactor, Bool.false_eq_true, if_false, ite_self]
          rfl

/-- A call it takes inserts a row, or fails for want of a hash. -/
theorem logged_of_takes (h : sink.takes db now e "default" = true) :
    (e.logged sha256 render sink.client now db).2 =
      match sink.sqlHash sha256 db e with
      | .error _ => db.nextval
      | .ok h => db.push (sink.filledRow db now e h) := by
  rw [PgAuditSink.takes, Bool.and_eq_true, Bool.and_eq_true, Bool.and_eq_true] at h
  obtain ⟨⟨⟨hstore, hcover⟩, hrls⟩, hactor⟩ := h
  rw [logged_db hstore, hcover, if_pos rfl, hrls, hactor]
  rfl

/-! ### The two writers -/

/-- The columns of a row that its writer decides. -/
def AuditRow.columns (r : AuditRow) :
    String × Option Int × Option Json × String × Option String × Option String :=
  (r.action, r.permBit, r.detail, r.tenantId, r.prevHash, r.rowHash)

/-- The call inserts what `record` inserts.  Compared are the columns of the rows in
the table afterwards, so that it also says when neither inserts anything. -/
def PgAuditSink.SameRow (sha256 : List UInt8 → List UInt8) (render : Json → String)
    (sink : PgAuditSink) (now : Int) (e : AuditEvent) (db : AuditDb) : Prop :=
  (e.logged sha256 render sink.client now db).2.rows.map AuditRow.columns =
    (sink.record sha256 now e db).2.rows.map AuditRow.columns

/-- The tenant is the one of the default, and the hash the row names has no backslash; or the
database takes no row at all. -/
def PgAuditSink.Symmetric (sink : PgAuditSink) (now : Int) (e : AuditEvent) (db : AuditDb) :
    Prop :=
  if e.tenantId = "default" then
    sink.takes db now e "default" = true → '\\' ∉ (sink.defaultHash db).toList
  else sink.takes db now e e.tenantId = false ∧ sink.takes db now e "default" = false

theorem accepts_eq_takes (sink : PgAuditSink) (db : AuditDb) (now : Int) (e : AuditEvent) :
    sink.accepts db now e = sink.takes db now e e.tenantId := rfl

theorem columns_push (db : AuditDb) (row : AuditRow) :
    (db.push row).rows.map AuditRow.columns =
      db.rows.map AuditRow.columns ++ [row.columns] := by
  rw [AuditDb.push, List.map_append]
  rfl

/-- A text in the table holds no NUL, so the hash `record` finds has none. -/
theorem hasNul_prevHash
    (htext : ∀ r ∈ db.rows, ∀ h, r.rowHash = some h → hasNul h = false) :
    hasNul (sink.prevHash e db) = false := by
  have hempty : hasNul "" = false := by decide
  rw [PgAuditSink.prevHash]
  rcases sink.client.bypassRls with - | -
  · exact hempty
  · rw [if_pos rfl, lastHash]
    rcases hlast : (db.tenantRows e.tenantId).getLast? with - | r
    · exact hempty
    · have hmem : r ∈ db.rows := List.mem_of_mem_filter (List.mem_of_getLast? hlast)
      rcases hhash : r.rowHash with - | h
      · rw [Option.map_some, hhash]
        exact hempty
      · rw [Option.map_some, hhash]
        exact htext r hmem h hhash

theorem prevHash_default (he : e.tenantId = "default") :
    sink.prevHash e db = sink.defaultHash db := by
  rw [PgAuditSink.prevHash, PgAuditSink.defaultHash, he]
  rcases hbypass : sink.client.bypassRls with - | -
  · rw [lastRowHash_rls hbypass]
    rfl
  · rw [lastRowHash_bypass hbypass]
    rfl

/-- What `record` does to the rows, in a table of texts. -/
theorem record_rows (htext : ∀ r ∈ db.rows, ∀ h, r.rowHash = some h → hasNul h = false) :
    (sink.record sha256 now e db).2.rows.map AuditRow.columns =
      db.rows.map AuditRow.columns ++
        if sink.takes db now e e.tenantId then
          [(e.toRow sha256 (sink.prevHash e db) 0 0).columns]
        else [] := by
  have hprev : hasNul (sink.prevHash e db) = false := hasNul_prevHash htext
  rcases hnul : hasNul e.tenantId with - | -
  -- The reading of the last hash has come through, so all hangs on the `INSERT`.
  · rw [PgAuditSink.record, PgAuditSink.fetchPrev_eq hnul, ← accepts_eq_takes]
    rcases haccepts : sink.accepts db now e with - | -
    · obtain ⟨err, db', happend, hrows, -⟩ :=
        PgAuditSink.append_of_not_accepts sha256 haccepts hprev
      rw [if_neg Bool.false_ne_true, List.append_nil]
      simp only [happend, hrows]
    · rw [if_pos rfl]
      simp only [PgAuditSink.append_of_accepts haccepts hprev, columns_push]
      rfl
  -- With a zero octet in the tenant the sink fails before it inserts, in `fetch_prev`.
  · have htakes : sink.takes db now e e.tenantId = false := by
      rw [PgAuditSink.takes, AuditEvent.storable, hnul]
      rfl
    have hfetch : sink.fetchPrev e db = .error .invalidText := by
      rw [PgAuditSink.fetchPrev, selectLastHash, hnul]
      rfl
    rw [PgAuditSink.record, hfetch, htakes, if_neg Bool.false_ne_true, List.append_nil]

/-- What a call does to the rows. -/
theorem logged_rows :
    (e.logged sha256 render sink.client now db).2.rows.map AuditRow.columns =
      db.rows.map AuditRow.columns ++
        if sink.takes db now e "default" then
          match sink.sqlHash sha256 db e with
          | .error _ => []
          | .ok h => [(sink.filledRow db now e h).columns]
        else [] := by
  rcases htakes : sink.takes db now e "default" with - | -
  · rw [logged_of_not_takes htakes, if_neg Bool.false_ne_true, List.append_nil]
  · rw [logged_of_takes htakes, if_pos rfl]
    rcases sink.sqlHash sha256 db e with err | h
    · exact (List.append_nil _).symm
    · exact columns_push db _

/-- For the tenant of the default SQL computes the hash of the code exactly where the hash
before it has no backslash. -/
theorem sqlHash_eq_ok_iff (he : e.tenantId = "default")
    (hinj : ∀ bytes, byteaIn (utf8 (e.hashPayload (sink.defaultHash db))) = some bytes →
      sha256 bytes = sha256 (utf8 (e.hashPayload (sink.defaultHash db))) →
        bytes = utf8 (e.hashPayload (sink.defaultHash db))) :
    sink.sqlHash sha256 db e = .ok (e.rowHash sha256 (sink.defaultHash db)) ↔
      '\\' ∉ (sink.defaultHash db).toList := by
  -- The tenant is fixed, so of the two conditions on backslashes the one on the hash
  -- remains.
  have hclean : '\\' ∉ e.tenantId.toList := by
    rw [he]
    decide
  have hagree := @hashedBytes_agree_iff e (sink.defaultHash db)
  rw [and_iff_right hclean, he] at hagree
  have hpayload : auditChainPayload (some e.action.asStr) (some e.action.permBit) (some "default")
      (some (sink.defaultHash db)) = e.hashPayload (sink.defaultHash db) := by
    rw [← he]
    rfl
  rw [PgAuditSink.sqlHash, auditRowHash, ← hagree, auditHashedBytes, hpayload]
  -- Where the octets do not decode, SQL has no hash to compare.
  rcases hin : byteaIn (utf8 (e.hashPayload (sink.defaultHash db))) with - | bytes
  · exact iff_of_false (fun h => by cases h) (fun h => by cases h)
  · constructor
    -- A collision is excluded here, and nowhere else in the proof.
    · intro h
      have hdigest := hex_injective (Except.ok.inj h)
      rw [hinj bytes hin hdigest]
    · intro h
      rw [Except.ok.inj h]
      rfl

/-- Behind a hash without a backslash SQL computes a hash. -/
theorem exists_sqlHash (sha256 : List UInt8 → List UInt8) (e : AuditEvent)
    (h : '\\' ∉ (sink.defaultHash db).toList) : ∃ h, sink.sqlHash sha256 db e = .ok h := by
  have hdefault : '\\' ∉ "default".toList := by decide
  have hbytes := (@hashedBytes_agree_iff { e with tenantId := "default" }
    (sink.defaultHash db)).mpr ⟨hdefault, h⟩
  exact ⟨_, congrArg (Except.map _) hbytes⟩

/-- A role that is let in for the tenant of the default alone is not one that bypasses the
policies. -/
theorem bypassRls_eq_false {t : String} (ht : sink.takes db now e t = false)
    (hdefault : sink.takes db now e "default" = true) : sink.client.bypassRls = false := by
  rw [PgAuditSink.takes] at ht hdefault
  rcases hbypass : sink.client.bypassRls with - | -
  · rfl
  · rw [hbypass, Bool.true_or] at ht hdefault
    exact absurd (ht.symm.trans hdefault) Bool.false_ne_true

/-- **The two writers insert the same row** exactly where `Symmetric` says so: the
functions know one tenant, the one of the default.  Nothing is asked of the hash but
that it tells the octets of this event's text from what the database may make of
them, and the hashes of the log are texts that can be stored. -/
theorem sameRow_iff (render : Json → String) (sink : PgAuditSink) (now : Int) {db : AuditDb}
    (htext : ∀ r ∈ db.rows, ∀ h, r.rowHash = some h → hasNul h = false) (e : AuditEvent)
    (hinj : ∀ bytes, byteaIn (utf8 (e.hashPayload (sink.defaultHash db))) = some bytes →
      sha256 bytes = sha256 (utf8 (e.hashPayload (sink.defaultHash db))) →
        bytes = utf8 (e.hashPayload (sink.defaultHash db))) :
    sink.SameRow sha256 render now e db ↔ sink.Symmetric now e db := by
  rw [PgAuditSink.SameRow, logged_rows, record_rows htext, List.append_cancel_left_eq,
    PgAuditSink.Symmetric]
  by_cases he : e.tenantId = "default"
  · -- the rows differ in the hash at most
    rw [if_pos he, he, prevHash_default he]
    rcases sink.takes db now e "default" with - | -
    · exact iff_of_true rfl fun h => absurd h Bool.false_ne_true
    · rw [if_pos rfl, if_pos rfl, ← sqlHash_eq_ok_iff he hinj]
      rcases hhash : sink.sqlHash sha256 db e with err | h
      · simp
      · have hcolumns : (sink.filledRow db now e h).columns =
              (e.toRow sha256 (sink.defaultHash db) 0 0).columns ↔
            h = e.rowHash sha256 (sink.defaultHash db) := by
          simp [AuditRow.columns, PgAuditSink.filledRow, AuditEvent.toDefaultRow,
            AuditEvent.toRow, he]
        simpa using hcolumns
  · rw [if_neg he]
    -- a row of the default is none of the tenant
    have hother : ∀ h, (sink.filledRow db now e h).columns ≠
        (e.toRow sha256 (sink.prevHash e db) 0 0).columns := by
      intro h hcolumns
      exact he (congrArg (fun columns => columns.2.2.2.1) hcolumns).symm
    rcases htakes : sink.takes db now e e.tenantId with - | - <;>
      rcases hdefault : sink.takes db now e "default" with - | -
    · simp
    · -- the role is held to the tenant of the default, and reads no hash
      have hhash : ∃ h, sink.sqlHash sha256 db e = .ok h := by
        refine exists_sqlHash sha256 e ?_
        rw [PgAuditSink.defaultHash, lastRowHash_rls (bypassRls_eq_false htakes hdefault)]
        decide
      obtain ⟨h, hhash⟩ := hhash
      simp [hhash]
    · simp
    · rcases sink.sqlHash sha256 db e with err | h
      · simp
      · simp [hother h]

/-- SHA-256 on the text of a read for the tenant of the default. -/
def sha256OfRead : List UInt8 → List UInt8 := digestTable
  [("read|1|default|",
    [136, 109, 11, 98, 170, 117, 226, 9, 194, 240, 184, 202, 233, 116, 206, 171, 252, 108, 241, 68,
     153, 109, 181, 202, 66, 138, 8, 118, 50, 15, 219, 86])]

/-- A connection of the owner of the table. -/
def ownerSink (tenantId : String) : PgAuditSink := .connect true (.ok ()) tenantId

/-- A read for a tenant. -/
def readFor (tenantId : String) : AuditEvent := .new 0 (.all tenantId "ana") .read true .null

theorem sameRow_iff_default :
    (ownerSink "default").SameRow sha256OfRead (fun _ => "") 0 (readFor "default")
        (.empty [(0, 1)] []) ↔
      (ownerSink "default").Symmetric 0 (readFor "default") (.empty [(0, 1)] []) := by
  refine sameRow_iff (fun _ => "") (ownerSink "default") 0 ?_ (readFor "default") ?_
  · exact fun r hr => absurd hr List.not_mem_nil
  · -- without a backslash the octets are those of the text
    intro bytes hin _
    have hself : byteaIn (utf8 ((readFor "default").hashPayload
        ((ownerSink "default").defaultHash (.empty [(0, 1)] [])))) =
        some (utf8 ((readFor "default").hashPayload
          ((ownerSink "default").defaultHash (.empty [(0, 1)] [])))) := by
      rw [byteaIn_eq_self_iff, backslash_mem_utf8_iff]
      decide
    exact Option.some.inj (hin.symm.trans hself)

/-- A call for the tenant `acme` inserts a row of the tenant `default`. -/
theorem not_sameRow_acme :
    ¬ (ownerSink "acme").SameRow sha256OfRead (fun _ => "") 0 (readFor "acme")
      (.empty [(0, 1)] []) := by
  intro h
  have htext : ∀ r ∈ (AuditDb.empty [(0, 1)] []).rows, ∀ hash, r.rowHash = some hash →
      hasNul hash = false := fun r hr => absurd hr List.not_mem_nil
  have htakes : (ownerSink "acme").takes (.empty [(0, 1)] []) 0 (readFor "acme")
      (readFor "acme").tenantId = true := by decide
  have hdefault : (ownerSink "acme").takes (.empty [(0, 1)] []) 0 (readFor "acme") "default" =
      true := by decide
  obtain ⟨hash, hhash⟩ := @exists_sqlHash (ownerSink "acme") (.empty [(0, 1)] []) sha256OfRead
    (readFor "acme") (by decide)
  rw [PgAuditSink.SameRow, logged_rows, record_rows htext, htakes, hdefault, hhash] at h
  have htenant : (some "default" : Option String) = some "acme" :=
    congrArg (fun rows => rows.head?.map fun columns => columns.2.2.2.1) h
  exact absurd htenant (by decide)

/-! ### Mixing the writers -/

/-- Who writes. -/
inductive AuditWriter
  | core
  | helper
  deriving DecidableEq

/-- Write an event. -/
def AuditWriter.write (sha256 : List UInt8 → List UInt8) (render : Json → String)
    (sink : PgAuditSink) (writer : AuditWriter) (now : Int) (e : AuditEvent) (db : AuditDb) :
    AuditDb :=
  match writer with
  | core => (sink.record sha256 now e db).2
  | helper => (e.logged sha256 render sink.client now db).2

/-- Write events one after the other. -/
def writeAll (sha256 : List UInt8 → List UInt8) (render : Json → String) (sink : PgAuditSink)
    (es : List (AuditWriter × Int × AuditEvent)) (db : AuditDb) : AuditDb :=
  es.foldl (fun db e => e.1.write sha256 render sink e.2.1 e.2.2 db) db

/-- For the tenant of the default a call does what `record` does. -/
theorem logged_eq_record (he : e.tenantId = "default")
    (hclean : '\\' ∉ (sink.prevHash e db).toList) (hnul : hasNul (sink.prevHash e db) = false) :
    (e.logged sha256 render sink.client now db).2 = (sink.record sha256 now e db).2 := by
  have htenant : hasNul e.tenantId = false := by
    rw [he]
    decide
  have hfetch := @PgAuditSink.fetchPrev_eq sink e db htenant
  rcases hstore : e.storable with - | -
  · have hdetail : e.detailJson.hasNul = true := by
      rw [storable_eq, Bool.not_eq_false'] at hstore
      exact hstore
    rw [AuditEvent.logged, logAuditEvent, hdetail, if_pos rfl, PgAuditSink.record, hfetch]
    -- refused before the statement runs, on both sides
    rcases hparams : checkParams (e.toRow sha256 (sink.prevHash e db) 0 0) with err | ⟨⟩
    · simp only [PgAuditSink.append, insertAudit, hparams]
    · rw [(PgAuditSink.checkParams_toRow hnul 0 0).mp hparams] at hstore
      cases hstore
  · have hhash : sink.sqlHash sha256 db e = .ok (e.rowHash sha256 (sink.prevHash e db)) := by
      have hbytes := hashedBytes_agree_iff.mpr ⟨show '\\' ∉ e.tenantId.toList by
        rw [he]
        decide, hclean⟩
      rw [PgAuditSink.sqlHash, auditRowHash, ← prevHash_default he, ← he, hbytes]
      rfl
    have hrow : sink.filledRow db now e (e.rowHash sha256 (sink.prevHash e db)) =
        e.toRow sha256 (sink.prevHash e db) db.nextId now := by
      rw [PgAuditSink.filledRow, AuditEvent.toDefaultRow, AuditEvent.toRow, he,
        prevHash_default he]
    rw [logged_db hstore, hhash, PgAuditSink.record, hfetch]
    simp only [PgAuditSink.append_eq hstore hnul, hrow, he]
    split_ifs <;> rfl

/-- **Mixed as one likes, the writers leave what the sink alone leaves**, for events
of the tenant of the default, in a table whose hashes are digests.  By induction on
the events, since a row of either writer keeps the table such a one. -/
theorem writeAll_eq_recordAll (hread : sink.ReadsRecorded sha256 db)
    {es : List (AuditWriter × Int × AuditEvent)} (hes : ∀ e ∈ es, e.2.2.tenantId = "default") :
    writeAll sha256 render sink es db = sink.recordAll sha256 (es.map Prod.snd) db := by
  induction es using List.reverseRecOn with
  | nil => rfl
  | append_singleton es e ih =>
      -- The induction is on the last event, as both logs are written from the front. A call
      -- of the functions is a `record` once the hashes it finds are digests, which the log
      -- of the sink keeps.
      have ih' := ih fun e' he' => hes e' (List.mem_append_left _ he')
      have hstep : ∀ db', sink.ReadsRecorded sha256 db' →
          e.1.write sha256 render sink e.2.1 e.2.2 db' =
            (sink.record sha256 e.2.1 e.2.2 db').2 := by
        intro db' hread'
        rcases e with ⟨- | -, now, e⟩
        · rfl
        · have hhex : IsHexText (sink.prevHash e db') := PgAuditSink.isHexText_prevHash hread'
          exact logged_eq_record (hes _ (List.mem_append_right _ List.mem_cons_self))
            (hhex.not_mem (by decide)) (hasNul_of_isHexText hhex)
      rw [List.map_append, List.map_singleton, PgAuditSink.recordAll_concat, ← ih', ← hstep]
      · rw [writeAll, List.foldl_append]
        rfl
      · rw [ih']
        exact PgAuditSink.readsRecorded_recordAll hread _

end AgenticIde
