/-
AgenticIde/PgSecrets.lean

Secrets encrypted at rest: the `secrets` table with `set_secret` and `get_secret`
(migration 0005), and the store over it (`PgSecretStore` of `security.rs`).

The ciphers are those of pgcrypto, of which only the round trip under one key is
used.  Every encryption has random bytes of its own, so no two of the same value
need be equal.

A session has the tenant in `app.tenant_id`, and the policy of the table shows
it the rows of that tenant only.  The store would set the tenant for each
transaction, but the statement it prepares for that is a syntax error: `SET`
takes no parameter.  So every call of the store fails, and what is stored comes
from sessions that call the functions in SQL.

Over any run of calls, by sessions of all tenants and by the store, under all
keys, the table is a register for each tenant and name (`get_run`): a session
that the policy lets through decrypts what the last `set_secret` of that tenant
and name has encrypted that succeeded, and finds nothing if there is none.  Any
other session stores nothing and finds nothing.
-/
import AgenticIde.Lib.Machine
import AgenticIde.Lib.Upsert
import AgenticIde.PgAudit

namespace AgenticIde

open RowSecurity

/-! ### The table -/

/-- A row of the `secrets` table. -/
structure SecretRow where
  tenantId : String
  name : String
  valueEncrypted : List UInt8

/-- The unique key. -/
def SecretRow.key (r : SecretRow) : String × String := (r.tenantId, r.name)

/-- The `secrets` table. -/
structure SecretDb where
  rows : List SecretRow
  /-- `UNIQUE (tenant_id, name)`. -/
  unique : (rows.map SecretRow.key).Nodup

namespace SecretDb

def empty : SecretDb := ⟨[], List.nodup_nil⟩

/-- The row of a tenant under a name. -/
def row? (db : SecretDb) (tenantId name : String) : Option SecretRow :=
  db.rows.find? (·.key = (tenantId, name))

def upsert (db : SecretDb) (row : SecretRow) : SecretDb :=
  ⟨AgenticIde.upsert SecretRow.key row db.rows, nodup_upsert db.unique⟩

theorem row?_upsert (db : SecretDb) (row : SecretRow) (tenantId name : String) :
    (db.upsert row).row? tenantId name =
      if row.key = (tenantId, name) then some row else db.row? tenantId name :=
  find?_upsert db.rows (tenantId, name)

theorem key_of_row? {db : SecretDb} {tenantId name : String} {row : SecretRow}
    (h : db.row? tenantId name = some row) : row.key = (tenantId, name) := by
  rw [row?] at h
  simpa using List.find?_some h

end SecretDb

/-- `secrets_tenant_isolation` (0005): permissive, `FOR ALL`. -/
def secretsTenantIsolation : Policy PgSession SecretRow where
  permissive := true
  command := none
  admits := fun _ s r => tenantMatches s r.tenantId

/-- The policies on `secrets`. -/
def secretsPolicies : List (Policy PgSession SecretRow) := [secretsTenantIsolation]

@[simp] theorem rowAdmitted_secretsPolicies (c : Command) (s : PgSession) (r : SecretRow) :
    rowAdmitted secretsPolicies c s r = tenantMatches s r.tenantId := by
  simp [rowAdmitted, secretsPolicies, secretsTenantIsolation, Policy.appliesTo]

/-- pgcrypto with random bytes `ν`; where it raises an error there is no
result. -/
structure Pgcrypto (ν : Type) where
  pgpSymEncrypt : ν → (value key : String) → Option (List UInt8)
  pgpSymDecrypt : List UInt8 → (key : String) → Option String

/-- Under its own key an encryption is decrypted to the value.  Nothing is asked
about other keys, and none about encryptions that fail. -/
def Pgcrypto.RoundTrip {ν : Type} (crypto : Pgcrypto ν) : Prop :=
  ∀ r value key data, crypto.pgpSymEncrypt r value key = some data →
    crypto.pgpSymDecrypt data key = some value

/-- What a call can fail with. -/
inductive SecretError
  /-- syntax error at or near "$1": `SET` takes no parameter -/
  | setRefused
  /-- invalid byte sequence for encoding "UTF8": 0x00 -/
  | invalidText
  /-- new row violates row-level security policy for table "secrets" -/
  | rowSecurity
  | encryption
  /-- Wrong key or corrupt data -/
  | decryption
  deriving DecidableEq

/-! ### The SQL functions -/

section

variable {ν : Type} (crypto : Pgcrypto ν)

/-- `set_secret`.  A conflict encrypts once more, and the row has to be one the
session may update. -/
def setSecret (random : ν × ν) (s : PgSession) (tenant name value key : String) (db : SecretDb) :
    Except SecretError SecretDb :=
  match crypto.pgpSymEncrypt random.1 value key with
  | none => .error .encryption
  | some data =>
      if !insertAdmitted secretsPolicies s.bypassRls s ⟨tenant, name, data⟩ then
        .error .rowSecurity
      else
        match db.row? tenant name with
        | none => .ok (db.upsert ⟨tenant, name, data⟩)
        | some old =>
            if !(s.bypassRls || rowAdmitted secretsPolicies .select s old) then .error .rowSecurity
            else
              match crypto.pgpSymEncrypt random.2 value key with
              | none => .error .encryption
              | some data => .ok (db.upsert ⟨tenant, name, data⟩)

/-- `get_secret`; `none` is NULL. -/
def getSecret (s : PgSession) (tenant name key : String) (db : SecretDb) :
    Except SecretError (Option String) :=
  match (visibleRows secretsPolicies s.bypassRls s db.rows).find?
      (·.key = (tenant, name)) with
  | none => .ok none
  | some row =>
      match crypto.pgpSymDecrypt row.valueEncrypted key with
      | none => .error .decryption
      | some value => .ok (some value)

end

/-! ### Calls -/

/-- `SELECT set_secret(…)` and `SELECT get_secret(…)`. -/
inductive SecretCall (ν : Type)
  | set (random : ν × ν) (tenant name value key : String)
  | get (tenant name key : String)

/-- What a call returns. -/
inductive SecretReply
  | stored
  | value (v : Option String)

namespace SecretCall

variable {ν : Type} (crypto : Pgcrypto ν)

/-- The parameters of the call. -/
def texts : SecretCall ν → List String
  | set _ tenant name value key => [tenant, name, value, key]
  | get tenant name key => [tenant, name, key]

/-- Execute the call in a session. -/
def execute (call : SecretCall ν) (s : PgSession) (db : SecretDb) :
    Except SecretError (SecretReply × SecretDb) :=
  if call.texts.any hasNul then .error .invalidText
  else
    match call with
    | set random tenant name value key =>
        (setSecret crypto random s tenant name value key db).map fun db' => (.stored, db')
    | get tenant name key =>
        (getSecret crypto s tenant name key db).map fun value => (.value value, db)

end SecretCall

/-! ### The store -/

/-- `PgSecretStore`: the session of its connection. -/
structure PgSecretStore where
  session : PgSession

namespace PgSecretStore

variable {ν : Type} (crypto : Pgcrypto ν)

/-- `SET LOCAL app.tenant_id = $1`.  The statement is prepared before it is
executed, and PostgreSQL has no parameters in `SET`. -/
def setTenantLocal (_tenant : String) (_s : PgSession) : Except SecretError PgSession :=
  .error .setRefused

/-- A call in a transaction scoped to the tenant: committed if it succeeds,
dropped, and so rolled back, if it fails. -/
def withTenant (self : PgSecretStore) (tenant : String) (call : SecretCall ν) (db : SecretDb) :
    Except SecretError SecretReply × SecretDb :=
  match (setTenantLocal tenant self.session).bind fun s => call.execute crypto s db with
  | .ok (reply, db') => (.ok reply, db')
  | .error e => (.error e, db)

/-- Upsert a secret, encrypted. -/
def set (self : PgSecretStore) (random : ν × ν) (tenant name value key : String) (db : SecretDb) :
    Except SecretError SecretReply × SecretDb :=
  self.withTenant crypto tenant (.set random tenant name value key) db

/-- Read a secret, decrypted. -/
def get (self : PgSecretStore) (tenant name key : String) (db : SecretDb) :
    Except SecretError SecretReply × SecretDb :=
  self.withTenant crypto tenant (.get tenant name key) db

/-- The calls on one table: by any session, or by a store. -/
inductive Op (ν : Type)
  | sql (s : PgSession) (call : SecretCall ν)
  | set (self : PgSecretStore) (random : ν × ν) (tenant name value key : String)
  | get (self : PgSecretStore) (tenant name key : String)

/-- A call and what came of it. -/
abbrev Entry (ν : Type) : Type := SecretCall ν × Except SecretError SecretReply

/-- Perform a call, and log it with its result.  What fails is rolled back. -/
def step (db : SecretDb) : Op ν → SecretDb × List (Entry ν)
  | .sql s call =>
      match call.execute crypto s db with
      | .ok (reply, db') => (db', [(call, .ok reply)])
      | .error e => (db, [(call, .error e)])
  | .set self random tenant name value key =>
      let (r, db) := self.set crypto random tenant name value key db
      (db, [(.set random tenant name value key, r)])
  | .get self tenant name key =>
      let (r, db) := self.get crypto tenant name key db
      (db, [(.get tenant name key, r)])

/-- The value and the key of a `set` for the tenant and the name that
succeeded. -/
def setOf (tenant name : String) : Entry ν → Option (String × String)
  | (.set _ tenant' name' value key, .ok _) =>
      if tenant' = tenant ∧ name' = name then some (value, key) else none
  | _ => none

/-- The last of them. -/
def lastSet (log : List (Entry ν)) (tenant name : String) : Option (String × String) :=
  log.foldl (fun last o => (setOf tenant name o).or last) none

/-- The policy lets the session at the rows of the tenant. -/
def reaches (s : PgSession) (tenant : String) : Bool := s.bypassRls || tenantMatches s tenant

variable {crypto} {self : PgSecretStore} {s : PgSession}

theorem lastSet_concat (log : List (Entry ν)) (o : Entry ν) (tenant name : String) :
    lastSet (log ++ [o]) tenant name = (setOf tenant name o).or (lastSet log tenant name) := by
  simp [lastSet]

/-! ### One call -/

theorem insertAdmitted_secretsPolicies (s : PgSession) (row : SecretRow) :
    insertAdmitted secretsPolicies s.bypassRls s row = reaches s row.tenantId := by
  rw [insertAdmitted, rowAdmitted_secretsPolicies, reaches]

variable (crypto) in
/-- A `set_secret` fails, or the policy admits it and it puts an encryption of
the value under the tenant and the name. -/
theorem setSecret_cases (random : ν × ν) (s : PgSession) (tenant name value key : String)
    (db : SecretDb) :
    (∃ e, setSecret crypto random s tenant name value key db = .error e) ∨
      reaches s tenant = true ∧ ∃ r data, crypto.pgpSymEncrypt r value key = some data ∧
        setSecret crypto random s tenant name value key db =
          .ok (db.upsert ⟨tenant, name, data⟩) := by
  simp only [setSecret, insertAdmitted_secretsPolicies]
  rcases hfirst : crypto.pgpSymEncrypt random.1 value key with - | data
  · exact Or.inl ⟨_, rfl⟩
  rcases hreaches : reaches s tenant with - | -
  · exact Or.inl ⟨_, rfl⟩
  simp only [Bool.not_true, Bool.false_eq_true, if_false]
  rcases hrow : db.row? tenant name with - | old
  · exact Or.inr ⟨trivial, random.1, data, hfirst, rfl⟩
  -- the row in conflict is one of the same tenant, so the policy admits it as well
  have hupdate : (s.bypassRls || rowAdmitted secretsPolicies .select s old) = true := by
    have htenant : old.tenantId = tenant := congrArg Prod.fst (SecretDb.key_of_row? hrow)
    rw [rowAdmitted_secretsPolicies, htenant]
    exact hreaches
  simp only [hupdate, Bool.not_true, Bool.false_eq_true, if_false]
  rcases hsecond : crypto.pgpSymEncrypt random.2 value key with - | data'
  · exact Or.inl ⟨_, rfl⟩
  · exact Or.inr ⟨trivial, random.2, data', hsecond, rfl⟩

variable (crypto) in
/-- A `set_secret` fails, or stores an encryption of its value under its key. -/
theorem execute_set_cases (random : ν × ν) (s : PgSession) (tenant name value key : String)
    (db : SecretDb) :
    (∃ e, (SecretCall.set random tenant name value key).execute crypto s db = .error e) ∨
      reaches s tenant = true ∧ ∃ r data, crypto.pgpSymEncrypt r value key = some data ∧
        (SecretCall.set random tenant name value key).execute crypto s db =
          .ok (.stored, db.upsert ⟨tenant, name, data⟩) := by
  rw [SecretCall.execute]
  split
  · exact Or.inl ⟨_, rfl⟩
  rcases setSecret_cases crypto random s tenant name value key db with
    ⟨e, he⟩ | ⟨hreaches, r, data, hdata, hok⟩
  · refine Or.inl ⟨e, ?_⟩
    show (setSecret crypto random s tenant name value key db).map _ = _
    rw [he]
    rfl
  · refine Or.inr ⟨hreaches, r, data, hdata, ?_⟩
    show (setSecret crypto random s tenant name value key db).map _ = _
    rw [hok]
    rfl

/-- A session finds the row it asks for if the policy lets it through. -/
theorem find?_visibleRows (s : PgSession) (tenant name : String) (db : SecretDb) :
    (visibleRows secretsPolicies s.bypassRls s db.rows).find?
        (fun r => decide (r.key = (tenant, name))) =
      if reaches s tenant then db.row? tenant name else none := by
  rw [visibleRows]
  rcases hbypass : s.bypassRls with - | -
  -- Past the policy every row is seen; under it, those of the tenant of the session.
  · rw [if_neg Bool.false_ne_true, List.find?_filter, reaches, hbypass, Bool.false_or]
    rcases hmatches : tenantMatches s tenant with - | -
    · rw [if_neg Bool.false_ne_true, List.find?_eq_none]
      intro r _ hr
      obtain ⟨hadmitted, hkey⟩ := of_decide_eq_true hr
      have htenant : r.tenantId = tenant := congrArg Prod.fst (of_decide_eq_true hkey)
      rw [rowAdmitted_secretsPolicies, htenant, hmatches] at hadmitted
      cases hadmitted
    · rw [if_pos rfl, SecretDb.row?]
      refine congrArg (fun p => List.find? p db.rows) (funext fun r => ?_)
      by_cases hkey : r.key = (tenant, name)
      · have htenant : r.tenantId = tenant := congrArg Prod.fst hkey
        simp [htenant, hmatches]
      · simp [hkey]
  · rw [if_pos rfl, reaches, hbypass, Bool.true_or, if_pos rfl]
    rfl

theorem execute_get {tenant name key : String} (htexts : [tenant, name, key].any hasNul = false)
    (db : SecretDb) :
    (SecretCall.get tenant name key : SecretCall ν).execute crypto s db =
      match (if reaches s tenant then db.row? tenant name else none) with
      | none => .ok (.value none, db)
      | some row =>
          (crypto.pgpSymDecrypt row.valueEncrypted key).elim (.error .decryption) fun v =>
            .ok (.value (some v), db) := by
  have hnul : ¬(SecretCall.get tenant name key : SecretCall ν).texts.any hasNul = true :=
    Bool.eq_false_iff.mp htexts
  rw [SecretCall.execute, if_neg hnul]
  simp only [getSecret, find?_visibleRows]
  rcases (if reaches s tenant then db.row? tenant name else none) with - | row
  · rfl
  · rcases hdecrypt : crypto.pgpSymDecrypt row.valueEncrypted key with - | v <;>
      simp only [hdecrypt] <;> rfl

/-- A `get` leaves the table. -/
theorem execute_get_db {tenant name key : String} {reply : SecretReply} {db db' : SecretDb}
    (h : (SecretCall.get tenant name key : SecretCall ν).execute crypto s db = .ok (reply, db')) :
    db' = db := by
  rw [SecretCall.execute] at h
  split at h
  · cases h
  · rcases hget : getSecret crypto s tenant name key db with e | v <;>
      simp only [hget, Except.map] at h <;> cases h
    rfl

/-- What a store is asked to do it cannot begin. -/
theorem set_refused (self : PgSecretStore) (random : ν × ν) (tenant name value key : String)
    (db : SecretDb) : self.set crypto random tenant name value key db = (.error .setRefused, db) :=
  rfl

theorem get_refused (self : PgSecretStore) (tenant name key : String) (db : SecretDb) :
    self.get crypto tenant name key db = (.error .setRefused, db) := rfl

/-! ### Runs -/

/-- What is stored for a tenant and a name is an encryption of what was last
set. -/
structure Holds (crypto : Pgcrypto ν) (log : List (Entry ν)) (db : SecretDb) : Prop where
  absent : ∀ tenant name, lastSet log tenant name = none → db.row? tenant name = none
  present : ∀ tenant name value key, lastSet log tenant name = some (value, key) →
    ∃ r data, crypto.pgpSymEncrypt r value key = some data ∧
      db.row? tenant name = some ⟨tenant, name, data⟩

/-- What is no successful `set` changes nothing. -/
theorem Holds.concat {log : List (Entry ν)} {db : SecretDb} (h : Holds crypto log db)
    {o : Entry ν} (ho : ∀ tenant name, setOf tenant name o = none) :
    Holds crypto (log ++ [o]) db := by
  refine ⟨fun tenant name hlast => ?_, fun tenant name value key hlast => ?_⟩ <;>
    rw [lastSet_concat, ho, Option.none_or] at hlast
  · exact h.absent tenant name hlast
  · exact h.present tenant name value key hlast

/-- A successful one is the last for its tenant and name, and leaves the others. -/
theorem Holds.upsert {log : List (Entry ν)} {db : SecretDb} (h : Holds crypto log db)
    {random : ν × ν} {r : ν} {tenant name value key : String} {data : List UInt8}
    {reply : SecretReply} (hdata : crypto.pgpSymEncrypt r value key = some data) :
    Holds crypto (log ++ [(.set random tenant name value key, .ok reply)])
      (db.upsert ⟨tenant, name, data⟩) := by
  -- Setting concerns one tenant and one name.
  have hset : ∀ tenant' name', setOf tenant' name'
      ((.set random tenant name value key, .ok reply) : Entry ν) =
      if tenant = tenant' ∧ name = name' then some (value, key) else none := fun _ _ => rfl
  refine ⟨fun tenant' name' hlast => ?_, fun tenant' name' value' key' hlast => ?_⟩ <;>
    rw [lastSet_concat, hset] at hlast <;> rw [SecretDb.row?_upsert] <;>
    by_cases hkey : tenant = tenant' ∧ name = name'
  -- The secret that was set is the last one; for every other nothing has changed.
  · rw [if_pos hkey] at hlast
    cases hlast
  · have hne : (⟨tenant, name, data⟩ : SecretRow).key ≠ (tenant', name') :=
      fun hpair => hkey (Prod.mk.inj hpair)
    rw [if_neg hkey, Option.none_or] at hlast
    rw [if_neg hne]
    exact h.absent tenant' name' hlast
  · rw [if_pos hkey] at hlast
    obtain ⟨rfl, rfl⟩ := hkey
    cases hlast
    exact ⟨r, data, hdata, if_pos rfl⟩
  · have hne : (⟨tenant, name, data⟩ : SecretRow).key ≠ (tenant', name') :=
      fun hpair => hkey (Prod.mk.inj hpair)
    rw [if_neg hkey, Option.none_or] at hlast
    rw [if_neg hne]
    exact h.present tenant' name' value' key' hlast

theorem holds_step {log : List (Entry ν)} {db : SecretDb} (h : Holds crypto log db) (op : Op ν) :
    Holds crypto (log ++ (step crypto db op).2) (step crypto db op).1 := by
  rcases op with ⟨s, call⟩ | ⟨self, random, tenant, name, value, key⟩ | ⟨self, tenant, name, key⟩
  · rcases call with ⟨random, tenant, name, value, key⟩ | ⟨tenant, name, key⟩
    · rcases execute_set_cases crypto random s tenant name value key db with
        ⟨e, he⟩ | ⟨-, r, data, hdata, hok⟩
      · simp only [step, he]
        exact h.concat fun _ _ => rfl
      · simp only [step, hok]
        exact h.upsert hdata
    · rcases he : (SecretCall.get tenant name key : SecretCall ν).execute crypto s db with
        e | ⟨reply, db'⟩
      · simp only [step, he]
        exact h.concat fun _ _ => rfl
      · simp only [step, he]
        rw [execute_get_db he]
        exact h.concat fun _ _ => rfl
  -- the calls of a store fail
  · simp only [step, set_refused]
    exact h.concat fun _ _ => rfl
  · simp only [step, get_refused]
    exact h.concat fun _ _ => rfl

theorem holds_run (ops : List (Op ν)) :
    Holds crypto (Machine.run (step crypto) .empty ops).2
      (Machine.run (step crypto) .empty ops).1 :=
  Machine.run_induction (P := fun _ db log => Holds crypto log db)
    ⟨fun _ _ _ => rfl, fun _ _ _ _ h => by cases h⟩ (fun _ op _ _ h => holds_step h op) ops

/-- **A register for each tenant and name.**  After any calls, by any sessions
and stores:

* the calls of a store fail, and leave the table;
* a session that the policy keeps from the tenant cannot set, and gets NULL;
* one that it lets through gets NULL when no `set_secret` of that tenant and
  name has succeeded, the value of the last one that has under the key of that
  one, and under another key what decrypting an encryption of the value gives. -/
theorem get_run (hcrypto : crypto.RoundTrip) (ops : List (Op ν)) (s : PgSession)
    {tenant name key : String} (htexts : [tenant, name, key].any hasNul = false)
    {log : List (Entry ν)} {db : SecretDb}
    (hrun : Machine.run (step crypto) .empty ops = (db, log)) :
    (∀ (self : PgSecretStore) (random : ν × ν) (value : String),
        self.set crypto random tenant name value key db = (.error .setRefused, db) ∧
          self.get crypto tenant name key db = (.error .setRefused, db)) ∧
      (reaches s tenant = false →
        (∀ (random : ν × ν) (value : String), ∃ e,
          (SecretCall.set random tenant name value key).execute crypto s db = .error e) ∧
        (SecretCall.get tenant name key : SecretCall ν).execute crypto s db =
          .ok (.value none, db)) ∧
      (reaches s tenant = true → lastSet log tenant name = none →
        (SecretCall.get tenant name key : SecretCall ν).execute crypto s db =
          .ok (.value none, db)) ∧
      ∀ value key', reaches s tenant = true → lastSet log tenant name = some (value, key') →
        (key' = key → (SecretCall.get tenant name key : SecretCall ν).execute crypto s db =
          .ok (.value (some value), db)) ∧
        ∃ r data, crypto.pgpSymEncrypt r value key' = some data ∧
          (SecretCall.get tenant name key : SecretCall ν).execute crypto s db =
            (crypto.pgpSymDecrypt data key).elim (.error .decryption) fun v =>
              .ok (.value (some v), db) := by
  have hholds : Holds crypto log db := by
    have h : Holds crypto (Machine.run (step crypto) .empty ops).2
        (Machine.run (step crypto) .empty ops).1 := holds_run ops
    rwa [hrun] at h
  refine ⟨fun self random value => ⟨set_refused .., get_refused ..⟩,
    fun hreaches => ⟨fun random value => ?_, ?_⟩, fun hreaches hlast => ?_,
    fun value key' hreaches hlast => ?_⟩
  · rcases execute_set_cases crypto random s tenant name value key db with he | ⟨hreached, -⟩
    · exact he
    · rw [hreaches] at hreached
      cases hreached
  · rw [execute_get htexts, hreaches]
    rfl
  · rw [execute_get htexts, hreaches, hholds.absent tenant name hlast]
    rfl
  · obtain ⟨r, data, hdata, hrow⟩ := hholds.present tenant name value key' hlast
    have hget : (SecretCall.get tenant name key : SecretCall ν).execute crypto s db =
        (crypto.pgpSymDecrypt data key).elim (.error .decryption) fun v =>
          .ok (.value (some v), db) := by
      rw [execute_get htexts, hreaches, hrow]
      rfl
    refine ⟨?_, r, data, hdata, hget⟩
    rintro rfl
    rw [hget, hcrypto r value key' data hdata]
    rfl

/-- The value behind a random byte and the key, of texts that are not larger
than their bytes. -/
def plainCipher : Pgcrypto UInt8 where
  pgpSymEncrypt r value key :=
    if (key ++ value).toList.all fun ch => ch.toNat < 256 then
      some (r :: (key ++ value).toList.map fun ch => UInt8.ofNat ch.toNat)
    else none
  pgpSymDecrypt data key :=
    let text := data.tail.map fun b => Char.ofNat b.toNat
    if text.take key.toList.length = key.toList then
      some (String.ofList (text.drop key.toList.length))
    else none

theorem plainCipher_roundTrip : plainCipher.RoundTrip := by
  intro r value key data hdata
  simp only [plainCipher, Option.ite_none_right_eq_some, Option.some.injEq] at hdata
  obtain ⟨hsmall, rfl⟩ := hdata
  rw [List.all_eq_true] at hsmall
  have hback : ((key ++ value).toList.map fun ch => UInt8.ofNat ch.toNat).map
      (fun b => Char.ofNat b.toNat) = (key ++ value).toList := by
    rw [List.map_map]
    refine (List.map_congr_left fun ch hch => ?_).trans (List.map_id _)
    show Char.ofNat (UInt8.ofNat ch.toNat).toNat = ch
    rw [UInt8.toNat_ofNat_of_lt' (of_decide_eq_true (hsmall ch hch)), Char.ofNat_toNat]
  simp only [plainCipher, List.tail_cons, hback]
  rw [String.toList_append, List.take_left, if_pos rfl, List.drop_left, String.ofList_toList]

/-- The second of two values of one tenant, among calls of another one and of a
store. -/
theorem get_run_second :
    (SecretCall.get "acme" "token" "k" : SecretCall UInt8).execute plainCipher
        ⟨some "acme", false⟩ (Machine.run (step plainCipher) .empty
          [.sql ⟨some "acme", false⟩ (.set (1, 2) "acme" "token" "a" "k"),
            .sql ⟨some "beta", false⟩ (.set (3, 4) "acme" "token" "c" "k"),
            .sql ⟨some "acme", false⟩ (.set (5, 6) "acme" "token" "b" "k"),
            .set ⟨none, false⟩ (7, 8) "acme" "token" "d" "k"]).1 =
      .ok (.value (some "b"), (Machine.run (step plainCipher) .empty
          [.sql ⟨some "acme", false⟩ (.set (1, 2) "acme" "token" "a" "k"),
            .sql ⟨some "beta", false⟩ (.set (3, 4) "acme" "token" "c" "k"),
            .sql ⟨some "acme", false⟩ (.set (5, 6) "acme" "token" "b" "k"),
            .set ⟨none, false⟩ (7, 8) "acme" "token" "d" "k"]).1) :=
  ((get_run plainCipher_roundTrip _ ⟨some "acme", false⟩ (by decide) rfl).2.2.2 "b" "k"
    (by decide) (by decide +kernel)).1 rfl

end PgSecretStore

end AgenticIde
