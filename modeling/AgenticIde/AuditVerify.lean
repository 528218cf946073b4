/-
AgenticIde/AuditVerify.lean

What `audit_verify_chain` can tell about a log.

The verifier looks at each row alone: it recomputes the hash of the row's own columns
(`verify_eq_nil_iff`).  Two things follow.

* The text is cast to `bytea` before it is hashed, which decodes backslash escapes.  Rust
  hashes the text itself, so the two agree exactly on tenants and previous hashes without a
  backslash (`hashedBytes_agree_iff`); a log with such a tenant is reported, or makes the
  verifier fail, untampered.
* A row says nothing about the row before it.  Deleting a row, exchanging two, or inserting
  one whose hash is that of its own columns leaves every remaining row as it was, so the
  verifier answers as it did for the log: it reports something exactly when the tenant's
  backslashes already made it report the log (`tampering_detected_iff`).

A cast that fails fails the whole query, so a single row with an invalid escape leaves
every other row of the table unverified (`verify_eq_ok_iff`).  The escapes of a text are
valid where those of the tenant are: no other part of it has a backslash
(`ownHash_toRow_ok_iff`), and that is why the condition of the main result speaks of the
tenant alone.

`Tampered` is what an attacker does to rows that are there.  He knows SHA-256, so a row he
inserts has a hash that is right for its columns; what he cannot do is not asked.
-/
import AgenticIde.AuditLog

namespace AgenticIde

variable {sha256 : List UInt8 → List UInt8}

/-! ### The verifier looks at rows one by one -/

/-- The row's stored hash is the hash of its own columns, the previous hash among
them as it is stored; whether there is a row with that hash is not asked. -/
def AuditRow.Consistent (sha256 : List UInt8 → List UInt8) (r : AuditRow) : Prop :=
  ∃ h, r.ownHash sha256 = .ok h ∧ r.rowHash = some h

theorem mapM_eq_ok {α β ε : Type} {f : α → Except ε β} {g : α → β} {xs : List α}
    (h : ∀ x ∈ xs, f x = .ok (g x)) : xs.mapM f = .ok (xs.map g) := by
  induction xs with
  | nil => rfl
  | cons x xs ih =>
      rw [List.mapM_cons, h x (by simp), ih fun y hy => h y (by simp [hy])]
      rfl

theorem exists_ok_of_mapM {α β ε : Type} {f : α → Except ε β} {xs : List α} {ys : List β}
    (h : xs.mapM f = .ok ys) : ∀ x ∈ xs, ∃ y, f x = .ok y := by
  induction xs generalizing ys with
  | nil => simp
  | cons x xs ih =>
      rw [List.mapM_cons] at h
      rcases hx : f x with err | y
      · rw [hx] at h
        cases h
      · rcases hxs : xs.mapM f with err | ys'
        · rw [hx, hxs] at h
          cases h
        · intro x' hx'
          rcases List.mem_cons.mp hx' with rfl | hx'
          · exact ⟨y, hx⟩
          · exact ih hxs x' hx'

/-- The row's own hash, when it can be computed. -/
def AuditRow.ownHashD (sha256 : List UInt8 → List UInt8) (r : AuditRow) : String :=
  match r.ownHash sha256 with
  | .ok h => h
  | .error _ => ""

/-- A failing cast fails the query; otherwise it lists the rows that differ
and the rows without a hash. -/
theorem verify_eq_ok_iff {rows : List AuditRow} {bad : List (Nat × String)} :
    auditVerifyChain sha256 rows = .ok bad ↔
      (∀ r ∈ rows, r.ownHash sha256 = .ok (r.ownHashD sha256)) ∧
        bad = (rows.filter fun r => r.rowHash != some (r.ownHashD sha256)).map
            (fun r => (r.id, "row_hash mismatch")) ++
          (rows.filter (·.rowHash.isNone)).map fun r => (r.id, "missing row_hash") := by
  -- The query has an answer for all rows or for none, so the rows are first taken together.
  have hown : ∀ r : AuditRow, (∃ p, (r.ownHash sha256).map (r, ·) = .ok p) →
      (r.ownHash sha256).map (r, ·) = .ok (r, r.ownHashD sha256) ∧
        r.ownHash sha256 = .ok (r.ownHashD sha256) := by
    rintro r ⟨p, hp⟩
    rcases e : r.ownHash sha256 with err | h
    · rw [e] at hp
      cases hp
    · simp [Except.map, AuditRow.ownHashD, e]
  have hquery : (∀ r ∈ rows, ∃ p, (r.ownHash sha256).map (r, ·) = .ok p) →
      auditVerifyChain sha256 rows =
        .ok ((rows.filter fun r => r.rowHash != some (r.ownHashD sha256)).map
            (fun r => (r.id, "row_hash mismatch")) ++
          (rows.filter (·.rowHash.isNone)).map fun r => (r.id, "missing row_hash")) := by
    intro h
    rw [auditVerifyChain, mapM_eq_ok fun r hr => (hown r (h r hr)).1]
    simp [bind, Except.bind, pure, Except.pure, List.filter_map, Function.comp_def]
  constructor
  · intro h
    -- It came through, so each row has a hash of its own, and the answer is the one
    -- computed.
    rcases e : rows.mapM (fun r => (r.ownHash sha256).map (r, ·)) with err | own
    · rw [auditVerifyChain, e] at h
      cases h
    · have hall := exists_ok_of_mapM e
      rw [hquery hall] at h
      exact ⟨fun r hr => (hown r (hall r hr)).2, (Except.ok.inj h).symm⟩
  · rintro ⟨hall, rfl⟩
    exact hquery fun r hr => ⟨_, by rw [hall r hr]; rfl⟩

/-- **The verifier reports nothing exactly when every row is consistent with its own
columns.**  It hashes the stored columns of a row, its own copy of the previous hash
among them, and looks at no other row. -/
theorem verify_eq_nil_iff {rows : List AuditRow} :
    auditVerifyChain sha256 rows = .ok [] ↔ ∀ r ∈ rows, r.Consistent sha256 := by
  rw [verify_eq_ok_iff]
  constructor
  · rintro ⟨hall, hbad⟩ r hr
    rw [eq_comm, List.append_eq_nil_iff, List.map_eq_nil_iff, List.filter_eq_nil_iff] at hbad
    exact ⟨_, hall r hr, by simpa using hbad.1 r hr⟩
  · intro h
    have hall : ∀ r ∈ rows, r.ownHash sha256 = .ok (r.ownHashD sha256) ∧
        r.rowHash = some (r.ownHashD sha256) := by
      intro r hr
      obtain ⟨x, hx, hrow⟩ := h r hr
      simp [AuditRow.ownHashD, hx, hrow]
    refine ⟨fun r hr => (hall r hr).1, ?_⟩
    rw [List.filter_eq_nil_iff.mpr fun r hr => by simp [(hall r hr).2],
      List.filter_eq_nil_iff.mpr fun r hr => by simp [(hall r hr).2]]
    rfl

/-! ### Rust and SQL hash the same octets -/

/-- **The octets agree exactly when tenant and previous hash have no backslash.**
The program hashes the octets of the text; the database reads the text as an octet
string in its escape format, where a backslash begins an escape or is an error. -/
theorem hashedBytes_agree_iff {e : AuditEvent} {prev : String} :
    auditHashedBytes (some e.action.asStr) (some e.action.permBit) (some e.tenantId) (some prev) =
        .ok (utf8 (e.hashPayload prev)) ↔
      '\\' ∉ e.tenantId.toList ∧ '\\' ∉ prev.toList := by
  have hbytes : auditHashedBytes (some e.action.asStr) (some e.action.permBit) (some e.tenantId)
      (some prev) = .ok (utf8 (e.hashPayload prev)) ↔
        byteaIn (utf8 (e.hashPayload prev)) = some (utf8 (e.hashPayload prev)) := by
    rw [auditHashedBytes, show auditChainPayload (some e.action.asStr) (some e.action.permBit)
      (some e.tenantId) (some prev) = e.hashPayload prev from rfl]
    rcases byteaIn (utf8 (e.hashPayload prev)) with - | bytes <;> simp
  rw [hbytes, byteaIn_eq_self_iff, backslash_mem_utf8_iff,
    AuditEvent.backslash_mem_hashPayload_iff, not_or]

theorem consistent_toRow {e : AuditEvent} {prev : String} (id : Nat) (ts : Int)
    (ht : '\\' ∉ e.tenantId.toList) (hp : '\\' ∉ prev.toList) :
    (e.toRow sha256 prev id ts).Consistent sha256 := by
  refine ⟨e.rowHash sha256 prev, ?_, rfl⟩
  rw [AuditRow.ownHash, auditRowHash]
  exact congrArg (Except.map _) (hashedBytes_agree_iff.mpr ⟨ht, hp⟩)

/-- **Agreement over whole logs.**  Rust and SQL hash the same octets for an
event and a previous hash exactly when neither has a backslash.  So in a
table that `record` calls have filled, every row's octets agree and the
verifier reports nothing, without failing, exactly when no accepted event's
tenant has a backslash. -/
theorem rust_sql_agreement_iff (sha256 : List UInt8 → List UInt8) (sink : PgAuditSink)
    (partitions : List (Int × Int)) (users : List Int) (es : List (Int × AuditEvent))
    (event : AuditEvent)
    (prevHash : String) :
    (auditHashedBytes (some event.action.asStr) (some event.action.permBit) (some event.tenantId)
        (some prevHash) = .ok (utf8 (event.hashPayload prevHash)) ↔
      '\\' ∉ event.tenantId.toList ∧ '\\' ∉ prevHash.toList) ∧
    ((∀ (e : AuditEvent) (prev : String) (id : Nat) (ts : Int),
        e.toRow sha256 prev id ts ∈ (sink.recordAll sha256 es (.empty partitions users)).rows →
          auditHashedBytes (some e.action.asStr) (some e.action.permBit) (some e.tenantId)
            (some prev) = .ok (utf8 (e.hashPayload prev))) ∧
      auditVerifyChain sha256 (sink.recordAll sha256 es (.empty partitions users)).rows = .ok [] ↔
    ∀ p ∈ es, sink.accepts (.empty partitions users) p.1 p.2 = true →
      '\\' ∉ p.2.tenantId.toList) := by
  refine ⟨hashedBytes_agree_iff, ?_⟩
  have hread : sink.ReadsRecorded sha256 (.empty partitions users) := fun _ r hr => by cases hr
  obtain ⟨-, new, hrows, hnew⟩ := PgAuditSink.recordAll_rows hread es
  rw [show (AuditDb.empty partitions users).rows = [] from rfl, List.nil_append] at hrows
  rw [hrows]
  constructor
  · -- an accepted event has a row, and its octets agree
    rintro ⟨hagree, -⟩ p hp hacc
    obtain ⟨r, hr, prev, id, -, -, rfl⟩ :=
      exists_left_of_forall₂ hnew.flip (List.mem_filter.mpr ⟨hp, hacc⟩)
    exact (hashedBytes_agree_iff.mp (hagree p.2 prev id p.1 hr)).1
  · intro h
    -- the previous hashes of a log are hexadecimal, so only the tenant counts
    have hclean : ∀ r ∈ new, ∃ p ∈ es, ∃ (prev : String) (id : Nat),
        '\\' ∉ p.2.tenantId.toList ∧ '\\' ∉ prev.toList ∧ r = p.2.toRow sha256 prev id p.1 := by
      intro r hr
      obtain ⟨p, hp, prev, id, hhex, -, hrow⟩ := exists_left_of_forall₂ hnew hr
      obtain ⟨hp, hacc⟩ := List.mem_filter.mp hp
      exact ⟨p, hp, prev, id, h p hp hacc, hhex.not_mem (by decide), hrow⟩
    refine ⟨fun e prev id ts hr => ?_, verify_eq_nil_iff.mpr fun r hr => ?_⟩
    · obtain ⟨p, -, prev', id', ht, hp, hrow⟩ := hclean _ hr
      have htenant : e.tenantId = p.2.tenantId := congrArg AuditRow.tenantId hrow
      have hprev : prev = prev' := Option.some.inj (congrArg AuditRow.prevHash hrow)
      rw [hashedBytes_agree_iff, htenant, hprev]
      exact ⟨ht, hp⟩
    · obtain ⟨p, -, prev, id, ht, hp, rfl⟩ := hclean r hr
      exact consistent_toRow id p.1 ht hp

/-- A read by a user of the tenant `corp\ana`. -/
def corpEvent : AuditEvent := .new 0 (.all "corp\\ana" "ana") .read true .null

/-- The tenant `corp\ana` begins an escape that does not exist: SQL has no
octets to hash, and verifying the row fails. -/
theorem corp_hash_disagrees :
    auditHashedBytes (some corpEvent.action.asStr) (some corpEvent.action.permBit)
        (some corpEvent.tenantId) (some "") ≠ .ok (utf8 (corpEvent.hashPayload "")) ∧
      ∀ sha256, auditVerifyChain sha256 [corpEvent.toRow sha256 "" 1 0] = .error .invalidBytea := by
  -- The escape stands in the text that both rows share, so one failing cast does for both
  -- halves.
  have hbytes : auditHashedBytes (some corpEvent.action.asStr) (some corpEvent.action.permBit)
      (some corpEvent.tenantId) (some "") = .error .invalidBytea := by
    rw [auditHashedBytes, show byteaIn (utf8 (auditChainPayload (some corpEvent.action.asStr)
      (some corpEvent.action.permBit) (some corpEvent.tenantId) (some ""))) = none by
        decide +kernel]
  constructor
  · rw [hbytes]
    simp
  · intro sha256
    have hown : (corpEvent.toRow sha256 "" 1 0).ownHash sha256 = .error .invalidBytea := by
      rw [AuditRow.ownHash, auditRowHash]
      exact congrArg (Except.map _) hbytes
    rw [auditVerifyChain, List.mapM_cons, hown]
    rfl

/-! ### Tampering -/

/-- What an attacker can do to a log: delete a row that is not the last,
exchange the positions of two rows with different contents, or insert
between two rows one that stores the hash of its own columns. -/
inductive Tampered (sha256 : List UInt8 → List UInt8) : List AuditRow → List AuditRow → Prop
  | delete (xs : List AuditRow) (r : AuditRow) (ys : List AuditRow) (hlast : ys ≠ []) :
      Tampered sha256 (xs ++ r :: ys) (xs ++ ys)
  | exchange (xs : List AuditRow) (r : AuditRow) (ys : List AuditRow) (r' : AuditRow)
      (zs : List AuditRow) (hne : { r with id := 0 } ≠ { r' with id := 0 }) :
      Tampered sha256 (xs ++ r :: (ys ++ r' :: zs))
        (xs ++ { r' with id := r.id } :: (ys ++ { r with id := r'.id } :: zs))
  | insert (xs ys : List AuditRow) (forged : AuditRow) (hxs : xs ≠ []) (hys : ys ≠ [])
      (hforged : forged.Consistent sha256) :
      Tampered sha256 (xs ++ ys) (xs ++ forged :: ys)

/-- `audit_verify_chain()` returns at least one row.  A query that fails returns
none, and so detects nothing. -/
def Detected (sha256 : List UInt8 → List UInt8) (table : List AuditRow) : Prop :=
  ∃ bad, auditVerifyChain sha256 table = .ok bad ∧ bad ≠ []

variable {log table : List AuditRow}

/-- Every row of a tampered table is a row of the log, up to its id, or
stores the hash of its own columns. -/
theorem Tampered.rows_or_consistent (h : Tampered sha256 log table) :
    ∀ r ∈ table, (∃ r' ∈ log, ∃ id, r = { r' with id := id }) ∨ r.Consistent sha256 := by
  have hself : ∀ {rows : List AuditRow} {r : AuditRow}, r ∈ rows →
      ∃ r' ∈ rows, ∃ id, r = { r' with id := id } := fun hr => ⟨_, hr, _, rfl⟩
  cases h with
  | delete xs r ys hlast =>
      intro r' hr'
      refine .inl (hself ?_)
      rcases List.mem_append.mp hr' with hr' | hr' <;> simp [hr']
  | exchange xs r ys r' zs hne =>
      intro x hx
      -- the two rows trade their ids, all others stay
      left
      simp only [List.mem_append, List.mem_cons] at hx
      rcases hx with hx | rfl | hx | rfl | hx
      · exact hself (by simp [hx])
      · exact ⟨r', by simp, r.id, rfl⟩
      · exact hself (by simp [hx])
      · exact ⟨r, by simp, r'.id, rfl⟩
      · exact hself (by simp [hx])
  | insert xs ys forged hxs hys hforged =>
      intro x hx
      simp only [List.mem_append, List.mem_cons] at hx
      rcases hx with hx | rfl | hx
      · exact .inl (hself (by simp [hx]))
      · exact .inr hforged
      · exact .inl (hself (by simp [hx]))

/-- A tampered table still has some row of the log, up to its id. -/
theorem Tampered.exists_row (h : Tampered sha256 log table) :
    ∃ r ∈ table, ∃ r' ∈ log, ∃ id, r = { r' with id := id } := by
  cases h with
  | delete xs r ys hlast =>
      obtain ⟨y, hy⟩ := List.exists_mem_of_ne_nil ys hlast
      exact ⟨y, by simp [hy], y, by simp [hy], y.id, rfl⟩
  | exchange xs r ys r' zs hne => exact ⟨_, by simp, r', by simp, r.id, rfl⟩
  | insert xs ys forged hxs hys hforged =>
      obtain ⟨x, hx⟩ := List.exists_mem_of_ne_nil xs hxs
      exact ⟨x, by simp [hx], x, by simp [hx], x.id, rfl⟩

theorem ownHash_eq_ok_iff {r : AuditRow} {h : String} :
    r.ownHash sha256 = .ok h ↔
      ∃ bytes, byteaIn r.hashedText = some bytes ∧ hex (sha256 bytes) = h := by
  rw [AuditRow.ownHash, auditRowHash, auditHashedBytes, ← AuditRow.hashedText]
  rcases byteaIn r.hashedText with - | bytes <;> simp [Except.map]

/-- With a previous hash that is empty or a digest, the row's own hash can be
computed exactly when the tenant's escapes are valid. -/
theorem ownHash_toRow_ok_iff {e : AuditEvent} {prev : String} {id : Nat} {ts : Int}
    (hprev : IsHexText prev) :
    (∃ h, (e.toRow sha256 prev id ts).ownHash sha256 = .ok h) ↔
      EscapesValid (utf8 e.tenantId) := by
  have htext : utf8 (auditChainPayload (some e.action.asStr) (some e.action.permBit)
      (some e.tenantId) (some prev)) =
        utf8 (e.action.asStr ++ "|" ++ toString e.action.permBit ++ "|") ++
          (utf8 e.tenantId ++ 124 :: utf8 prev) := by
    rw [show auditChainPayload (some e.action.asStr) (some e.action.permBit) (some e.tenantId)
      (some prev) = e.hashPayload prev from rfl, AuditEvent.hashPayload]
    simp only [utf8_append, List.append_assoc]
    rfl
  -- Only the tenant can have a backslash: the head of the text is letters and digits, and
  -- the hash before the row is empty or hexadecimal.
  have hclean : backslash ∉ utf8 (e.action.asStr ++ "|" ++ toString e.action.permBit ++ "|") := by
    rw [backslash_mem_utf8_iff]
    cases e.action <;> decide
  have hhead : ∃ b rest, b ≠ backslash ∧
      utf8 (e.action.asStr ++ "|" ++ toString e.action.permBit ++ "|") = b :: rest := by
    cases e.action <;> exact ⟨_, _, by decide, rfl⟩
  have hprev' : backslash ∉ utf8 prev := by
    rw [backslash_mem_utf8_iff]
    exact hprev.not_mem (by decide)
  have hin : byteaIn (utf8 (auditChainPayload (some e.action.asStr) (some e.action.permBit)
      (some e.tenantId) (some prev))) = (byteaEscape (utf8 e.tenantId ++ 124 :: utf8 prev)).map
        (utf8 (e.action.asStr ++ "|" ++ toString e.action.permBit ++ "|") ++ ·) := by
    -- The cast reads a leading `\x` as hexadecimal digits; the text begins with a letter.
    obtain ⟨b, rest, hb, hcons⟩ := hhead
    rw [htext, ← byteaEscape_append (byteaEscape_of_not_mem hclean), hcons, List.cons_append,
      byteaIn_cons hb]
  have hown : (e.toRow sha256 prev id ts).ownHash sha256 =
      (auditHashedBytes (some e.action.asStr) (some e.action.permBit) (some e.tenantId)
        (some prev)).map fun bytes => hex (sha256 bytes) := rfl
  rw [← escapesValid_iff_append (b := 124) (by decide) (by decide) hprev', EscapesValid, hown,
    auditHashedBytes, hin]
  rcases byteaEscape (utf8 e.tenantId ++ 124 :: utf8 prev) with - | out <;> simp [Except.map]

/-- The row is one that `record` writes for the tenant, whatever its id.  Whatever
event it was, and at whatever time; the previous hash need not be that of any row.
-/
def AuditRow.RecordedFor (sha256 : List UInt8 → List UInt8) (t : String) (r : AuditRow) : Prop :=
  ∃ (e : AuditEvent) (prev : String) (id : Nat) (ts : Int), e.tenantId = t ∧ IsHexText prev ∧
    r = e.toRow sha256 prev id ts

namespace AuditRow.RecordedFor

variable {t : String} {r : AuditRow}

theorem with_id (h : r.RecordedFor sha256 t) (id : Nat) :
    ({ r with id := id } : AuditRow).RecordedFor sha256 t := by
  obtain ⟨e, prev, -, ts, ht, hhex, rfl⟩ := h
  exact ⟨e, prev, id, ts, ht, hhex, rfl⟩

/-- Without a backslash, Rust and SQL agree on the row. -/
theorem consistent (h : r.RecordedFor sha256 t) (hclean : '\\' ∉ t.toList) :
    r.Consistent sha256 := by
  obtain ⟨e, prev, id, ts, rfl, hhex, rfl⟩ := h
  exact consistent_toRow id ts hclean (hhex.not_mem (by decide))

theorem ownHash_ok_iff (h : r.RecordedFor sha256 t) :
    (∃ own, r.ownHash sha256 = .ok own) ↔ EscapesValid (utf8 t) := by
  obtain ⟨e, prev, id, ts, rfl, hhex, rfl⟩ := h
  exact ownHash_toRow_ok_iff hhex

/-- With one they disagree, as the row is consistent only if its text decodes
to itself. -/
theorem not_consistent (h : r.RecordedFor sha256 t) (hslash : '\\' ∈ t.toList)
    (hinj : ∀ bytes, byteaIn r.hashedText = some bytes → sha256 r.hashedText = sha256 bytes →
      r.hashedText = bytes) : ¬ r.Consistent sha256 := by
  rintro ⟨own, hown, hstored⟩
  obtain ⟨bytes, hbytes, rfl⟩ := ownHash_eq_ok_iff.mp hown
  obtain ⟨e, prev, id, ts, rfl, hhex, hrow⟩ := h
  have hrec : r.Recorded sha256 := ⟨e, prev, id, ts, hhex, hrow⟩
  have hsha : sha256 r.hashedText = sha256 bytes :=
    hex_injective (Option.some.inj (hrec.rowHash_eq.symm.trans hstored))
  rw [← hinj bytes hbytes hsha, byteaIn_eq_self_iff, hrow] at hbytes
  apply hbytes
  show backslash ∈ utf8 (e.hashPayload prev)
  rw [backslash_mem_utf8_iff, AuditEvent.backslash_mem_hashPayload_iff]
  exact .inl hslash

end AuditRow.RecordedFor

/-- **What tampering the verifier detects.**  Whatever was deleted, exchanged
or inserted in a tenant's log, the verifier returns a row exactly when the
tenant has a backslash and all its escapes are valid, and then it returns
rows for the untampered log as well. -/
theorem tampering_detected_iff {sink : PgAuditSink} {partitions : List (Int × Int)}
    {users : List Int} {t : String}
    (es : List (Int × AuditEvent)) {table : List AuditRow}
    (hes : ∀ p ∈ es, p.2.tenantId = t)
    (htampered : Tampered sha256 (sink.recordAll sha256 es (.empty partitions users)).rows table)
    (hinj : Set.InjOn sha256
      {bs | ∃ r ∈ table, bs = r.hashedText ∨ byteaIn r.hashedText = some bs}) :
    Detected sha256 table ↔ '\\' ∈ t.toList ∧ EscapesValid (utf8 t) := by
  have hread : sink.ReadsRecorded sha256 (.empty partitions users) := fun _ r hr => by cases hr
  obtain ⟨-, new, hrows, hnew⟩ := PgAuditSink.recordAll_rows hread es
  rw [show (AuditDb.empty partitions users).rows = [] from rfl, List.nil_append] at hrows
  rw [hrows] at htampered
  have hlog : ∀ r ∈ new, r.RecordedFor sha256 t := by
    intro r hr
    obtain ⟨p, hp, prev, id, hhex, -, rfl⟩ := exists_left_of_forall₂ hnew hr
    exact ⟨p.2, prev, id, p.1, hes p (List.mem_of_mem_filter hp), hhex, rfl⟩
  have htable : ∀ r ∈ table, r.RecordedFor sha256 t ∨ r.Consistent sha256 := by
    intro r hr
    rcases htampered.rows_or_consistent r hr with ⟨r', hr', id, rfl⟩ | h
    · exact .inl ((hlog r' hr').with_id id)
    · exact .inr h
  obtain ⟨r₀, hr₀, r₀', hr₀', id₀, rfl⟩ := htampered.exists_row
  have hrec₀ := (hlog r₀' hr₀').with_id id₀
  constructor
  · rintro ⟨bad, hbad, hne⟩
    have hown := (verify_eq_ok_iff.mp hbad).1 _ hr₀
    refine ⟨by_contra fun hclean => hne ?_, hrec₀.ownHash_ok_iff.mp ⟨_, hown⟩⟩
    -- without a backslash every row of the table is consistent
    have hall : ∀ r ∈ table, r.Consistent sha256 :=
      fun r hr => (htable r hr).elim (·.consistent hclean) id
    exact (Except.ok.inj ((verify_eq_nil_iff.mpr hall).symm.trans hbad)).symm
  · rintro ⟨hslash, hvalid⟩
    have hown : ∀ r ∈ table, r.ownHash sha256 = .ok (r.ownHashD sha256) := by
      intro r hr
      have hok : ∃ own, r.ownHash sha256 = .ok own := by
        rcases htable r hr with hrec | ⟨own, hown, -⟩
        · exact hrec.ownHash_ok_iff.mpr hvalid
        · exact ⟨own, hown⟩
      obtain ⟨own, hown⟩ := hok
      rw [AuditRow.ownHashD, hown]
    refine ⟨_, verify_eq_ok_iff.mpr ⟨hown, rfl⟩, fun hnil => ?_⟩
    -- one row of the log is left, and it is not consistent
    have hverify : auditVerifyChain sha256 table = .ok [] := verify_eq_ok_iff.mpr ⟨hown, hnil.symm⟩
    refine hrec₀.not_consistent hslash (fun bytes hbytes hsha => ?_)
      (verify_eq_nil_iff.mp hverify _ hr₀)
    exact hinj ⟨_, hr₀, .inl rfl⟩ ⟨_, hr₀, .inr hbytes⟩ hsha

/-- SHA-256 on the texts of a log of the tenant `a\\b` (two backslashes), and
on the octets SQL decodes the second one to. -/
def sha256OfSlashes : List UInt8 → List UInt8 := digestTable
  [("read|1|a\\\\b|",
    [232, 223, 158, 44, 231, 246, 161, 135, 227, 227, 172, 250, 16, 66, 248, 143, 75, 48, 248,
     10, 229, 168, 78, 213, 70, 17, 225, 19, 41, 203, 10, 128]),
   ("modify|4|a\\\\b|e8df9e2ce7f6a187e3e3acfa1042f88f4b30f80ae5a84ed54611e11329cb0a80",
    [161, 92, 84, 154, 119, 10, 224, 33, 212, 187, 47, 215, 222, 35, 213, 235, 136, 103, 202, 38,
     220, 247, 159, 157, 226, 66, 87, 239, 226, 35, 38, 192]),
   ("modify|4|a\\b|e8df9e2ce7f6a187e3e3acfa1042f88f4b30f80ae5a84ed54611e11329cb0a80",
    [133, 128, 203, 118, 152, 246, 156, 115, 21, 221, 111, 42, 185, 21, 127, 126, 114, 90, 114,
     162, 9, 103, 81, 136, 0, 36, 161, 82, 16, 244, 155, 82])]

/-- A read and a modification of that tenant. -/
def slashesEvents : List (Int × AuditEvent) :=
  [(1, .new 0 (.all "a\\\\b" "ana") .read true .null),
   (2, .new 0 (.all "a\\\\b" "ana") .modify true .null)]

/-- The log of that tenant. -/
def slashesLog : List AuditRow :=
  (PgAuditSink.recordAll sha256OfSlashes (.connect true (.ok ()) "a\\\\b") slashesEvents
    (.empty [(0, 10)] [])).rows

theorem tampering_detected_iff_slashes :
    Detected sha256OfSlashes slashesLog.tail ↔
      '\\' ∈ "a\\\\b".toList ∧ EscapesValid (utf8 "a\\\\b") := by
  -- one evaluation of the log: what its rows hash, here and in the database
  have hlog : slashesLog.map (fun r => (r.hashedText, byteaIn r.hashedText)) =
      [(utf8 "read|1|a\\\\b|", some (utf8 "read|1|a\\b|")),
       (utf8 "modify|4|a\\\\b|e8df9e2ce7f6a187e3e3acfa1042f88f4b30f80ae5a84ed54611e11329cb0a80",
        some (utf8 "modify|4|a\\b|e8df9e2ce7f6a187e3e3acfa1042f88f4b30f80ae5a84ed54611e11329cb0a80"))] := by
    decide +kernel
  have hlength : slashesLog.length = 2 := by
    rw [← List.length_map, hlog]
    rfl
  have htampered : Tampered sha256OfSlashes slashesLog slashesLog.tail := by
    obtain ⟨r, r', e⟩ := List.length_eq_two.mp hlength
    rw [e]
    exact .delete [] r [r'] (by simp)
  have htexts : slashesLog.tail.map (fun r => (r.hashedText, byteaIn r.hashedText)) =
      [(utf8 "modify|4|a\\\\b|e8df9e2ce7f6a187e3e3acfa1042f88f4b30f80ae5a84ed54611e11329cb0a80",
        some (utf8 "modify|4|a\\b|e8df9e2ce7f6a187e3e3acfa1042f88f4b30f80ae5a84ed54611e11329cb0a80"))] := by
    rw [List.map_tail, hlog]
    rfl
  have hne : sha256OfSlashes
      (utf8 "modify|4|a\\\\b|e8df9e2ce7f6a187e3e3acfa1042f88f4b30f80ae5a84ed54611e11329cb0a80") ≠
        sha256OfSlashes
          (utf8 "modify|4|a\\b|e8df9e2ce7f6a187e3e3acfa1042f88f4b30f80ae5a84ed54611e11329cb0a80") := by
    decide +kernel
  refine tampering_detected_iff slashesEvents (fun p hp => ?_) htampered
    (injOn_of_pair _ _ hne ?_)
  · rcases List.mem_pair.mp hp with rfl | rfl <;> rfl
  · rintro x ⟨r, hr, hx⟩
    have hmem := List.mem_map_of_mem (f := fun r => (r.hashedText, byteaIn r.hashedText)) hr
    rw [htexts, List.mem_singleton, Prod.mk.injEq] at hmem
    rcases hx with rfl | hx
    · exact List.mem_pair.mpr (.inl hmem.1)
    · exact List.mem_pair.mpr (.inr (Option.some.inj (hx.symm.trans hmem.2)))

/-- Deleting the first of two rows of the tenant `acme` goes unnoticed. -/
theorem deletion_undetected :
    Tampered sha256OfAcme acmeLog acmeLog.tail ∧ ¬ Detected sha256OfAcme acmeLog.tail := by
  have hread : (PgAuditSink.connect true (.ok ()) "acme").ReadsRecorded sha256OfAcme
    (.empty [(0, 10)] []) := fun _ r hr => by cases hr
  obtain ⟨-, new, hrows, hnew⟩ := PgAuditSink.recordAll_rows hread
    [(1, .new 0 (.all "acme" "ana") .read true .null),
     (2, .new 0 (.all "acme" "ana") .modify true .null)]
  have hlog : acmeLog = new := hrows
  have hlength : acmeLog.length = 2 := by
    rw [hlog, ← hnew.length_eq]
    decide
  obtain ⟨r, r', e⟩ := List.length_eq_two.mp hlength
  -- What is left is a row of the log, and it is consistent with its own columns: nothing in
  -- it tells of the row that is gone.
  have hverify : auditVerifyChain sha256OfAcme acmeLog.tail = .ok [] := by
    rw [verify_eq_nil_iff]
    intro x hx
    have hx' : x ∈ new := by
      rw [← hlog]
      exact List.mem_of_mem_tail hx
    obtain ⟨p, hp, prev, id, hhex, -, rfl⟩ := exists_left_of_forall₂ hnew hx'
    refine consistent_toRow id p.1 ?_ (hhex.not_mem (by decide))
    rcases List.mem_pair.mp (List.mem_of_mem_filter hp) with rfl | rfl <;> decide
  refine ⟨by rw [e]; exact .delete [] r [r'] (by simp), ?_⟩
  rintro ⟨bad, hbad, hne⟩
  exact hne (Except.ok.inj (hverify.symm.trans hbad)).symm

end AgenticIde
