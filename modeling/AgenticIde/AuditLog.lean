/-
AgenticIde/AuditLog.lean

Logs the sink writes one record after the other.

The abstract log is a list of events with its last hash (`chainHead`), which binds the
action and the tenant of every event (`chainHead_inj`): it is an instance of the chains of
`Lib.HashChain`, whose links are the texts that `record` hashes.  A text is read back
without mistake although the parts are only separated by `|`, because what stands before
the tenant and what stands behind it has none.

The log in the table is the rows `recordAll` leaves: one row for each event the database
accepts, in order (`recordAll_rows`).  `recordAll_linear` connects the two: through a sink
that reads the table, the tenant's rows form one chain, and their last hash is that of the
accepted events.  A sink that reads no row, as one of a role that the policies of the table
shut out, begins a new chain with every record; `ReadsRecorded` says which of the two a
sink is, and that the rows it reads were written by `record`.

Collisions are excluded only among the texts the log at hand hashes.  As SHA-256 has
collisions, a statement over all texts would assume what is false.
-/
import AgenticIde.PgAudit
import Mathlib.Data.List.Forall2

namespace AgenticIde

variable {sha256 : List UInt8 → List UInt8}

/-! ### Events recorded one after the other -/

/-- The texts hashed while `es` are recorded from the empty log. -/
def hashedTexts (sha256 : List UInt8 → List UInt8) (es : List AuditEvent) : List (List UInt8) :=
  (HashChain.links (fun prev e => e.rowHash sha256 prev) "" es).map fun p =>
    utf8 (p.2.hashPayload p.1)

/-- The `row_hash` of the last row when `es` are recorded from the empty
log, each row naming the hash of the row before it. -/
def chainHead (sha256 : List UInt8 → List UInt8) (es : List AuditEvent) : String :=
  HashChain.head (fun prev e => e.rowHash sha256 prev) "" es

/-- Every previous hash of a log is empty or a digest. -/
theorem isHexText_of_mem_links {es : List AuditEvent} {p : String × AuditEvent}
    (h : p ∈ HashChain.links (fun prev e => e.rowHash sha256 prev) "" es) : IsHexText p.1 := by
  rcases HashChain.fst_of_mem_links h with h | ⟨q, h⟩
  · rw [h]
    exact isHexText_empty
  · rw [h]
    exact isHexText_hex _

/-- The links of logs that show no collision determine action and tenant. -/
theorem collisionless_links {texts : Set (List UInt8)} (hinj : Set.InjOn sha256 texts)
    (h32 : ∀ bs, (sha256 bs).length = 32) :
    HashChain.Collisionless (fun prev e => e.rowHash sha256 prev) ""
      (fun e : AuditEvent => (e.action, e.tenantId))
      {p | IsHexText p.1 ∧ utf8 (p.2.hashPayload p.1) ∈ texts} where
  inj := by
    rintro ⟨prev, e⟩ ⟨hhex, hmem⟩ ⟨prev', e'⟩ ⟨hhex', hmem'⟩ h
    -- equal digests, equal texts; hexadecimal hashes hold no separator
    have htext := utf8_injective (hinj hmem hmem' (hex_injective h))
    obtain ⟨ha, ht, hp⟩ := AuditEvent.hashPayload_inj (hhex.not_mem (by decide))
      (hhex'.not_mem (by decide)) htext
    exact ⟨hp, Prod.ext ha ht⟩
  fresh := by
    rintro ⟨prev, e⟩ -
    exact AuditEvent.rowHash_ne_empty h32 e prev

/-- **The last hash binds the log.**  Two logs recorded from the empty log
with equal last hashes have the same length, and the same action and tenant
at every position, whatever the tenants contain. -/
theorem chainHead_inj {es es' : List AuditEvent} (h32 : ∀ bs, (sha256 bs).length = 32)
    (hinj : Set.InjOn sha256 {bs | bs ∈ hashedTexts sha256 es ∨ bs ∈ hashedTexts sha256 es'})
    (h : chainHead sha256 es = chainHead sha256 es') :
    es.length = es'.length ∧
      es.map (fun e => (e.action, e.tenantId)) = es'.map (fun e => (e.action, e.tenantId)) := by
  have hmap : es.map (fun e => (e.action, e.tenantId)) =
      es'.map (fun e => (e.action, e.tenantId)) := by
    refine HashChain.head_inj (collisionless_links hinj h32) (fun p hp => ?_) (fun p hp => ?_) h
    · exact ⟨isHexText_of_mem_links hp, .inl (List.mem_map_of_mem hp)⟩
    · exact ⟨isHexText_of_mem_links hp, .inr (List.mem_map_of_mem hp)⟩
  exact ⟨by simpa using congrArg List.length hmap, hmap⟩

/-- SHA-256 on the texts of a log of the tenant `a|b`. -/
def sha256OfPipes : List UInt8 → List UInt8 := digestTable
  [("read|1|a|b|",
    [203, 80, 79, 230, 236, 75, 203, 230, 33, 172, 199, 118, 64, 130, 137, 133, 228, 33, 72, 208,
     21, 231, 38, 18, 60, 37, 183, 55, 219, 192, 69, 149]),
   ("commit|16|a|b|cb504fe6ec4bcbe621acc77640828985e42148d015e726123c25b737dbc04595",
    [208, 107, 8, 200, 82, 9, 81, 104, 162, 122, 162, 117, 39, 201, 64, 242, 197, 203, 35, 167,
     121, 122, 215, 54, 243, 182, 153, 210, 202, 237, 221, 252])]

theorem length_sha256OfPipes (bs : List UInt8) : (sha256OfPipes bs).length = 32 :=
  length_digestTable (by decide) bs

/-- A log of the tenant `a|b`: a read at `tsMs`, then a commit. -/
def pipesLog (tsMs : Int) : List AuditEvent :=
  [.new tsMs (.all "a|b" "ana") .read true .null, .new tsMs (.all "a|b" "ana") .commit true .null]

theorem chainHead_inj_pipes :
    (pipesLog 0).length = (pipesLog 1).length ∧
      (pipesLog 0).map (fun e => (e.action, e.tenantId)) =
        (pipesLog 1).map (fun e => (e.action, e.tenantId)) := by
  have htexts : ∀ ts ∈ [0, 1], hashedTexts sha256OfPipes (pipesLog ts) =
      [utf8 "read|1|a|b|",
        utf8 "commit|16|a|b|cb504fe6ec4bcbe621acc77640828985e42148d015e726123c25b737dbc04595"] := by
    decide +kernel
  have hne : sha256OfPipes (utf8 "read|1|a|b|") ≠
      sha256OfPipes
        (utf8 "commit|16|a|b|cb504fe6ec4bcbe621acc77640828985e42148d015e726123c25b737dbc04595") := by
    decide +kernel
  refine chainHead_inj length_sha256OfPipes (injOn_of_pair _ _ hne fun x hx => ?_) rfl
  rcases hx with hx | hx
  · exact htexts 0 (by decide) ▸ hx
  · exact htexts 1 (by decide) ▸ hx

/-! ### Rows the sink has written -/

/-- The tenant's rows form one chain: the first names the empty hash, every
later one the hash of the row before it. -/
def Linear (rows : List AuditRow) : Prop :=
  HashChain.Linked AuditRow.prevHash AuditRow.rowHash (some "") rows

/-- The text a row's hash was computed from. -/
def AuditRow.hashedText (r : AuditRow) : List UInt8 :=
  utf8 (auditChainPayload (some r.action) r.permBit (some r.tenantId) r.prevHash)

/-- The row was written by `record`, from an event and a previous hash that
is empty or a digest. -/
def AuditRow.Recorded (sha256 : List UInt8 → List UInt8) (r : AuditRow) : Prop :=
  ∃ (e : AuditEvent) (prev : String) (id : Nat) (ts : Int), IsHexText prev ∧
    r = e.toRow sha256 prev id ts

/-- The last hash of a list of rows, empty when there is none. -/
def lastHash (rows : List AuditRow) : String := (rows.getLast?.map (·.rowHash)).join.getD ""

theorem AuditRow.Recorded.rowHash_eq {r : AuditRow} (h : r.Recorded sha256) :
    r.rowHash = some (hex (sha256 r.hashedText)) := by
  obtain ⟨e, prev, id, ts, -, rfl⟩ := h
  rfl

theorem lastDigest_of_recorded {rows : List AuditRow} (h : ∀ r ∈ rows, r.Recorded sha256) :
    HashChain.lastDigest AuditRow.rowHash (some "") rows = some (lastHash rows) := by
  rcases List.eq_nil_or_concat rows with rfl | ⟨rows, r, rfl⟩
  · rfl
  · rw [List.concat_eq_append] at h ⊢
    rw [HashChain.lastDigest_concat, lastHash, List.getLast?_concat, Option.map_some,
      (h r (by simp)).rowHash_eq]
    rfl

/-- What the next row will name is empty or a digest. -/
theorem isHexText_lastHash {rows : List AuditRow} (h : ∀ r ∈ rows, r.Recorded sha256) :
    IsHexText (lastHash rows) := by
  rcases List.eq_nil_or_concat rows with rfl | ⟨rows, r, rfl⟩
  · exact isHexText_empty
  · rw [List.concat_eq_append] at h ⊢
    rw [lastHash, List.getLast?_concat, Option.map_some, (h r (by simp)).rowHash_eq]
    exact isHexText_hex _

/-- The link of a row's columns behind the hash before it. -/
def linkRow (sha256 : List UInt8 → List UInt8) (prev : Option String) (r : AuditRow) :
    Option String :=
  some (hex (sha256 (utf8 (auditChainPayload (some r.action) r.permBit (some r.tenantId) prev))))

theorem collisionless_rows {rows : List AuditRow} (hrec : ∀ r ∈ rows, r.Recorded sha256)
    (h32 : ∀ bs, (sha256 bs).length = 32)
    (hinj : Set.InjOn sha256 {bs | ∃ r ∈ rows, bs = r.hashedText}) :
    HashChain.Collisionless (linkRow sha256) (some "") (fun r => (r.action, r.tenantId))
      {p | ∃ r ∈ rows, p = (r.prevHash, r)} where
  inj := by
    rintro _ ⟨r, hr, rfl⟩ _ ⟨r', hr', rfl⟩ h
    -- Equal links have equal texts, by the absence of collisions among the rows at hand.
    have htext : r.hashedText = r'.hashedText :=
      hinj ⟨r, hr, rfl⟩ ⟨r', hr', rfl⟩ (hex_injective (Option.some.inj h))
    obtain ⟨e, prev, id, ts, hhex, rfl⟩ := hrec r hr
    obtain ⟨e', prev', id', ts', hhex', rfl⟩ := hrec r' hr'
    -- The parts of a text are read back: the hash before it is hexadecimal, so the last
    -- separator is the last `|` of the text.
    obtain ⟨ha, ht, hp⟩ := AuditEvent.hashPayload_inj (hhex.not_mem (by decide))
      (hhex'.not_mem (by decide)) (utf8_injective htext)
    exact ⟨congrArg some hp, Prod.ext (congrArg AuditAction.asStr ha) ht⟩
  fresh := by
    rintro _ ⟨r, hr, rfl⟩ h
    -- A link is not the empty hash a chain begins with: it has 64 digits.
    have hlen : (hex (sha256 r.hashedText)).length = 64 := by simp [h32]
    rw [show hex (sha256 r.hashedText) = "" from Option.some.inj h] at hlen
    exact absurd hlen (by decide)

/-- In a linear log without collisions, an earlier last hash is not the last
hash again. -/
theorem eq_nil_of_lastHash_eq {rows₁ rows₂ : List AuditRow}
    (hrec : ∀ r ∈ rows₁ ++ rows₂, r.Recorded sha256) (h32 : ∀ bs, (sha256 bs).length = 32)
    (hinj : Set.InjOn sha256 {bs | ∃ r ∈ rows₁ ++ rows₂, bs = r.hashedText})
    (hlin : Linear (rows₁ ++ rows₂)) (h : lastHash rows₁ = lastHash (rows₁ ++ rows₂)) :
    rows₂ = [] := by
  have hdigest : ∀ r ∈ rows₁ ++ rows₂, r.rowHash = linkRow sha256 r.prevHash (id r) :=
    fun r hr => (hrec r hr).rowHash_eq
  have hlinks := HashChain.links_of_linked hdigest hlin
  have hlast := HashChain.lastDigest_of_linked hdigest hlin
  have hlast₁ := HashChain.lastDigest_of_linked
    (fun r hr => hdigest r (List.mem_append_left _ hr)) (HashChain.linked_append.mp hlin).1
  rw [lastDigest_of_recorded hrec] at hlast
  rw [lastDigest_of_recorded fun r hr => hrec r (List.mem_append_left _ hr)] at hlast₁
  rw [List.map_id] at hlinks hlast hlast₁
  -- the hash would occur at two positions of one chain
  refine HashChain.head_prefix_inj (collisionless_rows hrec h32 hinj) (fun p hp => ?_)
    (hlast₁.symm.trans ((congrArg some h).trans hlast))
  rw [hlinks] at hp
  obtain ⟨r, hr, rfl⟩ := List.mem_map.mp hp
  exact ⟨r, hr, rfl⟩

/-! ### What `record` does -/

namespace PgAuditSink

variable {sink : PgAuditSink} {e : AuditEvent} {now : Int} {db : AuditDb}

/-- The previous hash `record` finds: the tenant's last one, or none where
the role reads no row. -/
def prevHash (sink : PgAuditSink) (e : AuditEvent) (db : AuditDb) : String :=
  if sink.client.bypassRls then lastHash (db.tenantRows e.tenantId) else ""

/-- A sink that reads the table finds rows written by `record`.  Of a sink under
row-level security nothing is asked, since it reads none. -/
def ReadsRecorded (sha256 : List UInt8 → List UInt8) (sink : PgAuditSink) (db : AuditDb) : Prop :=
  sink.client.bypassRls = true → ∀ r ∈ db.rows, r.Recorded sha256

theorem prevHash_rls (h : sink.client.bypassRls = false) : sink.prevHash e db = "" := by
  rw [prevHash, h]
  rfl

theorem fetchPrev_eq (h : hasNul e.tenantId = false) :
    sink.fetchPrev e db = .ok (sink.prevHash e db) := by
  rcases hb : sink.client.bypassRls with - | -
  · rw [fetchPrev_rls hb, h, prevHash_rls hb]
    rfl
  · rw [fetchPrev_bypass hb, h, prevHash, hb]
    rfl

theorem isHexText_prevHash (h : sink.ReadsRecorded sha256 db) :
    IsHexText (sink.prevHash e db) := by
  rcases hb : sink.client.bypassRls with - | -
  · rw [prevHash_rls hb]
    exact isHexText_empty
  · rw [prevHash, hb]
    exact isHexText_lastHash fun r hr => h hb r (List.mem_of_mem_filter hr)

/-- An accepted event is one more row. -/
theorem record_of_accepts (hread : sink.ReadsRecorded sha256 db)
    (h : sink.accepts db now e = true) :
    sink.record sha256 now e db =
      (.ok (), db.push (e.toRow sha256 (sink.prevHash e db) db.nextId now)) := by
  have hnul : hasNul e.tenantId = false := by
    simp only [accepts, AuditEvent.storable, Bool.and_eq_true, Bool.not_eq_true'] at h
    exact h.1.1.1.1
  rw [record, fetchPrev_eq hnul]
  exact append_of_accepts h (hasNul_of_isHexText (isHexText_prevHash hread))

/-- A rejected event is dropped: the rows stay. -/
theorem record_of_not_accepts (hread : sink.ReadsRecorded sha256 db)
    (h : sink.accepts db now e = false) :
    ∃ err db', sink.record sha256 now e db = (.error err, db') ∧ db'.rows = db.rows ∧
      db'.Like db := by
  rcases hnul : hasNul e.tenantId with - | -
  · rw [record, fetchPrev_eq hnul]
    exact append_of_not_accepts _ h (hasNul_of_isHexText (isHexText_prevHash hread))
  · refine ⟨.invalidText, db, ?_, rfl, .refl db⟩
    simp [record, fetchPrev, selectLastHash, hnul, Except.map]

end PgAuditSink

/-! ### Whole logs -/

theorem exists_left_of_forall₂ {α β : Type*} {R : α → β → Prop} {as : List α} {bs : List β}
    (h : List.Forall₂ R as bs) {b : β} (hb : b ∈ bs) : ∃ a ∈ as, R a b := by
  induction h with
  | nil => cases hb
  | cons hab _ ih =>
      rcases List.mem_cons.mp hb with rfl | hb
      · exact ⟨_, List.mem_cons_self, hab⟩
      · obtain ⟨a, ha, hR⟩ := ih hb
        exact ⟨a, List.mem_cons_of_mem _ ha, hR⟩

namespace PgAuditSink

variable {sink : PgAuditSink} {db : AuditDb} {t : String}

/-- The row `r` is the one `record` writes for the event of `p`, at its time.  The
previous hash is left open, but for a sink that reads no row. -/
def Wrote (sha256 : List UInt8 → List UInt8) (sink : PgAuditSink) (p : Int × AuditEvent)
    (r : AuditRow) : Prop :=
  ∃ (prev : String) (id : Nat), IsHexText prev ∧ (sink.client.bypassRls = false → prev = "") ∧
    r = p.2.toRow sha256 prev id p.1

theorem Wrote.recorded {p : Int × AuditEvent} {r : AuditRow} (h : sink.Wrote sha256 p r) :
    r.Recorded sha256 := by
  obtain ⟨prev, id, hhex, -, rfl⟩ := h
  exact ⟨p.2, prev, id, p.1, hhex, rfl⟩

/-- The database's verdict depends on its partitions and its users only. -/
theorem accepts_congr {db' : AuditDb} (h : db'.Like db) (now : Int) (e : AuditEvent) :
    sink.accepts db' now e = sink.accepts db now e := by
  simp [accepts, AuditDb.covers, AuditDb.knows, h.partitions, h.users]

theorem recordAll_concat (es : List (Int × AuditEvent)) (p : Int × AuditEvent) (db : AuditDb) :
    sink.recordAll sha256 (es ++ [p]) db =
      (sink.record sha256 p.1 p.2 (sink.recordAll sha256 es db)).2 := by
  simp [recordAll]

/-- **One row for each event the database accepts, in order**, and nothing else.
What it accepts depends on the partitions, the users and the rights, none of which
an insert changes, so it is the same before the first event and before the last. -/
theorem recordAll_rows (hread : sink.ReadsRecorded sha256 db) (es : List (Int × AuditEvent)) :
    (sink.recordAll sha256 es db).Like db ∧
      ∃ new, (sink.recordAll sha256 es db).rows = db.rows ++ new ∧
        List.Forall₂ (sink.Wrote sha256) (es.filter fun p => sink.accepts db p.1 p.2) new := by
  induction es using List.reverseRecOn with
  | nil => exact ⟨.refl db, [], by simp [recordAll], .nil⟩
  | append_singleton es p ih =>
      obtain ⟨hlike, new, hrows, hnew⟩ := ih
      -- what was read so far is what `record` wrote
      have hread' : sink.ReadsRecorded sha256 (sink.recordAll sha256 es db) := by
        intro hb r hr
        rw [hrows] at hr
        rcases List.mem_append.mp hr with hr | hr
        · exact hread hb r hr
        · obtain ⟨q, -, hq⟩ := exists_left_of_forall₂ hnew hr
          exact hq.recorded
      rw [recordAll_concat]
      rcases ha : sink.accepts db p.1 p.2 with - | -
      · obtain ⟨err, db', he, hrows', hlike'⟩ :=
          record_of_not_accepts hread' ((accepts_congr hlike _ _).trans ha)
        refine ⟨by rw [he]; exact hlike'.trans hlike, new, by rw [he, hrows', hrows], ?_⟩
        simpa [ha] using hnew
      · rw [record_of_accepts hread' ((accepts_congr hlike _ _).trans ha)]
        refine ⟨(AuditDb.push_like _ _).trans hlike,
          new ++ [p.2.toRow sha256 (sink.prevHash p.2 (sink.recordAll sha256 es db))
          (sink.recordAll sha256 es db).nextId p.1], ?_, ?_⟩
        · simp [AuditDb.push, hrows, AuditEvent.toRow]
        · rw [List.filter_append, List.filter_singleton, ha]
          exact List.rel_append hnew (.cons ⟨_, _, isHexText_prevHash hread',
            fun hb => prevHash_rls hb, rfl⟩ .nil)

theorem readsRecorded_recordAll (hread : sink.ReadsRecorded sha256 db)
    (es : List (Int × AuditEvent)) :
    sink.ReadsRecorded sha256 (sink.recordAll sha256 es db) := by
  obtain ⟨-, new, hrows, hnew⟩ := recordAll_rows hread es
  intro hb r hr
  rw [hrows] at hr
  rcases List.mem_append.mp hr with hr | hr
  · exact hread hb r hr
  · obtain ⟨q, -, hq⟩ := exists_left_of_forall₂ hnew hr
    exact hq.recorded

/-- **The log in the table is the abstract log.**  Through a sink that reads
the table, the rows of a tenant without rows so far form one chain, and
their last hash is that of the events the database accepted. -/
theorem recordAll_linear (hb : sink.client.bypassRls = true)
    (hread : sink.ReadsRecorded sha256 db) (h0 : db.tenantRows t = [])
    {es : List (Int × AuditEvent)} (hes : ∀ p ∈ es, p.2.tenantId = t) :
    Linear ((sink.recordAll sha256 es db).tenantRows t) ∧
      lastHash ((sink.recordAll sha256 es db).tenantRows t) =
        chainHead sha256 ((es.filter fun p => sink.accepts db p.1 p.2).map (·.2)) := by
  induction es using List.reverseRecOn with
  | nil =>
      rw [show sink.recordAll sha256 [] db = db from rfl, h0]
      exact ⟨trivial, rfl⟩
  | append_singleton es p ih =>
      -- Whether the database accepts the event is the same before the log and behind it:
      -- the acceptance looks at the partitions, and at no row.
      obtain ⟨hlin, hlast⟩ := ih fun q hq => hes q (List.mem_append_left _ hq)
      obtain ⟨hlike, -⟩ := recordAll_rows hread es
      have hread' := readsRecorded_recordAll hread es
      rw [recordAll_concat, List.filter_append, List.filter_singleton]
      rcases ha : sink.accepts db p.1 p.2 with - | -
      · obtain ⟨err, db', he, hrows, -⟩ :=
          record_of_not_accepts hread' ((accepts_congr hlike _ _).trans ha)
        have hrows' : (sink.record sha256 p.1 p.2 (sink.recordAll sha256 es db)).2.tenantRows t =
            (sink.recordAll sha256 es db).tenantRows t := by
          rw [he]
          exact AuditDb.tenantRows_congr hrows t
        rw [hrows']
        exact ⟨hlin, by simpa using hlast⟩
      -- The sink reads the table, so the hash it names is that of the tenant's last row.
      · have hrec : ∀ r ∈ (sink.recordAll sha256 es db).tenantRows t, r.Recorded sha256 :=
          fun r hr => hread' hb r (List.mem_of_mem_filter hr)
        have hprev : sink.prevHash p.2 (sink.recordAll sha256 es db) =
            lastHash ((sink.recordAll sha256 es db).tenantRows t) := by
          rw [prevHash, hb, hes p (by simp)]
          rfl
        have hrows : (sink.record sha256 p.1 p.2 (sink.recordAll sha256 es db)).2.tenantRows t =
            (sink.recordAll sha256 es db).tenantRows t ++ [p.2.toRow sha256
              (lastHash ((sink.recordAll sha256 es db).tenantRows t))
              (sink.recordAll sha256 es db).nextId p.1] := by
          rw [record_of_accepts hread' ((accepts_congr hlike _ _).trans ha), hprev]
          exact AuditDb.tenantRows_push _ (hes p (by simp))
        rw [hrows]
        refine ⟨HashChain.linked_concat.mpr ⟨hlin, ?_⟩, ?_⟩
        · rw [lastDigest_of_recorded hrec]
          rfl
        · rw [hlast, lastHash, List.getLast?_concat]
          simp [chainHead, AuditEvent.toRow]

end PgAuditSink

/-- SHA-256 on the texts two records of the tenant `acme` hash. -/
def sha256OfAcme : List UInt8 → List UInt8 := digestTable
  [("read|1|acme|",
    [77, 87, 41, 9, 35, 242, 68, 193, 12, 74, 150, 84, 149, 14, 188, 171, 49, 67, 21, 7, 76, 21,
     71, 156, 31, 211, 23, 41, 250, 143, 214, 133]),
   ("modify|4|acme|",
    [94, 98, 113, 72, 41, 87, 139, 186, 77, 32, 142, 2, 244, 248, 127, 226, 227, 15, 241, 91,
     205, 67, 219, 40, 232, 136, 196, 133, 251, 80, 93, 36]),
   ("modify|4|acme|4d57290923f244c10c4a9654950ebcab314315074c15479c1fd31729fa8fd685",
    [93, 40, 120, 37, 111, 129, 117, 229, 129, 203, 86, 250, 221, 202, 173, 88, 151, 138, 229,
     106, 145, 191, 226, 119, 82, 83, 144, 114, 53, 100, 232, 251])]

theorem length_sha256OfAcme (bs : List UInt8) : (sha256OfAcme bs).length = 32 :=
  length_digestTable (by decide) bs

/-- Through a sink that reads the table, a read and a modification of the
tenant `acme`, recorded one after the other. -/
def acmeLog : List AuditRow :=
  (PgAuditSink.recordAll sha256OfAcme (.connect true (.ok ()) "acme")
    [(1, .new 0 (.all "acme" "ana") .read true .null),
     (2, .new 0 (.all "acme" "ana") .modify true .null)] (.empty [(0, 10)] [])).rows

end AgenticIde
