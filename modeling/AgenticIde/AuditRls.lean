/-
AgenticIde/AuditRls.lean

The audit sink under the row-level security the migrations deploy: the role
is subject to `audit_append_only` (permissive, INSERT only) and
`audit_tenant_isolation` (restrictive, FOR ALL).

* There is no permissive SELECT policy, so `record` finds no previous row
  and every row starts the chain anew: the rows form a chain exactly when
  there is at most one (`rls_chain_iff`).
* Where the setting `app.tenant_id` took effect it is the tenant the sink was
  connected for, and the restrictive policy holds every later row to it; where
  the SET was refused the setting is unset and any tenant's row is admitted.
  The chain breaks either way: what decides about it is the missing SELECT
  policy alone.
-/
import AgenticIde.AuditLog

namespace AgenticIde

variable {sha256 : List UInt8 → List UInt8} {sink : PgAuditSink} {db : AuditDb}

/-- The rows that recording `es` inserts. -/
def insertedRows (sha256 : List UInt8 → List UInt8) (sink : PgAuditSink)
    (es : List (Int × AuditEvent)) (db : AuditDb) : List AuditRow :=
  (sink.recordAll sha256 es db).rows.drop db.rows.length

/-- A role subject to row-level security writes rows without a predecessor. -/
theorem insertedRows_rls (sha256 : List UInt8 → List UInt8) (db : AuditDb)
    (hrls : sink.client.bypassRls = false) (es : List (Int × AuditEvent)) :
    (insertedRows sha256 sink es db).length =
        (es.filter fun p => sink.accepts db p.1 p.2).length ∧
      ∀ r ∈ insertedRows sha256 sink es db, ∃ (e : AuditEvent) (id : Nat) (ts : Int),
        r = e.toRow sha256 "" id ts := by
  have hread : sink.ReadsRecorded sha256 db := fun hb => by simp [hrls] at hb
  obtain ⟨-, new, hrows, hnew⟩ := PgAuditSink.recordAll_rows hread es
  rw [insertedRows, hrows, List.drop_left]
  refine ⟨hnew.length_eq.symm, fun r hr => ?_⟩
  obtain ⟨p, -, prev, id, -, hprev, rfl⟩ := exists_left_of_forall₂ hnew hr
  exact ⟨p.2, id, p.1, by rw [hprev hrls]⟩

/-- **The chain under row-level security.**  Each inserted row names the hash
of the inserted row before it exactly when the database accepts at most one
of the events. -/
theorem rls_chain_iff (h32 : ∀ bs, (sha256 bs).length = 32)
    (hrls : sink.client.bypassRls = false) (es : List (Int × AuditEvent)) :
    (∀ k r r', (insertedRows sha256 sink es db)[k]? = some r →
        (insertedRows sha256 sink es db)[k + 1]? = some r' → r'.prevHash = r.rowHash) ↔
      (es.filter fun p => sink.accepts db p.1 p.2).length ≤ 1 := by
  obtain ⟨hlen, hrows⟩ := insertedRows_rls sha256 db hrls es
  rw [← hlen]
  constructor
  · intro h
    -- of two rows the second would have to name the digest of the first
    by_contra hlong
    have h0 : 0 < (insertedRows sha256 sink es db).length := by omega
    have h1 : 1 < (insertedRows sha256 sink es db).length := by omega
    have hlink := h 0 _ _ (List.getElem?_eq_getElem h0) (List.getElem?_eq_getElem h1)
    obtain ⟨e, id, ts, he⟩ := hrows _ (List.getElem_mem h0)
    obtain ⟨e', id', ts', he'⟩ := hrows _ (List.getElem_mem h1)
    rw [he, he'] at hlink
    exact AuditEvent.rowHash_ne_empty h32 e "" (Option.some.inj hlink).symm
  · intro hshort k r r' _ hr'
    obtain ⟨hk, -⟩ := List.getElem?_eq_some_iff.mp hr'
    omega

/-- The deployed sink of the tenant `acme`: its role is subject to row-level
security, and the server has refused the parameter of its SET. -/
def acmeSink : PgAuditSink := .connect false (.error .syntaxError) "acme"

/-- A read and a modification of the tenant `acme`. -/
def acmeEvents : List (Int × AuditEvent) :=
  [(1, .new 0 (.all "acme" "ana") .read true .null),
   (2, .new 0 (.all "acme" "ana") .modify true .null)]

theorem rls_chain_iff_acme :
    (∀ k r r', (insertedRows sha256OfAcme acmeSink acmeEvents (.empty [(0, 10)] []))[k]? = some r →
        (insertedRows sha256OfAcme acmeSink acmeEvents (.empty [(0, 10)] []))[k + 1]? = some r' →
          r'.prevHash = r.rowHash) ↔
      (acmeEvents.filter fun p => acmeSink.accepts (.empty [(0, 10)] []) p.1 p.2).length ≤ 1 :=
  rls_chain_iff length_sha256OfAcme rfl acmeEvents

/-- The second of two accepted records names the empty hash, not the first
row's. -/
theorem rls_chain_broken :
    ¬ ∀ k r r', (insertedRows sha256OfAcme acmeSink acmeEvents (.empty [(0, 10)] []))[k]? = some r →
      (insertedRows sha256OfAcme acmeSink acmeEvents (.empty [(0, 10)] []))[k + 1]? = some r' →
        r'.prevHash = r.rowHash := by
  have hrows : (insertedRows sha256OfAcme acmeSink acmeEvents (.empty [(0, 10)] [])).map
      (fun r => (r.prevHash, r.rowHash)) =
        [(some "", some "4d57290923f244c10c4a9654950ebcab314315074c15479c1fd31729fa8fd685"),
         (some "", some "5e62714829578bba4d208e02f4f87fe2e30ff15bcd43db28e888c485fb505d24")] := by
    decide +kernel
  intro h
  have hlen := congrArg List.length hrows
  obtain ⟨r, r', e⟩ := List.length_eq_two.mp ((List.length_map _).symm.trans hlen)
  have hlink := h 0 r r' (by rw [e]; rfl) (by rw [e]; rfl)
  rw [e] at hrows
  simp only [List.map_cons, List.cons.injEq, Prod.mk.injEq] at hrows
  rw [hrows.1.2, hrows.2.1.1] at hlink
  exact absurd hlink (by decide)

end AgenticIde
