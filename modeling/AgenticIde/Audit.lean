/-
AgenticIde/Audit.lean

Audit events and the hash that anchors one in the tamper-evidence chain (`audit.rs`).  SHA-256
is a parameter: an event fixes the text that is hashed, and the digest is written in
hexadecimal.

The text joins four fields with an unescaped `|`, and a tenant may contain one.  It still
determines the action, the tenant and the previous hash, as long as the previous hash has no
`|` (`hashPayload_inj`): the action never has one, so the first two separators are found from
the left and the last from the right.

The other fields of an event are in no hash: who acted, when, on what, and whether it was
granted.  A row in which only these have been changed has the hash it had.

Details are a JSON value.  Whether one of its texts has a NUL matters, since the database can
store none, neither in a text nor in a JSON value (`hasNul`).
-/
import AgenticIde.Lib.Encoding
import AgenticIde.Principal

namespace AgenticIde

/-! ### Structured payloads -/

/-- `serde_json::Value`. -/
inductive Json where
  | null
  | bool (b : Bool)
  | num (n : ℚ)
  | str (s : String)
  | arr (xs : List Json)
  | obj (fields : List (String × Json))

/-- The text has a NUL, which no PostgreSQL text can hold. -/
def hasNul (s : String) : Bool := s.toList.any (· == '\x00')

mutual

/-- Some string or key of the value has a NUL, which no `jsonb` can hold. -/
def Json.hasNul : Json → Bool
  | .null | .bool _ | .num _ => false
  | .str s => AgenticIde.hasNul s
  | .arr xs => Json.anyHasNul xs
  | .obj fields => Json.fieldsHaveNul fields

/-- Some element of an array has a NUL. -/
def Json.anyHasNul : List Json → Bool
  | [] => false
  | x :: xs => x.hasNul || Json.anyHasNul xs

/-- Some key or value of an object has a NUL. -/
def Json.fieldsHaveNul : List (String × Json) → Bool
  | [] => false
  | (k, v) :: fields => AgenticIde.hasNul k || v.hasNul || Json.fieldsHaveNul fields

end

/-! ### Events -/

/-- One audited action (maps to a row of the `audit` table). -/
structure AuditEvent where
  tsMs : Int
  actorId : Option Int
  action : AuditAction
  tenantId : String
  userId : String
  granted : Bool
  payload : Json

namespace AuditEvent

/-- Build an event for `principal` performing `action`, `tsMs` being the
current time. -/
def new (tsMs : Int) (principal : Principal) (action : AuditAction) (granted : Bool)
    (payload : Json) : AuditEvent where
  tsMs := tsMs
  actorId := none
  action := action
  tenantId := principal.tenantId
  userId := principal.userId
  granted := granted
  payload := payload

/-- The object written to the `audit.detail` column. -/
def detailJson (e : AuditEvent) : Json :=
  .obj [("tenant_id", .str e.tenantId), ("user_id", .str e.userId), ("granted", .bool e.granted),
    ("payload", e.payload)]

/-- The canonical text of the chain: `action | perm_bit | tenant_id | prev_hash`. -/
def hashPayload (e : AuditEvent) (prevHash : String) : String :=
  e.action.asStr ++ "|" ++ toString e.action.permBit ++ "|" ++ e.tenantId ++ "|" ++ prevHash

/-- SHA-256 hex digest that anchors the event in the chain. -/
def rowHash (sha256 : List UInt8 → List UInt8) (e : AuditEvent) (prevHash : String) : String :=
  hex (sha256 (utf8 (e.hashPayload prevHash)))

end AuditEvent

/-- A hash function known on finitely many texts: `table` lists their
digests. -/
def digestTable (table : List (String × List UInt8)) (bs : List UInt8) : List UInt8 :=
  ((table.find? fun p => utf8 p.1 == bs).map (·.2)).getD (List.replicate 32 0)

theorem length_digestTable {table : List (String × List UInt8)}
    (h : ∀ p ∈ table, p.2.length = 32) (bs : List UInt8) : (digestTable table bs).length = 32 := by
  rcases e : table.find? (fun p => utf8 p.1 == bs) with - | p
  · simp [digestTable, e]
  · rw [digestTable, e]
    exact h p (List.mem_of_find?_eq_some e)

/-- A hash function that tells two texts apart has no collision on a log that
hashes these two. -/
theorem injOn_of_pair {f : List UInt8 → List UInt8} {texts : Set (List UInt8)}
    (a b : List UInt8) (hab : f a ≠ f b) (h : ∀ x ∈ texts, x ∈ [a, b]) : Set.InjOn f texts := by
  intro x hx y hy hxy
  rcases List.mem_pair.mp (h x hx) with rfl | rfl <;>
    rcases List.mem_pair.mp (h y hy) with rfl | rfl
  · rfl
  · exact absurd hxy hab
  · exact absurd hxy.symm hab
  · rfl

/-! ### The text determines the event's action, tenant and predecessor -/

theorem AuditAction.asStr_injective : Function.Injective AuditAction.asStr := by
  intro a b h
  cases a <;> cases b <;> first | rfl | exact absurd h (by decide)

namespace AuditEvent

theorem toList_hashPayload (e : AuditEvent) (prevHash : String) :
    (e.hashPayload prevHash).toList =
      e.action.asStr.toList ++ '|' :: (e.action.permBit.repr.toList ++
        '|' :: (e.tenantId.toList ++ '|' :: prevHash.toList)) := by
  simp [hashPayload, String.toList_append]

/-- **The text is injective** on previous hashes without a separator, for arbitrary
tenants.  The code of the action is a number and ends at the first separator, and
the previous hash begins behind the last one, so the tenant is what is between them,
with whatever separators it has. -/
theorem hashPayload_inj {e e' : AuditEvent} {prev prev' : String}
    (hprev : '|' ∉ prev.toList) (hprev' : '|' ∉ prev'.toList)
    (h : e.hashPayload prev = e'.hashPayload prev') :
    e.action = e'.action ∧ e.tenantId = e'.tenantId ∧ prev = prev' := by
  have haction : ∀ a : AuditAction, '|' ∉ a.asStr.toList := by
    intro a
    cases a <;> decide
  have hlist := congrArg String.toList h
  rw [toList_hashPayload, toList_hashPayload] at hlist
  obtain ⟨ha, hrest⟩ := Str.sep_inj_left (haction _) (haction _) hlist
  have hact : e.action = e'.action := AuditAction.asStr_injective (String.toList_inj.mp ha)
  rw [hact, List.append_cancel_left_eq, List.cons.injEq] at hrest
  obtain ⟨ht, hp⟩ := Str.sep_inj_right hprev hprev' hrest.2
  exact ⟨hact, String.toList_inj.mp ht, String.toList_inj.mp hp⟩

/-- A digest of 32 octets is written with 64 digits, so it is not empty. -/
theorem rowHash_ne_empty {sha256 : List UInt8 → List UInt8} (h32 : ∀ bs, (sha256 bs).length = 32)
    (e : AuditEvent) (prev : String) : e.rowHash sha256 prev ≠ "" := by
  intro h
  have hlen : (e.rowHash sha256 prev).length = 64 := by simp [rowHash, h32]
  rw [h] at hlen
  exact absurd hlen (by decide)

/-- The action and its bit are written without a backslash. -/
theorem backslash_mem_hashPayload_iff (e : AuditEvent) (prev : String) :
    '\\' ∈ (e.hashPayload prev).toList ↔ '\\' ∈ e.tenantId.toList ∨ '\\' ∈ prev.toList := by
  have haction : '\\' ∉ e.action.asStr.toList := by cases e.action <;> decide
  have hbit : '\\' ∉ e.action.permBit.repr.toList := by cases e.action <;> decide
  rw [toList_hashPayload]
  simp [haction, hbit]

end AuditEvent

end AgenticIde
