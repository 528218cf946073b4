/-
AgenticIde/CommentIds.lean

The ids of the comments that are added to the PostgreSQL store.

A comment is stored under its time of creation in milliseconds, and the id is the primary
key of the table all tenants share.  Over columns that take the line numbers, a sequence of
comments is stored exactly when no two of them were created in one millisecond and none of
the ids is taken; over the columns of 0005 only the empty sequence is (`adds_succeed_iff`).

The time is that of `Comment::new`, and not that of the call of `add`: two comments that are
built in one millisecond have one id, however late the second is added, and for whichever
tenant.  The second `INSERT` then fails on the key, and its error is returned.

The law has two parts, after the two sets of columns.  That of 0005 holds because the driver
refuses a 64-bit line number for an `INTEGER` column, before any id matters.  The other is
what remains of the claim on ids over columns that a later migration could make, and says
which of the gates a comment then has to pass.
-/
import AgenticIde.PgCollab
import Mathlib

namespace AgenticIde

/-- A call of `add` with a comment that `Comment::new` has just built, at
`created`, in a transaction that begins at `now`. -/
structure AddCall where
  tenantId : String
  file : String
  lineStart : Nat
  lineEnd : Nat
  author : String
  body : String
  created : Int
  now : Int

/-- The comment of a call. -/
def AddCall.comment (c : AddCall) : Comment :=
  .new c.tenantId c.file c.lineStart c.lineEnd c.author c.body c.created

namespace PgCommentStore

variable {self : PgCommentStore} {columns : CommentColumns} {db : CommentDb}

/-- A call as a step. -/
def addStep (self : PgCommentStore) (columns : CommentColumns) (db : CommentDb) (c : AddCall) :
    CommentDb × List (Except PgCommentError String) :=
  ((self.add columns c.now c.comment db).2, [(self.add columns c.now c.comment db).1])

/-- The calls one after the other: the table they leave, and their answers. -/
def addAll (self : PgCommentStore) (columns : CommentColumns) (db : CommentDb)
    (calls : List AddCall) : CommentDb × List (Except PgCommentError String) :=
  Machine.run (self.addStep columns) db calls

/-- Every call succeeds, and no id is returned twice.  The ids are compared over all
calls, of whatever tenants. -/
def AddsSucceed (self : PgCommentStore) (columns : CommentColumns) (db : CommentDb)
    (calls : List AddCall) : Prop :=
  ∃ ids : List String, (self.addAll columns db calls).2 = ids.map Except.ok ∧ ids.Nodup

/-- The ids the comments of some calls are stored under. -/
def idsFor (calls : List AddCall) : List String := calls.map fun c => idFor c.comment

/-- What the calls need to be stored: every comment passes the gates, and the
ids are new and distinct. -/
def Storable (self : PgCommentStore) (columns : CommentColumns) (db : CommentDb)
    (calls : List AddCall) : Prop :=
  (∀ c ∈ calls, self.accepts columns c.comment = true) ∧ (db.ids ++ idsFor calls).Nodup

theorem idsFor_concat (calls : List AddCall) (c : AddCall) :
    idsFor (calls ++ [c]) = idsFor calls ++ [idFor c.comment] := by
  simp [idsFor]

theorem storable_concat {calls : List AddCall} {c : AddCall} :
    self.Storable columns db (calls ++ [c]) ↔
      self.Storable columns db calls ∧ self.accepts columns c.comment = true ∧
        idFor c.comment ∉ db.ids ++ idsFor calls := by
  have hnodup : (db.ids ++ idsFor calls ++ [idFor c.comment]).Nodup ↔
      (db.ids ++ idsFor calls).Nodup ∧ idFor c.comment ∉ db.ids ++ idsFor calls := by
    rw [← List.concat_eq_append, List.nodup_concat, and_comm]
  rw [Storable, Storable, idsFor_concat, ← List.append_assoc, hnodup]
  simp only [List.mem_append, List.mem_singleton, or_imp, forall_and, forall_eq]
  tauto

theorem addAll_concat (calls : List AddCall) (c : AddCall) :
    self.addAll columns db (calls ++ [c]) =
      ((self.add columns c.now c.comment (self.addAll columns db calls).1).2,
        (self.addAll columns db calls).2 ++
          [(self.add columns c.now c.comment (self.addAll columns db calls).1).1]) := by
  rw [addAll, Machine.run_concat]
  rfl

/-- Storable calls are stored, each under its own id. -/
theorem addAll_of_storable {calls : List AddCall} (h : self.Storable columns db calls) :
    (self.addAll columns db calls).1.ids = db.ids ++ idsFor calls ∧
      (self.addAll columns db calls).2 = (idsFor calls).map Except.ok := by
  induction calls using List.reverseRecOn with
  | nil => exact ⟨(List.append_nil _).symm, rfl⟩
  | append_singleton calls c ih =>
      obtain ⟨hcalls, haccepts, hnew⟩ := storable_concat.mp h
      obtain ⟨hids, hreplies⟩ := ih hcalls
      rw [← hids] at hnew
      rw [addAll_concat, add_of_accepts haccepts, dif_neg hnew, idsFor_concat]
      constructor
      · have hpush := CommentDb.ids_push _ (rowFor c.now c.comment) hnew
        rw [hids, List.append_assoc] at hpush
        exact hpush
      · rw [hreplies, List.map_append]
        rfl

/-- Calls that are all answered with an id are storable. -/
theorem storable_of_addAll {calls : List AddCall} {ids : List String}
    (h : (self.addAll columns db calls).2 = ids.map Except.ok) :
    self.Storable columns db calls := by
  induction calls using List.reverseRecOn generalizing ids with
  | nil => exact ⟨by simp, by simpa [idsFor] using db.nodup_ids⟩
  | append_singleton calls c ih =>
      rw [addAll_concat] at h
      obtain ⟨init, last, rfl, hinit, hlast⟩ := List.map_eq_append_iff.mp h.symm
      have hcalls := ih hinit.symm
      have hids := (addAll_of_storable hcalls).1
      rw [storable_concat]
      -- the answer of the last call is an id, so no gate stopped it
      have hok : ∃ id, (self.add columns c.now c.comment (self.addAll columns db calls).1).1 =
          .ok id := by
        cases last with
        | nil => cases hlast
        | cons id rest =>
            rw [List.map_cons] at hlast
            exact ⟨id, (List.cons.inj hlast).1.symm⟩
      obtain ⟨id, hok⟩ := hok
      cases haccepts : self.accepts columns c.comment with
      | false =>
          obtain ⟨e, he⟩ := add_of_not_accepts haccepts c.now (self.addAll columns db calls).1
          rw [he] at hok
          cases hok
      | true =>
          refine ⟨hcalls, rfl, fun hmem => ?_⟩
          rw [← hids] at hmem
          rw [add_of_accepts haccepts, dif_pos hmem] at hok
          cases hok

/-- The calls succeed exactly when they are storable. -/
theorem addsSucceed_iff_storable {calls : List AddCall} :
    self.AddsSucceed columns db calls ↔ self.Storable columns db calls := by
  constructor
  · rintro ⟨ids, hreplies, -⟩
    exact storable_of_addAll hreplies
  · intro h
    exact ⟨idsFor calls, (addAll_of_storable h).2, h.2.of_append_right⟩

/-- A new comment is stored under its time of creation. -/
theorem idFor_comment (c : AddCall) : idFor c.comment = s!"c{c.comment.createdAt}" := rfl

theorem timeId_injective : Function.Injective fun t : Int => s!"c{t}" := by
  intro s t h
  have hrepr : ("c" ++ toString s : String) = "c" ++ toString t := h
  have hlist := congrArg String.toList hrepr
  rw [String.toList_append, String.toList_append, List.append_cancel_left_eq] at hlist
  exact Int.repr_injective (String.toList_inj.mp hlist)

/-- Ids are new and distinct when the times of creation are distinct and none
of them is taken. -/
theorem nodup_idsFor {calls : List AddCall} :
    (db.ids ++ idsFor calls).Nodup ↔
      (calls.map fun c => c.comment.createdAt).Nodup ∧
        ∀ c ∈ calls, s!"c{c.comment.createdAt}" ∉ db.ids := by
  have hmap : idsFor calls = (calls.map fun c => c.comment.createdAt).map fun t => s!"c{t}" := by
    rw [List.map_map]
    exact List.map_congr_left fun c _ => idFor_comment c
  rw [List.nodup_append, hmap, List.nodup_map_iff timeId_injective]
  simp only [db.nodup_ids, true_and, List.mem_map, forall_exists_index, and_imp,
    forall_apply_eq_imp_iff₂]
  refine and_congr_right fun _ => ⟨?_, ?_⟩
  · intro h c hc hmem
    exact h _ hmem c hc rfl
  · rintro h id hid c hc rfl
    exact h c hc hid

/-- **Ids from times.**  Over the columns of 0005 comments are all added, under
distinct ids, only when there are none.  Over columns for 64-bit line numbers
they are when the server takes the tenant, the texts hold no NUL, and the
times of creation are distinct and none of them is an id already. -/
theorem adds_succeed_iff (self : PgCommentStore) (db : CommentDb) (calls : List AddCall) :
    (self.AddsSucceed .v20 db calls ↔ calls = []) ∧
      (self.AddsSucceed .wide db calls ↔
        (∀ c ∈ calls, self.accepts .wide c.comment = true) ∧
          (calls.map fun c => c.comment.createdAt).Nodup ∧
            ∀ c ∈ calls, s!"c{c.comment.createdAt}" ∉ db.ids) := by
  constructor
  · rw [addsSucceed_iff_storable]
    constructor
    · rintro ⟨haccepts, -⟩
      -- Over the columns of 0005 no comment passes, so there can be none.
      cases calls with
      | nil => rfl
      | cons c calls =>
          have hc := haccepts c List.mem_cons_self
          rw [accepts_v20] at hc
          cases hc
    · rintro rfl
      exact ⟨by simp, by simpa [idsFor] using db.nodup_ids⟩
  · rw [addsSucceed_iff_storable, Storable, nodup_idsFor]

/-- A comment on a line of a file. -/
def firstCall : AddCall := ⟨"acme", "main.rs", 3, 3, "alice", "rename this", 1700000000000, 0⟩

/-- One comment, on an empty table, by a server that takes the tenant. -/
theorem not_addsSucceed_firstCall :
    ¬ PgCommentStore.AddsSucceed ⟨true, false, fun a b => a ≤ b⟩ .v20 .empty [firstCall] := by
  rintro ⟨ids, h, -⟩
  cases ids with
  | nil => cases h
  | cons id ids => cases h

end PgCommentStore

end AgenticIde
