/-
AgenticIde/CommentStores.lean

The two comment stores side by side.

The stores are given the same operations, up to a renaming of the ids, and `Refines` says
that the PostgreSQL one answers as the one in memory does.  Over the columns of 0005 no
comment is ever stored, so the two agree as long as there is nothing to store, and part at
the first comment (`refines_iff`).

The stores number comments in their own ways, the one with a counter and the other with a
time, and an operation names a comment by the id it was answered with; so answers can only
be compared up to a renaming (`IdRenaming`).  A listing is compared up to its order among
the comments of one line, since the stores sort ties differently (`SameListing`).  Both are
concessions to the stores: without them they would part in more runs.

What is left of the difference is then only this: the store in memory takes every text, and
the database refuses one with a NUL; and the driver refuses every comment.  A store whose
server does not take the tenant sees no rows at all, and is not looked at here.
-/
import AgenticIde.CommentTenants
import AgenticIde.PgCollab

namespace AgenticIde

/-! ### Answers up to renaming -/

/-- A renaming of comment ids, by which a text that can be stored stays one. -/
structure IdRenaming where
  map : String → String
  injective : Function.Injective map
  hasNul_map : ∀ id, hasNul (map id) = hasNul id

/-- Ids as they are. -/
def IdRenaming.refl : IdRenaming := ⟨id, Function.injective_id, fun _ => rfl⟩

/-- The same comments are listed, and in the same order if they are on
distinct lines. -/
def SameListing (ρ : IdRenaming) (comments comments' : List Comment) : Prop :=
  (comments.map (·.rename ρ.map)).Perm comments' ∧
    ((comments.map Comment.lineStart).Nodup → comments.map (·.rename ρ.map) = comments')

/-- The PostgreSQL store answers what the store in memory does. -/
def SameReply (ρ : IdRenaming) : CommentReply → Except PgCommentError CommentReply → Prop
  | .added id, .ok (.added id') => ρ.map id = id'
  | .resolved found, .ok (.resolved found') => found = found'
  | .listed comments, .ok (.listed comments') => SameListing ρ comments comments'
  | _, _ => False

/-- The texts an operation sends to the database. -/
def CommentOp.texts : CommentOp → List String
  | .add tenantId file _ _ author body _ => [tenantId, file, author, body]
  | .resolve tenantId id => [tenantId, id]
  | .listForFile tenantId file => [tenantId, file]

/-- The operation adds no comment, and PostgreSQL can hold its texts. -/
def CommentOp.storesNothing : CommentOp → Bool
  | .add .. => false
  | op => !op.texts.any hasNul

/-! ### Runs of both stores -/

namespace PgCommentStore

/-- An operation as a step, at its time. -/
def step (self : PgCommentStore) (columns : CommentColumns) (db : CommentDb)
    (op : Int × CommentOp) : CommentDb × List (Except PgCommentError CommentReply) :=
  ((self.perform columns op.1 op.2 db).2, [(self.perform columns op.1 op.2 db).1])

/-- The answers to operations on an empty table, each at its time. -/
def replies (self : PgCommentStore) (columns : CommentColumns) (ops : List (Int × CommentOp)) :
    List (Except PgCommentError CommentReply) :=
  (Machine.run (self.step columns) .empty ops).2

end PgCommentStore

/-- All the answers of the store in memory. -/
def InMemoryCommentStore.replies (ops : List CommentOp) : List CommentReply :=
  (Machine.run step new ops).2.map Prod.snd

theorem InMemoryCommentStore.replies_concat (ops : List CommentOp) (op : CommentOp) :
    replies (ops ++ [op]) = replies ops ++ [((after ops).perform op).1] := by
  rw [replies, Machine.run_concat, List.map_append]
  rfl

/-- **Refinement.** For some renaming of the ids, the PostgreSQL store answers the
renamed operations as the store in memory answers the operations.  Both begin empty,
and the times of the operations are the same in both. -/
def PgCommentStore.Refines (self : PgCommentStore) (columns : CommentColumns)
    (ops : List (Int × CommentOp)) : Prop :=
  ∃ ρ : IdRenaming, List.Forall₂ (SameReply ρ) (InMemoryCommentStore.replies (ops.map Prod.snd))
    (self.replies columns (ops.map fun op => (op.1, op.2.rename ρ.map)))

/-! ### As long as there is nothing to store -/

theorem CommentOp.storesNothing_rename (ρ : IdRenaming) (op : CommentOp) :
    (op.rename ρ.map).storesNothing = op.storesNothing := by
  cases op with
  | resolve tenantId id => simp [rename, storesNothing, texts, ρ.hasNul_map]
  | add | listForFile => rfl

namespace PgCommentStore

variable {self : PgCommentStore} {columns : CommentColumns}

theorem withTenant_empty {α : Type} (hset : self.setAccepted = true) (tenantId : String)
    {f : PgSession → CommentDb → Except PgCommentError (α × CommentDb)} {text : String} {a : α}
    (hf : f ⟨some tenantId, self.bypassRls⟩ .empty =
      if hasNul text then .error .invalidText else .ok (a, .empty)) :
    self.withTenant tenantId f .empty =
      (if hasNul tenantId || hasNul text then .error .invalidText else .ok a, .empty) := by
  cases htenant : hasNul tenantId <;> cases htext : hasNul text <;>
    simp [withTenant, hset, htenant, htext, hf]

/-- Nothing is found in an empty table. -/
theorem resolve_empty (hset : self.setAccepted = true) (tenantId id : String) :
    self.resolve tenantId id .empty =
      (if hasNul tenantId || hasNul id then .error .invalidText else .ok false, .empty) := by
  apply withTenant_empty hset tenantId
  cases hid : hasNul id with
  | true => rfl
  | false =>
      simp [selectRows, RowSecurity.visibleRows, CommentDb.empty, CommentDb.markResolved]

/-- Nothing is listed from an empty table. -/
theorem listForFile_empty (hset : self.setAccepted = true) (tenantId file : String) :
    self.listForFile columns tenantId file .empty =
      (if hasNul tenantId || hasNul file then .error .invalidText else .ok [], .empty) := by
  apply withTenant_empty hset tenantId
  cases hfile : hasNul file with
  | true => rfl
  | false =>
      simp [selectRows, RowSecurity.visibleRows, CommentDb.empty, pure, Except.pure]

/-- What is not an addition leaves empty stores empty. -/
theorem perform_empty (hset : self.setAccepted = true) (columns : CommentColumns) (now : Int)
    {op : CommentOp} (hop : op.storesNothing = true) :
    (InMemoryCommentStore.new.perform op).2 = .new ∧
      (self.perform columns now op .empty).2 = .empty := by
  cases op with
  | add => cases hop
  | resolve tenantId id => exact ⟨rfl, by rw [perform, resolve_empty hset]⟩
  | listForFile tenantId file => exact ⟨rfl, by rw [perform, listForFile_empty hset]⟩

/-- Two empty stores answer alike exactly when there is nothing to store. -/
theorem sameReply_empty (hset : self.setAccepted = true) (ρ : IdRenaming) (now : Int)
    (op : CommentOp) :
    SameReply ρ (InMemoryCommentStore.new.perform op).1
        (self.perform .v20 now (op.rename ρ.map) .empty).1 ↔
      op.storesNothing = true := by
  cases op with
  -- An `add` fails here, and the store in memory never fails.
  | add tenantId file lineStart lineEnd author body created =>
      obtain ⟨e, he⟩ := add_of_not_accepts
        (self.accepts_v20 (.new tenantId file lineStart lineEnd author body created)) now .empty
      show SameReply ρ (.added _) (self.perform .v20 now
        (.add tenantId file lineStart lineEnd author body created) .empty).1 ↔ _
      rw [perform, he]
      exact ⟨fun h => h.elim, fun h => by cases h⟩
  | resolve tenantId id =>
      -- Nothing can be resolved in an empty store, so both answer no, if the texts reach
      -- the database.
      rw [CommentOp.rename, perform, resolve_empty hset, ρ.hasNul_map]
      cases htexts : hasNul tenantId || hasNul id with
      | true => simp [CommentOp.storesNothing, CommentOp.texts, htexts, SameReply, Except.map]
      | false =>
          simp [CommentOp.storesNothing, CommentOp.texts, htexts, SameReply, Except.map,
            InMemoryCommentStore.perform, InMemoryCommentStore.resolve,
            InMemoryCommentStore.resolveIn, InMemoryCommentStore.new]
  -- Both list nothing, with the same exception.
  | listForFile tenantId file =>
      show SameReply ρ _ (self.perform .v20 now (.listForFile tenantId file) .empty).1 ↔ _
      rw [perform, listForFile_empty hset]
      cases htexts : hasNul tenantId || hasNul file with
      | true => simp [CommentOp.storesNothing, CommentOp.texts, htexts, SameReply, Except.map]
      | false =>
          simp [CommentOp.storesNothing, CommentOp.texts, htexts, SameReply, Except.map,
            InMemoryCommentStore.perform, InMemoryCommentStore.listForFile,
            InMemoryCommentStore.new, SameListing]

/-! ### Runs -/

/-- The table after operations on an empty one. -/
def after (self : PgCommentStore) (columns : CommentColumns) (ops : List (Int × CommentOp)) :
    CommentDb :=
  (Machine.run (self.step columns) .empty ops).1

@[simp] theorem after_concat (ops : List (Int × CommentOp)) (op : Int × CommentOp) :
    self.after columns (ops ++ [op]) =
      (self.perform columns op.1 op.2 (self.after columns ops)).2 := by
  rw [after, Machine.run_concat]
  rfl

theorem replies_concat (ops : List (Int × CommentOp)) (op : Int × CommentOp) :
    self.replies columns (ops ++ [op]) =
      self.replies columns ops ++
        [(self.perform columns op.1 op.2 (self.after columns ops)).1] := by
  rw [replies, Machine.run_concat]
  rfl

/-- The operations as the PostgreSQL store is given them. -/
def renamed (ρ : IdRenaming) (ops : List (Int × CommentOp)) : List (Int × CommentOp) :=
  ops.map fun op => (op.1, op.2.rename ρ.map)

/-- Operations that store nothing leave both stores empty. -/
theorem after_of_storesNothing (hset : self.setAccepted = true) (ρ : IdRenaming)
    {ops : List (Int × CommentOp)} (hops : ∀ op ∈ ops, op.2.storesNothing = true) :
    InMemoryCommentStore.after (ops.map Prod.snd) = .new ∧
      self.after .v20 (renamed ρ ops) = .empty := by
  induction ops using List.reverseRecOn with
  -- On the last operation: the stores it meets are empty, and it leaves them so.
  | nil => exact ⟨rfl, rfl⟩
  | append_singleton ops op ih =>
      obtain ⟨hmemory, hpg⟩ := ih fun op' h => hops op' (List.mem_append_left _ h)
      have hop : op.2.storesNothing = true := hops op (by simp)
      have hop' : (op.2.rename ρ.map).storesNothing = true := by
        rw [CommentOp.storesNothing_rename]
        exact hop
      rw [renamed, List.map_append, List.map_append]
      constructor
      · show InMemoryCommentStore.after (ops.map Prod.snd ++ [op.2]) = _
        rw [InMemoryCommentStore.after_concat, hmemory]
        exact (perform_empty hset .v20 op.1 hop).1
      · show self.after .v20 (renamed ρ ops ++ [(op.1, op.2.rename ρ.map)]) = _
        rw [after_concat, hpg]
        exact (perform_empty hset .v20 op.1 hop').2

theorem forall₂_concat {α β : Type*} {R : α → β → Prop} {as : List α} {bs : List β} {a : α}
    {b : β} : List.Forall₂ R (as ++ [a]) (bs ++ [b]) ↔ List.Forall₂ R as bs ∧ R a b := by
  rw [← List.forall₂_reverse_iff, List.reverse_append, List.reverse_append]
  show List.Forall₂ R (a :: as.reverse) (b :: bs.reverse) ↔ _
  rw [List.forall₂_cons, List.forall₂_reverse_iff, and_comm]

/-- Under a renaming, the stores answer alike exactly when there is nothing to
store. -/
theorem sameReplies_iff (hset : self.setAccepted = true) (ρ : IdRenaming)
    (ops : List (Int × CommentOp)) :
    List.Forall₂ (SameReply ρ) (InMemoryCommentStore.replies (ops.map Prod.snd))
        (self.replies .v20 (renamed ρ ops)) ↔
      ∀ op ∈ ops, op.2.storesNothing = true := by
  induction ops using List.reverseRecOn with
  | nil => exact ⟨fun _ _ h => absurd h List.not_mem_nil, fun _ => .nil⟩
  | append_singleton ops op ih =>
      have hmap : renamed ρ (ops ++ [op]) = renamed ρ ops ++ [(op.1, op.2.rename ρ.map)] := by
        rw [renamed, List.map_append]
        rfl
      rw [hmap, List.map_append, replies_concat]
      show List.Forall₂ _ (InMemoryCommentStore.replies (ops.map Prod.snd ++ [op.2])) _ ↔ _
      rw [InMemoryCommentStore.replies_concat, forall₂_concat, ih]
      simp only [List.mem_append, List.mem_singleton, or_imp, forall_and, forall_eq]
      -- up to here nothing was stored, so both stores are still empty
      apply and_congr_right
      intro hops
      obtain ⟨hmemory, hpg⟩ := after_of_storesNothing hset ρ hops
      rw [hmemory, hpg]
      exact sameReply_empty hset ρ op.1 op.2

/-- **The two stores part at the first comment.**  Where the server takes the
tenant, the PostgreSQL store over the columns of 0005 refines the store in
memory exactly on the runs that add no comment, and mention no text that
PostgreSQL cannot hold. -/
theorem refines_iff (hset : self.setAccepted = true) (ops : List (Int × CommentOp)) :
    self.Refines .v20 ops ↔ ∀ op ∈ ops, op.2.storesNothing = true := by
  constructor
  · rintro ⟨ρ, hreplies⟩
    exact (sameReplies_iff hset ρ ops).mp hreplies
  · intro hops
    exact ⟨.refl, (sameReplies_iff hset .refl ops).mpr hops⟩

/-- A store whose server takes the tenant. -/
def accepting : PgCommentStore := ⟨true, false, fun a b => a ≤ b⟩

/-- A listing and a resolution on empty stores. -/
theorem accepting_refines :
    accepting.Refines .v20 [(0, .listForFile "acme" "main.rs"), (1, .resolve "acme" "c1")] :=
  (refines_iff rfl _).mpr (by decide)

/-- One comment. -/
theorem accepting_not_refines :
    ¬ accepting.Refines .v20 [(0, .add "acme" "main.rs" 3 3 "alice" "rename this" 1)] := by
  rintro ⟨ρ, hreplies⟩
  cases hreplies with
  | cons hreply _ => exact hreply

end PgCommentStore

end AgenticIde
