/-
AgenticIde/Collab.lean

Code-review comments (`collab.rs`): annotations on the lines of a file, each owned by a tenant,
and the store that keeps them in memory.

The store numbers the comments of all tenants with one counter, and lists the comments of a
file unresolved first, then by line, then by id.  Ids are texts and are compared as texts, so
the tenth comment sorts before the ninth.

An operation names its tenant, and a comment is found by tenant and id together; so ids need
not be secret, and those of other tenants are not accepted.  They are not without a trace,
though: the numbers a tenant gets tell of the comments of the others (`CommentTenants`,
`CommentIds`).

`perform` takes one operation and answers it, so that a store in memory and one in a database
can be run side by side (`CommentStores`).
-/
import Mathlib.Data.List.Induction
import Mathlib.Data.Prod.Lex
import Mathlib.Data.String.Basic

namespace AgenticIde

/-- A code-review comment on a range of lines; the id is empty until a store
assigns one. -/
structure Comment where
  id : String
  tenantId : String
  file : String
  lineStart : Nat
  lineEnd : Nat
  author : String
  body : String
  resolved : Bool
  createdAt : Int
  deriving DecidableEq

namespace Comment

/-- Build a new comment; `now` is the system time in milliseconds since the
epoch. -/
def new (tenantId file : String) (lineStart lineEnd : Nat) (author body : String) (now : Int) :
    Comment where
  id := ""
  tenantId := tenantId
  file := file
  lineStart := lineStart
  lineEnd := lineEnd
  author := author
  body := body
  resolved := false
  -- a time before the epoch is an error, which counts as zero
  createdAt := max now 0

/-- What comments are listed by: resolved, then the line, then the id. -/
def sortKey (c : Comment) : Bool ×ₗ Nat ×ₗ String := toLex (c.resolved, toLex (c.lineStart, c.id))

/-- The order of a listing. -/
def le (a b : Comment) : Bool := a.sortKey ≤ b.sortKey

theorem le_iff {a b : Comment} :
    a.le b = true ↔ a.resolved < b.resolved ∨ a.resolved = b.resolved ∧
      (a.lineStart < b.lineStart ∨ a.lineStart = b.lineStart ∧ a.id ≤ b.id) := by
  rw [le, decide_eq_true_eq, sortKey, sortKey, Prod.Lex.toLex_le_toLex,
    Prod.Lex.toLex_le_toLex]

theorem le_trans (a b c : Comment) (hab : a.le b = true) (hbc : b.le c = true) : a.le c = true := by
  simp only [le, decide_eq_true_eq] at *
  exact hab.trans hbc

theorem le_total (a b : Comment) : (a.le b || b.le a) = true := by
  simp only [le, Bool.or_eq_true, decide_eq_true_eq]
  exact LinearOrder.le_total a.sortKey b.sortKey

/-- Comments that are listed alike have the same id. -/
theorem id_eq_of_le_of_le {a b : Comment} (hab : a.le b = true) (hba : b.le a = true) :
    a.id = b.id := by
  simp only [le, decide_eq_true_eq] at *
  have hkey : a.sortKey = b.sortKey := le_antisymm hab hba
  exact congrArg (fun k => (ofLex (ofLex k).2).2) hkey

end Comment

/-! ### The store in memory -/

/-- `InMemoryCommentStore`: the comments in the order they were added, and how
many were numbered. -/
structure InMemoryCommentStore where
  comments : List Comment
  counter : Nat
  deriving DecidableEq

namespace InMemoryCommentStore

/-- Empty store. -/
def new : InMemoryCommentStore := ⟨[], 0⟩

/-- Add a comment, under the next number unless it has an id. -/
def add (self : InMemoryCommentStore) (comment : Comment) : String × InMemoryCommentStore :=
  let (id, counter) :=
    if comment.id = "" then (s!"c{self.counter + 1}", self.counter + 1)
    else (comment.id, self.counter)
  (id, ⟨self.comments ++ [{ comment with id := id }], counter⟩)

/-- The comments of a tenant on a file, in the order of a listing. -/
def listForFile (self : InMemoryCommentStore) (tenantId file : String) : List Comment :=
  (self.comments.filter fun c => c.tenantId = tenantId ∧ c.file = file).mergeSort Comment.le

/-- Mark the first comment of the tenant under the id as resolved. -/
def resolveIn (tenantId id : String) : List Comment → Bool × List Comment
  | [] => (false, [])
  | c :: cs =>
      if c.tenantId = tenantId ∧ c.id = id then (true, { c with resolved := true } :: cs)
      else ((resolveIn tenantId id cs).1, c :: (resolveIn tenantId id cs).2)

/-- Mark a comment as resolved for a tenant; whether there is one. -/
def resolve (self : InMemoryCommentStore) (tenantId id : String) : Bool × InMemoryCommentStore :=
  let (found, comments) := resolveIn tenantId id self.comments
  (found, { self with comments := comments })

end InMemoryCommentStore

/-! ### Operations -/

/-- An operation on a comment store.  A comment is added as `Comment.new`
builds it, so without an id. -/
inductive CommentOp
  | add (tenantId file : String) (lineStart lineEnd : Nat) (author body : String) (now : Int)
  | resolve (tenantId id : String)
  | listForFile (tenantId file : String)
  deriving DecidableEq

/-- What an operation answers. -/
inductive CommentReply
  | added (id : String)
  | resolved (found : Bool)
  | listed (comments : List Comment)
  deriving DecidableEq

/-- The tenant an operation acts for. -/
def CommentOp.tenantId : CommentOp → String
  | add tenantId _ _ _ _ _ _ => tenantId
  | resolve tenantId _ => tenantId
  | listForFile tenantId _ => tenantId

namespace InMemoryCommentStore

/-- Perform an operation. -/
def perform (self : InMemoryCommentStore) : CommentOp → CommentReply × InMemoryCommentStore
  | .add tenantId file lineStart lineEnd author body now =>
      let (id, self) := self.add (.new tenantId file lineStart lineEnd author body now)
      (.added id, self)
  | .resolve tenantId id =>
      let (found, self) := self.resolve tenantId id
      (.resolved found, self)
  | .listForFile tenantId file => (.listed (self.listForFile tenantId file), self)

end InMemoryCommentStore

end AgenticIde
