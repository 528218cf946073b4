/-
AgenticIde/Lib/RowSecurity.lean

Row-level security as PostgreSQL composes it: a row passes a command when some permissive
policy of that command admits it and every restrictive policy of that command admits it.  A
role that bypasses row security is subject to neither.

The default is denial: a command for which no permissive policy exists sees no row at all
(`rowAdmitted_eq_false`), whatever the restrictive ones say.

A policy looks at the session and at one row.  A row that the policies of a `SELECT` do not
admit is not read, without an error; one that those of an `INSERT` do not admit makes the
statement fail.  Tables have no other gate here: rights on tables and constraints come before
and behind.
-/
import Mathlib.Data.List.Basic

namespace AgenticIde

namespace RowSecurity

/-- The commands a policy speaks of here. -/
inductive Command
  | select
  | insert
  deriving DecidableEq

/-- A policy over sessions `σ` and rows `ρ`.  `command = none` is `FOR ALL`;
`admits` is the `USING` expression for a `SELECT` and the `WITH CHECK`
expression for an `INSERT`. -/
structure Policy (σ ρ : Type*) where
  permissive : Bool
  command : Option Command
  admits : Command → σ → ρ → Bool

variable {σ ρ : Type*}

/-- The policy is one of the command's. -/
def Policy.appliesTo (p : Policy σ ρ) (c : Command) : Bool :=
  p.command.all (· == c)

/-- A row passes the policies for a command. -/
def rowAdmitted (ps : List (Policy σ ρ)) (c : Command) (s : σ) (r : ρ) : Bool :=
  ((ps.filter (·.appliesTo c)).filter (·.permissive)).any (·.admits c s r) &&
    ((ps.filter (·.appliesTo c)).filter (!·.permissive)).all (·.admits c s r)

/-- Without a permissive policy for the command, no row passes. -/
theorem rowAdmitted_eq_false {ps : List (Policy σ ρ)} {c : Command}
    (h : ∀ p ∈ ps, p.appliesTo c = true → p.permissive = false) (s : σ) (r : ρ) :
    rowAdmitted ps c s r = false := by
  have hnone : (ps.filter (·.appliesTo c)).filter (·.permissive) = [] := by
    rw [List.filter_eq_nil_iff]
    intro p hp
    rw [List.mem_filter] at hp
    simp [h p hp.1 hp.2]
  simp [rowAdmitted, hnone]

/-- The rows of a table a role reads. -/
def visibleRows (ps : List (Policy σ ρ)) (bypass : Bool) (s : σ) (rows : List ρ) : List ρ :=
  if bypass then rows else rows.filter (rowAdmitted ps .select s)

@[simp] theorem visibleRows_bypass (ps : List (Policy σ ρ)) (s : σ) (rows : List ρ) :
    visibleRows ps true s rows = rows := rfl

theorem visibleRows_eq_nil {ps : List (Policy σ ρ)}
    (h : ∀ p ∈ ps, p.appliesTo .select = true → p.permissive = false) (s : σ) (rows : List ρ) :
    visibleRows ps false s rows = [] := by
  simp [visibleRows, rowAdmitted_eq_false h]

/-- The role may insert the row. -/
def insertAdmitted (ps : List (Policy σ ρ)) (bypass : Bool) (s : σ) (r : ρ) : Bool :=
  bypass || rowAdmitted ps .insert s r

end RowSecurity

end AgenticIde
