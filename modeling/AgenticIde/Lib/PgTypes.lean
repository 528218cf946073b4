/-
AgenticIde/Lib/PgTypes.lean

The types of a PostgreSQL driver: a value of the program is bound to a parameter, or read from
a column, only when its type is the one the driver converts that PostgreSQL type to and from.
There is no widening: a 64-bit integer is not bound to a 32-bit column, whatever its value.

The types of a statement are checked one after the other, before anything reaches the server,
so a statement that is ill typed fails every time it is executed (`checkTypes_eq_ok`).

Reading is checked value by value instead, when a row is taken apart.  The statement has been
executed by then, and with no row to take apart nothing fails.  The casts of the program
between its own integers wrap around, and are beside the types.
-/
import Mathlib.Data.List.Basic

namespace AgenticIde

namespace Pg

/-- The PostgreSQL types of a schema. -/
inductive ColumnType
  | bigint
  | integer
  | text
  | boolean
  deriving DecidableEq

/-- The types of the program that are bound and read. -/
inductive RustType
  | i64
  | i32
  | string
  | bool
  deriving DecidableEq

/-- The PostgreSQL type a type is converted to and from. -/
def RustType.column : RustType → ColumnType
  | i64 => .bigint
  | i32 => .integer
  | string => .text
  | bool => .boolean

/-- An ill-typed statement: the first value whose type is not the one of its
column. -/
structure WrongType where
  index : Nat
  rust : RustType
  column : ColumnType
  deriving DecidableEq

/-- Check the values of a statement against the columns they belong to. -/
def checkTypesFrom (index : Nat) : List (RustType × ColumnType) → Except WrongType Unit
  | [] => .ok ()
  | (rust, column) :: rest =>
      if rust.column = column then checkTypesFrom (index + 1) rest
      else .error ⟨index, rust, column⟩

/-- Check the values of a statement, the first one being number zero. -/
def checkTypes (types : List (RustType × ColumnType)) : Except WrongType Unit :=
  checkTypesFrom 0 types

theorem checkTypesFrom_eq_ok {index : Nat} {types : List (RustType × ColumnType)} :
    checkTypesFrom index types = .ok () ↔ ∀ t ∈ types, t.1.column = t.2 := by
  induction types generalizing index with
  | nil => simp [checkTypesFrom]
  | cons t types ih =>
      obtain ⟨rust, column⟩ := t
      unfold checkTypesFrom
      by_cases h : rust.column = column
      · rw [if_pos h, ih, List.forall_mem_cons]
        exact (and_iff_right h).symm
      · rw [if_neg h, List.forall_mem_cons]
        constructor
        · intro hok
          cases hok
        · intro hall
          exact absurd hall.1 h

/-- **A statement is well typed** when every value has the type of its column.  The
first that has not is the error, so nothing is said of the others then. -/
theorem checkTypes_eq_ok {types : List (RustType × ColumnType)} :
    checkTypes types = .ok () ↔ ∀ t ∈ types, t.1.column = t.2 :=
  checkTypesFrom_eq_ok

/-- `n as i64` of a `usize`. -/
def asI64 (n : Nat) : Int := (n : Int).bmod UInt64.size

/-- `i as usize` of an `i64`. -/
def asUsize (i : Int) : Nat := (i % (UInt64.size : Int)).toNat

theorem toNat_bmod_emod {n m : Nat} (h : n < m) : ((n : Int).bmod m % m).toNat = n := by
  rw [Int.bmod_emod, Int.emod_eq_of_lt (Int.natCast_nonneg n) (by exact_mod_cast h),
    Int.toNat_natCast]

/-- The casts keep the 64 bits. -/
theorem asUsize_asI64 {n : Nat} (h : n < UInt64.size) : asUsize (asI64 n) = n :=
  toNat_bmod_emod h

end Pg

end AgenticIde
