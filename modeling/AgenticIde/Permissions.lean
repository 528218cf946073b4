/-
AgenticIde/Permissions.lean

The six-bit permission mask (`permissions.rs`).  A `PermissionSet` is the raw `u32` the code
stores; `require` is the authority every action boundary calls.

A right is one bit of the mask, and holding it is a test of that bit, so bits beyond the six
stand for nothing.  `fromMask` takes them away, and a mask that came in through it has none;
a set that was built otherwise keeps them, and shows them in the text of its errors.

Nothing here knows who holds a mask or what a right is good for: that is `Principal`.
-/
import Mathlib.Data.List.Basic

namespace AgenticIde

/-- The six capability bits. -/
inductive Permission
  | read
  | generate
  | modify
  | execute
  | commit
  | audit
  deriving DecidableEq, Repr

namespace Permission

/-- All six permissions in canonical bit order. -/
def all : List Permission := [read, generate, modify, execute, commit, audit]

/-- The raw bit value (`#[repr(u8)]`, `1 << 0` to `1 << 5`). -/
def bit : Permission → UInt8
  | read => 1
  | generate => 2
  | modify => 4
  | execute => 8
  | commit => 16
  | audit => 32

/-- Human-readable label; also what `{:?}` prints. -/
def label : Permission → String
  | read => "Read"
  | generate => "Generate"
  | modify => "Modify"
  | execute => "Execute"
  | commit => "Commit"
  | audit => "Audit"

end Permission

/-- A permission set, stored as a bitmask. -/
structure PermissionSet where
  mask : UInt32
  deriving DecidableEq, Repr

namespace PermissionSet

/-- No grants. -/
def empty : PermissionSet := ⟨0⟩

/-- Grant a permission. -/
def grant (s : PermissionSet) (p : Permission) : PermissionSet := ⟨s.mask ||| p.bit.toUInt32⟩

/-- Revoke a permission. -/
def revoke (s : PermissionSet) (p : Permission) : PermissionSet :=
  ⟨s.mask &&& ~~~ p.bit.toUInt32⟩

/-- Full set: the six bits or-ed together, in canonical order. -/
def all : PermissionSet := Permission.all.foldl grant empty

/-- Whether `p` is granted. -/
def has (s : PermissionSet) (p : Permission) : Bool := s.mask &&& p.bit.toUInt32 != 0

/-- Build from a raw mask, clamped to the six-bit domain. -/
def fromMask (mask : UInt32) : PermissionSet := ⟨mask &&& 0b111111⟩

end PermissionSet

/-- The error of a missing permission. -/
structure PermissionDenied where
  required : Permission
  mask : UInt32
  deriving DecidableEq, Repr

/-- The `Display` text of the error. -/
def PermissionDenied.toString (e : PermissionDenied) : String :=
  s!"permission denied: required {e.required.label} but mask is {e.mask}"

/-- Check that `set` grants `required`; otherwise fail fast. -/
def require (set : PermissionSet) (required : Permission) : Except PermissionDenied Unit :=
  if set.has required then .ok () else .error ⟨required, set.mask⟩

end AgenticIde
