/-
AgenticIde/Principal.lean

The security identity and the six-right action model (`principal.rs`): which permission governs
a tool name, and the runtime check at the action boundary.

A tool name is looked up without regard to its case.  A name that is not in the table needs no
right, and is neither checked nor recorded; the table is that of the source, and says nothing
of the tools there are (`QuestEngineering` is about the difference).

An audited action is named for the right that governs it, and the two correspond one to one.
The number of an action in the audit table is the word of its right, one of six powers of two.
-/
import AgenticIde.Lib.Str
import AgenticIde.Permissions

namespace AgenticIde

/-- A security principal threaded through the call chain. -/
structure Principal where
  tenantId : String
  userId : String
  perms : PermissionSet
  deriving DecidableEq, Repr

namespace Principal

/-- All six rights. -/
def all (tenantId userId : String) : Principal := ⟨tenantId, userId, PermissionSet.all⟩

/-- Build from a raw mask, clamped to the six-bit domain. -/
def fromMask (tenantId userId : String) (mask : UInt32) : Principal :=
  ⟨tenantId, userId, ⟨mask &&& 0b111111⟩⟩

/-- The raw six-bit mask. -/
def permMask (self : Principal) : UInt32 := self.perms.mask &&& 0b111111

/-- The principal holds `p`. -/
def holds (principal : Principal) (p : Permission) : Bool := principal.perms.has p

end Principal

/-- The six audited actions, one for each permission. -/
inductive AuditAction
  | read
  | generate
  | modify
  | execute
  | commit
  | audit
  deriving DecidableEq, Repr

namespace AuditAction

/-- The permission that governs performing the action. -/
def requiredPermission : AuditAction → Permission
  | read => .read
  | generate => .generate
  | modify => .modify
  | execute => .execute
  | commit => .commit
  | audit => .audit

/-- The `audit.action` column. -/
def asStr : AuditAction → String
  | read => "read"
  | generate => "generate"
  | modify => "modify"
  | execute => "execute"
  | commit => "commit"
  | audit => "audit"

/-- The `perm_bit` integer stored in the `audit` table. -/
def permBit (a : AuditAction) : Int := a.requiredPermission.bit.toNat

/-- The action a permission governs. -/
def fromPermission : Permission → AuditAction
  | .read => read
  | .generate => generate
  | .modify => modify
  | .execute => execute
  | .commit => commit
  | .audit => audit

@[simp] theorem requiredPermission_fromPermission (p : Permission) :
    (fromPermission p).requiredPermission = p := by
  cases p <;> rfl

@[simp] theorem fromPermission_requiredPermission (a : AuditAction) :
    fromPermission a.requiredPermission = a := by
  cases a <;> rfl

/-- Different permissions govern different actions. -/
theorem fromPermission_injective : Function.Injective fromPermission :=
  Function.LeftInverse.injective requiredPermission_fromPermission

end AuditAction

/-- Map a tool name to the permission that governs it; `none` for the names
that need no capability check. -/
def actionPermission (tool : String) : Option Permission :=
  match Str.toAsciiLowercase tool with
  | "read" | "read_document" | "readfile" | "read_file" => some .read
  | "generate" | "chat" | "complete" | "nes" | "ghost" | "draft" => some .generate
  | "modify" | "edit" | "write" | "apply" | "apply_edit" => some .modify
  | "execute" | "run" | "shell" | "command" | "exec" => some .execute
  | "commit" => some .commit
  | _ => none

/-- Enforce that `principal` holds `required`. -/
def checkPermission (principal : Principal) (required : Permission) :
    Except PermissionDenied Unit :=
  require principal.perms required

theorem checkPermission_of_holds {principal : Principal} {required : Permission}
    (h : principal.holds required = true) : checkPermission principal required = .ok () := by
  simp only [checkPermission, require]
  exact if_pos h

theorem checkPermission_of_not_holds {principal : Principal} {required : Permission}
    (h : principal.holds required = false) :
    checkPermission principal required = .error ⟨required, principal.perms.mask⟩ := by
  simp only [checkPermission, require]
  exact if_neg (by simpa [Principal.holds] using h)

/-- The principal may perform what the tool name stands for: the name is not
privileged, or the governing bit is held. -/
def Principal.mayRun (principal : Principal) (tool : String) : Bool :=
  (actionPermission tool).all principal.holds

theorem Principal.mayRun_of_none {principal : Principal} {tool : String}
    (h : actionPermission tool = none) : principal.mayRun tool = true := by
  simp [mayRun, h]

@[simp] theorem Principal.mayRun_of_some {principal : Principal} {tool : String} {p : Permission}
    (h : actionPermission tool = some p) : principal.mayRun tool = principal.holds p := by
  simp [mayRun, h]

end AgenticIde
