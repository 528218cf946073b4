/-
AgenticIde/PermSql.lean

The permission algebra in SQL (`perm_has`, `perm_grant` and `perm_revoke` of
`0001_init.sql`), run beside the one of `permissions.rs` on the same operations.

The SQL functions take the position of a bit and shift a one to it.
`AuditAction::perm_bit`, the number kept in the audit table, is not the position of the bit
of an action but its value, so the shifted word is another one.  The two sides go together
exactly where the words do not tell on the mask (`sqlRun_eq_iff`).

`shl` is the shift of the server, `1 << bitpos` on `int4`.  It is one bit for a position of
the word; what it is for the position 32, where the auditing bit goes, is left open.

A mask is any word of 32 bits, and in SQL it has to be one of the domain, from 0 to 63, both
before and after an operation; a value outside is an error, which ends the run.  So a run
that goes together is also one in which no word leaves the domain.  `Fits` says it of one
operation, in terms of the bits in which the two words differ: granting needs them all in
the mask, revoking needs none of them, and asking needs both words to be met or neither.

For the five actions below the auditing bit these are two bits of the mask, that of the
action and the one at the position that is its value (`fits_iff_bits`).
-/
import AgenticIde.Principal
import Mathlib.Algebra.Group.Nat.Defs
import Mathlib.Tactic.Common

namespace AgenticIde

variable (shl : Int → BitVec 32)

/-! ### The SQL functions -/

/-- A value of the domain `perm_mask`, or an error. -/
def permMask (value : BitVec 32) : Option (BitVec 32) :=
  if 0 ≤ value.toInt ∧ value.toInt ≤ 63 then some value else none

def permHas (mask : BitVec 32) (bitpos : Int) : Option Bool := do
  let mask ← permMask mask
  return mask &&& shl bitpos != 0#32

def permGrant (mask : BitVec 32) (bitpos : Int) : Option (BitVec 32) := do
  let mask ← permMask mask
  permMask (mask ||| shl bitpos)

def permRevoke (mask : BitVec 32) (bitpos : Int) : Option (BitVec 32) := do
  let mask ← permMask mask
  permMask (mask &&& ~~~ shl bitpos)

/-! ### Both sides -/

/-- An operation on a mask. -/
inductive PermOp
  | grant (action : AuditAction)
  | revoke (action : AuditAction)
  | has (action : AuditAction)
  deriving DecidableEq

/-- With a `PermissionSet`: the set after it, and the answer. -/
def PermOp.rust (s : PermissionSet) : PermOp → PermissionSet × Option Bool
  | .grant action => (s.grant action.requiredPermission, none)
  | .revoke action => (s.revoke action.requiredPermission, none)
  | .has action => (s, some (s.has action.requiredPermission))

/-- In SQL, with the number of the audit table. -/
def PermOp.sql (mask : BitVec 32) : PermOp → Option (BitVec 32 × Option Bool)
  | .grant action => (permGrant shl mask action.permBit).map (·, none)
  | .revoke action => (permRevoke shl mask action.permBit).map (·, none)
  | .has action => (permHas shl mask action.permBit).map (mask, some ·)

/-- The masks and answers of a run. -/
def rustRun : PermissionSet → List PermOp → List (BitVec 32 × Option Bool)
  | _, [] => []
  | s, op :: ops =>
      ((op.rust s).1.mask.toBitVec, (op.rust s).2) :: rustRun (op.rust s).1 ops

/-- The same in SQL; an error ends it. -/
def sqlRun : BitVec 32 → List PermOp → List (Option (BitVec 32 × Option Bool))
  | _, [] => []
  | mask, op :: ops =>
      match op.sql shl mask with
      | none => [none]
      | some (mask, answer) => some (mask, answer) :: sqlRun mask ops

/-! ### Where they go together -/

/-- The word of an action in the code. -/
def AuditAction.word (action : AuditAction) : BitVec 32 :=
  action.requiredPermission.bit.toUInt32.toBitVec

/-- The bits in which it differs from the word SQL shifts. -/
def AuditAction.off (action : AuditAction) : BitVec 32 := action.word ^^^ shl action.permBit

/-- The two words do not tell on a mask: granting, it has all the bits they differ in;
revoking, it has none; asked, it has a bit of both words or of neither. -/
def PermOp.Fits (mask : BitVec 32) : PermOp → Prop
  | .grant action => mask &&& action.off shl = action.off shl
  | .revoke action => mask &&& action.off shl = 0#32
  | .has action => mask &&& action.word = 0#32 ↔ mask &&& shl action.permBit = 0#32

/-- They tell on none of the masks of a run. -/
def FitsRun : PermissionSet → List PermOp → Prop
  | _, [] => True
  | s, op :: ops => op.Fits shl s.mask.toBitVec ∧ FitsRun (op.rust s).1 ops

/-! ### Masks -/

theorem permMask_of_lt {value : BitVec 32} (h : value.toNat < 64) :
    permMask value = some value := by
  have hint : value.toInt = value.toNat := BitVec.toInt_eq_toNat_of_lt (by omega)
  rw [permMask, if_pos (by omega)]

/-- Equations of words that say the same bit by bit. -/
theorem eq_iff_of_bits {x y x' y' : BitVec 32}
    (h : ∀ (i : Nat) (hi : i < 32), x[i] = y[i] ↔ x'[i] = y'[i]) : x = y ↔ x' = y' := by
  constructor
  · intro heq
    ext i hi
    exact (h i hi).mp (congrArg (·[i]) heq)
  · intro heq
    ext i hi
    exact (h i hi).mpr (congrArg (·[i]) heq)

theorem or_eq_or_iff (mask x y : BitVec 32) :
    mask ||| y = mask ||| x ↔ mask &&& (x ^^^ y) = x ^^^ y := by
  refine eq_iff_of_bits fun i hi => ?_
  simp only [BitVec.getElem_or, BitVec.getElem_and, BitVec.getElem_xor]
  cases mask[i] <;> cases x[i] <;> cases y[i] <;> decide

theorem and_not_eq_and_not_iff (mask x y : BitVec 32) :
    mask &&& ~~~ y = mask &&& ~~~ x ↔ mask &&& (x ^^^ y) = 0#32 := by
  refine eq_iff_of_bits fun i hi => ?_
  simp only [BitVec.getElem_not, BitVec.getElem_and, BitVec.getElem_xor, BitVec.getElem_zero]
  cases mask[i] <;> cases x[i] <;> cases y[i] <;> decide

theorem word_lt (action : AuditAction) : action.word.toNat < 64 := by
  cases action <;> decide

theorem and_lt {mask : BitVec 32} (h : mask.toNat < 64) (word : BitVec 32) :
    (mask &&& word).toNat < 64 := by
  rw [BitVec.toNat_and]
  exact lt_of_le_of_lt Nat.and_le_left h

theorem or_lt {mask word : BitVec 32} (h : mask.toNat < 64) (hword : word.toNat < 64) :
    (mask ||| word).toNat < 64 := by
  rw [BitVec.toNat_or]
  exact Nat.or_lt_two_pow (n := 6) h hword

/-! ### Runs -/

/-- The mask of the code stays in the domain. -/
theorem rust_lt {s : PermissionSet} (h : s.mask.toBitVec.toNat < 64) (op : PermOp) :
    (op.rust s).1.mask.toBitVec.toNat < 64 := by
  rcases op with action | action | action
  · exact or_lt h (word_lt action)
  · exact and_lt h _
  · exact h

/-- The cast of what SQL computes gives what the code has where it is the same. -/
theorem permMask_eq_some_iff {value expected : BitVec 32} (h : expected.toNat < 64) :
    permMask value = some expected ↔ value = expected := by
  constructor
  · intro hcast
    rw [permMask] at hcast
    split at hcast
    · exact Option.some.inj hcast
    · cases hcast
  · rintro rfl
    exact permMask_of_lt h

/-- **One operation** gives the same on both sides exactly where the words do not
tell.  For a mask of the domain only, since on others the database has an error to
report. -/
theorem sql_eq_some_iff {s : PermissionSet} (h : s.mask.toBitVec.toNat < 64) (op : PermOp) :
    op.sql shl s.mask.toBitVec = some ((op.rust s).1.mask.toBitVec, (op.rust s).2) ↔
      op.Fits shl s.mask.toBitVec := by
  rcases op with action | action | action
  · -- the mask passes the cast of the argument, what is left is that of the result
    have hgrant : permGrant shl s.mask.toBitVec action.permBit =
        permMask (s.mask.toBitVec ||| shl action.permBit) := by
      rw [permGrant, permMask_of_lt h]
      rfl
    have hrust : ((PermOp.grant action).rust s).1.mask.toBitVec =
        s.mask.toBitVec ||| action.word := rfl
    rw [PermOp.sql, hgrant, hrust, PermOp.Fits, AuditAction.off, ← or_eq_or_iff,
      ← permMask_eq_some_iff (or_lt h (word_lt action))]
    simp [PermOp.rust]
  · have hrevoke : permRevoke shl s.mask.toBitVec action.permBit =
        permMask (s.mask.toBitVec &&& ~~~ shl action.permBit) := by
      rw [permRevoke, permMask_of_lt h]
      rfl
    have hrust : ((PermOp.revoke action).rust s).1.mask.toBitVec =
        s.mask.toBitVec &&& ~~~ action.word := rfl
    rw [PermOp.sql, hrevoke, hrust, PermOp.Fits, AuditAction.off, ← and_not_eq_and_not_iff,
      ← permMask_eq_some_iff (and_lt h _)]
    simp [PermOp.rust]
  · have hhas : permHas shl s.mask.toBitVec action.permBit =
        some (s.mask.toBitVec &&& shl action.permBit != 0) := by
      rw [permHas, permMask_of_lt h]
      rfl
    have hrust : s.has action.requiredPermission =
        (s.mask.toBitVec &&& action.word != 0#32) := by
      rw [PermissionSet.has, Bool.eq_iff_iff, bne_iff_ne, bne_iff_ne, Ne, ← UInt32.toBitVec_inj]
      rfl
    rw [PermOp.sql, hhas, PermOp.Fits]
    simp only [PermOp.rust, hrust, Option.map_some, Option.some.injEq, Prod.mk.injEq, true_and]
    rw [Bool.eq_iff_iff, bne_iff_ne, bne_iff_ne, not_iff_not]
    exact Iff.comm

/-- The same of a run, from any mask of the domain. -/
theorem sqlRun_eq_map_iff {s : PermissionSet} (h : s.mask.toBitVec.toNat < 64)
    (ops : List PermOp) :
    sqlRun shl s.mask.toBitVec ops = (rustRun s ops).map some ↔ FitsRun shl s ops := by
  induction ops generalizing s with
  | nil => exact iff_of_true rfl trivial
  | cons op ops ih =>
      rw [FitsRun, ← sql_eq_some_iff shl h op, ← ih (rust_lt h op)]
      rcases hsql : op.sql shl s.mask.toBitVec with - | ⟨mask, answer⟩
      · simp [sqlRun, rustRun, hsql]
      · simp only [sqlRun, rustRun, hsql, List.map_cons, List.cons.injEq]
        refine and_congr_right fun heq => ?_
        obtain ⟨rfl, rfl⟩ := Prod.mk.inj (Option.some.inj heq)
        rfl

/-- **The two algebras coincide**, with no error of the domain and at every step,
exactly where the words tell on none of the masks.  At the first step at which they
do, the masks or the answers are different. -/
theorem sqlRun_eq_iff {mask : UInt32} (h : mask.toNat ≤ 63) (ops : List PermOp) :
    sqlRun shl mask.toBitVec ops = (rustRun ⟨mask⟩ ops).map some ↔ FitsRun shl ⟨mask⟩ ops :=
  sqlRun_eq_map_iff shl (Nat.lt_succ_of_le h) ops

/-- A server whose machine takes the count of a shift modulo the size of the word. -/
def wordShift (bitpos : Int) : BitVec 32 := BitVec.twoPow 32 (bitpos.toNat % 32)

/-- Both read the bits of reading and generating, which are set. -/
theorem sqlRun_eq_iff_granted :
    sqlRun wordShift (UInt32.toBitVec 3) [.has .read] =
        (rustRun ⟨3⟩ [.has .read]).map some ↔
      FitsRun wordShift ⟨3⟩ [.has .read] :=
  @sqlRun_eq_iff wordShift 3 (by decide) [.has .read]

/-- Granting the right to read grants the right to generate in SQL. -/
theorem sqlRun_ne_grant_read :
    sqlRun wordShift (UInt32.toBitVec 0) [.grant .read] ≠
      (rustRun ⟨0⟩ [.grant .read]).map some := by
  decide

/-! ### The two bits -/

/-- The position of the bit of an action. -/
def AuditAction.position : AuditAction → Nat
  | read => 0
  | generate => 1
  | modify => 2
  | execute => 3
  | commit => 4
  | audit => 5

theorem word_eq_twoPow (action : AuditAction) :
    action.word = BitVec.twoPow 32 action.position := by
  cases action <;> decide

theorem permBit_eq (action : AuditAction) : action.permBit = (2 ^ action.position : Nat) := by
  cases action <;> rfl

/-- A mask has all the bits of a word. -/
theorem and_eq_self_iff (mask word : BitVec 32) :
    mask &&& word = word ↔ ∀ (k : Nat) (hk : k < 32), word[k] = true → mask[k] = true := by
  constructor
  · intro h k hk hword
    have hbit : (mask &&& word)[k] = word[k] := congrArg (·[k]) h
    rw [BitVec.getElem_and, hword, Bool.and_true] at hbit
    exact hbit
  · intro h
    ext k hk
    rw [BitVec.getElem_and]
    cases hword : word[k] with
    | false => exact Bool.and_false _
    | true => rw [h k hk hword, Bool.and_true]

/-- It has none of them. -/
theorem and_eq_zero_iff (mask word : BitVec 32) :
    mask &&& word = 0#32 ↔ ∀ (k : Nat) (hk : k < 32), word[k] = true → mask[k] = false := by
  constructor
  · intro h k hk hword
    have hbit : (mask &&& word)[k] = (0#32)[k] := congrArg (·[k]) h
    rw [BitVec.getElem_and, hword, Bool.and_true, BitVec.getElem_zero] at hbit
    exact hbit
  · intro h
    ext k hk
    rw [BitVec.getElem_and, BitVec.getElem_zero]
    cases hword : word[k] with
    | false => exact Bool.and_false _
    | true => rw [h k hk hword, Bool.false_and]

/-- Two words of one bit each differ in these bits. -/
theorem forall_off_iff {i j : Nat} (hi : i < 32) (hj : j < 32) (hne : i ≠ j)
    (p : (k : Nat) → k < 32 → Prop) :
    (∀ (k : Nat) (hk : k < 32),
      (BitVec.twoPow 32 i ^^^ BitVec.twoPow 32 j)[k] = true → p k hk) ↔ p i hi ∧ p j hj := by
  have hoff : ∀ (k : Nat) (hk : k < 32),
      (BitVec.twoPow 32 i ^^^ BitVec.twoPow 32 j)[k] = (decide (k = i) ^^ decide (k = j)) := by
    intro k hk
    rw [BitVec.getElem_xor, BitVec.getElem_twoPow, BitVec.getElem_twoPow]
  -- The exclusive or of two words of one bit has these two bits and no others.
  constructor
  · intro h
    refine ⟨h i hi ?_, h j hj ?_⟩
    · rw [hoff, decide_eq_true rfl, decide_eq_false hne]
      rfl
    · rw [hoff, decide_eq_true rfl, decide_eq_false (Ne.symm hne)]
      rfl
  · rintro ⟨hpi, hpj⟩ k hk hbit
    rw [hoff] at hbit
    by_cases hki : k = i
    · subst hki
      exact hpi
    · by_cases hkj : k = j
      · subst hkj
        exact hpj
      · rw [decide_eq_false hki, decide_eq_false hkj] at hbit
        cases hbit

theorem and_twoPow_eq_zero_iff (mask : BitVec 32) {i : Nat} (hi : i < 32) :
    mask &&& BitVec.twoPow 32 i = 0#32 ↔ mask.getLsbD i = false := by
  rw [BitVec.and_twoPow]
  have hpow : BitVec.twoPow 32 i ≠ 0#32 := by
    intro h
    have hbit := congrArg (·[i]) h
    simp only [BitVec.getElem_twoPow, BitVec.getElem_zero, decide_true] at hbit
    cases hbit
  cases mask.getLsbD i with
  | false => simp
  | true => simp [hpow]

/-- **Below the auditing bit** the condition is about the bit of the action and the bit at
the position that is its value, which only a mask out of the domain has from `Execute` on. -/
theorem fits_iff_bits (hshl : ∀ n : Nat, n < 32 → shl n = BitVec.twoPow 32 n)
    {action : AuditAction} (haction : action.position < 5) (mask : BitVec 32) :
    (PermOp.Fits shl mask (.grant action) ↔ mask.getLsbD action.position = true ∧
        mask.getLsbD (2 ^ action.position) = true) ∧
      (PermOp.Fits shl mask (.revoke action) ↔ mask.getLsbD action.position = false ∧
        mask.getLsbD (2 ^ action.position) = false) ∧
      (PermOp.Fits shl mask (.has action) ↔
        mask.getLsbD action.position = mask.getLsbD (2 ^ action.position)) := by
  -- Below the auditing bit the shift stays within the word, so it is one bit.
  have hposition : 2 ^ action.position < 32 :=
    lt_of_lt_of_le (Nat.pow_lt_pow_right (by decide) haction) (le_of_eq rfl)
  have hoff : action.off shl =
      BitVec.twoPow 32 action.position ^^^ BitVec.twoPow 32 (2 ^ action.position) := by
    rw [AuditAction.off, word_eq_twoPow, permBit_eq, hshl _ hposition]
  have hne : action.position ≠ 2 ^ action.position := Nat.ne_of_lt Nat.lt_two_pow_self
  have hlt : action.position < 32 := by omega
  refine ⟨?_, ?_, ?_⟩
  · rw [PermOp.Fits, hoff, and_eq_self_iff]
    exact forall_off_iff hlt hposition hne fun k hk => mask[k] = true
  · rw [PermOp.Fits, hoff, and_eq_zero_iff]
    exact forall_off_iff hlt hposition hne fun k hk => mask[k] = false
  · rw [PermOp.Fits, word_eq_twoPow, permBit_eq, hshl _ hposition,
      and_twoPow_eq_zero_iff mask hlt, and_twoPow_eq_zero_iff mask hposition]
    cases mask.getLsbD action.position <;> cases mask.getLsbD (2 ^ action.position) <;> simp

end AgenticIde
