/-
AgenticIde/LockStore.lean

The lock store (`collab.rs`), and the map it is meant to be.

The store in memory keeps its locks under one text, the tenant and the file joined by a NUL
character.  `held` is the map over pairs of a tenant and a file: what the operations on
exactly the pair leave.  Two pairs can have the same key, but not where one of them is
without NUL (`key_inj`), so the store is the map over a run exactly where no lock with a NUL
in its tenant or file is acquired in it (`pairKeyed_iff`).

An acquisition puts a lock in the place of the one that is there, whoever holds it, and a
release takes away the one that is there: the store says who holds a file, and stops nobody.
So both operations do to a key what they do to a pair, and the store and the map can only
differ by which pairs have one key.

Asking for a pair with a NUL is harmless as long as nothing was stored under such a key; what
counts is an acquisition.  Where one is made, there is another pair with the same key, which
then seems to be locked although nobody has acquired it (`exists_key_eq`).
-/
import AgenticIde.Lib.Str
import Mathlib.Data.List.Induction
import Mathlib.Logic.Function.Basic

namespace AgenticIde

open Str

/-- "Someone is editing this file". -/
structure Lock where
  tenantId : String
  file : String
  owner : String
  acquiredAt : Int
  deriving DecidableEq

/-- A lock held by `owner` on `file`, at the time `now`. -/
def Lock.new (tenantId file owner : String) (now : Int) : Lock := ⟨tenantId, file, owner, now⟩

/-- An operation on a lock store. -/
inductive LockOp
  | acquire (lock : Lock)
  | release (tenantId file : String)
  | get (tenantId file : String)
  deriving DecidableEq

/-! ### The store in memory -/

/-- `InMemoryLockStore`: the locks by key. -/
structure InMemoryLockStore where
  locks : String → Option Lock

namespace InMemoryLockStore

/-- Empty store. -/
def new : InMemoryLockStore := ⟨fun _ => none⟩

/-- The key of a tenant and a file. -/
def key (tenantId file : String) : String := s!"{tenantId}\x00{file}"

/-- Acquire (or steal) the lock of its tenant and file. -/
def acquire (self : InMemoryLockStore) (lock : Lock) : InMemoryLockStore :=
  ⟨Function.update self.locks (key lock.tenantId lock.file) (some lock)⟩

/-- Release the lock of a tenant and a file. -/
def release (self : InMemoryLockStore) (tenantId file : String) : InMemoryLockStore :=
  ⟨Function.update self.locks (key tenantId file) none⟩

/-- The lock of a tenant and a file, if any. -/
def get (self : InMemoryLockStore) (tenantId file : String) : Option Lock :=
  self.locks (key tenantId file)

/-- Perform an operation. -/
def perform (self : InMemoryLockStore) : LockOp → InMemoryLockStore
  | .acquire lock => self.acquire lock
  | .release tenantId file => self.release tenantId file
  | .get _ _ => self

/-- The store after some operations. -/
def after (ops : List LockOp) : InMemoryLockStore := ops.foldl perform new

end InMemoryLockStore

/-! ### The map over pairs -/

/-- The operation acquires or releases the lock of the pair. -/
def LockOp.writes (tenantId file : String) : LockOp → Bool
  | .acquire lock => lock.tenantId = tenantId ∧ lock.file = file
  | .release tenantId' file' => tenantId' = tenantId ∧ file' = file
  | .get _ _ => false

/-- The lock an operation leaves. -/
def LockOp.leaves : LockOp → Option Lock
  | .acquire lock => some lock
  | _ => none

/-- What the last acquisition or release of exactly the pair leaves. -/
def held (ops : List LockOp) (tenantId file : String) : Option Lock :=
  (ops.reverse.find? (·.writes tenantId file)).bind LockOp.leaves

/-- At every point of a run the store has for every pair what is held: the lock that
was acquired last for the pair and not released since. -/
def PairKeyed (ops : List LockOp) : Prop :=
  ∀ pre, pre <+: ops → ∀ tenantId file,
    (InMemoryLockStore.after pre).get tenantId file = held pre tenantId file

/-! ### Keys -/

namespace InMemoryLockStore

theorem toList_key (tenantId file : String) :
    (key tenantId file).toList = tenantId.toList ++ '\x00' :: file.toList := by
  show (tenantId ++ "\x00" ++ file).toList = _
  rw [String.toList_append, String.toList_append, List.append_assoc]
  rfl

/-- **Keys without NUL** are keys of one pair only.  It is enough that one of the
two pairs has none: then the key has one NUL, and it is the one between the two. -/
theorem key_inj {tenantId file tenantId' file' : String} (htenant : '\x00' ∉ tenantId.toList)
    (hfile : '\x00' ∉ file.toList) :
    key tenantId' file' = key tenantId file ↔ tenantId' = tenantId ∧ file' = file := by
  constructor
  · intro h
    have hlist := congrArg String.toList h
    rw [toList_key, toList_key] at hlist
    have hcount := congrArg (List.count '\x00') hlist
    rw [List.count_append, List.count_append, List.count_cons_self, List.count_cons_self,
      List.count_eq_zero.mpr htenant, List.count_eq_zero.mpr hfile] at hcount
    have htenant' : '\x00' ∉ tenantId'.toList := List.count_eq_zero.mp (by omega)
    obtain ⟨ht, hf⟩ := sep_inj_left htenant' htenant hlist
    exact ⟨String.toList_inj.mp ht, String.toList_inj.mp hf⟩
  · rintro ⟨rfl, rfl⟩
    rfl

/-- A pair with a NUL in it is not the only one of its key. -/
theorem exists_key_eq {tenantId file : String}
    (h : '\x00' ∈ tenantId.toList ∨ '\x00' ∈ file.toList) :
    ∃ tenantId' file', key tenantId' file' = key tenantId file ∧ tenantId' ≠ tenantId := by
  -- The key has the NUL of the join and one more; cut at the other one, it is the key of
  -- another pair.
  rcases h with h | h
  · obtain ⟨a, b, hab⟩ := List.append_of_mem h
    refine ⟨String.ofList a, String.ofList (b ++ '\x00' :: file.toList), ?_, ?_⟩
    · rw [← String.toList_inj, toList_key, toList_key, String.toList_ofList, String.toList_ofList,
        hab, List.append_assoc, List.cons_append]
    · rintro rfl
      rw [String.toList_ofList] at hab
      simpa using congrArg List.length hab
  · obtain ⟨a, b, hab⟩ := List.append_of_mem h
    refine ⟨String.ofList (tenantId.toList ++ '\x00' :: a), String.ofList b, ?_, ?_⟩
    · rw [← String.toList_inj, toList_key, toList_key, String.toList_ofList, String.toList_ofList,
        hab, List.append_assoc, List.cons_append]
    · intro heq
      have hlength := congrArg (fun s => s.toList.length) heq
      simp at hlength

theorem get_acquire (self : InMemoryLockStore) (lock : Lock) (tenantId file : String) :
    (self.acquire lock).get tenantId file =
      if key tenantId file = key lock.tenantId lock.file then some lock
      else self.get tenantId file :=
  Function.update_apply _ _ _ _

theorem get_release (self : InMemoryLockStore) (tenantId' file' tenantId file : String) :
    (self.release tenantId' file').get tenantId file =
      if key tenantId file = key tenantId' file' then none else self.get tenantId file :=
  Function.update_apply _ _ _ _

theorem after_concat (ops : List LockOp) (op : LockOp) :
    after (ops ++ [op]) = (after ops).perform op := by
  rw [after, List.foldl_append]
  rfl

end InMemoryLockStore

/-! ### What is held -/

theorem held_concat (ops : List LockOp) (op : LockOp) (tenantId file : String) :
    held (ops ++ [op]) tenantId file =
      if op.writes tenantId file then op.leaves else held ops tenantId file := by
  rw [held, List.reverse_append, List.reverse_singleton, List.singleton_append, List.find?_cons]
  cases op.writes tenantId file with
  | true => rfl
  | false => rfl

/-- What is held was acquired, and is a lock of the pair. -/
theorem of_held {ops : List LockOp} {tenantId file : String} {lock : Lock}
    (h : held ops tenantId file = some lock) :
    .acquire lock ∈ ops ∧ lock.tenantId = tenantId ∧ lock.file = file := by
  obtain ⟨op, hfind, hleaves⟩ := Option.bind_eq_some_iff.mp h
  have hwrites := List.find?_some hfind
  have hmem := List.mem_reverse.mp (List.mem_of_find?_eq_some hfind)
  cases op with
  | acquire lock' =>
      obtain rfl := Option.some.inj hleaves
      exact ⟨hmem, of_decide_eq_true hwrites⟩
  | release _ _ => cases hleaves
  | get _ _ => cases hleaves

/-! ### The law -/

/-- A lock without NUL in its tenant or file. -/
def Lock.Clean (lock : Lock) : Prop :=
  '\x00' ∉ lock.tenantId.toList ∧ '\x00' ∉ lock.file.toList

/-- As long as only clean locks are acquired, the store is the map. -/
theorem get_eq_held {ops : List LockOp} (hclean : ∀ lock, .acquire lock ∈ ops → lock.Clean)
    (tenantId file : String) :
    (InMemoryLockStore.after ops).get tenantId file = held ops tenantId file := by
  induction ops using List.reverseRecOn with
  | nil => rfl
  | append_singleton ops op ih =>
      have hops : ∀ lock, .acquire lock ∈ ops → lock.Clean :=
        fun lock hlock => hclean lock (List.mem_append_left _ hlock)
      rw [InMemoryLockStore.after_concat, held_concat]
      cases op with
      | acquire lock =>
          obtain ⟨htenant, hfile⟩ := hclean lock (by simp)
          have hwrites : InMemoryLockStore.key tenantId file =
              InMemoryLockStore.key lock.tenantId lock.file ↔
                (LockOp.acquire lock).writes tenantId file = true := by
            rw [InMemoryLockStore.key_inj htenant hfile, LockOp.writes, decide_eq_true_eq,
              eq_comm (a := tenantId), eq_comm (a := file)]
          rw [InMemoryLockStore.perform, InMemoryLockStore.get_acquire, ih hops]
          exact if_congr hwrites rfl rfl
      | release tenantId' file' =>
          rw [InMemoryLockStore.perform, InMemoryLockStore.get_release, ih hops]
          cases hheld : held ops tenantId file with
          | none => simp [LockOp.leaves]
          | some lock =>
              -- what is held is clean, so only its own release has its key
              obtain ⟨hmem, rfl, rfl⟩ := of_held hheld
              obtain ⟨htenant, hfile⟩ := hops lock hmem
              have hwrites : InMemoryLockStore.key lock.tenantId lock.file =
                  InMemoryLockStore.key tenantId' file' ↔
                    (LockOp.release tenantId' file').writes lock.tenantId lock.file = true := by
                rw [eq_comm, InMemoryLockStore.key_inj htenant hfile, LockOp.writes,
                  decide_eq_true_eq]
              exact if_congr hwrites rfl rfl
      | get _ _ => exact ih hops

/-- **The store is a map over pairs** of tenants and files exactly in the runs in
which no lock with a NUL in its tenant or file is acquired.  Releasing or asking for
such a pair does no harm, as long as none is held. -/
theorem pairKeyed_iff (ops : List LockOp) :
    PairKeyed ops ↔ ∀ lock, .acquire lock ∈ ops →
      '\x00' ∉ lock.tenantId.toList ∧ '\x00' ∉ lock.file.toList := by
  constructor
  · intro h lock hlock
    by_contra hnul
    rw [← not_or, not_not] at hnul
    obtain ⟨pre, post, rfl⟩ := List.append_of_mem hlock
    obtain ⟨tenantId, file, hkey, hne⟩ := InMemoryLockStore.exists_key_eq hnul
    -- the lock is found at another pair than its own
    have hget := h (pre ++ [.acquire lock]) ⟨post, by simp⟩ tenantId file
    rw [InMemoryLockStore.after_concat, InMemoryLockStore.perform, InMemoryLockStore.get_acquire,
      if_pos hkey] at hget
    exact hne (of_held hget.symm).2.1.symm
  · intro hclean pre hpre tenantId file
    exact get_eq_held (fun lock hlock => hclean lock (hpre.subset hlock)) tenantId file

/-- A lock is found at a pair it was not acquired for. -/
theorem get_of_other_pair :
    ¬ PairKeyed [.acquire (.new "a\x00b" "c" "alice" 0)] := by
  intro h
  exact absurd (h _ (List.prefix_refl _) "a" "b\x00c") (by decide)

end AgenticIde
