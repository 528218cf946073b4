/-
AgenticIde/Lib/Fifo.lean

What a bounded cache holds after any sequence of insertions.

A key is admitted when it is inserted while it is absent.  The queue of a
cache is then the last keys that were admitted, as many as fit, the entries
are those of the queue, and each has the value that was inserted last for its
key (`get_insertAll`).  An insertion does one of two things, which
`insert_of_isSome` and `insert_of_isNone` say once.
-/
import AgenticIde.Lib.Cache
import AgenticIde.Lib.Recent
import Mathlib.Data.List.Nodup

namespace AgenticIde

variable {κ ν : Type*} [DecidableEq κ]

namespace Cache

/-! ### One insertion -/

/-- The queue has each key that has an entry, once, and is within the
capacity. -/
structure WellFormed (c : Cache κ ν) : Prop where
  pos : 0 < c.capacity
  nodup : c.order.Nodup
  keys : ∀ k, k ∈ c.order ↔ (c.get k).isSome
  length : c.order.length ≤ c.capacity

omit [DecidableEq κ] in
theorem wellFormed_new (capacity : Nat) : (new capacity : Cache κ ν).WellFormed where
  pos := Nat.lt_of_lt_of_le Nat.one_pos (Nat.le_max_right _ _)
  nodup := List.nodup_nil
  keys _ := iff_of_false List.not_mem_nil Bool.false_ne_true
  length := Nat.zero_le _

variable {c : Cache κ ν} {k : κ}

/-- A key that has an entry is kept in its place. -/
theorem insert_of_isSome (h : (c.get k).isSome) (v : ν) :
    c.insert k v = { c with entries := Function.update c.entries k (some v) } := if_pos h

/-- A key that has none goes behind the others, once there is room. -/
theorem insert_of_isNone (h : (c.get k).isSome = false) (v : ν) :
    c.insert k v =
      { c.evict with
        order := c.evict.order ++ [k]
        entries := Function.update c.evict.entries k (some v) } :=
  if_neg (by rw [h]; exact Bool.false_ne_true)

@[simp] theorem evict_capacity (c : Cache κ ν) : c.evict.capacity = c.capacity := by
  unfold evict
  split
  · split <;> rfl
  · rfl

@[simp] theorem insert_capacity (c : Cache κ ν) (k : κ) (v : ν) :
    (c.insert k v).capacity = c.capacity := by
  cases h : (c.get k).isSome with
  | true => rw [insert_of_isSome h]
  | false =>
      rw [insert_of_isNone h]
      exact evict_capacity c

namespace WellFormed

variable (hc : c.WellFormed)
include hc

/-- Making room leaves one place free. -/
theorem evict_order : c.evict.order = c.order.rtake (c.capacity - 1) := by
  unfold evict
  by_cases hfull : c.capacity ≤ c.order.length
  · rw [if_pos hfull]
    have hlength := Nat.le_antisymm hc.length hfull
    cases horder : c.order with
    | nil =>
        rw [horder] at hlength
        exact absurd hlength (Nat.ne_of_lt hc.pos)
    | cons evicted order =>
        rw [horder, List.length_cons] at hlength
        show order = (evicted :: order).rtake (c.capacity - 1)
        rw [← hlength, Nat.add_sub_cancel, List.rtake, List.length_cons, Nat.add_sub_cancel_left]
        rfl
  · rw [if_neg hfull, rtake_of_length_le]
    omega

/-- What is not in the queue any more has no entry, and the others keep
theirs. -/
theorem get_evict (j : κ) : c.evict.get j = if j ∈ c.evict.order then c.get j else none := by
  have hkeys : ∀ j, j ∉ c.order → c.get j = none := fun j hj => by
    simpa using mt (hc.keys j).mpr hj
  unfold evict
  split
  · split
    · rename_i horder
      rw [if_neg (by rw [horder]; exact List.not_mem_nil)]
      exact hkeys j (by rw [horder]; exact List.not_mem_nil)
    · rename_i evicted order horder
      have hnodup := hc.nodup
      rw [horder, List.nodup_cons] at hnodup
      show Function.update c.entries evicted none j = if j ∈ order then c.get j else none
      by_cases hj : j = evicted
      · rw [hj, Function.update_self, if_neg hnodup.1]
      · rw [Function.update_of_ne hj]
        split
        · rfl
        · rename_i hmem
          apply hkeys
          rw [horder, List.mem_cons, not_or]
          exact ⟨hj, hmem⟩
  · split
    · rfl
    · rename_i hmem
      exact hkeys j hmem

/-- A key that is admitted takes the last place of the queue. -/
theorem insert_order (h : (c.get k).isSome = false) (v : ν) :
    (c.insert k v).order = (c.order ++ [k]).rtake c.capacity := by
  obtain ⟨n, hn⟩ := Nat.exists_eq_succ_of_ne_zero (Nat.ne_of_gt hc.pos)
  rw [insert_of_isNone h]
  show c.evict.order ++ [k] = _
  rw [hc.evict_order, hn, List.rtake_concat_succ]
  rfl

/-- **Insertion keeps a cache well-formed.**  A key that is there keeps its place in
the queue; a new one goes to the end, and the first one leaves if there is no room.
-/
theorem insert (k : κ) (v : ν) : (c.insert k v).WellFormed := by
  cases h : (c.get k).isSome with
  | true =>
      rw [insert_of_isSome h]
      refine ⟨hc.pos, hc.nodup, fun j => ?_, hc.length⟩
      show j ∈ c.order ↔ (Function.update c.entries k (some v) j).isSome
      by_cases hj : j = k
      · rw [hj, Function.update_self]
        exact iff_of_true ((hc.keys k).mpr h) rfl
      · rw [Function.update_of_ne hj]
        exact hc.keys j
  | false =>
      have horder := hc.insert_order h v
      have hsub : c.evict.order.Sublist c.order := by
        rw [hc.evict_order]
        exact List.drop_sublist _ _
      have hk : k ∉ c.evict.order := fun hmem => by
        have hsome := (hc.keys k).mp (hsub.subset hmem)
        rw [h] at hsome
        cases hsome
      refine ⟨by rw [insert_capacity]; exact hc.pos, ?_, fun j => ?_, ?_⟩
      · rw [insert_of_isNone h]
        show (c.evict.order ++ [k]).Nodup
        rw [← List.concat_eq_append]
        exact List.Nodup.concat hk (hsub.nodup hc.nodup)
      · rw [insert_of_isNone h]
        show j ∈ c.evict.order ++ [k] ↔ (Function.update c.evict.entries k (some v) j).isSome
        rw [List.mem_append, List.mem_singleton]
        by_cases hj : j = k
        · rw [hj, Function.update_self]
          exact iff_of_true (.inr rfl) rfl
        · rw [Function.update_of_ne hj, or_iff_left hj]
          show j ∈ c.evict.order ↔ (c.evict.get j).isSome
          rw [hc.get_evict]
          split
          case isTrue hmem => exact iff_of_true hmem ((hc.keys j).mp (hsub.subset hmem))
          case isFalse hmem => exact iff_of_false hmem Bool.false_ne_true
      · rw [horder, insert_capacity]
        exact length_rtake_le _ _

end WellFormed

/-! ### Any sequence of insertions -/

/-- Insert a key with its value; the output is the key if it is admitted, which
it is when it is absent. -/
def admission (c : Cache κ ν) (op : κ × ν) : Cache κ ν × List κ :=
  (c.insert op.1 op.2, if (c.get op.1).isSome then [] else [op.1])

/-- A new cache after some insertions. -/
def insertAll (capacity : Nat) (ops : List (κ × ν)) : Cache κ ν :=
  (Machine.run admission (new capacity) ops).1

/-- The keys that were admitted, in order; a key is again each time it comes
back. -/
def admitted (capacity : Nat) (ops : List (κ × ν)) : List κ :=
  (Machine.run admission (new capacity) ops).2

/-- The value that was inserted last for a key. -/
def lastInserted (ops : List (κ × ν)) (k : κ) : Option ν :=
  ops.foldl (fun last op => if op.1 = k then some op.2 else last) none

theorem lastInserted_concat (ops : List (κ × ν)) (op : κ × ν) (k : κ) :
    lastInserted (ops ++ [op]) k = if op.1 = k then some op.2 else lastInserted ops k := by
  rw [lastInserted, List.foldl_append]
  rfl

/-- What the insertions up to here make of a cache. -/
structure Holds (capacity : Nat) (ops : List (κ × ν)) (c : Cache κ ν) (admitted : List κ) :
    Prop where
  wellFormed : c.WellFormed
  capacity_eq : c.capacity = max capacity 1
  order_eq : c.order = admitted.rtake (max capacity 1)
  value : ∀ k v, c.get k = some v → lastInserted ops k = some v

theorem Holds.admission {capacity : Nat} {ops : List (κ × ν)} {c : Cache κ ν} {admitted : List κ}
    (h : Holds capacity ops c admitted) (op : κ × ν) :
    Holds capacity (ops ++ [op]) (c.admission op).1 (admitted ++ (c.admission op).2) where
  wellFormed := h.wellFormed.insert op.1 op.2
  capacity_eq := (insert_capacity c op.1 op.2).trans h.capacity_eq
  order_eq := by
    show (c.insert op.1 op.2).order =
      (admitted ++ if (c.get op.1).isSome then [] else [op.1]).rtake (max capacity 1)
    cases hget : (c.get op.1).isSome with
    | true =>
        rw [if_pos rfl, List.append_nil, insert_of_isSome hget]
        exact h.order_eq
    | false =>
        rw [if_neg Bool.false_ne_true, h.wellFormed.insert_order hget, h.capacity_eq, h.order_eq,
          rtake_concat_rtake]
  value := by
    intro k v hk
    rw [lastInserted_concat]
    cases hget : (c.get op.1).isSome with
    | true =>
        have hupdate : Function.update c.entries op.1 (some op.2) k = some v := by
          rw [← hk, Cache.admission, insert_of_isSome hget]
          rfl
        split
        case isTrue heq => rwa [← heq, Function.update_self] at hupdate
        case isFalse hne =>
          rw [Function.update_of_ne (Ne.symm hne)] at hupdate
          exact h.value k v hupdate
    | false =>
        have hupdate : Function.update c.evict.entries op.1 (some op.2) k = some v := by
          rw [← hk, Cache.admission, insert_of_isNone hget]
          rfl
        split
        case isTrue heq => rwa [← heq, Function.update_self] at hupdate
        case isFalse hne =>
          rw [Function.update_of_ne (Ne.symm hne)] at hupdate
          have hevict := h.wellFormed.get_evict k
          rw [show c.evict.get k = some v from hupdate] at hevict
          split at hevict
          · exact h.value k v hevict.symm
          · cases hevict

/-- **The law of a cache**, after any sequence of insertions.  By induction on the
sequence from its end: the keys in the queue are the last ones admitted, each with
the value it was last given. -/
theorem holds_insertAll (capacity : Nat) (ops : List (κ × ν)) :
    Holds capacity ops (insertAll capacity ops) (admitted capacity ops) :=
  Machine.run_induction
    (P := fun ops c admitted => Holds capacity ops c admitted)
    ⟨wellFormed_new capacity, rfl, (List.rtake_nil _).symm, fun _ _ h => by cases h⟩
    (fun _ op _ _ h => h.admission op) ops

/-- An entry is that of one of the last keys that were admitted, with the value
that was inserted last for it. -/
theorem get_insertAll (capacity : Nat) (ops : List (κ × ν)) (k : κ) (v : ν) :
    (insertAll capacity ops).get k = some v ↔
      k ∈ (admitted capacity ops).rtake (max capacity 1) ∧ lastInserted ops k = some v := by
  have h := holds_insertAll capacity ops
  rw [← h.order_eq, h.wellFormed.keys]
  constructor
  · intro hk
    exact ⟨by rw [hk]; rfl, h.value k v hk⟩
  · rintro ⟨hsome, hlast⟩
    obtain ⟨v', hv'⟩ := Option.isSome_iff_exists.mp hsome
    rw [hv', ← h.value k v' hv', hlast]

end Cache

end AgenticIde
