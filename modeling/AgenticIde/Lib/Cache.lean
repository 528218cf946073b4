/-
AgenticIde/Lib/Cache.lean

Bounded caches that evict the key that came first, and what is answered through one.

A cache of answers is the cache of the inputs that were answered, read through the answering
function (`map_insert`).  So what a caller gets through a cache depends on the function only at
the end: `served` says, from the keys alone, which earlier input each call is given the answer
of.

Two inputs with the same key share an entry, and the second is given the answer of the first.
Whether that is right is a question about the key, and not about the cache; with a key that
tells inputs apart a call is given its own answer, from now or from before.
-/
import Mathlib.Data.List.Forall2
import Mathlib.Logic.Function.Basic
import AgenticIde.Lib.Machine

namespace AgenticIde

variable {κ ν ν' ι : Type*}

/-- A cache: at most `capacity` keys, in the order they came, and their
entries. -/
structure Cache (κ ν : Type*) where
  capacity : Nat
  order : List κ
  entries : κ → Option ν

namespace Cache

/-- An empty cache, of at least one entry. -/
def new (capacity : Nat) : Cache κ ν := ⟨max capacity 1, [], fun _ => none⟩

/-- The entry under a key. -/
def get (c : Cache κ ν) (k : κ) : Option ν := c.entries k

variable [DecidableEq κ]

/-- Make room for one key: at capacity the oldest one goes. -/
def evict (c : Cache κ ν) : Cache κ ν :=
  if c.capacity ≤ c.order.length then
    match c.order with
    | [] => c
    | evicted :: order =>
        { c with order := order, entries := Function.update c.entries evicted none }
  else c

/-- Keep a value under a key: in place if the key is there, and else behind
all others. -/
def insert (c : Cache κ ν) (k : κ) (v : ν) : Cache κ ν :=
  if (c.get k).isSome then { c with entries := Function.update c.entries k (some v) }
  else
    let c := c.evict
    { c with order := c.order ++ [k], entries := Function.update c.entries k (some v) }

/-! ### What the entries satisfy -/

/-- All entries satisfy `P`. -/
def All (P : κ → ν → Prop) (c : Cache κ ν) : Prop := ∀ k v, c.get k = some v → P k v

omit [DecidableEq κ] in
theorem all_new (P : κ → ν → Prop) (capacity : Nat) : (new capacity : Cache κ ν).All P := by
  intro k v h
  simp [new, get] at h

variable {P : κ → ν → Prop} {c : Cache κ ν} {k : κ} {v : ν}

theorem All.evict (h : c.All P) : c.evict.All P := by
  intro k v hk
  unfold Cache.evict at hk
  split at hk
  · split at hk
    · exact h k v hk
    · rename_i evicted order _
      by_cases heq : k = evicted
      · simp [get, heq] at hk
      · exact h k v (by simpa [get, heq] using hk)
  · exact h k v hk

theorem All.insert (h : c.All P) (hv : P k v) : (c.insert k v).All P := by
  -- one entry is new, the others were there before
  have hupdate : ∀ c' : Cache κ ν, c'.All P →
      ∀ k' v', Function.update c'.entries k (some v) k' = some v' → P k' v' := by
    intro c' h' k' v' hk'
    by_cases heq : k' = k
    · subst heq
      obtain rfl : v = v' := by simpa using hk'
      exact hv
    · exact h' k' v' (by simpa [get, heq] using hk')
  unfold Cache.insert
  split
  · exact hupdate c h
  · exact hupdate c.evict h.evict

/-! ### Reading entries through a function -/

/-- Change every value. -/
def map (g : ν → ν') (c : Cache κ ν) : Cache κ ν' :=
  ⟨c.capacity, c.order, fun k => (c.entries k).map g⟩

omit [DecidableEq κ] in
@[simp] theorem get_map (g : ν → ν') (c : Cache κ ν) (k : κ) :
    (c.map g).get k = (c.get k).map g := rfl

omit [DecidableEq κ] in
@[simp] theorem map_new (g : ν → ν') (capacity : Nat) :
    (new capacity : Cache κ ν).map g = new capacity := rfl

theorem map_update (g : ν → ν') (entries : κ → Option ν) (k : κ) (v : Option ν) :
    (fun k' => (Function.update entries k v k').map g) =
      Function.update (fun k' => (entries k').map g) k (v.map g) := by
  funext k'
  by_cases h : k' = k
  · subst h
    simp
  · simp [h]

theorem map_evict (g : ν → ν') (c : Cache κ ν) : c.evict.map g = (c.map g).evict := by
  rcases c with ⟨capacity, order, entries⟩
  rcases order with - | ⟨evicted, order⟩
  · by_cases h : capacity ≤ 0 <;> simp [evict, map]
  · by_cases h : capacity ≤ (evicted :: order).length
    · simp only [evict, map, if_pos h, map_update, Option.map_none]
      exact (if_pos h).symm
    · simp only [evict, map, if_neg h]
      exact (if_neg h).symm

/-- **Inserting commutes with reading.**  What is evicted depends on the keys and
their order, so a cache of other values under the same keys evicts the same. -/
theorem map_insert (g : ν → ν') (c : Cache κ ν) (k : κ) (v : ν) :
    (c.insert k v).map g = (c.map g).insert k (g v) := by
  have hsome : ((c.map g).get k).isSome = (c.get k).isSome := by simp
  unfold insert
  rw [hsome, ← map_evict]
  split <;> simp only [map, map_update, Option.map_some]

/-! ### Serving calls through a cache -/

section Serve

variable (key : ι → κ)

/-- Which input's answer a call is given: what the cache holds under its key,
and else its own, which is then kept. -/
def serve (c : Cache κ ι) (i : ι) : Cache κ ι × List ι :=
  match c.get (key i) with
  | some j => (c, [j])
  | none => (c.insert (key i) i, [i])

/-- The inputs whose answers a run of calls is given. -/
def served (capacity : Nat) (inputs : List ι) : List ι :=
  (Machine.run (serve key) (new capacity) inputs).2

end Serve

end Cache

end AgenticIde
