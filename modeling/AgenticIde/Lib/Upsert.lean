/-
AgenticIde/Lib/Upsert.lean

Tables with a unique key, as lists of rows: `INSERT … ON CONFLICT … DO UPDATE` replaces the row
of the key where there is one, and else appends it.

What is found under a key afterwards is the new row under its own key, and what was found
before under every other one:

    (upsert key row rows).find? (key · = k) =
      if key row = k then some row else rows.find? (key · = k).

Keys stay distinct, so a row is found by its key wherever it stands, and the order of the rows,
which an update does not change, shows in a listing only.
-/
import Mathlib.Data.List.Nodup

namespace AgenticIde

variable {ρ κ : Type*} [DecidableEq κ]

/-- Replace the row of the key, or append one. -/
def upsert (key : ρ → κ) (row : ρ) : List ρ → List ρ
  | [] => [row]
  | r :: rows => if key r = key row then row :: rows else r :: upsert key row rows

variable {key : ρ → κ} {row : ρ}

theorem find?_upsert (rows : List ρ) (k : κ) :
    (upsert key row rows).find? (key · = k) =
      if key row = k then some row else rows.find? (key · = k) := by
  induction rows with
  | nil =>
      by_cases hk : key row = k <;> simp [upsert, hk]
  | cons r rows ih =>
      rw [upsert]
      by_cases hr : key r = key row
      · rw [if_pos hr, List.find?_cons, List.find?_cons, hr]
        by_cases hk : key row = k <;> simp [hk]
      · rw [if_neg hr, List.find?_cons, List.find?_cons, ih]
        by_cases hrk : key r = k
        · have hne : key row ≠ k := fun h => hr (hrk.trans h.symm)
          simp [hrk, hne]
        · simp [hrk]

theorem mem_map_upsert {rows : List ρ} {k : κ} (h : k ∈ (upsert key row rows).map key) :
    k = key row ∨ k ∈ rows.map key := by
  induction rows with
  | nil => exact Or.inl (List.mem_singleton.mp h)
  | cons r rows ih =>
      rw [upsert] at h
      split at h
      · rcases List.mem_cons.mp h with h | h
        · exact Or.inl h
        · exact Or.inr (List.mem_cons_of_mem _ h)
      · rcases List.mem_cons.mp h with h | h
        · exact Or.inr (h ▸ List.mem_cons_self)
        · exact (ih h).imp_right (List.mem_cons_of_mem _)

/-- The key stays unique. -/
theorem nodup_upsert {rows : List ρ} (h : (rows.map key).Nodup) :
    ((upsert key row rows).map key).Nodup := by
  induction rows with
  | nil => exact List.nodup_singleton _
  | cons r rows ih =>
      rw [List.map_cons, List.nodup_cons] at h
      rw [upsert]
      split
      · rename_i hr
        rw [List.map_cons, List.nodup_cons, ← hr]
        exact h
      · rename_i hr
        rw [List.map_cons, List.nodup_cons]
        refine ⟨fun hmem => ?_, ih h.2⟩
        exact (mem_map_upsert hmem).elim hr h.1

end AgenticIde
