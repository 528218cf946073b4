/-
AgenticIde/AuditMutations.lean

The audit log is append-only.  `audit_no_mutation` is a trigger of the partitions (0001): a
statement that would change or delete a row of one that has it fails, whoever executes it.
A superuser fails like everyone else, unless he disables the trigger first; that is no
statement of this model.

A log goes through inserts, updates and deletes by any session, partitions that an operator
adds, and statements of the migrations, in any order.  Of what it holds when
`apply_migrations` ends, no row is changed or lost from then on (`sublist_run`): what comes
later is inserted between or behind.  That is so if no partition had a name by then that
needs quotes; where one has, the loop that attaches the trigger fails, and the log is not
guarded by the pass.

The proof is in two halves that meet in `guarded`.  The catalog only grows, by
`Lib.Script`, and a pass leaves every partition with a trigger, by the runs of the
migrations.  A statement on the rows then either fails, and changes nothing, or spares the
guarded rows, and `sublist_apply` says so of any set of them.
-/
import AgenticIde.MigrationRuns

namespace AgenticIde

namespace Migrations

open Obj

/-- The catalog, and the rows of `audit` with their partitions. -/
structure AuditTable where
  catalog : Finset Obj
  rows : List (String × AuditRow)

/-- What becomes of the table. -/
inductive Change
  | schema (e : Event)
  | insert (part : String) (row : AuditRow)
  /-- `UPDATE` of the rows that meet a condition; a row can move to another
  partition. -/
  | update (cond : AuditRow → Bool) (set : AuditRow → String × AuditRow)
  | delete (cond : AuditRow → Bool)

namespace AuditTable

variable {self : AuditTable}

/-- The trigger `audit_no_update` raises for the row. -/
def guarded (self : AuditTable) (r : String × AuditRow) : Bool :=
  decide (trigger r.1 .noUpdate ∈ self.catalog)

/-- The table after a statement; one that fails changes nothing. -/
def apply (self : AuditTable) : Change → AuditTable
  | .schema e => { self with catalog := e.apply self.catalog }
  | .insert part row =>
      -- no partition of relation "audit" found for row
      if partition part ∈ self.catalog then { self with rows := self.rows ++ [(part, row)] }
      else self
  | .update cond set =>
      let hit := self.rows.filter fun r => cond r.2
      if hit.any self.guarded || hit.any fun r => decide (partition (set r.2).1 ∉ self.catalog) then
        self
      else { self with rows := self.rows.map fun r => if cond r.2 then set r.2 else r }
  | .delete cond =>
      if (self.rows.filter fun r => cond r.2).any self.guarded then self
      else { self with rows := self.rows.filter fun r => !cond r.2 }

/-- The table after some statements. -/
def run (self : AuditTable) (changes : List Change) : AuditTable := changes.foldl apply self

/-- No table yet. -/
def start (server : Finset Extension) : AuditTable := ⟨fresh server, []⟩

/-- The application starts, and applies the migrations. -/
def migrate (self : AuditTable) (listing : List File) : AuditTable :=
  { self with catalog := applyMigrations listing self.catalog }

@[simp] theorem run_concat (changes : List Change) (ch : Change) :
    self.run (changes ++ [ch]) = (self.run changes).apply ch := by
  simp [run]

/-! ### The catalog of a run -/

/-- The event of the catalog a statement is. -/
def schemaEvent : Change → Option Event
  | .schema e => some e
  | _ => none

theorem catalog_apply (self : AuditTable) (ch : Change) :
    (self.apply ch).catalog =
      ((schemaEvent ch).elim self.catalog fun e => e.apply self.catalog) := by
  rcases ch with e | ⟨part, row⟩ | ⟨cond, set⟩ | cond
  · rfl
  all_goals
    simp only [apply, schemaEvent, Option.elim_none]
    split <;> rfl

theorem catalog_run (server : Finset Extension) (changes : List Change) :
    ((start server).run changes).catalog = history server (changes.filterMap schemaEvent) := by
  induction changes using List.reverseRecOn with
  | nil => rfl
  | append_singleton changes ch ih =>
      rw [run_concat, catalog_apply, ih, List.filterMap_append]
      rcases he : schemaEvent ch with - | e
      · simp [he]
      · simp [he]

theorem mem_catalog_apply {x : Obj} (hx : x.sort ≠ .policy) (ch : Change) (h : x ∈ self.catalog) :
    x ∈ (self.apply ch).catalog := by
  rw [catalog_apply]
  rcases schemaEvent ch with - | e
  · exact h
  · exact mem_apply hx e h

/-! ### The rows of a run -/

/-- Every row lies in a partition there is.  Partitions are added and never dropped,
so this is kept by whatever is done to the table. -/
def Placed (self : AuditTable) : Prop := ∀ r ∈ self.rows, partition r.1 ∈ self.catalog

theorem placed_apply (h : self.Placed) (ch : Change) : (self.apply ch).Placed := by
  -- A partition is never dropped, so rows that stay where they are need no argument. An
  -- `INSERT` asks for the partition, and an `UPDATE` that moves a row fails where there is
  -- none.
  have hkept : ∀ {part : String}, partition part ∈ self.catalog →
      partition part ∈ (self.apply ch).catalog :=
    fun hpart => mem_catalog_apply (fun h => by cases h) ch hpart
  intro r hr
  rcases ch with e | ⟨part, row⟩ | ⟨cond, set⟩ | cond
  · exact hkept (h r hr)
  · by_cases hpart : partition part ∈ self.catalog
    · rw [apply, if_pos hpart] at hr ⊢
      rcases List.mem_append.mp hr with hr | hr
      · exact h r hr
      · rw [List.mem_singleton.mp hr]
        exact hpart
    · rw [apply, if_neg hpart] at hr ⊢
      exact h r hr
  · simp only [apply] at hr ⊢
    split at hr
    · rename_i hfails
      rw [if_pos hfails]
      exact h r hr
    · rename_i hok
      rw [if_neg hok]
      obtain ⟨r₀, hr₀, rfl⟩ := List.mem_map.mp hr
      split
      · rename_i hcond
        by_contra hpart
        -- The row would have moved to a partition there is not, and the statement would
        -- have failed.
        refine hok (Bool.or_eq_true_iff.mpr (Or.inr (List.any_eq_true.mpr ⟨r₀, ?_, ?_⟩)))
        · exact List.mem_filter.mpr ⟨hr₀, hcond⟩
        · exact decide_eq_true hpart
      · exact h r₀ hr₀
  · simp only [apply] at hr ⊢
    split at hr
    · rename_i hfails
      rw [if_pos hfails]
      exact h r hr
    · rename_i hok
      rw [if_neg hok]
      exact h r (List.mem_filter.mp hr).1

theorem placed_run (server : Finset Extension) (changes : List Change) :
    ((start server).run changes).Placed := by
  induction changes using List.reverseRecOn with
  | nil => exact fun r hr => by cases hr
  | append_singleton changes ch ih =>
      rw [run_concat]
      exact placed_apply ih ch

theorem filter_sublist_filter_map {α : Type*} {p : α → Bool} {f : α → α} {as : List α}
    (h : ∀ a ∈ as, p a = true → f a = a) : (as.filter p).Sublist ((as.map f).filter p) := by
  induction as with
  | nil => exact List.Sublist.refl _
  | cons a as ih =>
      obtain ⟨ha, has⟩ := List.forall_mem_cons.mp h
      rw [List.map_cons]
      by_cases hp : p a = true
      · rw [ha hp, List.filter_cons_of_pos hp, List.filter_cons_of_pos hp]
        exact (ih has).cons_cons a
      · rw [List.filter_cons_of_neg hp, List.filter_cons]
        split
        · exact (ih has).cons _
        · exact ih has

/-- A statement changes and loses no row of a partition with the trigger. -/
theorem sublist_apply {p : String × AuditRow → Bool}
    (hguarded : ∀ r, p r = true → self.guarded r = true) (ch : Change) :
    (self.rows.filter p).Sublist ((self.apply ch).rows.filter p) := by
  rcases ch with e | ⟨part, row⟩ | ⟨cond, set⟩ | cond
  · exact List.Sublist.refl _
  · simp only [apply]
    split
    · rw [List.filter_append]
      exact List.sublist_append_left _ _
    · exact List.Sublist.refl _
  · simp only [apply]
    split
    · exact List.Sublist.refl _
    -- The statement came through, so it has matched no guarded row.
    · rename_i hok
      refine filter_sublist_filter_map fun r hr hp => ?_
      refine if_neg fun hcond => hok (Bool.or_eq_true_iff.mpr (Or.inl ?_))
      exact List.any_eq_true.mpr ⟨r, List.mem_filter.mpr ⟨hr, hcond⟩, hguarded r hp⟩
  · simp only [apply]
    split
    · exact List.Sublist.refl _
    · rename_i hok
      -- Rows the condition spares are left by the two filters alike, and guarded rows are
      -- spared.
      rw [List.filter_filter]
      rw [List.filter_congr fun r hr => ?_]
      by_cases hp : p r = true
      · have hcond : cond r.2 = false := by
          by_contra hcond
          refine hok (List.any_eq_true.mpr ⟨r, ?_, hguarded r hp⟩)
          exact List.mem_filter.mpr ⟨hr, by simpa using hcond⟩
        rw [hp, hcond]
        rfl
      · rw [Bool.eq_false_of_not_eq_true hp, Bool.false_and]

theorem sublist_run_of_guarded {p : String × AuditRow → Bool}
    (hguarded : ∀ r, p r = true → self.guarded r = true) (changes : List Change) :
    (self.rows.filter p).Sublist ((self.run changes).rows.filter p) ∧
      ∀ r, p r = true → (self.run changes).guarded r = true := by
  induction changes using List.reverseRecOn with
  | nil => exact ⟨List.Sublist.refl _, hguarded⟩
  | append_singleton changes ch ih =>
      rw [run_concat]
      refine ⟨ih.1.trans (sublist_apply ih.2 ch), fun r hr => decide_eq_true ?_⟩
      -- a trigger is never dropped
      exact mem_catalog_apply (fun h => by cases h) ch (of_decide_eq_true (ih.2 r hr))

/-- **The log is append-only** from the end of a pass on.  Whatever came before
the pass and comes after it, the rows the table holds then stay as they are.
Only the partitions that are there before the pass need plain names. -/
theorem sublist_run {server : Finset Extension} (hvector : Extension.vector ∈ server)
    (before later : List Change)
    (hplain : ∀ name, .schema (.addPartition name) ∈ before → quoteIdent name = name)
    {listing others : List File} (hlisting : listing.Perm (bundle ++ others))
    (hothers : ∀ f ∈ others, pathExtension f.name ≠ some "sql") :
    ((start server).run before).rows.Sublist
      ((((start server).run before).migrate listing).run later).rows := by
  have hcatalog : (((start server).run before).migrate listing).catalog =
      Script.run Obj.sort script ((start server).run before).catalog :=
    applyMigrations_eq hlisting hothers _
  have hevents : Plain (before.filterMap schemaEvent) := by
    intro name hname
    obtain ⟨ch, hch, he⟩ := List.mem_filterMap.mp hname
    rcases ch with e | _ | _ | _
    · obtain rfl : e = .addPartition name := Option.some.inj he
      exact hplain name hch
    all_goals cases he
  -- all partitions with rows are there after the pass, and guarded
  have hall : ∀ r ∈ ((start server).run before).rows,
      (((start server).run before).migrate listing).guarded r = true := by
    intro r hr
    have hpart : partition r.1 ∈ ((start server).run before).catalog :=
      placed_run server before r hr
    have hpart' : partition r.1 ∈ Script.run Obj.sort script ((start server).run before).catalog :=
      Script.mem_run hpart (drops_script fun h => by cases h)
    refine decide_eq_true ?_
    rw [hcatalog]
    rw [catalog_run, run_history server hevents] at hpart' ⊢
    exact (guarded_deployed hvector (namedByText_history hevents)).triggers r.1 hpart' .noUpdate
  have hkept : (((start server).run before).rows.filter
      (((start server).run before).migrate listing).guarded).Sublist
      (((((start server).run before).migrate listing).run later).rows.filter
        (((start server).run before).migrate listing).guarded) :=
    (sublist_run_of_guarded (fun r hr => hr) later).1
  rw [List.filter_eq_self.mpr hall] at hkept
  exact hkept.trans List.filter_sublist

/-- Deletes after a pass, and before it. -/
theorem sublist_run_deleted :
    ((start {.vector}).run [.schema (.addPartition "audit_2025_09"),
        .delete fun r => r.action == "tool"]).rows.Sublist
      ((((start {.vector}).run [.schema (.addPartition "audit_2025_09"),
        .delete fun r => r.action == "tool"]).migrate bundle).run
          [.delete fun r => r.action == "grant"]).rows :=
  have hlisting : bundle.Perm (bundle ++ []) := by rw [List.append_nil]
  have hplain : ∀ name, Change.schema (.addPartition name) ∈
      [.schema (.addPartition "audit_2025_09"), .delete fun r => r.action == "tool"] →
        quoteIdent name = name := by
    intro name hname
    rcases List.mem_pair.mp hname with h | h
    · rw [Event.addPartition.inj (Change.schema.inj h)]
      decide +kernel
    · cases h
  sublist_run (by decide) _ _ hplain hlisting (fun f hf => by cases hf)

end AuditTable

end Migrations

end AgenticIde
