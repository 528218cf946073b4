/-
AgenticIde/MigrationRuns.lean

What the migrations leave behind, over every history of a database.

The application applies them at each start.  A pass can be cut off at any statement, be
retried, or run beside another one, and an operator adds a partition of `audit` now and then,
so a history is any sequence of statements of the files and of new partitions.

* However it went, one pass leaves the schema that it leaves on a fresh database with the
  same partitions, if their names need no quotes (`applyMigrations_history`).  A name that
  does makes the loops over the partitions fail in every pass.
* A table whose row-level security is on stays closed to other tenants while a pass drops its
  policy and makes it anew (`isolated_history`).
* By hand, with `ON_ERROR_STOP=1`, the first file ends at the domain once that is there, so
  what it has not made by then it never makes (`mem_applyByHand_iff`).

The first is by `Lib.Script`: in the order of the files no statement needs what is made only
behind it, and none drops what was made before it in the same pass (`ordered_script`).  A
pass through the application goes on after a statement that fails, as one does whose object
is there; so what a pass leaves hangs on the files and not on the history before it.

The second needs the policies in the order in which they are dropped and made.  Without a
policy nothing is readable, so a moment without one closes a table rather than opening it.
The log is the exception that the statement names: there one of two policies asks for the
tenant of a new row, and the other does not.
-/
import AgenticIde.Migrations
import AgenticIde.PgAudit

namespace AgenticIde

namespace Migrations

open Script Statement Obj RowSecurity

/-! ### Histories -/

/-- What becomes of a database. -/
inductive Event
  /-- A statement of the migrations is executed. -/
  | statement (s : {s : Sql // s ∈ script})
  /-- An operator creates a partition of `audit`. -/
  | addPartition (name : String)

/-- The catalog after an event. -/
def Event.apply (c : Finset Obj) : Event → Finset Obj
  | statement s => s.1.effect Obj.sort c
  | addPartition name => (ensure [table .audit] (partition name) : Sql).effect Obj.sort c

/-- A database of a server with some extensions. -/
def fresh (server : Finset Extension) : Finset Obj := server.image installed

/-- The catalog after some events. -/
def history (server : Finset Extension) (events : List Event) : Finset Obj :=
  events.foldl Event.apply (fresh server)

/-- The partitions of `audit`. -/
def partitionsOf (c : Finset Obj) : Finset Obj := c.filter (·.sort = .partition)

/-- The schema that one pass leaves on a fresh database with the partitions. -/
def deployed (server : Finset Extension) (partitions : Finset Obj) : Finset Obj :=
  run Obj.sort script (fresh server ∪ partitions)

variable {server : Finset Extension} {events : List Event} {c c' : Finset Obj} {x : Obj}

@[simp] theorem history_concat (events : List Event) (e : Event) :
    history server (events ++ [e]) = e.apply (history server events) := by
  simp [history]

/-- Nothing but policies is dropped. -/
theorem drops_script (hx : x.sort ≠ .policy) : ∀ s ∈ script, s.drops x = false := by
  have hall : ∀ s ∈ script, s.dropsOnlySort Obj.sort .policy = true := by decide
  exact fun s hs => drops_eq_false_of_ne_sort hx (hall s hs)

/-- What is not a policy outlasts every event. -/
theorem mem_apply (hx : x.sort ≠ .policy) (e : Event) (h : x ∈ c) : x ∈ e.apply c := by
  rcases e with ⟨s, hs⟩ | name
  · exact mem_effect h (drops_script hx s hs)
  · exact mem_effect h rfl

theorem mem_history_append (hx : x.sort ≠ .policy) (later : List Event)
    (h : x ∈ history server events) : x ∈ history server (events ++ later) := by
  induction later using List.reverseRecOn with
  | nil => simpa using h
  | append_singleton later e ih =>
      rw [← List.append_assoc, history_concat]
      exact mem_apply hx e ih

theorem sort_of_mem_partitionsOf (h : x ∈ partitionsOf c) : x.sort = .partition :=
  (Finset.mem_filter.mp h).2

theorem sort_fresh_union (h : x ∈ fresh server ∪ partitionsOf c) : x.sort ≠ .policy := by
  rcases Finset.mem_union.mp h with h | h
  · obtain ⟨e, -, rfl⟩ := Finset.mem_image.mp h
    exact fun hsort => by cases hsort
  · rw [sort_of_mem_partitionsOf h]
    decide

/-- What no statement makes, and is no partition, was there before the event. -/
theorem mem_of_mem_apply (hx : x.sort ≠ .partition)
    (hmake : ∀ s ∈ script, s.mayMake Obj.sort x = false) (e : Event) (h : x ∈ e.apply c) :
    x ∈ c := by
  rcases e with ⟨s, hs⟩ | name
  · exact mem_of_mem_effect (wellSorted_script s hs) h (hmake s hs)
  · refine mem_of_mem_effect (s := ensure [table .audit] (partition name)) trivial h ?_
    refine decide_eq_false fun hname => hx ?_
    rw [← hname]
    rfl

theorem mem_of_mem_history (hx : x.sort ≠ .partition)
    (hmake : ∀ s ∈ script, s.mayMake Obj.sort x = false) (h : x ∈ history server events) :
    x ∈ fresh server := by
  induction events using List.reverseRecOn with
  | nil => exact h
  | append_singleton events e ih =>
      rw [history_concat] at h
      exact ih (mem_of_mem_apply hx hmake e h)

/-! ### Names of partitions -/

/-- The partitions that were added have names that need no quotes, so that a file
which quotes them twice quotes them never. -/
def Plain (events : List Event) : Prop :=
  ∀ name, .addPartition name ∈ events → quoteIdent name = name

theorem namedByText_fresh (h : x ∈ fresh server) : x.namedByText = true := by
  obtain ⟨e, -, rfl⟩ := Finset.mem_image.mp h
  rfl

/-- The loops can deal with all partitions of such a history. -/
theorem namedByText_history (hplain : Plain events) :
    ∀ x ∈ history server events, x.namedByText = true := by
  induction events using List.reverseRecOn with
  | nil => exact fun x hx => namedByText_fresh hx
  | append_singleton events e ih =>
      have hbefore : Plain events := fun name hname => hplain name (List.mem_append_left _ hname)
      rw [history_concat]
      rcases e with ⟨s, hs⟩ | name
      · exact good_effect (sound_script s hs) (ih hbefore)
      · have hname : quoteIdent name = name :=
          hplain name (List.mem_append_right _ List.mem_cons_self)
        exact good_effect (s := ensure [table .audit] (partition name)) (decide_eq_true hname)
          (ih hbefore)

theorem namedByText_fresh_union (hc : ∀ x ∈ c, x.namedByText = true) :
    ∀ x ∈ fresh server ∪ partitionsOf c, x.namedByText = true := by
  intro x hx
  rcases Finset.mem_union.mp hx with hx | hx
  · exact namedByText_fresh hx
  · exact hc x (Finset.mem_filter.mp hx).1

/-! ### Convergence -/

theorem deployed_mono (hc' : ∀ x ∈ c', x.namedByText = true)
    (h : partitionsOf c ⊆ partitionsOf c') :
    deployed server (partitionsOf c) ⊆ deployed server (partitionsOf c') :=
  run_mono sound_script (namedByText_fresh_union hc') (Finset.union_subset_union_right h)

theorem subset_deployed (c : Finset Obj) :
    fresh server ∪ partitionsOf c ⊆ deployed server (partitionsOf c) := by
  intro x hx
  rw [deployed]
  exact mem_run hx (drops_script (sort_fresh_union hx))

/-- An event keeps a catalog within the schema of its partitions. -/
theorem apply_subset (hc : c ⊆ deployed server (partitionsOf c)) (e : Event)
    (hnamed : ∀ x ∈ e.apply c, x.namedByText = true) :
    e.apply c ⊆ deployed server (partitionsOf (e.apply c)) := by
  have hparts : partitionsOf c ⊆ partitionsOf (e.apply c) := by
    intro x hx
    have hsort := sort_of_mem_partitionsOf hx
    refine Finset.mem_filter.mpr ⟨mem_apply ?_ e (Finset.mem_filter.mp hx).1, hsort⟩
    rw [hsort]
    decide
  have hgrown : c ⊆ deployed server (partitionsOf (e.apply c)) :=
    hc.trans (deployed_mono hnamed hparts)
  rcases e with ⟨s, hs⟩ | name
  · exact effect_subset_run ordered_script wellSorted_script sound_script
      (namedByText_fresh_union hnamed) hs hgrown
  · intro x hx
    by_cases hx' : x ∈ c
    · exact hgrown hx'
    · -- the only new object is the partition
      refine subset_deployed _ (Finset.mem_union_right _ (Finset.mem_filter.mpr ⟨hx, ?_⟩))
      have hmake : (ensure [table .audit] (partition name) : Sql).mayMake Obj.sort x = true := by
        by_contra hmake
        exact hx' (mem_of_mem_effect (s := ensure [table .audit] (partition name)) trivial hx
          (Bool.eq_false_of_not_eq_true hmake))
      obtain rfl : partition name = x := of_decide_eq_true hmake
      rfl

theorem fresh_subset_history (server : Finset Extension) (events : List Event) :
    fresh server ⊆ history server events := by
  intro x hx
  have hsort : x.sort ≠ .policy := sort_fresh_union (c := ∅) (Finset.mem_union_left _ hx)
  have h : x ∈ history server [] := hx
  simpa using mem_history_append hsort events h

theorem history_subset (server : Finset Extension) (hplain : Plain events) :
    history server events ⊆ deployed server (partitionsOf (history server events)) := by
  induction events using List.reverseRecOn with
  | nil => exact Finset.subset_union_left.trans (subset_deployed _)
  | append_singleton events e ih =>
      have hnamed : ∀ x ∈ history server (events ++ [e]), x.namedByText = true :=
        namedByText_history hplain
      rw [history_concat] at hnamed ⊢
      exact apply_subset (ih fun name hname => hplain name (List.mem_append_left _ hname)) e hnamed

/-- A pass from any history. -/
theorem run_history (server : Finset Extension) (hplain : Plain events) :
    run Obj.sort script (history server events) =
      deployed server (partitionsOf (history server events)) :=
  run_eq_of_between ordered_script wellSorted_script sound_script
    (namedByText_fresh_union (namedByText_history hplain))
    (Finset.union_subset (fresh_subset_history server events) (Finset.filter_subset _ _))
    (history_subset server hplain)

/-- What the directory lists, in whatever order and beside whatever else, the
files run are those of the bundle. -/
theorem migrationFiles_of_perm {listing others : List File} (h : listing.Perm (bundle ++ others))
    (hothers : ∀ f ∈ others, pathExtension f.name ≠ some "sql") :
    migrationFiles listing = bundle := by
  have hnone : others.filter (fun f => pathExtension f.name = some "sql") = [] := by
    rw [List.filter_eq_nil_iff]
    intro f hf hsql
    exact hothers f hf (of_decide_eq_true hsql)
  have hbundle : bundle.filter (fun f => pathExtension f.name = some "sql") = bundle :=
    List.filter_eq_self.mpr fun f hf => by
      have hall : ∀ f ∈ bundle, pathExtension f.name = some "sql" := by
        simp only [bundle, List.forall_mem_cons, List.not_mem_nil, false_imp_iff, implies_true,
          and_true]
        decide +kernel
      exact decide_eq_true (hall f hf)
  have hperm : (migrationFiles listing).Perm bundle := by
    refine (List.mergeSort_perm _ _).trans ?_
    have := h.filter (fun f : File => decide (pathExtension f.name = some "sql"))
    rwa [List.filter_append, hnone, hbundle, List.append_nil] at this
  have hsorted : (migrationFiles listing).Pairwise fun f g => f.name ≤ g.name := by
    have := @List.pairwise_mergeSort File (fun f g => decide (f.name ≤ g.name))
      (fun a b d hab hbd => by
        simp only [decide_eq_true_eq] at hab hbd ⊢
        exact hab.trans hbd)
      (fun a b => by simpa using le_total a.name b.name)
      (listing.filter fun f => pathExtension f.name = some "sql")
    exact this.imp of_decide_eq_true
  have hnames : (bundle.map File.name).Pairwise (· < ·) := by decide +kernel
  -- the names are all different, so there is only one sorted order
  refine List.Perm.eq_of_pairwise ?_ hsorted
    ((List.pairwise_map.mp hnames).imp le_of_lt) hperm
  intro f g hf hg hfg hgf
  exact List.inj_on_of_nodup_map (hnames.imp ne_of_lt) (hperm.subset hf) hg (le_antisymm hfg hgf)

/-- The tables with tenants. -/
def tenantTables : List Table :=
  [.audit, .contextSources, .ckgSymbols, .ckgEdges, .comments, .locks, .secrets]

/-- The audit log is guarded, and tenants are kept apart: every partition has both
triggers, and every table of tenants its row security and the policy that isolates
them. -/
structure Guarded (c : Finset Obj) : Prop where
  /-- Every partition of `audit` has both triggers. -/
  triggers : ∀ name, partition name ∈ c → ∀ t, trigger name t ∈ c
  isolation : ∀ t ∈ tenantTables, rowSecurity t ∈ c ∧ policy t .tenantIsolation ∈ c

/-- A schema that is deployed contains all that needs no more than `vector`. -/
theorem mem_deployed (hvector : Extension.vector ∈ server)
    (hc : ∀ x ∈ c, x.namedByText = true) (hx : x ∈ run Obj.sort script {installed .vector}) :
    x ∈ deployed server (partitionsOf c) := by
  refine run_mono sound_script (namedByText_fresh_union hc) ?_ hx
  rw [Finset.singleton_subset_iff]
  exact Finset.mem_union_left _ (Finset.mem_image_of_mem installed hvector)

theorem guarded_deployed (hvector : Extension.vector ∈ server)
    (hc : ∀ x ∈ c, x.namedByText = true) : Guarded (deployed server (partitionsOf c)) := by
  have hnamed : ∀ x ∈ deployed server (partitionsOf c), x.namedByText = true :=
    good_run sound_script (namedByText_fresh_union hc)
  have hbasis : ∀ x ∈ table .audit :: function .auditNoMutation ::
      function .auditChainBeforeInsert ::
      tenantTables.flatMap fun t => [rowSecurity t, policy t .tenantIsolation],
      x ∈ run Obj.sort script {installed .vector} := by
    decide +kernel
  have hbasis : ∀ x ∈ table .audit :: function .auditNoMutation ::
      function .auditChainBeforeInsert ::
      tenantTables.flatMap fun t => [rowSecurity t, policy t .tenantIsolation],
      x ∈ deployed server (partitionsOf c) :=
    fun x hx => mem_deployed hvector hc (hbasis x hx)
  -- the loop over the partitions adds no more to what is deployed
  have hattached : ∀ {t : TriggerName} {f : SqlFunction}, attachTriggers t f ∈ script →
      function f ∈ deployed server (partitionsOf c) → ∀ name,
        partition name ∈ deployed server (partitionsOf c) →
        trigger name t ∈ deployed server (partitionsOf c) := by
    intro t f hmem hf name hname
    have hclosed : (attachTriggers t f).effect Obj.sort (deployed server (partitionsOf c)) ⊆
        deployed server (partitionsOf c) :=
      effect_subset_run ordered_script wellSorted_script sound_script
        (namedByText_fresh_union hc) hmem (Finset.Subset.refl _)
    refine hclosed ?_
    rw [attachTriggers, effect_forEach, if_pos]
    · exact Finset.mem_union_right _ (Finset.mem_image.mpr
        ⟨partition name, Finset.mem_filter.mpr ⟨hname, rfl⟩, rfl⟩)
    · refine ⟨fun n hn => ?_, fun y hy _ => hnamed y hy⟩
      rcases List.mem_pair.mp hn with rfl | rfl
      · exact hbasis _ (by decide)
      · exact hf
  refine ⟨fun name hname t => ?_, fun t ht => ⟨?_, ?_⟩⟩
  · rcases t with - | -
    · refine hattached (f := .auditNoMutation) ?_ (hbasis _ (by decide)) name hname
      simp only [script, init0001, List.mem_append, List.mem_cons, true_or, or_true]
    · refine hattached (f := .auditChainBeforeInsert) ?_ (hbasis _ (by decide)) name hname
      simp only [script, v20, List.mem_append, List.mem_cons, true_or, or_true]
  all_goals
    refine hbasis _ (List.mem_cons_of_mem _ (List.mem_cons_of_mem _ (List.mem_cons_of_mem _
      (List.mem_flatMap.mpr ⟨t, ht, ?_⟩))))
    simp

/-- `apply_migrations` runs the script. -/
theorem applyMigrations_eq {listing others : List File} (hlisting : listing.Perm (bundle ++ others))
    (hothers : ∀ f ∈ others, pathExtension f.name ≠ some "sql") (c : Finset Obj) :
    applyMigrations listing c = run Obj.sort script c := by
  rw [applyMigrations, migrationFiles_of_perm hlisting hothers]
  show run Obj.sort v20 (run Obj.sort v15 (run Obj.sort v10 (run Obj.sort v05
    (run Obj.sort init0001 c)))) = _
  rw [script, run_append, run_append, run_append, run_append]

theorem permMask_mem_script : (create [] permMaskDomain : Sql) ∈ script := by
  simp only [script, init0001, List.mem_append, List.mem_cons, true_or, or_true]

section Isolation

variable {ρ : Type*} (tenantId : ρ → String) {t : Table} {s : PgSession} {tenant : String}

/-- The policies of a table of a catalog, over rows with their `tenant_id`:
`audit_append_only` is permissive and for `INSERT`, a `tenant_isolation` is for
all commands, and restrictive on `audit` only. -/
def tablePolicies (c : Finset Obj) (t : Table) : List (RowSecurity.Policy PgSession ρ) :=
  (if policy t .appendOnly ∈ c then [⟨true, some .insert, fun _ _ _ => true⟩] else []) ++
  (if policy t .tenantIsolation ∈ c then
    [⟨decide (t ≠ .audit), none, fun _ s r => tenantMatches s (tenantId r)⟩] else [])

/-- The rows of a table a session reads. -/
def readable (c : Finset Obj) (t : Table) (s : PgSession) (rows : List ρ) : List ρ :=
  visibleRows (tablePolicies tenantId c t) (s.bypassRls || decide (rowSecurity t ∉ c)) s rows

/-- The session may insert the row. -/
def insertable (c : Finset Obj) (t : Table) (s : PgSession) (r : ρ) : Bool :=
  insertAdmitted (tablePolicies tenantId c t) (s.bypassRls || decide (rowSecurity t ∉ c)) s r

theorem tenantMatches_iff (hs : s.setting = some tenant) (t : String) :
    tenantMatches s t = true ↔ t = tenant := by
  simp [tenantMatches, hs]

/-- `audit_append_only` is a policy of `audit` alone. -/
theorem appendOnly_history (h : policy t .appendOnly ∈ history server events) : t = .audit := by
  by_contra ht
  have hmake : ∀ s ∈ script, s.mayMake Obj.sort (policy t .appendOnly) = false := by
    cases t
    case audit => exact absurd rfl ht
    all_goals decide +kernel
  have hfresh : policy t .appendOnly ∈ fresh server :=
    mem_of_mem_history (fun hsort => by cases hsort) hmake h
  obtain ⟨e, -, he⟩ := Finset.mem_image.mp hfresh
  cases he

/-- While row-level security is on, what a session with a tenant reads and may
insert depends on the policies that are there. -/
theorem insertable_iff (hsec : rowSecurity t ∈ history server events)
    (hbypass : s.bypassRls = false) (hs : s.setting = some tenant) (r : ρ) :
    insertable tenantId (history server events) t s r = true ↔
      if t = .audit then
        policy .audit .appendOnly ∈ history server events ∧
          (policy .audit .tenantIsolation ∈ history server events → tenantId r = tenant)
      else policy t .tenantIsolation ∈ history server events ∧ tenantId r = tenant := by
  have hmatches := tenantMatches_iff hs (tenantId r)
  rw [insertable, insertAdmitted, hbypass, decide_eq_false (not_not.mpr hsec)]
  -- The log has two policies, each of which may be missing for a moment; every other table
  -- has one.
  by_cases ht : t = .audit
  · subst ht
    by_cases happend : policy .audit .appendOnly ∈ history server events <;>
      by_cases hiso : policy .audit .tenantIsolation ∈ history server events <;>
      simp [tablePolicies, rowAdmitted, RowSecurity.Policy.appliesTo, happend, hiso, hmatches]
  · have happend : policy t .appendOnly ∉ history server events :=
      fun h => ht (appendOnly_history h)
    by_cases hiso : policy t .tenantIsolation ∈ history server events <;>
      simp [tablePolicies, rowAdmitted, RowSecurity.Policy.appliesTo, happend, hiso, hmatches, ht]

/-- What a session with a tenant reads while row-level security is on. -/
theorem readable_eq (hsec : rowSecurity t ∈ history server events) (hbypass : s.bypassRls = false)
    (hs : s.setting = some tenant) (rows : List ρ) :
    readable tenantId (history server events) t s rows =
      if t ≠ .audit ∧ policy t .tenantIsolation ∈ history server events then
        rows.filter fun r => tenantId r = tenant
      else [] := by
  have hmatches : ∀ r, tenantMatches s (tenantId r) = decide (tenantId r = tenant) := by
    intro r
    rw [Bool.eq_iff_iff, tenantMatches_iff hs, decide_eq_true_iff]
  rw [readable, hbypass, decide_eq_false (not_not.mpr hsec)]
  by_cases hiso : t ≠ .audit ∧ policy t .tenantIsolation ∈ history server events
  · have happend : policy t .appendOnly ∉ history server events :=
      fun h => hiso.1 (appendOnly_history h)
    rw [if_pos hiso]
    refine List.filter_congr fun r _ => ?_
    simp [tablePolicies, rowAdmitted, RowSecurity.Policy.appliesTo, happend, hiso.1, hiso.2,
      hmatches]
  -- Without the policy of the tenants none applies to a reading, so no row is visible.
  · rw [if_neg hiso]
    refine visibleRows_eq_nil (fun p hp happlies => ?_) s rows
    rcases List.mem_append.mp hp with hp | hp
    · split at hp
      · rw [List.mem_singleton.mp hp] at happlies
        cases happlies
      · cases hp
    · split at hp
      · rename_i hpolicy
        obtain rfl : t = .audit := by
          by_contra ht
          exact hiso ⟨ht, hpolicy⟩
        rw [List.mem_singleton.mp hp]
        rfl
      · cases hp

/-- **Isolation while the migrations run.**  Once row-level security of a table
is on, a session with a tenant reads rows of that tenant only, at every moment
after: also while a pass has dropped the policy.  It inserts rows of other
tenants into `audit` only, and there exactly while `audit_tenant_isolation` is
dropped and `audit_append_only` is not. -/
theorem isolated_history {server : Finset Extension} {before : List Event} (later : List Event)
    (hsec : rowSecurity t ∈ history server before) (hbypass : s.bypassRls = false)
    (hs : s.setting = some tenant) :
    (∀ rows, ∀ r ∈ readable tenantId (history server (before ++ later)) t s rows,
        tenantId r = tenant) ∧
      ∀ r, tenantId r ≠ tenant →
        (insertable tenantId (history server (before ++ later)) t s r = true ↔
          t = .audit ∧ policy .audit .appendOnly ∈ history server (before ++ later) ∧
            policy .audit .tenantIsolation ∉ history server (before ++ later)) := by
  have hsort : (rowSecurity t).sort ≠ .policy := fun h => by cases h
  -- Row-level security is never turned off again.
  have hsec := mem_history_append hsort later hsec
  refine ⟨fun rows r hr => ?_, fun r hr => ?_⟩
  · rw [readable_eq tenantId hsec hbypass hs] at hr
    split at hr
    · exact of_decide_eq_true (List.mem_filter.mp hr).2
    · cases hr
  · rw [insertable_iff tenantId hsec hbypass hs]
    by_cases ht : t = .audit <;> simp [ht, hr]

/-- Up to the row-level security of `audit`, before its policies are made. -/
def untilRowSecurity : List Event :=
  [.statement ⟨ensure [] (table .orgs), by simp only [script, init0001, List.mem_append,
      List.mem_cons, true_or, or_true]⟩,
    .statement ⟨ensure [table .orgs] (table .users), by simp only [script, init0001,
      List.mem_append, List.mem_cons, true_or, or_true]⟩,
    .statement ⟨ensure [table .users] (table .audit), by simp only [script, init0001,
      List.mem_append, List.mem_cons, true_or, or_true]⟩,
    .statement ⟨ensure [table .audit] (rowSecurity .audit), by simp only [script, init0001,
      List.mem_append, List.mem_cons, true_or, or_true]⟩]

theorem isolated_history_untilRowSecurity :
    (∀ rows, ∀ r ∈ readable id (history {.vector} (untilRowSecurity ++ [])) .audit
        ⟨some "acme", false⟩ rows, id r = "acme") ∧
      ∀ r, id r ≠ "acme" →
        (insertable id (history {.vector} (untilRowSecurity ++ [])) .audit ⟨some "acme", false⟩ r =
            true ↔
          Table.audit = .audit ∧
            policy .audit .appendOnly ∈ history {.vector} (untilRowSecurity ++ []) ∧
            policy .audit .tenantIsolation ∉ history {.vector} (untilRowSecurity ++ [])) :=
  isolated_history id [] (by decide) rfl rfl

end Isolation

/-! ### By hand -/

/-- Once the domain is there, the first file ends at it. -/
theorem runStopping_init0001 (hdomain : permMaskDomain ∈ c) :
    runStopping Obj.sort init0001 c = runStopping Obj.sort (init0001.take 2) c := by
  have hfile : init0001 = init0001.take 2 ++ create [] permMaskDomain :: init0001.drop 3 := rfl
  rw [hfile]
  refine runStopping_create hdomain fun s hs => ?_
  rcases List.mem_pair.mp hs with rfl | rfl <;> rfl

theorem applyByHand_eq (c : Finset Obj) :
    applyByHand c = runStopping Obj.sort v20 (runStopping Obj.sort v15 (runStopping Obj.sort v10
      (runStopping Obj.sort v05 (runStopping Obj.sort init0001 c)))) := by
  simp only [applyByHand, bundle, List.foldl_cons, List.foldl_nil]

/-- What is not a policy outlasts the files. -/
theorem mem_applyByHand (hpolicy : x.sort ≠ .policy) (hx : x ∈ c) : x ∈ applyByHand c := by
  have hfile : ∀ {file : List Sql} {c : Finset Obj}, (∀ s ∈ file, s ∈ script) → x ∈ c →
      x ∈ runStopping Obj.sort file c :=
    fun hfile hx => mem_runStopping hx fun s hs => drops_script hpolicy s (hfile s hs)
  rw [applyByHand_eq]
  refine hfile ?_ (hfile ?_ (hfile ?_ (hfile ?_ (hfile ?_ hx)))) <;>
    intro s hs <;> simp only [script, List.mem_append, hs, true_or, or_true]

/-- What they make, once the domain is there, is an extension or made behind the
first file. -/
theorem mem_of_mem_applyByHand (hdomain : permMaskDomain ∈ c) (hext : ∀ e, x ≠ extension e)
    (hlater : ∀ s ∈ v05 ++ v10 ++ v15 ++ v20, s.mayMake Obj.sort x = false)
    (hx : x ∈ applyByHand c) : x ∈ c := by
  have hsorted := wellSorted_script
  simp only [script, List.forall_mem_append] at hsorted hlater
  obtain ⟨⟨⟨⟨h0001, h05⟩, h10⟩, h15⟩, h20⟩ := hsorted
  rw [applyByHand_eq, runStopping_init0001 hdomain] at hx
  have hfirst := mem_of_mem_runStopping h05 (mem_of_mem_runStopping h10 (mem_of_mem_runStopping h15
    (mem_of_mem_runStopping h20 hx hlater.2) hlater.1.2) hlater.1.1.2) hlater.1.1.1
  have hbegin : ∀ s ∈ init0001.take 2, s.WellSorted Obj.sort :=
    fun s hs => h0001 s (List.mem_of_mem_take hs)
  refine mem_of_mem_runStopping hbegin hfirst fun s hs => ?_
  rcases List.mem_pair.mp hs with rfl | rfl
  · exact decide_eq_false (hext .vector).symm
  · exact decide_eq_false (hext .pgcrypto).symm

/-- **By hand the first file is never made up for.**  Once the domain is there,
what it makes besides the extensions is after any number of passes just what it
was before them. -/
theorem mem_applyByHand_iff {c : Finset Obj} {x : Obj} (hdomain : permMaskDomain ∈ c)
    (hpolicy : x.sort ≠ .policy) (hext : ∀ e, x ≠ extension e)
    (hlater : ∀ s ∈ v05 ++ v10 ++ v15 ++ v20, s.mayMake Obj.sort x = false) (n : ℕ) :
    x ∈ applyByHand^[n] c ↔ x ∈ c := by
  induction n generalizing c with
  | zero => exact Iff.rfl
  | succ n ih =>
      rw [Function.iterate_succ_apply, ih (mem_applyByHand (fun h => by cases h) hdomain)]
      exact ⟨mem_of_mem_applyByHand hdomain hext hlater, mem_applyByHand hpolicy⟩

/-- The append-only trigger of a partition added after the first file. -/
theorem mem_applyByHand_iff_noUpdate :
    trigger "audit_2025_09" .noUpdate ∈
        applyByHand^[2] {permMaskDomain, partition "audit_2025_09"} ↔
      trigger "audit_2025_09" .noUpdate ∈
        ({permMaskDomain, partition "audit_2025_09"} : Finset Obj) :=
  mem_applyByHand_iff (by decide) (by decide) (fun e h => by cases h) (by decide +kernel) 2

end Migrations

end AgenticIde
