/-
AgenticIde/Lib/Script.lean

Scripts that define the objects of a catalog.  A statement needs some objects
to be there; it makes one, drops one, or makes one for each object of a sort,
unless it cannot deal with one of these.  It is atomic: where it fails, the
catalog is as it was.

Run so that failures are passed over, a statement can only do more from a
larger catalog (`run_mono`), as long as the catalogs have nothing that a loop
cannot deal with and no statement makes such a thing (`Sound`).  A script is
ordered when what its statements need is not made behind them, and what they
make is not dropped behind them.  Then the catalog `run script base` is closed
under every statement of the script, in whatever order (`effect_subset_run`),
and the script comes to it from every catalog that lies between:

    base ⊆ c ⊆ run script base  →  run script c = run script base.
-/
import Mathlib.Data.Finset.Image

namespace AgenticIde

namespace Script

/-- The statements over objects `α` of sorts `κ`. -/
inductive Statement (α κ : Type*)
  /-- Make `x` unless it is there, or make it anew. -/
  | ensure (needs : List α) (x : α)
  /-- Make `x`; an error where it is there. -/
  | create (needs : List α) (x : α)
  /-- Drop `x` if it is there. -/
  | drop (x : α)
  /-- Make `f y`, which is of sort `b`, for every `y` of sort `a`; an error where one of
  these is not `ok`. -/
  | forEach (needs : List α) (a b : κ) (ok : α → Bool) (f : α → α)

variable {α κ : Type*} [DecidableEq α] [DecidableEq κ] (sort : α → κ)

namespace Statement

/-- The catalog a statement leaves, unless it fails. -/
def exec : Statement α κ → Finset α → Option (Finset α)
  | ensure needs x, c => if ∀ n ∈ needs, n ∈ c then some (insert x c) else none
  | create needs x, c => if (∀ n ∈ needs, n ∈ c) ∧ x ∉ c then some (insert x c) else none
  | drop x, c => some (c.erase x)
  | forEach needs a _ ok f, c =>
      if (∀ n ∈ needs, n ∈ c) ∧ ∀ y ∈ c, sort y = a → ok y = true then
        some (c ∪ (c.filter (sort · = a)).image f)
      else none

/-- The catalog after a statement, whether it fails or not. -/
def effect (s : Statement α κ) (c : Finset α) : Finset α := (s.exec sort c).getD c

/-- The statement is one that could make `x`. -/
def mayMake (x : α) : Statement α κ → Bool
  | ensure _ y => y = x
  | create _ y => y = x
  | drop _ => false
  | forEach _ _ b _ _ => sort x = b

/-- The statement is one that could make objects of sort `a`. -/
def mayMakeSort (a : κ) : Statement α κ → Bool
  | ensure _ y => sort y = a
  | create _ y => sort y = a
  | drop _ => false
  | forEach _ _ b _ _ => a = b

/-- The statement drops `x`. -/
def drops (x : α) : Statement α κ → Bool
  | drop y => y = x
  | _ => false

/-- The statement drops an object of sort `b`. -/
def dropsSort (b : κ) : Statement α κ → Bool
  | drop y => sort y = b
  | _ => false

/-- The statement drops objects of sort `b` only. -/
def dropsOnlySort (b : κ) : Statement α κ → Bool
  | drop y => sort y = b
  | _ => true

/-- What is made for each object is of the sort it is said to be. -/
def WellSorted : Statement α κ → Prop
  | forEach _ a b _ f => ∀ y, sort y = a → sort (f y) = b
  | _ => True

/-- What the statement makes is `good`, and with what is good it can deal. -/
def Sound (good : α → Prop) : Statement α κ → Prop
  | ensure _ x => good x
  | create _ x => good x
  | drop _ => True
  | forEach _ a _ ok f => ∀ y, sort y = a → good y → ok y = true ∧ good (f y)

/-- What `s` needs is not made by it or behind it, and what it makes is not
dropped behind it. -/
def settled (s : Statement α κ) (rest : List (Statement α κ)) : Bool :=
  match s with
  | ensure needs x =>
      needs.all (fun n => (s :: rest).all fun s' => !s'.mayMake sort n) &&
        rest.all fun s' => !s'.drops x
  | create needs x =>
      needs.all (fun n => (s :: rest).all fun s' => !s'.mayMake sort n) &&
        rest.all fun s' => !s'.drops x
  | drop _ => true
  | forEach needs a b _ _ =>
      needs.all (fun n => (s :: rest).all fun s' => !s'.mayMake sort n) &&
        (s :: rest).all (fun s' => !s'.mayMakeSort sort a) &&
        rest.all fun s' => !s'.dropsSort sort b

end Statement

/-- Every statement is settled by those behind it. -/
def ordered : List (Statement α κ) → Bool
  | [] => true
  | s :: rest => s.settled sort rest && ordered rest

/-- Run a script to its end, whatever fails. -/
def run (script : List (Statement α κ)) (c : Finset α) : Finset α :=
  script.foldl (fun c s => s.effect sort c) c

/-- Run a script up to its first failure. -/
def runStopping : List (Statement α κ) → Finset α → Finset α
  | [], c => c
  | s :: rest, c =>
      match s.exec sort c with
      | none => c
      | some c' => runStopping rest c'

open Statement

variable {sort} {s : Statement α κ} {script pre rest : List (Statement α κ)} {x : α}
  {base c c' : Finset α}

@[simp] theorem run_nil : run sort [] c = c := rfl

@[simp] theorem run_cons : run sort (s :: rest) c = run sort rest (s.effect sort c) := rfl

@[simp] theorem run_append : run sort (pre ++ rest) c = run sort rest (run sort pre c) :=
  List.foldl_append

/-! ### One statement -/

theorem effect_ensure {needs : List α} :
    (ensure needs x : Statement α κ).effect sort c =
      if ∀ n ∈ needs, n ∈ c then insert x c else c := by
  simp only [effect, exec]
  split <;> rfl

/-- Where the object is there, the failure of a `create` makes no
difference. -/
theorem effect_create {needs : List α} :
    (create needs x : Statement α κ).effect sort c =
      if ∀ n ∈ needs, n ∈ c then insert x c else c := by
  by_cases hx : x ∈ c
  · simp [effect, exec, hx]
  · simp only [effect, exec, hx, not_false_eq_true, and_true]
    split <;> rfl

theorem effect_drop : (drop x : Statement α κ).effect sort c = c.erase x := rfl

theorem effect_forEach {needs : List α} {a b : κ} {ok : α → Bool} {f : α → α} :
    (forEach needs a b ok f).effect sort c =
      if (∀ n ∈ needs, n ∈ c) ∧ ∀ y ∈ c, sort y = a → ok y = true then
        c ∪ (c.filter (sort · = a)).image f
      else c := by
  simp only [effect, exec]
  split <;> rfl

/-- What is good stays so. -/
theorem good_effect {good : α → Prop} (hs : s.Sound sort good) (hc : ∀ y ∈ c, good y) :
    ∀ y ∈ s.effect sort c, good y := by
  have hsingle : ∀ {needs : List α} {x : α}, good x →
      ∀ y ∈ (if ∀ n ∈ needs, n ∈ c then insert x c else c), good y := by
    intro needs x hx
    split
    · exact Finset.forall_mem_insert _ _ _ |>.mpr ⟨hx, hc⟩
    · exact hc
  rcases s with ⟨needs, x⟩ | ⟨needs, x⟩ | x | ⟨needs, a, b, ok, f⟩
  · rw [effect_ensure]
    exact hsingle hs
  · rw [effect_create]
    exact hsingle hs
  · exact fun y hy => hc y (Finset.mem_of_mem_erase hy)
  · rw [effect_forEach]
    split
    · intro y hy
      rcases Finset.mem_union.mp hy with hy | hy
      · exact hc y hy
      · obtain ⟨x, hx, rfl⟩ := Finset.mem_image.mp hy
        obtain ⟨hx, hsort⟩ := Finset.mem_filter.mp hx
        exact (hs x hsort (hc x hx)).2
    · exact hc

/-- From a larger catalog a statement leaves a larger one, if it can deal with that. -/
theorem effect_mono {good : α → Prop} (hs : s.Sound sort good) (hc' : ∀ y ∈ c', good y)
    (h : c ⊆ c') : s.effect sort c ⊆ s.effect sort c' := by
  -- what can be done in the smaller one can be done in the larger one
  have hguard : ∀ {p p' : Prop} [Decidable p] [Decidable p'] {d d' : Finset α}, (p → p') →
      d ⊆ d' → c' ⊆ d' → (if p then d else c) ⊆ if p' then d' else c' := by
    intro p p' _ _ d d' hp hd hd'
    by_cases hcan : p
    · rw [if_pos hcan, if_pos (hp hcan)]
      exact hd
    · rw [if_neg hcan]
      split
      · exact h.trans hd'
      · exact h
  have hneeds : ∀ {needs : List α}, (∀ n ∈ needs, n ∈ c) → ∀ n ∈ needs, n ∈ c' :=
    fun hneeds n hn => h (hneeds n hn)
  rcases s with ⟨needs, x⟩ | ⟨needs, x⟩ | x | ⟨needs, a, b, ok, f⟩
  · rw [effect_ensure, effect_ensure]
    exact hguard hneeds (Finset.insert_subset_insert x h) (Finset.subset_insert x c')
  · rw [effect_create, effect_create]
    exact hguard hneeds (Finset.insert_subset_insert x h) (Finset.subset_insert x c')
  · exact Finset.erase_subset_erase x h
  · rw [effect_forEach, effect_forEach]
    refine hguard (fun hcan => ⟨hneeds hcan.1, fun y hy hsort => (hs y hsort (hc' y hy)).1⟩) ?_
      Finset.subset_union_left
    exact Finset.union_subset_union h
      (Finset.image_subset_image (Finset.filter_subset_filter _ h))

theorem mem_effect (hx : x ∈ c) (hdrops : s.drops x = false) : x ∈ s.effect sort c := by
  rcases s with ⟨needs, y⟩ | ⟨needs, y⟩ | y | ⟨needs, a, b, ok, f⟩
  · rw [effect_ensure]
    split
    · exact Finset.mem_insert_of_mem hx
    · exact hx
  · rw [effect_create]
    split
    · exact Finset.mem_insert_of_mem hx
    · exact hx
  · rw [effect_drop]
    exact Finset.mem_erase.mpr ⟨fun h => by simp [drops, h] at hdrops, hx⟩
  · rw [effect_forEach]
    split
    · exact Finset.mem_union_left _ hx
    · exact hx

/-- What a statement could not make was there before it. -/
theorem mem_of_mem_effect (hsorted : s.WellSorted sort) (hx : x ∈ s.effect sort c)
    (hmake : s.mayMake sort x = false) : x ∈ c := by
  have hsingle : ∀ {needs : List α} {y : α}, decide (y = x) = false →
      x ∈ (if ∀ n ∈ needs, n ∈ c then insert y c else c) → x ∈ c := by
    intro needs y hy hx
    split at hx
    · exact (Finset.mem_insert.mp hx).resolve_left fun h => by simp [h] at hy
    · exact hx
  rcases s with ⟨needs, y⟩ | ⟨needs, y⟩ | y | ⟨needs, a, b, ok, f⟩
  · rw [effect_ensure] at hx
    exact hsingle hmake hx
  · rw [effect_create] at hx
    exact hsingle hmake hx
  · exact Finset.mem_of_mem_erase hx
  · rw [effect_forEach] at hx
    split at hx
    · rcases Finset.mem_union.mp hx with hx | hx
      · exact hx
      · obtain ⟨y, hy, rfl⟩ := Finset.mem_image.mp hx
        have hsort : sort (f y) = b := hsorted y (Finset.mem_filter.mp hy).2
        simp [mayMake, hsort] at hmake
    · exact hx

/-! ### Runs -/

theorem run_mono {good : α → Prop} (hsound : ∀ s ∈ script, s.Sound sort good)
    (hc' : ∀ y ∈ c', good y) (h : c ⊆ c') : run sort script c ⊆ run sort script c' := by
  induction script generalizing c c' with
  | nil => exact h
  | cons s rest ih =>
      obtain ⟨hs, hrest⟩ := List.forall_mem_cons.mp hsound
      exact ih hrest (good_effect hs hc') (effect_mono hs hc' h)

theorem good_run {good : α → Prop} (hsound : ∀ s ∈ script, s.Sound sort good)
    (hc : ∀ y ∈ c, good y) : ∀ y ∈ run sort script c, good y := by
  induction script generalizing c with
  | nil => exact hc
  | cons s rest ih =>
      obtain ⟨hs, hrest⟩ := List.forall_mem_cons.mp hsound
      exact ih hrest (good_effect hs hc)

theorem mem_run (hx : x ∈ c) (hdrops : ∀ s ∈ script, s.drops x = false) :
    x ∈ run sort script c := by
  induction script generalizing c with
  | nil => exact hx
  | cons s rest ih =>
      obtain ⟨hs, hrest⟩ := List.forall_mem_cons.mp hdrops
      exact ih (mem_effect hx hs) hrest

theorem mem_of_mem_run (hsorted : ∀ s ∈ script, s.WellSorted sort) (hx : x ∈ run sort script c)
    (hmake : ∀ s ∈ script, s.mayMake sort x = false) : x ∈ c := by
  induction script generalizing c with
  | nil => exact hx
  | cons s rest ih =>
      obtain ⟨hs, hrest⟩ := List.forall_mem_cons.mp hmake
      obtain ⟨hsorts, hrests⟩ := List.forall_mem_cons.mp hsorted
      exact mem_of_mem_effect hsorts (ih hrests hx hrest) hs

theorem mayMake_eq_false_of_sort {a : κ} (hsort : sort x = a)
    (h : s.mayMakeSort sort a = false) : s.mayMake sort x = false := by
  rcases s with ⟨needs, y⟩ | ⟨needs, y⟩ | y | ⟨needs, a', b, ok, f⟩
  · refine decide_eq_false fun hy => ?_
    simp [mayMakeSort, hy, hsort] at h
  · refine decide_eq_false fun hy => ?_
    simp [mayMakeSort, hy, hsort] at h
  · rfl
  · show decide (sort x = b) = false
    rw [hsort]
    exact h

theorem drops_eq_false_of_sort {b : κ} (hsort : sort x = b)
    (h : s.dropsSort sort b = false) : s.drops x = false := by
  rcases s with _ | _ | y | _
  · rfl
  · rfl
  · refine decide_eq_false fun hy => ?_
    simp [dropsSort, hy, hsort] at h
  · rfl

theorem drops_eq_false_of_ne_sort {b : κ} (hsort : sort x ≠ b)
    (h : s.dropsOnlySort sort b = true) : s.drops x = false := by
  rcases s with _ | _ | y | _
  · rfl
  · rfl
  · refine decide_eq_false fun hy => hsort ?_
    rw [← hy]
    exact of_decide_eq_true h
  · rfl

/-- The final catalog is closed under a statement that is settled. -/
theorem effect_subset_of_settled {good : α → Prop} (hsettled : s.settled sort rest = true)
    (hsorted : ∀ s' ∈ s :: rest, s'.WellSorted sort) (hs : s.Sound sort good) {c₁ : Finset α}
    (hc₁ : ∀ y ∈ c₁, good y) (hc : c ⊆ run sort (s :: rest) c₁) :
    s.effect sort c ⊆ run sort (s :: rest) c₁ := by
  -- what the statement needs, and has now, it had in the run
  have hneeded : ∀ {needs : List α}, (∀ n ∈ needs, n ∈ c) →
      (∀ n ∈ needs, ∀ s' ∈ s :: rest, s'.mayMake sort n = false) → ∀ n ∈ needs, n ∈ c₁ :=
    fun hneeds hmake n hn => mem_of_mem_run hsorted (hc (hneeds n hn)) (hmake n hn)
  -- and what it made then is still there
  have hsingle : ∀ {needs : List α} {x : α},
      s.effect sort c₁ = (if ∀ n ∈ needs, n ∈ c₁ then insert x c₁ else c₁) →
      (∀ n ∈ needs, ∀ s' ∈ s :: rest, s'.mayMake sort n = false) →
      (∀ s' ∈ rest, s'.drops x = false) →
      (if ∀ n ∈ needs, n ∈ c then insert x c else c) ⊆ run sort (s :: rest) c₁ := by
    intro needs x heffect hmake hdrops
    split
    · rename_i hneeds
      have hx : x ∈ s.effect sort c₁ := by
        rw [heffect, if_pos (hneeded hneeds hmake)]
        exact Finset.mem_insert_self x c₁
      refine Finset.insert_subset ?_ hc
      show x ∈ run sort rest _
      exact mem_run hx hdrops
    · exact hc
  rcases s with ⟨needs, x⟩ | ⟨needs, x⟩ | x | ⟨needs, a, b, ok, f⟩
  · simp only [settled, Bool.and_eq_true, List.all_eq_true, Bool.not_eq_true'] at hsettled
    rw [effect_ensure]
    exact hsingle effect_ensure hsettled.1 hsettled.2
  · simp only [settled, Bool.and_eq_true, List.all_eq_true, Bool.not_eq_true'] at hsettled
    rw [effect_create]
    exact hsingle effect_create hsettled.1 hsettled.2
  · exact (Finset.erase_subset x c).trans hc
  · simp only [settled, Bool.and_eq_true, List.all_eq_true, Bool.not_eq_true'] at hsettled
    obtain ⟨⟨hmake, hmakeSort⟩, hdrops⟩ := hsettled
    rw [effect_forEach]
    split
    · rename_i hcan
      refine Finset.union_subset hc fun z hz => ?_
      obtain ⟨y, hy, rfl⟩ := Finset.mem_image.mp hz
      obtain ⟨hyc, hsort⟩ := Finset.mem_filter.mp hy
      -- all objects of the sort were there when the statement ran
      have hy₁ : y ∈ c₁ := mem_of_mem_run hsorted (hc hyc) fun s' hs' =>
        mayMake_eq_false_of_sort hsort (hmakeSort s' hs')
      have hfy : f y ∈ (forEach needs a b ok f).effect sort c₁ := by
        rw [effect_forEach, if_pos ⟨hneeded hcan.1 hmake, fun y hy hsort =>
          (hs y hsort (hc₁ y hy)).1⟩]
        exact Finset.mem_union_right _
          (Finset.mem_image_of_mem f (Finset.mem_filter.mpr ⟨hy₁, hsort⟩))
      have hdropped : ∀ s' ∈ rest, s'.drops (f y) = false := fun s' hs' =>
        drops_eq_false_of_sort (hsorted _ List.mem_cons_self y hsort) (hdrops s' hs')
      show f y ∈ run sort rest _
      exact mem_run hfy hdropped
    · exact hc

/-- **The final catalog is closed** under the statements of an ordered script, in
whatever order they come.  So nothing is new to it, and a script can be run on it
again. -/
theorem effect_subset_run {good : α → Prop} (hordered : ordered sort script = true)
    (hsorted : ∀ s ∈ script, s.WellSorted sort) (hsound : ∀ s ∈ script, s.Sound sort good)
    (hbase : ∀ y ∈ base, good y) (hs : s ∈ script) (hc : c ⊆ run sort script base) :
    s.effect sort c ⊆ run sort script base := by
  induction script generalizing base with
  | nil => cases hs
  | cons s' rest ih =>
      obtain ⟨hsettled, hrest⟩ := Bool.and_eq_true_iff.mp hordered
      obtain ⟨hsound', hsounds⟩ := List.forall_mem_cons.mp hsound
      rcases List.mem_cons.mp hs with rfl | hs
      · exact effect_subset_of_settled hsettled hsorted hsound' hbase hc
      · exact ih hrest (List.forall_mem_cons.mp hsorted).2 hsounds (good_effect hsound' hbase) hs hc

theorem run_subset_run {good : α → Prop} (hordered : ordered sort script = true)
    (hsorted : ∀ s ∈ script, s.WellSorted sort) (hsound : ∀ s ∈ script, s.Sound sort good)
    (hbase : ∀ y ∈ base, good y) {part : List (Statement α κ)} (hpart : ∀ s ∈ part, s ∈ script)
    (hc : c ⊆ run sort script base) :
    run sort part c ⊆ run sort script base := by
  induction part generalizing c with
  | nil => exact hc
  | cons s rest ih =>
      obtain ⟨hs, hrest⟩ := List.forall_mem_cons.mp hpart
      exact ih hrest (effect_subset_run hordered hsorted hsound hbase hs hc)

/-- **Convergence.** From every catalog between the base and its final one, an
ordered script comes to the final one.  Such a catalog is what a run that broke off
leaves, whatever it had done by then. -/
theorem run_eq_of_between {good : α → Prop} (hordered : ordered sort script = true)
    (hsorted : ∀ s ∈ script, s.WellSorted sort) (hsound : ∀ s ∈ script, s.Sound sort good)
    (hgood : ∀ y ∈ base, good y) (hbase : base ⊆ c) (hc : c ⊆ run sort script base) :
    run sort script c = run sort script base :=
  (run_subset_run hordered hsorted hsound hgood (fun _ hs => hs) hc).antisymm
    (run_mono hsound (fun y hy => good_run hsound hgood y (hc hy)) hbase)

/-! ### Runs up to the first failure -/

theorem mem_runStopping (hx : x ∈ c) (hdrops : ∀ s ∈ script, s.drops x = false) :
    x ∈ runStopping sort script c := by
  induction script generalizing c with
  | nil => exact hx
  | cons s rest ih =>
      obtain ⟨hs, hrest⟩ := List.forall_mem_cons.mp hdrops
      have hmem : x ∈ s.effect sort c := mem_effect hx hs
      rw [runStopping]
      rcases he : s.exec sort c with - | c'
      · exact hx
      · rw [effect, he] at hmem
        exact ih hmem hrest

theorem mem_of_mem_runStopping (hsorted : ∀ s ∈ script, s.WellSorted sort)
    (hx : x ∈ runStopping sort script c) (hmake : ∀ s ∈ script, s.mayMake sort x = false) :
    x ∈ c := by
  induction script generalizing c with
  | nil => exact hx
  | cons s rest ih =>
      obtain ⟨hs, hrest⟩ := List.forall_mem_cons.mp hmake
      obtain ⟨hsorts, hrests⟩ := List.forall_mem_cons.mp hsorted
      rw [runStopping] at hx
      rcases he : s.exec sort c with - | c' <;> rw [he] at hx
      · exact hx
      · refine mem_of_mem_effect hsorts ?_ hs
        rw [effect, he]
        exact ih hrests hx hrest

/-- A `create` of what is there ends the run. -/
theorem runStopping_create {needs : List α} (hx : x ∈ c) (hdrops : ∀ s ∈ pre, s.drops x = false) :
    runStopping sort (pre ++ create needs x :: rest) c = runStopping sort pre c := by
  induction pre generalizing c with
  | nil =>
      have hfails : (create needs x : Statement α κ).exec sort c = none := if_neg fun h => h.2 hx
      simp only [List.nil_append, runStopping, hfails]
  | cons s pre ih =>
      obtain ⟨hs, hrest⟩ := List.forall_mem_cons.mp hdrops
      have hmem : x ∈ s.effect sort c := mem_effect hx hs
      rw [List.cons_append, runStopping, runStopping]
      rcases he : s.exec sort c with - | c'
      · rfl
      · rw [effect, he] at hmem
        exact ih hmem hrest

-- a run of a concrete script is not to be computed when terms are compared
attribute [irreducible] run runStopping

end Script

end AgenticIde
