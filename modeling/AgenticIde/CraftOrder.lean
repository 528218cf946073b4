/-
AgenticIde/CraftOrder.lean

The order of a craft plan, on documents in memory.

Confirming an edit reads and writes the one document it names (`confirm_onDocument`), so the
edits of a plan that name different documents do not meet: each gets the result it gets
alone, whatever became of the others (`confirmFrom_alone`), and the order of the plan does
not show (`confirmAll_perm`).

The whole of an edit is a function of one document: the right of the principal, whether
there is such a document, and whether the old text is in it (`CraftProposal.onDocument`).
A plan goes on after a proposal that fails, so no result hangs on an earlier one by way of
the loop.

Edits of one document do meet, and then the order counts; a plan with two of them is outside
of the statement, and not refuted by it.  The sink is asked for every proposal, in the order
of the plan, and may keep what it likes; it is beside the documents and has no part in the
comparison.
-/
import AgenticIde.HostCraft

namespace AgenticIde

open Str

variable {ρ : Type}

/-! ### One document -/

/-- What an edit makes of the document it names. -/
def TextEdit.onDocument (edit : TextEdit) : Option String → Except HostError Unit × Option String
  | none => (.error (.documentNotFound edit.documentUri), none)
  | some doc =>
      if contains edit.oldText doc then
        (.ok (), some (replaceFirst edit.oldText edit.newText doc))
      else (.error (.editRejected "old_text not found in document"), some doc)

/-- The host in memory changes that document, and looks at no other. -/
theorem CliHost.applyEdit_onDocument (edit : TextEdit) (docs : Docs) :
    CliHost.applyEdit edit docs =
      ((edit.onDocument (docs edit.documentUri)).1,
        Function.update docs edit.documentUri (edit.onDocument (docs edit.documentUri)).2) := by
  rw [CliHost.applyEdit]
  rcases hdoc : docs edit.documentUri with - | doc
  · simp only [TextEdit.onDocument]
    rw [← hdoc, Function.update_eq_self]
  · simp only [TextEdit.onDocument]
    by_cases hold : contains edit.oldText doc = true
    · rw [if_pos hold, if_pos hold]
    · rw [if_neg hold, if_neg hold, ← hdoc, Function.update_eq_self]

/-- What confirming an edit comes to, on the document it names. -/
def CraftProposal.onDocument (principal : Principal) (p : CraftProposal) (doc : Option String) :
    Except String CraftProposal × Option String :=
  match checkPermission principal p.kind.requiredPermission with
  -- refused before the host is asked
  | .error e => (.error e.toString, doc)
  | .ok () =>
      (((p.edit.onDocument doc).1.mapError HostError.toString).map fun _ =>
        { p with state := .applied }, (p.edit.onDocument doc).2)

/-- **Confirming an edit stays within its document.**  Its result and what it writes
are functions of that document alone, and every other document stays as it is. -/
theorem confirm_onDocument (sink : AuditSink ρ) (perms : PermissionSet) (principal : Principal)
    {p : CraftProposal} (hkind : p.kind = .fileEdit) (w : World (Docs × ρ)) :
    ((CraftEngine.over CliHost.applyEdit sink perms principal).confirm p w).result =
        (p.onDocument principal (w.env.1 p.documentUri)).1 ∧
      ((CraftEngine.over CliHost.applyEdit sink perms principal).confirm p w).state.env.1 =
        Function.update w.env.1 p.documentUri
          (p.onDocument principal (w.env.1 p.documentUri)).2 := by
  -- Without the right the document is put back as it was, which changes nothing.
  rcases hholds : principal.holds p.kind.requiredPermission with - | -
  · have hcheck := checkPermission_of_not_holds hholds
    simp only [CraftProposal.onDocument, hcheck, Function.update_eq_self]
    simp only [CraftEngine.confirm, CraftEngine.over, hcheck]
    exact ⟨rfl, rfl⟩
  · have hcheck := checkPermission_of_holds hholds
    obtain ⟨w', ev, answer, hconfirm, hdocs, -⟩ :=
      confirm_fileEdit CliHost.applyEdit sink perms hholds hkind w
    rw [hconfirm]
    simp only [CraftProposal.onDocument, hcheck, hdocs, CliHost.applyEdit_onDocument]
    exact ⟨rfl, rfl⟩

/-! ### A plan -/

/-- A proposal after it is confirmed, with its result. -/
def CraftProposal.confirmed (p : CraftProposal) (r : Except String CraftProposal) :
    CraftProposal × Except String CraftState :=
  (p.settle r, r.map CraftProposal.state)

/-- In a plan a proposal is confirmed as it is alone; only its events are marked. -/
theorem confirmAt_apply {ε ε' : Type} (engine : CraftEngine ε) (i : Nat) (p : CraftProposal)
    (w : World ε) :
    (CraftSession.confirmAt engine i p : Act (World ε) (Nat × Event) ε' _) w =
      ⟨.ok (p.confirmed (engine.confirm p w).result), (engine.confirm p w).state,
        (engine.confirm p w).trace.map (i, ·)⟩ := by
  rcases hconfirm : engine.confirm p w with ⟨e | p', w', t⟩
  · simp [CraftSession.confirmAt, hconfirm, CraftProposal.confirmed, CraftProposal.settle,
      Except.map]
  · simp [CraftSession.confirmAt, hconfirm, CraftProposal.confirmed, CraftProposal.settle,
      Except.map]

/-- A plan goes on from where its first proposal leaves the documents. -/
theorem confirmFrom_cons {ε ε' : Type} (engine : CraftEngine ε) (i : Nat) (p : CraftProposal)
    {ps : List CraftProposal} (w : World ε)
    {rs : List (CraftProposal × Except String CraftState)}
    (h : ((CraftSession.confirmFrom engine (i + 1) ps : Act (World ε) (Nat × Event) ε' _)
      (engine.confirm p w).state).result = .ok rs) :
    let o := (CraftSession.confirmFrom engine i (p :: ps) :
      Act (World ε) (Nat × Event) ε' _) w
    o.result = .ok (p.confirmed (engine.confirm p w).result :: rs) ∧
      o.state = ((CraftSession.confirmFrom engine (i + 1) ps : Act (World ε) (Nat × Event) ε' _)
        (engine.confirm p w).state).state := by
  intro o
  have ho : o = _ := Act.bind_apply _ _ w
  rw [confirmAt_apply, Outcome.andThen_mk_ok, Act.bind_apply] at ho
  rw [ho, Outcome.after_result, Outcome.after_state, Outcome.andThen, h]
  exact ⟨rfl, rfl⟩

/-- **Edits of different documents do not meet.** Each goes as on the documents the
plan starts with, and the documents no edit names stay.  By induction on the plan:
what the first edit writes is nothing to the others, as none of them has its
document. -/
theorem confirmFrom_alone (ε' : Type) (sink : AuditSink ρ) (perms : PermissionSet)
    (principal : Principal) {ps : List CraftProposal} (hkind : ∀ p ∈ ps, p.kind = .fileEdit)
    (huris : (ps.map CraftProposal.documentUri).Nodup) (i : Nat) (w : World (Docs × ρ)) :
    let o := (CraftSession.confirmFrom (CraftEngine.over CliHost.applyEdit sink perms principal)
      i ps : Act (World (Docs × ρ)) (Nat × Event) ε' _) w
    o.result = .ok (ps.map fun p =>
        p.confirmed (p.onDocument principal (w.env.1 p.documentUri)).1) ∧
      (∀ p ∈ ps, o.state.env.1 p.documentUri =
        (p.onDocument principal (w.env.1 p.documentUri)).2) ∧
      ∀ uri ∉ ps.map CraftProposal.documentUri, o.state.env.1 uri = w.env.1 uri := by
  induction ps generalizing i w with
  | nil => exact ⟨rfl, fun p hp => absurd hp List.not_mem_nil, fun _ _ => rfl⟩
  | cons p ps ih =>
      intro o
      rw [List.map_cons, List.nodup_cons] at huris
      obtain ⟨hresult, hdocs⟩ :=
        confirm_onDocument sink perms principal (hkind p List.mem_cons_self) w
      let engine := CraftEngine.over CliHost.applyEdit sink perms principal
      obtain ⟨hresults, hedited, hother⟩ :=
        ih (fun q hq => hkind q (List.mem_cons_of_mem p hq)) huris.2 (i + 1)
          (engine.confirm p w).state
      obtain ⟨hall, hstate⟩ := confirmFrom_cons engine i p w hresults
      -- the first edit leaves the documents of the rest as they are
      have hkept : ∀ q ∈ ps, (engine.confirm p w).state.env.1 q.documentUri =
          w.env.1 q.documentUri := by
        intro q hq
        have hne : q.documentUri ≠ p.documentUri := fun heq =>
          huris.1 (List.mem_map.mpr ⟨q, hq, heq⟩)
        rw [hdocs, Function.update_of_ne hne]
      rw [show o.state = _ from hstate, show o.result = _ from hall]
      refine ⟨?_, ?_, ?_⟩
      · rw [List.map_cons, hresult]
        refine congrArg (fun rs => Except.ok (_ :: rs)) (List.map_congr_left fun q hq => ?_)
        rw [hkept q hq]
      · intro q hq
        rcases List.mem_cons.mp hq with rfl | hq
        · rw [hother _ huris.1, hdocs, Function.update_self]
        · rw [hedited q hq, hkept q hq]
      · intro uri huri
        rw [List.map_cons, List.mem_cons, not_or] at huri
        rw [hother uri huri.2, hdocs, Function.update_of_ne huri.1]

/-- The same of a whole plan, each proposal confirmed alone on the same documents. -/
theorem confirmAll_alone (ε' : Type) (sink : AuditSink ρ) (perms : PermissionSet)
    (principal : Principal) {ps : List CraftProposal} (hkind : ∀ p ∈ ps, p.kind = .fileEdit)
    (huris : (ps.map CraftProposal.documentUri).Nodup) (w : World (Docs × ρ)) :
    let engine := CraftEngine.over CliHost.applyEdit sink perms principal
    let o := (CraftSession.confirmAll ⟨ps⟩ engine : Act (World (Docs × ρ)) (Nat × Event) ε' _) w
    o.result = .ok (⟨ps.map fun p => (p.confirmed (engine.confirm p w).result).1⟩,
        ps.map fun p => (p.confirmed (engine.confirm p w).result).2) ∧
      (∀ p ∈ ps, o.state.env.1 p.documentUri =
        (engine.confirm p w).state.env.1 p.documentUri) ∧
      ∀ uri ∉ ps.map CraftProposal.documentUri, o.state.env.1 uri = w.env.1 uri := by
  intro engine o
  obtain ⟨hresults, hedited, hother⟩ :=
    confirmFrom_alone ε' sink perms principal hkind huris 0 w
  have ho : o = _ := Act.bind_apply _ _ w
  rw [Outcome.andThen, hresults] at ho
  rw [ho]
  refine ⟨?_, ?_, hother⟩
  · show Except.ok (_, _) = Except.ok (_, _)
    rw [List.map_map, List.map_map]
    -- The plan starts with the documents of `w`, and so does each proposal alone.
    have halone : ∀ p ∈ ps, (engine.confirm p w).result =
        (p.onDocument principal (w.env.1 p.documentUri)).1 := fun p hp =>
      (confirm_onDocument sink perms principal (hkind p hp) w).1
    refine congrArg Except.ok (Prod.ext (congrArg CraftSession.mk ?_) ?_)
    · exact List.map_congr_left fun p hp => by rw [halone p hp]; rfl
    · exact List.map_congr_left fun p hp => by rw [halone p hp]; rfl
  · intro p hp
    rw [(confirm_onDocument sink perms principal (hkind p hp) w).2, Function.update_self]
    exact hedited p hp

/-- **The order of edits of different documents does not show.** Each proposal ends
as it ends alone, with the result it gets alone, and the documents are the same at
the end. Edits that fail are no exception, and neither is a caller without the
right. -/
theorem confirmAll_perm (ε' : Type) (sink : AuditSink ρ) (perms : PermissionSet)
    (principal : Principal) {ps qs : List CraftProposal} (hperm : ps.Perm qs)
    (hkind : ∀ p ∈ ps, p.kind = .fileEdit)
    (huris : (ps.map CraftProposal.documentUri).Nodup) (w : World (Docs × ρ)) :
    let engine := CraftEngine.over CliHost.applyEdit sink perms principal
    let alone := fun p : CraftProposal => p.confirmed (engine.confirm p w).result
    let o := (CraftSession.confirmAll ⟨ps⟩ engine : Act (World (Docs × ρ)) (Nat × Event) ε' _) w
    let o' := (CraftSession.confirmAll ⟨qs⟩ engine : Act (World (Docs × ρ)) (Nat × Event) ε' _) w
    o.result = .ok (⟨ps.map fun p => (alone p).1⟩, ps.map fun p => (alone p).2) ∧
      o'.result = .ok (⟨qs.map fun p => (alone p).1⟩, qs.map fun p => (alone p).2) ∧
      o'.state.env.1 = o.state.env.1 := by
  intro engine alone o o'
  have hurisPerm := hperm.map CraftProposal.documentUri
  obtain ⟨hresult, hedited, hother⟩ := confirmAll_alone ε' sink perms principal hkind huris w
  obtain ⟨hresult', hedited', hother'⟩ := confirmAll_alone ε' sink perms principal
    (fun q hq => hkind q (hperm.mem_iff.mpr hq)) (hurisPerm.nodup_iff.mp huris) w
  refine ⟨hresult, hresult', funext fun uri => ?_⟩
  -- a document is that of one proposal, in both orders, or of none
  by_cases huri : uri ∈ ps.map CraftProposal.documentUri
  · obtain ⟨p, hp, rfl⟩ := List.mem_map.mp huri
    rw [hedited p hp, hedited' p (hperm.mem_iff.mp hp)]
  · rw [hother uri huri, hother' uri fun h => huri (hurisPerm.mem_iff.mpr h)]

/-- Two edits, of which the first finds no document. -/
def twoEdits : List CraftProposal :=
  [.new "p-1" "missing.rs" "a" "b" "" .fileEdit, .new "p-2" "main.rs" "x" "y" "" .fileEdit]

theorem confirmAll_perm_twoEdits :
    let sink : AuditSink Unit := ⟨fun _ env => (.ok (), env)⟩
    let principal := Principal.fromMask "acme" "u1" 63
    let w := World.initial ((fun uri => if uri = "main.rs" then some "x" else none : Docs), ())
    let engine := CraftEngine.over CliHost.applyEdit sink ⟨63⟩ principal
    ((CraftSession.confirmAll ⟨twoEdits⟩ engine :
        Act (World (Docs × Unit)) (Nat × Event) Empty _) w).state.env.1 =
      ((CraftSession.confirmAll ⟨twoEdits.reverse⟩ engine :
        Act (World (Docs × Unit)) (Nat × Event) Empty _) w).state.env.1 :=
  (confirmAll_perm Empty _ _ _ twoEdits.reverse_perm
    (fun p hp => by
      rcases List.mem_cons.mp ((List.mem_reverse).mp hp) with rfl | hp
      · rfl
      · rw [List.mem_singleton.mp hp]
        rfl)
    (by decide) _).2.2

end AgenticIde
