/-
AgenticIde/HostCraft.lean

Confirmed proposals on the two hosts: the craft engine over the host of the command line,
and the craft command of the GUI (`domain/craft.rs`) over files.

On documents in memory confirming is all or nothing (`confirm_cli`).  On files, the host
goes by an empty text where a file cannot be read, so an edit without an old text can
replace what was never read (`craftConfirm_safe_iff`).

The engine is that of `Craft.lean`, with its bridge given by the function that applies an
edit: `CraftEngine.over` serves both hosts.  What a host keeps is beside everything else of
the outside, which the sink may change as it likes; the sink has no hold on the documents
(`AuditSink.beside`), and that is the one assumption about it.  It may fail: the engine
does not ask what became of an entry.

An edit goes to the host after the engine has checked the right and recorded the grant, so
a refusal of the host leaves an entry that says granted, and a proposal that is still
pending.  The state of a proposal is set at the very end (`CraftProposal.settle`); that is
why a failure leaves it as it was.

For the GUI the question is what an edit destroys.  `FsHost.Careful` is the condition on
the files before it, and the two cases that matter are a file whose octets are no text and
a file the host may not read.
-/
import AgenticIde.AuditCount
import AgenticIde.Hosts

namespace AgenticIde

open Str

variable {η ρ : Type}

/-! ### Engines over a host -/

/-- The bridge to a host that keeps its documents beside everything else of the outside, and
lets events pass. -/
def HostBridge.beside (applyEdit : TextEdit → η → Except HostError Unit × η) :
    HostBridge (η × ρ) where
  onApplyEdit edit env := ((applyEdit edit env.1).1, (applyEdit edit env.1).2, env.2)
  onEvent _ env := env

/-- A sink that has nothing to do with the documents of a host. -/
def AuditSink.beside (sink : AuditSink ρ) : AuditSink (η × ρ) where
  onRecord event env := ((sink.onRecord event env.2).1, env.1, (sink.onRecord event env.2).2)

/-- A craft engine over a host. -/
def CraftEngine.over (applyEdit : TextEdit → η → Except HostError Unit × η) (sink : AuditSink ρ)
    (perms : PermissionSet) (principal : Principal) : CraftEngine (η × ρ) :=
  ⟨.beside applyEdit, perms, principal, sink.beside⟩

/-- The audit events of a run. -/
def auditsOf (t : List Event) : List AuditEvent :=
  t.filterMap fun
    | .audit ev _ => some ev
    | _ => none

/-! ### Confirming -/

/-- The proposal after it is confirmed; its state is set at the very end. -/
def CraftProposal.settle (p : CraftProposal) : Except String CraftProposal → CraftProposal
  | .ok p' => p'
  | .error _ => p

/-- An edit is applied by the host. -/
theorem confirm_fileEdit (applyEdit : TextEdit → η → Except HostError Unit × η)
    (sink : AuditSink ρ) (perms : PermissionSet) {principal : Principal} {p : CraftProposal}
    (h : principal.holds p.kind.requiredPermission = true) (hkind : p.kind = .fileEdit)
    (w : World (η × ρ)) :
    ∃ w' ev answer, (CraftEngine.over applyEdit sink perms principal).confirm p w =
        ⟨((applyEdit p.edit w.env.1).1.mapError HostError.toString).map fun _ =>
            { p with state := .applied }, w',
          [.audit ev answer, .applyEdit p.edit (applyEdit p.edit w.env.1).1]⟩ ∧
      w'.env.1 = (applyEdit p.edit w.env.1).2 ∧ ev.granted = true := by
  let engine := CraftEngine.over applyEdit sink perms principal
  obtain ⟨w₁, ev, answer, hconfirm, henv, hgranted⟩ := engine.confirm_granted h w
  obtain ⟨r, w', happly, hedit⟩ := engine.apply_fileEdit hkind w₁
  -- the sink leaves the documents as they are
  have hdocs : w₁.env.1 = w.env.1 := by
    rw [henv]
    rfl
  have hanswer : (applyEdit p.edit w.env.1).1 = r := hdocs ▸ congrArg Prod.fst hedit
  have hleft : (applyEdit p.edit w.env.1).2 = w'.env.1 :=
    hdocs ▸ congrArg (fun answer => answer.2.1) hedit
  refine ⟨w', ev, answer, ?_, hleft.symm, hgranted⟩
  rw [hconfirm, Act.bind_apply, happly, hanswer]
  cases r <;> rfl

/-! ### On documents in memory -/

theorem CliHost.applyEdit_of_found {edit : TextEdit} {docs : Docs} {doc : String}
    (hdoc : docs edit.documentUri = some doc) (hold : contains edit.oldText doc = true) :
    CliHost.applyEdit edit docs =
      (.ok (), Function.update docs edit.documentUri
        (some (replaceFirst edit.oldText edit.newText doc))) := by
  rw [CliHost.applyEdit, hdoc]
  exact if_pos hold

theorem CliHost.applyEdit_of_not_found {edit : TextEdit} {docs : Docs}
    (h : ¬ ∃ doc, docs edit.documentUri = some doc ∧ contains edit.oldText doc = true) :
    ∃ e, CliHost.applyEdit edit docs = (.error e, docs) := by
  rw [CliHost.applyEdit]
  cases hdoc : docs edit.documentUri with
  | none => exact ⟨_, rfl⟩
  | some doc => exact ⟨_, if_neg fun hold => h ⟨doc, hdoc, hold⟩⟩

/-- **Confirming is all or nothing.**  It succeeds exactly with the right, and for an edit
with the old text in the document; it fails without a trace in the documents or the
proposal; an edit changes its document only; and there is one audit event, granted with the
right. -/
theorem confirm_cli (sink : AuditSink ρ) (perms : PermissionSet) (principal : Principal)
    (p : CraftProposal) (w : World (Docs × ρ)) :
    let o := (CraftEngine.over CliHost.applyEdit sink perms principal).confirm p w
    (o.result.isOk = true ↔ principal.holds p.kind.requiredPermission = true ∧
        (p.kind ≠ .fileEdit ∨
          ∃ doc, w.env.1 p.documentUri = some doc ∧ contains p.oldText doc = true)) ∧
      (o.result.isOk = false → p.settle o.result = p ∧ o.state.env.1 = w.env.1) ∧
      (o.result.isOk = true → (p.settle o.result).state = .applied ∧
        (p.kind = .fileEdit → ∃ doc, w.env.1 p.documentUri = some doc ∧
          o.state.env.1 = Function.update w.env.1 p.documentUri
            (some (replaceFirst p.oldText p.newText doc))) ∧
        (p.kind ≠ .fileEdit → o.state.env.1 = w.env.1)) ∧
      ∃ ev, auditsOf o.trace = [ev] ∧
        ev.granted = principal.holds p.kind.requiredPermission := by
  intro o
  cases hholds : principal.holds p.kind.requiredPermission with
  | false =>
      -- the host is not asked
      obtain ⟨e, w', ev, answer, hconfirm, henv, hgranted⟩ :=
        (CraftEngine.over CliHost.applyEdit sink perms principal).confirm_denied hholds w
      have ho : o = ⟨.error e, w', [.audit ev answer]⟩ := hconfirm
      have hdocs : w'.env.1 = w.env.1 := by
        rw [henv]
        rfl
      rw [ho]
      refine ⟨iff_of_false Bool.false_ne_true fun h => Bool.false_ne_true h.1, ?_, ?_, ev, rfl,
        hgranted⟩
      · exact fun _ => ⟨rfl, hdocs⟩
      · exact fun h => absurd h Bool.false_ne_true
  | true =>
      by_cases hkind : p.kind = .fileEdit
      · obtain ⟨w', ev, answer, hconfirm, henv, hgranted⟩ :=
          confirm_fileEdit CliHost.applyEdit sink perms hholds hkind w
        by_cases hfound : ∃ doc, w.env.1 p.documentUri = some doc ∧ contains p.oldText doc = true
        · obtain ⟨doc, hdoc, hold⟩ := hfound
          rw [@CliHost.applyEdit_of_found p.edit w.env.1 doc hdoc hold] at hconfirm henv
          have ho : o = ⟨.ok { p with state := .applied }, w',
              [.audit ev answer, .applyEdit p.edit (.ok ())]⟩ := hconfirm
          rw [ho]
          refine ⟨iff_of_true rfl ⟨rfl, .inr ⟨doc, hdoc, hold⟩⟩, ?_, ?_, ev, rfl, hgranted⟩
          · exact fun h => absurd h.symm Bool.false_ne_true
          · exact fun _ => ⟨rfl, fun _ => ⟨doc, hdoc, henv⟩, fun h => absurd hkind h⟩
        · -- the grant stays in the log, though the host refuses
          obtain ⟨e, hrefused⟩ := @CliHost.applyEdit_of_not_found p.edit w.env.1 hfound
          rw [hrefused] at hconfirm henv
          have ho : o = ⟨.error e.toString, w',
              [.audit ev answer, .applyEdit p.edit (.error e)]⟩ := hconfirm
          rw [ho]
          refine ⟨iff_of_false Bool.false_ne_true ?_, ?_, ?_, ev, rfl, hgranted⟩
          · exact fun h => h.2.elim (fun hother => hother hkind) hfound
          · exact fun _ => ⟨rfl, henv⟩
          · exact fun h => absurd h Bool.false_ne_true
      · let engine := CraftEngine.over CliHost.applyEdit sink perms principal
        obtain ⟨w₁, ev, answer, hconfirm, henv, hgranted⟩ := engine.confirm_granted hholds w
        obtain ⟨event, w', happly, hevent⟩ := engine.apply_other hkind w₁
        have hdocs : w'.env.1 = w.env.1 := by
          rw [← hevent, henv]
          rfl
        rw [Act.bind_apply_of_ok happly] at hconfirm
        have ho : o = ⟨.ok { p with state := .applied }, w',
            [.audit ev answer, .emitEvent event]⟩ := hconfirm
        rw [ho]
        refine ⟨iff_of_true rfl ⟨rfl, .inl hkind⟩, ?_, ?_, ev, rfl, hgranted⟩
        · exact fun h => absurd h.symm Bool.false_ne_true
        · exact fun _ => ⟨rfl, fun h => absurd h hkind, fun _ => hdocs⟩

/-! ### In files -/

namespace GuiCraft

/-- The structured error of a command. -/
structure GuiError where
  code : String
  message : String
  deriving DecidableEq

inductive CraftStateDto
  | suggestion
  | pendingConfirm
  | applied
  | rejected
  deriving DecidableEq

/-- The argument of `craft_confirm`: the front end sends back the whole proposal. -/
structure CraftActionRequest where
  id : String
  documentUri : String
  oldText : String
  newText : String
  rationale : String
  kind : String
  deriving DecidableEq

structure CraftProposalDto where
  id : String
  documentUri : String
  oldText : String
  newText : String
  rationale : String
  kind : String
  state : CraftStateDto
  deriving DecidableEq

/-- The kind the front end means; what it does not name is an edit. -/
def mapKind (kind : String) : EditKind :=
  match toAsciiLowercase kind with
  | "runcommand" => .runCommand
  | "commit" => .commit
  | _ => .fileEdit

def mapState : CraftState → CraftStateDto
  | .suggestion => .suggestion
  | .pendingConfirm => .pendingConfirm
  | .applied => .applied
  | .rejected => .rejected

/-- A craft engine over files, with every permission. -/
def engineWithFs : CraftEngine (Fs × MockAuditSink) where
  bridge := .beside FsHost.applyEdit
  perms := PermissionSet.all
  principal := .fromMask "single" "craft" PermissionSet.all.mask
  auditSink := MockAuditSink.sink

/-- The edit of a request. -/
def CraftActionRequest.edit (req : CraftActionRequest) : TextEdit :=
  ⟨req.documentUri, req.oldText, req.newText⟩

/-- Confirm and apply a proposal. -/
def craftConfirm (req : CraftActionRequest) :
    Core (Fs × MockAuditSink) GuiError CraftProposalDto := do
  let proposal := CraftProposal.new req.id req.documentUri req.oldText req.newText req.rationale
    (mapKind req.kind)
  let proposal ← (engineWithFs.confirm proposal).mapError fun e => ⟨"internal", e⟩
  return ⟨proposal.id, proposal.documentUri, proposal.oldText, proposal.newText,
    proposal.rationale, req.kind, mapState proposal.state⟩

end GuiCraft

/-- The bytes of a file; a missing one has none. -/
def Fs.bytes (fs : Fs) (path : String) : ByteArray :=
  ((fs.files path).map File.bytes).getD .empty

/-- What an edit makes of a text. -/
def TextEdit.on (edit : TextEdit) (text : String) : String :=
  if edit.oldText = "" then text ++ edit.newText
  else replaceFirst edit.oldText edit.newText text

/-- What an edit does destroys nothing: it fails and leaves the file as it was, or it leaves
all there was in the file with the edit made. -/
def EditSafe (edit : TextEdit) (fs : Fs) (accepted : Bool) (fs' : Fs) : Prop :=
  match accepted with
  | false => fs'.files edit.documentUri = fs.files edit.documentUri
  | true => ∃ file, fs'.files edit.documentUri = some file ∧
      if edit.oldText = "" then
        file.bytes = fs.bytes edit.documentUri ++ edit.newText.toByteArray
      else ∃ text, text.toByteArray = fs.bytes edit.documentUri ∧
        contains edit.oldText text = true ∧
        file.bytes = (replaceFirst edit.oldText edit.newText text).toByteArray

/-- The edit is rejected, or the write is refused, or it is done and the file is empty or
missing, is text, or there is an old text to find; or the write breaks off where it happens to
have written what was there. -/
def FsHost.Careful (edit : TextEdit) (fs : Fs) : Prop :=
  FsHost.rejects edit fs = true ∨
    match fs.onWrite edit.documentUri with
    | .refused _ => True
    | .done => edit.oldText ≠ "" ∨ (fs.readToString edit.documentUri).isSome = true ∨
        fs.bytes edit.documentUri = .empty
    | .broken written _ => ∃ file, fs.files edit.documentUri = some file ∧
        file.bytes = (edit.on (FsHost.current edit fs)).toByteArray.extract 0 written

/-- A text that is read is what is in the file. -/
theorem bytes_of_readToString {fs : Fs} {path text : String}
    (h : fs.readToString path = some text) : text.toByteArray = fs.bytes path := by
  rw [Fs.readToString] at h
  obtain ⟨file, hfile, h⟩ := Option.bind_eq_some_iff.mp h
  rw [Fs.bytes, hfile]
  split at h
  case isTrue => exact toByteArray_of_fromUTF8? h
  case isFalse => cases h

/-- What an accepted edit has to leave for `EditSafe`, by what could be read. -/
theorem on_current_safe_iff {edit : TextEdit} {fs : Fs}
    (haccepts : FsHost.rejects edit fs = false) :
    (if edit.oldText = "" then
        (edit.on (FsHost.current edit fs)).toByteArray =
          fs.bytes edit.documentUri ++ edit.newText.toByteArray
      else ∃ text, text.toByteArray = fs.bytes edit.documentUri ∧
        contains edit.oldText text = true ∧
        (edit.on (FsHost.current edit fs)).toByteArray =
          (replaceFirst edit.oldText edit.newText text).toByteArray) ↔
      edit.oldText ≠ "" ∨ (fs.readToString edit.documentUri).isSome = true ∨
        fs.bytes edit.documentUri = .empty := by
  rw [TextEdit.on]
  by_cases hold : edit.oldText = ""
  · rw [if_pos hold, if_pos hold, FsHost.current, String.toByteArray_append,
      ByteArray.append_left_inj]
    cases hread : fs.readToString edit.documentUri with
    | none =>
        -- the new text is all there is, and what was in the file is lost
        simp [hold, eq_comm]
    | some text =>
        simpa [hold] using bytes_of_readToString hread
  · rw [if_neg hold, if_neg hold]
    refine iff_of_true ?_ (.inl hold)
    have hfound : contains edit.oldText (FsHost.current edit fs) = true := by
      simpa [FsHost.rejects, hold] using haccepts
    refine ⟨FsHost.current edit fs, ?_, hfound, rfl⟩
    rw [FsHost.current] at hfound ⊢
    cases hread : fs.readToString edit.documentUri with
    | none =>
        -- an old text is not found in the empty text
        rw [hread, Option.getD_none, contains_empty_right hold] at hfound
        exact absurd hfound Bool.false_ne_true
    | some text => exact bytes_of_readToString hread

theorem files_put_self (fs : Fs) (path : String) (bytes : ByteArray) :
    (fs.put path bytes).files path = some ⟨bytes, (fs.files path).all File.readable⟩ := by
  rw [files_put, Function.update_self]

/-- A write changes nothing if the bytes were there already. -/
theorem files_put_eq_iff (fs : Fs) (path : String) (bytes : ByteArray) :
    (fs.put path bytes).files path = fs.files path ↔
      ∃ file, fs.files path = some file ∧ file.bytes = bytes := by
  rw [files_put_self]
  cases fs.files path with
  | none => simp
  | some file =>
      constructor
      · intro h
        exact ⟨file, rfl, (congrArg File.bytes (Option.some.inj h)).symm⟩
      · rintro ⟨file', hfile, rfl⟩
        obtain rfl := Option.some.inj hfile
        rfl

/-- The host of the GUI destroys nothing exactly where it is careful. -/
theorem FsHost.safe_iff_careful (edit : TextEdit) (fs : Fs) :
    EditSafe edit fs (FsHost.applyEdit edit fs).1.isOk (FsHost.applyEdit edit fs).2 ↔
      FsHost.Careful edit fs := by
  rw [FsHost.applyEdit, FsHost.Careful]
  -- A refused edit writes nothing. Otherwise what is written is the edit on the text the
  -- host goes by, and the write itself may be refused, break off, or come through.
  cases hrejects : FsHost.rejects edit fs with
  | true =>
      rw [if_pos rfl]
      exact iff_of_true rfl (.inl rfl)
  | false =>
      have hupdated : FsHost.updated edit fs = edit.on (FsHost.current edit fs) := rfl
      rw [if_neg Bool.false_ne_true, Fs.write, hupdated]
      simp only [Bool.false_eq_true, false_or]
      cases fs.onWrite edit.documentUri with
      | done =>
          rw [← on_current_safe_iff hrejects]
          constructor
          · rintro ⟨file, hfile, hbytes⟩
            obtain rfl := Option.some.inj ((files_put_self fs _ _).symm.trans hfile)
            exact hbytes
          · exact fun h => ⟨_, files_put_self fs _ _, h⟩
      | refused error => exact iff_of_true rfl trivial
      -- A write that breaks off has emptied the file first, so it is safe only on what it
      -- has written.
      | broken written error => exact files_put_eq_iff fs _ _

namespace GuiCraft

/-- Confirming an edit from the GUI is applying it to the files. -/
theorem craftConfirm_fileEdit {req : CraftActionRequest} (hkind : mapKind req.kind = .fileEdit)
    (w : World (Fs × MockAuditSink)) :
    (craftConfirm req w).result.isOk = (FsHost.applyEdit req.edit w.env.1).1.isOk ∧
      (craftConfirm req w).state.env.1 = (FsHost.applyEdit req.edit w.env.1).2 := by
  let p := CraftProposal.new req.id req.documentUri req.oldText req.newText req.rationale
    (mapKind req.kind)
  let sink : AuditSink MockAuditSink := ⟨fun event log => (.ok (), ⟨log.events ++ [event]⟩)⟩
  -- The engine of the GUI has every permission, so only the host can refuse.
  have hengine : engineWithFs = .over FsHost.applyEdit sink PermissionSet.all
      (.fromMask "single" "craft" PermissionSet.all.mask) := rfl
  have hholds : (Principal.fromMask "single" "craft" PermissionSet.all.mask).holds
      p.kind.requiredPermission = true := by
    rw [show p.kind = .fileEdit from hkind]
    decide
  obtain ⟨w', ev, answer, hconfirm, henv, -⟩ :=
    confirm_fileEdit FsHost.applyEdit sink PermissionSet.all hholds hkind w
  rw [← hengine] at hconfirm
  have hedit : p.edit = req.edit := rfl
  rw [hedit] at hconfirm henv
  rw [craftConfirm, Act.bind_apply, Act.mapError_apply, hconfirm]
  cases hanswer : (FsHost.applyEdit req.edit w.env.1).1 with
  | error e => exact ⟨rfl, henv⟩
  | ok _ => exact ⟨rfl, henv⟩

/-- **Edits confirmed from the GUI destroy nothing** exactly where the host is
careful.  The host takes what it cannot read for an empty text and writes the whole
file anew, so it is the file it could not read that is lost, or what a broken write
leaves off. -/
theorem craftConfirm_safe_iff (req : CraftActionRequest) (hkind : mapKind req.kind = .fileEdit)
    (w : World (Fs × MockAuditSink)) :
    EditSafe req.edit w.env.1 (craftConfirm req w).result.isOk (craftConfirm req w).state.env.1 ↔
      FsHost.Careful req.edit w.env.1 := by
  rw [(craftConfirm_fileEdit hkind w).1, (craftConfirm_fileEdit hkind w).2]
  exact FsHost.safe_iff_careful req.edit w.env.1

/-- A file of one byte that is no text. -/
def binary : Fs :=
  ⟨fun path => if path = "a.bin" then some ⟨⟨#[0xff]⟩, true⟩ else none, fun _ => .done⟩

/-- A request without an old text. -/
def append : CraftActionRequest := ⟨"p-1", "a.bin", "", "x", "", "FileEdit"⟩

theorem craftConfirm_safe_append :
    mapKind append.kind = .fileEdit ∧
      (EditSafe append.edit binary
          (craftConfirm append (.initial (binary, .new))).result.isOk
          (craftConfirm append (.initial (binary, .new))).state.env.1 ↔
        FsHost.Careful append.edit binary) :=
  ⟨by decide, craftConfirm_safe_iff append (by decide) (.initial (binary, .new))⟩

/-- The byte is gone: the file holds the new text alone. -/
theorem craftConfirm_destroys :
    ¬ EditSafe append.edit binary
      (craftConfirm append (.initial (binary, .new))).result.isOk
      (craftConfirm append (.initial (binary, .new))).state.env.1 := by
  have hkind : mapKind append.kind = .fileEdit := by decide
  rw [(craftConfirm_fileEdit hkind _).1, (craftConfirm_fileEdit hkind _).2]
  -- the byte cannot be read, so the text the host goes by is empty
  have hread : binary.readToString "a.bin" = none := by decide
  rw [show (World.initial (binary, MockAuditSink.new)).env.1 = binary from rfl,
    FsHost.safe_iff_careful]
  rintro (h | hold | h | h)
  · exact absurd h (by decide)
  · exact hold rfl
  · have hsome : (binary.readToString "a.bin").isSome = true := h
    rw [hread] at hsome
    exact Bool.false_ne_true hsome
  · exact absurd h (by decide)

end GuiCraft

end AgenticIde
