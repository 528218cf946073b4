/-
AgenticIde/Hosts.lean

The two hosts that apply edits: the one of the command line, which keeps documents in memory
(`cli_host.rs`), and the one of the GUI, which keeps them in files (`fs_host.rs`).

With an empty `old_text` the first puts the new text in front of a document, and the second
at its end, or in a new file.  With any other the two agree (`hostsAgree_iff`).

An edit names a document and has an old and a new text.  Both hosts replace the first
occurrence of the old text, and both refuse an edit whose old text they do not find.  Every
text has the empty text in front of it, so for the first host an empty old text is nothing
special; the second asks for it, and appends.

Files are octets by a path, with what the system answers to a write: it may do it, refuse it
without touching the file, or break off in the middle.  A file that does not exist, may not be
read, or is no text counts as empty for the host, which is where an edit can destroy what it
has not read; what follows from that is in `HostCraft.lean`.  Here the two hosts are compared
on the same documents, with a system that does what it is asked.
-/
import AgenticIde.World
import AgenticIde.Lib.Find
import Mathlib.Logic.Function.Basic

namespace AgenticIde

open Str

/-! ### Documents in memory -/

/-- The documents of a host, by URI. -/
abbrev Docs : Type := String → Option String

namespace CliHost

/-- Replace the first occurrence of the old text of a document. -/
def applyEdit (edit : TextEdit) (docs : Docs) : Except HostError Unit × Docs :=
  match docs edit.documentUri with
  | none => (.error (.documentNotFound edit.documentUri), docs)
  | some doc =>
      if contains edit.oldText doc then
        (.ok (), Function.update docs edit.documentUri
          (some (replaceFirst edit.oldText edit.newText doc)))
      else (.error (.editRejected "old_text not found in document"), docs)

end CliHost

/-! ### Documents in files -/

/-- A file: its bytes, and whether they can be read. -/
structure File where
  bytes : ByteArray
  readable : Bool

/-- How the system answers a write: it was done; it was refused, and nothing was touched; or
it broke off after so many bytes, the file having been emptied before. -/
inductive WriteAnswer
  | done
  | refused (error : String)
  | broken (written : Nat) (error : String)

/-- The files of a system by path, and how it answers a write to a path. -/
structure Fs where
  files : String → Option File
  onWrite : String → WriteAnswer

namespace Fs

/-- `std::fs::read_to_string`: nothing if there is no file, it cannot be read, or its bytes
are no text. -/
def readToString (fs : Fs) (path : String) : Option String :=
  (fs.files path).bind fun file =>
    if file.readable then String.fromUTF8? file.bytes else none

/-- The file at a path has the bytes; a file that is new can be read. -/
def put (fs : Fs) (path : String) (bytes : ByteArray) : Fs :=
  let file : File := ⟨bytes, (fs.files path).all File.readable⟩
  { fs with files := Function.update fs.files path (some file) }

/-- `std::fs::write`. -/
def write (fs : Fs) (path text : String) : Except String Unit × Fs :=
  match fs.onWrite path with
  | .done => (.ok (), fs.put path text.toByteArray)
  | .refused error => (.error error, fs)
  | .broken written error => (.error error, fs.put path (text.toByteArray.extract 0 written))

/-- Documents in files, with a system that does what it is asked. -/
def ofDocs (docs : Docs) : Fs :=
  ⟨fun path => (docs path).map fun doc => ⟨doc.toByteArray, true⟩, fun _ => .done⟩

end Fs

namespace FsHost

/-- The text the host goes by: that of the file, or none. -/
def current (edit : TextEdit) (fs : Fs) : String := (fs.readToString edit.documentUri).getD ""

/-- The edit is rejected: there is an old text, and it is not found. -/
def rejects (edit : TextEdit) (fs : Fs) : Bool :=
  edit.oldText ≠ "" && !contains edit.oldText (current edit fs)

/-- The text the edit leaves. -/
def updated (edit : TextEdit) (fs : Fs) : String :=
  if edit.oldText = "" then current edit fs ++ edit.newText
  else replaceFirst edit.oldText edit.newText (current edit fs)

/-- Append the new text if there is no old one; else replace the first occurrence of that.
Directories are made as needed, and failing to is left to the write. -/
def applyEdit (edit : TextEdit) (fs : Fs) : Except HostError Unit × Fs :=
  if rejects edit fs then
    (.error (.editRejected s!"old_text 在 {edit.documentUri} 中未找到，拒绝应用编辑"), fs)
  else
    let (answer, fs) := fs.write edit.documentUri (updated edit fs)
    (answer.mapError fun e => .editRejected s!"写入 {edit.documentUri} 失败: {e}", fs)

end FsHost

/-! ### The two side by side -/

/-- The hosts both accept the edit or both reject it, and leave the same documents.
The texts of their errors are not compared. -/
def HostsAgree (edit : TextEdit) (docs : Docs) : Prop :=
  (CliHost.applyEdit edit docs).1.isOk = (FsHost.applyEdit edit (.ofDocs docs)).1.isOk ∧
    (FsHost.applyEdit edit (.ofDocs docs)).2.files =
      (Fs.ofDocs (CliHost.applyEdit edit docs).2).files

theorem fromUTF8?_toByteArray (s : String) : String.fromUTF8? s.toByteArray = some s := by
  rw [String.fromUTF8?, dif_pos s.isValidUTF8]
  rfl

theorem toByteArray_of_fromUTF8? {bytes : ByteArray} {s : String}
    (h : String.fromUTF8? bytes = some s) : s.toByteArray = bytes := by
  unfold String.fromUTF8? at h
  split at h
  case isTrue =>
    obtain rfl := Option.some.inj h
    rfl
  case isFalse => cases h

theorem contains_empty_left (s : String) : contains "" s = true := by
  rw [contains]
  cases s.toList <;> rfl

theorem contains_empty_right {p : String} (h : p ≠ "") : contains p "" = false := by
  rw [contains]
  have hp : p.toList.isEmpty = false := by simpa using h
  change (if p.toList.isEmpty then some (([] : List Char), ([] : List Char)) else none).isSome = _
  rw [hp]
  rfl

theorem replaceFirst_empty (new s : String) : replaceFirst "" new s = new ++ s := by
  rw [replaceFirst]
  cases hs : s.toList with
  | nil =>
      have hempty : s = "" := String.toList_eq_nil_iff.mp hs
      rw [hempty]
      rfl
  | cons c cs =>
      change String.ofList [] ++ new ++ String.ofList (c :: cs) = _
      rw [← hs, String.ofList_toList]
      rfl

theorem files_ofDocs (docs : Docs) (path : String) :
    (Fs.ofDocs docs).files path = (docs path).map fun doc => ⟨doc.toByteArray, true⟩ := rfl

theorem readToString_ofDocs (docs : Docs) (path : String) :
    (Fs.ofDocs docs).readToString path = docs path := by
  rw [Fs.readToString, files_ofDocs]
  cases docs path with
  | none => rfl
  | some doc => exact fromUTF8?_toByteArray doc

theorem files_put (fs : Fs) (path : String) (bytes : ByteArray) :
    (fs.put path bytes).files =
      Function.update fs.files path (some ⟨bytes, (fs.files path).all File.readable⟩) := rfl

theorem put_ofDocs (docs : Docs) (path text : String) :
    ((Fs.ofDocs docs).put path text.toByteArray).files =
      (Fs.ofDocs (Function.update docs path (some text))).files := by
  have hreadable : ((Fs.ofDocs docs).files path).all File.readable = true := by
    rw [files_ofDocs]
    cases docs path <;> rfl
  funext other
  rw [files_put, hreadable, files_ofDocs]
  by_cases hother : other = path
  · rw [hother, Function.update_self, Function.update_self]
    rfl
  · rw [Function.update_of_ne hother, Function.update_of_ne hother]
    rfl

theorem files_ofDocs_inj {docs docs' : Docs} :
    (Fs.ofDocs docs).files = (Fs.ofDocs docs').files ↔ docs = docs' := by
  constructor
  · intro h
    funext path
    rw [← readToString_ofDocs docs, ← readToString_ofDocs docs', Fs.readToString,
      Fs.readToString, h]
  · rintro rfl
    rfl

/-- What the host of the GUI does with documents in files. -/
theorem FsHost.applyEdit_ofDocs (edit : TextEdit) (docs : Docs) :
    FsHost.applyEdit edit (.ofDocs docs) =
      let doc := (docs edit.documentUri).getD ""
      if edit.oldText ≠ "" ∧ contains edit.oldText doc = false then
        (.error (.editRejected s!"old_text 在 {edit.documentUri} 中未找到，拒绝应用编辑"), .ofDocs docs)
      else
        (.ok (), (Fs.ofDocs docs).put edit.documentUri
          (if edit.oldText = "" then doc ++ edit.newText
            else replaceFirst edit.oldText edit.newText doc).toByteArray) := by
  rw [applyEdit, rejects, updated, current, readToString_ofDocs]
  simp only [Bool.and_eq_true, decide_eq_true_eq, Bool.not_eq_true']
  rfl

/-- **The hosts agree** exactly on edits with an old text, and where it makes no
difference which end of an existing document the new text is put at.  Without an old
text the one host refuses a document that does not exist, and the other makes it. -/
theorem hostsAgree_iff (edit : TextEdit) (docs : Docs) :
    HostsAgree edit docs ↔ edit.oldText ≠ "" ∨
      ∃ doc, docs edit.documentUri = some doc ∧ edit.newText ++ doc = doc ++ edit.newText := by
  rw [HostsAgree, FsHost.applyEdit_ofDocs, CliHost.applyEdit]
  by_cases hold : edit.oldText = ""
  · have hnot : ¬ (edit.oldText ≠ "" ∧
        contains edit.oldText ((docs edit.documentUri).getD "") = false) := fun h => h.1 hold
    dsimp only
    rw [if_neg hnot, if_pos hold, put_ofDocs]
    cases hdoc : docs edit.documentUri with
    | none =>
        -- one host fails, and the other makes a file
        apply iff_of_false
        · exact fun h => Bool.noConfusion h.1
        · rintro (h | ⟨doc, h, -⟩)
          · exact h hold
          · cases h
    | some doc =>
        dsimp only
        rw [hold, contains_empty_left, if_pos rfl, replaceFirst_empty, files_ofDocs_inj,
          (Function.update_injective docs edit.documentUri).eq_iff]
        simp [eq_comm (a := doc ++ edit.newText)]
  · refine iff_of_true ?_ (.inl hold)
    dsimp only
    cases hdoc : docs edit.documentUri with
    | none =>
        have hnone : contains edit.oldText ((none : Option String).getD "") = false :=
          contains_empty_right hold
        rw [if_pos ⟨hold, hnone⟩]
        exact ⟨rfl, rfl⟩
    | some doc =>
        dsimp only
        rw [Option.getD_some]
        cases hfound : contains edit.oldText doc with
        | true =>
            have hnot : ¬ (edit.oldText ≠ "" ∧ true = false) := fun h => Bool.noConfusion h.2
            rw [if_pos rfl, if_neg hnot, if_neg hold, put_ofDocs]
            exact ⟨rfl, rfl⟩
        | false =>
            have hboth : edit.oldText ≠ "" ∧ false = false := ⟨hold, rfl⟩
            rw [if_neg Bool.false_ne_true, if_pos hboth]
            exact ⟨rfl, rfl⟩

/-- An edit without an old text: one host prepends, the other appends. -/
theorem hosts_disagree :
    ¬ HostsAgree ⟨"a.txt", "", "x"⟩ (fun uri => if uri = "a.txt" then some "y" else none) := by
  intro h
  have hread := congrArg (fun files => Fs.readToString ⟨files, fun _ => .done⟩ "a.txt") h.2
  exact absurd hread (by decide)

end AgenticIde
