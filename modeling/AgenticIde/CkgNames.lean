/-
AgenticIde/CkgNames.lean

What the source parser declares: symbols of the file it reads, each named by an identifier
or as the `impl` block of one (`parseSource_symbols`).

Over the tables of a toolchain in which no whitespace is alphanumeric, the name of a symbol
is trimmed (`DeclaredName.trim_eq`), so a query for it looks for all of it.

Which characters are alphanumeric is a table of the toolchain, and grows from one version of
Unicode to the next; `Str.CharTables` leaves it open.  What the statements ask of a table is
`SpaceFree`, which is a fact of the standard and not of a version: `White_Space` has no
character in common with `Alphabetic` or with the numbers.

The proofs follow the source: a name is what a search for a keyword or a cut at ` for ` has
found, and each of these takes characters as long as they can be in a name, and is dropped
when there are none.  So a name is not empty, and has nothing but such characters in it,
but for the `impl` and the blank that the name of a block begins with.
-/
import AgenticIde.Ckg

namespace AgenticIde

/-- No whitespace is alphanumeric (Unicode: `White_Space` is disjoint from
`Alphabetic` and the numbers). -/
def Str.CharTables.SpaceFree (u : Str.CharTables) : Prop :=
  ∀ c, Str.isWhitespace c = true → u.isAlphanumeric c = false

namespace Ckg

open Str

theorem spaceFree_asciiOnly : CharTables.asciiOnly.SpaceFree := by
  intro c hc
  have hval : c.val.toNat = c.toNat := rfl
  rw [isWhitespace] at hc
  simp only [Bool.or_eq_true, Bool.and_eq_true, decide_eq_true_eq, beq_iff_eq] at hc
  show (decide (65 ≤ c.val ∧ c.val ≤ 90) || decide (97 ≤ c.val) && decide (c.val ≤ 122) ||
    decide (48 ≤ c.val) && decide (c.val ≤ 57)) = false
  simp [UInt32.le_iff_toNat_le]
  omega

variable {u : CharTables}

/-! ### Names -/

/-- An identifier: a text that is not empty, of characters that the tables take for
those of names.  It may begin with a digit, which the parser does not mind. -/
def IsIdent (u : CharTables) (name : String) : Prop :=
  name.toList ≠ [] ∧ ∀ c ∈ name.toList, isIdentChar u c = true

/-- A name a symbol can have. -/
def DeclaredName (u : CharTables) (name : String) : Prop :=
  IsIdent u name ∨ ∃ t, IsIdent u t ∧ name = s!"impl {t}"

theorem isIdent_takeWhile {cs : List Char} (h : cs.takeWhile (isIdentChar u) ≠ []) :
    IsIdent u (String.ofList (cs.takeWhile (isIdentChar u))) := by
  unfold IsIdent
  rw [String.toList_ofList]
  exact ⟨h, fun c hc => List.mem_takeWhile_imp hc⟩

/-- The name after a keyword is an identifier. -/
theorem isIdent_declNameFrom {kw : List Char} {skip : Nat} {prev : Option Char}
    {cs ident : List Char} (h : declNameFrom u kw skip prev cs = some ident) :
    IsIdent u (String.ofList ident) := by
  induction cs generalizing skip prev with
  | nil => cases skip <;> cases h
  | cons c cs ih =>
      cases skip with
      | succ skip => exact ih h
      | zero =>
          rw [declNameFrom] at h
          split at h
          case h_1 => exact ih h
          case h_2 rest _ =>
            split at h
            case isTrue =>
              dsimp only at h
              -- The keyword stands alone here; what follows it is the name, unless there is
              -- none.
              split at h
              case isTrue => cases h
              case isFalse hne =>
                obtain rfl := Option.some.inj h
                exact isIdent_takeWhile fun hnil => hne (by rw [declIdent, hnil]; rfl)
            case isFalse => exact ih h

theorem isIdent_declName {line : List Char} {kw name : String}
    (h : declName u line kw = some name) : IsIdent u name := by
  obtain ⟨ident, hident, rfl⟩ := Option.map_eq_some_iff.mp h
  exact isIdent_declNameFrom hident

theorem isIdent_of_ne_empty {cs : List Char}
    (h : String.ofList (cs.takeWhile (isIdentChar u)) ≠ "") :
    IsIdent u (String.ofList (cs.takeWhile (isIdentChar u))) :=
  isIdent_takeWhile fun hnil => h (by rw [hnil])

/-- So is the type of a header. -/
theorem isIdent_implHeader {raw : List Char} {header : String × String}
    (h : implHeader u raw = some header) : IsIdent u header.1 := by
  unfold implHeader at h
  cases hstart : stripPrefixChars "impl".toList (trimStartChars raw) with
  | none =>
      rw [hstart] at h
      cases h
  | some _ =>
      rw [hstart] at h
      -- With ` for ` the type stands behind it, and without behind `impl`; an empty one is
      -- no header.
      cases hfor : splitOnceSub " for ".toList raw with
      | some parts =>
          rw [hfor] at h
          dsimp only at h
          split at h
          case isTrue => cases h
          case isFalse hne =>
            obtain rfl := Option.some.inj h
            exact isIdent_of_ne_empty hne
      | none =>
          rw [hfor] at h
          cases hname : declName u raw "impl" with
          | none =>
              rw [hname] at h
              cases h
          | some name =>
              rw [hname] at h
              dsimp only [Option.getD_some] at h
              split at h
              case isTrue => cases h
              case isFalse =>
                obtain rfl := Option.some.inj h
                exact isIdent_declName hname

theorem isIdent_typeDecl {raw : List Char} {kind : SymbolKind} {name : String}
    (h : typeDecl u raw = some (kind, name)) : IsIdent u name := by
  obtain ⟨name', hname, heq⟩ := Option.map_eq_some_iff.mp h
  obtain rfl := (Prod.mk.inj heq).2
  rw [Option.or_eq_some_iff, Option.or_eq_some_iff] at hname
  rcases hname with (hname | ⟨-, hname⟩) | ⟨-, hname⟩
  · exact isIdent_declName hname
  · exact isIdent_declName hname
  · exact isIdent_declName hname

/-- A name that can be declared has no whitespace at its ends. -/
theorem DeclaredName.trim_eq (hu : u.SpaceFree) {name : String} (h : DeclaredName u name) :
    trim name = name := by
  -- Whitespace is not alphanumeric by the tables, and it is no underscore.
  have hident : ∀ c, isIdentChar u c = true → isWhitespace c = false := by
    intro c hc
    by_contra hspace
    rw [Bool.not_eq_false] at hspace
    rw [isIdentChar, hu c hspace, Bool.false_or, beq_iff_eq] at hc
    rw [hc] at hspace
    exact absurd hspace (by decide)
  have hlast : ∀ {t : String}, IsIdent u t → ∀ (cs : List Char), ∀ c ∈ (cs ++ t.toList).getLast?,
      isWhitespace c = false := by
    intro t ht cs c hc
    rw [List.getLast?_append_of_ne_nil _ ht.1] at hc
    exact hident c (ht.2 c (List.mem_of_getLast? hc))
  rw [trim, ← String.toList_inj, String.toList_ofList]
  rcases h with h | ⟨t, ht, rfl⟩
  · apply trimChars_eq
    · exact fun c hc => hident c (h.2 c (List.mem_of_head? hc))
    · exact hlast h []
  -- The name of a block begins with the letters of `impl`, and ends as the type does.
  · have hname : (s!"impl {t}").toList = "impl ".toList ++ t.toList := String.toList_append
    rw [hname]
    apply trimChars_eq
    · intro c hc
      obtain rfl := Option.some.inj hc
      decide
    · exact hlast ht _

/-! ### Symbols -/

/-- A line adds symbols of the file, if any. -/
theorem parseLine_symbols (file : String) (st : ParseState) (lineno : Nat) (raw : List Char) :
    ∃ new, (parseLine u file st lineno raw).symbols = st.symbols ++ new ∧
      ∀ s ∈ new, s.file = file ∧ DeclaredName u s.name := by
  have hnone : ∃ new, st.symbols = st.symbols ++ new ∧
      ∀ s ∈ new, s.file = file ∧ DeclaredName u s.name :=
    ⟨[], (List.append_nil _).symm, List.forall_mem_nil _⟩
  -- By the tests of the source; at most one symbol is pushed, under a name that the test
  -- has found.
  dsimp only [parseLine]
  cases stripPrefixChars "///".toList (trimStartChars raw) with
  | some d => exact hnone
  | none =>
  cases himpl : implHeader u raw with
  | some header =>
      exact ⟨_, rfl, List.forall_mem_singleton.mpr
        ⟨rfl, .inr ⟨header.1, isIdent_implHeader himpl, rfl⟩⟩⟩
  | none =>
  cases htype : typeDecl u raw with
  | some decl =>
      exact ⟨_, rfl, List.forall_mem_singleton.mpr ⟨rfl, .inl (isIdent_typeDecl htype)⟩⟩
  | none =>
  cases hfn : declName u raw "fn" with
  | some name =>
      exact ⟨_, rfl, List.forall_mem_singleton.mpr ⟨rfl, .inl (isIdent_declName hfn)⟩⟩
  | none =>
  cases stripPrefixChars "use ".toList (trimStartChars raw) with
  | some _ => exact hnone
  | none => cases st.currentFn <;> exact hnone

/-- **What a file declares**: symbols of the file, under names that can be declared.
Such a name is an identifier, or `impl` with one; it is never empty. -/
theorem parseSource_symbols {file content : String} {s : Symbol}
    (h : s ∈ (parseSource u file content).1) : s.file = file ∧ DeclaredName u s.name := by
  have hfold : ∀ (lines : List (List Char × Nat)) (st : ParseState),
      (∀ s ∈ st.symbols, s.file = file ∧ DeclaredName u s.name) →
      ∀ s ∈ (lines.foldl (fun st line => parseLine u file st (line.2 + 1) line.1) st).symbols,
        s.file = file ∧ DeclaredName u s.name := by
    intro lines
    induction lines with
    | nil => exact fun st hst => hst
    | cons line lines ih =>
        intro st hst
        apply ih
        obtain ⟨new, hnew, hdeclared⟩ := parseLine_symbols (u := u) file st (line.2 + 1) line.1
        rw [hnew]
        exact List.forall_mem_append.mpr ⟨hst, hdeclared⟩
  exact hfold _ ParseState.init (List.forall_mem_nil _) s h

end Ckg

end AgenticIde
