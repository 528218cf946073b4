/-
AgenticIde/GuiVendorRuns.lean

Whether `serve` is launched for the configuration the user has saved.

A command that saves a configuration brings the one in memory and the one in the store
together, and launches `serve` only after that.  The start of the application takes the one
in memory from its default and leaves the store as it is; a configuration that cannot be
written is in the store and not in memory, and a local model that the store does not take is
in memory and not in the store.

Two operations can tell that the two are apart: an attempt to bring the backend up, which
launches `serve` for the one in memory, and the next local model, which is saved with what
is in memory around it (`setLocalModel_start`).  Everywhere else the two configurations are
one where it matters, so `consistentRun_iff` says exactly which runs are consistent.

`Settings` is what the user has saved, field by field, since a local model is saved by itself
and the rest of its configuration is whatever memory has.  A run is consistent if each launch
was faithful and the saved settings are those that the application shows, after each of its
operations.  `Op.Sound` is the condition: of an attempt, that the environment of what is in
memory is that of what is in the store; of a local model, that the other settings in memory
are the saved ones.

`perform_step` proves for one step that it goes well exactly when the condition holds, and
that it then keeps the invariant.  The run law is the induction over it: up to the first
operation that is not sound the invariant holds, and there the step does not go well.
-/
import AgenticIde.GuiVendor
import Mathlib.Data.List.Induction

namespace AgenticIde

namespace Gui

/-! ### The property -/

/-- `serve` was launched in the environment for the configuration that
`get_vendor_config` returned at the moment. -/
def Launch.Faithful (l : Launch) : Prop :=
  l.env = serveEnv l.app.getVendorConfig l.app.onlineApiKey

/-- The settings that are saved: for each field the value that was saved last,
if the last command that sets the field could write it. -/
structure Settings where
  kind : Option VendorKind
  baseUrl : Option (Option String)
  localModel : Option String
  model : Option (Option String)
  deriving DecidableEq

namespace Settings

/-- All the settings of a configuration. -/
def of (cfg : VendorConfig) : Settings :=
  ⟨some cfg.kind, some cfg.baseUrl, some cfg.localModel, some cfg.model⟩

/-- No setting. -/
def none : Settings := ⟨.none, .none, .none, .none⟩

/-- The settings but for the local model. -/
def others (s : Settings) : Settings := { s with localModel := .none }

/-- The configuration has the settings.  One that is not known to be saved asks for
nothing. -/
structure Holds (s : Settings) (cfg : VendorConfig) : Prop where
  kind : ∀ k ∈ s.kind, cfg.kind = k
  baseUrl : ∀ b ∈ s.baseUrl, cfg.baseUrl = b
  localModel : ∀ m ∈ s.localModel, cfg.localModel = m
  model : ∀ m ∈ s.model, cfg.model = m

/-- What an operation does to the saved settings. -/
def record (s : Settings) : Op → Settings
  | .setVendorConfig config .saved _ => of config
  | .setVendorConfig _ .writeFailed _ => none
  | .setLocalModel model .saved _ => { s with localModel := some model }
  | .setLocalModel _ .writeFailed _ => { s with localModel := .none }
  | _ => s

end Settings

/-- The settings that are saved after some operations on a new installation. -/
def savedSettings (ops : List Op) : Settings := ops.foldl Settings.record (.of .default)

/-- **Consistency.** `serve` was always launched for the configuration that
`get_vendor_config` returned, and this one has every setting that was saved.  Both
are read off a run from the first start of the application on. -/
def Consistent (ops : List Op) : Prop :=
  (∀ l ∈ launches ops, l.Faithful) ∧ (savedSettings ops).Holds (after ops).getVendorConfig

/-- The consistency of a whole run: after each operation. -/
def ConsistentRun (ops : List Op) : Prop := ∀ before, before <+: ops → Consistent before

/-- What an operation needs in the state it is performed in.  An attempt that
gets a process needs a configuration in memory with the environment of the one
in the store; a local model that reaches the store needs the other settings in
memory to be the saved ones. -/
def Op.Sound (s : Settings) (app : App) : Op → Prop
  | .attempt outcome =>
      app.attemptsLeft ≠ 0 → outcome.launches = true →
        serveEnv app.vendor app.onlineApiKey =
          serveEnv (app.store.cache.vendor.getD .default) app.onlineApiKey
  | .setLocalModel _ save _ => save ≠ .unavailable → s.others.Holds app.vendor
  | _ => True

/-- Every operation of a run has what it needs, in the state it is performed in. -/
def SoundRun (ops : List Op) : Prop :=
  ∀ before op, before ++ [op] <+: ops → op.Sound (savedSettings before) (after before)

theorem consistentRun_concat {ops : List Op} {op : Op} :
    ConsistentRun (ops ++ [op]) ↔ ConsistentRun ops ∧ Consistent (ops ++ [op]) := by
  constructor
  · intro h
    exact ⟨fun before hbefore => h before (hbefore.trans (List.prefix_append _ _)),
      h _ List.prefix_rfl⟩
  · rintro ⟨hops, hop⟩ before hbefore
    rcases List.prefix_concat_iff.mp hbefore with rfl | hbefore
    · exact hop
    · exact hops before hbefore

theorem soundRun_concat {ops : List Op} {op : Op} :
    SoundRun (ops ++ [op]) ↔ SoundRun ops ∧ op.Sound (savedSettings ops) (after ops) := by
  constructor
  · intro h
    exact ⟨fun before op' hbefore => h before op' (hbefore.trans (List.prefix_append _ _)),
      h ops op List.prefix_rfl⟩
  · rintro ⟨hops, hop⟩ before op' hbefore
    rcases List.prefix_concat_iff.mp hbefore with heq | hbefore
    · obtain ⟨rfl, hlast⟩ := List.append_inj' heq rfl
      rw [List.singleton_inj.mp hlast]
      exact hop
    · exact hops before op' hbefore

/-! ### Steps -/

namespace Settings

variable {s : Settings} {cfg : VendorConfig}

theorem holds_of (cfg : VendorConfig) : (of cfg).Holds cfg where
  kind := fun _ h => Option.some.inj h
  baseUrl := fun _ h => Option.some.inj h
  localModel := fun _ h => Option.some.inj h
  model := fun _ h => Option.some.inj h

theorem holds_none (cfg : VendorConfig) : none.Holds cfg where
  kind := fun _ h => by cases h
  baseUrl := fun _ h => by cases h
  localModel := fun _ h => by cases h
  model := fun _ h => by cases h

theorem Holds.others (h : s.Holds cfg) : s.others.Holds cfg where
  kind := h.kind
  baseUrl := h.baseUrl
  localModel := fun _ h => by cases h
  model := h.model

/-- Settings hold after the local model is set to the one they name, when the
others do. -/
theorem holds_withLocalModel_iff (model : String) :
    ({ s with localModel := some model } : Settings).Holds { cfg with localModel := model } ↔
      s.others.Holds cfg := by
  constructor
  · intro h
    exact ⟨h.kind, h.baseUrl, fun _ h => (by cases h), h.model⟩
  · intro h
    exact ⟨h.kind, h.baseUrl, fun _ h => Option.some.inj h, h.model⟩

/-- The other settings say nothing of the local model. -/
theorem others_holds_withLocalModel_iff (model : String) :
    s.others.Holds { cfg with localModel := model } ↔ s.others.Holds cfg := by
  constructor
  · intro h
    exact ⟨h.kind, h.baseUrl, fun _ h => (by cases h), h.model⟩
  · intro h
    exact ⟨h.kind, h.baseUrl, fun _ h => (by cases h), h.model⟩

end Settings

/-- What is kept along a run: the store has the saved settings, in memory and on
disk. -/
structure Inv (s : Settings) (app : App) : Prop where
  cache : s.Holds (app.store.cache.vendor.getD .default)
  disk : s.Holds (app.store.disk.vendor.getD .default)

variable {s : Settings} {app : App}

theorem inv_fresh : Inv (.of .default) .fresh := ⟨Settings.holds_of _, Settings.holds_of _⟩

/-- What an operation does well: it launches `serve` for the configuration in
the store, and the store has the saved settings. -/
def Op.Well (s : Settings) (app : App) (op : Op) : Prop :=
  (∀ l ∈ (app.perform op).launches, l.Faithful) ∧
    (s.record op).Holds (app.perform op).app.getVendorConfig

/-- A launch is faithful where the two configurations are one. -/
theorem faithful_of_startWithVendor (happ : app.vendor = app.getVendorConfig) {serve : Spawn}
    {l : Launch} (h : l ∈ (startWithVendor app serve).2) : l.Faithful := by
  rw [startWithVendor_launches h, Launch.Faithful, ← happ]

theorem setVendorConfig_step (h : Inv s app) (config : VendorConfig) (save : SaveOutcome)
    (serve : Spawn) :
    (Op.setVendorConfig config save serve).Well s app ∧
      Inv (s.record (.setVendorConfig config save serve))
        (app.perform (.setVendorConfig config save serve)).app := by
  cases save with
  | unavailable => exact ⟨⟨fun l hl => (by cases hl), h.cache⟩, h⟩
  | writeFailed =>
      exact ⟨⟨fun l hl => (by cases hl), Settings.holds_none _⟩,
        ⟨Settings.holds_none _, Settings.holds_none _⟩⟩
  | saved =>
      exact ⟨⟨fun l hl => faithful_of_startWithVendor rfl hl, Settings.holds_of config⟩,
        ⟨Settings.holds_of config, Settings.holds_of config⟩⟩

/-- Setting the local model goes well exactly when the other settings in memory
are the saved ones, or the store cannot be opened. -/
theorem setLocalModel_step (h : Inv s app) (model : String) (save : SaveOutcome) (serve : Spawn) :
    ((Op.setLocalModel model save serve).Well s app ↔
        (Op.setLocalModel model save serve).Sound s app) ∧
      ((Op.setLocalModel model save serve).Sound s app →
        Inv (s.record (.setLocalModel model save serve))
          (app.perform (.setLocalModel model save serve)).app) := by
  -- By what becomes of the saving: without a store nothing is saved or launched; a file
  -- that is not written has changed the store all the same; and if it is written, `serve`
  -- may be launched.
  cases save with
  | unavailable =>
      exact ⟨⟨fun _ h => absurd rfl h, fun _ => ⟨fun l hl => (by cases hl), h.cache⟩⟩,
        fun _ => ⟨h.cache, h.disk⟩⟩
  | writeFailed =>
      have hcache : (s.record (.setLocalModel model .writeFailed serve)).Holds
          { app.vendor with localModel := model } ↔ s.others.Holds app.vendor :=
        Settings.others_holds_withLocalModel_iff model
      refine ⟨⟨fun hwell _ => hcache.mp hwell.2, fun hsound => ?_⟩, fun hsound => ?_⟩
      · exact ⟨fun l hl => (by cases hl), hcache.mpr (hsound (by decide))⟩
      · exact ⟨hcache.mpr (hsound (by decide)), h.disk.others⟩
  | saved =>
      have hcache : (s.record (.setLocalModel model .saved serve)).Holds
          { app.vendor with localModel := model } ↔ s.others.Holds app.vendor :=
        Settings.holds_withLocalModel_iff model
      obtain ⟨happ, hlaunches⟩ := setLocalModel_saved app model serve rfl
      have happ' : (app.perform (.setLocalModel model .saved serve)).app = _ := happ
      rw [Op.Well, happ']
      refine ⟨⟨fun hwell _ => hcache.mp hwell.2, fun hsound => ?_⟩, fun hsound => ?_⟩
      · exact ⟨fun l hl => faithful_of_startWithVendor rfl (hlaunches l hl),
          hcache.mpr (hsound (by decide))⟩
      · exact ⟨hcache.mpr (hsound (by decide)), hcache.mpr (hsound (by decide))⟩

theorem setAutoBootstrap_step (h : Inv s app) (enabled : Bool) (save : SaveOutcome) :
    (Op.setAutoBootstrap enabled save).Well s app ∧
      Inv s (app.perform (.setAutoBootstrap enabled save)).app := by
  cases save with
  | unavailable => exact ⟨⟨fun l hl => (by cases hl), h.cache⟩, h⟩
  | writeFailed => exact ⟨⟨fun l hl => (by cases hl), h.cache⟩, ⟨h.cache, h.disk⟩⟩
  | saved => exact ⟨⟨fun l hl => (by cases hl), h.cache⟩, ⟨h.cache, h.cache⟩⟩

/-- A start launches nothing by itself, and finds what was saved in the file. -/
theorem start_step (h : Inv s app) (flushed : Bool) :
    (Op.start flushed).Well s app ∧ Inv s (app.perform (.start flushed)).app := by
  have hfile : s.Holds ((app.store.reload flushed).vendor.getD .default) := by
    cases flushed with
    | true => exact h.cache
    | false => exact h.disk
  exact ⟨⟨fun l hl => (by cases hl), hfile⟩, hfile, hfile⟩

/-- An attempt goes well exactly when what it launches is the same for the
configuration in memory and for the one in the store. -/
theorem attempt_step (h : Inv s app) (outcome : Attempt) :
    ((Op.attempt outcome).Well s app ↔ (Op.attempt outcome).Sound s app) ∧
      Inv s (app.perform (.attempt outcome)).app := by
  have hstore : (app.perform (.attempt outcome)).app.store = app.store :=
    (attempt_app app outcome).2
  have hholds : s.Holds (app.perform (.attempt outcome)).app.getVendorConfig := by
    rw [App.getVendorConfig, hstore]
    exact h.cache
  -- What is launched is the environment of the configuration in memory.
  have hfaithful : ∀ l ∈ (attempt app outcome).launches, l.Faithful ↔
      serveEnv app.vendor app.onlineApiKey =
        serveEnv (app.store.cache.vendor.getD .default) app.onlineApiKey := by
    intro l hl
    rw [attempt_launches hl]
    exact Iff.rfl
  have hiff := attempt_launches_ne_nil_iff app outcome
  refine ⟨⟨fun hwell hleft hlaunches => ?_, fun hsound => ⟨fun l hl => ?_, hholds⟩⟩, ?_⟩
  · obtain ⟨l, hl⟩ := List.exists_mem_of_ne_nil _ (hiff.mpr ⟨hleft, hlaunches⟩)
    exact (hfaithful l hl).mp (hwell.1 l hl)
  · obtain ⟨hleft, hlaunches⟩ := hiff.mp (List.ne_nil_of_mem hl)
    exact (hfaithful l hl).mpr (hsound hleft hlaunches)
  · refine ⟨?_, ?_⟩ <;> rw [hstore]
    · exact h.cache
    · exact h.disk

/-- **A step** goes well exactly when the operation has what it needs, and then
keeps the invariant.  What it needs is asked of the state before it, so that a run
can be judged step by step. -/
theorem perform_step (h : Inv s app) (op : Op) :
    (op.Well s app ↔ op.Sound s app) ∧
      (op.Sound s app → Inv (s.record op) (app.perform op).app) := by
  -- Two operations have a condition; the others go well in any state.
  cases op with
  | setVendorConfig config save serve =>
      obtain ⟨hwell, hinv⟩ := setVendorConfig_step h config save serve
      exact ⟨iff_of_true hwell trivial, fun _ => hinv⟩
  | setLocalModel model save serve => exact setLocalModel_step h model save serve
  | setAutoBootstrap enabled save =>
      obtain ⟨hwell, hinv⟩ := setAutoBootstrap_step h enabled save
      exact ⟨iff_of_true hwell trivial, fun _ => hinv⟩
  | keyring onlineApiKey =>
      exact ⟨iff_of_true ⟨fun l hl => (by cases hl), h.cache⟩ trivial, fun _ => ⟨h.cache, h.disk⟩⟩
  | start flushed =>
      obtain ⟨hwell, hinv⟩ := start_step h flushed
      exact ⟨iff_of_true hwell trivial, fun _ => hinv⟩
  | attempt outcome =>
      obtain ⟨hwell, hinv⟩ := attempt_step h outcome
      exact ⟨hwell, fun _ => hinv⟩

/-! ### Runs -/

theorem savedSettings_concat (ops : List Op) (op : Op) :
    savedSettings (ops ++ [op]) = (savedSettings ops).record op := by
  rw [savedSettings, List.foldl_append]
  rfl

/-- After a consistent run, one more operation is consistent exactly when it
goes well. -/
theorem consistent_concat {ops : List Op} (h : Consistent ops) (op : Op) :
    Consistent (ops ++ [op]) ↔ op.Well (savedSettings ops) (after ops) := by
  rw [Consistent, savedSettings_concat, after_concat, launches_concat]
  constructor
  · rintro ⟨hlaunches, hsettings⟩
    exact ⟨fun l hl => hlaunches l (List.mem_append_right _ hl), hsettings⟩
  · rintro ⟨hlaunches, hsettings⟩
    constructor
    · intro l hl
      rcases List.mem_append.mp hl with hl | hl
      · exact h.1 l hl
      · exact hlaunches l hl
    · exact hsettings

/-- Along a run whose operations have what they need, the invariant holds. -/
theorem inv_after {ops : List Op} (h : SoundRun ops) : Inv (savedSettings ops) (after ops) := by
  induction ops using List.reverseRecOn with
  | nil => exact inv_fresh
  | append_singleton ops op ih =>
      obtain ⟨hops, hop⟩ := soundRun_concat.mp h
      rw [savedSettings_concat, after_concat]
      exact (perform_step (ih hops) op).2 hop

/-- **A run is consistent** exactly when each of its operations has what it
needs: no attempt launches `serve` while the configuration in memory has another
environment than the one in the store, and no local model is set while the other
settings in memory are not the saved ones. -/
theorem consistentRun_iff (ops : List Op) : ConsistentRun ops ↔ SoundRun ops := by
  induction ops using List.reverseRecOn with
  | nil =>
      constructor
      · intro _ before op hbefore
        exact absurd (List.prefix_nil.mp hbefore) (by simp)
      · intro _ before hbefore
        rw [List.prefix_nil.mp hbefore]
        exact ⟨fun l hl => (by cases hl), Settings.holds_of _⟩
  | append_singleton ops op ih =>
      rw [consistentRun_concat, soundRun_concat, ih]
      apply and_congr_right
      intro hops
      have hconsistent : Consistent ops := ih.mpr hops ops List.prefix_rfl
      rw [consistent_concat hconsistent]
      exact (perform_step (inv_after hops) op).1

/-- An online vendor, and another start. -/
theorem not_consistentRun_online :
    ¬ ConsistentRun
      [.setVendorConfig ⟨.online, some "https://api.example.com/v1", "m.gguf", none⟩ .saved .ready,
        .start true, .attempt (.serve .ready)] := by
  intro h
  obtain ⟨hlaunches, -⟩ := h _ List.prefix_rfl
  have hlaunch := hlaunches _ (List.mem_cons_of_mem _ List.mem_cons_self)
  unfold Launch.Faithful at hlaunch
  revert hlaunch
  decide

/-- After a start, and until a command changes it, the configuration in memory is
the default one. -/
theorem start_vendor (app : App) (flushed : Bool) : (start app flushed).app.vendor = .default := rfl

/-- So an attempt behind a start launches `serve` for the default configuration,
whatever the file has. -/
theorem attempt_start {app : App} {flushed : Bool} {outcome : Attempt} {l : Launch}
    (h : l ∈ (attempt (start app flushed).app outcome).launches) :
    l.env = serveEnv .default app.onlineApiKey := by
  rw [attempt_launches h, start_vendor]
  rfl

/-- Whatever is saved, a local model that is set after a start is saved with the
other settings of the default configuration. -/
theorem setLocalModel_start (app : App) (flushed : Bool) (model : String) (serve : Spawn) :
    (setLocalModel (start app flushed).app model .saved serve).app.getVendorConfig =
      { VendorConfig.default with localModel := model } := by
  rw [(setLocalModel_saved _ model serve rfl).1]
  rfl

end Gui

end AgenticIde
