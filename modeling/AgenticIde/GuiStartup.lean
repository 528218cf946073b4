/-
AgenticIde/GuiStartup.lean

How the desktop application says how far its backend is (`bootstrap/mod.rs`,
`bootstrap/pg.rs`, `bootstrap/llamacpp.rs`, `bootstrap/serve.rs`,
`grpc/client.rs`, `commands/connection.rs`).

The parts of the backend are started one after the other, each reporting its
progress; every report is kept for `bootstrap_status`, and broadcast.  What
becomes of the files, the processes and the ports is left to the outside.

An attempt rises from nothing to 1, where it is ready or has failed
(`bootstrapStack_attempted`); where it has failed, its last report has the text of
its error and says which part of the backend it is from.  What is broadcast while
the backend is brought up is one attempt after the other, each from the state that
the one before left (`attempts`, `bootstrapStackWithRetry_tried`).

Over all runs of attempts and commands, the status is ready exactly if the last
thing that was broadcast is the end of an attempt that succeeded
(`bootstrapStatus_ready_iff`).
-/
import AgenticIde.GuiVendor
import AgenticIde.HostCraft
import AgenticIde.Lib.Ascent
import Mathlib.Algebra.Order.Ring.Rat

namespace AgenticIde

namespace GuiCraft.GuiError

/-- The `Display` text of an error. -/
def toString (e : GuiError) : String := s!"[{e.code}] {e.message}"

def bootstrap (message : String) : GuiError := ⟨"bootstrap", message⟩

end GuiCraft.GuiError

namespace GuiStartup

open Gui (VendorConfig)
open GuiCraft (GuiError)

/-! ### What is reported -/

/-- The phases of bringing the backend up. -/
inductive BootstrapPhase
  | idle
  | pg
  | ollama
  | model
  | serve
  | ready
  | error
  deriving DecidableEq

/-- A report. -/
structure BootstrapState where
  phase : BootstrapPhase
  progress : ℚ
  detail : Option String
  deriving DecidableEq

/-- Whether there is a connection to the server. -/
inductive ConnStatus
  | booting
  | connected
  | error
  deriving DecidableEq

/-- `AppState`, and what is outside of it; a client is a connection that was made. -/
structure AppState (ε : Type) where
  env : ε
  vendor : VendorConfig
  phase : BootstrapPhase
  lastBootstrap : Option BootstrapState
  grpc : Bool
  connStatus : ConnStatus

/-- `AppState::new`. -/
def AppState.new {ε : Type} (env : ε) : AppState ε := ⟨env, .default, .idle, none, false, .booting⟩

/-- How the outside answers, from its hidden state. -/
structure Outside (ε : Type) where
  /-- `psql` reaches the database -/
  pgReady : ε → Bool × ε
  /-- there is a `PG_VERSION` in the data directory -/
  pgVersionExists : ε → Bool × ε
  runInitdb : ε → Except GuiError Unit × ε
  spawnPgCtl : ε → Except GuiError Unit × ε
  ensureDbAndRole : ε → ε
  applyMigrations : ε → Except GuiError Unit × ε
  /-- something listens on the port of the llama-server -/
  llamacppReady : ε → Bool × ε
  /-- the weights that the configuration resolves to are there -/
  modelPathExists : VendorConfig → ε → Bool × ε
  spawnBinary : String → ε → Except GuiError Unit × ε
  stopCurrent : ε → ε
  /-- `serve` reports in time that it is serving -/
  waitUntilReady : ε → Bool × ε
  connect : ε → Bool × ε
  saveVendorConfig : VendorConfig → ε → Except GuiError Unit × ε

variable {ε α : Type}

/-- A computation of the application; its trace is what it broadcasts. -/
abbrev Command (ε α : Type) : Type := Act (AppState ε) BootstrapState GuiError α

/-- Ask the outside. -/
def ask (f : ε → α × ε) : Command ε α :=
  Act.modifyGet fun app => ((f app.env).1, { app with env := (f app.env).2 })

/-- Ask the outside for something that may fail. -/
def request (f : ε → Except GuiError α × ε) : Command ε α := do Act.ofExcept (← ask f)

/-- Keep a report, and broadcast it. -/
def emitProgress (phase : BootstrapPhase) (progress : ℚ) (detail : String) : Command ε Unit :=
  fun app => ⟨.ok (), { app with
    phase := phase
    lastBootstrap := some ⟨phase, progress, some detail⟩ }, [⟨phase, progress, some detail⟩]⟩

/-- Ask again until the answer is yes, so many times at most. -/
def poll (ready : ε → Bool × ε) (e : GuiError) : Nat → Command ε Unit
  | 0 => Act.throw e
  | n + 1 => do
      if ← ask ready then return () else poll ready e n

/-! ### The parts of the backend -/

section

variable (outside : Outside ε)

/-- `wait_pg_ready`. -/
def waitPgReady : Command ε Unit :=
  poll outside.pgReady (.bootstrap "PostgreSQL 启动后超时未就绪") 60

/-- `wait_llamacpp_ready`. -/
def waitLlamacppReady : Command ε Unit :=
  poll outside.llamacppReady (.bootstrap "llama-server 启动后超时未就绪") 60

/-- Create the database, and bring its schema up to date. -/
def prepareDatabase : Command ε Unit := do
  ask fun env => ((), outside.ensureDbAndRole env)
  request outside.applyMigrations

/-- Make the data directory a database, unless it is one. -/
def initDataDirectory : Command ε Unit := do
  if ← ask outside.pgVersionExists then return ()
  else
    emitProgress .pg 0.08 "initdb 初始化数据目录"
    request outside.runInitdb

/-- `pg::init_and_start`. -/
def initAndStart : Command ε Unit := do
  emitProgress .pg 0.04 "检查 PostgreSQL 状态"
  if ← ask outside.pgReady then
    emitProgress .pg 0.2 "复用外部 PostgreSQL"
    prepareDatabase outside
    emitProgress .pg 0.35 "PostgreSQL 就绪"
  else
    initDataDirectory outside
    emitProgress .pg 0.18 "启动 PostgreSQL"
    request outside.spawnPgCtl
    waitPgReady outside
    prepareDatabase outside
    emitProgress .pg 0.35 "PostgreSQL 就绪"

/-- `llamacpp::start`. -/
def start : Command ε Unit := do
  emitProgress .ollama 0.4 "启动本地推理服务 llama-server"
  if ← ask outside.llamacppReady then
    emitProgress .ollama 0.5 "复用外部 llama-server"
  else
    let app ← Act.get
    if ← ask (outside.modelPathExists app.vendor) then
      request (outside.spawnBinary "llama-server")
      waitLlamacppReady outside
      emitProgress .ollama 0.5 "llama-server 就绪"
    else
      emitProgress .ollama 0.5 "未找到本地 GGUF 权重，跳过本地推理"

/-- `serve::start_with_vendor`; the environment of the child is nothing to the
progress. -/
def startWithVendor : Command ε Unit := do
  emitProgress .serve 0.75 "启动 aidea serve"
  request (outside.spawnBinary "aidea")
  if ← ask outside.waitUntilReady then
    emitProgress .serve 0.95 "aidea serve 就绪"
  else Act.throw (.bootstrap "aidea serve 启动后超时未就绪（Health.Check 未 SERVING）")

/-- `serve::restart_with_vendor`. -/
def restartWithVendor : Command ε Unit := do
  ask fun env => ((), outside.stopCurrent env)
  startWithVendor outside

/-- `client::ensure_connected`; a client that was made before is kept. -/
def ensureConnected : Command ε Unit := do
  if ← ask outside.connect then
    Act.modify fun app => { app with grpc := true, connStatus := .connected }
  else
    Act.modify fun app => { app with connStatus := .error }

/-! ### The backend -/

/-- Start the llama-server; the backend is started without it all the same. -/
def startOrGoOn : Command ε Unit := do
  match ← (start outside).attempt with
  | .error _ => emitProgress .ollama 0.7 "llama-server / 模型不可用（离线），serve 将继续启动"
  | .ok () => return ()

/-- `bootstrap_stack`. -/
def bootstrapStack : Command ε Unit := do
  emitProgress .pg 0.02 "准备启动后端栈"
  match ← (initAndStart outside).attempt with
  | .error e =>
      emitProgress .error 1 s!"PostgreSQL 启动失败: {e.toString}"
      Act.throw e
  | .ok () => do
      startOrGoOn outside
      match ← (startWithVendor outside).attempt with
      | .error e =>
          emitProgress .error 1 s!"aidea serve 启动失败: {e.toString}"
          Act.throw e
      | .ok () => do
          emitProgress .ready 1 "后端栈就绪"
          ensureConnected outside

/-- The attempts of `bootstrap_stack_with_retry`: up to the first that succeeds. -/
def retry : Nat → Command ε Unit
  | 0 => pure ()
  | n + 1 => do
      match ← (bootstrapStack outside).attempt with
      | .ok () => pure ()
      | .error _ => retry n

/-- `bootstrap_stack_with_retry`: one attempt at least; the last error is only logged. -/
def bootstrapStackWithRetry (attempts : Nat) : Command ε Unit := retry outside (max attempts 1)

/-! ### Commands -/

/-- `set_vendor_config`. -/
def setVendorConfig (config : VendorConfig) : Command ε Unit := do
  request (outside.saveVendorConfig config)
  Act.modify fun app => { app with vendor := config }
  restartWithVendor outside
  ensureConnected outside

/-- `set_local_model`. -/
def setLocalModel (model : String) : Command ε Unit := do
  Act.modify fun app => { app with vendor := { app.vendor with localModel := model } }
  let config := (← Act.get).vendor
  request (outside.saveVendorConfig config)
  if config.kind = .localServer then
    restartWithVendor outside
    ensureConnected outside

end

/-- `bootstrap_status`: the last report, or the phase. -/
def bootstrapStatus (app : AppState ε) : BootstrapState :=
  app.lastBootstrap.getD ⟨app.phase, 0, none⟩

/-- What may happen. -/
inductive Op
  | bootstrap (attempts : Nat)
  | setVendorConfig (config : VendorConfig)
  | setLocalModel (model : String)
  deriving DecidableEq

/-- Let it happen. -/
def perform (outside : Outside ε) : Op → Command ε Unit
  | .bootstrap attempts => bootstrapStackWithRetry outside attempts
  | .setVendorConfig config => setVendorConfig outside config
  | .setLocalModel model => setLocalModel outside model

/-- One thing after the other, whether they fail or not. -/
def run (outside : Outside ε) : List Op → Command ε Unit
  | [] => pure ()
  | op :: ops => do
      (perform outside op).ignore
      run outside ops

/-! ### What is kept of the reports -/

/-- The last report of a run is the one that is kept. -/
def keepsLast (ε : Type) : Law (AppState ε) BootstrapState where
  rel app t app' := app'.lastBootstrap = t.getLast?.or app.lastBootstrap ∧
    app'.phase = (t.getLast?.map BootstrapState.phase).getD app.phase
  refl _ := ⟨rfl, rfl⟩
  comp {app t app' t' app''} h h' := by
    rw [h'.1, h.1, h'.2, h.2, List.getLast?_append]
    rcases t'.getLast? with - | b
    · exact ⟨rfl, rfl⟩
    · exact ⟨rfl, rfl⟩

/-- The progress of a report fits its phase.  Two of the phases are never reported
while the stack is brought up. -/
def Fits (b : BootstrapState) : Prop :=
  match b.phase with
  | .idle | .model => False
  | .pg => b.progress ≤ 0.35
  | .ollama => 0.4 ≤ b.progress ∧ b.progress ≤ 0.7
  | .serve => 0.75 ≤ b.progress ∧ b.progress ≤ 0.95
  | .ready | .error => b.progress = 1

/-- Its reports rise between two bounds, fit, and are kept: the application
remembers the last one it has sent. -/
structure Reports (lo hi : ℚ) (m : Command ε α) : Prop where
  rises : m.Rises BootstrapState.progress lo hi
  fits : (Law.always _ Fits).Obeys m
  kept : (keepsLast ε).Obeys m

namespace Reports

variable {lo mid hi : ℚ} {β : Type}

theorem pure (a : α) : Reports lo hi (Pure.pure a : Command ε α) :=
  ⟨Act.rises_pure a, Law.obeys_pure a, Law.obeys_pure a⟩

theorem throw (e : GuiError) : Reports lo hi (Act.throw e : Command ε α) :=
  ⟨Act.rises_throw e, Law.obeys_throw e, Law.obeys_throw e⟩

theorem bind (mid : ℚ) {m : Command ε α} {g : α → Command ε β} (hm : Reports lo mid m)
    (hg : ∀ a, Reports mid hi (g a)) (hlo : lo ≤ mid) (hhi : mid ≤ hi) :
    Reports lo hi (m >>= g) where
  rises := Act.rises_bind mid hm.rises (fun a => (hg a).rises) hlo hhi
  fits := Law.obeys_bind hm.fits fun a => (hg a).fits
  kept := Law.obeys_bind hm.kept fun a => (hg a).kept

theorem get : Reports lo hi (Act.get : Command ε (AppState ε)) where
  rises _ := .nil
  fits := Law.obeys_get
  kept := Law.obeys_get

theorem modify {f : AppState ε → AppState ε}
    (hlast : ∀ app, (f app).lastBootstrap = app.lastBootstrap)
    (hphase : ∀ app, (f app).phase = app.phase) :
    Reports lo hi (Act.modify f : Command ε Unit) where
  rises _ := .nil
  fits _ _ h := absurd h List.not_mem_nil
  kept app := ⟨hlast app, hphase app⟩

/-- The reports of a run. -/
theorem of_run {m : Command ε α} (h : Reports lo hi m) {app app' : AppState ε}
    {r : Except GuiError α} {t : List BootstrapState} (hrun : m app = ⟨r, app', t⟩) :
    Ascent BootstrapState.progress lo hi t ∧ ∀ b ∈ t, Fits b := by
  have hrises := h.rises app
  have hfits := h.fits app
  rw [hrun] at hrises hfits
  exact ⟨hrises, hfits⟩

/-- Asking the outside reports nothing. -/
theorem ask (f : ε → α × ε) : Reports lo hi (GuiStartup.ask f) where
  rises := Act.rises_modifyGet _
  fits _ _ h := absurd h List.not_mem_nil
  kept _ := ⟨rfl, rfl⟩

theorem ask_bind {f : ε → α × ε} {g : α → Command ε β} (hg : ∀ a, Reports lo hi (g a))
    (h : lo ≤ hi) : Reports lo hi (GuiStartup.ask f >>= g) :=
  bind lo (ask f) hg le_rfl h

theorem request (f : ε → Except GuiError α × ε) (h : lo ≤ hi) :
    Reports lo hi (GuiStartup.request f) := by
  apply ask_bind _ h
  intro r
  rcases r with e | a
  · exact throw e
  · exact pure a

theorem emitProgress {phase : BootstrapPhase} {progress : ℚ} {detail : String} (hlo : lo < progress)
    (hhi : progress ≤ hi) (hfits : Fits ⟨phase, progress, some detail⟩) :
    Reports lo hi (GuiStartup.emitProgress phase progress detail : Command ε Unit) where
  rises _ := .single hlo hhi
  fits _ b hb := by
    obtain rfl := List.mem_singleton.mp hb
    exact hfits
  kept _ := ⟨rfl, rfl⟩

/-- A report, and what rises from it. -/
theorem emit_bind {phase : BootstrapPhase} {progress : ℚ} {detail : String} {m : Command ε α}
    (hlo : lo < progress) (hfits : Fits ⟨phase, progress, some detail⟩) (hhi : progress ≤ hi)
    (hm : Reports progress hi m) :
    Reports lo hi (GuiStartup.emitProgress phase progress detail >>= fun _ => m) :=
  bind progress (emitProgress hlo le_rfl hfits) (fun _ => hm) hlo.le hhi

theorem poll (ready : ε → Bool × ε) (e : GuiError) (h : lo ≤ hi) (n : Nat) :
    Reports lo hi (GuiStartup.poll ready e n) := by
  induction n with
  | zero => exact throw e
  | succ n ih =>
      apply ask_bind _ h
      intro answer
      rcases answer with - | -
      · exact ih
      · exact pure ()

end Reports

variable (outside : Outside ε)

theorem prepareDatabase_reports {lo hi : ℚ} (h : lo ≤ hi) :
    Reports lo hi (prepareDatabase outside) :=
  .ask_bind (fun _ => .request _ h) h

theorem initDataDirectory_reports : Reports 0.04 0.08 (initDataDirectory outside) := by
  apply Reports.ask_bind _ (by norm_num)
  intro answer
  rcases answer with - | -
  · apply Reports.emit_bind (by norm_num) (by norm_num [Fits]) (by norm_num)
    exact .request _ (by norm_num)
  · exact .pure ()

theorem initAndStart_reports : Reports 0.02 0.35 (initAndStart outside) := by
  -- The reports go up with the source: the number behind each step is the progress that was
  -- last reported when it ends.
  apply Reports.emit_bind (by norm_num) (by norm_num [Fits]) (by norm_num)
  apply Reports.ask_bind _ (by norm_num)
  intro answer
  rcases answer with - | -
  · apply Reports.bind 0.08 (initDataDirectory_reports outside) _ (by norm_num) (by norm_num)
    intro _
    apply Reports.emit_bind (by norm_num) (by norm_num [Fits]) (by norm_num)
    apply Reports.bind 0.18 (.request _ le_rfl) _ le_rfl (by norm_num)
    intro _
    apply Reports.bind 0.18 (.poll _ _ le_rfl 60) _ le_rfl (by norm_num)
    intro _
    apply Reports.bind 0.18 (prepareDatabase_reports outside le_rfl) _ le_rfl (by norm_num)
    intro _
    exact .emitProgress (by norm_num) le_rfl (by norm_num [Fits])
  · apply Reports.emit_bind (by norm_num) (by norm_num [Fits]) (by norm_num)
    apply Reports.bind 0.2 (prepareDatabase_reports outside le_rfl) _ le_rfl (by norm_num)
    intro _
    exact .emitProgress (by norm_num) le_rfl (by norm_num [Fits])

theorem start_reports : Reports 0.35 0.5 (start outside) := by
  apply Reports.emit_bind (by norm_num) (by norm_num [Fits]) (by norm_num)
  apply Reports.ask_bind _ (by norm_num)
  intro answer
  rcases answer with - | -
  · apply Reports.bind 0.4 .get _ le_rfl (by norm_num)
    intro app
    apply Reports.ask_bind _ (by norm_num)
    intro answer
    rcases answer with - | -
    · exact .emitProgress (by norm_num) le_rfl (by norm_num [Fits])
    · apply Reports.bind 0.4 (.request _ le_rfl) _ le_rfl (by norm_num)
      intro _
      apply Reports.bind 0.4 (.poll _ _ le_rfl 60) _ le_rfl (by norm_num)
      intro _
      exact .emitProgress (by norm_num) le_rfl (by norm_num [Fits])
  · exact .emitProgress (by norm_num) le_rfl (by norm_num [Fits])

theorem startWithVendor_reports {lo : ℚ} (h : lo < 0.75) :
    Reports lo 0.95 (startWithVendor outside) := by
  apply Reports.emit_bind h (by norm_num [Fits]) (by norm_num)
  apply Reports.bind 0.75 (.request _ le_rfl) _ le_rfl (by norm_num)
  intro _
  apply Reports.ask_bind _ (by norm_num)
  intro answer
  rcases answer with - | -
  · exact .throw _
  · exact .emitProgress (by norm_num) le_rfl (by norm_num [Fits])

theorem startOrGoOn_reports : Reports 0.35 0.7 (startOrGoOn outside) := by
  have hattempt : Reports 0.35 0.5 ((start outside).attempt : Command ε (Except GuiError Unit)) :=
    ⟨(start_reports outside).rises, (start_reports outside).fits, (start_reports outside).kept⟩
  apply Reports.bind 0.5 hattempt _ (by norm_num) (by norm_num)
  intro r
  rcases r with e | -
  · exact .emitProgress (by norm_num) le_rfl (by norm_num [Fits])
  · exact .pure ()

/-- The llama-server cannot hold the backend up. -/
theorem startOrGoOn_succeeds : (startOrGoOn outside).Succeeds := by
  apply Act.succeeds_bind (Act.succeeds_attempt _)
  intro r
  rcases r with e | -
  · exact fun _ => ⟨(), rfl⟩
  · exact Act.succeeds_pure ()

/-! ### An attempt -/

/-- The reports of an attempt but the last one, which begin with the first report
there is. -/
structure Climb (t : List BootstrapState) : Prop where
  first : t.head? = some ⟨.pg, 0.02, some "准备启动后端栈"⟩
  rises : Ascent BootstrapState.progress 0 0.95 t
  fits : ∀ b ∈ t, Fits b

/-- What an attempt comes to. -/
abbrev Attempt (ε : Type) : Type := Outcome (AppState ε) BootstrapState GuiError Unit

/-- The text of a failure, after the reports before it: it is that of the database unless
`serve` was reported. -/
def FailsWith (e : GuiError) (t : List BootstrapState) (detail : String) : Prop :=
  detail = s!"PostgreSQL 启动失败: {e.toString}" ∧ (∀ b ∈ t, b.phase = .pg) ∨
    detail = s!"aidea serve 启动失败: {e.toString}" ∧ ∃ b ∈ t, b.phase = .serve

/-- How an attempt goes: it is ready where it succeeds, and an error where it fails. -/
inductive Attempted : Attempt ε → Prop
  | ready (app : AppState ε) (t : List BootstrapState) (h : Climb t) :
      Attempted ⟨.ok (), app, t ++ [⟨.ready, 1, some "后端栈就绪"⟩]⟩
  | failed (app : AppState ε) (t : List BootstrapState) (e : GuiError) (detail : String)
      (hdetail : FailsWith e t detail) (h : Climb t) :
      Attempted ⟨.error e, app, t ++ [⟨.error, 1, some detail⟩]⟩

theorem Climb.cons {t : List BootstrapState} (hrises : Ascent BootstrapState.progress 0.02 0.95 t)
    (hfits : ∀ b ∈ t, Fits b) : Climb (⟨.pg, 0.02, some "准备启动后端栈"⟩ :: t) where
  first := rfl
  rises := .append (.single (by norm_num) le_rfl) hrises (by norm_num) (by norm_num)
  fits := List.forall_mem_cons.mpr ⟨by norm_num [Fits], hfits⟩

/-- Connecting reports nothing. -/
theorem ensureConnected_reports {lo hi : ℚ} (h : lo ≤ hi) :
    Reports lo hi (ensureConnected outside) := by
  apply Reports.ask_bind _ h
  intro answer
  rcases answer with - | -
  · exact .modify (fun _ => rfl) (fun _ => rfl)
  · exact .modify (fun _ => rfl) (fun _ => rfl)

theorem restartWithVendor_reports : Reports 0.7 0.95 (restartWithVendor outside) :=
  .ask_bind (fun _ => startWithVendor_reports outside (by norm_num)) (by norm_num)

/-- Taking over a configuration reports of `serve` only. -/
theorem setVendorConfig_reports (config : VendorConfig) :
    Reports 0.7 0.95 (setVendorConfig outside config) := by
  apply Reports.bind 0.7 (.request _ le_rfl) _ le_rfl (by norm_num)
  intro _
  refine .bind 0.7 (.modify ?_ ?_) (fun _ => ?_) le_rfl (by norm_num)
  · exact fun _ => rfl
  · exact fun _ => rfl
  apply Reports.bind 0.95 (restartWithVendor_reports outside) _ (by norm_num) le_rfl
  intro _
  exact ensureConnected_reports outside le_rfl

theorem setLocalModel_reports (model : String) :
    Reports 0.7 0.95 (setLocalModel outside model) := by
  refine .bind 0.7 (.modify ?_ ?_) (fun _ => ?_) le_rfl (by norm_num)
  · exact fun _ => rfl
  · exact fun _ => rfl
  apply Reports.bind 0.7 .get _ le_rfl (by norm_num)
  intro app
  apply Reports.bind 0.7 (.request _ le_rfl) _ le_rfl (by norm_num)
  intro _
  split
  · apply Reports.bind 0.95 (restartWithVendor_reports outside) _ (by norm_num) le_rfl
    intro _
    exact ensureConnected_reports outside le_rfl
  · exact .pure ()

theorem ensureConnected_apply (app : AppState ε) :
    ∃ app', ensureConnected outside app = ⟨.ok (), app', []⟩ := by
  rw [ensureConnected, ask, Act.bind_apply, Act.modifyGet_apply, Outcome.andThen_mk_ok]
  rcases (outside.connect app.env).1 with - | -
  · exact ⟨_, rfl⟩
  · exact ⟨_, rfl⟩

/-- The end of an attempt that fails. -/
theorem fail_apply (e : GuiError) (detail : String) (app : AppState ε) :
    ∃ app', (emitProgress .error 1 detail >>= fun _ => Act.throw e : Command ε Unit) app =
      ⟨.error e, app', [⟨.error, 1, some detail⟩]⟩ := ⟨_, rfl⟩

/-- The end of an attempt that succeeds. -/
theorem ready_apply (app : AppState ε) :
    ∃ app', (emitProgress .ready 1 "后端栈就绪" >>= fun _ => ensureConnected outside) app =
      ⟨.ok (), app', [⟨.ready, 1, some "后端栈就绪"⟩]⟩ := by
  obtain ⟨app', hconnect⟩ := ensureConnected_apply outside
    (emitProgress .ready 1 "后端栈就绪" app : Outcome _ _ GuiError Unit).state
  refine ⟨app', ?_⟩
  show Outcome.after _ (ensureConnected outside _) = _
  rw [hconnect]
  rfl

/-- Up to 0.35 there is only the database. -/
theorem phase_of_fits_le {b : BootstrapState} (hfits : Fits b) (hle : b.progress ≤ 0.35) :
    b.phase = .pg := by
  rcases b with ⟨- | - | - | - | - | - | -, progress, detail⟩
  · exact hfits.elim
  · rfl
  · exact absurd ((show 0.4 ≤ progress ∧ _ from hfits).1.trans hle) (by norm_num)
  · exact hfits.elim
  · exact absurd ((show 0.75 ≤ progress ∧ _ from hfits).1.trans hle) (by norm_num)
  · rw [show progress = 1 from hfits] at hle
    exact absurd hle (by norm_num)
  · rw [show progress = 1 from hfits] at hle
    exact absurd hle (by norm_num)

/-- Starting `serve` is reported before anything can fail. -/
theorem serve_mem_startWithVendor (app : AppState ε) :
    ⟨.serve, 0.75, some "启动 aidea serve"⟩ ∈ (startWithVendor outside app).trace := by
  rw [startWithVendor, Act.bind_apply]
  show _ ∈ (Outcome.after _ _).trace
  exact List.mem_cons_self
-- The three stages follow one another, and the second cannot fail; so an attempt ends in
-- the first, in the third, or well.

/-- **An attempt rises** to its end. -/
theorem bootstrapStack_attempted (app : AppState ε) : Attempted (bootstrapStack outside app) := by
  obtain ⟨app₁, hfirst⟩ : ∃ app₁, (emitProgress .pg 0.02 "准备启动后端栈" : Command ε Unit) app =
      ⟨.ok (), app₁, [⟨.pg, 0.02, some "准备启动后端栈"⟩]⟩ := ⟨_, rfl⟩
  rw [bootstrapStack, Act.bind_apply_of_ok hfirst, Act.bind_apply, Act.attempt_apply]
  rcases hpg : initAndStart outside app₁ with ⟨e | ⟨⟩, app₂, t₁⟩
  -- The first stage failed: all that was reported is of the database.
  · obtain ⟨hrises₁, hfits₁⟩ := (initAndStart_reports outside).of_run hpg
    have hpgOnly : ∀ b ∈ t₁, b.phase = .pg := fun b hb =>
      phase_of_fits_le (hfits₁ b hb) (hrises₁.within b hb).2
    exact .failed _ _ e _ (.inl ⟨rfl, List.forall_mem_cons.mpr ⟨rfl, hpgOnly⟩⟩)
      (.cons (hrises₁.mono le_rfl (by norm_num)) hfits₁)
  obtain ⟨hrises₁, hfits₁⟩ := (initAndStart_reports outside).of_run hpg
  obtain ⟨⟨⟩, app₃, t₂, hllama⟩ := (startOrGoOn_succeeds outside).apply app₂
  obtain ⟨hrises₂, hfits₂⟩ := (startOrGoOn_reports outside).of_run hllama
  have hbands : (0.7 : ℚ) < 0.75 := by norm_num
  -- However `serve` goes, the reports of the stages rise one behind the other.
  have hclimb : ∀ {r app₄ t₃}, startWithVendor outside app₃ = ⟨r, app₄, t₃⟩ →
      Climb (⟨.pg, 0.02, some "准备启动后端栈"⟩ :: (t₁ ++ (t₂ ++ t₃))) := by
    intro r app₄ t₃ hserve
    obtain ⟨hrises₃, hfits₃⟩ := (startWithVendor_reports outside hbands).of_run hserve
    apply Climb.cons
    · exact hrises₁.append (hrises₂.append hrises₃ (by norm_num) (by norm_num)) (by norm_num)
        (by norm_num)
    · rw [List.forall_mem_append, List.forall_mem_append]
      exact ⟨hfits₁, hfits₂, hfits₃⟩
  have htrace : ∀ t₃ (last : BootstrapState),
      (⟨.pg, 0.02, some "准备启动后端栈"⟩ :: (t₁ ++ (t₂ ++ (t₃ ++ [last]))) : List BootstrapState) =
        (⟨.pg, 0.02, some "准备启动后端栈"⟩ :: (t₁ ++ (t₂ ++ t₃))) ++ [last] := by
    intro t₃ last
    simp only [List.cons_append, List.append_assoc]
  rw [Outcome.andThen_mk_ok]
  dsimp only
  rw [Act.bind_apply_of_ok hllama, Act.bind_apply, Act.attempt_apply]
  rcases hserve : startWithVendor outside app₃ with ⟨e | ⟨⟩, app₄, t₃⟩
  · obtain ⟨app₅, hend⟩ := fail_apply e s!"aidea serve 启动失败: {e.toString}" app₄
    -- The third stage reports `serve` before anything of it can fail.
    have hreported : ⟨.serve, 0.75, some "启动 aidea serve"⟩ ∈ t₃ := by
      have hmem := serve_mem_startWithVendor outside app₃
      rwa [hserve] at hmem
    have hmem : ⟨.serve, 0.75, some "启动 aidea serve"⟩ ∈
        (⟨.pg, 0.02, some "准备启动后端栈"⟩ :: (t₁ ++ (t₂ ++ t₃)) : List BootstrapState) :=
      List.mem_cons_of_mem _ (List.mem_append_right _ (List.mem_append_right _ hreported))
    have hfailed := Attempted.failed app₅ _ e _ (.inr ⟨rfl, _, hmem, rfl⟩) (hclimb hserve)
    rw [← htrace] at hfailed
    rw [Outcome.andThen_mk_ok]
    dsimp only
    rw [hend]
    exact hfailed
  · obtain ⟨app₅, hend⟩ := ready_apply outside app₄
    have hready := Attempted.ready app₅ _ (hclimb hserve)
    rw [← htrace] at hready
    rw [Outcome.andThen_mk_ok]
    dsimp only
    rw [hend]
    exact hready

/-! ### The attempts -/

/-- The attempts that are made, of so many at most, each from the state that the one before
left: the last one may succeed. -/
def attempts : Nat → AppState ε → List (Attempt ε)
  | 0, _ => []
  | n + 1, app =>
      match (bootstrapStack outside app).result with
      | .ok () => [bootstrapStack outside app]
      | .error _ => bootstrapStack outside app :: attempts n (bootstrapStack outside app).state

theorem attempts_of_ok {app : AppState ε} (h : (bootstrapStack outside app).result = .ok ())
    (n : Nat) : attempts outside (n + 1) app = [bootstrapStack outside app] := by
  rw [attempts, h]

theorem attempts_of_error {app : AppState ε} {e : GuiError}
    (h : (bootstrapStack outside app).result = .error e) (n : Nat) :
    attempts outside (n + 1) app = bootstrapStack outside app ::
      attempts outside n (bootstrapStack outside app).state := by
  rw [attempts, h]

/-- The reports of the attempts. -/
theorem retry_trace (n : Nat) (app : AppState ε) :
    (retry outside n app).trace = (attempts outside n app).flatMap Outcome.trace := by
  induction n generalizing app with
  | zero => rfl
  | succ n ih =>
      rw [retry, Act.bind_apply, Act.attempt_apply, Outcome.andThen_mk_ok]
      rcases hresult : (bootstrapStack outside app).result with e | ⟨⟩
      · rw [attempts_of_error outside hresult, List.flatMap_cons, ← ih]
        rfl
      · rw [attempts_of_ok outside hresult, List.flatMap_singleton]
        exact List.append_nil _

/-- How the attempts go: none is made after one that succeeds, and all of them unless one
succeeds. -/
structure Tried (n : Nat) (made : List (Attempt ε)) : Prop where
  attempted : ∀ o ∈ made, Attempted o
  length_le : made.length ≤ n
  failed : ∀ o ∈ made.dropLast, o.result ≠ .ok ()
  spent : made.length = n ∨ ∃ o, made.getLast? = some o ∧ o.result = .ok ()

/-- How the attempts go, by the rule by which another one is made. -/
theorem tried_attempts (n : Nat) (app : AppState ε) : Tried n (attempts outside n app) := by
  -- By induction on the attempts that are left, from the state that the one before has
  -- left.
  induction n generalizing app with
  | zero => exact ⟨fun _ h => absurd h List.not_mem_nil, le_rfl,
      fun _ h => absurd h List.not_mem_nil, .inl rfl⟩
  | succ n ih =>
      have hattempted := bootstrapStack_attempted outside app
      rcases hresult : (bootstrapStack outside app).result with e | ⟨⟩
      · have htried := ih (bootstrapStack outside app).state
        rw [attempts_of_error outside hresult]
        refine ⟨List.forall_mem_cons.mpr ⟨hattempted, htried.attempted⟩,
          Nat.succ_le_succ htried.length_le, ?_, ?_⟩
        · rcases hrest : attempts outside n (bootstrapStack outside app).state with - | ⟨o, rest⟩
          · exact fun _ h => absurd h List.not_mem_nil
          · rw [List.dropLast_cons_cons, List.forall_mem_cons, ← hrest]
            refine ⟨?_, htried.failed⟩
            rw [hresult]
            exact fun h => by cases h
        · rcases htried.spent with hlength | ⟨o, hlast, hok⟩
          · exact .inl (congrArg Nat.succ hlength)
          · refine .inr ⟨o, ?_, hok⟩
            rw [List.getLast?_cons, hlast]
            rfl
      · rw [attempts_of_ok outside hresult]
        refine ⟨?_, Nat.succ_le_succ (Nat.zero_le n), fun _ h => absurd h List.not_mem_nil,
          .inr ⟨_, rfl, hresult⟩⟩
        intro o ho
        obtain rfl := List.mem_singleton.mp ho
        exact hattempted

theorem attempts_ne_nil {n : Nat} (hpos : 0 < n) (app : AppState ε) :
    attempts outside n app ≠ [] := by
  rintro hnil
  rcases (tried_attempts outside n app).spent with hlength | ⟨o, hlast, -⟩
  · rw [hnil] at hlength
    exact hpos.ne hlength
  · rw [hnil] at hlast
    cases hlast

/-- **Bringing the backend up** broadcasts the attempts of `bootstrapStack` one after the
other, each rising to its end: those before the last one fail, and the last one succeeds or is
the last there may be. -/
theorem bootstrapStackWithRetry_tried (n : Nat) (app : AppState ε) :
    (bootstrapStackWithRetry outside n app).trace =
        (attempts outside (max n 1) app).flatMap Outcome.trace ∧
      attempts outside (max n 1) app ≠ [] ∧ Tried (max n 1) (attempts outside (max n 1) app) :=
  ⟨retry_trace outside _ app,
    attempts_ne_nil outside (Nat.lt_of_lt_of_le Nat.one_pos (Nat.le_max_right n 1)) app,
    tried_attempts outside _ app⟩

/-! ### The status -/

/-- The attempts succeed: the last one that is made does, as none is made behind a
success. -/
def Succeeds (n : Nat) (app : AppState ε) : Prop :=
  ∃ o, (attempts outside (max n 1) app).getLast? = some o ∧ o.result = .ok ()

/-- An attempt that succeeds is what says that the backend is ready. -/
theorem Attempted.last {o : Attempt ε} (h : Attempted o) :
    ∃ b, o.trace.getLast? = some b ∧ (b.phase = .ready ↔ o.result = .ok ()) := by
  rcases h with ⟨app, t, -⟩ | ⟨app, t, e, detail, -, -⟩
  · exact ⟨_, List.getLast?_concat, iff_of_true rfl rfl⟩
  · exact ⟨_, List.getLast?_concat, iff_of_false (fun h => by cases h) (fun h => by cases h)⟩

/-- The last report of the attempts. -/
theorem bootstrapStackWithRetry_last (n : Nat) (app : AppState ε) :
    ∃ b, (bootstrapStackWithRetry outside n app).trace.getLast? = some b ∧
      (b.phase = .ready ↔ Succeeds outside n app) := by
  -- One attempt is made at least, so there is a last one, and its last report is that of
  -- all.
  have hpos : 0 < max n 1 := Nat.lt_of_lt_of_le Nat.one_pos (Nat.le_max_right n 1)
  obtain ⟨made, o, hmade⟩ :=
    List.eq_nil_or_concat (attempts outside (max n 1) app) |>.resolve_left
      (attempts_ne_nil outside hpos app)
  rw [List.concat_eq_append] at hmade
  have ho : Attempted o := by
    apply (tried_attempts outside (max n 1) app).attempted
    rw [hmade]
    exact List.mem_append_right _ (List.mem_singleton_self o)
  obtain ⟨b, hlast, hready⟩ := ho.last
  refine ⟨b, ?_, hready.trans ?_⟩
  · rw [bootstrapStackWithRetry, retry_trace, hmade, List.flatMap_append, List.flatMap_singleton,
      List.getLast?_append, hlast]
    rfl
  · rw [Succeeds, hmade, List.getLast?_concat]
    refine ⟨fun h => ⟨o, rfl, h⟩, ?_⟩
    rintro ⟨o', ho', h⟩
    obtain rfl := Option.some.inj ho'
    exact h

theorem kept_attempt {m : Command ε Unit} (h : (keepsLast ε).Obeys m) :
    (keepsLast ε).Obeys (m.attempt : Command ε (Except GuiError Unit)) := h

theorem kept_emitProgress (phase : BootstrapPhase) (progress : ℚ) (detail : String) :
    (keepsLast ε).Obeys (emitProgress phase progress detail) := fun _ => ⟨rfl, rfl⟩

theorem kept_bootstrapStack : (keepsLast ε).Obeys (bootstrapStack outside) := by
  apply Law.obeys_bind (kept_emitProgress _ _ _)
  intro _
  apply Law.obeys_bind (kept_attempt (initAndStart_reports outside).kept)
  intro r
  rcases r with e | ⟨⟩
  · exact Law.obeys_bind (kept_emitProgress _ _ _) fun _ => Law.obeys_throw e
  apply Law.obeys_bind (startOrGoOn_reports outside).kept
  intro _
  have hbands : (0.7 : ℚ) < 0.75 := by norm_num
  apply Law.obeys_bind (kept_attempt (startWithVendor_reports outside hbands).kept)
  intro r
  rcases r with e | ⟨⟩
  · exact Law.obeys_bind (kept_emitProgress _ _ _) fun _ => Law.obeys_throw e
  · exact Law.obeys_bind (kept_emitProgress _ _ _) fun _ =>
      (ensureConnected_reports outside (le_refl (1 : ℚ))).kept

theorem kept_retry (n : Nat) : (keepsLast ε).Obeys (retry outside n) := by
  induction n with
  | zero => exact Law.obeys_pure ()
  | succ n ih =>
      apply Law.obeys_bind (kept_attempt (kept_bootstrapStack outside))
      intro r
      rcases r with e | ⟨⟩
      · exact ih
      · exact Law.obeys_pure ()

theorem kept_perform (op : Op) : (keepsLast ε).Obeys (perform outside op) := by
  rcases op with n | config | model
  · exact kept_retry outside (max n 1)
  · exact (setVendorConfig_reports outside config).kept
  · exact (setLocalModel_reports outside model).kept

/-- Whoever asks for the status gets what was broadcast last. -/
theorem bootstrapStatus_of_kept {app app' : AppState ε} {t : List BootstrapState}
    (h : (keepsLast ε).rel app t app') :
    bootstrapStatus app' = t.getLast?.getD (bootstrapStatus app) := by
  rw [bootstrapStatus, h.1, h.2]
  rcases t.getLast? with - | b
  · rfl
  · rfl

/-- Between 0.7 and 0.95 there is only `serve`. -/
theorem phase_of_fits {b : BootstrapState} (hfits : Fits b) (hlo : 0.7 < b.progress)
    (hhi : b.progress ≤ 0.95) : b.phase = .serve := by
  rcases b with ⟨- | - | - | - | - | - | -, progress, detail⟩
  · exact hfits.elim
  · exact absurd (hlo.trans_le (show progress ≤ 0.35 from hfits)) (by norm_num)
  · exact absurd (hlo.trans_le (show _ ∧ progress ≤ 0.7 from hfits).2) (by norm_num)
  · exact hfits.elim
  · rfl
  · rw [show progress = 1 from hfits] at hhi
    exact absurd hhi (by norm_num)
  · rw [show progress = 1 from hfits] at hhi
    exact absurd hhi (by norm_num)

/-- What leaves the backend ready: an attempt that succeeds. -/
def MakesReady (app : AppState ε) : Op → Prop
  | .bootstrap n => Succeeds outside n app
  | .setVendorConfig _ | .setLocalModel _ => False

/-- An operation leaves the status ready if it makes it so, or if it was and nothing is
broadcast. -/
theorem perform_ready_iff (op : Op) (app : AppState ε) :
    (bootstrapStatus (perform outside op app).state).phase = .ready ↔
      MakesReady outside app op ∨
        (perform outside op app).trace = [] ∧ (bootstrapStatus app).phase = .ready := by
  rw [bootstrapStatus_of_kept (kept_perform outside op app)]
  -- The commands report `serve` at most, and none of their reports says ready.
  have hserve : ∀ m : Command ε Unit, Reports 0.7 0.95 m →
      ((((m app).trace.getLast?.getD (bootstrapStatus app)).phase = .ready) ↔
        False ∨ (m app).trace = [] ∧ (bootstrapStatus app).phase = .ready) := by
    intro m hm
    rw [false_or]
    rcases List.eq_nil_or_concat (m app).trace with hnil | ⟨t, b, htrace⟩
    · rw [hnil]
      exact (and_iff_right rfl).symm
    · rw [List.concat_eq_append] at htrace
      have hb : b ∈ (m app).trace := htrace ▸ List.mem_append_right t (List.mem_singleton_self b)
      have hphase := phase_of_fits (hm.fits app b hb) ((hm.rises app).within b hb).1
        ((hm.rises app).within b hb).2
      rw [htrace, List.getLast?_concat]
      refine iff_of_false ?_ ?_
      · show b.phase ≠ .ready
        rw [hphase]
        exact fun h => by cases h
      · rintro ⟨hnil, -⟩
        exact absurd hnil (List.append_ne_nil_of_right_ne_nil t (List.cons_ne_nil b []))
  rcases op with n | config | model
  · obtain ⟨b, hlast, hready⟩ := bootstrapStackWithRetry_last outside n app
    show ((bootstrapStackWithRetry outside n app).trace.getLast?.getD _).phase = _ ↔ _
    rw [hlast]
    refine hready.trans ⟨.inl, ?_⟩
    rintro (h | ⟨hnil, -⟩)
    · exact h
    · have hempty : (bootstrapStackWithRetry outside n app).trace = [] := hnil
      rw [hempty] at hlast
      cases hlast
  · exact hserve _ (setVendorConfig_reports outside config)
  · exact hserve _ (setLocalModel_reports outside model)

/-- The application after some operations. -/
def after (ops : List Op) (app : AppState ε) : AppState ε := (run outside ops app).state

/-- What is broadcast by some operations. -/
def broadcasts (ops : List Op) (app : AppState ε) : List BootstrapState :=
  (run outside ops app).trace

/-- From any state on. -/
theorem after_ready_iff (ops : List Op) (app : AppState ε) :
    (bootstrapStatus (after outside ops app)).phase = .ready ↔
      (∃ before op rest, ops = before ++ op :: rest ∧
        MakesReady outside (after outside before app) op ∧
        broadcasts outside rest (after outside (before ++ [op]) app) = []) ∨
      broadcasts outside ops app = [] ∧ (bootstrapStatus app).phase = .ready := by
  -- By induction on the operations: either what comes later decides, or nothing more is
  -- broadcast.
  induction ops generalizing app with
  | nil =>
      refine ⟨fun h => .inr ⟨rfl, h⟩, ?_⟩
      rintro (⟨before, op, rest, h, -⟩ | ⟨-, h⟩)
      · exact absurd h (List.append_ne_nil_of_right_ne_nil before (List.cons_ne_nil op rest)).symm
      · exact h
  | cons op ops ih =>
      have hafter : ∀ ops', after outside (op :: ops') app =
          after outside ops' (perform outside op app).state := fun _ => rfl
      have hbroadcasts : broadcasts outside (op :: ops) app = (perform outside op app).trace ++
          broadcasts outside ops (perform outside op app).state := rfl
      rw [hafter, ih, perform_ready_iff, hbroadcasts, List.append_eq_nil_iff]
      constructor
      · rintro (⟨before, op', rest, rfl, hready, hrest⟩ | ⟨hrest, hready | ⟨hquiet, hstatus⟩⟩)
        · exact .inl ⟨op :: before, op', rest, rfl, hready, hrest⟩
        · exact .inl ⟨[], op, ops, rfl, hready, hrest⟩
        · exact .inr ⟨⟨hquiet, hrest⟩, hstatus⟩
      · rintro (⟨before, op', rest, h, hready, hrest⟩ | ⟨⟨hquiet, hrest⟩, hstatus⟩)
        · rcases before with - | ⟨op'', before⟩
          · obtain ⟨rfl, rfl⟩ := List.cons.inj h
            exact .inr ⟨hrest, .inl hready⟩
          · obtain ⟨rfl, rfl⟩ := List.cons.inj h
            exact .inl ⟨before, op', rest, rfl, hready, hrest⟩
        · exact .inr ⟨hrest, .inr ⟨hquiet, hstatus⟩⟩

/-- **The status of the backend**, whatever happened since the application started: it is what
was broadcast last, and it is ready exactly if attempts succeeded and nothing was broadcast
since.  A command that restarts `serve` broadcasts, so after it the status is not ready until
the backend is brought up another time. -/
theorem bootstrapStatus_ready_iff (ops : List Op) (env : ε) :
    bootstrapStatus (after outside ops (.new env)) =
        (broadcasts outside ops (.new env)).getLast?.getD ⟨.idle, 0, none⟩ ∧
      ((bootstrapStatus (after outside ops (.new env))).phase = .ready ↔
        ∃ before n rest, ops = before ++ .bootstrap n :: rest ∧
          Succeeds outside n (after outside before (.new env)) ∧
          broadcasts outside rest (after outside (before ++ [.bootstrap n]) (.new env)) = []) := by
  have hkept : (keepsLast ε).Obeys (run outside ops) := by
    induction ops with
    | nil => exact Law.obeys_pure ()
    | cons op ops ih =>
        exact Law.obeys_bind (Law.obeys_ignore (kept_perform outside op)) fun _ => ih
  refine ⟨bootstrapStatus_of_kept (hkept (.new env)), ?_⟩
  rw [after_ready_iff]
  constructor
  · rintro (⟨before, op, rest, hops, hready, hrest⟩ | ⟨-, hidle⟩)
    · rcases op with n | config | model
      · exact ⟨before, n, rest, hops, hready, hrest⟩
      · exact hready.elim
      · exact hready.elim
    · cases hidle
  · rintro ⟨before, n, rest, hops, hready, hrest⟩
    exact .inl ⟨before, .bootstrap n, rest, hops, hready, hrest⟩

end GuiStartup

end AgenticIde
