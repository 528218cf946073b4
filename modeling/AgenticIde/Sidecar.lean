/-
AgenticIde/Sidecar.lean

The `serve` child processes of the desktop application (`bootstrap/mod.rs`,
`bootstrap/serve.rs`), and the one handle the application keeps of them.

A child lives until it is killed, and only the child of the handle can be killed.
`start_with_env` puts the new handle in the place of whatever is there, and leaves the child
when it does not become ready in time.  Restarting stops the current child first; bringing the
backend up, and trying again, do not.

Nothing is lost exactly where nothing is launched beside a child launched before (`kept_iff`):
two attempts of which the first launches a child that is not ready in time leave two children,
and a handle of one of them (`not_kept_retry`).

Children are numbered in the order of their launches, and a child that has been launched is
taken to live: that it may end by itself is no step here, as it makes no loss.  An operation
says what becomes of each launch it makes, so that a run can be read without its system; an
attempt that fails before `serve` launches nothing.

The invariant is that one child lives at most, that it is the one of the handle, and that
stopping leaves none.  A launch beside a child breaks it, and no later operation gets hold of
the child that lost its handle.
-/
import AgenticIde.GuiVendor
import AgenticIde.Lib.Act

namespace AgenticIde

namespace Gui

/-- The children of the application: which ones are alive, the handle in
`AppState.bootstrap`, and how many were ever started.  A child is known by its number. -/
structure Sidecar where
  alive : List Nat
  serve : Option Nat
  started : Nat
  deriving DecidableEq

namespace Sidecar

/-! ### Children -/

/-- When the application starts. -/
def new : Sidecar := ⟨[], none, 0⟩

/-- A new child, with its handle in the place of the one there was. -/
def spawn (self : Sidecar) : Sidecar :=
  ⟨self.started :: self.alive, some self.started, self.started + 1⟩

/-- Kill the child of the handle, if there is one. -/
def kill (self : Sidecar) : Sidecar :=
  match self.serve with
  | some child => { self with alive := self.alive.filter (· ≠ child), serve := none }
  | none => self

/-- There is one child at most, the handle is its handle, and stopping it leaves no child. -/
structure Kept (s : Sidecar) : Prop where
  one : s.alive.length ≤ 1
  handle : ∀ child ∈ s.alive, s.serve = some child
  stopped : s.kill.alive = []

/-- A computation on the children; its trace has the states it goes through. -/
abbrev Supervise (α : Type) : Type := Act Sidecar Sidecar GuiError α

/-- Go to another state. -/
def enter (f : Sidecar → Sidecar) : Supervise Unit := fun s => ⟨.ok (), f s, [f s]⟩

/-! ### Starting and stopping -/

/-- Launch `serve`, then wait until it is ready. -/
def startWithEnv : Spawn → Supervise Unit
  | .failed => Act.throw .bootstrap
  | .ready => enter spawn
  | .notReady => do
      enter spawn
      -- the child is left alive, and its handle in its place
      Act.throw .bootstrap

/-- Launch `serve` in the environment of the vendor, which is nothing to the children. -/
def startWithVendor (serve : Spawn) : Supervise Unit := startWithEnv serve

/-- Stop the current child. -/
def stopCurrent : Supervise Unit := enter kill

/-- Stop the current child and launch another. -/
def restartWithVendor (serve : Spawn) : Supervise Unit := do
  stopCurrent
  startWithVendor serve

/-- Bring the backend up: the database, then `serve`. -/
def bootstrapStack : Attempt → Supervise Unit
  | .postgresFailed => Act.throw .bootstrap
  | .serve spawn => startWithVendor spawn

/-- Make the attempts until one succeeds. -/
def retry : List Attempt → Supervise Unit
  | [] => pure ()
  | attempt :: attempts => do
      match ← (bootstrapStack attempt).attempt with
      | .ok () => pure ()
      | .error _ => retry attempts

/-- Bring the backend up in so many attempts, or one if there are none to be made; the last
error is only logged. -/
def bootstrapStackWithRetry (attempts : Nat) (attempt : Nat → Attempt) : Supervise Unit :=
  retry ((List.range' 1 (max attempts 1)).map attempt)

/-! ### Runs -/

/-- What may happen to the children, with what becomes of every attempt. -/
inductive Op
  | bootstrap (attempt : Attempt)
  | bootstrapWithRetry (attempts : Nat) (attempt : Nat → Attempt)
  | restart (serve : Spawn)
  | shutdown

/-- Let it happen. -/
def perform : Op → Supervise Unit
  | .bootstrap attempt => bootstrapStack attempt
  | .bootstrapWithRetry attempts attempt => bootstrapStackWithRetry attempts attempt
  | .restart serve => restartWithVendor serve
  | .shutdown => stopCurrent

/-- One thing after the other, whether they fail or not. -/
def run : List Op → Supervise Unit
  | [] => pure ()
  | op :: ops => do
      (perform op).ignore
      run ops

/-! ### What is launched -/

/-- A process is created. -/
def launchedBy : Spawn → Nat
  | .failed => 0
  | .notReady | .ready => 1

/-- How often attempts launch `serve`, up to the first that succeeds. -/
def launchedIn : List Attempt → Nat
  | [] => 0
  | .postgresFailed :: attempts => launchedIn attempts
  | .serve .ready :: _ => 1
  | .serve spawn :: attempts => launchedBy spawn + launchedIn attempts

/-- The launches since the last stop, `n` of them before an operation. -/
def Op.since (n : Nat) : Op → Nat
  | .bootstrap attempt => n + launchedIn [attempt]
  | .bootstrapWithRetry attempts attempt =>
      n + launchedIn ((List.range' 1 (max attempts 1)).map attempt)
  | .restart serve => launchedBy serve
  | .shutdown => 0

/-- From one stop to the next `serve` is launched once at most. -/
def Single : Nat → List Op → Prop
  | _, [] => True
  | n, op :: ops => op.since n ≤ 1 ∧ Single (op.since n) ops

/-! ### What an operation does -/

theorem kill_of_kept {s : Sidecar} (h : s.Kept) : s.kill.Kept ∧ s.kill.alive.length = 0 := by
  have hkill : s.kill.kill.alive = [] := by
    rw [kill]
    split
    · rw [h.stopped, List.filter_nil]
    · exact h.stopped
  refine ⟨⟨?_, ?_, hkill⟩, ?_⟩
  · rw [h.stopped]
    exact Nat.zero_le 1
  · rw [h.stopped]
    exact fun child hchild => absurd hchild List.not_mem_nil
  · rw [h.stopped]
    rfl

/-- A child is kept if it is the only one. -/
theorem kept_spawn_iff (s : Sidecar) : s.spawn.Kept ↔ s.alive.length + 1 ≤ 1 := by
  constructor
  · exact Kept.one
  · intro h
    have hnone : s.alive = [] := List.length_eq_zero_iff.mp (by omega)
    have hspawn : s.spawn = ⟨[s.started], some s.started, s.started + 1⟩ := by
      rw [spawn, hnone]
    rw [hspawn]
    refine ⟨le_rfl, ?_, ?_⟩
    · exact fun child hchild => congrArg some (List.mem_singleton.mp hchild).symm
    · simp [kill]

/-- The computation starts `k` children beside those there are.  From children that
are kept it keeps them in every state if that makes one at most, and in the other
case there is a state in which it does not. -/
def Adds (m : Supervise Unit) (k : Nat) : Prop :=
  ∀ s : Sidecar, s.Kept →
    ((∀ s' ∈ (m s).trace, s'.Kept) ↔ s.alive.length + k ≤ 1) ∧
      (s.alive.length + k ≤ 1 →
        (m s).state.Kept ∧ (m s).state.alive.length = s.alive.length + k)

/-- Nothing is started. -/
theorem adds_zero {m : Supervise Unit} (hstate : ∀ s, (m s).state = s)
    (htrace : ∀ s, (m s).trace = []) : Adds m 0 := by
  intro s hs
  rw [hstate, htrace]
  exact ⟨iff_of_true (fun s' hs' => absurd hs' List.not_mem_nil) hs.one, fun _ => ⟨hs, rfl⟩⟩

/-- A child is started, and others after it. -/
theorem adds_succ {m m' : Supervise Unit} {k : Nat}
    (hstate : ∀ s, (m s).state = (m' s.spawn).state)
    (htrace : ∀ s, (m s).trace = s.spawn :: (m' s.spawn).trace) (hm' : Adds m' k) :
    Adds m (1 + k) := by
  intro s hs
  rw [hstate, htrace, List.forall_mem_cons, kept_spawn_iff]
  have hlength : s.spawn.alive.length = s.alive.length + 1 := rfl
  by_cases hnone : s.alive.length + 1 ≤ 1
  · have hspawn := hm' s.spawn ((kept_spawn_iff s).mpr hnone)
    rw [hlength, Nat.add_assoc] at hspawn
    exact ⟨(and_iff_right hnone).trans hspawn.1, hspawn.2⟩
  · constructor
    · exact iff_of_false (fun h => hnone h.1) (by omega)
    · exact fun h => absurd h (by omega)

/-- A child is started, and nothing after it. -/
theorem adds_one {m : Supervise Unit} (hstate : ∀ s, (m s).state = s.spawn)
    (htrace : ∀ s, (m s).trace = [s.spawn]) : Adds m 1 :=
  @adds_succ m (pure ()) 0 hstate htrace (adds_zero (fun _ => rfl) fun _ => rfl)

theorem adds_startWithEnv (spawn : Spawn) : Adds (startWithEnv spawn) (launchedBy spawn) := by
  rcases spawn with - | - | -
  · exact adds_zero (fun _ => rfl) (fun _ => rfl)
  · exact adds_one (fun _ => rfl) (fun _ => rfl)
  · exact adds_one (fun _ => rfl) (fun _ => rfl)

/-- Every attempt up to the first that succeeds adds what it launches: one that launches a
child and fails leaves the child to the next. -/
theorem adds_retry (attempts : List Attempt) : Adds (retry attempts) (launchedIn attempts) := by
  induction attempts with
  | nil => exact adds_zero (fun _ => rfl) (fun _ => rfl)
  | cons attempt attempts ih =>
      rcases attempt with - | - | - | -
      · exact ih
      · show Adds _ (0 + launchedIn attempts)
        rw [Nat.zero_add]
        exact ih
      · exact @adds_succ _ (retry attempts) _ (fun _ => rfl) (fun _ => rfl) ih
      · exact adds_one (fun _ => rfl) (fun _ => rfl)

/-- One attempt is one of a list. -/
theorem launchedIn_singleton (attempt : Attempt) :
    launchedIn [attempt] = match attempt with
      | .postgresFailed => 0
      | .serve spawn => launchedBy spawn := by
  rcases attempt with - | - | - | - <;> rfl

/-- **What an operation leaves.** From children that are kept it keeps them, through
every state, exactly where no more than one child was launched since the last stop.
How many were launched before it is how many are alive. -/
theorem kept_perform {s : Sidecar} (hs : s.Kept) (op : Op) :
    ((∀ s' ∈ (perform op s).trace, s'.Kept) ↔ op.since s.alive.length ≤ 1) ∧
      (op.since s.alive.length ≤ 1 → (perform op s).state.Kept ∧
        (perform op s).state.alive.length = op.since s.alive.length) := by
  rcases op with attempt | ⟨attempts, attempt⟩ | spawn | -
  · rw [Op.since, launchedIn_singleton]
    rcases attempt with - | spawn
    · exact adds_zero (m := Act.throw .bootstrap) (fun _ => rfl) (fun _ => rfl) s hs
    · exact adds_startWithEnv spawn s hs
  · exact adds_retry _ s hs
  · -- the current child is stopped first
    obtain ⟨hkill, hnone⟩ := kill_of_kept hs
    have hstart := adds_startWithEnv spawn s.kill hkill
    rw [hnone, Nat.zero_add] at hstart
    have htrace : (perform (.restart spawn) s).trace =
        s.kill :: (startWithEnv spawn s.kill).trace := rfl
    rw [htrace, List.forall_mem_cons, and_iff_right hkill]
    exact hstart
  · obtain ⟨hkill, hnone⟩ := kill_of_kept hs
    refine ⟨iff_of_true ?_ (Nat.zero_le 1), fun _ => ⟨hkill, hnone⟩⟩
    exact fun s' hs' => List.mem_singleton.mp hs' ▸ hkill

/-- The same of a run, from any children that are kept. -/
theorem kept_run {s : Sidecar} (hs : s.Kept) (ops : List Op) :
    (∀ s' ∈ (run ops s).trace, s'.Kept) ↔ Single s.alive.length ops := by
  induction ops generalizing s with
  | nil => exact iff_of_true (fun s' hs' => absurd hs' List.not_mem_nil) trivial
  | cons op ops ih =>
      obtain ⟨hiff, hnext⟩ := kept_perform hs op
      have htrace : (run (op :: ops) s).trace =
          (perform op s).trace ++ (run ops (perform op s).state).trace := rfl
      rw [htrace, List.forall_mem_append, hiff, Single]
      refine and_congr_right fun hsince => ?_
      obtain ⟨hkept, hlength⟩ := hnext hsince
      rw [ih hkept, hlength]

/-- **One child, and its handle.**  In every state of a run there is one child at most, the
handle is its handle, and stopping it leaves no child, exactly where from one stop to the
next `serve` is launched once at most. -/
theorem kept_iff (ops : List Op) :
    (∀ s ∈ (run ops new).trace, s.Kept) ↔ Single 0 ops := by
  have hnew : new.Kept :=
    ⟨Nat.zero_le 1, fun child hchild => absurd hchild List.not_mem_nil, rfl⟩
  exact kept_run hnew ops

/-- The first attempt launches a child that is not ready in time, the second another. -/
def tryTwice : Op :=
  .bootstrapWithRetry 2 fun i => .serve (if i = 1 then .notReady else .ready)

/-- Both children are alive, and stopping the current one leaves the other. -/
theorem not_kept_retry :
    ¬ ∀ s ∈ (run [tryTwice, .shutdown] new).trace, s.Kept := by
  intro h
  have hboth : (⟨[1, 0], some 1, 2⟩ : Sidecar) ∈ (run [tryTwice, .shutdown] new).trace :=
    List.mem_cons_of_mem _ List.mem_cons_self
  exact absurd (h _ hboth).one (by decide)

end Sidecar

end Gui

end AgenticIde
