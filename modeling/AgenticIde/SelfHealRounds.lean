/-
AgenticIde/SelfHealRounds.lean

What a self-healing run does, for any executor and any LLM.

`Reaches` says which call comes after `k` failed and patched ones, whatever the bound on
repairs is.  The run follows it until a call succeeds, the LLM fails, or the bound is spent
(`run_of_reaches`, `exists_end`); so its result and its calls are those of one of these ends
(`SelfHeal.run_heals`).

The executor and the model are any computations over the world: each call may answer as it
likes, and change what the next one sees.  So a call is named by its input and the world it
is made in, and `Reaches` is an inductive relation over the rounds before it; a round is a
call that failed, with the thought of the model on it and the patch that was read off the
thought.

A tool may have events of its own.  To speak of the calls of a run, each call is observed as
one event whatever it does inside (`ToolExecutor.observed`), and observing changes neither
the result nor the world (`observed_run`).

`Heals` collects what is asked of a run, a field for each point: the number of calls, their
tool, the first input and the later ones, when it succeeds and with what, and the two ways to
fail.  Each is read off the end that the run has come to.
-/
import AgenticIde.Lib.Lockstep
import AgenticIde.SelfHeal

namespace AgenticIde

variable {ε : Type}

/-! ### The calls of a run -/

/-- The executor with each call seen as one event, whatever it does inside. -/
def ToolExecutor.observed (executor : ToolExecutor ε) : ToolExecutor ε where
  run tool argument := Act.external
    (fun w => ((executor.run tool argument w).result, (executor.run tool argument w).state))
    (.baseRun tool argument)

/-- The self-healer over the observed executor. -/
def SelfHeal.observed (heal : SelfHeal ε) : SelfHeal ε :=
  ⟨heal.executor.observed, heal.maxRepairAttempts⟩

/-- The events of a self-healing run, each call of the tool seen as one. -/
def SelfHeal.events (heal : SelfHeal ε) (llm : Llm ε) (tool input : String) (w : World ε) :
    List Event := (heal.observed.run tool input llm w).trace

/-- A call of a tool, with its answer. -/
structure ToolCall where
  tool : String
  argument : String
  answer : Except String Observation

/-- The call failed. -/
def ToolCall.failed (call : ToolCall) : Bool :=
  match call.answer with
  | .ok _ => false
  | .error _ => true

/-- The tool calls of a run, in order. -/
def toolCalls (t : List Event) : List ToolCall :=
  t.filterMap fun
    | .baseRun tool argument answer => some ⟨tool, argument, answer⟩
    | _ => none

/-- What the LLM was asked in a run, with its answers. -/
def thoughts (t : List Event) : List (String × Except String Thought) :=
  t.filterMap fun
    | .think context answer => some (context, answer)
    | _ => none

/-- The prompt of a repair. -/
def patchPrompt (tool input err : String) : String :=
  s!"The tool `{tool}` failed when run with input `{input}`.\n" ++ s!"Error: {err}\n" ++
    "Propose a corrected input that would make the tool succeed. " ++
    "Reply with a single line beginning with PATCH: followed by the corrected input."

/-- The failure of a run whose repairs are spent. -/
def exhaustedError (attempts : Nat) (tool err : String) : String :=
  s!"self-heal exhausted after {attempts} repair attempts for tool `{tool}`: {err}"

/-! ### One round -/

/-- A call that failed, and the thought of the LLM on it. -/
structure FailedRound where
  input : String
  err : String
  thought : Thought

namespace FailedRound

/-- The events of a round. -/
def events (tool : String) (r : FailedRound) : List Event :=
  [.baseRun tool r.input (.error r.err), .think (patchPrompt tool r.input r.err) (.ok r.thought)]

/-- The call of a round. -/
def call (tool : String) (r : FailedRound) : ToolCall := ⟨tool, r.input, .error r.err⟩

/-- What the LLM was asked in a round, with its answer. -/
def asked (tool : String) (r : FailedRound) : String × Except String Thought :=
  (patchPrompt tool r.input r.err, .ok r.thought)

/-- The input a round hands to the next call. -/
def patch (r : FailedRound) : String := parsePatch r.thought.text

theorem toolCalls_events (tool : String) (rounds : List FailedRound) (t : List Event) :
    toolCalls (rounds.flatMap (events tool) ++ t) = rounds.map (call tool) ++ toolCalls t := by
  induction rounds with
  | nil => rfl
  | cons r rounds ih =>
      rw [List.flatMap_cons, List.append_assoc, List.map_cons, List.cons_append, ← ih]
      rfl

theorem thoughts_events (tool : String) (rounds : List FailedRound) (t : List Event) :
    thoughts (rounds.flatMap (events tool) ++ t) = rounds.map (asked tool) ++ thoughts t := by
  induction rounds with
  | nil => rfl
  | cons r rounds ih =>
      rw [List.flatMap_cons, List.append_assoc, List.map_cons, List.cons_append, ← ih]
      rfl

end FailedRound

section

variable (heal : SelfHeal ε) (llm : Llm ε) (tool input : String) (w : World ε)

/-- The call that comes after some failed rounds: its input, and the world it is
made in.  Each round calls the tool, and has the LLM answer to its error. -/
inductive Reaches : List FailedRound → String → World ε → Prop
  | start : Reaches [] input w
  | patched {rounds : List FailedRound} {x err : String} {u : World ε} {thought : Thought}
      (h : Reaches rounds x u)
      (hrun : (heal.executor.run tool x u).result = .error err)
      (hthink : (llm.think (patchPrompt tool x err) (heal.executor.run tool x u).state).result =
        .ok thought) :
      Reaches (rounds ++ [⟨x, err, thought⟩]) (parsePatch thought.text)
        (llm.think (patchPrompt tool x err) (heal.executor.run tool x u).state).state

/-- Make a call, with some repairs left. -/
def resume (remaining attempts : Nat) (x : String) : Core ε String RepairOutcome := do
  match ← (heal.executor.run tool x).attempt with
  | .ok obs => return ⟨obs, attempts, decide (0 < attempts)⟩
  | .error err => heal.repair tool llm remaining attempts x err

variable {heal llm tool input w}

/-- Each round goes on with the patch of the one before. -/
theorem Reaches.inputs {rounds : List FailedRound} {x : String} {u : World ε}
    (h : Reaches heal llm tool input w rounds x u) :
    rounds.map (·.input) ++ [x] = input :: rounds.map FailedRound.patch := by
  induction h with
  | start => rfl
  | patched h hrun hthink ih =>
      rw [List.map_append, List.map_append, ← List.cons_append, ← ih]
      rfl

/-- A repair is a patch, and a call with one repair less. -/
theorem repair_succ (remaining attempts : Nat) (x err : String) :
    heal.repair tool llm (remaining + 1) attempts x err =
      SelfHeal.suggestPatch tool x err llm >>= resume heal llm tool remaining (attempts + 1) := rfl

theorem suggestPatch_apply (x err : String) (u : World ε) :
    SelfHeal.suggestPatch tool x err llm u =
      ⟨(llm.think (patchPrompt tool x err) u).result.map fun thought => parsePatch thought.text,
        (llm.think (patchPrompt tool x err) u).state,
        [.think (patchPrompt tool x err) (llm.think (patchPrompt tool x err) u).result]⟩ := by
  show (llm.think (patchPrompt tool x err) >>= fun thought => pure (parsePatch thought.text)) u = _
  rw [← map_eq_pure_bind, Act.map_apply]
  rfl

section Resume

variable {remaining attempts : Nat} {x err : String} {u : World ε}

/-- The call succeeds. -/
theorem resume_succeeded {obs : Observation}
    (hrun : (heal.executor.run tool x u).result = .ok obs) :
    resume heal.observed llm tool remaining attempts x u =
      ⟨.ok ⟨obs, attempts, decide (0 < attempts)⟩, (heal.executor.run tool x u).state,
        [.baseRun tool x (.ok obs)]⟩ := by
  have hcall : heal.observed.executor.run tool x u =
      ⟨.ok obs, (heal.executor.run tool x u).state, [.baseRun tool x (.ok obs)]⟩ := by
    rw [← hrun]
    rfl
  rw [resume, Act.bind_apply, Act.attempt_apply, hcall]
  rfl

/-- The call fails, and is repaired. -/
theorem resume_failed (hrun : (heal.executor.run tool x u).result = .error err) :
    resume heal.observed llm tool remaining attempts x u =
      (heal.observed.repair tool llm remaining attempts x err
        (heal.executor.run tool x u).state).after [.baseRun tool x (.error err)] := by
  have hcall : heal.observed.executor.run tool x u =
      ⟨.error err, (heal.executor.run tool x u).state, [.baseRun tool x (.error err)]⟩ := by
    rw [← hrun]
    rfl
  rw [resume, Act.bind_apply, Act.attempt_apply, hcall]
  rfl

/-- **One round** of the loop.  A call that failed and was patched leaves the loop
at the next call, with one repair less to make and one more made. -/
theorem resume_patched {thought : Thought}
    (hrun : (heal.executor.run tool x u).result = .error err)
    (hthink : (llm.think (patchPrompt tool x err) (heal.executor.run tool x u).state).result =
      .ok thought) :
    resume heal.observed llm tool (remaining + 1) attempts x u =
      (resume heal.observed llm tool remaining (attempts + 1) (parsePatch thought.text)
        (llm.think (patchPrompt tool x err) (heal.executor.run tool x u).state).state).after
          (FailedRound.events tool ⟨x, err, thought⟩) := by
  rw [resume_failed hrun, repair_succ, Act.bind_apply, suggestPatch_apply, hthink]
  exact Outcome.after_after _ _ _

/-- The LLM fails. -/
theorem resume_unanswered {err' : String}
    (hrun : (heal.executor.run tool x u).result = .error err)
    (hthink : (llm.think (patchPrompt tool x err) (heal.executor.run tool x u).state).result =
      .error err') :
    resume heal.observed llm tool (remaining + 1) attempts x u =
      ⟨.error err', (llm.think (patchPrompt tool x err) (heal.executor.run tool x u).state).state,
        [.baseRun tool x (.error err), .think (patchPrompt tool x err) (.error err')]⟩ := by
  rw [resume_failed hrun, repair_succ, Act.bind_apply, suggestPatch_apply, hthink]
  rfl

/-- No repair is left. -/
theorem resume_exhausted (hrun : (heal.executor.run tool x u).result = .error err) :
    resume heal.observed llm tool 0 attempts x u =
      ⟨.error (exhaustedError attempts tool err), (heal.executor.run tool x u).state,
        [.baseRun tool x (.error err)]⟩ := by
  rw [resume_failed hrun]
  rfl

end Resume

/-- **A run is at the call it reaches**, as long as the bound allows it.  The events
of the rounds before are those of the run up to there. -/
theorem run_of_reaches {rounds : List FailedRound} {x : String} {u : World ε}
    (h : Reaches heal llm tool input w rounds x u) (hle : rounds.length ≤ heal.maxRepairAttempts) :
    heal.observed.run tool input llm w =
      (resume heal.observed llm tool (heal.maxRepairAttempts - rounds.length) rounds.length x
        u).after (rounds.flatMap (FailedRound.events tool)) := by
  induction h with
  | start => rfl
  | @patched rounds x err u thought h hrun hthink ih =>
      rw [List.length_append, List.length_singleton] at hle ⊢
      obtain ⟨n, hn⟩ : ∃ n, heal.maxRepairAttempts - rounds.length = n + 1 :=
        ⟨heal.maxRepairAttempts - rounds.length - 1, by omega⟩
      have hrest : heal.maxRepairAttempts - (rounds.length + 1) = n := by omega
      rw [ih (by omega), hn, resume_patched hrun hthink, hrest, Outcome.after_after,
        List.flatMap_append]
      simp

/-- How a run ends at the call it has reached. -/
inductive Ends (heal : SelfHeal ε) (llm : Llm ε) (tool : String) (rounds : List FailedRound)
    (x : String) (u : World ε) : Except String RepairOutcome → List Event → Prop
  | succeeded {obs : Observation} (hle : rounds.length ≤ heal.maxRepairAttempts)
      (hrun : (heal.executor.run tool x u).result = .ok obs) :
      Ends heal llm tool rounds x u (.ok ⟨obs, rounds.length, decide (0 < rounds.length)⟩)
        [.baseRun tool x (.ok obs)]
  | unanswered {err err' : String} (hlt : rounds.length < heal.maxRepairAttempts)
      (hrun : (heal.executor.run tool x u).result = .error err)
      (hthink : (llm.think (patchPrompt tool x err) (heal.executor.run tool x u).state).result =
        .error err') :
      Ends heal llm tool rounds x u (.error err')
        [.baseRun tool x (.error err), .think (patchPrompt tool x err) (.error err')]
  | exhausted {err : String} (heq : rounds.length = heal.maxRepairAttempts)
      (hrun : (heal.executor.run tool x u).result = .error err) :
      Ends heal llm tool rounds x u (.error (exhaustedError heal.maxRepairAttempts tool err))
        [.baseRun tool x (.error err)]

variable {rounds : List FailedRound} {x : String} {u : World ε}
  {result : Except String RepairOutcome} {last : List Event}

/-- What ends at a call is the run. -/
theorem run_of_ends (h : Reaches heal llm tool input w rounds x u)
    (hends : Ends heal llm tool rounds x u result last) :
    (heal.observed.run tool input llm w).result = result ∧
      heal.events llm tool input w = rounds.flatMap (FailedRound.events tool) ++ last := by
  unfold SelfHeal.events
  cases hends with
  | succeeded hle hrun =>
      rw [run_of_reaches h hle, resume_succeeded hrun]
      exact ⟨rfl, rfl⟩
  | unanswered hlt hrun hthink =>
      -- A repair is left, so the model is asked; it does not answer.
      obtain ⟨n, hn⟩ : ∃ n, heal.maxRepairAttempts - rounds.length = n + 1 :=
        ⟨heal.maxRepairAttempts - rounds.length - 1, by omega⟩
      rw [run_of_reaches h (Nat.le_of_lt hlt), hn, resume_unanswered hrun hthink]
      exact ⟨rfl, rfl⟩
  | exhausted heq hrun =>
      have hzero : heal.maxRepairAttempts - rounds.length = 0 := by omega
      rw [run_of_reaches h (Nat.le_of_eq heq), hzero, resume_exhausted hrun, heq]
      exact ⟨rfl, rfl⟩

/-- **Some call ends the run**, within the bound.  By induction on the repairs that
are left; with none left the call that is reached is the last one. -/
theorem exists_end (h : Reaches heal llm tool input w rounds x u)
    (hle : rounds.length ≤ heal.maxRepairAttempts) :
    ∃ rounds' x' u' result last, Reaches heal llm tool input w rounds' x' u' ∧
      Ends heal llm tool rounds' x' u' result last := by
  -- By induction on the repairs that are left: a call that fails and is patched uses up one
  -- of them.
  induction hn : heal.maxRepairAttempts - rounds.length generalizing rounds x u with
  | zero =>
      cases hrun : (heal.executor.run tool x u).result with
      | ok obs => exact ⟨rounds, x, u, _, _, h, .succeeded hle hrun⟩
      | error err => exact ⟨rounds, x, u, _, _, h, .exhausted (by omega) hrun⟩
  | succ n ih =>
      cases hrun : (heal.executor.run tool x u).result with
      | ok obs => exact ⟨rounds, x, u, _, _, h, .succeeded hle hrun⟩
      | error err =>
          cases hthink : (llm.think (patchPrompt tool x err)
            (heal.executor.run tool x u).state).result with
          | error err' => exact ⟨rounds, x, u, _, _, h, .unanswered (by omega) hrun hthink⟩
          | ok thought =>
              apply ih (h.patched hrun hthink)
              · rw [List.length_append, List.length_singleton]
                omega
              · rw [List.length_append, List.length_singleton]
                omega

/-! ### The observed run -/

/-- Observing the calls changes nothing but the events. -/
theorem observed_run :
    (heal.observed.run tool input llm w).result = (heal.run tool input llm w).result := by
  -- The two runs are followed in lock step, with all events left out of the comparison.
  let L : Lockstep (World ε) (World ε) Event Event Empty := ⟨Eq, fun _ => none, fun _ => none⟩
  have hshow : ∀ t : List Event, t.filterMap (fun _ => (none : Option Empty)) = [] :=
    fun t => List.filterMap_eq_nil_iff.mpr fun _ _ => rfl
  have hcall : ∀ x, L.Agree (heal.observed.executor.run tool x) (heal.executor.run tool x) := by
    rintro x u _ rfl
    exact ⟨rfl, rfl, (hshow _).trans (hshow _).symm⟩
  have hpatch : ∀ x err,
      L.Agree (SelfHeal.suggestPatch tool x err llm) (SelfHeal.suggestPatch tool x err llm) := by
    rintro x err u _ rfl
    exact ⟨rfl, rfl, rfl⟩
  -- The loop of repairs by induction, with any input and any error.
  have hrepair : ∀ remaining attempts x err,
      L.Agree (heal.observed.repair tool llm remaining attempts x err)
        (heal.repair tool llm remaining attempts x err) := by
    intro remaining
    induction remaining with
    | zero => exact fun _ _ _ => Lockstep.agree_throw _
    | succ remaining ih =>
        intro attempts x err
        refine Lockstep.agree_bind (hpatch x err) fun patch => ?_
        refine Lockstep.agree_bind (Lockstep.agree_attempt (hcall patch)) fun r => ?_
        rcases r with err' | obs
        · exact ih _ _ _
        · exact Lockstep.agree_pure _
  have hrun : L.Agree (heal.observed.run tool input llm) (heal.run tool input llm) := by
    refine Lockstep.agree_bind (Lockstep.agree_attempt (hcall input)) fun r => ?_
    rcases r with err | obs
    · exact hrepair _ _ _ _
    · exact Lockstep.agree_pure _
  exact (hrun w w rfl).1

/-- The calls of a run are those of its rounds, and the one it ends with. -/
theorem calls_of_ends (h : Reaches heal llm tool input w rounds x u)
    (hends : Ends heal llm tool rounds x u result last) :
    toolCalls (heal.events llm tool input w) =
      rounds.map (FailedRound.call tool) ++ [⟨tool, x, (heal.executor.run tool x u).result⟩] := by
  rw [(run_of_ends h hends).2, FailedRound.toolCalls_events]
  cases hends with
  | succeeded hle hrun => rw [hrun]; rfl
  | unanswered hlt hrun hthink => rw [hrun]; rfl
  | exhausted heq hrun => rw [hrun]; rfl

theorem asked_of_ends (h : Reaches heal llm tool input w rounds x u)
    (hends : Ends heal llm tool rounds x u result last) :
    rounds.map (FailedRound.asked tool) <+: thoughts (heal.events llm tool input w) := by
  rw [(run_of_ends h hends).2, FailedRound.thoughts_events]
  exact List.prefix_append _ _

theorem Ends.length_le (hends : Ends heal llm tool rounds x u result last) :
    rounds.length ≤ heal.maxRepairAttempts := by
  cases hends with
  | succeeded hle hrun => exact hle
  | unanswered hlt hrun hthink => exact Nat.le_of_lt hlt
  | exhausted heq hrun => exact Nat.le_of_eq heq

theorem countP_failed (rounds : List FailedRound) (call : ToolCall) :
    (rounds.map (FailedRound.call tool) ++ [call]).countP ToolCall.failed =
      rounds.length + if call.failed then 1 else 0 := by
  have hall : (rounds.map (FailedRound.call tool)).countP ToolCall.failed = rounds.length := by
    rw [List.countP_eq_length.mpr, List.length_map]
    intro c hc
    obtain ⟨r, -, rfl⟩ := List.mem_map.mp hc
    rfl
  rw [List.countP_append, hall, List.countP_singleton]

/-- Each call after the first has the patch of the one before. -/
theorem patched_of_inputs {answer : Except String Observation}
    {asked : List (String × Except String Thought)}
    (hinputs : rounds.map (·.input) ++ [x] = input :: rounds.map FailedRound.patch)
    (hasked : rounds.map (FailedRound.asked tool) <+: asked) {k : Nat} {call next : ToolCall}
    (hcall : (rounds.map (FailedRound.call tool) ++ [⟨tool, x, answer⟩])[k]? = some call)
    (hnext : (rounds.map (FailedRound.call tool) ++ [⟨tool, x, answer⟩])[k + 1]? = some next) :
    ∃ err thought, call.answer = .error err ∧
      asked[k]? = some (patchPrompt tool call.argument err, .ok thought) ∧
      next.argument = parsePatch thought.text := by
  have hk : k < rounds.length := by
    have hlt := (List.getElem?_eq_some_iff.mp hnext).1
    rw [List.length_append, List.length_map, List.length_singleton] at hlt
    omega
  have hround : rounds[k]? = some rounds[k] := List.getElem?_eq_getElem hk
  have hcall' : call = rounds[k].call tool := by
    rw [List.getElem?_append_left (by rwa [List.length_map]), List.getElem?_map, hround] at hcall
    exact (Option.some.inj hcall).symm
  refine ⟨rounds[k].err, rounds[k].thought, by rw [hcall']; rfl, ?_, ?_⟩
  · obtain ⟨rest, rfl⟩ := hasked
    rw [List.getElem?_append_left (by rwa [List.length_map]), List.getElem?_map, hround, hcall']
    rfl
  · -- the arguments of the calls are the input and then the patches
    have harguments : (rounds.map (FailedRound.call tool) ++ [ToolCall.mk tool x answer]).map
        ToolCall.argument = input :: rounds.map FailedRound.patch := by
      rw [← hinputs, List.map_append, List.map_map]
      rfl
    have hargument := congrArg (·[k + 1]?) harguments
    simp only [List.getElem?_map, hnext, List.getElem?_cons_succ, hround] at hargument
    exact Option.some.inj hargument

/-- The run returns what the first call to succeed gives, if the LLM answers until
then. -/
theorem run_eq_ok_iff {out : RepairOutcome} :
    (heal.run tool input llm w).result = .ok out ↔
      ∃ rounds x u obs, Reaches heal llm tool input w rounds x u ∧
        rounds.length ≤ heal.maxRepairAttempts ∧ (heal.executor.run tool x u).result = .ok obs ∧
        out = ⟨obs, rounds.length, decide (0 < rounds.length)⟩ := by
  constructor
  · intro hout
    obtain ⟨rounds, x, u, result, last, h, hends⟩ :=
      exists_end (.start : Reaches heal llm tool input w [] input w) (Nat.zero_le _)
    rw [observed_run.symm.trans (run_of_ends h hends).1] at hout
    cases hends with
    | succeeded hle hrun => exact ⟨rounds, x, u, _, h, hle, hrun, (Except.ok.inj hout).symm⟩
    | unanswered hlt hrun hthink => cases hout
    | exhausted heq hrun => cases hout
  · rintro ⟨rounds, x, u, obs, h, hle, hrun, rfl⟩
    exact observed_run.symm.trans (run_of_ends h (.succeeded hle hrun)).1

/-- The run fails with the LLM's error, or when every call it may make has failed. -/
theorem run_eq_error_iff {e : String} :
    (heal.run tool input llm w).result = .error e ↔
      (∃ rounds x u err, Reaches heal llm tool input w rounds x u ∧
        rounds.length < heal.maxRepairAttempts ∧ (heal.executor.run tool x u).result = .error err ∧
        (llm.think (patchPrompt tool x err) (heal.executor.run tool x u).state).result = .error e ∧
        (heal.events llm tool input w).getLast? =
          some (.think (patchPrompt tool x err) (.error e))) ∨
      ∃ rounds x u err, Reaches heal llm tool input w rounds x u ∧
        rounds.length = heal.maxRepairAttempts ∧ (heal.executor.run tool x u).result = .error err ∧
        e = exhaustedError heal.maxRepairAttempts tool err ∧
        (toolCalls (heal.events llm tool input w)).length = heal.maxRepairAttempts + 1 ∧
        ∀ call ∈ toolCalls (heal.events llm tool input w), call.failed = true := by
  constructor
  · intro he
    obtain ⟨rounds, x, u, result, last, h, hends⟩ :=
      exists_end (.start : Reaches heal llm tool input w [] input w) (Nat.zero_le _)
    have hcalls := calls_of_ends h hends
    rw [observed_run.symm.trans (run_of_ends h hends).1] at he
    -- Of the three ends two are errors, each with a text of its own.
    cases hends with
    | succeeded hle hrun => cases he
    | @unanswered err err' hlt hrun hthink =>
        obtain rfl := Except.error.inj he
        refine .inl ⟨rounds, x, u, err, h, hlt, hrun, hthink, ?_⟩
        rw [(run_of_ends h (.unanswered hlt hrun hthink)).2, List.getLast?_append]
        rfl
    | @exhausted err heq hrun =>
        obtain rfl := Except.error.inj he
        refine .inr ⟨rounds, x, u, err, h, heq, hrun, rfl, ?_, ?_⟩
        · rw [hcalls, List.length_append, List.length_map, List.length_singleton, heq]
        · rw [hcalls, List.forall_mem_append, List.forall_mem_map, hrun]
          exact ⟨fun _ _ => rfl, List.forall_mem_singleton.mpr rfl⟩
  · rintro (⟨rounds, x, u, err, h, hlt, hrun, hthink, -⟩ |
      ⟨rounds, x, u, err, h, heq, hrun, rfl, -, -⟩)
    · exact observed_run.symm.trans (run_of_ends h (.unanswered hlt hrun hthink)).1
    · exact observed_run.symm.trans (run_of_ends h (.exhausted heq hrun)).1

end

/-- What is asked of a self-healing run: the calls it makes, and what it returns,
which is what the first call to succeed before the LLM fails gives, or an
error. -/
structure SelfHeal.Heals (heal : SelfHeal ε) (llm : Llm ε) (tool input : String) (w : World ε) :
    Prop where
  bound : (toolCalls (heal.events llm tool input w)).length ≤ heal.maxRepairAttempts + 1
  sameTool : ∀ call ∈ toolCalls (heal.events llm tool input w), call.tool = tool
  first : ∃ call, (toolCalls (heal.events llm tool input w))[0]? = some call ∧
    call.argument = input
  patched : ∀ k call next,
    (toolCalls (heal.events llm tool input w))[k]? = some call →
    (toolCalls (heal.events llm tool input w))[k + 1]? = some next →
    ∃ err thought, call.answer = .error err ∧
      (thoughts (heal.events llm tool input w))[k]? =
        some (patchPrompt tool call.argument err, .ok thought) ∧
      next.argument = parsePatch thought.text
  ok_iff : ∀ out, (heal.run tool input llm w).result = .ok out ↔
    ∃ rounds x u obs, Reaches heal llm tool input w rounds x u ∧
      rounds.length ≤ heal.maxRepairAttempts ∧ (heal.executor.run tool x u).result = .ok obs ∧
      out = ⟨obs, rounds.length, decide (0 < rounds.length)⟩
  attempts : ∀ out, (heal.run tool input llm w).result = .ok out →
    out.repairAttempts = (toolCalls (heal.events llm tool input w)).countP ToolCall.failed
  error_iff : ∀ e, (heal.run tool input llm w).result = .error e ↔
    (∃ rounds x u err, Reaches heal llm tool input w rounds x u ∧
      rounds.length < heal.maxRepairAttempts ∧ (heal.executor.run tool x u).result = .error err ∧
      (llm.think (patchPrompt tool x err) (heal.executor.run tool x u).state).result = .error e ∧
      (heal.events llm tool input w).getLast? =
        some (.think (patchPrompt tool x err) (.error e))) ∨
    ∃ rounds x u err, Reaches heal llm tool input w rounds x u ∧
      rounds.length = heal.maxRepairAttempts ∧ (heal.executor.run tool x u).result = .error err ∧
      e = exhaustedError heal.maxRepairAttempts tool err ∧
      (toolCalls (heal.events llm tool input w)).length = heal.maxRepairAttempts + 1 ∧
      ∀ call ∈ toolCalls (heal.events llm tool input w), call.failed = true

/-- **Every self-healing run** calls the tool as it is to, and returns what it is
to.  Nothing is asked of the executor or the model: their answers decide only at
which call the run ends, and how. -/
theorem SelfHeal.run_heals (heal : SelfHeal ε) (llm : Llm ε) (tool input : String)
    (w : World ε) : heal.Heals llm tool input w := by
  obtain ⟨rounds, x, u, result, last, h, hends⟩ :=
    exists_end (.start : Reaches heal llm tool input w [] input w) (Nat.zero_le _)
  have hcalls := calls_of_ends h hends
  have hresult : (heal.run tool input llm w).result = result :=
    observed_run.symm.trans (run_of_ends h hends).1
  constructor
  case bound =>
    rw [hcalls, List.length_append, List.length_map, List.length_singleton]
    exact Nat.add_le_add_right hends.length_le 1
  case sameTool =>
    rw [hcalls, List.forall_mem_append, List.forall_mem_map]
    exact ⟨fun _ _ => rfl, List.forall_mem_singleton.mpr rfl⟩
  -- The first call has the input of the run, whether or not it is the only one.
  case first =>
    have hinputs := h.inputs
    rw [hcalls]
    cases rounds with
    | nil => exact ⟨_, rfl, (List.cons.inj hinputs).1⟩
    | cons r rounds => exact ⟨_, rfl, (List.cons.inj hinputs).1⟩
  case patched =>
    intro k call next hcall hnext
    rw [hcalls] at hcall hnext
    exact patched_of_inputs h.inputs (asked_of_ends h hends) hcall hnext
  case ok_iff => exact fun out => run_eq_ok_iff
  case attempts =>
    intro out hout
    rw [hresult] at hout
    rw [hcalls, countP_failed]
    cases hends with
    | succeeded hle hrun =>
        obtain rfl := Except.ok.inj hout
        simp [ToolCall.failed, hrun]
    | unanswered hlt hrun hthink => cases hout
    | exhausted heq hrun => cases hout
  case error_iff => exact fun e => run_eq_error_iff

end AgenticIde
