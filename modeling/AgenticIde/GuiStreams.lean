/-
AgenticIde/GuiStreams.lean

Streams of the desktop application (`commands/chat.rs`, `commands/agent.rs`,
`grpc/stream.rs`) and how they are stopped: `AppState.aborts` has a token for each session.

A chat or agent stream keeps the token it was started with and looks at it when the next item
arrives.  Starting a stream puts its token in the place of the token the session had, without
cancelling that one, so stopping the session reaches every stream of it exactly where the
streams that lost their place have finished (`reaches_iff`).

A run takes the commands and the answers of the server in any order.  A stream and its token
have the same number, that of the start, and neither is ever removed: a stream that has
finished stays in the list, so that what is said of it by its number stays meaningful.

What becomes of a token is decided by the next operation on its session (`Fate`).  Until one
comes, it is the token of the session and not cancelled.  If the next one is a stop, it is
cancelled for good; if it is a start, the token has lost its place, no later stop finds it,
and it is never cancelled.  The invariant carries this along a run, for every stream that was
started, and the law is read off it: a stop reaches the stream that has the place, and the
others only by their having finished.
-/
import AgenticIde.Lib.Machine
import Mathlib.Data.List.GetD
import Mathlib.Logic.Function.Basic

namespace AgenticIde

namespace Gui

namespace Streaming

/-! ### Tokens -/

/-- Chat and agent streams share the tokens. -/
inductive StreamKind
  | chat
  | agent
  deriving DecidableEq

/-- How far a stream is. -/
inductive Phase
  | requested
  | streaming
  | finished
  deriving DecidableEq

/-- A stream that was started, and its token. -/
structure Stream where
  kind : StreamKind
  sessionId : String
  abort : Nat
  phase : Phase
  deriving DecidableEq

/-- `AppState`, as far as streams go: the token of each session, which tokens are cancelled,
and the streams.  A token is known by its number. -/
structure AppState where
  aborts : String → Option Nat
  tokens : List Bool
  streams : List Stream

namespace AppState

/-- Before any stream. -/
def new : AppState := ⟨fun _ => none, [], []⟩

/-- `is_cancelled` of a token. -/
def isCancelled (self : AppState) (token : Nat) : Bool := self.tokens.getD token false

/-- Give a session a new token. -/
def registerAbort (self : AppState) (sessionId : String) : Nat × AppState :=
  (self.tokens.length,
    { self with
      aborts := Function.update self.aborts sessionId (some self.tokens.length)
      tokens := self.tokens ++ [false] })

/-- Cancel and remove the token of a session. -/
def cancelAbort (self : AppState) (sessionId : String) : AppState :=
  match self.aborts sessionId with
  | some token =>
      { self with
        aborts := Function.update self.aborts sessionId none
        tokens := self.tokens.set token true }
  | none => self

end AppState

/-! ### Commands -/

/-- Start a stream, if there is a connection to the server. -/
def start (kind : StreamKind) (connected : Bool) (sessionId : String) (app : AppState) :
    AppState :=
  if connected then
    let (abort, app) := app.registerAbort sessionId
    { app with streams := app.streams ++ [⟨kind, sessionId, abort, .requested⟩] }
  else app

def chatSend : Bool → String → AppState → AppState := start .chat

def agentRun : Bool → String → AppState → AppState := start .agent

def chatStop (sessionId : String) (app : AppState) : AppState := app.cancelAbort sessionId

def agentStop (sessionId : String) (app : AppState) : AppState := app.cancelAbort sessionId

/-! ### The stream -/

variable {π : Type}

/-- What the server answers: to the request, and then item by item.  An item of a chat is a
piece of text, one of an agent an event. -/
inductive Answer (π : Type)
  | accepted
  | refused
  | item (payload : π)
  | failed (message : String)
  | ended

/-- What a stream emits to the front end. -/
inductive Notice (π : Type)
  | item (kind : StreamKind) (sessionId : String) (payload : π)
  | error (kind : StreamKind) (sessionId message : String)
  | done (kind : StreamKind) (sessionId : String)

/-- The notice is that the stream is over. -/
def Notice.isDone : Notice π → Bool
  | .done _ _ => true
  | .item _ _ _ | .error _ _ _ => false

/-- One turn of `run_chat` and `run_agent`.  The token is looked at when an item is there. -/
def Stream.receive (self : Stream) (isCancelled : Bool) : Answer π → Stream × List (Notice π)
  | .accepted =>
      if self.phase = .requested then ({ self with phase := .streaming }, []) else (self, [])
  | .refused =>
      if self.phase = .requested then ({ self with phase := .finished }, []) else (self, [])
  | .item payload =>
      if self.phase = .streaming then
        if isCancelled then
          ({ self with phase := .finished }, [.done self.kind self.sessionId])
        else (self, [.item self.kind self.sessionId payload])
      else (self, [])
  | .failed message =>
      if self.phase = .streaming then
        ({ self with phase := .finished },
          [if isCancelled then .done self.kind self.sessionId
            else .error self.kind self.sessionId message])
      else (self, [])
  | .ended =>
      if self.phase = .streaming then
        ({ self with phase := .finished }, [.done self.kind self.sessionId])
      else (self, [])

/-- A stream goes on; its notices come with its number. -/
def AppState.receive (self : AppState) (n : Nat) (answer : Answer π) :
    AppState × List (Nat × Notice π) :=
  match self.streams[n]? with
  | none => (self, [])
  | some stream =>
      let (stream, notices) := stream.receive (self.isCancelled stream.abort) answer
      ({ self with streams := self.streams.set n stream }, notices.map (n, ·))

/-! ### Runs -/

/-- What happens next. -/
inductive Op (π : Type)
  | chatSend (connected : Bool) (sessionId : String)
  | agentRun (connected : Bool) (sessionId : String)
  | chatStop (sessionId : String)
  | agentStop (sessionId : String)
  | answer (n : Nat) (answer : Answer π)

/-- Let it happen. -/
def step (app : AppState) : Op π → AppState × List (Nat × Notice π)
  | .chatSend connected sessionId => (chatSend connected sessionId app, [])
  | .agentRun connected sessionId => (agentRun connected sessionId app, [])
  | .chatStop sessionId => (chatStop sessionId app, [])
  | .agentStop sessionId => (agentStop sessionId app, [])
  | .answer n answer => app.receive n answer

/-- The application after some operations. -/
def after (ops : List (Op π)) : AppState := (Machine.run step .new ops).1

@[simp] theorem after_concat (ops : List (Op π)) (op : Op π) :
    after (ops ++ [op]) = (step (after ops) op).1 := by
  rw [after, Machine.run_concat]
  rfl

/-- The session an operation starts a stream of. -/
def Op.starts : Op π → Option String
  | .chatSend true sessionId | .agentRun true sessionId => some sessionId
  | .chatSend false _ | .agentRun false _ | .chatStop _ | .agentStop _ | .answer _ _ => none

/-- The session an operation stops. -/
def Op.stops : Op π → Option String
  | .chatStop sessionId | .agentStop sessionId => some sessionId
  | .chatSend _ _ | .agentRun _ _ | .answer _ _ => none

/-! ### Being stopped -/

/-- Stopping a session after `before` and before `rest` reaches its streams: those that have
not finished are cancelled, and emit nothing but that they are over; a stream of another
session stays as it is. -/
structure StopReaches (sessionId : String) (s s' : AppState) (rest : List (Op π)) : Prop where
  own : ∀ n stream, s.streams[n]? = some stream → stream.sessionId = sessionId →
    stream.phase ≠ .finished → s'.isCancelled stream.abort = true ∧
      ∀ notice, (n, notice) ∈ (Machine.run step s' rest).2 → notice.isDone = true
  others : ∀ stream ∈ s.streams, stream.sessionId ≠ sessionId →
    s'.isCancelled stream.abort = s.isCancelled stream.abort

/-- Every stop of a run reaches its streams. -/
def Reaches (ops : List (Op π)) : Prop :=
  ∀ before op rest sessionId, ops = before ++ op :: rest → op.stops = some sessionId →
    StopReaches sessionId (after before) (after (before ++ [op])) rest

/-- The next operation to start or stop the session. -/
def nextOf (sessionId : String) (ops : List (Op π)) : Option (Op π) :=
  ops.find? fun op => op.starts = some sessionId || op.stops = some sessionId

/-- When a session is stopped, the streams of it whose place was taken by another stream
have finished. -/
def Succeeded (ops : List (Op π)) : Prop :=
  ∀ before op rest sessionId, ops = before ++ op :: rest → op.stops = some sessionId →
    ∀ pre start post, before = pre ++ start :: post → start.starts = some sessionId →
      (∃ next, nextOf sessionId post = some next ∧ next.starts = some sessionId) →
      ∀ stream, (after before).streams[(after pre).streams.length]? = some stream →
        stream.phase = .finished

/-! ### What a step does -/

/-- The session of a stream. -/
def AppState.sessionOf (self : AppState) (n : Nat) : Option String :=
  self.streams[n]?.map Stream.sessionId

/-- The token of a stream. -/
def AppState.abortOf (self : AppState) (n : Nat) : Option Nat :=
  self.streams[n]?.map Stream.abort

theorem step_starts {op : Op π} {sessionId : String} (h : op.starts = some sessionId)
    (s : AppState) :
    ∃ kind, step s op =
      (⟨Function.update s.aborts sessionId (some s.tokens.length), s.tokens ++ [false],
        s.streams ++ [⟨kind, sessionId, s.tokens.length, .requested⟩]⟩, []) := by
  rcases op with ⟨- | -, sid⟩ | ⟨- | -, sid⟩ | sid | sid | ⟨n, answer⟩ <;> cases h
  · exact ⟨.chat, rfl⟩
  · exact ⟨.agent, rfl⟩

theorem step_stops {op : Op π} {sessionId : String} (h : op.stops = some sessionId)
    (s : AppState) : step s op = (s.cancelAbort sessionId, []) := by
  rcases op with ⟨connected, sid⟩ | ⟨connected, sid⟩ | sid | sid | ⟨n, answer⟩ <;> cases h
  · rfl
  · rfl

/-- A turn of a stream changes how far it is. -/
theorem receive_key (stream : Stream) (isCancelled : Bool) (answer : Answer π) :
    (stream.receive isCancelled answer).1.sessionId = stream.sessionId ∧
      (stream.receive isCancelled answer).1.abort = stream.abort := by
  rcases answer with - | - | payload | message | - <;> simp only [Stream.receive] <;>
    split_ifs <;> exact ⟨rfl, rfl⟩

/-- An operation that neither starts nor stops a stream leaves the tokens and the
numbers. -/
theorem step_other {op : Op π} (hstarts : op.starts = none) (hstops : op.stops = none)
    (s : AppState) :
    (step s op).1.aborts = s.aborts ∧ (step s op).1.tokens = s.tokens ∧
      (step s op).1.streams.length = s.streams.length ∧
      (∀ n, (step s op).1.sessionOf n = s.sessionOf n) ∧
      ∀ n, (step s op).1.abortOf n = s.abortOf n := by
  have hidle : ∀ s' : AppState, s' = s → s'.aborts = s.aborts ∧ s'.tokens = s.tokens ∧
      s'.streams.length = s.streams.length ∧ (∀ n, s'.sessionOf n = s.sessionOf n) ∧
      ∀ n, s'.abortOf n = s.abortOf n := by
    rintro s' rfl
    exact ⟨rfl, rfl, rfl, fun _ => rfl, fun _ => rfl⟩
  rcases op with ⟨- | -, sid⟩ | ⟨- | -, sid⟩ | sid | sid | ⟨i, answer⟩
  · exact hidle _ rfl
  · cases hstarts
  · exact hidle _ rfl
  · cases hstarts
  · cases hstops
  · cases hstops
  -- What is left is an answer, which may change how far one stream is, and nothing that is
  -- compared.
  · rcases hstream : s.streams[i]? with - | stream
    · have hstep : step s (.answer i answer) = (s, []) := by
        rw [step, AppState.receive, hstream]
      rw [hstep]
      exact hidle _ rfl
    · have hstep : (step s (.answer i answer)).1 = ⟨s.aborts, s.tokens,
          s.streams.set i (stream.receive (s.isCancelled stream.abort) answer).1⟩ := by
        rw [step, AppState.receive, hstream]
      obtain ⟨hsession, habort⟩ := receive_key stream (s.isCancelled stream.abort) answer
      rw [hstep]
      refine ⟨rfl, rfl, List.length_set, fun n => ?_, fun n => ?_⟩
      · by_cases hn : i = n
        · subst hn
          simp [AppState.sessionOf, List.getElem?_set_self', hstream, hsession]
        · simp [AppState.sessionOf, List.getElem?_set_ne hn]
      · by_cases hn : i = n
        · subst hn
          simp [AppState.abortOf, List.getElem?_set_self', hstream, habort]
        · simp [AppState.abortOf, List.getElem?_set_ne hn]

/-! ### What becomes of a token -/

/-- A token is that of its session, and not cancelled, until the session is started or
stopped again; from then on it is not that of the session, and cancelled if it was
stopped. -/
def Fate (s : AppState) (sessionId : String) (token : Nat) : Option (Op π) → Prop
  | none => s.aborts sessionId = some token ∧ s.isCancelled token = false
  | some next => s.aborts sessionId ≠ some token ∧ s.isCancelled token = next.stops.isSome

/-- What holds after some operations.  Streams and tokens are numbered alike, and
what has become of a token is read off the operations behind the start of its
stream. -/
structure Inv (ops : List (Op π)) (s : AppState) : Prop where
  tokens : s.tokens.length = s.streams.length
  abort : ∀ n < s.streams.length, s.abortOf n = some n
  aborts : ∀ sessionId token, s.aborts sessionId = some token →
    s.sessionOf token = some sessionId
  fate : ∀ pre start post sessionId, ops = pre ++ start :: post →
    start.starts = some sessionId →
      s.sessionOf (after pre).streams.length = some sessionId ∧
        Fate s sessionId (after pre).streams.length (nextOf sessionId post)
  started : ∀ n sessionId, s.sessionOf n = some sessionId →
    ∃ pre start post, ops = pre ++ start :: post ∧ start.starts = some sessionId ∧
      (after pre).streams.length = n

theorem lt_of_sessionOf {s : AppState} {n : Nat} {sessionId : String}
    (h : s.sessionOf n = some sessionId) : n < s.streams.length := by
  obtain ⟨stream, hstream, -⟩ := Option.map_eq_some_iff.mp h
  exact (List.getElem?_eq_some_iff.mp hstream).1

/-- The last operation of a list split in two is the one in the middle, or in the part after
it. -/
theorem split_concat {α : Type} {ops pre post : List α} {i x : α}
    (h : ops ++ [i] = pre ++ x :: post) :
    (pre = ops ∧ x = i ∧ post = []) ∨ ∃ post', post = post' ++ [i] ∧ ops = pre ++ x :: post' := by
  rcases List.eq_nil_or_concat post with rfl | ⟨post', j, rfl⟩
  · obtain ⟨hops, hi⟩ := List.append_inj' h rfl
    exact .inl ⟨hops.symm, (List.singleton_inj.mp hi).symm, rfl⟩
  · have h' : ops ++ [i] = (pre ++ x :: post') ++ [j] := by simpa using h
    obtain ⟨hops, hi⟩ := List.append_inj' h' rfl
    exact .inr ⟨post', by rw [List.singleton_inj.mp hi, List.concat_eq_append], hops⟩

theorem nextOf_concat (sessionId : String) (ops : List (Op π)) (i : Op π) :
    nextOf sessionId (ops ++ [i]) = (nextOf sessionId ops).or (nextOf sessionId [i]) :=
  List.find?_append

theorem nextOf_starts {op : Op π} {sid : String} (h : op.starts = some sid)
    (sessionId : String) : nextOf sessionId [op] = if sid = sessionId then some op else none := by
  rcases op with ⟨- | -, sid⟩ | ⟨- | -, sid⟩ | sid | sid | ⟨n, answer⟩ <;> cases h
  · simp [nextOf, Op.starts, Op.stops, List.find?_singleton]
  · simp [nextOf, Op.starts, Op.stops, List.find?_singleton]

theorem nextOf_stops {op : Op π} {sid : String} (h : op.stops = some sid)
    (sessionId : String) : nextOf sessionId [op] = if sid = sessionId then some op else none := by
  rcases op with ⟨connected, sid⟩ | ⟨connected, sid⟩ | sid | sid | ⟨n, answer⟩ <;> cases h
  · simp [nextOf, Op.starts, Op.stops, List.find?_singleton]
  · simp [nextOf, Op.starts, Op.stops, List.find?_singleton]

theorem nextOf_other {op : Op π} (hstarts : op.starts = none) (hstops : op.stops = none)
    (sessionId : String) : nextOf sessionId [op] = none := by
  rw [nextOf, List.find?_singleton, hstarts, hstops]
  rfl

/-- No operation starts one session and stops one. -/
theorem stops_of_starts {op : Op π} {sid : String} (h : op.starts = some sid) :
    op.stops = none := by
  rcases op with ⟨- | -, sid⟩ | ⟨- | -, sid⟩ | sid | sid | ⟨n, answer⟩ <;> cases h
  · rfl
  · rfl

theorem starts_of_stops {op : Op π} {sid : String} (h : op.stops = some sid) :
    op.starts = none := by
  rcases op with ⟨connected, sid⟩ | ⟨connected, sid⟩ | sid | sid | ⟨n, answer⟩ <;> cases h
  · rfl
  · rfl

theorem nextOf_cases {sessionId : String} {ops : List (Op π)} {next : Op π}
    (h : nextOf sessionId ops = some next) :
    next.starts = some sessionId ∨ next.stops = some sessionId := by
  simpa using List.find?_some h

/-- A token that is not there yet is not cancelled, like a new one. -/
theorem isCancelled_append (tokens : List Bool) (n : Nat) :
    (tokens ++ [false]).getD n false = tokens.getD n false := by
  rcases Nat.lt_or_ge n tokens.length with hn | hn
  · rw [List.getD_append _ _ _ _ hn]
  · rw [List.getD_append_right _ _ _ _ hn, List.getD_eq_default _ _ hn]
    rcases n - tokens.length with - | m <;> rfl

theorem aborts_cancelAbort (s : AppState) (sessionId : String) :
    (s.cancelAbort sessionId).aborts = Function.update s.aborts sessionId none := by
  rcases htoken : s.aborts sessionId with - | token
  · rw [AppState.cancelAbort, htoken]
    show s.aborts = _
    rw [← htoken, Function.update_eq_self]
  · rw [AppState.cancelAbort, htoken]

theorem streams_cancelAbort (s : AppState) (sessionId : String) :
    (s.cancelAbort sessionId).streams = s.streams ∧
      (s.cancelAbort sessionId).tokens.length = s.tokens.length := by
  rcases htoken : s.aborts sessionId with - | token
  · rw [AppState.cancelAbort, htoken]
    exact ⟨rfl, rfl⟩
  · rw [AppState.cancelAbort, htoken]
    exact ⟨rfl, List.length_set⟩

/-- Stopping a session cancels its token and no other. -/
theorem isCancelled_cancelAbort {s : AppState} {n : Nat} (hn : n < s.tokens.length)
    (sessionId : String) :
    (s.cancelAbort sessionId).isCancelled n =
      (s.isCancelled n || s.aborts sessionId = some n) := by
  rcases htoken : s.aborts sessionId with - | token
  · rw [AppState.cancelAbort, htoken]
    simp
  · rw [AppState.cancelAbort, htoken]
    show (s.tokens.set token true).getD n false = (s.tokens.getD n false || _)
    by_cases heq : token = n
    · subst heq
      simp [List.getD_eq_getElem?_getD, hn]
    · simp [List.getD_eq_getElem?_getD, List.getElem?_set_ne heq, heq]

theorem aborts_of_stops {op : Op π} {sid : String} (h : op.stops = some sid) (s : AppState) :
    (step s op).1.aborts = Function.update s.aborts sid none := by
  rw [step_stops h, aborts_cancelAbort]

theorem aborts_of_starts {op : Op π} {sid : String} (h : op.starts = some sid) (s : AppState) :
    (step s op).1.aborts = Function.update s.aborts sid (some s.tokens.length) := by
  obtain ⟨kind, hstep⟩ := step_starts h s
  rw [hstep]

/-- A step cancels the token of the session it stops, and no other. -/
theorem isCancelled_step {s : AppState} {n : Nat} (hn : n < s.tokens.length) (op : Op π) :
    (step s op).1.isCancelled n = (s.isCancelled n || op.stops.bind s.aborts = some n) := by
  rcases hstarts : op.starts with - | sid
  · rcases hstops : op.stops with - | sid
    · rw [AppState.isCancelled, (step_other hstarts hstops s).2.1]
      exact (Bool.or_false _).symm
    · rw [step_stops hstops, isCancelled_cancelAbort hn, Option.bind_some]
  · obtain ⟨kind, hstep⟩ := step_starts hstarts s
    rw [hstep, stops_of_starts hstarts, AppState.isCancelled, isCancelled_append]
    exact (Bool.or_false _).symm

/-- A token that is not that of the session does not become it. -/
theorem aborts_ne_step {s : AppState} {n : Nat} {sessionId : String} (hn : n < s.tokens.length)
    (h : s.aborts sessionId ≠ some n) (op : Op π) :
    (step s op).1.aborts sessionId ≠ some n := by
  rcases hstarts : op.starts with - | sid
  · rcases hstops : op.stops with - | sid
    · rwa [(step_other hstarts hstops s).1]
    · rw [aborts_of_stops hstops]
      by_cases hsid : sessionId = sid
      · rw [hsid, Function.update_self]
        exact (Option.some_ne_none n).symm
      · rwa [Function.update_of_ne hsid]
  · rw [aborts_of_starts hstarts]
    by_cases hsid : sessionId = sid
    · -- the session has a new token
      rw [hsid, Function.update_self]
      exact fun heq => absurd (Option.some.inj heq) (Nat.ne_of_gt hn)
    · rwa [Function.update_of_ne hsid]

/-- **What a step makes of a token**, as its session has seen another operation or
not. Only the next operation of the session matters: it takes the token out of its
place, and a stop cancels it; what comes after finds another token there, or none.
-/
theorem fate_step {s : AppState} {n : Nat} {sessionId : String} {post : List (Op π)}
    (htokens : s.tokens.length = s.streams.length)
    (haborts : ∀ sid token, s.aborts sid = some token → s.sessionOf token = some sid)
    (hn : s.sessionOf n = some sessionId) (h : Fate s sessionId n (nextOf sessionId post))
    (op : Op π) : Fate (step s op).1 sessionId n (nextOf sessionId (post ++ [op])) := by
  have hlt : n < s.tokens.length := htokens ▸ lt_of_sessionOf hn
  -- the token is of no other session
  have hother : ∀ sid, sid ≠ sessionId → s.aborts sid ≠ some n := fun sid hsid htoken =>
    hsid (Option.some.inj ((haborts sid n htoken).symm.trans hn))
  rw [nextOf_concat]
  rcases hnext : nextOf sessionId post with - | next <;> rw [hnext] at h
  · -- until now it is that of its session
    obtain ⟨hcurrent, hfalse⟩ := h
    rw [Option.none_or]
    rcases hstarts : op.starts with - | sid
    · rcases hstops : op.stops with - | sid
      · rw [nextOf_other hstarts hstops, Fate, (step_other hstarts hstops s).1,
          isCancelled_step hlt, hstops, hfalse]
        exact ⟨hcurrent, rfl⟩
      · rw [nextOf_stops hstops]
        by_cases hsid : sid = sessionId
        · subst hsid
          rw [if_pos rfl, Fate, aborts_of_stops hstops, isCancelled_step hlt, hstops,
            Function.update_self, Option.bind_some, hcurrent]
          exact ⟨(Option.some_ne_none n).symm, by simp⟩
        · rw [if_neg hsid, Fate, aborts_of_stops hstops, isCancelled_step hlt, hstops,
            Function.update_of_ne (Ne.symm hsid), hfalse]
          exact ⟨hcurrent, by simpa using hother sid hsid⟩
    · have hkept : (step s op).1.isCancelled n = false := by
        rw [isCancelled_step hlt, stops_of_starts hstarts, hfalse]
        rfl
      rw [nextOf_starts hstarts]
      by_cases hsid : sid = sessionId
      · subst hsid
        rw [if_pos rfl, Fate, hkept, stops_of_starts hstarts, aborts_of_starts hstarts,
          Function.update_self]
        exact ⟨fun heq => absurd (Option.some.inj heq) (Nat.ne_of_gt hlt), rfl⟩
      · rw [if_neg hsid, Fate, hkept, aborts_of_starts hstarts,
          Function.update_of_ne (Ne.symm hsid)]
        exact ⟨hcurrent, rfl⟩
  · -- it has lost its place, and no stop finds it
    have hlost : op.stops.bind s.aborts ≠ some n := by
      intro hfound
      obtain ⟨sid, -, htoken⟩ := Option.bind_eq_some_iff.mp hfound
      by_cases hsid : sid = sessionId
      · exact h.1 (hsid ▸ htoken)
      · exact hother sid hsid htoken
    rw [Option.some_or, Fate, isCancelled_step hlt, h.2, decide_eq_false hlost, Bool.or_false]
    exact ⟨aborts_ne_step hlt h.1 op, rfl⟩

/-- Where nothing is started, the streams are the same ones. -/
theorem step_same {op : Op π} (hstarts : op.starts = none) (s : AppState) :
    (step s op).1.tokens.length = s.tokens.length ∧
      (step s op).1.streams.length = s.streams.length ∧
      (∀ n, (step s op).1.sessionOf n = s.sessionOf n) ∧
      ∀ n, (step s op).1.abortOf n = s.abortOf n := by
  rcases hstops : op.stops with - | sid
  · obtain ⟨-, htokens, hlength, hsession, habort⟩ := step_other hstarts hstops s
    exact ⟨congrArg List.length htokens, hlength, hsession, habort⟩
  · obtain ⟨hstreams, htokens⟩ := streams_cancelAbort s sid
    rw [step_stops hstops]
    refine ⟨htokens, congrArg List.length hstreams, fun n => ?_, fun n => ?_⟩
    · exact congrArg (fun streams => (streams[n]?).map Stream.sessionId) hstreams
    · exact congrArg (fun streams => (streams[n]?).map Stream.abort) hstreams

/-- Where a stream is started, it is a new one. -/
theorem step_new {op : Op π} {sid : String} (hstarts : op.starts = some sid) (s : AppState) :
    (step s op).1.tokens.length = s.tokens.length + 1 ∧
      (step s op).1.streams.length = s.streams.length + 1 ∧
      (∀ n < s.streams.length, (step s op).1.sessionOf n = s.sessionOf n ∧
        (step s op).1.abortOf n = s.abortOf n) ∧
      (step s op).1.sessionOf s.streams.length = some sid ∧
      (step s op).1.abortOf s.streams.length = some s.tokens.length := by
  obtain ⟨kind, hstep⟩ := step_starts hstarts s
  rw [hstep]
  refine ⟨List.length_append, List.length_append, fun n hn => ⟨?_, ?_⟩, ?_, ?_⟩
  · simp [AppState.sessionOf, List.getElem?_append_left hn]
  · simp [AppState.abortOf, List.getElem?_append_left hn]
  · simp [AppState.sessionOf]
  · simp [AppState.abortOf]

/-- A stream keeps its session. -/
theorem sessionOf_step {s : AppState} {n : Nat} {sessionId : String}
    (h : s.sessionOf n = some sessionId) (op : Op π) :
    (step s op).1.sessionOf n = some sessionId := by
  rcases hstarts : op.starts with - | sid
  · rw [(step_same hstarts s).2.2.1 n, h]
  · rw [((step_new hstarts s).2.2.1 n (lt_of_sessionOf h)).1, h]

/-- The token of a session is that of a stream of it. -/
theorem aborts_step {ops : List (Op π)} {s : AppState} (h : Inv ops s) (op : Op π)
    {sessionId : String} {token : Nat} (htoken : (step s op).1.aborts sessionId = some token) :
    (step s op).1.sessionOf token = some sessionId := by
  -- Only a start gives a session a token, and it gives it that of the new stream.
  rcases hstarts : op.starts with - | sid
  · rw [(step_same hstarts s).2.2.1 token]
    apply h.aborts
    rcases hstops : op.stops with - | sid
    · rwa [(step_other hstarts hstops s).1] at htoken
    · rw [aborts_of_stops hstops] at htoken
      by_cases hsid : sessionId = sid
      · rw [hsid, Function.update_self] at htoken
        cases htoken
      · rwa [Function.update_of_ne hsid] at htoken
  · rw [aborts_of_starts hstarts] at htoken
    by_cases hsid : sessionId = sid
    · rw [hsid, Function.update_self] at htoken
      rw [← Option.some.inj htoken, h.tokens, hsid]
      exact (step_new hstarts s).2.2.2.1
    · rw [Function.update_of_ne hsid] at htoken
      exact sessionOf_step (h.aborts _ _ htoken) op

/-- Every step keeps the invariant. -/
theorem inv_step {ops : List (Op π)} (h : Inv ops (after ops)) (op : Op π) :
    Inv (ops ++ [op]) (step (after ops) op).1 where
  tokens := by
    rcases hstarts : op.starts with - | sid
    · rw [(step_same hstarts _).1, (step_same hstarts _).2.1, h.tokens]
    · rw [(step_new hstarts _).1, (step_new hstarts _).2.1, h.tokens]
  abort n hn := by
    rcases hstarts : op.starts with - | sid
    · rw [(step_same hstarts _).2.2.2 n]
      rw [(step_same hstarts _).2.1] at hn
      exact h.abort n hn
    · obtain ⟨-, hlength, hold, -, hnew⟩ := step_new hstarts (after ops)
      rw [hlength] at hn
      rcases Nat.lt_succ_iff_lt_or_eq.mp hn with hlt | rfl
      · rw [(hold n hlt).2, h.abort n hlt]
      · rw [hnew, h.tokens]
  aborts sessionId token htoken := aborts_step h op htoken
  fate pre start post sessionId hops hstart := by
    -- The operation is the start itself, whose token is new; or the start came before, and
    -- this is a step of its fate.
    rcases split_concat hops with ⟨rfl, rfl, rfl⟩ | ⟨post', rfl, hops'⟩
    · obtain ⟨kind, hstep⟩ := step_starts hstart (after pre)
      refine ⟨(step_new hstart _).2.2.2.1, ?_⟩
      rw [hstep, ← h.tokens]
      refine ⟨Function.update_self _ _ _, ?_⟩
      rw [AppState.isCancelled, isCancelled_append, List.getD_eq_default _ _ (Nat.le_refl _)]
    · obtain ⟨hsession, hfate⟩ := h.fate pre start post' sessionId hops' hstart
      exact ⟨sessionOf_step hsession op, fate_step h.tokens h.aborts hsession hfate op⟩
  started n sessionId hn := by
    have hearlier : (after ops).sessionOf n = some sessionId →
        ∃ pre start post, ops ++ [op] = pre ++ start :: post ∧
          start.starts = some sessionId ∧ (after pre).streams.length = n := by
      intro hold
      obtain ⟨pre, start, post, hops, hstart, hlength⟩ := h.started n sessionId hold
      exact ⟨pre, start, post ++ [op], by rw [hops]; simp, hstart, hlength⟩
    -- The stream is an older one, or the one that has just been started.
    rcases hstarts : op.starts with - | sid
    · rw [(step_same hstarts _).2.2.1 n] at hn
      exact hearlier hn
    · obtain ⟨-, hlength, hold, hnew, -⟩ := step_new hstarts (after ops)
      have hlt := lt_of_sessionOf hn
      rw [hlength] at hlt
      rcases Nat.lt_succ_iff_lt_or_eq.mp hlt with hlt | rfl
      · rw [(hold n hlt).1] at hn
        exact hearlier hn
      · rw [hnew] at hn
        exact ⟨ops, op, [], rfl, hstarts.trans hn, rfl⟩

theorem inv_after (ops : List (Op π)) : Inv ops (after ops) := by
  induction ops using List.reverseRecOn with
  | nil =>
      refine ⟨rfl, fun n hn => absurd hn (Nat.not_lt_zero n), ?_, ?_, ?_⟩
      · intro sessionId token htoken
        cases htoken
      · intro pre start post sessionId hops
        exact absurd hops.symm (by simp)
      · intro n sessionId hn
        exact absurd (lt_of_sessionOf hn) (Nat.not_lt_zero n)
  | append_singleton ops op ih =>
      rw [after_concat]
      exact inv_step ih op

/-! ### After a stop -/

/-- The stream has a token that is cancelled. -/
def AppState.Cancelled (self : AppState) (n : Nat) : Prop :=
  self.abortOf n = some n ∧ self.isCancelled n = true

theorem lt_of_isCancelled {s : AppState} {n : Nat} (h : s.isCancelled n = true) :
    n < s.tokens.length := by
  by_contra hn
  rw [AppState.isCancelled, List.getD_eq_default _ _ (Nat.le_of_not_lt hn)] at h
  exact Bool.false_ne_true h

/-- No step takes it back. -/
theorem cancelled_step {s : AppState} {n : Nat} (h : s.Cancelled n) (op : Op π) :
    (step s op).1.Cancelled n := by
  obtain ⟨habort, hcancelled⟩ := h
  have hlt : n < s.streams.length := by
    obtain ⟨stream, hstream, -⟩ := Option.map_eq_some_iff.mp habort
    exact (List.getElem?_eq_some_iff.mp hstream).1
  refine ⟨?_, ?_⟩
  · rcases hstarts : op.starts with - | sid
    · rw [(step_same hstarts s).2.2.2 n, habort]
    · rw [((step_new hstarts s).2.2.1 n hlt).2, habort]
  · rw [isCancelled_step (lt_of_isCancelled hcancelled), hcancelled, Bool.true_or]

/-- A cancelled stream emits that it is over at most. -/
theorem isDone_of_receive {stream : Stream} {answer : Answer π} {notice : Notice π}
    (h : notice ∈ (stream.receive true answer).2) : notice.isDone = true := by
  rcases answer with - | - | payload | message | - <;> simp only [Stream.receive] at h <;>
    split_ifs at h <;> simp_all [Notice.isDone]

/-- A stream whose token is cancelled emits nothing but its end. -/
theorem isDone_of_step {s : AppState} {n : Nat} (h : s.Cancelled n) {op : Op π}
    {notice : Notice π} (hnotice : (n, notice) ∈ (step s op).2) : notice.isDone = true := by
  rcases op with ⟨connected, sid⟩ | ⟨connected, sid⟩ | sid | sid | ⟨i, answer⟩
  · cases hnotice
  · cases hnotice
  · cases hnotice
  · cases hnotice
  · rw [step, AppState.receive] at hnotice
    rcases hstream : s.streams[i]? with - | stream
    · rw [hstream] at hnotice
      cases hnotice
    · rw [hstream] at hnotice
      obtain ⟨notice', hmem, heq⟩ := List.mem_map.mp hnotice
      obtain ⟨rfl, rfl⟩ := Prod.mk.inj heq
      -- The number of a token is that of its stream.
      have habort : stream.abort = i := by
        have habort := h.1
        rw [AppState.abortOf, hstream] at habort
        exact Option.some.inj habort
      rw [habort, h.2] at hmem
      exact isDone_of_receive hmem

/-- **A cancelled stream stays silent**, whatever comes.  A token that is cancelled
stays so, and all that its stream still says is that it is done. -/
theorem isDone_of_run {s : AppState} {n : Nat} (h : s.Cancelled n) (rest : List (Op π)) :
    ∀ notice, (n, notice) ∈ (Machine.run step s rest).2 → notice.isDone = true := by
  refine (Machine.run_induction (P := fun _ (s' : AppState)
    (t : List (Nat × Notice π)) => s'.Cancelled n ∧
      ∀ notice, (n, notice) ∈ t → notice.isDone = true) ⟨h, ?_⟩ ?_ rest).2
  · exact fun notice hnotice => absurd hnotice List.not_mem_nil
  · rintro inputs op s' t ⟨hs', ht⟩
    refine ⟨cancelled_step hs' op, fun notice hnotice => ?_⟩
    rcases List.mem_append.mp hnotice with hnotice | hnotice
    · exact ht notice hnotice
    · exact isDone_of_step hs' hnotice

/-! ### Which streams a stop reaches -/

theorem sessionOf_of_getElem? {s : AppState} {n : Nat} {stream : Stream}
    (h : s.streams[n]? = some stream) : s.sessionOf n = some stream.sessionId := by
  rw [AppState.sessionOf, h]
  rfl

/-- What a stop does to the tokens. -/
theorem isCancelled_stop {ops : List (Op π)} {op : Op π} {sessionId : String}
    (hstop : op.stops = some sessionId) {n : Nat} {stream : Stream}
    (hstream : (after ops).streams[n]? = some stream) :
    stream.abort = n ∧ (after (ops ++ [op])).isCancelled n =
      ((after ops).isCancelled n || (after ops).aborts sessionId = some n) := by
  have hlt := (List.getElem?_eq_some_iff.mp hstream).1
  have habort := (inv_after ops).abort n hlt
  rw [AppState.abortOf, hstream] at habort
  rw [after_concat, isCancelled_step ((inv_after ops).tokens ▸ hlt), hstop, Option.bind_some]
  exact ⟨Option.some.inj habort, rfl⟩

/-- A stop cancels no stream of another session. -/
theorem others_of_stop {ops : List (Op π)} {op : Op π} {sessionId : String}
    (hstop : op.stops = some sessionId) {stream : Stream} (hstream : stream ∈ (after ops).streams)
    (hother : stream.sessionId ≠ sessionId) :
    (after (ops ++ [op])).isCancelled stream.abort = (after ops).isCancelled stream.abort := by
  obtain ⟨n, hn⟩ := List.getElem?_of_mem hstream
  obtain ⟨habort, hcancelled⟩ := isCancelled_stop hstop hn
  have hne : (after ops).aborts sessionId ≠ some n := fun htoken =>
    hother (Option.some.inj ((sessionOf_of_getElem? hn).symm.trans
      ((inv_after ops).aborts _ _ htoken)))
  rw [habort, hcancelled]
  simp [hne]

/-- **A stop reaches every stream of its session** exactly where the streams whose
place was taken by another have finished.  The application keeps one token for a
session, so a second stream leaves the first one running with a token nobody has. -/
theorem reaches_iff (ops : List (Op π)) : Reaches ops ↔ Succeeded ops := by
  constructor
  · intro h before op rest sessionId hops hstop pre start post hbefore hstart hnext stream hstream
    by_contra hphase
    obtain ⟨hsession, hfate⟩ := (inv_after before).fate pre start post sessionId hbefore hstart
    have hsession' : stream.sessionId = sessionId :=
      Option.some.inj ((sessionOf_of_getElem? hstream).symm.trans hsession)
    obtain ⟨hcancelled, -⟩ := (h before op rest sessionId hops hstop).own _ stream hstream
      hsession' hphase
    obtain ⟨habort, hstopped⟩ := isCancelled_stop hstop hstream
    -- the token was not cancelled when it lost its place, and is out of reach since
    obtain ⟨next, hnext, hstarts⟩ := hnext
    rw [hnext] at hfate
    obtain ⟨haborts, hfalse⟩ := hfate
    rw [stops_of_starts hstarts] at hfalse
    rw [habort, hstopped, hfalse] at hcancelled
    exact haborts (by simpa using hcancelled)
  · intro h before op rest sessionId hops hstop
    refine ⟨fun n stream hstream hsession hphase => ?_, fun stream hstream hother =>
      others_of_stop hstop hstream hother⟩
    obtain ⟨habort, hstopped⟩ := isCancelled_stop hstop hstream
    have hown := sessionOf_of_getElem? hstream
    rw [hsession] at hown
    obtain ⟨pre, start, post, hbefore, hstart, rfl⟩ := (inv_after before).started n sessionId hown
    obtain ⟨-, hfate⟩ := (inv_after before).fate pre start post sessionId hbefore hstart
    have hcancelled : (after (before ++ [op])).isCancelled (after pre).streams.length = true := by
      rw [hstopped]
      rcases hnext : nextOf sessionId post with - | next <;> rw [hnext] at hfate
      · simp [hfate.1]
      · rcases nextOf_cases hnext with hstarts | hstops
        · -- its place was taken, so it has finished
          exact absurd (h before op rest sessionId hops hstop pre start post hbefore hstart
            ⟨next, hnext, hstarts⟩ stream hstream) hphase
        · rw [hfate.2, hstops]
          rfl
    have hkept : (after (before ++ [op])).abortOf (after pre).streams.length =
        some (after pre).streams.length := by
      rw [after_concat, (step_same (starts_of_stops hstop) _).2.2.2]
      exact (inv_after before).abort _ (lt_of_sessionOf hown)
    rw [habort]
    exact ⟨hcancelled, isDone_of_run ⟨hkept, hcancelled⟩ rest⟩

/-- Two streams of one session, which is stopped before either has finished. -/
def twoStreams : List (Op String) :=
  [.chatSend true "s", .agentRun true "s", .chatStop "s"]

/-- The first one goes on. -/
theorem not_reaches_twoStreams : ¬ Reaches twoStreams := by
  intro h
  have hreach := h [.chatSend true "s", .agentRun true "s"] (.chatStop "s") [] "s" rfl rfl
  have hfirst := (hreach.own 0 ⟨.chat, "s", 0, .requested⟩ rfl rfl (by decide)).1
  exact absurd hfirst (by decide)

end Streaming

end Gui

end AgenticIde
