/-
AgenticIde/GuiChat.lean

The chat page of the desktop application (`pages/ChatPage.tsx`), over the streams of
`GuiStreams`: what the reader sees of the answers.

The page knows nothing of streams.  It puts each piece of text it hears at the end of the
last message if that is of the assistant, and makes a new message of it otherwise; what keeps
the answers apart is that nothing is sent while the page is busy.  `exchanges` and `reply`
say what the page is for: after each message that was sent, all that was heard of its own
stream.  The page shows exactly that in every run if and only if no chat was under way when
it was opened (`msgs_eq_transcript_iff`).  It is busy until it hears that the last stream is
over; where that stream has finished unheard, as when the server refuses the request, it
stays so (`busy_iff`).

A run is any sequence of what may happen to the page and to the application beneath it, and
`step` also says what is worth remembering of each step, so that a log goes along.  All
statements are about the page and its log.  The invariant (`Inv`) has the page show the
transcript of the log; a chat of the session that has not finished is the one the page
awaits, and it awaits one exactly while it is busy.  There is a lemma for each kind of step:
a message with and without a connection, a notice that the page takes, one that it passes
over, and an answer that brings no notice.

For the converse, a chat that was under way when the page was opened is brought to overtake a
message: its session is typed in, a message is sent, the old chat ends, and with that the
page is no longer busy, although its own chat is (`exists_overtaken`, `overtaken`).
-/
import AgenticIde.GuiStreams

namespace AgenticIde

namespace GuiChat

open Gui.Streaming (AppState Stream StreamKind Phase Answer Notice)

/-! ### The page -/

/-- Who says something on the page. -/
inductive Role
  | user
  | assistant
  | system
  | error
  deriving DecidableEq

/-- A message on the page. -/
structure Msg where
  role : Role
  text : String
  deriving DecidableEq

/-- The state of `ChatPage`; `session` is what is in the field. -/
structure ChatPage where
  session : String
  msgs : List Msg
  busy : Bool
  deriving DecidableEq

namespace ChatPage

/-- `onChatToken`. -/
def onChatToken (self : ChatPage) (sessionId delta : String) : ChatPage :=
  if sessionId = self.session then
    match self.msgs.getLast? with
    | some ⟨.assistant, text⟩ =>
        { self with msgs := self.msgs.dropLast ++ [⟨.assistant, text ++ delta⟩] }
    | _ => { self with msgs := self.msgs ++ [⟨.assistant, delta⟩] }
  else self

/-- `onChatDone`. -/
def onChatDone (self : ChatPage) (sessionId : String) : ChatPage :=
  if sessionId = self.session then { self with busy := false } else self

/-- `onChatError`. -/
def onChatError (self : ChatPage) (sessionId message : String) : ChatPage :=
  if sessionId = self.session then
    { self with msgs := self.msgs ++ [⟨.error, message⟩], busy := false }
  else self

/-- What the page makes of a notice; it listens to chats. -/
def hear (self : ChatPage) : Notice String → ChatPage
  | .item .chat sessionId delta => self.onChatToken sessionId delta
  | .done .chat sessionId => self.onChatDone sessionId
  | .error .chat sessionId message => self.onChatError sessionId message
  | .item .agent _ _ | .done .agent _ | .error .agent _ _ => self

end ChatPage

/-- The page, and the application behind it. -/
structure Desktop where
  page : ChatPage
  app : AppState

/-- The page is opened. -/
def Desktop.opened (app : AppState) : Desktop := ⟨⟨"sess-1", [], false⟩, app⟩

/-- The notice is one that the page does not pass over. -/
def hears (session : String) : Notice String → Bool
  | .item .chat sessionId _ | .done .chat sessionId | .error .chat sessionId _ =>
      sessionId = session
  | .item .agent _ _ | .done .agent _ | .error .agent _ _ => false

/-- What is worth remembering: a message that was sent, with the number of its stream if there
was a connection, and a notice that was heard of a stream. -/
inductive Entry
  | sent (text : String) (stream : Option Nat)
  | heard (n : Nat) (notice : Notice String)

/-- What may happen: the reader edits the session, sends what is in the input without the
blanks around it, or presses stop; a stream of an agent is started or stopped elsewhere; the
server answers. -/
inductive Op
  | edit (session : String)
  | send (connected : Bool) (text : String)
  | stop
  | agentRun (connected : Bool) (sessionId : String)
  | agentStop (sessionId : String)
  | answer (n : Nat) (answer : Answer String)

/-- Let it happen. -/
def step (d : Desktop) : Op → Desktop × List Entry
  | .edit session => ({ d with page := { d.page with session := session } }, [])
  | .send connected text =>
      if text = "" ∨ d.page.busy = true then (d, [])
      else
        let msgs := d.page.msgs ++ [⟨.user, text⟩]
        if connected then
          (⟨{ d.page with msgs := msgs, busy := true },
            Gui.Streaming.chatSend true d.page.session d.app⟩,
              [.sent text (some d.app.streams.length)])
        else
          -- the error of the command is an object, and this is its text
          ({ d with page :=
            { d.page with msgs := msgs ++ [⟨.error, "[object Object]"⟩], busy := false } },
              [.sent text none])
  -- the button is there while the page is busy
  | .stop =>
      if d.page.busy then ({ d with app := Gui.Streaming.chatStop d.page.session d.app }, [])
      else (d, [])
  | .agentRun connected sessionId =>
      ({ d with app := Gui.Streaming.agentRun connected sessionId d.app }, [])
  | .agentStop sessionId => ({ d with app := Gui.Streaming.agentStop sessionId d.app }, [])
  | .answer n answer =>
      let (app, notices) := d.app.receive n answer
      (⟨notices.foldl (fun page notice => page.hear notice.2) d.page, app⟩,
        (notices.filter fun notice => hears d.page.session notice.2).map fun notice =>
          .heard notice.1 notice.2)

/-! ### What the page is for -/

/-- A message that was sent, and its stream. -/
def Entry.exchange? : Entry → Option (String × Option Nat)
  | .sent text stream => some (text, stream)
  | .heard _ _ => none

/-- A piece of text of the stream. -/
def Entry.item? (n : Nat) : Entry → Option String
  | .heard m (.item _ _ delta) => if m = n then some delta else none
  | .heard _ (.done _ _) | .heard _ (.error _ _ _) | .sent _ _ => none

/-- An error of the stream. -/
def Entry.error? (n : Nat) : Entry → Option String
  | .heard m (.error _ _ message) => if m = n then some message else none
  | .heard _ (.item _ _ _) | .heard _ (.done _ _) | .sent _ _ => none

/-- The stream is over. -/
def Entry.isOver (n : Nat) : Entry → Bool
  | .heard m (.error _ _ _) | .heard m (.done _ _) => m = n
  | .heard _ (.item _ _ _) | .sent _ _ => false

/-- The messages that were sent. -/
def exchanges (log : List Entry) : List (String × Option Nat) := log.filterMap Entry.exchange?

/-- The answer of a stream: its pieces as one message, and its error if it has one. -/
def reply (log : List Entry) (n : Nat) : List Msg :=
  (if log.filterMap (Entry.item? n) = [] then []
    else [⟨.assistant, String.join (log.filterMap (Entry.item? n))⟩]) ++
  (log.filterMap (Entry.error? n)).map fun message => ⟨.error, message⟩

/-- A message that was sent and its answer. -/
def exchangeMsgs (log : List Entry) (exchange : String × Option Nat) : List Msg :=
  ⟨.user, exchange.1⟩ :: match exchange.2 with
    | none => [⟨.error, "[object Object]"⟩]
    | some n => reply log n

/-- What the page is to show. -/
def transcript (log : List Entry) : List Msg := (exchanges log).flatMap (exchangeMsgs log)

/-! ### Hearing one more thing -/

/-- The page waits for the stream: it is that of the last message, and nothing was heard of
its end. -/
structure Awaits (log : List Entry) (n : Nat) : Prop where
  last : ∃ text, (exchanges log).getLast? = some (text, some n)
  open_ : ∀ entry ∈ log, entry.isOver n = false

section

variable {log : List Entry} {n m : Nat} {notice : Notice String}

@[simp] theorem exchanges_heard (log : List Entry) (n : Nat) (notice : Notice String) :
    exchanges (log ++ [.heard n notice]) = exchanges log := by
  rw [exchanges, List.filterMap_append]
  exact List.append_nil _

@[simp] theorem exchanges_sent (log : List Entry) (text : String) (stream : Option Nat) :
    exchanges (log ++ [.sent text stream]) = exchanges log ++ [(text, stream)] := by
  rw [exchanges, List.filterMap_append]
  rfl

/-- What is nothing of a stream is no part of its answer. -/
theorem reply_append {entry : Entry} (hitem : entry.item? n = none) (herror : entry.error? n = none)
    (log : List Entry) : reply (log ++ [entry]) n = reply log n := by
  rw [reply, reply, List.filterMap_append, List.filterMap_append,
    List.filterMap_cons_none hitem, List.filterMap_cons_none herror, List.filterMap_nil,
    List.append_nil, List.filterMap_nil, List.append_nil]

theorem reply_heard_of_ne (h : m ≠ n) (log : List Entry) (notice : Notice String) :
    reply (log ++ [.heard m notice]) n = reply log n := by
  apply reply_append
  · rcases notice with ⟨kind, sid, delta⟩ | ⟨kind, sid, message⟩ | ⟨kind, sid⟩
    · exact if_neg h
    · rfl
    · rfl
  · rcases notice with ⟨kind, sid, delta⟩ | ⟨kind, sid, message⟩ | ⟨kind, sid⟩
    · rfl
    · exact if_neg h
    · rfl

/-- The numbers of the streams of the messages. -/
def numbers (log : List Entry) : List Nat := (exchanges log).filterMap Prod.snd

/-- While the page waits for a stream, what is heard of it changes the end of the page. -/
theorem transcript_heard (hawaits : Awaits log n) (hnumbers : (numbers log).Pairwise (· < ·))
    (notice : Notice String) :
    ∃ before text, transcript log = before ++ ⟨.user, text⟩ :: reply log n ∧
      transcript (log ++ [.heard n notice]) =
        before ++ ⟨.user, text⟩ :: reply (log ++ [.heard n notice]) n := by
  obtain ⟨text, hlast⟩ := hawaits.last
  obtain ⟨init, hinit⟩ : ∃ init, exchanges log = init ++ [(text, some n)] := by
    rw [List.getLast?_eq_some_iff] at hlast
    exact hlast
  -- The numbers rise, so no earlier message has the stream of the last one.
  have hother : ∀ exchange ∈ init, exchange.2 ≠ some n := by
    rintro ⟨text', stream⟩ hmem rfl
    rw [numbers, hinit, List.filterMap_append, List.pairwise_append] at hnumbers
    exact Nat.lt_irrefl n (hnumbers.2.2 n (List.mem_filterMap.mpr ⟨_, hmem, rfl⟩) n
      List.mem_cons_self)
  refine ⟨init.flatMap (exchangeMsgs log), text, ?_, ?_⟩
  · rw [transcript, hinit, List.flatMap_append, List.flatMap_singleton]
    rfl
  · rw [transcript, exchanges_heard, hinit, List.flatMap_append, List.flatMap_singleton]
    have hsame : init.flatMap (exchangeMsgs (log ++ [.heard n notice])) =
        init.flatMap (exchangeMsgs log) := by
      -- So the exchanges before the last one are as they were.
      refine congrArg List.flatten (List.map_congr_left ?_)
      rintro ⟨text', stream⟩ hmem
      rcases stream with - | m
      · rfl
      · have hne : n ≠ m := fun h => hother _ hmem (congrArg some h.symm)
        rw [exchangeMsgs, exchangeMsgs]
        dsimp only
        rw [reply_heard_of_ne hne]
    rw [hsame]
    rfl

/-- A stream that is waited for has had no error. -/
theorem errors_of_awaits (hawaits : Awaits log n) : log.filterMap (Entry.error? n) = [] := by
  rw [List.filterMap_eq_nil_iff]
  intro entry hentry
  have hopen := hawaits.open_ entry hentry
  rcases entry with ⟨text, stream⟩ | ⟨m, ⟨kind, sid, delta⟩ | ⟨kind, sid, message⟩ | ⟨kind, sid⟩⟩
  · rfl
  · rfl
  · exact if_neg (of_decide_eq_false hopen)
  · rfl

theorem onChatToken_user {page : ChatPage} {before : List Msg} {text : String}
    (h : page.msgs = before ++ [⟨.user, text⟩]) (delta : String) :
    (page.onChatToken page.session delta).msgs =
      before ++ ⟨.user, text⟩ :: [⟨.assistant, delta⟩] := by
  rw [ChatPage.onChatToken, if_pos rfl, h, List.getLast?_concat]
  exact List.append_assoc _ _ _

theorem onChatToken_assistant {page : ChatPage} {before : List Msg} {text : String}
    (h : page.msgs = before ++ [⟨.assistant, text⟩]) (delta : String) :
    (page.onChatToken page.session delta).msgs = before ++ [⟨.assistant, text ++ delta⟩] := by
  rw [ChatPage.onChatToken, if_pos rfl, h, List.getLast?_concat, List.dropLast_concat]

/-- A piece of text is put at the end of the answer. -/
theorem onChatToken_msgs {page : ChatPage} (hmsgs : page.msgs = transcript log)
    (hawaits : Awaits log n) (hnumbers : (numbers log).Pairwise (· < ·)) (delta : String) :
    (page.onChatToken page.session delta).msgs =
      transcript (log ++ [.heard n (.item .chat page.session delta)]) := by
  obtain ⟨before, text, htranscript, htranscript'⟩ :=
    transcript_heard hawaits hnumbers (.item .chat page.session delta)
  have hitem : (Entry.heard n (.item .chat page.session delta)).item? n = some delta := if_pos rfl
  have herror : (Entry.heard n (.item .chat page.session delta)).error? n = none := rfl
  rw [htranscript', reply, List.filterMap_append, List.filterMap_append,
    List.filterMap_cons_some hitem, List.filterMap_nil, List.filterMap_cons_none herror,
    List.filterMap_nil, List.append_nil, errors_of_awaits hawaits,
    if_neg (List.append_ne_nil_of_right_ne_nil _ (List.cons_ne_nil delta [])),
    String.join_append, String.join_cons, String.join_nil, String.append_empty]
  rw [htranscript, reply, errors_of_awaits hawaits] at hmsgs
  -- The first piece makes a message of the assistant, behind that of the reader; the others
  -- are put at its end.
  by_cases hnone : log.filterMap (Entry.item? n) = []
  · rw [if_pos hnone] at hmsgs
    rw [onChatToken_user hmsgs, hnone, String.join_nil, String.empty_append]
    rfl
  · rw [if_neg hnone] at hmsgs
    have hlast : page.msgs = (before ++ [⟨.user, text⟩]) ++
        [⟨.assistant, String.join (log.filterMap (Entry.item? n))⟩] := by
      rw [hmsgs, List.append_assoc]
      rfl
    rw [onChatToken_assistant hlast, List.append_assoc]
    rfl

/-- What is not of a message leaves the page as it is. -/
theorem onChatDone_msgs {page : ChatPage} (hmsgs : page.msgs = transcript log) (sid : String) :
    page.msgs = transcript (log ++ [.heard n (.done .chat sid)]) := by
  have hreply : exchangeMsgs (log ++ [.heard n (.done .chat sid)]) = exchangeMsgs log := by
    funext exchange
    rw [exchangeMsgs, exchangeMsgs]
    rcases exchange.2 with - | m
    · rfl
    · dsimp only
      rw [reply_append rfl rfl]
  rw [hmsgs, transcript, transcript, exchanges_heard, hreply]

/-- An error is put behind the answer. -/
theorem onChatError_msgs {page : ChatPage} (hmsgs : page.msgs = transcript log)
    (hawaits : Awaits log n) (hnumbers : (numbers log).Pairwise (· < ·)) (message : String) :
    (page.onChatError page.session message).msgs =
      transcript (log ++ [.heard n (.error .chat page.session message)]) := by
  obtain ⟨before, text, htranscript, htranscript'⟩ :=
    transcript_heard hawaits hnumbers (.error .chat page.session message)
  have hitem : (Entry.heard n (.error .chat page.session message)).item? n = none := rfl
  have herror : (Entry.heard n (.error .chat page.session message)).error? n = some message :=
    if_pos rfl
  rw [htranscript', reply, List.filterMap_append, List.filterMap_append,
    List.filterMap_cons_none hitem, List.filterMap_nil, List.append_nil,
    List.filterMap_cons_some herror, List.filterMap_nil, List.map_append, ← List.append_assoc,
    ChatPage.onChatError, if_pos rfl, hmsgs, htranscript]
  show (before ++ ⟨.user, text⟩ :: reply log n) ++ [⟨.error, message⟩] = _
  rw [List.append_assoc]
  rfl

/-! ### What holds while the page is open -/

/-- No chat is under way: every stream of a chat has finished.  Streams of other
kinds may still be running. -/
def Idle (app : AppState) : Prop :=
  ∀ stream ∈ app.streams, stream.kind = .chat → stream.phase = .finished

/-- What holds of the page and of what happened since it was opened.  The messages
are those that the log gives, the page is busy as long as it awaits a stream of its
own, and every chat that has not finished is one it awaits. -/
structure Inv (log : List Entry) (d : Desktop) : Prop where
  msgs : d.page.msgs = transcript log
  ordered : (numbers log).Pairwise (· < ·)
  sent : ∀ n ∈ numbers log, n < d.app.streams.length
  heard : ∀ n notice, Entry.heard n notice ∈ log → n < d.app.streams.length
  live : ∀ n stream, d.app.streams[n]? = some stream → stream.kind = .chat →
    stream.phase ≠ .finished → Awaits log n
  busy : d.page.busy = true ↔ ∃ n, Awaits log n

/-- The page waits for one stream at a time. -/
theorem Awaits.unique (hn : Awaits log n) (hm : Awaits log m) : n = m := by
  obtain ⟨text, htext⟩ := hn.last
  obtain ⟨text', htext'⟩ := hm.last
  rw [htext, Option.some_inj, Prod.mk.injEq] at htext'
  exact Option.some_inj.mp htext'.2

/-- A piece of text ends nothing. -/
theorem awaits_heard_iff (hopen : (Entry.heard m notice).isOver n = false) :
    Awaits (log ++ [.heard m notice]) n ↔ Awaits log n := by
  constructor
  · rintro ⟨hlast, hentry⟩
    rw [exchanges_heard] at hlast
    exact ⟨hlast, fun entry h => hentry entry (List.mem_append_left _ h)⟩
  · rintro ⟨hlast, hentry⟩
    rw [← exchanges_heard log m notice] at hlast
    refine ⟨hlast, fun entry h => ?_⟩
    rcases List.mem_append.mp h with h | h
    · exact hentry entry h
    · rw [List.mem_singleton.mp h]
      exact hopen

/-- Once the end of the stream that is waited for is heard, no stream is waited for. -/
theorem not_awaits_heard (hawaits : Awaits log n) (hover : (Entry.heard n notice).isOver n = true)
    (m : Nat) : ¬ Awaits (log ++ [.heard n notice]) m := by
  rintro hm
  have hmn : m = n := by
    obtain ⟨text, htext⟩ := hawaits.last
    obtain ⟨text', htext'⟩ := hm.last
    rw [exchanges_heard, htext, Option.some_inj, Prod.mk.injEq] at htext'
    exact (Option.some_inj.mp htext'.2).symm
  have hopen := hm.open_ _ (List.mem_append_right log List.mem_cons_self)
  rw [hmn, hover] at hopen
  cases hopen

/-- What is not of the log is sent. -/
theorem transcript_sent (text : String) (stream : Option Nat) (log : List Entry) :
    transcript (log ++ [.sent text stream]) =
      transcript log ++ exchangeMsgs log (text, stream) := by
  have hmsgs : exchangeMsgs (log ++ [.sent text stream]) = exchangeMsgs log := by
    funext exchange
    rw [exchangeMsgs, exchangeMsgs]
    rcases exchange.2 with - | n
    · rfl
    · dsimp only
      rw [reply_append rfl rfl]
  rw [transcript, exchanges_sent, hmsgs, List.flatMap_append, List.flatMap_singleton, transcript]

/-- The answer of a stream that was not heard of is empty. -/
theorem reply_eq_nil (h : ∀ notice, Entry.heard n notice ∉ log) : reply log n = [] := by
  have hitem : log.filterMap (Entry.item? n) = [] := by
    rw [List.filterMap_eq_nil_iff]
    rintro (⟨text, stream⟩ | ⟨m, ⟨kind, sid, delta⟩ | ⟨kind, sid, message⟩ | ⟨kind, sid⟩⟩) hentry
    · rfl
    · exact if_neg fun hmn => h _ (hmn ▸ hentry)
    · rfl
    · rfl
  have herror : log.filterMap (Entry.error? n) = [] := by
    rw [List.filterMap_eq_nil_iff]
    rintro (⟨text, stream⟩ | ⟨m, ⟨kind, sid, delta⟩ | ⟨kind, sid, message⟩ | ⟨kind, sid⟩⟩) hentry
    · rfl
    · rfl
    · exact if_neg fun hmn => h _ (hmn ▸ hentry)
    · rfl
  rw [reply, hitem, herror, if_pos rfl]
  rfl

/-- What may come of a turn of a stream that has not finished. -/
inductive Turn (stream : Stream) : Stream × List (Notice String) → Prop
  | silent (phase : Phase) : Turn stream ({ stream with phase := phase }, [])
  | item (delta : String) : Turn stream (stream, [.item stream.kind stream.sessionId delta])
  | error (message : String) :
      Turn stream ({ stream with phase := .finished },
        [.error stream.kind stream.sessionId message])
  | done : Turn stream ({ stream with phase := .finished }, [.done stream.kind stream.sessionId])

/-- A stream that has finished does nothing. -/
theorem receive_finished {stream : Stream} (h : stream.phase = .finished) (isCancelled : Bool)
    (answer : Answer String) : stream.receive isCancelled answer = (stream, []) := by
  rcases answer with - | - | payload | message | - <;> rw [Stream.receive, h] <;> rfl

theorem receive_turn (stream : Stream) (isCancelled : Bool) (answer : Answer String) :
    Turn stream (stream.receive isCancelled answer) := by
  have hidle : Turn stream (stream, []) := .silent stream.phase
  rcases answer with - | - | delta | message | - <;> rw [Stream.receive] <;> split_ifs
  · exact .silent .streaming
  · exact hidle
  · exact .silent .finished
  · exact hidle
  · exact .done
  · exact .item delta
  · exact hidle
  · exact .done
  · exact .error message
  · exact hidle
  · exact .done
  · exact hidle

/-! ### What a step keeps -/

/-- The page goes on without hearing anything, and no stream comes to life. -/
theorem Inv.silent {d d' : Desktop} (hinv : Inv log d) (hmsgs : d'.page.msgs = d.page.msgs)
    (hbusy : d'.page.busy = d.page.busy)
    (hlength : d.app.streams.length ≤ d'.app.streams.length)
    (hlive : ∀ n stream, d'.app.streams[n]? = some stream → stream.kind = .chat →
      stream.phase ≠ .finished → Awaits log n) : Inv log d' where
  msgs := hmsgs.trans hinv.msgs
  ordered := hinv.ordered
  sent n hn := Nat.lt_of_lt_of_le (hinv.sent n hn) hlength
  heard n notice hentry := Nat.lt_of_lt_of_le (hinv.heard n notice hentry) hlength
  live := hlive
  busy := hbusy ▸ hinv.busy

@[simp] theorem numbers_heard (log : List Entry) (n : Nat) (notice : Notice String) :
    numbers (log ++ [.heard n notice]) = numbers log := by
  rw [numbers, exchanges_heard, numbers]

/-- Something is heard of the stream that is waited for. -/
theorem Inv.heard_concat {d : Desktop} {page : ChatPage} {stream : Stream} (hinv : Inv log d)
    (hlt : n < d.app.streams.length)
    (hmsgs : page.msgs = transcript (log ++ [.heard n notice]))
    (hlive : ∀ m stream', (d.app.streams.set n stream)[m]? = some stream' →
      stream'.kind = .chat → stream'.phase ≠ .finished → Awaits (log ++ [.heard n notice]) m)
    (hbusy : page.busy = true ↔ ∃ m, Awaits (log ++ [.heard n notice]) m) :
    Inv (log ++ [.heard n notice])
      ⟨page, { d.app with streams := d.app.streams.set n stream }⟩ where
  msgs := hmsgs
  ordered := by
    rw [numbers_heard]
    exact hinv.ordered
  sent m hm := by
    rw [numbers_heard] at hm
    show m < (d.app.streams.set n stream).length
    rw [List.length_set]
    exact hinv.sent m hm
  heard m notice' hentry := by
    show m < (d.app.streams.set n stream).length
    rw [List.length_set]
    -- The streams are as many as before, so what was known of their numbers stays.
    rcases List.mem_append.mp hentry with h | h
    · exact hinv.heard m notice' h
    · rw [(Entry.heard.inj (List.mem_singleton.mp h)).1]
      exact hlt
  live := hlive
  busy := hbusy

/-- A piece of text is heard. -/
theorem Inv.item {d : Desktop} {stream : Stream} (hinv : Inv log d)
    (hstream : d.app.streams[n]? = some stream) (hawaits : Awaits log n) (delta : String) :
    Inv (log ++ [.heard n (.item .chat d.page.session delta)])
      ⟨d.page.onChatToken d.page.session delta,
        { d.app with streams := d.app.streams.set n stream }⟩ := by
  -- A piece of text does not end the stream, so the page awaits what it awaited.
  have hiff : ∀ m, Awaits (log ++ [.heard n (.item .chat d.page.session delta)]) m ↔
      Awaits log m := fun m => awaits_heard_iff rfl
  have hset : d.app.streams.set n stream = d.app.streams := by
    rw [List.getElem?_eq_some_iff] at hstream
    obtain ⟨hlt, hget⟩ := hstream
    rw [← hget, List.set_getElem_self]
  refine hinv.heard_concat (List.getElem?_eq_some_iff.mp hstream).1
    (onChatToken_msgs hinv.msgs hawaits hinv.ordered delta) ?_ ?_
  · intro m stream' hget hkind hphase
    rw [hset] at hget
    exact (hiff m).mpr (hinv.live m stream' hget hkind hphase)
  · have hbusy : (d.page.onChatToken d.page.session delta).busy = d.page.busy := by
      rw [ChatPage.onChatToken, if_pos rfl]
      split <;> rfl
    rw [hbusy, hinv.busy]
    exact exists_congr fun m => (hiff m).symm

/-- The end of the stream is heard. -/
theorem Inv.over {d : Desktop} {page : ChatPage} {stream : Stream} (hinv : Inv log d)
    (hlt : n < d.app.streams.length) (hawaits : Awaits log n)
    (hover : (Entry.heard n notice).isOver n = true) (hphase : stream.phase = .finished)
    (hmsgs : page.msgs = transcript (log ++ [.heard n notice])) (hbusy : page.busy = false) :
    Inv (log ++ [.heard n notice])
      ⟨page, { d.app with streams := d.app.streams.set n stream }⟩ := by
  refine hinv.heard_concat hlt hmsgs ?_ ?_
  · intro m stream' hget hkind hphase'
    by_cases hnm : n = m
    · subst hnm
      rw [List.getElem?_set_self hlt, Option.some_inj] at hget
      exact absurd (hget ▸ hphase) hphase'
    · rw [List.getElem?_set_ne hnm] at hget
      exact absurd (hawaits.unique (hinv.live m stream' hget hkind hphase')) hnm
  · rw [hbusy]
    exact iff_of_false Bool.false_ne_true fun ⟨m, hm⟩ => not_awaits_heard hawaits hover m hm

/-- What is waited for when something was sent. -/
theorem awaits_sent_iff {text : String} {stream : Option Nat} :
    Awaits (log ++ [.sent text stream]) n ↔
      stream = some n ∧ ∀ entry ∈ log, entry.isOver n = false := by
  constructor
  · rintro ⟨⟨text', hlast⟩, hentry⟩
    rw [exchanges_sent, List.getLast?_concat, Option.some_inj, Prod.mk.injEq] at hlast
    exact ⟨hlast.2, fun entry h => hentry entry (List.mem_append_left _ h)⟩
  · rintro ⟨rfl, hentry⟩
    refine ⟨⟨text, ?_⟩, fun entry h => ?_⟩
    · rw [exchanges_sent, List.getLast?_concat]
    · rcases List.mem_append.mp h with h | h
      · exact hentry entry h
      · rw [List.mem_singleton.mp h]
        rfl

/-- What is not busy has no chat under way. -/
theorem Inv.not_awaits {d : Desktop} (hinv : Inv log d) (hbusy : d.page.busy = false) (n : Nat) :
    ¬ Awaits log n := by
  intro hawaits
  rw [hinv.busy.mpr ⟨n, hawaits⟩] at hbusy
  cases hbusy

/-- The reader sends something, and there is no connection. -/
theorem Inv.unconnected {d : Desktop} (hinv : Inv log d) (hbusy : d.page.busy = false)
    (text : String) :
    Inv (log ++ [.sent text none]) { d with page :=
      { d.page with
        msgs := (d.page.msgs ++ [⟨.user, text⟩]) ++ [⟨.error, "[object Object]"⟩]
        busy := false } } where
  msgs := by
    rw [transcript_sent, ← hinv.msgs]
    exact List.append_assoc _ _ _
  ordered := by
    rw [numbers, exchanges_sent, List.filterMap_append]
    show (numbers log ++ []).Pairwise (· < ·)
    rw [List.append_nil]
    exact hinv.ordered
  sent n hn := by
    rw [numbers, exchanges_sent, List.filterMap_append] at hn
    rcases List.mem_append.mp hn with h | h
    · exact hinv.sent n h
    · cases h
  heard n notice hentry := by
    rcases List.mem_append.mp hentry with h | h
    · exact hinv.heard n notice h
    · cases List.mem_singleton.mp h
  -- The page was not busy, so no chat of the session was under way; nor is one now.
  live n stream hget hkind hphase :=
    absurd (hinv.live n stream hget hkind hphase) (hinv.not_awaits hbusy n)
  busy := by
    refine iff_of_false Bool.false_ne_true ?_
    rintro ⟨n, hn⟩
    cases (awaits_sent_iff.mp hn).1

/-- A stream is one that was there, or the one that was started. -/
theorem getElem?_concat {streams : List Stream} {new stream : Stream}
    (h : (streams ++ [new])[n]? = some stream) :
    streams[n]? = some stream ∨ n = streams.length ∧ stream = new := by
  rcases Nat.lt_or_ge n streams.length with hlt | hge
  · rw [List.getElem?_append_left hlt] at h
    exact .inl h
  · rw [List.getElem?_append_right hge, List.getElem?_singleton] at h
    split at h
    next hzero => exact .inr ⟨by omega, (Option.some_inj.mp h).symm⟩
    next => cases h

/-- The reader sends something, and a stream is started. -/
theorem Inv.connected {d : Desktop} (hinv : Inv log d) (hbusy : d.page.busy = false)
    (text : String) :
    Inv (log ++ [.sent text (some d.app.streams.length)])
      ⟨{ d.page with msgs := d.page.msgs ++ [⟨.user, text⟩], busy := true },
        Gui.Streaming.chatSend true d.page.session d.app⟩ := by
  have hstreams : (Gui.Streaming.chatSend true d.page.session d.app).streams =
      d.app.streams ++ [⟨.chat, d.page.session, d.app.tokens.length, .requested⟩] := rfl
  have hlength : (Gui.Streaming.chatSend true d.page.session d.app).streams.length =
      d.app.streams.length + 1 := by
    rw [hstreams]
    exact List.length_append
  -- The stream has just got its number, and nothing was heard of it.
  have hopen : ∀ entry ∈ log, entry.isOver d.app.streams.length = false := by
    rintro (⟨text', stream⟩ | ⟨m, notice⟩) hentry
    · rfl
    · have hne := Nat.ne_of_lt (hinv.heard m notice hentry)
      rcases notice with ⟨kind, sid, delta⟩ | ⟨kind, sid, message⟩ | ⟨kind, sid⟩
      · rfl
      · exact decide_eq_false hne
      · exact decide_eq_false hne
  have hnumbers : numbers (log ++ [.sent text (some d.app.streams.length)]) =
      numbers log ++ [d.app.streams.length] := by
    rw [numbers, exchanges_sent, List.filterMap_append]
    rfl
  refine ⟨?_, ?_, ?_, ?_, ?_, ?_⟩
  · show d.page.msgs ++ [⟨.user, text⟩] = _
    rw [transcript_sent, ← hinv.msgs, exchangeMsgs]
    dsimp only
    -- Its answer is still empty, so the transcript ends with the message.
    rw [reply_eq_nil fun notice h => Nat.lt_irrefl _ (hinv.heard _ notice h)]
  · rw [hnumbers, List.pairwise_append]
    refine ⟨hinv.ordered, List.pairwise_singleton _ _, fun n hn m hm => ?_⟩
    rw [List.mem_singleton.mp hm]
    exact hinv.sent n hn
  · intro n hn
    rw [hnumbers] at hn
    show n < (Gui.Streaming.chatSend true d.page.session d.app).streams.length
    rw [hlength]
    rcases List.mem_append.mp hn with h | h
    · exact Nat.lt_succ_of_lt (hinv.sent n h)
    · rw [List.mem_singleton.mp h]
      exact Nat.lt_succ_self _
  · intro n notice hentry
    show n < (Gui.Streaming.chatSend true d.page.session d.app).streams.length
    rw [hlength]
    rcases List.mem_append.mp hentry with h | h
    · exact Nat.lt_succ_of_lt (hinv.heard n notice h)
    · cases List.mem_singleton.mp h
  · intro n stream hget hkind hphase
    -- No other chat can be under way: the page was not busy.
    rcases getElem?_concat hget with h | ⟨rfl, -⟩
    · exact absurd (hinv.live n stream h hkind hphase) (hinv.not_awaits hbusy n)
    · exact awaits_sent_iff.mpr ⟨rfl, hopen⟩
  · exact iff_of_true rfl ⟨_, awaits_sent_iff.mpr ⟨rfl, hopen⟩⟩

/-- An answer of the server that is of no chat the page hears of. -/
theorem Inv.unheard {d : Desktop} {stream stream' : Stream} (hinv : Inv log d)
    (hstream : d.app.streams[n]? = some stream) (hkind : stream'.kind = stream.kind)
    (hphase : stream.phase = .finished → stream'.phase = .finished) :
    Inv log ⟨d.page, { d.app with streams := d.app.streams.set n stream' }⟩ := by
  refine hinv.silent rfl rfl (Nat.le_of_eq List.length_set.symm) ?_
  intro m other hget hkind' hphase'
  by_cases hnm : n = m
  · subst hnm
    rw [List.getElem?_set_self (List.getElem?_eq_some_iff.mp hstream).1, Option.some_inj] at hget
    subst hget
    exact hinv.live n stream hstream (hkind.symm.trans hkind') fun h => hphase' (hphase h)
  · rw [List.getElem?_set_ne hnm] at hget
    exact hinv.live m other hget hkind' hphase'

/-- A stream that is of no chat of the session is passed over. -/
theorem Turn.passed_over {stream stream' : Stream} {notices : List (Notice String)}
    (hturn : Turn stream (stream', notices)) {page : ChatPage}
    (hother : stream.kind = .chat → stream.sessionId ≠ page.session) :
    notices.filter (hears page.session) = [] ∧ notices.foldl ChatPage.hear page = page := by
  have hchat : stream.kind = .chat → decide (stream.sessionId = page.session) = false :=
    fun h => decide_eq_false (hother h)
  -- Only a chat has notices for the page, and it takes those of its own session alone.
  cases hturn with
  | silent phase => exact ⟨rfl, rfl⟩
  | item delta =>
      rcases hkind : stream.kind with - | -
      · exact ⟨List.filter_cons_of_neg (Bool.eq_false_iff.mp (hchat hkind)),
          if_neg (hother hkind)⟩
      · exact ⟨rfl, rfl⟩
  | error message =>
      rcases hkind : stream.kind with - | -
      · exact ⟨List.filter_cons_of_neg (Bool.eq_false_iff.mp (hchat hkind)),
          if_neg (hother hkind)⟩
      · exact ⟨rfl, rfl⟩
  | done =>
      rcases hkind : stream.kind with - | -
      · exact ⟨List.filter_cons_of_neg (Bool.eq_false_iff.mp (hchat hkind)),
          if_neg (hother hkind)⟩
      · exact ⟨rfl, rfl⟩

theorem Turn.kind_eq {stream stream' : Stream} {notices : List (Notice String)}
    (hturn : Turn stream (stream', notices)) : stream'.kind = stream.kind := by
  cases hturn <;> rfl

/-- What a step does with the answer of the server. -/
theorem step_answer {d : Desktop} {stream stream' : Stream} {notices : List (Notice String)}
    {answer : Answer String} (hstream : d.app.streams[n]? = some stream)
    (hreceive : stream.receive (d.app.isCancelled stream.abort) answer = (stream', notices)) :
    step d (.answer n answer) =
      (⟨notices.foldl ChatPage.hear d.page,
          { d.app with streams := d.app.streams.set n stream' }⟩,
        (notices.filter (hears d.page.session)).map (.heard n)) := by
  have happ : d.app.receive n answer =
      ({ d.app with streams := d.app.streams.set n stream' }, notices.map (n, ·)) := by
    rw [AppState.receive, hstream]
    dsimp only
    rw [hreceive]
  rw [step, happ]
  dsimp only
  rw [List.foldl_map, List.filter_map, List.map_map]
  rfl

/-- The server answers. -/
theorem Inv.answer {d : Desktop} (hinv : Inv log d) (n : Nat) (answer : Answer String) :
    Inv (log ++ (step d (.answer n answer)).2) (step d (.answer n answer)).1 := by
  rcases hstream : d.app.streams[n]? with - | stream
  · have hstep : step d (.answer n answer) = (d, []) := by
      rw [step, AppState.receive, hstream]
      rfl
    rw [hstep, List.append_nil]
    exact hinv
  -- The stream exists; whether it is a chat of the session decides if the page hears it.
  have hlt := (List.getElem?_eq_some_iff.mp hstream).1
  by_cases hphase : stream.phase = .finished
  · rw [step_answer hstream (receive_finished hphase _ answer)]
    show Inv (log ++ []) _
    rw [List.append_nil]
    exact hinv.unheard hstream rfl id
  rcases hreceive : stream.receive (d.app.isCancelled stream.abort) answer with ⟨stream', notices⟩
  rw [step_answer hstream hreceive]
  have hturn : Turn stream (stream', notices) := hreceive ▸ receive_turn stream _ answer
  by_cases hown : stream.kind = .chat ∧ stream.sessionId = d.page.session
  · obtain ⟨hkind, hsession⟩ := hown
    have hawaits := hinv.live n stream hstream hkind hphase
    have hfilter : ∀ notice, hears d.page.session notice = true →
        [notice].filter (hears d.page.session) = [notice] := fun notice h =>
      List.filter_cons_of_pos h
    -- A chat of the session that has not finished is the one that is awaited.
    cases hturn with
    | silent phase =>
        show Inv (log ++ []) _
        rw [List.append_nil]
        exact hinv.unheard hstream rfl fun h => absurd h hphase
    | item delta =>
        rw [hkind, hsession, hfilter (.item .chat d.page.session delta) (decide_eq_true rfl)]
        exact hinv.item hstream hawaits delta
    | error message =>
        rw [hkind, hsession, hfilter (.error .chat d.page.session message) (decide_eq_true rfl)]
        refine hinv.over hlt hawaits (decide_eq_true rfl) rfl
          (onChatError_msgs hinv.msgs hawaits hinv.ordered message) ?_
        show (d.page.onChatError d.page.session message).busy = false
        rw [ChatPage.onChatError, if_pos rfl]
    | done =>
        rw [hkind, hsession, hfilter (.done .chat d.page.session) (decide_eq_true rfl)]
        refine hinv.over hlt hawaits (decide_eq_true rfl) rfl ?_ ?_
        · show (d.page.onChatDone d.page.session).msgs = _
          rw [ChatPage.onChatDone, if_pos rfl]
          exact onChatDone_msgs hinv.msgs d.page.session
        · show (d.page.onChatDone d.page.session).busy = false
          rw [ChatPage.onChatDone, if_pos rfl]
  -- Any other stream changes neither the page nor the log.
  · obtain ⟨hfilter, hfoldl⟩ := hturn.passed_over fun hkind hsession => hown ⟨hkind, hsession⟩
    rw [hfilter, hfoldl]
    show Inv (log ++ []) _
    rw [List.append_nil]
    exact hinv.unheard hstream hturn.kind_eq fun h => absurd h hphase

/-- Every step keeps the invariant. -/
theorem Inv.step {d : Desktop} (hinv : Inv log d) (op : Op) :
    Inv (log ++ (step d op).2) (step d op).1 := by
  have hidle : Inv (log ++ []) d := by
    rw [List.append_nil]
    exact hinv
  have hsilent : ∀ d' : Desktop, d'.page.msgs = d.page.msgs → d'.page.busy = d.page.busy →
      d'.app.streams = d.app.streams → Inv (log ++ []) d' := by
    intro d' hmsgs hbusy hstreams
    rw [List.append_nil]
    refine hinv.silent hmsgs hbusy (Nat.le_of_eq (by rw [hstreams])) ?_
    rw [hstreams]
    exact hinv.live
  have hcancel : ∀ sessionId, (d.app.cancelAbort sessionId).streams = d.app.streams := by
    intro sessionId
    rw [AppState.cancelAbort]
    split <;> rfl
  rcases op with session | ⟨connected, text⟩ | - | ⟨connected, sid⟩ | sid | ⟨n, answer⟩
  · exact hsilent _ rfl rfl rfl
  -- The page sends nothing while it is busy, which is what keeps the answers apart.
  · by_cases hsend : text = "" ∨ d.page.busy = true
    · rw [GuiChat.step, if_pos hsend]
      exact hidle
    · have hbusy : d.page.busy = false := Bool.eq_false_iff.mpr fun h => hsend (.inr h)
      rw [GuiChat.step, if_neg hsend]
      rcases connected with - | -
      · exact hinv.unconnected hbusy text
      · exact hinv.connected hbusy text
  · rw [GuiChat.step]
    split
    · exact hsilent _ rfl rfl (hcancel _)
    · exact hidle
  · rcases connected with - | -
    · exact hsilent _ rfl rfl rfl
    · show Inv (log ++ []) _
      rw [List.append_nil]
      have hlength : d.app.streams.length ≤
          (Gui.Streaming.agentRun true sid d.app).streams.length := by
        show _ ≤ (d.app.streams ++
          [(⟨.agent, sid, d.app.tokens.length, .requested⟩ : Stream)]).length
        rw [List.length_append]
        exact Nat.le_add_right _ _
      refine hinv.silent rfl rfl hlength fun n stream hget hkind hphase => ?_
      rcases getElem?_concat hget with h | ⟨-, rfl⟩
      · exact hinv.live n stream h hkind hphase
      · cases hkind
  · exact hsilent _ rfl rfl (hcancel _)
  · exact hinv.answer n answer

/-! ### Runs -/

/-- What holds when the page is opened. -/
theorem Inv.opened {app : AppState} (hidle : Idle app) : Inv [] (Desktop.opened app) where
  msgs := rfl
  ordered := List.Pairwise.nil
  sent n hn := by cases hn
  heard n notice hentry := by cases hentry
  live n stream hget hkind hphase :=
    absurd (hidle stream (List.mem_of_getElem? hget) hkind) hphase
  busy := by
    refine iff_of_false Bool.false_ne_true ?_
    rintro ⟨n, ⟨text, hlast⟩, -⟩
    cases hlast

/-- What holds in every run. -/
theorem Inv.run {app : AppState} (hidle : Idle app) (ops : List Op) :
    Inv (Machine.run GuiChat.step (.opened app) ops).2
      (Machine.run GuiChat.step (.opened app) ops).1 :=
  Machine.run_induction (P := fun _ d log => Inv log d) (.opened hidle)
    (fun _ op _ _ hinv => hinv.step op) ops

/-- The server accepts the request of a stream. -/
theorem step_accepted {d : Desktop} {stream : Stream} (hstream : d.app.streams[n]? = some stream)
    (hphase : stream.phase ≠ .finished) :
    step d (.answer n .accepted) =
      (⟨d.page, { d.app with
        streams := d.app.streams.set n { stream with phase := .streaming } }⟩, []) := by
  have hreceive : stream.receive (d.app.isCancelled stream.abort) (.accepted : Answer String) =
      ({ stream with phase := .streaming }, []) := by
    rcases stream with ⟨kind, sid, abort, - | - | -⟩
    · rfl
    · rfl
    · exact absurd rfl hphase
  rw [step_answer hstream hreceive]
  rfl

/-- A stream comes to its end. -/
theorem step_ended {d : Desktop} {stream : Stream} (hstream : d.app.streams[n]? = some stream)
    (hphase : stream.phase = .streaming) (hkind : stream.kind = .chat)
    (hsession : stream.sessionId = d.page.session) :
    step d (.answer n .ended) =
      (⟨{ d.page with busy := false }, { d.app with
        streams := d.app.streams.set n { stream with phase := .finished } }⟩,
          [.heard n (.done .chat d.page.session)]) := by
  have hreceive : stream.receive (d.app.isCancelled stream.abort) (.ended : Answer String) =
      ({ stream with phase := .finished }, [.done .chat d.page.session]) := by
    rw [Stream.receive, if_pos hphase, hkind, hsession]
  have hdone : d.page.onChatDone d.page.session = { d.page with busy := false } := if_pos rfl
  have hheard : [.done .chat d.page.session].filter (hears d.page.session) =
      [.done .chat d.page.session] := List.filter_cons_of_pos (decide_eq_true rfl)
  rw [step_answer hstream hreceive, hheard, ← hdone]
  rfl

/-- Something is sent. -/
theorem step_send {d : Desktop} {text : String} (htext : text ≠ "") (hbusy : d.page.busy = false) :
    step d (.send true text) =
      (⟨{ d.page with msgs := d.page.msgs ++ [⟨.user, text⟩], busy := true },
        { d.app with
          aborts := Function.update d.app.aborts d.page.session (some d.app.tokens.length)
          tokens := d.app.tokens ++ [false]
          streams := d.app.streams ++
            [⟨.chat, d.page.session, d.app.tokens.length, .requested⟩] }⟩,
        [.sent text (some d.app.streams.length)]) := by
  have hsend : ¬ (text = "" ∨ d.page.busy = true) := by
    rw [hbusy]
    exact fun h => h.elim htext Bool.false_ne_true
  rw [step, if_neg hsend]
  rfl

/-- A piece of text comes. -/
theorem step_item {d : Desktop} {stream : Stream} (hstream : d.app.streams[n]? = some stream)
    (hphase : stream.phase = .streaming) (hkind : stream.kind = .chat)
    (hsession : stream.sessionId = d.page.session)
    (hcancelled : d.app.isCancelled stream.abort = false) (delta : String) :
    step d (.answer n (.item delta)) =
      (⟨d.page.onChatToken d.page.session delta, { d.app with
        streams := d.app.streams.set n stream }⟩,
          [.heard n (.item .chat d.page.session delta)]) := by
  have hreceive : stream.receive (d.app.isCancelled stream.abort) (.item delta) =
      (stream, [.item .chat d.page.session delta]) := by
    rw [Stream.receive, if_pos hphase, hcancelled, hkind, hsession]
    rfl
  have hheard : [.item .chat d.page.session delta].filter (hears d.page.session) =
      [.item .chat d.page.session delta] := List.filter_cons_of_pos (decide_eq_true rfl)
  rw [step_answer hstream hreceive, hheard]
  rfl

/-- Where a chat of the session is under way and the page is not busy, the answer of that chat
comes behind the message that is sent next. -/
theorem overtaken {d : Desktop} {stream : Stream} (hbusy : d.page.busy = false)
    (hstream : d.app.streams[n]? = some stream) (hkind : stream.kind = .chat)
    (hsession : stream.sessionId = d.page.session) (hphase : stream.phase ≠ .finished)
    (htoken : stream.abort < d.app.tokens.length)
    (hcancelled : d.app.isCancelled stream.abort = false) :
    ∃ d', Machine.run step d [.send true "b", .answer n .accepted, .answer n (.item "x")] =
        (d', [.sent "b" (some d.app.streams.length),
          -- The new message is the last one, so the piece of the old chat makes a message
          -- behind it.
          .heard n (.item .chat d.page.session "x")]) ∧
      d'.page.msgs = d.page.msgs ++ [⟨.user, "b"⟩, ⟨.assistant, "x"⟩] := by
  have hlt := (List.getElem?_eq_some_iff.mp hstream).1
  have hsend := step_send (show "b" ≠ "" by decide) hbusy
  have hget : (step d (.send true "b")).1.app.streams[n]? = some stream := by
    rw [hsend, ← hstream]
    exact List.getElem?_append_left hlt
  have haccepted := step_accepted hget hphase
  have hget' : (step (step d (.send true "b")).1 (.answer n .accepted)).1.app.streams[n]? =
      some { stream with phase := .streaming } := by
    rw [haccepted]
    exact List.getElem?_set_self (List.getElem?_eq_some_iff.mp hget).1
  have hsession' : stream.sessionId =
      (step (step d (.send true "b")).1 (.answer n .accepted)).1.page.session := by
    rw [haccepted, hsend]
    exact hsession
  have hcancelled' : (step (step d (.send true "b")).1 (.answer n .accepted)).1.app.isCancelled
      stream.abort = false := by
    rw [haccepted, hsend]
    refine Eq.trans ?_ hcancelled
    exact List.getD_append d.app.tokens [false] false stream.abort htoken
  have hmsgs : (step (step d (.send true "b")).1 (.answer n .accepted)).1.page.msgs =
      d.page.msgs ++ [⟨.user, "b"⟩] := by
    rw [haccepted, hsend]
  have hitem := step_item hget' rfl hkind hsession' hcancelled' "x"
  refine ⟨(step (step (step d (.send true "b")).1 (.answer n .accepted)).1
    (.answer n (.item "x"))).1, ?_, ?_⟩
  · rw [Machine.run_cons, Machine.run_cons, Machine.run_cons, Machine.run_nil, hitem, haccepted,
      hsend]
    rfl
  · rw [hitem]
    exact onChatToken_user hmsgs "x"

/-- Where a chat is under way when the page is opened, the page can be brought to send a message
while another chat of its session is under way. -/
theorem exists_overtaken {app : AppState} {stream : Stream}
    (hstream : app.streams[n]? = some stream) (hkind : stream.kind = .chat)
    (hphase : stream.phase ≠ .finished) :
    ∃ ops d, Machine.run step (.opened app) ops =
        (d, [.sent "a" (some app.streams.length), .heard n (.done .chat stream.sessionId)]) ∧
      d.page = ⟨stream.sessionId, [⟨.user, "a"⟩], false⟩ ∧
      d.app.tokens = app.tokens ++ [false] ∧
      d.app.streams[app.streams.length]? =
        some ⟨.chat, stream.sessionId, app.tokens.length, .requested⟩ := by
  have hlt := (List.getElem?_eq_some_iff.mp hstream).1
  -- The page is given the session of the chat that is under way, and then sends a message
  -- itself.
  obtain ⟨d₁, hd₁⟩ : ∃ d₁ : Desktop, d₁ = ⟨⟨stream.sessionId, [], false⟩, app⟩ := ⟨_, rfl⟩
  have hsend := step_send (show "a" ≠ "" by decide) (show d₁.page.busy = false by rw [hd₁])
  have hget : (step d₁ (.send true "a")).1.app.streams[n]? = some stream := by
    rw [hsend, hd₁, ← hstream]
    exact List.getElem?_append_left hlt
  have haccepted := step_accepted hget hphase
  have hget' : (step (step d₁ (.send true "a")).1 (.answer n .accepted)).1.app.streams[n]? =
      some { stream with phase := .streaming } := by
    rw [haccepted]
    exact List.getElem?_set_self (List.getElem?_eq_some_iff.mp hget).1
  have hsession : stream.sessionId =
      (step (step d₁ (.send true "a")).1 (.answer n .accepted)).1.page.session := by
    rw [haccepted, hsend, hd₁]
  have hended := step_ended hget' rfl hkind hsession
  refine ⟨[.edit stream.sessionId, .send true "a", .answer n .accepted, .answer n .ended],
    (step (step (step d₁ (.send true "a")).1 (.answer n .accepted)).1 (.answer n .ended)).1,
    ?_, ?_, ?_, ?_⟩
  · have hedit : step (.opened app) (.edit stream.sessionId) = (d₁, []) := by
      rw [hd₁]
      rfl
    rw [Machine.run_cons, Machine.run_cons, Machine.run_cons, Machine.run_cons, Machine.run_nil,
      hedit, hended, haccepted, hsend, hd₁]
    rfl
  · rw [hended, haccepted, hsend, hd₁]
    rfl
  · rw [hended, haccepted, hsend, hd₁]
  · rw [hended, haccepted, hsend, hd₁]
    have hne : n ≠ app.streams.length := Nat.ne_of_lt hlt
    refine (List.getElem?_set_ne hne).trans ((List.getElem?_set_ne hne).trans ?_)
    exact List.getElem?_concat_length

end

/-- **Every answer under its message.**  The page shows, in every run, each message that was
sent with all that was heard of its own stream behind it, exactly if no chat was under way
when it was opened. -/
theorem msgs_eq_transcript_iff (app : AppState) :
    (∀ ops, (Machine.run step (.opened app) ops).1.page.msgs =
        transcript (Machine.run step (.opened app) ops).2 ∧
      (numbers (Machine.run step (.opened app) ops).2).Pairwise (· < ·)) ↔ Idle app := by
  constructor
  · intro hruns stream hstream hkind
    -- Otherwise the chat that is under way ends first, and the page sends another message
    -- while the chat of its own is still under way.
    by_contra hphase
    obtain ⟨n, hget⟩ := List.mem_iff_getElem?.mp hstream
    obtain ⟨ops, d, hrun, hpage, htokens, hget'⟩ := exists_overtaken hget hkind hphase
    have htoken : app.tokens.length < d.app.tokens.length := by
      rw [htokens, List.length_append]
      exact Nat.lt_succ_self _
    have hcancelled : d.app.isCancelled app.tokens.length = false := by
      rw [AppState.isCancelled, htokens, List.getD_append_right _ _ _ _ (Nat.le_refl _),
        Nat.sub_self]
      rfl
    obtain ⟨d', hrun', hmsgs⟩ := overtaken (by rw [hpage]) hget' rfl (by rw [hpage])
      Phase.noConfusion htoken hcancelled
    have hshown := (hruns (ops ++ [.send true "b", .answer app.streams.length .accepted,
      .answer app.streams.length (.item "x")])).1
    rw [Machine.run_append, hrun, hrun', hmsgs, hpage] at hshown
    -- In the transcript the piece stands before that message.
    simp [transcript, exchanges, exchangeMsgs, reply, Entry.exchange?, Entry.item?]
      at hshown
  · intro hidle ops
    have hinv := Inv.run hidle ops
    exact ⟨hinv.msgs, hinv.ordered⟩

/-! ### Being busy -/

/-- While no chat is under way, a page that is busy stays so. -/
theorem step_stuck {d : Desktop} (hidle : Idle d.app) (hbusy : d.page.busy = true) (op : Op) :
    Idle (step d op).1.app ∧ (step d op).1.page.busy = true := by
  have hcancel : ∀ sessionId, Idle (d.app.cancelAbort sessionId) := by
    intro sessionId
    rw [AppState.cancelAbort]
    split
    · exact hidle
    · exact hidle
  rcases op with session | ⟨connected, text⟩ | - | ⟨connected, sid⟩ | sid | ⟨n, answer⟩
  · exact ⟨hidle, hbusy⟩
  · rw [step, if_pos (.inr hbusy)]
    exact ⟨hidle, hbusy⟩
  · rw [step, if_pos hbusy]
    exact ⟨hcancel _, hbusy⟩
  · refine ⟨?_, hbusy⟩
    rcases connected with - | -
    · exact hidle
    · intro stream hstream hkind
      rcases List.mem_append.mp hstream with h | h
      · exact hidle stream h hkind
      · rw [List.mem_singleton.mp h] at hkind
        cases hkind
  · exact ⟨hcancel _, hbusy⟩
  · rcases hstream : d.app.streams[n]? with - | stream
    · rw [step, AppState.receive, hstream]
      exact ⟨hidle, hbusy⟩
    rcases hreceive : stream.receive (d.app.isCancelled stream.abort) answer with ⟨stream', notices⟩
    have hturn : Turn stream (stream', notices) := hreceive ▸ receive_turn stream _ answer
    -- What is heard of chats that have finished is nothing, and agents are passed over.
    have hfoldl : notices.foldl ChatPage.hear d.page = d.page := by
      rcases hkind : stream.kind with - | -
      · have hphase := hidle stream (List.mem_of_getElem? hstream) hkind
        rw [receive_finished hphase] at hreceive
        rw [← (Prod.mk.inj hreceive).2]
        rfl
      · exact (hturn.passed_over (fun h => absurd (hkind.symm.trans h) StreamKind.noConfusion)).2
    rw [step_answer hstream hreceive]
    refine ⟨fun other hother hkind => ?_, ?_⟩
    · rcases List.mem_or_eq_of_mem_set hother with h | rfl
      · exact hidle other h hkind
      · have hphase := hidle stream (List.mem_of_getElem? hstream) (hturn.kind_eq ▸ hkind)
        rw [receive_finished hphase] at hreceive
        rw [← (Prod.mk.inj hreceive).1]
        exact hphase
    · show (notices.foldl ChatPage.hear d.page).busy = true
      rw [hfoldl]
      exact hbusy

/-- A busy page can be got out of it exactly if a chat is under way. -/
theorem exists_not_busy_iff {d : Desktop} (hbusy : d.page.busy = true) :
    (∃ more, (Machine.run step d more).1.page.busy = false) ↔ ¬ Idle d.app := by
  constructor
  · rintro ⟨more, hmore⟩ hidle
    have hstuck : Idle (Machine.run step d more).1.app ∧
        (Machine.run step d more).1.page.busy = true :=
      Machine.run_induction (P := fun _ (d : Desktop) _ => Idle d.app ∧ d.page.busy = true)
        ⟨hidle, hbusy⟩ (fun _ op _ _ h => step_stuck h.1 h.2 op) more
    rw [hstuck.2] at hmore
    cases hmore
  · intro hidle
    obtain ⟨stream, hstream, hkind, hphase⟩ : ∃ stream ∈ d.app.streams,
        stream.kind = .chat ∧ stream.phase ≠ .finished := by
      by_contra hnone
      exact hidle fun stream hstream hkind => by
        by_contra hphase
        exact hnone ⟨stream, hstream, hkind, hphase⟩
    obtain ⟨n, hget⟩ := List.mem_iff_getElem?.mp hstream
    -- the reader goes back to the session of that chat, and its end is heard
    have hedited : (step d (.edit stream.sessionId)).1.app.streams[n]? = some stream := hget
    have haccepted := step_accepted hedited hphase
    have hget' :
        (step (step d (.edit stream.sessionId)).1 (.answer n .accepted)).1.app.streams[n]? =
          some { stream with phase := .streaming } := by
      rw [haccepted]
      exact List.getElem?_set_self (List.getElem?_eq_some_iff.mp hget).1
    have hsession : stream.sessionId =
        (step (step d (.edit stream.sessionId)).1 (.answer n .accepted)).1.page.session := by
      rw [haccepted]
      rfl
    have hended := step_ended hget' rfl hkind hsession
    refine ⟨[.edit stream.sessionId, .answer n .accepted, .answer n .ended], ?_⟩
    rw [Machine.run_cons, Machine.run_cons, Machine.run_cons, Machine.run_nil, hended]

/-- A page that is not busy waits for nothing, so no chat is under way. -/
theorem Inv.idle {log : List Entry} {d : Desktop} (hinv : Inv log d)
    (hbusy : d.page.busy = false) : Idle d.app := by
  intro stream hstream hkind
  by_contra hphase
  obtain ⟨n, hget⟩ := List.mem_iff_getElem?.mp hstream
  exact hinv.not_awaits hbusy n (hinv.live n stream hget hkind hphase)

/-- A message whose request is refused: its stream has finished, and the page has not heard of
it. -/
theorem refused_idle {d : Desktop} (hidle : Idle d.app) (hbusy : d.page.busy = false)
    {text : String} (htext : text ≠ "") :
    Idle (step (step d (.send true text)).1 (.answer d.app.streams.length .refused)).1.app ∧
      (step (step d (.send true text)).1
        (.answer d.app.streams.length .refused)).1.page.busy = true := by
  have hsend := step_send htext hbusy
  have hget : (step d (.send true text)).1.app.streams[d.app.streams.length]? =
      some ⟨.chat, d.page.session, d.app.tokens.length, .requested⟩ := by
    rw [hsend]
    exact List.getElem?_concat_length
  -- A refusal ends the stream without a notice, so the page does not hear of it.
  have hreceive : ∀ isCancelled, (⟨.chat, d.page.session, d.app.tokens.length, .requested⟩ :
      Stream).receive isCancelled (.refused : Answer String) =
        (⟨.chat, d.page.session, d.app.tokens.length, .finished⟩, []) := fun _ => rfl
  have hset : ∀ stream stream' : Stream,
      (d.app.streams ++ [stream]).set d.app.streams.length stream' =
        d.app.streams ++ [stream'] := by
    intro stream stream'
    rw [List.set_append_right _ _ (Nat.le_refl _), Nat.sub_self]
    rfl
  rw [step_answer hget (hreceive _), hsend]
  refine ⟨fun stream hstream hkind => ?_, rfl⟩
  rw [hset] at hstream
  rcases List.mem_append.mp hstream with h | h
  · exact hidle stream h hkind
  · rw [List.mem_singleton.mp h]

/-- **Being busy.**  Where no chat was under way when the page was opened, it is busy in every
run exactly if it waits for the end of the stream of the last message; and then something
can happen after which it is not busy exactly if a chat is still under way.  So a request
that the server refuses leaves it busy for good, and nothing can be sent. -/
theorem busy_iff {app : AppState} (hidle : Idle app) (ops : List Op) :
    ((Machine.run step (.opened app) ops).1.page.busy = true ↔
      ∃ n, Awaits (Machine.run step (.opened app) ops).2 n) ∧
    ((Machine.run step (.opened app) ops).1.page.busy = true →
      ((∃ more,
        (Machine.run step (Machine.run step (.opened app) ops).1 more).1.page.busy = false) ↔
          ¬ Idle (Machine.run step (.opened app) ops).1.app)) ∧
    ∀ text, text ≠ "" → (Machine.run step (.opened app) ops).1.page.busy = false →
      ∀ more, (Machine.run step (.opened app) (ops ++ [.send true text,
        .answer (Machine.run step (.opened app) ops).1.app.streams.length .refused] ++
          more)).1.page.busy = true := by
  refine ⟨(Inv.run hidle ops).busy, exists_not_busy_iff, fun text htext hbusy more => ?_⟩
  obtain ⟨hidle', hbusy'⟩ := refused_idle ((Inv.run hidle ops).idle hbusy) hbusy htext
  rw [Machine.run_append, Machine.run_append, Machine.run_cons, Machine.run_cons, Machine.run_nil]
  by_contra hmore
  exact (exists_not_busy_iff hbusy').mp ⟨more, (Bool.not_eq_true _).mp hmore⟩ hidle'

/-- A chat whose request is refused. -/
theorem busy_iff_refused :
    ¬ ∃ more, (Machine.run step (Machine.run step (.opened .new)
      [.send true "hello", .answer 0 .refused]).1 more).1.page.busy = false := by
  have hidle : Idle .new := fun stream h => by cases h
  rw [(busy_iff hidle [.send true "hello", .answer 0 .refused]).2.1 (by decide), not_not]
  unfold Idle
  decide

end GuiChat

end AgenticIde
