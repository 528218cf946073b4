/-
AgenticIde/ChatSession.lean

The rolling state of a conversation (`chat.rs`): attachments, turns, and the prompt the LLM
sees.  The prompt shows the working memory, not the history; `push` feeds both.

A session is made for so many turns, and its working memory for four times as many entries.
That product is one of machine integers, and room for the entries is asked for at once, so
`new` may give no session, or one with fewer entries (`entries`); for the numbers the server
has it gives `empty` (`new_of_lt`).

A session never fails once it is there.  A turn beyond the number of turns drops the oldest
one of the history, and an entry beyond the number of entries the oldest one of the working
memory; so the prompt reaches further back than the history does.

The budget of a session is that of its working memory, which has no chunks to drop; what that
means for a prompt is in `ChatBudget`.
-/
import AgenticIde.Context
import AgenticIde.Lib.Str
import AgenticIde.Lib.Usize

namespace AgenticIde

/-- A parsed attachment reference. -/
inductive Attachment
  | file (path : String)
  | symbol (name : String)
  | raw (text : String)
  deriving DecidableEq

/-- Parse raw attachment strings. -/
def parseAttachments (raw : List String) : List Attachment :=
  raw.map fun s =>
    match Str.stripPrefix "@file:" s with
    | some path => .file path
    | none =>
        match Str.stripPrefix "@symbol:" s with
        | some name => .symbol name
        | none => .raw s

/-- One exchanged chat message. -/
structure ChatTurn where
  role : String
  content : String
  deriving DecidableEq

/-- Rolling multi-turn chat state, bound to a token budget. -/
structure ChatSession where
  history : List ChatTurn
  ctx : ContextManager
  maxTurns : Nat
  budgetTokens : Nat
  deriving DecidableEq

namespace ChatSession

/-- An empty session whose working memory holds so many entries. -/
def withEntries (budgetTokens maxTurns items : Nat) : ChatSession :=
  ⟨[], ContextManager.withBudget items budgetTokens, max maxTurns 1, max budgetTokens 1⟩

/-- The entries `with_budget` is asked to keep: none where the multiplication panics, or
where there is no room for so many strings of three words each. -/
def entries (checks : OverflowChecks) (maxTurns : Nat) : Option Nat := do
  let items ← usizeMul checks maxTurns 4
  if capacityFits 24 (max items 1) then some items else none

/-- An empty session, where the constructor does not panic. -/
def new (checks : OverflowChecks) (budgetTokens maxTurns : Nat) : Option ChatSession :=
  (entries checks maxTurns).map (withEntries budgetTokens maxTurns)

/-- The empty session of a number of turns that a machine can count four times over. -/
def empty (budgetTokens maxTurns : Nat) : ChatSession :=
  withEntries budgetTokens maxTurns (maxTurns * 4)

/-- With room for its entries, a session is made, and in either build the same. -/
theorem new_of_lt (checks : OverflowChecks) (budgetTokens : Nat) {maxTurns : Nat}
    (h : (maxTurns * 4 + 1) * 24 < UInt64.size / 2) :
    new checks budgetTokens maxTurns = some (empty budgetTokens maxTurns) := by
  have hmul : usizeMul checks maxTurns 4 = some (maxTurns * 4) := by
    apply usizeMul_of_lt
    omega
  have hfits : capacityFits 24 (max (maxTurns * 4) 1) = true := by
    apply decide_eq_true
    omega
  rw [new, entries, hmul]
  show Option.map _ (if capacityFits 24 (max (maxTurns * 4) 1) = true then _ else _) = _
  rw [if_pos hfits]
  rfl

/-- Push a turn, evicting the oldest over the cap. -/
def push (session : ChatSession) (role content : String) : ChatSession :=
  let history := session.history ++ [⟨role, content⟩]
  { session with
    history := if session.maxTurns < history.length then history.tail else history
    ctx := (session.ctx.push content).budgetTrim }

def pushUser (session : ChatSession) (content : String) : ChatSession :=
  session.push "user" content

def pushAssistant (session : ChatSession) (content : String) : ChatSession :=
  session.push "assistant" content

/-- One attachment line of a prompt. -/
def attachmentLine : Attachment → String
  | .file f => s!"@file:{f}\n"
  | .symbol s => s!"@symbol:{s}\n"
  | .raw r => s!"@raw:{r}\n"

/-- The prompt the LLM sees: attachments, user message, working memory. -/
def composePrompt (session : ChatSession) (userMsg : String) (attachments : List Attachment) :
    String :=
  "=== Chat ===\n" ++ String.join (attachments.map attachmentLine) ++ s!"user: {userMsg}\n" ++
    "=== History + context ===\n" ++ session.ctx.buildPrompt

end ChatSession

end AgenticIde
