/-
AgenticIde/Context.lean

The working memory fed to the LLM (`context_manager.rs`): a rolling window of raw observations
and the typed chunks, under a token budget.  Chat and the planner push into the window and
read it back as a prompt.

The two parts are bounded in two ways, and neither bound knows of the other part.  The window
has a number of entries, and a push into a full one drops the oldest; the chunks have a
budget, and trimming drops the earliest of the lowest priority until the estimates of all that
is there, the window with it, fit, or only chunks of high priority are left.

Sums of estimates are exact numbers here.  The source adds machine integers, and what becomes
of a sum that does not fit is in `ContextTrim` and `PlannerLoops`, which have the same
operations over such sums and say where the two agree.  Compression is in `ContextCompress`.
-/
import Mathlib.Data.List.Basic

namespace AgenticIde

/-- Where a context chunk was gathered from. -/
inductive ContextSource
  | openFile
  | selection
  | diagnostic
  | symbol
  | recentEdit
  deriving DecidableEq

/-- Stable string form. -/
def ContextSource.asStr : ContextSource → String
  | openFile => "OpenFile"
  | selection => "Selection"
  | diagnostic => "Diagnostic"
  | symbol => "Symbol"
  | recentEdit => "RecentEdit"

/-- Priority tier for budget dropping; low is dropped first. -/
inductive Priority
  | low
  | medium
  | high
  deriving DecidableEq

/-- The order of the tiers. -/
def Priority.rank : Priority → Nat
  | low => 0
  | medium => 1
  | high => 2

/-- Rough token estimate: four octets a token, rounded up. -/
def estimateTokens (text : String) : Nat := (text.utf8ByteSize + 3) / 4

/-- A single gathered piece of context. -/
structure ContextChunk where
  source : ContextSource
  uri : String
  content : String
  priority : Priority
  tokenEst : Nat
  deriving DecidableEq

/-- Build a chunk and pre-compute its token estimate. -/
def ContextChunk.new (source : ContextSource) (uri content : String) (priority : Priority) :
    ContextChunk :=
  ⟨source, uri, content, priority, estimateTokens content⟩

/-- Rolling context window, chunk store and token budget. -/
structure ContextManager where
  window : List String
  maxItems : Nat
  chunks : List ContextChunk
  budgetTokens : Nat
  deriving DecidableEq

namespace ContextManager

/-- A manager keeping the last `maxItems` raw observations. -/
def new (maxItems : Nat) : ContextManager := ⟨[], max maxItems 1, [], 4096⟩

/-- A manager with an explicit token budget. -/
def withBudget (maxItems budgetTokens : Nat) : ContextManager :=
  ⟨[], max maxItems 1, [], max budgetTokens 1⟩

/-- Append a raw observation, evicting the oldest if the window is full. -/
def push (ctx : ContextManager) (item : String) : ContextManager :=
  let window := if ctx.window.length = ctx.maxItems then ctx.window.tail else ctx.window
  { ctx with window := window ++ [item] }

/-- Add a typed chunk. -/
def addChunk (ctx : ContextManager) (chunk : ContextChunk) : ContextManager :=
  { ctx with chunks := ctx.chunks ++ [chunk] }

/-- Current total of estimated tokens, window and chunks. -/
def totalTokens (ctx : ContextManager) : Nat :=
  ctx.window.foldl (fun n item => n + estimateTokens item) 0 +
    ctx.chunks.foldl (fun n chunk => n + chunk.tokenEst) 0

/-- Remove the earliest chunk of the lowest priority, with that priority. -/
def dropWorst : List ContextChunk → Option (Priority × List ContextChunk)
  | [] => none
  | c :: cs =>
      match dropWorst cs with
      | none => some (c.priority, [])
      | some (p, rest) =>
          if p.rank < c.priority.rank then some (p, c :: rest) else some (c.priority, cs)

/-- Drop chunks while over budget; high-priority chunks are never dropped.
`n` bounds the rounds by the number of chunks. -/
def trimRounds : Nat → ContextManager → ContextManager
  | 0, ctx => ctx
  | n + 1, ctx =>
      if ctx.totalTokens ≤ ctx.budgetTokens then ctx
      else
        match dropWorst ctx.chunks with
        -- the window is never trimmed: without chunks it stays over budget
        | none => ctx
        | some (.high, _) => ctx
        | some (_, rest) => trimRounds n { ctx with chunks := rest }

/-- Trim chunks to fit the token budget. -/
def budgetTrim (ctx : ContextManager) : ContextManager := trimRounds ctx.chunks.length ctx

/-- The raw window as one context string, each line with its index. -/
def snapshotFrom (i : Nat) : List String → String
  | [] => ""
  | s :: rest => s!"[{i}] {s}\n" ++ snapshotFrom (i + 1) rest

/-- Serialize the raw window for the LLM. -/
def snapshot (ctx : ContextManager) : String := snapshotFrom 0 ctx.window

/-- The prompt-ready context: chunks first, then the rolling window. -/
def buildPrompt (ctx : ContextManager) : String :=
  "=== Context ===\n" ++
    String.join (ctx.chunks.map fun c => s!"[{c.source.asStr}] {c.uri}: {c.content}\n") ++
    "=== Working memory ===\n" ++ ctx.snapshot

end ContextManager

end AgenticIde
