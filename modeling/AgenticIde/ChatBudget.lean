/-
AgenticIde/ChatBudget.lean

The token budget of a conversation.

A session trims its working memory after every message, but trimming only drops chunks, and
a session has none: what bounds the memory is the number of entries the window holds.  The
window is therefore the last entries of the conversation, up to that number (`after_ctx`),
and it keeps within the budget exactly when every such block of consecutive messages does
(`memoryTokens_withEntries_le_iff`).  A single message that is too long for the budget is
enough to leave it, and so are some short ones, if the window has room for them all.

How many entries the window has depends on the build as soon as four times the turns are no
machine integer: `memoryTokens_le_iff` is about the constructor as it is.  A build with
overflow checks makes no session then; one without wraps around, and may end with a window
of a single entry; and where the room for the window is more than a vector can have, the
constructor panics in either build.

A block of consecutive messages is an infix of the list of messages: every prefix of the
conversation is a state the session was in, and the window shows a suffix of it.
-/
import AgenticIde.ChatSession
import AgenticIde.ContextWindow

namespace AgenticIde

/-! ### Tokens -/

/-- The estimated tokens of some entries. -/
def tokensOf (items : List String) : Nat := items.foldl (fun n item => n + estimateTokens item) 0

theorem foldl_tokens (items : List String) (n : Nat) :
    items.foldl (fun n item => n + estimateTokens item) n = n + tokensOf items := by
  induction items generalizing n with
  | nil => rfl
  | cons item items ih =>
      rw [tokensOf, List.foldl_cons, List.foldl_cons, ih, ih (0 + _), Nat.zero_add, Nat.add_assoc]

theorem tokensOf_append (items items' : List String) :
    tokensOf (items ++ items') = tokensOf items + tokensOf items' := by
  rw [tokensOf, List.foldl_append, foldl_tokens]
  rfl

/-- A longer memory costs more. -/
theorem tokensOf_le_of_suffix {items items' : List String} (h : items <:+ items') :
    tokensOf items ≤ tokensOf items' := by
  obtain ⟨front, rfl⟩ := h
  rw [tokensOf_append]
  exact Nat.le_add_left _ _

/-! ### Conversations -/

/-- A message pushed into a session. -/
inductive ChatPush
  | user (content : String)
  | assistant (content : String)

/-- Its text. -/
def ChatPush.content : ChatPush → String
  | user content => content
  | assistant content => content

namespace ChatSession

/-- Push a message. -/
def receive (session : ChatSession) : ChatPush → ChatSession
  | .user content => session.pushUser content
  | .assistant content => session.pushAssistant content

/-- A session after some messages. -/
def after (session : ChatSession) (pushes : List ChatPush) : ChatSession :=
  pushes.foldl receive session

/-- The estimated tokens of the working memory a prompt shows. -/
def memoryTokens (session : ChatSession) : Nat := tokensOf session.ctx.window

theorem receive_ctx (session : ChatSession) (message : ChatPush) :
    (session.receive message).ctx = (session.ctx.push message.content).budgetTrim := by
  cases message <;> rfl

/-- **The working memory is the end of the conversation**: it holds its last
entries, and no chunks.  The budget is set and never bears on it: trimming throws
chunks away, and a session makes none. -/
theorem after_ctx (budgetTokens maxTurns items : Nat) (pushes : List ChatPush) :
    ((withEntries budgetTokens maxTurns items).after pushes).ctx =
      ⟨(pushes.map ChatPush.content).rtake (max items 1), max items 1, [],
        max budgetTokens 1⟩ := by
  induction pushes using List.reverseRecOn with
  | nil => simp [after, withEntries, ContextManager.withBudget, List.rtake]
  | append_singleton pushes message ih =>
      have hstep : (withEntries budgetTokens maxTurns items).after (pushes ++ [message]) =
          ((withEntries budgetTokens maxTurns items).after pushes).receive message := by
        simp [after]
      rw [hstep, receive_ctx, ih]
      set window := (pushes.map ChatPush.content).rtake (max items 1) with hwindow
      have hlength : window.length ≤ max items 1 := length_rtake_le _ _
      have hpush : (ContextManager.push ⟨window, max items 1, [], max budgetTokens 1⟩
          message.content).window = (window ++ [message.content]).rtake (max items 1) :=
        ContextManager.push_window (Nat.one_pos.trans_le (Nat.le_max_right _ _)) hlength
          message.content
      -- there is no chunk for the trimming to drop
      rw [ContextManager.budgetTrim_of_chunks rfl, List.map_append, List.map_singleton,
        ← rtake_concat_rtake, ← hwindow, ← hpush]
      rfl

/-- The working memory of so many entries stays within the budget throughout a conversation
exactly when every block of as many consecutive messages does. -/
theorem memoryTokens_withEntries_le_iff (budgetTokens maxTurns items : Nat)
    (pushes : List ChatPush) :
    (∀ pre, pre <+: pushes →
      ((withEntries budgetTokens maxTurns items).after pre).memoryTokens ≤ budgetTokens) ↔
      ∀ block, block <:+: pushes.map ChatPush.content → block.length ≤ max items 1 →
        tokensOf block ≤ budgetTokens := by
  have hmemory : ∀ pre, ((withEntries budgetTokens maxTurns items).after pre).memoryTokens =
      tokensOf ((pre.map ChatPush.content).rtake (max items 1)) := by
    intro pre
    rw [memoryTokens, after_ctx]
  constructor
  · -- a block is the end of what the window shows after its last message
    rintro h block ⟨front, rest, hsplit⟩ hlength
    obtain ⟨pre, post, rfl, hpre, -⟩ := List.map_eq_append_iff.mp hsplit.symm
    have hbudget := h pre (List.prefix_append pre post)
    rw [hmemory, hpre] at hbudget
    refine (tokensOf_le_of_suffix ?_).trans hbudget
    rw [List.rtake, List.length_append]
    have hdrop : front.length + block.length - max items 1 ≤ front.length := by omega
    rw [List.drop_append_of_le_length hdrop]
    exact List.suffix_append _ _
  · -- the window is such a block
    rintro h pre ⟨post, rfl⟩
    rw [hmemory]
    refine h _ ?_ (length_rtake_le _ _)
    rw [List.map_append]
    exact (List.drop_suffix _ _).isInfix.trans (List.prefix_append _ _).isInfix

/-- **The budget of a conversation.**  The working memory of a new session stays within the
budget throughout a conversation exactly when every block of consecutive messages that fits
the window does.  The window holds four entries a turn, as the build multiplies; where the
multiplication panics, or the room for the window is refused, there is no session. -/
theorem memoryTokens_le_iff (checks : OverflowChecks) (budgetTokens maxTurns : Nat)
    (pushes : List ChatPush) :
    (∀ session, new checks budgetTokens maxTurns = some session →
      ∀ pre, pre <+: pushes → (session.after pre).memoryTokens ≤ budgetTokens) ↔
    ∀ items, usizeMul checks maxTurns 4 = some items → max items 1 * 24 < UInt64.size / 2 →
      ∀ block, block <:+: pushes.map ChatPush.content → block.length ≤ max items 1 →
        tokensOf block ≤ budgetTokens := by
  -- The entries of the constructor are the product, once the build has made it, and only if
  -- there is room for so many.
  have hentries : ∀ items, entries checks maxTurns = some items ↔
      usizeMul checks maxTurns 4 = some items ∧ max items 1 * 24 < UInt64.size / 2 := by
    intro items
    simp only [entries, Option.bind_eq_bind, Option.bind_eq_some_iff, Option.ite_none_right_eq_some,
      capacityFits, decide_eq_true_eq, Option.some.injEq]
    constructor
    · rintro ⟨items', hmul, hfits, rfl⟩
      exact ⟨hmul, hfits⟩
    · rintro ⟨hmul, hfits⟩
      exact ⟨items, hmul, hfits, rfl⟩
  constructor
  -- With the number of entries fixed, both directions are the law of a session of that
  -- many.
  · intro h items hmul hfits
    have hnew : new checks budgetTokens maxTurns =
        some (withEntries budgetTokens maxTurns items) := by
      rw [new, (hentries items).mpr ⟨hmul, hfits⟩, Option.map_some]
    exact (memoryTokens_withEntries_le_iff budgetTokens maxTurns items pushes).mp (h _ hnew)
  · intro h session hnew
    obtain ⟨items, hitems, rfl⟩ := Option.map_eq_some_iff.mp hnew
    obtain ⟨hmul, hfits⟩ := (hentries items).mp hitems
    exact (memoryTokens_withEntries_le_iff budgetTokens maxTurns items pushes).mpr
      (h items hmul hfits)

/-- One message may exceed the budget by itself. -/
theorem memoryTokens_exceeds : ¬ ∀ session, new .off 1 1 = some session →
    ((session.after [.user "hello"]).memoryTokens ≤ 1) := by
  intro h
  exact absurd (h (empty 1 1) (by decide)) (by decide)

end ChatSession

end AgenticIde
