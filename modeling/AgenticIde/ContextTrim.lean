/-
AgenticIde/ContextTrim.lean

What trimming drops (`budget_trim` of `context_manager.rs`).

Each round sums the estimates again, scans for the earliest chunk of the lowest priority and
removes it by its index.  What a trimming drops is the shortest prefix of the low chunks and
then the medium ones that brings the total within the budget (`Trimmed`), as long as the
sums come out right: an estimate is any machine integer, so a sum may overflow.

The scan is a fold that remembers an index and a priority; `worstChunk_spec` says what it
finds, in the terms of `Lib.RankOrder`, and it is not looked at again.  The rounds go
through the chunks in an order that is known beforehand (`dropOrder`): removing a chunk does
not change the order of the others.  So after `k` rounds what is left is all without the
first `k` chunks of that order (`trimLoop_afterDropping`), and where the rounds stop is a
question about the totals alone (`StopsAt`).

A build with overflow checks panics at the first sum that is too large, and there is no
trimming.  A build without wraps around, and may then stop too early; `SoundTotals` asks
that no total over the budget comes out as one within it.  In exact arithmetic the loop is
`budgetTrim`, the definition that the other modules use where sums cannot overflow
(`trimLoop_eq_trimRounds`).
-/
import AgenticIde.Context
import AgenticIde.Lib.RankOrder
import AgenticIde.Lib.Usize
import Mathlib

namespace AgenticIde

namespace ContextManager

/-- The total of the estimated tokens, as the program adds them up. -/
def usizeTotal (checks : OverflowChecks) (ctx : ContextManager) : Option Nat := do
  let window ← usizeSum checks (ctx.window.map estimateTokens)
  let chunks ← usizeSum checks (ctx.chunks.map (·.tokenEst))
  usizeAdd checks window chunks

theorem foldl_add_eq_sum {α : Type*} (f : α → Nat) (xs : List α) (n : Nat) :
    xs.foldl (fun n x => n + f x) n = n + (xs.map f).sum := by
  induction xs generalizing n with
  | nil => rfl
  | cons x xs ih => rw [List.foldl_cons, ih, List.map_cons, List.sum_cons, Nat.add_assoc]

theorem totalTokens_eq (ctx : ContextManager) :
    ctx.totalTokens =
      (ctx.window.map estimateTokens).sum + (ctx.chunks.map (·.tokenEst)).sum := by
  rw [totalTokens, foldl_add_eq_sum, foldl_add_eq_sum, Nat.zero_add, Nat.zero_add]

theorem usizeTotal_on (ctx : ContextManager) :
    ctx.usizeTotal .on =
      if ctx.totalTokens < UInt64.size then some ctx.totalTokens else none := by
  rw [usizeTotal, usizeSum_on, usizeSum_on, totalTokens_eq]
  by_cases hwindow : (ctx.window.map estimateTokens).sum < UInt64.size
  · by_cases hchunks : (ctx.chunks.map (·.tokenEst)).sum < UInt64.size
    · rw [if_pos hwindow, if_pos hchunks]
      rfl
    · rw [if_pos hwindow, if_neg hchunks, if_neg (by omega)]
      rfl
  · have htotal : ¬ (ctx.window.map estimateTokens).sum + (ctx.chunks.map (·.tokenEst)).sum <
        UInt64.size := by omega
    rw [if_neg hwindow, if_neg htotal]
    rfl

theorem usizeTotal_off (ctx : ContextManager) :
    ctx.usizeTotal .off = some (ctx.totalTokens % UInt64.size) := by
  rw [usizeTotal, usizeSum_off, usizeSum_off, totalTokens_eq, Nat.add_mod]
  rfl

theorem usizeTotal_of_lt (checks : OverflowChecks) {ctx : ContextManager}
    (h : ctx.totalTokens < UInt64.size) : ctx.usizeTotal checks = some ctx.totalTokens := by
  cases checks with
  | on => rw [usizeTotal_on, if_pos h]
  | off => rw [usizeTotal_off, Nat.mod_eq_of_lt h]

end ContextManager

/-! ### The scan -/

/-- One chunk of the scan: it becomes the worst so far if there is none yet, or
its priority is lower. -/
def scanChunk (worst : Option Nat × Priority) (chunk : ContextChunk × Nat) :
    Option Nat × Priority :=
  if worst.1.isNone || chunk.1.priority.rank < worst.2.rank then
    (some chunk.2, chunk.1.priority)
  else worst

/-- The index of the lowest-priority chunk (ties: earliest), and its priority. -/
def worstChunk (chunks : List ContextChunk) : Option Nat × Priority :=
  chunks.zipIdx.foldl scanChunk (none, .high)

/-- The rank of a chunk. -/
def ContextChunk.rank (chunk : ContextChunk) : Nat := chunk.priority.rank

theorem ContextChunk.rank_lt_two_iff (chunk : ContextChunk) :
    chunk.rank < 2 ↔ chunk.priority ≠ .high := by
  unfold ContextChunk.rank
  cases chunk.priority <;> simp [Priority.rank]

/-- **What the scan finds**: the place of the first chunk of the lowest rank, with
its priority.  A later chunk replaces it only if it is strictly lower. -/
theorem worstChunk_spec (chunks : List ContextChunk) (hne : chunks ≠ []) :
    ∃ pre c post, chunks = pre ++ c :: post ∧ worstChunk chunks = (some pre.length, c.priority) ∧
      RankOrder.FirstLowest ContextChunk.rank pre c post := by
  induction chunks using List.reverseRecOn with
  | nil => exact absurd rfl hne
  | append_singleton chunks c ih =>
      have hscan : worstChunk (chunks ++ [c]) =
          scanChunk (worstChunk chunks) (c, chunks.length) := by
        rw [worstChunk, List.zipIdx_append, List.foldl_append, Nat.zero_add]
        rfl
      rw [hscan]
      rcases List.eq_nil_or_concat chunks with rfl | ⟨front, last, hchunks⟩
      · exact ⟨[], c, [], rfl, rfl, fun x hx => (by cases hx), fun x hx => (by cases hx)⟩
      · obtain ⟨pre, w, post, hsplit, hworst, hlowest⟩ :=
          ih (by simp [hchunks])
        rw [hworst]
        by_cases hlt : c.priority.rank < w.priority.rank
        · -- the new chunk is lower than all before it
          refine ⟨chunks, c, [], rfl, if_pos (by simpa using hlt), ?_, fun x hx => (by cases hx)⟩
          intro x hx
          exact Nat.lt_of_lt_of_le hlt (hlowest.le x (hsplit ▸ hx))
        · refine ⟨pre, w, post ++ [c], ?_, if_neg (by simpa using hlt), hlowest.before, ?_⟩
          · rw [hsplit, List.append_assoc]
            rfl
          · intro x hx
            rcases List.mem_append.mp hx with hpost | hlast
            · exact hlowest.after x hpost
            · rw [List.mem_singleton.mp hlast]
              exact Nat.not_lt.mp hlt

namespace ContextManager

/-- The report of a trimming. -/
structure TrimReport where
  dropped : Nat
  kept : Nat
  deriving DecidableEq

/-- The rounds of a trimming; `fuel` bounds their number. -/
def trimLoop (checks : OverflowChecks) :
    Nat → Nat → ContextManager → Option (TrimReport × ContextManager)
  | 0, _, _ => none
  | fuel + 1, dropped, ctx =>
      match ctx.usizeTotal checks with
      | none => none
      | some total =>
          if ctx.budgetTokens < total && !ctx.chunks.isEmpty then
            match worstChunk ctx.chunks with
            -- high-priority chunks are never dropped here
            | (_, .high) => some (⟨dropped, ctx.chunks.length⟩, ctx)
            | (some i, _) =>
                trimLoop checks fuel (dropped + 1) { ctx with chunks := ctx.chunks.eraseIdx i }
            | (none, _) => some (⟨dropped, ctx.chunks.length⟩, ctx)
          else some (⟨dropped, ctx.chunks.length⟩, ctx)

/-- Trim chunks to fit the token budget, with the report. -/
def budgetTrimReport (checks : OverflowChecks) (ctx : ContextManager) :
    Option (TrimReport × ContextManager) :=
  trimLoop checks (ctx.chunks.length + 1) 0 ctx

end ContextManager

/-! ### The order of dropping -/

/-- The chunks that may be dropped, with their places: the low ones, then the
medium ones. -/
def dropOrder (chunks : List ContextChunk) : List (ContextChunk × Nat) :=
  chunks.zipIdx.filter (·.1.priority = .low) ++ chunks.zipIdx.filter (·.1.priority = .medium)

/-- The chunks without those at some places. -/
def without (chunks : List ContextChunk) (dropped : List (ContextChunk × Nat)) :
    List ContextChunk :=
  (chunks.zipIdx.filter (· ∉ dropped)).map Prod.fst

/-- Rounds of dropping from the chunks with their places. -/
abbrev ChunkDrops (chunks : List ContextChunk) :
    List (ContextChunk × Nat) → List (ContextChunk × Nat) → Prop :=
  RankOrder.Drops (fun c => c.1.rank) 2 chunks.zipIdx

theorem Priority.rank_inj {p q : Priority} (h : p.rank = q.rank) : p = q := by
  cases p <;> cases q <;> first | rfl | cases h

theorem filter_rank_eq {α : Type*} (priority : α → Priority) (p : Priority) (xs : List α) :
    xs.filter (fun x => (priority x).rank = p.rank) = xs.filter (fun x => priority x = p) := by
  apply List.filter_congr
  intro x _
  exact decide_eq_decide.mpr ⟨Priority.rank_inj, congrArg Priority.rank⟩

theorem order_eq_dropOrder (chunks : List ContextChunk) :
    RankOrder.order (fun c : ContextChunk × Nat => c.1.rank) 2 chunks.zipIdx =
      dropOrder chunks := by
  rw [dropOrder, ← filter_rank_eq (fun c : ContextChunk × Nat => c.1.priority),
    ← filter_rank_eq (fun c : ContextChunk × Nat => c.1.priority)]
  rfl

variable {chunks : List ContextChunk} {dropped left : List (ContextChunk × Nat)}

theorem ChunkDrops.map_fst_eq (h : ChunkDrops chunks dropped left) :
    left.map Prod.fst = without chunks dropped := by
  have hnodup : chunks.zipIdx.Nodup := List.Nodup.of_map _ (List.nodup_zipIdx_map_snd chunks)
  rw [h.eq_filter hnodup, without]
  congr 1
  exact List.filter_congr fun x _ => decide_eq_decide.mpr Iff.rfl

theorem exists_chunkDrops {k : Nat} (hk : k ≤ (dropOrder chunks).length) :
    ∃ left, ChunkDrops chunks ((dropOrder chunks).take k) left := by
  rw [← order_eq_dropOrder] at hk ⊢
  exact RankOrder.exists_drops hk

/-- The rounds leave nothing to drop where the chunks left have high priority. -/
theorem order_eq_nil_iff (tagged : List (ContextChunk × Nat)) :
    RankOrder.order (fun c : ContextChunk × Nat => c.1.rank) 2 tagged = [] ↔
      ∀ c ∈ tagged.map Prod.fst, 2 ≤ c.rank := by
  rw [RankOrder.order_eq_nil_iff, List.forall_mem_map]

/-- Another round drops the next chunk of the order. -/
theorem ChunkDrops.next (h : ChunkDrops chunks dropped left) {pre post : List ContextChunk}
    {c : ContextChunk} (hsplit : left.map Prod.fst = pre ++ c :: post)
    (hlowest : RankOrder.FirstLowest ContextChunk.rank pre c post) (hc : c.rank < 2) :
    without chunks ((dropOrder chunks).take (dropped.length + 1)) = pre ++ post := by
  obtain ⟨pre', rest, rfl, rfl, hrest⟩ := List.map_eq_append_iff.mp hsplit
  obtain ⟨a, post', rfl, rfl, rfl⟩ := List.map_eq_cons_iff.mp hrest
  have hlowest' : RankOrder.FirstLowest (fun c : ContextChunk × Nat => c.1.rank) pre' a post' :=
    ⟨fun x hx => hlowest.before x.1 (List.mem_map_of_mem hx),
      fun x hx => hlowest.after x.1 (List.mem_map_of_mem hx)⟩
  have hround : ChunkDrops chunks (dropped ++ [a]) (pre' ++ post') := h.round hlowest' hc
  have htake := hround.take_order
  rw [order_eq_dropOrder, List.length_append, List.length_singleton] at htake
  rw [htake, ← hround.map_fst_eq, List.map_append]

/-- The chunks of a priority are those at the places of its rank. -/
theorem filter_priority_map_fst (p : Priority) (tagged : List (ContextChunk × Nat)) :
    (tagged.map Prod.fst).filter (·.priority = p) =
      (tagged.filter (·.1.rank = p.rank)).map Prod.fst := by
  rw [List.filter_map]
  congr 1
  exact (filter_rank_eq (fun c : ContextChunk × Nat => c.1.priority) p tagged).symm

namespace ContextManager

/-- The state without the first `k` chunks of the order. -/
def afterDropping (ctx : ContextManager) (k : Nat) : ContextManager :=
  { ctx with chunks := without ctx.chunks ((dropOrder ctx.chunks).take k) }

theorem without_nil (chunks : List ContextChunk) : without chunks [] = chunks := by
  have hall : chunks.zipIdx.filter (· ∉ ([] : List (ContextChunk × Nat))) = chunks.zipIdx :=
    List.filter_eq_self.mpr fun x _ => by simp
  rw [without, hall, List.zipIdx_map_fst]

theorem afterDropping_zero (ctx : ContextManager) : ctx.afterDropping 0 = ctx := by
  rw [afterDropping, List.take_zero, without_nil]

/-- Fewer chunks never cost more. -/
theorem totalTokens_le_of_sublist (ctx : ContextManager) {chunks chunks' : List ContextChunk}
    (h : chunks'.Sublist chunks) :
    totalTokens { ctx with chunks := chunks' } ≤ totalTokens { ctx with chunks := chunks } := by
  rw [totalTokens_eq, totalTokens_eq]
  exact Nat.add_le_add_left ((h.map _).sum_le_sum (by simp)) _

theorem totalTokens_afterDropping_le (ctx : ContextManager) {j k : Nat} (h : j ≤ k) :
    (ctx.afterDropping k).totalTokens ≤ (ctx.afterDropping j).totalTokens := by
  apply totalTokens_le_of_sublist
  apply List.Sublist.map
  apply List.monotone_filter_right
  intro x hx
  have hfront : (dropOrder ctx.chunks).take j <+: (dropOrder ctx.chunks).take k :=
    List.take_prefix_take_left h
  simp only [decide_eq_true_iff] at hx ⊢
  exact fun hmem => hx (hfront.subset hmem)

/-- A round that finds nothing to drop. -/
theorem trimLoop_stop (checks : OverflowChecks) (fuel dropped : Nat) {ctx : ContextManager}
    {total : Nat} (htotal : ctx.usizeTotal checks = some total)
    (hstop : total ≤ ctx.budgetTokens ∨ ∀ c ∈ ctx.chunks, c.priority = .high) :
    trimLoop checks (fuel + 1) dropped ctx = some (⟨dropped, ctx.chunks.length⟩, ctx) := by
  simp only [trimLoop, htotal]
  split
  case isFalse => rfl
  case isTrue hover =>
    rw [Bool.and_eq_true, decide_eq_true_iff, Bool.not_eq_true', List.isEmpty_eq_false_iff]
      at hover
    have hhigh := hstop.resolve_left (Nat.not_le.mpr hover.1)
    obtain ⟨pre, c, post, hsplit, hworst, -⟩ := worstChunk_spec ctx.chunks hover.2
    have hc : c.priority = .high := by
      apply hhigh c
      rw [hsplit]
      exact List.mem_append_right _ List.mem_cons_self
    rw [hworst, hc]

/-- A round that drops the earliest chunk of the lowest priority. -/
theorem trimLoop_drop (checks : OverflowChecks) (fuel dropped : Nat) {ctx : ContextManager}
    {total : Nat} (htotal : ctx.usizeTotal checks = some total)
    (hover : ctx.budgetTokens < total) (hlow : ∃ c ∈ ctx.chunks, c.rank < 2) :
    ∃ pre c post, ctx.chunks = pre ++ c :: post ∧
      RankOrder.FirstLowest ContextChunk.rank pre c post ∧ c.rank < 2 ∧
      trimLoop checks (fuel + 1) dropped ctx =
        trimLoop checks fuel (dropped + 1) { ctx with chunks := pre ++ post } := by
  -- The chunk that is found is no higher than the given one, so it is not a high one, and
  -- the round goes on.
  obtain ⟨low, hmem, hrank⟩ := hlow
  have hne := List.ne_nil_of_mem hmem
  obtain ⟨pre, c, post, hsplit, hworst, hlowest⟩ := worstChunk_spec ctx.chunks hne
  have hc : c.rank < 2 := Nat.lt_of_le_of_lt (hlowest.le low (hsplit ▸ hmem)) hrank
  have herase : ctx.chunks.eraseIdx pre.length = pre ++ post := by
    rw [hsplit, List.eraseIdx_append_of_length_le (Nat.le_refl _), Nat.sub_self]
    rfl
  refine ⟨pre, c, post, hsplit, hlowest, hc, ?_⟩
  have hgo : (decide (ctx.budgetTokens < total) && !ctx.chunks.isEmpty) = true := by
    rw [Bool.and_eq_true, decide_eq_true_iff, Bool.not_eq_true', List.isEmpty_eq_false_iff]
    exact ⟨hover, hne⟩
  simp only [trimLoop, htotal, if_pos hgo, hworst]
  cases hpriority : c.priority with
  | low => simp only [herase]
  | medium => simp only [herase]
  | high => exact absurd hpriority (c.rank_lt_two_iff.mp hc)

/-- **One round.** While the total is over the budget and the order is not
exhausted, the next chunk of it is removed.  So the state after a round is again
that of a prefix dropped, one longer than before. -/
theorem trimLoop_afterDropping (checks : OverflowChecks) (ctx : ContextManager) (fuel : Nat)
    {k : Nat} (hk : k ≤ (dropOrder ctx.chunks).length) :
    trimLoop checks (fuel + 1) k (ctx.afterDropping k) =
      match (ctx.afterDropping k).usizeTotal checks with
      | none => none
      | some total =>
          if ctx.budgetTokens < total ∧ k < (dropOrder ctx.chunks).length then
            trimLoop checks fuel (k + 1) (ctx.afterDropping (k + 1))
          else some (⟨k, (ctx.afterDropping k).chunks.length⟩, ctx.afterDropping k) := by
  obtain ⟨left, hdrops⟩ := exists_chunkDrops hk
  have hchunks : (ctx.afterDropping k).chunks = left.map Prod.fst := hdrops.map_fst_eq.symm
  have horder := hdrops.order_eq
  rw [order_eq_dropOrder] at horder
  cases htotal : (ctx.afterDropping k).usizeTotal checks with
  | none => simp only [trimLoop, htotal]
  | some total =>
      show _ = if _ then _ else _
      split
      case isTrue hgo =>
        have hlow : ∃ c ∈ (ctx.afterDropping k).chunks, c.rank < 2 := by
          by_contra hall
          push Not at hall
          rw [hchunks] at hall
          rw [(order_eq_nil_iff left).mpr hall, List.append_nil] at horder
          have hlength := congrArg List.length horder
          rw [List.length_take] at hlength
          omega
        obtain ⟨pre, c, post, hsplit, hlowest, hc, hround⟩ :=
          trimLoop_drop checks fuel k htotal hgo.1 hlow
        have hnext := hdrops.next (hchunks.symm.trans hsplit) hlowest hc
        rw [List.length_take, min_eq_left hk] at hnext
        rw [hround, ← hnext]
        rfl
      case isFalse hstop =>
        apply trimLoop_stop checks fuel k htotal
        rcases Nat.lt_or_ge ctx.budgetTokens total with hover | hfits
        · -- the order is exhausted
          right
          have hexhausted : (dropOrder ctx.chunks).length ≤ k :=
            Nat.not_lt.mp fun hlt => hstop ⟨hover, hlt⟩
          rw [List.take_of_length_le hexhausted, List.self_eq_append_right] at horder
          rw [hchunks]
          intro c hc
          have hrank := (order_eq_nil_iff left).mp horder c hc
          by_contra hhigh
          exact absurd (c.rank_lt_two_iff.mpr hhigh) (Nat.not_lt.mpr hrank)
        · exact .inl hfits

/-- The rounds go on from `k` to `d`: every total before is over the budget, and
at `d` either the total is within it or the order is exhausted. -/
structure StopsAt (checks : OverflowChecks) (ctx : ContextManager) (k d : Nat) : Prop where
  le : k ≤ d
  le_length : d ≤ (dropOrder ctx.chunks).length
  exceeds : ∀ j, k ≤ j → j < d →
    ∃ total, (ctx.afterDropping j).usizeTotal checks = some total ∧ ctx.budgetTokens < total
  stop : ∃ total, (ctx.afterDropping d).usizeTotal checks = some total ∧
    (total ≤ ctx.budgetTokens ∨ d = (dropOrder ctx.chunks).length)

theorem StopsAt.exists_total {checks : OverflowChecks} {ctx : ContextManager} {k d : Nat}
    (h : StopsAt checks ctx k d) :
    ∃ total, (ctx.afterDropping k).usizeTotal checks = some total := by
  rcases Nat.eq_or_lt_of_le h.le with rfl | hlt
  · obtain ⟨total, htotal, -⟩ := h.stop
    exact ⟨total, htotal⟩
  · obtain ⟨total, htotal, -⟩ := h.exceeds k (Nat.le_refl _) hlt
    exact ⟨total, htotal⟩

/-- **The run.** The rounds stop where they are to, and nowhere else.  By induction
on the fuel, of which there is more than there are chunks left to drop. -/
theorem trimLoop_eq_some_iff (checks : OverflowChecks) (ctx : ContextManager) {fuel k : Nat}
    (hk : k ≤ (dropOrder ctx.chunks).length) (hfuel : (dropOrder ctx.chunks).length - k < fuel)
    (out : TrimReport × ContextManager) :
    trimLoop checks fuel k (ctx.afterDropping k) = some out ↔
      ∃ d, StopsAt checks ctx k d ∧
        out = (⟨d, (ctx.afterDropping d).chunks.length⟩, ctx.afterDropping d) := by
  induction fuel generalizing k with
  | zero => cases hfuel
  | succ fuel ih =>
      rw [trimLoop_afterDropping checks ctx fuel hk]
      cases htotal : (ctx.afterDropping k).usizeTotal checks with
      | none =>
          apply iff_of_false (by simp)
          rintro ⟨d, hstops, -⟩
          obtain ⟨total, htotal'⟩ := hstops.exists_total
          rw [htotal] at htotal'
          cases htotal'
      | some total =>
          show (if _ then _ else _) = some out ↔ _
          split
          case isTrue hgo =>
            rw [ih hgo.2 (by omega)]
            apply exists_congr
            intro d
            apply and_congr_left
            intro _
            constructor
            · intro hstops
              refine ⟨Nat.le_of_succ_le hstops.le, hstops.le_length, ?_, hstops.stop⟩
              intro j hkj hjd
              rcases Nat.eq_or_lt_of_le hkj with rfl | hlt
              · exact ⟨total, htotal, hgo.1⟩
              · exact hstops.exceeds j hlt hjd
            · intro hstops
              have hne : k ≠ d := by
                rintro rfl
                obtain ⟨total', htotal', hstop⟩ := hstops.stop
                rw [htotal] at htotal'
                obtain rfl := Option.some.inj htotal'
                rcases hstop with hfits | hexhausted
                · exact absurd hgo.1 (Nat.not_lt.mpr hfits)
                · exact absurd hgo.2 (hexhausted ▸ Nat.lt_irrefl _)
              exact ⟨Nat.lt_of_le_of_ne hstops.le hne, hstops.le_length,
                fun j hkj hjd => hstops.exceeds j (Nat.le_of_succ_le hkj) hjd, hstops.stop⟩
          case isFalse hstop =>
            constructor
            · intro hout
              refine ⟨k, ⟨Nat.le_refl _, hk, fun j hkj hjk => (by omega), total, htotal, ?_⟩,
                (Option.some.inj hout).symm⟩
              omega
            · rintro ⟨d, hstops, rfl⟩
              rcases Nat.eq_or_lt_of_le hstops.le with rfl | hlt
              · rfl
              · -- the rounds do not go on from `k`
                obtain ⟨total', htotal', hover⟩ := hstops.exceeds k (Nat.le_refl _) hlt
                rw [htotal] at htotal'
                obtain rfl := Option.some.inj htotal'
                exact absurd ⟨hover, hlt.trans_le hstops.le_length⟩ hstop

/-! ### The law -/

/-- What is asked of a trimming.  The chunks that are kept are a sublist, with
all the high ones; a medium chunk is dropped only if no low one is left, and of
each priority the earliest are dropped; and what is dropped is the shortest
prefix of the order that makes the total fit, or all of it if none does. -/
structure Trimmed (ctx : ContextManager) (report : TrimReport) (ctx' : ContextManager) : Prop where
  others : ctx' = { ctx with chunks := ctx'.chunks }
  sublist : ctx'.chunks.Sublist ctx.chunks
  kept : report.kept = ctx'.chunks.length
  count : report.dropped + report.kept = ctx.chunks.length
  high : ctx'.chunks.filter (·.priority = .high) = ctx.chunks.filter (·.priority = .high)
  medium : ctx'.chunks.filter (·.priority = .medium) ≠ ctx.chunks.filter (·.priority = .medium) →
    ∀ c ∈ ctx'.chunks, c.priority ≠ .low
  earliest : ∀ p, ctx'.chunks.filter (·.priority = p) <:+ ctx.chunks.filter (·.priority = p)
  places : ctx'.chunks = without ctx.chunks ((dropOrder ctx.chunks).take report.dropped)
  shortest : ∀ k < report.dropped, ctx.budgetTokens < (ctx.afterDropping k).totalTokens
  fits : ctx'.totalTokens ≤ ctx.budgetTokens ∨ report.dropped = (dropOrder ctx.chunks).length

/-- Trimming ends as it is asked to: it comes to an end without a panic, with what
`Trimmed` asks of the report and of what is left. -/
def TrimsLawfully (checks : OverflowChecks) (ctx : ContextManager) : Prop :=
  ∃ report ctx', ctx.budgetTrimReport checks = some (report, ctx') ∧ Trimmed ctx report ctx'

/-- The sums tell what is over the budget.  Where overflow is checked the first
sum must not overflow; where it is not, no total over the budget that a round
may meet wraps around to one within it. -/
def SoundTotals : OverflowChecks → ContextManager → Prop
  | .on, ctx => ctx.totalTokens < UInt64.size
  | .off, ctx => ∀ k < (dropOrder ctx.chunks).length,
      ctx.budgetTokens < (ctx.afterDropping k).totalTokens →
        ctx.budgetTokens < (ctx.afterDropping k).totalTokens % UInt64.size

/-- Whatever prefix of the order is dropped, the chunks are kept as asked. -/
theorem trimmed_afterDropping (ctx : ContextManager) {d : Nat}
    (hd : d ≤ (dropOrder ctx.chunks).length)
    (hshortest : ∀ k < d, ctx.budgetTokens < (ctx.afterDropping k).totalTokens)
    (hfits : (ctx.afterDropping d).totalTokens ≤ ctx.budgetTokens ∨
      d = (dropOrder ctx.chunks).length) :
    Trimmed ctx ⟨d, (ctx.afterDropping d).chunks.length⟩ (ctx.afterDropping d) := by
  obtain ⟨left, hdrops⟩ := exists_chunkDrops hd
  have hchunks : (ctx.afterDropping d).chunks = left.map Prod.fst := hdrops.map_fst_eq.symm
  have hall : ctx.chunks = ctx.chunks.zipIdx.map Prod.fst := (List.zipIdx_map_fst _ _).symm
  have hfilter : ∀ p : Priority,
      (∀ a ∈ (dropOrder ctx.chunks).take d, a.1.rank ≠ p.rank) →
        (ctx.afterDropping d).chunks.filter (·.priority = p) =
          ctx.chunks.filter (·.priority = p) := by
    intro p hp
    rw [hchunks, filter_priority_map_fst, hdrops.filter_eq hp, ← filter_priority_map_fst, ← hall]
  refine ⟨rfl, ?_, rfl, ?_, ?_, ?_, ?_, rfl, hshortest, hfits⟩
  case refine_1 =>
    rw [hchunks, hall]
    exact hdrops.sublist.map _
  case refine_2 =>
    have hlength := hdrops.length_add
    rw [List.length_take, min_eq_left hd, List.length_zipIdx] at hlength
    rw [hchunks, List.length_map]
    exact hlength
  case refine_3 =>
    apply hfilter
    intro a ha
    exact Nat.ne_of_lt (hdrops.rank_lt a ha)
  case refine_4 =>
    -- a low chunk that is left was not passed over for a medium one
    intro hmedium c hc hlow
    apply hmedium
    apply hfilter
    intro a ha
    rw [hchunks] at hc
    obtain ⟨x, hx, rfl⟩ := List.mem_map.mp hc
    have hle := hdrops.rank_le a ha x hx
    have hzero : x.1.rank = 0 := congrArg Priority.rank hlow
    show a.1.rank ≠ 1
    omega
  case refine_5 =>
    intro p
    rw [hchunks]
    have hsuffix := (hdrops.suffix p.rank).map Prod.fst
    rwa [← filter_priority_map_fst, ← filter_priority_map_fst p ctx.chunks.zipIdx, ← hall]
      at hsuffix

theorem budgetTrimReport_eq_some_iff (checks : OverflowChecks) (ctx : ContextManager)
    (out : TrimReport × ContextManager) :
    ctx.budgetTrimReport checks = some out ↔
      ∃ d, StopsAt checks ctx 0 d ∧
        out = (⟨d, (ctx.afterDropping d).chunks.length⟩, ctx.afterDropping d) := by
  have hlength : (dropOrder ctx.chunks).length ≤ ctx.chunks.length := by
    obtain ⟨left, hdrops⟩ := exists_chunkDrops (Nat.le_refl (dropOrder ctx.chunks).length)
    have hadd := hdrops.length_add
    rw [List.length_take, min_self, List.length_zipIdx] at hadd
    omega
  have hfuel : (dropOrder ctx.chunks).length - 0 < ctx.chunks.length + 1 := by omega
  have hrun := trimLoop_eq_some_iff checks ctx (Nat.zero_le _) hfuel out
  rwa [afterDropping_zero] at hrun

/-- A sum is never more than the total. -/
theorem le_totalTokens {checks : OverflowChecks} {ctx : ContextManager} {total : Nat}
    (h : ctx.usizeTotal checks = some total) : total ≤ ctx.totalTokens := by
  cases checks with
  | on =>
      rw [usizeTotal_on] at h
      split at h
      case isTrue => exact (Option.some.inj h).ge
      case isFalse => cases h
  | off =>
      rw [usizeTotal_off] at h
      exact (Option.some.inj h).ge.trans (Nat.mod_le _ _)

theorem SoundTotals.usizeTotal {checks : OverflowChecks} {ctx : ContextManager}
    (h : SoundTotals checks ctx) (k : Nat) :
    ∃ total, (ctx.afterDropping k).usizeTotal checks = some total := by
  cases checks with
  | on =>
      have hle := totalTokens_afterDropping_le ctx (Nat.zero_le k)
      rw [afterDropping_zero] at hle
      exact ⟨_, (usizeTotal_on _).trans (if_pos (hle.trans_lt h))⟩
  | off => exact ⟨_, usizeTotal_off _⟩

/-- Where the sums are sound, a sum within the budget means a total within it. -/
theorem SoundTotals.fits {checks : OverflowChecks} {ctx : ContextManager}
    (h : SoundTotals checks ctx) {k total : Nat} (hk : k < (dropOrder ctx.chunks).length)
    (htotal : (ctx.afterDropping k).usizeTotal checks = some total)
    (hle : total ≤ ctx.budgetTokens) : (ctx.afterDropping k).totalTokens ≤ ctx.budgetTokens := by
  cases checks with
  | on =>
      rw [usizeTotal_on] at htotal
      split at htotal
      case isTrue => exact Option.some.inj htotal ▸ hle
      case isFalse => cases htotal
  | off =>
      rw [usizeTotal_off] at htotal
      obtain rfl := Option.some.inj htotal
      by_contra hover
      exact absurd (h k hk (Nat.not_le.mp hover)) (Nat.not_lt.mpr hle)

/-- Where the sums do not panic, the rounds stop. -/
theorem exists_stopsAt {checks : OverflowChecks} {ctx : ContextManager}
    (hsum : ∀ k, ∃ total, (ctx.afterDropping k).usizeTotal checks = some total) {k : Nat}
    (hk : k ≤ (dropOrder ctx.chunks).length) : ∃ d, StopsAt checks ctx k d := by
  induction hn : (dropOrder ctx.chunks).length - k generalizing k with
  | zero =>
      obtain ⟨total, htotal⟩ := hsum k
      exact ⟨k, Nat.le_refl _, hk, fun j hkj hjk => (by omega), total, htotal, .inr (by omega)⟩
  | succ n ih =>
      obtain ⟨total, htotal⟩ := hsum k
      rcases Nat.lt_or_ge ctx.budgetTokens total with hover | hfits
      · obtain ⟨d, hstops⟩ := ih (k := k + 1) (by omega) (by omega)
        refine ⟨d, Nat.le_of_succ_le hstops.le, hstops.le_length, ?_, hstops.stop⟩
        intro j hkj hjd
        rcases Nat.eq_or_lt_of_le hkj with rfl | hlt
        · exact ⟨total, htotal, hover⟩
        · exact hstops.exceeds j hlt hjd
      · exact ⟨k, Nat.le_refl _, hk, fun j hkj hjk => (by omega), total, htotal, .inl hfits⟩

/-- **Trimming is lawful exactly where the sums are sound.**  Where they are not,
the build that checks panics at the first sum, and the one that does not takes a
total over the budget for one within it, and stops too early. -/
theorem trimsLawfully_iff (checks : OverflowChecks) (ctx : ContextManager) :
    TrimsLawfully checks ctx ↔ SoundTotals checks ctx := by
  constructor
  · rintro ⟨report, ctx', hrun, htrimmed⟩
    obtain ⟨d, hstops, hout⟩ := (budgetTrimReport_eq_some_iff checks ctx _).mp hrun
    cases hout
    cases checks with
    | on =>
        obtain ⟨total, htotal⟩ := hstops.exists_total
        rw [afterDropping_zero, usizeTotal_on] at htotal
        show ctx.totalTokens < UInt64.size
        by_contra hsum
        rw [if_neg hsum] at htotal
        cases htotal
    | off =>
        intro k hk hover
        rcases Nat.lt_or_ge k d with hlt | hge
        · obtain ⟨total, htotal, htotal_over⟩ := hstops.exceeds k (Nat.zero_le _) hlt
          rw [usizeTotal_off] at htotal
          rwa [Option.some.inj htotal]
        · -- the rounds are over, and so the total fits
          have hmono := totalTokens_afterDropping_le ctx hge
          rcases htrimmed.fits with hfits | hexhausted
          · exact absurd (hover.trans_le (hmono.trans hfits)) (Nat.lt_irrefl _)
          · exact absurd (hk.trans_le (hexhausted.ge.trans hge)) (Nat.lt_irrefl _)
  · intro hsound
    obtain ⟨d, hstops⟩ := exists_stopsAt hsound.usizeTotal (Nat.zero_le _)
    refine ⟨_, _, (budgetTrimReport_eq_some_iff checks ctx _).mpr ⟨d, hstops, rfl⟩, ?_⟩
    apply trimmed_afterDropping ctx hstops.le_length
    · intro k hk
      obtain ⟨total, htotal, hover⟩ := hstops.exceeds k (Nat.zero_le _) hk
      exact hover.trans_le (le_totalTokens htotal)
    · obtain ⟨total, htotal, hstop⟩ := hstops.stop
      rcases Nat.lt_or_eq_of_le hstops.le_length with hlt | hexhausted
      · exact .inl (hsound.fits hlt htotal (hstop.resolve_right (Nat.ne_of_lt hlt)))
      · exact .inr hexhausted

example : ((ContextManager.mk [] 8 [.new .openFile "a" "12345678" .high,
    .new .symbol "b" "12345678" .low, .new .diagnostic "c" "12345678" .medium,
    .new .recentEdit "d" "12345678" .low] 5).budgetTrimReport .off).map Prod.fst =
      some ⟨2, 2⟩ := by decide

/-- Two chunks whose estimates add up to the size of a machine integer. -/
def wrapping : ContextManager :=
  ⟨[], 8,
    [⟨.openFile, "a", "", .low, UInt64.size / 2⟩, ⟨.openFile, "b", "", .low, UInt64.size / 2⟩],
    4096⟩

/-- The sum wraps around to zero, and nothing is dropped; where it is checked, the
trimming panics. -/
theorem not_trimsLawfully_wrapping :
    ¬ TrimsLawfully .off wrapping ∧ ¬ TrimsLawfully .on wrapping := by
  constructor
  · rintro ⟨report, ctx', hrun, htrimmed⟩
    have hnothing : wrapping.budgetTrimReport .off = some (⟨0, 2⟩, wrapping) := by decide
    rw [hnothing] at hrun
    cases hrun
    have hfits := htrimmed.fits
    revert hfits
    decide
  · rintro ⟨report, ctx', hrun, -⟩
    have hpanic : wrapping.budgetTrimReport .on = none := by decide
    rw [hpanic] at hrun
    cases hrun

/-! ### Trimming in exact arithmetic -/

theorem dropWorst_eq_none {chunks : List ContextChunk} (h : dropWorst chunks = none) :
    chunks = [] := by
  cases chunks with
  | nil => rfl
  | cons c cs =>
      simp only [dropWorst] at h
      split at h
      case h_1 => cases h
      case h_2 => split at h <;> cases h

/-- What is dropped has the priority that is reported. -/
theorem exists_of_dropWorst {chunks rest : List ContextChunk} {p : Priority}
    (h : dropWorst chunks = some (p, rest)) : ∃ c ∈ chunks, c.priority = p := by
  induction chunks generalizing p rest with
  | nil => cases h
  | cons c cs ih =>
      simp only [dropWorst] at h
      split at h
      case h_1 =>
        cases h
        exact ⟨c, List.mem_cons_self, rfl⟩
      case h_2 q rest' hrest =>
        split at h
        case isTrue =>
          cases h
          obtain ⟨d, hd, hpriority⟩ := ih hrest
          exact ⟨d, List.mem_cons_of_mem _ hd, hpriority⟩
        case isFalse =>
          cases h
          exact ⟨c, List.mem_cons_self, rfl⟩

/-- The chunk of `dropWorst` is the one the scan finds. -/
theorem dropWorst_of_firstLowest {pre post : List ContextChunk} {c : ContextChunk}
    (h : RankOrder.FirstLowest ContextChunk.rank pre c post) :
    dropWorst (pre ++ c :: post) = some (c.priority, pre ++ post) := by
  induction pre with
  | nil =>
      rw [List.nil_append, List.nil_append, dropWorst]
      cases hpost : dropWorst post with
      | none => rw [dropWorst_eq_none hpost]
      | some found =>
          obtain ⟨d, hd, hpriority⟩ := exists_of_dropWorst hpost
          have hle : c.priority.rank ≤ found.1.rank := hpriority ▸ h.after d hd
          exact if_neg (Nat.not_lt.mpr hle)
  | cons x pre ih =>
      have hih := ih ⟨fun y hy => h.before y (List.mem_cons_of_mem _ hy), h.after⟩
      have hlt : c.priority.rank < x.priority.rank := h.before x List.mem_cons_self
      rw [List.cons_append, dropWorst, hih]
      exact if_pos hlt

/-- **Where no sum overflows, trimming is `budgetTrim`.**  Totals only go down from
round to round, so it is enough that the first one is in range. -/
theorem trimLoop_eq_trimRounds (checks : OverflowChecks) {n : Nat} {ctx : ContextManager}
    (hsum : ctx.totalTokens < UInt64.size) (hn : ctx.chunks.length ≤ n) (dropped : Nat) :
    (trimLoop checks (n + 1) dropped ctx).map Prod.snd = some (trimRounds n ctx) := by
  have htotal := usizeTotal_of_lt checks hsum
  -- By induction on the rounds that are left; each drops a chunk, so as many as there are
  -- chunks suffice.
  induction n generalizing ctx dropped with
  | zero =>
      have hnil : ctx.chunks = [] := List.length_eq_zero_iff.mp (Nat.le_zero.mp hn)
      rw [trimLoop_stop checks 0 dropped htotal (.inr (by simp [hnil]))]
      rfl
  | succ n ih =>
      rcases Nat.lt_or_ge ctx.budgetTokens ctx.totalTokens with hover | hfits
      · by_cases hlow : ∃ c ∈ ctx.chunks, c.rank < 2
        · obtain ⟨pre, c, post, hsplit, hlowest, hc, hround⟩ :=
            trimLoop_drop checks (n + 1) dropped htotal hover hlow
          -- What is left after the round is part of what there was, so its sum does not
          -- overflow either.
          have hsublist : (pre ++ post).Sublist ctx.chunks := by
            rw [hsplit]
            exact List.Sublist.append_left (List.sublist_cons_self _ _) _
          have hsum' := (totalTokens_le_of_sublist ctx hsublist).trans_lt hsum
          have hn' : (pre ++ post).length ≤ n := by
            rw [hsplit] at hn
            simp only [List.length_append, List.length_cons] at hn ⊢
            omega
          have hrounds :
              trimRounds (n + 1) ctx = trimRounds n { ctx with chunks := pre ++ post } := by
            rw [trimRounds, if_neg (Nat.not_le.mpr hover), hsplit, dropWorst_of_firstLowest hlowest]
            cases hpriority : c.priority with
            | low => rfl
            | medium => rfl
            | high => exact absurd hpriority (c.rank_lt_two_iff.mp hc)
          rw [hround, hrounds]
          exact ih hsum' hn' _ (usizeTotal_of_lt checks hsum')
        -- Where only high chunks are left, both stop.
        · have hhigh : ∀ c ∈ ctx.chunks, c.priority = .high := by
            intro c hc
            by_contra hpriority
            exact hlow ⟨c, hc, c.rank_lt_two_iff.mpr hpriority⟩
          rw [trimLoop_stop checks (n + 1) dropped htotal (.inr hhigh), trimRounds,
            if_neg (Nat.not_le.mpr hover)]
          cases hworst : dropWorst ctx.chunks with
          | none => rfl
          | some found =>
              obtain ⟨c, hc, hpriority⟩ := exists_of_dropWorst hworst
              obtain ⟨p, rest⟩ := found
              obtain rfl : p = .high := hpriority.symm.trans (hhigh c hc)
              rfl
      · rw [trimLoop_stop checks (n + 1) dropped htotal (.inl hfits), trimRounds, if_pos hfits]
        rfl

theorem budgetTrimReport_snd (checks : OverflowChecks) {ctx : ContextManager}
    (hsum : ctx.totalTokens < UInt64.size) :
    (ctx.budgetTrimReport checks).map Prod.snd = some ctx.budgetTrim :=
  trimLoop_eq_trimRounds checks hsum (Nat.le_refl _) 0

end ContextManager

end AgenticIde
