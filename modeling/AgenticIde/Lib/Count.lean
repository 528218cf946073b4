/-
AgenticIde/Lib/Count.lean

Bounds on how often a computation does something.

`m.AtMost p n` says that every run of `m` emits at most `n` events that satisfy `p`, whether
it succeeds or fails.  Bounds add up along sequencing, and a loop has its number of rounds
times the bound of its body; no bound depends on the answers.

The rules follow the ways computations are built, so the bound of a program is put together
along its text.  Where a part never does what is counted, it may stand before or behind
another without adding to the bound, which keeps sums from collecting zeros.
-/
import AgenticIde.Lib.Act

namespace AgenticIde

universe u

variable {σ ω ω' ε ε' α β : Type u} {p : ω → Bool} {n n' : Nat}

namespace Act

/-- Every run emits at most `n` events that satisfy `p`. -/
def AtMost (p : ω → Bool) (n : Nat) (m : Act σ ω ε α) : Prop :=
  ∀ s, (m s).trace.countP p ≤ n

theorem AtMost.mono {m : Act σ ω ε α} (hm : m.AtMost p n) (h : n ≤ n') : m.AtMost p n' :=
  fun s => Nat.le_trans (hm s) h

theorem atMost_pure (a : α) : (pure a : Act σ ω ε α).AtMost p n := fun _ => Nat.zero_le _

theorem atMost_throw (e : ε) : (throw e : Act σ ω ε α).AtMost p n := fun _ => Nat.zero_le _

theorem atMost_modify (f : σ → σ) : (modify f : Act σ ω ε PUnit).AtMost p n :=
  fun _ => Nat.zero_le _

theorem atMost_modifyGet (f : σ → α × σ) : (modifyGet f : Act σ ω ε α).AtMost p n :=
  fun _ => Nat.zero_le _

/-- A call is one event. -/
theorem atMost_external (f : σ → Except ε α × σ) (ev : Except ε α → ω) :
    (external f ev).AtMost p 1 :=
  fun s => List.countP_le_length (p := p) (l := [ev (f s).1])

/-- A call of another kind is none. -/
theorem atMost_external_of_not {f : σ → Except ε α × σ} {ev : Except ε α → ω}
    (h : ∀ r, p (ev r) = false) : (external f ev).AtMost p n := by
  intro s
  rw [external_apply, List.countP_singleton, h]
  exact Nat.zero_le _

theorem AtMost.bind {m : Act σ ω ε α} {f : α → Act σ ω ε β} (hm : m.AtMost p n)
    (hf : ∀ a, (f a).AtMost p n') : (m >>= f).AtMost p (n + n') := by
  intro s
  have hfirst := hm s
  rw [bind_apply]
  rcases hms : m s with ⟨err | a, s', t⟩ <;> rw [hms] at hfirst
  · -- the rest is never run
    exact Nat.le_add_right_of_le hfirst
  · rw [Outcome.andThen_mk_ok, Outcome.after_trace, List.countP_append]
    exact Nat.add_le_add hfirst (hf a s')

/-- A part that never does it is free, in front or behind. -/
theorem AtMost.afterFree {m : Act σ ω ε α} {f : α → Act σ ω ε β} (hm : m.AtMost p 0)
    (hf : ∀ a, (f a).AtMost p n) : (m >>= f).AtMost p n :=
  (hm.bind hf).mono (Nat.le_of_eq (Nat.zero_add n))

theorem AtMost.thenFree {m : Act σ ω ε α} {f : α → Act σ ω ε β} (hm : m.AtMost p n)
    (hf : ∀ a, (f a).AtMost p 0) : (m >>= f).AtMost p n := hm.bind hf

theorem AtMost.attempt {m : Act σ ω ε α} (hm : m.AtMost p n) :
    (m.attempt : Act σ ω ε' (Except ε α)).AtMost p n := hm

theorem AtMost.ignore {m : Act σ ω ε α} (hm : m.AtMost p n) :
    (m.ignore : Act σ ω ε' PUnit).AtMost p n := hm

theorem AtMost.mapTrace {f : ω' → ω} {m : Act σ ω' ε α} (hm : m.AtMost (p ∘ f) n) :
    (m.mapTrace f).AtMost p n := by
  intro s
  rw [mapTrace_apply, List.countP_map]
  exact hm s

end Act

end AgenticIde
