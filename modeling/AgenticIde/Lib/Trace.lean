/-
AgenticIde/Lib/Trace.lean

Runs of a system in which several events may come next: a partial step says what an event
makes of a state, or that it cannot happen there.  A schedule is any list of events that can
happen one after the other.

A property of the history and the state is carried along by `Runs.invariant`.  A system in
which some event is possible until it is finished, and whose runs are bounded, can be brought
to its end from wherever it has got to (`Runs.exists_finished`).

In the last rule the events of the rest can be held to answers that are fixed beforehand: the
schedule is free to choose the order, and not what the environment answers.
-/
import Mathlib.Data.List.Basic

namespace AgenticIde

namespace Trace

variable {σ ε : Type*}

/-- The states that some events lead to. -/
inductive Runs (step : σ → ε → Option σ) (s : σ) : List ε → σ → Prop
  | nil : Runs step s [] s
  | snoc {trace : List ε} {t t' : σ} {e : ε} (h : Runs step s trace t)
      (hstep : step t e = some t') : Runs step s (trace ++ [e]) t'

variable {step : σ → ε → Option σ} {s : σ}

/-- What one event carries along, a run carries along. -/
theorem Runs.invariant {P : List ε → σ → Prop} (init : P [] s)
    (hstep : ∀ trace t e t', P trace t → step t e = some t' → P (trace ++ [e]) t')
    {trace : List ε} {t : σ} (h : Runs step s trace t) : P trace t := by
  induction h with
  | nil => exact init
  | snoc _ h ih => exact hstep _ _ _ _ ih h

/-- Where unfinished runs can go on with an event that is allowed, and no run is
longer than `bound`, every run is the beginning of a finished one. -/
theorem Runs.exists_finished {finished : σ → Prop} {allowed : ε → Prop} {bound : Nat}
    (hprogress : ∀ {trace t}, Runs step s trace t →
      finished t ∨ ∃ e t', step t e = some t' ∧ allowed e)
    (hbound : ∀ {trace t}, Runs step s trace t → trace.length ≤ bound) {trace : List ε} {t : σ}
    (h : Runs step s trace t) :
    ∃ rest t', Runs step s (trace ++ rest) t' ∧ (∀ e ∈ rest, allowed e) ∧ finished t' := by
  induction hn : bound - trace.length generalizing trace t with
  | zero =>
      rcases hprogress h with hfinished | ⟨e, t', hstep, -⟩
      · exact ⟨[], t, by rwa [List.append_nil], (by simp), hfinished⟩
      · -- one event more would be too many
        have hlength := hbound (h.snoc hstep)
        rw [List.length_append, List.length_singleton] at hlength
        omega
  | succ n ih =>
      rcases hprogress h with hfinished | ⟨e, t', hstep, hallowed⟩
      · exact ⟨[], t, by rwa [List.append_nil], (by simp), hfinished⟩
      · have hnext : bound - (trace ++ [e]).length = n := by
          rw [List.length_append, List.length_singleton]
          omega
        obtain ⟨rest, t'', hrun, hrest, hfinished⟩ := ih (h.snoc hstep) hnext
        exact ⟨e :: rest, t'', by rwa [List.append_assoc] at hrun,
          List.forall_mem_cons.mpr ⟨hallowed, hrest⟩, hfinished⟩

end Trace

end AgenticIde
