/-
AgenticIde/Lib/Zoom.lean

Computations over a part of the state: what only knows the first component of a pair leaves
the second one alone.

The state of a caller is often that of what it calls with something of its own beside it.
`onFst` lets the inner computation run as it is, with its result and its events, and
`getSnd` and `modifySnd` are what the caller does with its own part.  The equations rewrite
such computations to what they do on a pair.
-/
import AgenticIde.Lib.Act

namespace AgenticIde

universe u

namespace Act

variable {σ τ ω ε α : Type u}

/-- A computation on the first component of the state. -/
def onFst (m : Act σ ω ε α) : Act (σ × τ) ω ε α := fun s =>
  ⟨(m s.1).result, ((m s.1).state, s.2), (m s.1).trace⟩

/-- Read the second component. -/
def getSnd : Act (σ × τ) ω ε τ := fun s => ⟨.ok s.2, s, []⟩

/-- Transform the second component. -/
def modifySnd (f : τ → τ) : Act (σ × τ) ω ε PUnit := fun s => ⟨.ok ⟨⟩, (s.1, f s.2), []⟩

@[simp] theorem onFst_apply (m : Act σ ω ε α) (s : σ) (t : τ) :
    (m.onFst : Act (σ × τ) ω ε α) (s, t) = ⟨(m s).result, ((m s).state, t), (m s).trace⟩ := rfl

@[simp] theorem getSnd_apply (s : σ) (t : τ) :
    (getSnd : Act (σ × τ) ω ε τ) (s, t) = ⟨.ok t, (s, t), []⟩ := rfl

@[simp] theorem modifySnd_apply (f : τ → τ) (s : σ) (t : τ) :
    (modifySnd f : Act (σ × τ) ω ε PUnit) (s, t) = ⟨.ok ⟨⟩, (s, f t), []⟩ := rfl

end Act

end AgenticIde
