/-
AgenticIde/Lib/Ascent.lean

Traces that rise: a measure of the events grows from each event to the next, from above one
bound up to another.

A computation rises between two bounds if every trace of it does.  Sequencing puts the bounds
end to end (`rises_bind`), so a program that reports its progress rises through the bounds of
its parts.  An error cuts a trace off, and what is left of it still rises, so nothing has to
be said about where a computation may fail.

The lower bound is strict and the upper one is not.  So two parts that share a bound share no
value of the measure, and the events of the whole are in strict order.
-/
import AgenticIde.Lib.Act
import Mathlib.Order.Basic

namespace AgenticIde

universe u

variable {σ ω ε ε' α β : Type u} {κ : Type*} [Preorder κ]

/-- The measure rises along the trace, from above `lo` up to `hi`. -/
structure Ascent (f : ω → κ) (lo hi : κ) (t : List ω) : Prop where
  rising : t.Pairwise fun e e' => f e < f e'
  within : ∀ e ∈ t, lo < f e ∧ f e ≤ hi

namespace Ascent

variable {f : ω → κ} {lo mid hi : κ} {t t' : List ω}

theorem nil : Ascent f lo hi [] := ⟨.nil, fun _ h => absurd h List.not_mem_nil⟩

theorem single {e : ω} (hlo : lo < f e) (hhi : f e ≤ hi) : Ascent f lo hi [e] := by
  refine ⟨List.pairwise_singleton _ e, fun e' he' => ?_⟩
  obtain rfl := List.mem_singleton.mp he'
  exact ⟨hlo, hhi⟩

theorem mono {lo' hi' : κ} (h : Ascent f lo hi t) (hlo : lo' ≤ lo) (hhi : hi ≤ hi') :
    Ascent f lo' hi' t where
  rising := h.rising
  within e he := ⟨hlo.trans_lt (h.within e he).1, (h.within e he).2.trans hhi⟩

theorem append (h : Ascent f lo mid t) (h' : Ascent f mid hi t') (hlo : lo ≤ mid) (hhi : mid ≤ hi) :
    Ascent f lo hi (t ++ t') where
  rising := by
    refine List.pairwise_append.mpr ⟨h.rising, h'.rising, fun e he e' he' => ?_⟩
    exact (h.within e he).2.trans_lt (h'.within e' he').1
  within e he := by
    rcases List.mem_append.mp he with he | he
    · exact ⟨(h.within e he).1, (h.within e he).2.trans hhi⟩
    · exact ⟨hlo.trans_lt (h'.within e he).1, (h'.within e he).2⟩

end Ascent

/-! ### Computations -/

namespace Act

/-- Every trace of the computation rises between the bounds. -/
def Rises (f : ω → κ) (lo hi : κ) (m : Act σ ω ε α) : Prop := ∀ s, Ascent f lo hi (m s).trace

variable {f : ω → κ} {lo mid hi : κ}

theorem rises_pure (a : α) : (pure a : Act σ ω ε α).Rises f lo hi := fun _ => .nil

theorem rises_throw (e : ε) : (throw e : Act σ ω ε α).Rises f lo hi := fun _ => .nil

theorem rises_modifyGet (g : σ → α × σ) : (modifyGet g : Act σ ω ε α).Rises f lo hi :=
  fun _ => .nil

/-- **One after the other**, the bounds are put end to end.  What the first part
does is below the middle and what the second does above it; after an error there is
no second. -/
theorem rises_bind (mid : κ) {m : Act σ ω ε α} {g : α → Act σ ω ε β} (hm : m.Rises f lo mid)
    (hg : ∀ a, (g a).Rises f mid hi) (hlo : lo ≤ mid) (hhi : mid ≤ hi) :
    (m >>= g).Rises f lo hi := by
  intro s
  rw [bind_apply]
  rcases hrun : m s with ⟨e | a, s', t⟩
  · have ht : Ascent f lo mid t := by
      have hms := hm s
      rwa [hrun] at hms
    exact ht.mono le_rfl hhi
  · have ht : Ascent f lo mid t := by
      have hms := hm s
      rwa [hrun] at hms
    exact ht.append (hg a s') hlo hhi

end Act

end AgenticIde
