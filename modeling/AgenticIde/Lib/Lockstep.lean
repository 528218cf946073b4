/-
AgenticIde/Lib/Lockstep.lean

Two traced computations in lock step.

`Lockstep` says which states are related and what of an event is compared;
two computations *agree* when from related states they give the same result,
leave related states, and show the same events.  Agreement composes along
sequencing, at every pair of related states (`agree_bind`) or along one run
(`Same.andThen`), and events that show nothing may stand on one side alone
(`Same.after_left`).  Two runs that are compared by a
part of the state agree in whatever runs on that part (`agree_zoom`).
-/
import AgenticIde.Lib.Act

namespace AgenticIde

universe u

variable {σ σ' ω ω' ε ε' α β : Type u} {γ : Type*}

/-- How two computations are compared: the related states, and what each side
shows of an event. -/
structure Lockstep (σ σ' ω ω' : Type u) (γ : Type*) where
  rel : σ → σ' → Prop
  view : ω → Option γ
  view' : ω' → Option γ

namespace Lockstep

variable (L : Lockstep σ σ' ω ω' γ)

/-- Two outcomes agree: the same result, related states, and the same events in view. -/
def Same (o : Outcome σ ω ε α) (o' : Outcome σ' ω' ε α) : Prop :=
  o.result = o'.result ∧ L.rel o.state o'.state ∧
    o.trace.filterMap L.view = o'.trace.filterMap L.view'

/-- From related states the two computations come to outcomes that agree. -/
def Agree (m : Act σ ω ε α) (m' : Act σ' ω' ε α) : Prop :=
  ∀ s s', L.rel s s' → L.Same (m s) (m' s')

variable {L}

theorem agree_pure (a : α) : L.Agree (pure a : Act σ ω ε α) (pure a : Act σ' ω' ε α) :=
  fun _ _ h => ⟨rfl, h, rfl⟩

/-- What agrees so far goes on to agree, where the rest does. -/
theorem Same.andThen {o : Outcome σ ω ε α} {o' : Outcome σ' ω' ε α} {f : α → Act σ ω ε β}
    {f' : α → Act σ' ω' ε β} (ho : L.Same o o')
    (hf : ∀ a, o.result = .ok a → L.Same (f a o.state) (f' a o'.state)) :
    L.Same (o.andThen f) (o'.andThen f') := by
  obtain ⟨r, s₁, t⟩ := o
  obtain ⟨r', s₁', t'⟩ := o'
  obtain ⟨hresult, hstate, htrace⟩ := ho
  obtain rfl : r = r' := hresult
  cases r with
  | error e => exact ⟨rfl, hstate, htrace⟩
  | ok a =>
      obtain ⟨hresult', hstate', htrace'⟩ := hf a rfl
      refine ⟨hresult', hstate', ?_⟩
      show (t ++ (f a s₁).trace).filterMap L.view = (t' ++ (f' a s₁').trace).filterMap L.view'
      rw [List.filterMap_append, List.filterMap_append, htrace, htrace']

theorem agree_bind {m : Act σ ω ε α} {m' : Act σ' ω' ε α} {f : α → Act σ ω ε β}
    {f' : α → Act σ' ω' ε β} (hm : L.Agree m m') (hf : ∀ a, L.Agree (f a) (f' a)) :
    L.Agree (m >>= f) (m' >>= f') := by
  intro s s' h
  exact (hm s s' h).andThen fun a _ => hf a _ _ (hm s s' h).2.1

theorem agree_attempt {m : Act σ ω ε α} {m' : Act σ' ω' ε α} (hm : L.Agree m m') :
    L.Agree (m.attempt : Act σ ω ε' (Except ε α)) (m'.attempt : Act σ' ω' ε' (Except ε α)) :=
  fun s s' h => ⟨congrArg Except.ok (hm s s' h).1, (hm s s' h).2⟩

theorem agree_throw (e : ε) : L.Agree (Act.throw e : Act σ ω ε α) (Act.throw e : Act σ' ω' ε α) :=
  fun _ _ h => ⟨rfl, h, rfl⟩

theorem agree_mapError {m : Act σ ω ε α} {m' : Act σ' ω' ε α} (g : ε → ε') (hm : L.Agree m m') :
    L.Agree (m.mapError g) (m'.mapError g) :=
  fun s s' h => ⟨congrArg (Except.mapError g) (hm s s' h).1, (hm s s' h).2⟩

theorem agree_ignore {m : Act σ ω ε α} {m' : Act σ' ω' ε α} (hm : L.Agree m m') :
    L.Agree (m.ignore : Act σ ω ε' PUnit) (m'.ignore : Act σ' ω' ε' PUnit) :=
  fun s s' h => ⟨rfl, (hm s s' h).2⟩

/-- **Stuttering**: what shows nothing may come first on one side alone.  The rule
for the steps that one computation takes and the other does not. -/
theorem Same.after_left {o : Outcome σ ω ε α} {o' : Outcome σ' ω' ε α} {t : List ω}
    (h : L.Same o o') (hview : t.filterMap L.view = []) : L.Same (o.after t) o' := by
  refine ⟨h.1, h.2.1, ?_⟩
  rw [Outcome.after_trace, List.filterMap_append, hview, List.nil_append, h.2.2]

/-- Two runs of one system, compared by a part of the state and the events in
view. -/
def onPart {ρ : Type*} (part : σ → ρ) (view : ω → Option γ) : Lockstep σ σ ω ω γ :=
  ⟨fun s s' => part s = part s', view, view⟩

end Lockstep

/-- Run a computation on a part of the state. -/
def Act.zoom (part : σ → σ') (put : σ → σ' → σ) (m : Act σ' ω ε α) : Act σ ω ε α := fun s =>
  ⟨(m (part s)).result, put s (m (part s)).state, (m (part s)).trace⟩

/-- What runs on the compared part agrees with itself. -/
theorem Lockstep.agree_zoom {part : σ → σ'} {put : σ → σ' → σ} {view : ω → Option γ}
    (hput : ∀ s t, part (put s t) = t) (m : Act σ' ω ε α) :
    (onPart part view).Agree (m.zoom part put) (m.zoom part put) := by
  intro s s' h
  have hpart : part s = part s' := h
  refine ⟨?_, ?_, ?_⟩
  · show (m (part s)).result = (m (part s')).result
    rw [hpart]
  · show part (put s _) = part (put s' _)
    rw [hput, hput, hpart]
  · show (m (part s)).trace.filterMap view = (m (part s')).trace.filterMap view
    rw [hpart]

end AgenticIde
