/-
AgenticIde/Lib/Act.lean

Traced computations: a state `σ`, a failure `ε`, and a trace of the events
`ω` a computation emits.  Nothing here names a program; a model instantiates
`σ` with its shared state and `ω` with its calls to the outside world.

A computation keeps the state and the trace of everything it did before it
failed, so a caller that catches the failure (`attempt`) still sees both.

Properties of a run are stated as *laws*: a `Law` relates the state before,
the trace, and the state after, holds of doing nothing, and composes along
`++`.  Because a law composes, it is enough to prove it of the pieces of a
program (`Law.Obeys`); sequencing, catching and failing keep it.
-/
import Mathlib.Data.List.Basic

namespace AgenticIde

universe u

/-- What running a computation yields: its result, the state it leaves, and
the events it emitted, oldest first. -/
structure Outcome (σ ω ε α : Type u) where
  result : Except ε α
  state : σ
  trace : List ω

/-- A traced computation over the state `σ`. -/
def Act (σ ω ε α : Type u) : Type u := σ → Outcome σ ω ε α

variable {σ ω ω' ε ε' α β : Type u}

namespace Outcome

/-- Put the events `t` before those of an outcome. -/
def after (t : List ω) (o : Outcome σ ω ε α) : Outcome σ ω ε α :=
  { o with trace := t ++ o.trace }

/-- Continue a successful outcome with `f`; a failed one stops here. -/
def andThen (o : Outcome σ ω ε α) (f : α → Act σ ω ε β) : Outcome σ ω ε β :=
  match o.result with
  | .ok a => (f a o.state).after o.trace
  | .error e => ⟨.error e, o.state, o.trace⟩

@[simp] theorem after_result (t : List ω) (o : Outcome σ ω ε α) :
    (o.after t).result = o.result := rfl

@[simp] theorem after_state (t : List ω) (o : Outcome σ ω ε α) :
    (o.after t).state = o.state := rfl

@[simp] theorem after_trace (t : List ω) (o : Outcome σ ω ε α) :
    (o.after t).trace = t ++ o.trace := rfl

@[simp] theorem after_mk (t t' : List ω) (r : Except ε α) (s : σ) :
    after t ⟨r, s, t'⟩ = ⟨r, s, t ++ t'⟩ := rfl

@[simp] theorem after_nil (o : Outcome σ ω ε α) : o.after [] = o := rfl

@[simp] theorem after_after (t t' : List ω) (o : Outcome σ ω ε α) :
    (o.after t').after t = o.after (t ++ t') := by
  simp [after]

@[simp] theorem andThen_mk_ok (a : α) (s : σ) (t : List ω) (f : α → Act σ ω ε β) :
    andThen ⟨.ok a, s, t⟩ f = (f a s).after t := rfl

@[simp] theorem andThen_mk_error (e : ε) (s : σ) (t : List ω) (f : α → Act σ ω ε β) :
    andThen ⟨.error e, s, t⟩ f = ⟨.error e, s, t⟩ := rfl

theorem andThen_after (t : List ω) (o : Outcome σ ω ε α) (f : α → Act σ ω ε β) :
    (o.after t).andThen f = (o.andThen f).after t := by
  obtain ⟨r, s, t'⟩ := o
  rcases r with e | a <;> simp [after]

end Outcome

/-! ### The monad and its primitives -/

namespace Act

instance : Monad (Act σ ω ε) where
  pure a := fun s => ⟨.ok a, s, []⟩
  bind m f := fun s => (m s).andThen f

@[simp] theorem pure_apply (a : α) (s : σ) :
    (pure a : Act σ ω ε α) s = ⟨.ok a, s, []⟩ := rfl

@[simp] theorem bind_apply (m : Act σ ω ε α) (f : α → Act σ ω ε β) (s : σ) :
    (m >>= f) s = (m s).andThen f := rfl

instance : LawfulMonad (Act σ ω ε) := LawfulMonad.mk' _
  (by
    intro α m
    funext s
    show (m s).andThen (fun a => pure a) = m s
    rcases m s with ⟨r, s', t⟩
    rcases r with e | a <;> simp [Outcome.after])
  (by
    intro α β a f
    funext s
    simp)
  (by
    intro α β γ m f g
    funext s
    simp only [bind_apply]
    rcases m s with ⟨r, s', t⟩
    rcases r with e | a
    · rfl
    · exact Outcome.andThen_after _ _ _)

@[simp] theorem map_apply (f : α → β) (m : Act σ ω ε α) (s : σ) :
    (f <$> m) s = ⟨(m s).result.map f, (m s).state, (m s).trace⟩ := by
  rw [map_eq_pure_bind, bind_apply]
  rcases m s with ⟨r, s', t⟩
  rcases r with e | a <;> simp [Except.map]

/-- Fail with `e`. -/
def throw (e : ε) : Act σ ω ε α := fun s => ⟨.error e, s, []⟩

/-- Read the state. -/
def get : Act σ ω ε σ := fun s => ⟨.ok s, s, []⟩

/-- Transform the state, returning a value. -/
def modifyGet (f : σ → α × σ) : Act σ ω ε α := fun s => ⟨.ok (f s).1, (f s).2, []⟩

/-- Transform the state. -/
def modify (f : σ → σ) : Act σ ω ε PUnit := fun s => ⟨.ok ⟨⟩, f s, []⟩

/-- Call the outside world: `f` answers from the state and `ev` records the
answer as one event. -/
def external (f : σ → Except ε α × σ) (ev : Except ε α → ω) : Act σ ω ε α := fun s =>
  ⟨(f s).1, (f s).2, [ev (f s).1]⟩

/-- Catch a failure and hand the result to the caller. -/
def attempt (m : Act σ ω ε α) : Act σ ω ε' (Except ε α) := fun s =>
  ⟨.ok (m s).result, (m s).state, (m s).trace⟩

/-- Run a computation for its effects only, whether it fails or not. -/
def ignore (m : Act σ ω ε α) : Act σ ω ε' PUnit := fun s => ⟨.ok ⟨⟩, (m s).state, (m s).trace⟩

/-- Propagate a caught result (the `?` operator). -/
def ofExcept : Except ε α → Act σ ω ε α
  | .ok a => pure a
  | .error e => throw e

/-- A computation that cannot fail, where one may. -/
def infallible (m : Act σ ω PEmpty α) : Act σ ω ε α := fun s =>
  ⟨(m s).result.mapError PEmpty.elim, (m s).state, (m s).trace⟩

/-- Translate the failure of a computation. -/
def mapError (f : ε → ε') (m : Act σ ω ε α) : Act σ ω ε' α := fun s =>
  ⟨(m s).result.mapError f, (m s).state, (m s).trace⟩

/-- Also return the events of a computation. -/
def listen (m : Act σ ω ε α) : Act σ ω ε (α × List ω) := fun s =>
  ⟨(m s).result.map (·, (m s).trace), (m s).state, (m s).trace⟩

/-- Relabel the events of a computation. -/
def mapTrace (f : ω → ω') (m : Act σ ω ε α) : Act σ ω' ε α := fun s =>
  ⟨(m s).result, (m s).state, (m s).trace.map f⟩

@[simp] theorem throw_apply (e : ε) (s : σ) :
    (throw e : Act σ ω ε α) s = ⟨.error e, s, []⟩ := rfl

@[simp] theorem get_apply (s : σ) : (get : Act σ ω ε σ) s = ⟨.ok s, s, []⟩ := rfl

@[simp] theorem modifyGet_apply (f : σ → α × σ) (s : σ) :
    (modifyGet f : Act σ ω ε α) s = ⟨.ok (f s).1, (f s).2, []⟩ := rfl

@[simp] theorem modify_apply (f : σ → σ) (s : σ) :
    (modify f : Act σ ω ε PUnit) s = ⟨.ok ⟨⟩, f s, []⟩ := rfl

@[simp] theorem external_apply (f : σ → Except ε α × σ) (ev : Except ε α → ω) (s : σ) :
    external f ev s = ⟨(f s).1, (f s).2, [ev (f s).1]⟩ := rfl

@[simp] theorem attempt_apply (m : Act σ ω ε α) (s : σ) :
    (m.attempt : Act σ ω ε' (Except ε α)) s = ⟨.ok (m s).result, (m s).state, (m s).trace⟩ := rfl

@[simp] theorem ignore_apply (m : Act σ ω ε α) (s : σ) :
    (m.ignore : Act σ ω ε' PUnit) s = ⟨.ok ⟨⟩, (m s).state, (m s).trace⟩ := rfl

@[simp] theorem infallible_apply (m : Act σ ω PEmpty α) (s : σ) :
    (m.infallible : Act σ ω ε α) s =
      ⟨(m s).result.mapError PEmpty.elim, (m s).state, (m s).trace⟩ := rfl

@[simp] theorem mapError_apply (f : ε → ε') (m : Act σ ω ε α) (s : σ) :
    mapError f m s = ⟨(m s).result.mapError f, (m s).state, (m s).trace⟩ := rfl

theorem mapError_bind (g : ε → ε') (m : Act σ ω ε α) (f : α → Act σ ω ε β) :
    (m >>= f).mapError g = m.mapError g >>= fun a => (f a).mapError g := by
  funext s
  rw [mapError_apply, bind_apply, bind_apply, mapError_apply]
  rcases m s with ⟨r, s', t⟩
  rcases r with e | a
  · rfl
  · rfl

@[simp] theorem listen_apply (m : Act σ ω ε α) (s : σ) :
    m.listen s = ⟨(m s).result.map (·, (m s).trace), (m s).state, (m s).trace⟩ := rfl

@[simp] theorem ofExcept_ok (a : α) :
    (ofExcept (.ok a) : Act σ ω ε α) = pure a := rfl

@[simp] theorem ofExcept_error (e : ε) :
    (ofExcept (.error e) : Act σ ω ε α) = throw e := rfl

@[simp] theorem mapTrace_apply (f : ω → ω') (m : Act σ ω ε α) (s : σ) :
    mapTrace f m s = ⟨(m s).result, (m s).state, (m s).trace.map f⟩ := rfl

theorem bind_apply_of_ok {m : Act σ ω ε α} {f : α → Act σ ω ε β} {s s' : σ} {a : α} {t : List ω}
    (h : m s = ⟨.ok a, s', t⟩) : (m >>= f) s = (f a s').after t := by
  rw [bind_apply, h, Outcome.andThen_mk_ok]

/-- A sequence succeeds when its first part does and then its second. -/
theorem exists_of_bind_eq_ok {m : Act σ ω ε α} {f : α → Act σ ω ε β} {s : σ} {b : β}
    (h : ((m >>= f) s).result = .ok b) :
    ∃ a s' t, m s = ⟨.ok a, s', t⟩ ∧ (f a s').result = .ok b := by
  rw [bind_apply] at h
  rcases hrun : m s with ⟨e | a, s', t⟩
  · rw [hrun] at h
    cases h
  · rw [hrun] at h
    exact ⟨a, s', t, rfl, h⟩

/-- A sequence fails as one of its parts does. -/
theorem error_of_bind {m : Act σ ω ε α} {f : α → Act σ ω ε β} {s : σ} {e : ε}
    (h : ((m >>= f) s).result = .error e) :
    (m s).result = .error e ∨ ∃ a s', (f a s').result = .error e := by
  rw [bind_apply] at h
  rcases hrun : m s with ⟨e' | a, s', t⟩
  · rw [hrun] at h
    cases h
    exact .inl rfl
  · rw [hrun] at h
    exact .inr ⟨a, s', h⟩

/-- A computation emits the events of its first part first. -/
theorem prefix_trace_bind (m : Act σ ω ε α) (f : α → Act σ ω ε β) (s : σ) :
    (m s).trace <+: ((m >>= f) s).trace := by
  rw [bind_apply]
  rcases m s with ⟨r, s', t⟩
  rcases r with e | a
  · exact List.prefix_rfl
  · exact List.prefix_append _ _

/-- Every run of the computation succeeds. -/
def Succeeds (m : Act σ ω ε α) : Prop := ∀ s, ∃ a, (m s).result = .ok a

theorem Succeeds.apply {m : Act σ ω ε α} (hm : m.Succeeds) (s : σ) :
    ∃ a s' t, m s = ⟨.ok a, s', t⟩ := by
  obtain ⟨a, ha⟩ := hm s
  exact ⟨a, (m s).state, (m s).trace, by rw [← ha]⟩

theorem succeeds_pure (a : α) : (pure a : Act σ ω ε α).Succeeds := fun _ => ⟨a, rfl⟩

theorem succeeds_bind {m : Act σ ω ε α} {f : α → Act σ ω ε β} (hm : m.Succeeds)
    (hf : ∀ a, (f a).Succeeds) : (m >>= f).Succeeds := by
  intro s
  obtain ⟨a, s', t, ha⟩ := hm.apply s
  rw [bind_apply_of_ok ha]
  exact hf a s'

theorem succeeds_attempt (m : Act σ ω ε α) : (m.attempt : Act σ ω ε' (Except ε α)).Succeeds :=
  fun _ => ⟨_, rfl⟩

theorem succeeds_infallible (m : Act σ ω PEmpty α) : (m.infallible : Act σ ω ε α).Succeeds := by
  intro s
  rcases hs : (m s).result with e | a
  · exact e.elim
  · exact ⟨a, by simp [hs, Except.mapError]⟩

theorem succeeds_mapTrace {f : ω → ω'} {m : Act σ ω ε α} (hm : m.Succeeds) :
    (m.mapTrace f).Succeeds := hm

/-- Whatever `m` returns, `m'` returns too, with the same events.  Of a loop that
is run for so many turns, a larger number of turns is such an `m'`. -/
def Within (m m' : Act σ ω ε α) : Prop :=
  ∀ s a s' t, m s = ⟨.ok a, s', t⟩ → m' s = ⟨.ok a, s', t⟩

namespace Within

theorem refl (m : Act σ ω ε α) : m.Within m := fun _ _ _ _ h => h

theorem throw (e : ε) (m : Act σ ω ε α) : (Act.throw e).Within m := nofun

theorem bind {m m' : Act σ ω ε α} {f f' : α → Act σ ω ε β} (hm : m.Within m')
    (hf : ∀ a, (f a).Within (f' a)) : (m >>= f).Within (m' >>= f') := by
  intro s b s' t h
  obtain ⟨a, s₁, t₁, hfirst, -⟩ := exists_of_bind_eq_ok (congrArg Outcome.result h)
  rw [bind_apply_of_ok hfirst] at h
  rw [bind_apply_of_ok (hm _ _ _ _ hfirst)]
  rcases hrest : f a s₁ with ⟨e | b', s₂, t₂⟩
  · rw [hrest] at h
    cases h
  · rw [hrest] at h
    rw [hf a _ _ _ _ hrest]
    exact h

end Within

end Act

/-! ### Laws -/

/-- A law of runs: it relates the state before, the trace and the state
after, holds of doing nothing, and composes. -/
structure Law (σ ω : Type u) where
  rel : σ → List ω → σ → Prop
  refl : ∀ s, rel s [] s
  comp : ∀ {s t s' t' s''}, rel s t s' → rel s' t' s'' → rel s (t ++ t') s''

namespace Law

/-- Every run of `m` obeys the law, whether it succeeds or fails. -/
def Obeys (L : Law σ ω) (m : Act σ ω ε α) : Prop :=
  ∀ s, L.rel s (m s).trace (m s).state

/-- The law that every event satisfies `p`. -/
def always (σ : Type u) (p : ω → Prop) : Law σ ω where
  rel _ t _ := ∀ e ∈ t, p e
  refl _ := by simp
  comp h h' e he := (List.mem_append.mp he).elim (h e) (h' e)

/-- The law that `g` is left unchanged. -/
def frame (ω : Type u) {γ : Type*} (g : σ → γ) : Law σ ω where
  rel s _ s' := g s' = g s
  refl _ := rfl
  comp h h' := h'.trans h

/-- The law that the list `g` kept in the state grows by exactly the entries
`v` reads off the trace. -/
def records {γ : Type*} (g : σ → List γ) (v : ω → List γ) : Law σ ω where
  rel s t s' := g s' = g s ++ t.flatMap v
  refl _ := by simp
  comp {s t s' t' s''} h h' := by rw [h', h, List.flatMap_append, List.append_assoc]

/-- The law that two views of the trace read the same list off it. -/
def agree (σ : Type u) {γ : Type*} (v v' : ω → List γ) : Law σ ω where
  rel _ t _ := t.flatMap v = t.flatMap v'
  refl _ := rfl
  comp h h' := by rw [List.flatMap_append, List.flatMap_append, h, h']

/-- The law that an event which satisfies `p` never stands alone: the run
also has an event it is answered by. -/
def answers (σ : Type u) (p : ω → Prop) (q : ω → ω → Prop) : Law σ ω where
  rel _ t _ := ∀ e ∈ t, p e → ∃ e' ∈ t, q e e'
  refl _ := by simp
  comp {s t s' t' s''} h h' := by
    intro e he hp
    rcases List.mem_append.mp he with he | he
    · obtain ⟨e', he', hq⟩ := h e he hp
      exact ⟨e', List.mem_append_left _ he', hq⟩
    · obtain ⟨e', he', hq⟩ := h' e he hp
      exact ⟨e', List.mem_append_right _ he', hq⟩

/-- Both laws at once. -/
def and (L L' : Law σ ω) : Law σ ω where
  rel s t s' := L.rel s t s' ∧ L'.rel s t s'
  refl s := ⟨L.refl s, L'.refl s⟩
  comp h h' := ⟨L.comp h.1 h'.1, L'.comp h.2 h'.2⟩

/-- The law a relabelled run obeys when the original run obeys `L`. -/
def comap (f : ω → ω') (L : Law σ ω') : Law σ ω where
  rel s t s' := L.rel s (t.map f) s'
  refl s := L.refl s
  comp h h' := by rw [List.map_append]; exact L.comp h h'

variable {L : Law σ ω}

theorem obeys_pure (a : α) : L.Obeys (pure a : Act σ ω ε α) := fun s => L.refl s

theorem obeys_throw (e : ε) : L.Obeys (Act.throw e : Act σ ω ε α) := fun s => L.refl s

theorem obeys_get : L.Obeys (Act.get : Act σ ω ε σ) := fun s => L.refl s

/-- A continuation that obeys the law keeps an outcome within it. -/
theorem rel_andThen {s : σ} {o : Outcome σ ω ε α} {f : α → Act σ ω ε β}
    (ho : L.rel s o.trace o.state) (hf : ∀ a, L.Obeys (f a)) :
    L.rel s (o.andThen f).trace (o.andThen f).state := by
  obtain ⟨r, s', t⟩ := o
  rcases r with e | a
  · exact ho
  · exact L.comp ho (hf a s')

theorem obeys_bind {m : Act σ ω ε α} {f : α → Act σ ω ε β}
    (hm : L.Obeys m) (hf : ∀ a, L.Obeys (f a)) : L.Obeys (m >>= f) :=
  fun s => rel_andThen (hm s) hf

theorem obeys_map {m : Act σ ω ε α} (f : α → β) (hm : L.Obeys m) : L.Obeys (f <$> m) := by
  rw [map_eq_pure_bind]
  exact obeys_bind hm fun _ => obeys_pure _

theorem obeys_attempt {m : Act σ ω ε α} (hm : L.Obeys m) :
    L.Obeys (m.attempt : Act σ ω ε' (Except ε α)) := hm

theorem obeys_ignore {m : Act σ ω ε α} (hm : L.Obeys m) :
    L.Obeys (m.ignore : Act σ ω ε' PUnit) := hm

theorem obeys_mapError {f : ε → ε'} {m : Act σ ω ε α} (hm : L.Obeys m) :
    L.Obeys (m.mapError f) := hm

theorem obeys_infallible {m : Act σ ω PEmpty α} (hm : L.Obeys m) :
    L.Obeys (m.infallible : Act σ ω ε α) := hm

theorem obeys_mapTrace {f : ω → ω'} {L : Law σ ω'} {m : Act σ ω ε α}
    (hm : (L.comap f).Obeys m) : L.Obeys (m.mapTrace f) := hm

/-! ### Acting under the latest mark -/

/-- The latest mark of a trace. -/
def latest {π : Type*} (mark : ω → Option π) (t : List ω) : Option π := (t.filterMap mark).getLast?

theorem latest_append {π : Type*} (mark : ω → Option π) (t t' : List ω) :
    latest mark (t ++ t') = (latest mark t').or (latest mark t) := by
  simp [latest, List.getLast?_append]

theorem exists_of_latest {π : Type*} {mark : ω → Option π} {t : List ω} {m : π}
    (h : latest mark t = some m) : ∃ e ∈ t, mark e = some m := by
  simpa using List.mem_of_getLast? h

/-- The law that whatever acts is something the latest mark before it
allows. -/
def under (σ : Type u) {π : Type*} (mark : ω → Option π) (acts : ω → Prop)
    (allows : π → ω → Prop) : Law σ ω where
  rel _ t _ := ∀ pre e post, t = pre ++ e :: post → acts e →
    ∃ m, latest mark pre = some m ∧ allows m e
  refl _ := by
    intro pre e post h
    simp at h
  comp {s t s' t' s''} h h' := by
    intro pre e post heq hacts
    rcases List.append_eq_append_iff.mp heq with ⟨mid, rfl, ht'⟩ | ⟨mid, rfl, hmid⟩
    · -- the event is in the second part, behind its mark there
      obtain ⟨m, hm, hallows⟩ := h' mid e post ht' hacts
      exact ⟨m, by simp [latest_append, hm], hallows⟩
    · rcases mid with - | ⟨e', mid⟩
      · obtain ⟨m, hm, hallows⟩ := h' [] e post (by simpa using hmid.symm) hacts
        exact ⟨m, by simp [latest] at hm, hallows⟩
      · obtain ⟨rfl, rfl⟩ : e = e' ∧ post = mid ++ t' := by simpa using hmid
        exact h pre e mid rfl hacts

/-- Events that do not act obey the law, whatever is marked. -/
theorem under_of_idle {π : Type*} {mark : ω → Option π} {acts : ω → Prop}
    {allows : π → ω → Prop} {s s' : σ} {t : List ω} (h : ∀ e ∈ t, ¬ acts e) :
    (under σ mark acts allows).rel s t s' := by
  rintro pre e post rfl hacts
  exact absurd hacts (h e (by simp))

/-- One mark covers everything that follows it, up to the next mark. -/
theorem under_of_mark {π : Type*} {mark : ω → Option π} {acts : ω → Prop}
    {allows : π → ω → Prop} {s s' : σ} {e₀ : ω} {t : List ω} {m : π} (hmark : mark e₀ = some m)
    (hidle : ¬ acts e₀) (h : ∀ e ∈ t, mark e = none ∧ (acts e → allows m e)) :
    (under σ mark acts allows).rel s (e₀ :: t) s' := by
  intro pre e post heq hacts
  rcases pre with - | ⟨e₁, pre⟩
  · obtain ⟨rfl, rfl⟩ : e₀ = e ∧ t = post := by simpa using heq
    exact absurd hacts hidle
  · obtain ⟨rfl, rfl⟩ : e₀ = e₁ ∧ t = pre ++ e :: post := by simpa using heq
    have hpre : pre.filterMap mark = [] :=
      List.filterMap_eq_nil_iff.mpr fun e' he' => (h e' (by simp [he'])).1
    exact ⟨m, by simp [latest, hmark, hpre], (h e (by simp)).2 hacts⟩

end Law

end AgenticIde
