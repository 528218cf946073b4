/-
AgenticIde/CraftLifecycle.lean

The lifecycle of craft proposals over any sequence of the five operations.

An operation acts on each proposal by itself (`fares_step`), so what a run does to a proposal
is read off that proposal alone.  The lifecycle says that a decided proposal stays decided,
that no edit is issued for it, and that an edit is applied once.  `lifecycle_iff` says when
it holds: `confirm` must not meet a decided proposal it has the right to perform, and
`confirm_all` must not meet a decided proposal at all.  Nothing in the code asks for either.

Every operation is described from the point of view of one proposal: `CraftOp.on` says which
part of it concerns the proposal at a position, `Acted` how that part can end, with the
events it leaves at that position.  The host may refuse an edit and the right may be
missing; both are ways of ending, and neither changes the proposal.

A lawful step is one of three things: a move of the state machine, an edit of a proposal
that was undecided, and for `confirm_all` that it meets undecided proposals only.  Whether a
step is lawful is read off the state and the kind of the proposal before it (`lawful_iff`),
except that a `confirm` which is not permitted does nothing, and then may meet any proposal.
The run law adds that an edit is applied at most once, which follows from lawful steps: the
first application decides the proposal.
-/
import AgenticIde.Craft
import AgenticIde.Lib.Machine

namespace AgenticIde

variable {ε : Type}

/-! ### Operations -/

/-- An operation on a session; proposals are named by their position. -/
inductive CraftOp (ε : Type)
  | markPending (i : Nat)
  | confirm (engine : CraftEngine ε) (i : Nat)
  | reject (i : Nat)
  | confirmAll (engine : CraftEngine ε)
  | rejectAll

/-- Replace one proposal. -/
def CraftSession.set (session : CraftSession) (i : Nat) (p : CraftProposal) : CraftSession :=
  ⟨session.proposals.set i p⟩

/-- One operation: the world and the session after it, and the events, each
marked with the position of its proposal. -/
def craftStep (s : World ε × CraftSession) :
    CraftOp ε → (World ε × CraftSession) × List (Nat × Event)
  | .markPending i =>
      match s.2.proposals[i]? with
      | none => (s, [])
      | some p => ((s.1, s.2.set i p.markPending), [])
  | .reject i =>
      match s.2.proposals[i]? with
      | none => (s, [])
      | some p => ((s.1, s.2.set i (CraftEngine.reject p)), [])
  | .rejectAll => ((s.1, s.2.rejectAll), [])
  | .confirm engine i =>
      match s.2.proposals[i]? with
      | none => (s, [])
      | some p =>
          let o : Outcome (World ε) (Nat × Event) PEmpty _ := CraftSession.confirmAt engine i p s.1
          match o.result with
          | .ok r => ((o.state, s.2.set i r.1), o.trace)
  | .confirmAll engine =>
      let o : Outcome (World ε) (Nat × Event) PEmpty _ := s.2.confirmAll engine s.1
      match o.result with
      | .ok r => ((o.state, r.1), o.trace)

/-- What an operation does to the proposal at a position. -/
inductive CraftAct (ε : Type)
  | markPending
  | confirm (engine : CraftEngine ε)
  | reject

/-- The part of an operation that concerns the position `i`. -/
def CraftOp.on (op : CraftOp ε) (i : Nat) : Option (CraftAct ε) :=
  match op with
  | markPending j => if j = i then some .markPending else none
  | confirm engine j => if j = i then some (.confirm engine) else none
  | reject j => if j = i then some .reject else none
  | confirmAll engine => some (.confirm engine)
  | rejectAll => some .reject

/-- How one proposal fares in an operation. -/
inductive Acted (p : CraftProposal) : Option (CraftAct ε) → List Event → CraftProposal → Prop
  | untouched : Acted p none [] p
  | marked : Acted p (some .markPending) [] p.markPending
  | rejected : Acted p (some .reject) [] (CraftEngine.reject p)
  | confirmed {engine : CraftEngine ε} {t : List Event} {p' : CraftProposal}
      (h : Confirmed engine p t p') : Acted p (some (.confirm engine)) t p'

/-- The events of the proposal at the position `i`. -/
def eventsAt (i : Nat) (t : List (Nat × Event)) : List Event :=
  (t.filter (·.1 == i)).map (·.2)

theorem eventsAt_map (i : Nat) (t : List Event) : eventsAt i (t.map (i, ·)) = t := by
  simp [eventsAt, List.filter_map, Function.comp_def]

theorem eventsAt_map_of_ne {i j : Nat} (h : j ≠ i) (t : List Event) :
    eventsAt i (t.map (j, ·)) = [] := by
  simp [eventsAt, List.filter_map, Function.comp_def, h]

theorem eventsAt_append (i : Nat) (t t' : List (Nat × Event)) :
    eventsAt i (t ++ t') = eventsAt i t ++ eventsAt i t' := by
  simp [eventsAt]

/-! ### One step, proposal by proposal -/

/-- The proposals fare as the operation says, each by itself: none is lost or added,
no event is marked with a place that has none, and what is marked with a place is
about the proposal there. -/
def Fares (op : CraftOp ε) (ps ps' : List CraftProposal) (t : List (Nat × Event)) : Prop :=
  ps'.length = ps.length ∧ (∀ i, ps[i]? = none → eventsAt i t = []) ∧
    ∀ i p, ps[i]? = some p → ∃ p', ps'[i]? = some p' ∧ Acted p (op.on i) (eventsAt i t) p'

/-- Confirming proposals in order confirms each of them. -/
theorem confirmFrom_spec (engine : CraftEngine ε) (ps : List CraftProposal) (n : Nat)
    (w : World ε) :
    ∃ rs w' t, (CraftSession.confirmFrom engine n ps : Act (World ε) (Nat × Event) PEmpty _) w =
        ⟨.ok rs, w', t⟩ ∧ rs.length = ps.length ∧ (∀ i < n, eventsAt i t = []) ∧
      (∀ i, n + ps.length ≤ i → eventsAt i t = []) ∧
      ∀ i p, ps[i]? = some p →
        ∃ r, rs[i]? = some r ∧ Confirmed engine p (eventsAt (n + i) t) r.1 := by
  -- By induction on the plan. The events of the first proposal are marked with the position
  -- the loop is at, and those of the others with higher ones.
  induction ps generalizing n w with
  | nil => exact ⟨[], w, [], rfl, rfl, fun _ _ => rfl, fun _ _ => rfl, by simp⟩
  | cons p ps ih =>
      obtain ⟨p', r, w₁, t, hp, hconfirmed⟩ := confirmed_confirmAt PEmpty engine n p w
      obtain ⟨rs, w₂, t', hps, hlen, hbelow, habove, hrest⟩ := ih (n + 1) w₁
      refine ⟨(p', r) :: rs, w₂, t.map (n, ·) ++ t', ?_, by simp [hlen], fun i hi => ?_,
        fun i hi => ?_, ?_⟩
      · simp [CraftSession.confirmFrom, hp, hps, Except.map]
      · rw [eventsAt_append, eventsAt_map_of_ne (by omega), hbelow i (by omega), List.append_nil]
      · rw [List.length_cons] at hi
        rw [eventsAt_append, eventsAt_map_of_ne (by omega), habove i (by omega), List.append_nil]
      · intro i q hq
        -- The position is the first, or one of the rest, which began one further.
        rcases i with - | i
        · obtain rfl : p = q := by simpa using hq
          refine ⟨(p', r), rfl, ?_⟩
          rw [Nat.add_zero, eventsAt_append, eventsAt_map, hbelow n (by omega), List.append_nil]
          exact hconfirmed
        · obtain ⟨r', hr', hconfirmed'⟩ := hrest i q (by simpa using hq)
          refine ⟨r', by simpa using hr', ?_⟩
          rw [eventsAt_append, eventsAt_map_of_ne (by omega), List.nil_append,
            show n + (i + 1) = n + 1 + i by omega]
          exact hconfirmed'

/-- Operating on one position leaves the other proposals alone. -/
theorem fares_set {op : CraftOp ε} {session : CraftSession} {i : Nat} {p p' : CraftProposal}
    {t : List Event} (hp : session.proposals[i]? = some p) (hother : ∀ j ≠ i, op.on j = none)
    (hacted : Acted p (op.on i) t p') :
    Fares op session.proposals (session.set i p').proposals (t.map (i, ·)) := by
  refine ⟨by simp [CraftSession.set], fun j hj => ?_, fun j q hq => ?_⟩
  · exact eventsAt_map_of_ne (fun hij => by simp [← hij, hp] at hj) t
  by_cases hij : i = j
  · subst hij
    obtain rfl : p = q := by simpa [hp] using hq
    refine ⟨p', ?_, by rw [eventsAt_map]; exact hacted⟩
    have hlt : i < session.proposals.length := (List.getElem?_eq_some_iff.mp hp).1
    simp [CraftSession.set, hlt]
  · refine ⟨q, ?_, ?_⟩
    · simpa [CraftSession.set, hij] using hq
    · rw [eventsAt_map_of_ne hij, hother j (Ne.symm hij)]
      exact .untouched

/-- An operation on a position without a proposal does nothing. -/
theorem fares_of_none {op : CraftOp ε} {ps : List CraftProposal} {i : Nat} (hnone : ps[i]? = none)
    (hother : ∀ j ≠ i, op.on j = none) : Fares op ps ps [] := by
  refine ⟨rfl, fun _ _ => rfl, fun j q hq => ⟨q, hq, ?_⟩⟩
  have hij : j ≠ i := by
    rintro rfl
    simp [hnone] at hq
  rw [hother j hij]
  exact .untouched

/-- **Each proposal fares by itself** in every operation.  What happens to the one
at a place depends on it and on the operation, and not on the others; events are
told apart by the place they are marked with. -/
theorem fares_step (s : World ε × CraftSession) (op : CraftOp ε) :
    Fares op s.2.proposals (craftStep s op).1.2.proposals (craftStep s op).2 := by
  rcases op with i | ⟨engine, i⟩ | i | engine | -
  · have hother : ∀ j ≠ i, (CraftOp.markPending i : CraftOp ε).on j = none := fun j hj =>
      if_neg (Ne.symm hj)
    have hon : (CraftOp.markPending i : CraftOp ε).on i = some .markPending := if_pos rfl
    rcases hp : s.2.proposals[i]? with - | p <;> simp only [craftStep, hp]
    · exact fares_of_none hp hother
    · exact fares_set (t := []) hp hother (hon ▸ .marked)
  · have hother : ∀ j ≠ i, (CraftOp.confirm engine i).on j = none := fun j hj => if_neg (Ne.symm hj)
    have hon : (CraftOp.confirm engine i).on i = some (.confirm engine) := if_pos rfl
    rcases hp : s.2.proposals[i]? with - | p <;> simp only [craftStep, hp]
    · exact fares_of_none hp hother
    · obtain ⟨p', r, w', t, hconfirm, hconfirmed⟩ := confirmed_confirmAt PEmpty engine i p s.1
      simp only [hconfirm]
      exact fares_set hp hother (hon ▸ .confirmed hconfirmed)
  · have hother : ∀ j ≠ i, (CraftOp.reject i : CraftOp ε).on j = none := fun j hj =>
      if_neg (Ne.symm hj)
    have hon : (CraftOp.reject i : CraftOp ε).on i = some .reject := if_pos rfl
    rcases hp : s.2.proposals[i]? with - | p <;> simp only [craftStep, hp]
    · exact fares_of_none hp hother
    · exact fares_set (t := []) hp hother (hon ▸ .rejected)
  · -- `confirm_all` meets every position, decided or not
    obtain ⟨rs, w', t, hrun, hlen, -, habove, hall⟩ := confirmFrom_spec engine s.2.proposals 0 s.1
    have hsession : (s.2.confirmAll engine : Act (World ε) (Nat × Event) PEmpty _) s.1 =
        ⟨.ok (⟨rs.map (·.1)⟩, rs.map (·.2)), w', t⟩ := by
      simp [CraftSession.confirmAll, hrun]
    simp only [craftStep, hsession]
    refine ⟨by simp [hlen], fun i hi => ?_, fun i p hp => ?_⟩
    · exact habove i (by simpa using hi)
    obtain ⟨r, hr, hconfirmed⟩ := hall i p hp
    rw [Nat.zero_add] at hconfirmed
    exact ⟨r.1, by simp [hr], .confirmed hconfirmed⟩
  · refine ⟨by simp [craftStep, CraftSession.rejectAll], fun _ _ => rfl, fun i p hp => ?_⟩
    exact ⟨CraftEngine.reject p, by simp [craftStep, CraftSession.rejectAll, hp], .rejected⟩

/-! ### The lifecycle -/

/-- The moves of the state machine: to review, and to a decision. -/
inductive CraftState.Moves : CraftState → CraftState → Prop
  | stay (s : CraftState) : Moves s s
  | review : Moves .suggestion .pendingConfirm
  | decide {s s' : CraftState} (h : s = .suggestion ∨ s = .pendingConfirm)
      (h' : s' = .applied ∨ s' = .rejected) : Moves s s'

/-- What the lifecycle allows an operation to do to a proposal: a move, an
edit of an undecided proposal only, and `confirm_all` touches undecided ones
only. -/
def Lawful (op : CraftOp ε) (p : CraftProposal) (t : List Event) (p' : CraftProposal) : Prop :=
  p.state.Moves p'.state ∧
  (∀ edit answer, Event.applyEdit edit answer ∈ t → p.undecided = true) ∧
  (∀ engine, op = .confirmAll engine → t ≠ [] → p.undecided = true)

/-- What an operation must not meet at the position `i`: for `confirm_all` a
decided proposal; for `confirm` one that it is permitted to perform, unless it
is applied and has no edit. -/
def Permitted (op : CraftOp ε) (i : Nat) (p : CraftProposal) : Prop :=
  match op with
  | .confirm engine j => j = i → p.undecided = true ∨
      engine.principal.holds p.kind.requiredPermission = false ∨
      (p.state = .applied ∧ p.kind ≠ .fileEdit)
  | .confirmAll _ => p.undecided = true
  | _ => True

theorem undecided_iff (p : CraftProposal) :
    p.undecided = true ↔ p.state = .suggestion ∨ p.state = .pendingConfirm := by
  simp [CraftProposal.undecided]

theorem moves_markPending (p : CraftProposal) : p.state.Moves p.markPending.state := by
  unfold CraftProposal.markPending
  split
  · rename_i h
    rw [h]
    exact .review
  · exact .stay _

theorem moves_reject (p : CraftProposal) : p.state.Moves (CraftEngine.reject p).state := by
  unfold CraftEngine.reject
  split
  · rename_i h
    rcases hp : p.state with - | - | - | -
    · exact .decide (.inl rfl) (.inr rfl)
    · exact .decide (.inr rfl) (.inr rfl)
    · exact absurd hp h
    · exact .stay _
  · exact .stay _

/-- Moving to applied is a move of the undecided and the applied. -/
theorem moves_applied_iff (s : CraftState) :
    s.Moves .applied ↔ (s = .suggestion ∨ s = .pendingConfirm) ∨ s = .applied := by
  constructor
  · rintro (- | - | ⟨h, -⟩)
    · exact .inr rfl
    · exact .inl h
  · rintro (h | rfl)
    · exact .decide h (.inl rfl)
    · exact .stay _

/-- Confirming is lawful exactly for the proposals it may meet. -/
theorem confirmed_lawful_iff {engine : CraftEngine ε} {p p' : CraftProposal} {t : List Event}
    (h : Confirmed engine p t p') :
    (p.state.Moves p'.state ∧
        ∀ edit answer, Event.applyEdit edit answer ∈ t → p.undecided = true) ↔
      p.undecided = true ∨ engine.principal.holds p.kind.requiredPermission = false ∨
        (p.state = .applied ∧ p.kind ≠ .fileEdit) := by
  rcases h with ⟨ev, answer, hholds⟩ | ⟨ev, answer, hholds, hkind⟩ |
    ⟨ev, answer, e, hholds, hkind⟩ |
    ⟨ev, answer, event, hholds, hkind⟩
  · -- denied: nothing changes, whatever the state
    exact ⟨fun _ => .inr (.inl hholds), fun _ => ⟨.stay _, by simp⟩⟩
  · constructor
    · exact fun hlawful => .inl (hlawful.2 p.edit (.ok ()) (by simp))
    · rintro (hp | hdenied | ⟨-, hother⟩)
      · exact ⟨(moves_applied_iff _).mpr (.inl ((undecided_iff p).mp hp)), fun _ _ _ => hp⟩
      · simp [hholds] at hdenied
      · exact absurd hkind hother
  · constructor
    · exact fun hlawful => .inl (hlawful.2 p.edit (.error e) (by simp))
    · rintro (hp | hdenied | ⟨-, hother⟩)
      · exact ⟨.stay _, fun _ _ _ => hp⟩
      · simp [hholds] at hdenied
      · exact absurd hkind hother
  · simp [hholds, hkind, undecided_iff, moves_applied_iff]

/-- A move that leaves no event is lawful in every operation. -/
theorem lawful_of_silent {op : CraftOp ε} {p p' : CraftProposal}
    (hmoves : p.state.Moves p'.state) : Lawful op p [] p' :=
  ⟨hmoves, by simp, by simp⟩

/-- **An operation is lawful for a proposal exactly where it is permitted.**  The
right side looks at the proposal before the operation only, so it can be asked
beforehand. -/
theorem lawful_iff {op : CraftOp ε} {i : Nat} {p p' : CraftProposal} {t : List Event}
    (h : Acted p (op.on i) t p') : Lawful op p t p' ↔ Permitted op i p := by
  rcases op with j | ⟨engine, j⟩ | j | engine | - <;> simp only [CraftOp.on] at h
  · refine iff_of_true ?_ trivial
    split at h <;> cases h
    · exact lawful_of_silent (moves_markPending p)
    · exact lawful_of_silent (.stay _)
  · split at h
    · rename_i hij
      rcases h with - | - | - | hconfirmed
      simp only [Lawful, Permitted, hij, reduceCtorEq, false_implies, implies_true, and_true,
        forall_const]
      exact confirmed_lawful_iff hconfirmed
    · rename_i hij
      cases h
      exact iff_of_true (lawful_of_silent (.stay _)) fun h => absurd h hij
  · refine iff_of_true ?_ trivial
    split at h <;> cases h
    · exact lawful_of_silent (moves_reject p)
    · exact lawful_of_silent (.stay _)
  · rcases h with - | - | - | hconfirmed
    -- even a denied confirmation leaves its audit entry, so it touches
    have hsome : t ≠ [] := by rcases hconfirmed <;> simp
    constructor
    · exact fun hlawful => hlawful.2.2 engine rfl hsome
    · intro hp
      obtain ⟨hmoves, hedits⟩ := (confirmed_lawful_iff hconfirmed).mpr (.inl hp)
      exact ⟨hmoves, hedits, fun _ _ _ => hp⟩
  · cases h
    exact iff_of_true (lawful_of_silent (moves_reject p)) trivial

/-! ### Runs -/

/-- Run a sequence of operations on a session. -/
def runCraft (w : World ε) (session : CraftSession) (ops : List (CraftOp ε)) :
    (World ε × CraftSession) × List (Nat × Event) :=
  Machine.run craftStep (w, session) ops

/-- The proposal at a position after some operations. -/
def proposalAt (w : World ε) (session : CraftSession) (ops : List (CraftOp ε)) (i : Nat) :
    Option CraftProposal :=
  (runCraft w session ops).1.2.proposals[i]?

/-- The host applied an edit. -/
def Event.applied : Event → Bool
  | applyEdit _ (.ok ()) => true
  | _ => false

/-- The lifecycle of a run: every operation is lawful for every proposal, and
the edit of each is applied at most once. -/
structure Lifecycle (w : World ε) (session : CraftSession) (ops : List (CraftOp ε)) : Prop where
  lawful : ∀ pre op post, ops = pre ++ op :: post → ∀ i p p',
    proposalAt w session pre i = some p → proposalAt w session (pre ++ [op]) i = some p' →
      Lawful op p (eventsAt i (craftStep (runCraft w session pre).1 op).2) p'
  once : ∀ i, (eventsAt i (runCraft w session ops).2).countP Event.applied ≤ 1

/-- Every operation of the run meets only what it is permitted to meet, at the point
of the run where it happens. -/
def AllPermitted (w : World ε) (session : CraftSession) (ops : List (CraftOp ε)) : Prop :=
  ∀ pre op post, ops = pre ++ op :: post → ∀ i p, proposalAt w session pre i = some p →
    Permitted op i p

section Runs

variable {w : World ε} {session : CraftSession} {ops : List (CraftOp ε)} {op : CraftOp ε}

theorem AllPermitted.of_concat (h : AllPermitted w session (ops ++ [op])) :
    AllPermitted w session ops := by
  rintro pre op' post rfl
  exact h pre op' (post ++ [op]) (by simp)

theorem runCraft_concat (w : World ε) (session : CraftSession) (ops : List (CraftOp ε))
    (op : CraftOp ε) :
    runCraft w session (ops ++ [op]) = ((craftStep (runCraft w session ops).1 op).1,
      (runCraft w session ops).2 ++ (craftStep (runCraft w session ops).1 op).2) :=
  Machine.run_concat ops op

/-- How the proposals fare in the last operation of a run. -/
theorem fares_run (w : World ε) (session : CraftSession) (ops : List (CraftOp ε))
    (op : CraftOp ε) :
    Fares op (runCraft w session ops).1.2.proposals (runCraft w session (ops ++ [op])).1.2.proposals
      (craftStep (runCraft w session ops).1 op).2 := by
  rw [runCraft_concat]
  exact fares_step (runCraft w session ops).1 op

theorem CraftState.Moves.eq_of_applied {s : CraftState} (h : CraftState.applied.Moves s) :
    s = .applied := by
  rcases h with - | - | ⟨h, -⟩
  · rfl
  · simp at h

/-- An applied edit is the only one of its operation, of a proposal that is
applied after it. -/
theorem acted_applied {p p' : CraftProposal} {act : Option (CraftAct ε)} {t : List Event}
    (h : Acted p act t p') :
    t.countP Event.applied = 0 ∨ (t.countP Event.applied = 1 ∧ p'.state = .applied ∧
      ∃ edit answer, Event.applyEdit edit answer ∈ t) := by
  rcases h with - | - | - | ⟨- | - | - | -⟩
  · exact .inl rfl
  · exact .inl rfl
  · exact .inl rfl
  · exact .inl rfl
  · exact .inr ⟨rfl, rfl, p.edit, .ok (), by simp⟩
  · exact .inl rfl
  · exact .inl rfl

/-- What a permitted run keeps: the edit of each proposal was applied at most
once, and where it was the proposal is applied. -/
theorem applied_once (h : AllPermitted w session ops) (i : Nat) :
    (eventsAt i (runCraft w session ops).2).countP Event.applied = 0 ∨
      ((eventsAt i (runCraft w session ops).2).countP Event.applied = 1 ∧
        ∃ p, proposalAt w session ops i = some p ∧ p.state = .applied) := by
  induction ops using List.reverseRecOn with
  | nil => exact .inl rfl
  | append_singleton ops op ih =>
      obtain ⟨-, hnone, hsome⟩ := fares_run w session ops op
      have hih := ih h.of_concat
      rw [runCraft_concat, eventsAt_append, List.countP_append]
      rcases hp : proposalAt w session ops i with - | p
      · -- no operation adds a proposal
        rw [hnone i hp, List.countP_nil, Nat.add_zero]
        rcases hih with hzero | ⟨-, q, hq, -⟩
        · exact .inl hzero
        · simp [hp] at hq
      · obtain ⟨p', hp', hacted⟩ := hsome i p hp
        have hlawful := (lawful_iff hacted).mpr (h ops op [] rfl i p hp)
        rcases acted_applied hacted with hidle | ⟨hone, happlied, edit, answer, hmem⟩
        · -- no edit now: an earlier one has left the proposal applied for good
          rw [hidle, Nat.add_zero]
          rcases hih with hzero | ⟨hone, q, hq, hstate⟩
          · exact .inl hzero
          · obtain rfl : p = q := by simpa [hp] using hq
            have hmoves := hlawful.1
            rw [hstate] at hmoves
            exact .inr ⟨hone, p', hp', hmoves.eq_of_applied⟩
        · -- an edit now: the proposal was undecided, so there was none before
          have hundecided := (undecided_iff p).mp (hlawful.2.1 edit answer hmem)
          rcases hih with hzero | ⟨-, q, hq, hstate⟩
          · exact .inr ⟨by rw [hzero, hone], p', hp', happlied⟩
          · obtain rfl : p = q := by simpa [hp] using hq
            simp [hstate] at hundecided

/-- A lifecycle meets only what is permitted. -/
theorem Lifecycle.allPermitted (h : Lifecycle w session ops) : AllPermitted w session ops := by
  intro pre op post hsplit i p hp
  obtain ⟨-, -, hsome⟩ := fares_run w session pre op
  obtain ⟨p', hp', hacted⟩ := hsome i p hp
  exact (lawful_iff hacted).mp (h.lawful pre op post hsplit i p p' hp hp')

/-- What meets only what is permitted is a lifecycle. -/
theorem AllPermitted.lifecycle (h : AllPermitted w session ops) : Lifecycle w session ops where
  lawful := by
    intro pre op post hsplit i p p' hp hp'
    obtain ⟨-, -, hsome⟩ := fares_run w session pre op
    obtain ⟨q, hq, hacted⟩ := hsome i p hp
    obtain rfl : q = p' := Option.some.inj (hq.symm.trans hp')
    exact (lawful_iff hacted).mpr (h pre op post hsplit i p hp)
  once := by
    intro i
    rcases applied_once h i with hzero | ⟨hone, -⟩
    · omega
    · omega

end Runs

/-- **The lifecycle of craft proposals.** It holds of a run exactly when every
operation meets only what it is permitted to meet.  A confirmation does not look at
the state of its proposal, and confirming all goes over all of them, so both can
meet a decided one. -/
theorem lifecycle_iff (w : World ε) (session : CraftSession) (ops : List (CraftOp ε)) :
    Lifecycle w session ops ↔ AllPermitted w session ops :=
  ⟨Lifecycle.allPermitted, AllPermitted.lifecycle⟩

/-- An engine that may do everything, over a host that applies every edit. -/
def craftEngine : CraftEngine Unit :=
  ⟨⟨fun _ => (.ok (), ·), fun _ => id⟩, PermissionSet.all, .all "single" "craft",
    ⟨fun _ => (.ok (), ·)⟩⟩

/-- A rejected proposal is applied by a later `confirm_all`. -/
theorem rejected_confirmed :
    ¬ Lifecycle (.initial ()) ⟨[.new "p-0" "mem://a.rs" "1" "2" "bump" .fileEdit]⟩
      [.reject 0, .confirmAll craftEngine] := by
  intro h
  have hmet : (CraftEngine.reject (.new "p-0" "mem://a.rs" "1" "2" "bump" .fileEdit)).undecided =
      true := h.allPermitted [.reject 0] (.confirmAll craftEngine) [] rfl 0 _ rfl
  exact absurd hmet (by decide)

end AgenticIde
