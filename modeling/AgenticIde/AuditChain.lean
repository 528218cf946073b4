/-
AgenticIde/AuditChain.lean

The chain of the audit log when records are concurrent, as the tasks that
`AgentServer::audit` spawns are: the SELECT and the INSERT of one record may
have the INSERT of another between them.

A record call is a task with three states (`TaskStatus`): before its SELECT,
between its statements, where it holds the hash that it has read, and finished.
A schedule says which call takes its next statement, and at what time the server
executes it; a statement of a call that is finished does nothing.  Statements are
atomic and ids go up in insert order, as PostgreSQL has it.

`linear_iff_unforked` says that the missing lock is the only thing that breaks
the chain: the tenant's rows form one chain exactly when no accepted INSERT
falls between a record's SELECT and its own accepted INSERT.  The invariant
is `RecordInv`: a call between its statements holds the last hash of the rows
that were there at its SELECT, and the rows that came since are those of the
INSERTs in the trace since then.  One lemma for each kind of statement keeps it
(`RecordInv.select`, `fail`, `insert`), and `racing_records_fork` is the smallest
schedule that breaks the chain.
-/
import AgenticIde.AuditLog
import AgenticIde.Lib.Machine

namespace AgenticIde

variable {sha256 : List UInt8 → List UInt8}

/-! ### Records in flight -/

/-- A `record` call: the sink and the event. -/
structure RecordTask where
  sink : PgAuditSink
  event : AuditEvent

/-- How far a `record` call is: before its SELECT, between its statements, or
over. -/
inductive TaskStatus
  | fresh
  | selected (prevHash : String)
  | finished

/-- The table and the calls in flight. -/
structure RecordState where
  db : AuditDb
  status : Nat → TaskStatus

/-- What one statement did. -/
inductive ChainStep
  | selected (i : Nat)
  | inserted (i : Nat)
  | failed (i : Nat)
  deriving DecidableEq

/-- Mark how far the call `i` is. -/
def RecordState.mark (s : RecordState) (i : Nat) (st : TaskStatus) (db : AuditDb) : RecordState :=
  ⟨db, Function.update s.status i st⟩

/-- The call `i.1` executes its next statement, at time `i.2`. -/
def recordStep (sha256 : List UInt8 → List UInt8) (tasks : List RecordTask) (s : RecordState)
    (i : Nat × Int) : RecordState × List ChainStep :=
  match tasks[i.1]? with
  | none => (s, [])
  | some task =>
      match s.status i.1 with
      | .fresh =>
          match task.sink.fetchPrev task.event s.db with
          | .ok prevHash => (s.mark i.1 (.selected prevHash) s.db, [.selected i.1])
          | .error _ => (s.mark i.1 .finished s.db, [.failed i.1])
      | .selected prevHash =>
          match task.sink.append sha256 i.2 task.event prevHash s.db with
          | (.ok (), db) => (s.mark i.1 .finished db, [.inserted i.1])
          | (.error _, db) => (s.mark i.1 .finished db, [.failed i.1])
      | .finished => (s, [])

/-- Run a schedule of statements from a table no call has touched. -/
def runRecords (sha256 : List UInt8 → List UInt8) (tasks : List RecordTask) (db : AuditDb)
    (schedule : List (Nat × Int)) : RecordState × List ChainStep :=
  Machine.run (recordStep sha256 tasks) ⟨db, fun _ => .fresh⟩ schedule

/-- No accepted INSERT falls between a call's SELECT and its own accepted
INSERT. -/
def Unforked (trace : List ChainStep) : Prop :=
  ∀ pre mid post i, trace = pre ++ .selected i :: (mid ++ .inserted i :: post) →
    ∀ j, ChainStep.inserted j ∉ mid

theorem unforked_concat {trace : List ChainStep} {x : ChainStep}
    (hx : ∀ i, x ≠ .inserted i) : Unforked (trace ++ [x]) ↔ Unforked trace := by
  constructor
  · intro h pre mid post i e
    exact h pre mid (post ++ [x]) i (by simp [e])
  · intro h pre mid post i e
    rcases List.eq_nil_or_concat post with rfl | ⟨post, y, rfl⟩
    · have e' : trace ++ [x] = (pre ++ .selected i :: mid) ++ [.inserted i] := by simpa using e
      exact absurd (List.cons.inj (List.append_inj' e' rfl).2).1 (hx i)
    · have e' : trace ++ [x] = (pre ++ .selected i :: (mid ++ .inserted i :: post)) ++ [y] := by
        simpa using e
      exact h pre mid post i (List.append_inj' e' rfl).1

/-- An INSERT forks the chain exactly when another one fell in between. -/
theorem unforked_concat_inserted {pre mid : List ChainStep} {i : Nat}
    (hpre : ChainStep.selected i ∉ pre) (hmid : ChainStep.selected i ∉ mid) :
    Unforked (pre ++ .selected i :: mid ++ [.inserted i]) ↔
      Unforked (pre ++ .selected i :: mid) ∧ ∀ j, ChainStep.inserted j ∉ mid := by
  constructor
  · intro h
    refine ⟨fun pre' mid' post' i' e => ?_, h pre mid [] i (by simp)⟩
    exact h pre' mid' (post' ++ [.inserted i]) i' (by simp [e])
  · rintro ⟨h, hnone⟩ pre' mid' post' i' e
    -- either the INSERT in question is the new one, or it was there before
    rcases List.eq_nil_or_concat post' with rfl | ⟨post', y, rfl⟩
    · have e' : (pre ++ ChainStep.selected i :: mid) ++ [.inserted i] =
          (pre' ++ .selected i' :: mid') ++ [.inserted i'] := by simpa using e
      obtain ⟨htrace, hlast⟩ := List.append_inj' e' rfl
      obtain rfl : i = i' := ChainStep.inserted.inj (List.cons.inj hlast).1
      obtain ⟨-, -, rfl⟩ := (List.append_cons_inj_of_notMem hpre hmid).mp htrace
      exact hnone
    · have e' : (pre ++ ChainStep.selected i :: mid) ++ [.inserted i] =
          (pre' ++ .selected i' :: (mid' ++ .inserted i' :: post')) ++ [y] := by simpa using e
      exact h pre' mid' post' i' (List.append_inj' e' rfl).1

/-- What one statement does: nothing, a SELECT, a failure that leaves the
rows, or an INSERT that the database accepts. -/
theorem recordStep_cases {tasks : List RecordTask} {s : RecordState} (i : Nat × Int)
    (hprev : ∀ j prev, s.status j = .selected prev → hasNul prev = false) :
    recordStep sha256 tasks s i = (s, []) ∨
    (∃ task prev, tasks[i.1]? = some task ∧ s.status i.1 = .fresh ∧
      task.sink.fetchPrev task.event s.db = .ok prev ∧
      recordStep sha256 tasks s i = (s.mark i.1 (.selected prev) s.db, [.selected i.1])) ∨
    (∃ db, db.rows = s.db.rows ∧
      recordStep sha256 tasks s i = (s.mark i.1 .finished db, [.failed i.1])) ∨
    (∃ task prev, tasks[i.1]? = some task ∧ s.status i.1 = .selected prev ∧
      recordStep sha256 tasks s i =
        (s.mark i.1 .finished (s.db.push (task.event.toRow sha256 prev s.db.nextId i.2)),
          [.inserted i.1])) := by
  rcases htask : tasks[i.1]? with - | task
  · exact .inl (by simp only [recordStep, htask])
  · rcases hst : s.status i.1 with - | prev | -
    · rcases hf : task.sink.fetchPrev task.event s.db with err | prev
      · exact .inr (.inr (.inl ⟨s.db, rfl, by simp only [recordStep, htask, hst, hf]⟩))
      · exact .inr (.inl ⟨task, prev, rfl, rfl, hf, by simp only [recordStep, htask, hst, hf]⟩)
    · rcases ha : task.sink.accepts s.db i.2 task.event with - | -
      · obtain ⟨err, db, he, hrows, -⟩ :=
          PgAuditSink.append_of_not_accepts sha256 ha (hprev _ _ hst)
        exact .inr (.inr (.inl ⟨db, hrows, by simp only [recordStep, htask, hst, he]⟩))
      · refine .inr (.inr (.inr ⟨task, prev, rfl, rfl, ?_⟩))
        simp only [recordStep, htask, hst, PgAuditSink.append_of_accepts ha (hprev _ _ hst)]
    · exact .inl (by simp only [recordStep, htask, hst])

/-- What holds of the calls and the tenant's rows after every statement.  A call
between its statements holds the hash that was the last one when it selected; the
rows that came since are those of the accepted INSERTs in between. -/
structure RecordInv (sha256 : List UInt8 → List UInt8) (t : String) (s : RecordState)
    (trace : List ChainStep) : Prop where
  /-- Every row of the tenant was written by `record`. -/
  recorded : ∀ r ∈ s.db.tenantRows t, r.Recorded sha256
  /-- A fresh call has not selected. -/
  fresh : ∀ i, s.status i = .fresh → ChainStep.selected i ∉ trace
  /-- A call between its statements selected once, and holds the last hash of
  the rows inserted before that. -/
  selected : ∀ i prev, s.status i = .selected prev → IsHexText prev ∧
    ∃ pre mid rows₁ rows₂, trace = pre ++ .selected i :: mid ∧
      ChainStep.selected i ∉ pre ∧ ChainStep.selected i ∉ mid ∧
      s.db.tenantRows t = rows₁ ++ rows₂ ∧ prev = lastHash rows₁ ∧
      (rows₂ = [] ↔ ∀ j, ChainStep.inserted j ∉ mid)
  /-- The chain is linear exactly when it was never forked. -/
  linear : Set.InjOn sha256 {bs | ∃ r ∈ s.db.tenantRows t, bs = r.hashedText} →
    (Linear (s.db.tenantRows t) ↔ Unforked trace)

/-- A call other than `i` keeps what it holds when `i` emits `x` and the
tenant's rows grow by `new`. -/
theorem selected_mono {rows : List AuditRow} {trace : List ChainStep} {j : Nat} {prev : String}
    (x : ChainStep) (new : List AuditRow) (hx : x ≠ .selected j)
    (hnew : new = [] ↔ ∀ k, x ≠ .inserted k)
    (h : ∃ pre mid rows₁ rows₂, trace = pre ++ .selected j :: mid ∧
      ChainStep.selected j ∉ pre ∧ ChainStep.selected j ∉ mid ∧
      rows = rows₁ ++ rows₂ ∧ prev = lastHash rows₁ ∧
      (rows₂ = [] ↔ ∀ k, ChainStep.inserted k ∉ mid)) :
    ∃ pre mid rows₁ rows₂, trace ++ [x] = pre ++ .selected j :: mid ∧
      ChainStep.selected j ∉ pre ∧ ChainStep.selected j ∉ mid ∧
      rows ++ new = rows₁ ++ rows₂ ∧ prev = lastHash rows₁ ∧
      (rows₂ = [] ↔ ∀ k, ChainStep.inserted k ∉ mid) := by
  obtain ⟨pre, mid, rows₁, rows₂, rfl, hpre, hmid, rfl, hprev, hiff⟩ := h
  -- the SELECT stays where it was, and the new statement comes behind it
  refine ⟨pre, mid ++ [x], rows₁, rows₂ ++ new, by simp, hpre, ?_, by simp, hprev, ?_⟩
  · simpa [hmid] using hx.symm
  · simp only [List.append_eq_nil_iff, hiff, hnew, List.mem_append, List.mem_singleton, not_or]
    constructor
    · rintro ⟨h1, h2⟩ k
      exact ⟨h1 k, fun e => h2 k e.symm⟩
    · intro h
      exact ⟨fun k => (h k).1, fun k e => (h k).2 e.symm⟩

@[simp] theorem RecordState.mark_db (s : RecordState) (i : Nat) (st : TaskStatus) (db : AuditDb) :
    (s.mark i st db).db = db := rfl

@[simp] theorem RecordState.mark_self (s : RecordState) (i : Nat) (st : TaskStatus)
    (db : AuditDb) : (s.mark i st db).status i = st := by
  simp [mark]

theorem RecordState.mark_of_ne (s : RecordState) {i j : Nat} (h : j ≠ i) (st : TaskStatus)
    (db : AuditDb) : (s.mark i st db).status j = s.status j := by
  simp [mark, h]

variable {tasks : List RecordTask} {t : String} {s : RecordState} {trace : List ChainStep}

/-- A call that is not where `i` was just marked to be is another call, and
is where it was. -/
theorem RecordState.of_mark {i j : Nat} {st st' : TaskStatus} {db : AuditDb} (hne : st ≠ st')
    (h : (s.mark i st db).status j = st') : j ≠ i ∧ s.status j = st' := by
  have hji : j ≠ i := by
    rintro rfl
    exact hne ((s.mark_self j st db).symm.trans h)
  exact ⟨hji, (s.mark_of_ne hji st db).symm.trans h⟩

/-- A SELECT keeps the invariant: the call now holds the current last hash. -/
theorem RecordInv.select (h : RecordInv sha256 t s trace) {i : Nat}
    (hfresh : s.status i = .fresh) :
    RecordInv sha256 t (s.mark i (.selected (lastHash (s.db.tenantRows t))) s.db)
      (trace ++ [.selected i]) where
  recorded := h.recorded
  fresh := by
    intro j hj
    obtain ⟨hji, hj⟩ := RecordState.of_mark (by simp) hj
    simp [h.fresh j hj, hji]
  selected := by
    -- the call itself has just read; the others have not moved
    intro j prev hj
    by_cases hji : j = i
    · subst hji
      obtain rfl : lastHash (s.db.tenantRows t) = prev := by simpa using hj
      exact ⟨isHexText_lastHash h.recorded, trace, [], s.db.tenantRows t, [], rfl,
        h.fresh j hfresh, by simp, by simp, rfl, by simp⟩
    · rw [s.mark_of_ne hji] at hj
      obtain ⟨hhex, hheld⟩ := h.selected j prev hj
      refine ⟨hhex, ?_⟩
      simpa using selected_mono (.selected i) []
        (fun e => hji (ChainStep.selected.inj e).symm) (by simp) hheld
  linear := fun hinj => (h.linear hinj).trans (unforked_concat (by simp)).symm

/-- A failing statement keeps the invariant. -/
theorem RecordInv.fail (h : RecordInv sha256 t s trace) {i : Nat} {db : AuditDb}
    (hrows : db.rows = s.db.rows) :
    RecordInv sha256 t (s.mark i .finished db) (trace ++ [.failed i]) where
  recorded := by
    rw [s.mark_db, AuditDb.tenantRows_congr hrows]
    exact h.recorded
  fresh := by
    intro j hj
    simp [h.fresh j (RecordState.of_mark (by simp) hj).2]
  selected := by
    intro j prev hj
    obtain ⟨hhex, hheld⟩ := h.selected j prev (RecordState.of_mark (by simp) hj).2
    refine ⟨hhex, ?_⟩
    rw [s.mark_db, AuditDb.tenantRows_congr hrows]
    simpa using selected_mono (.failed i) [] (by simp) (by simp) hheld
  linear := by
    rw [s.mark_db, AuditDb.tenantRows_congr hrows]
    exact fun hinj => (h.linear hinj).trans (unforked_concat (by simp)).symm

/-- An accepted INSERT keeps the invariant: the new row extends the chain
exactly when the hash the call holds is still the last one. -/
theorem RecordInv.insert (h32 : ∀ bs, (sha256 bs).length = 32) (h : RecordInv sha256 t s trace)
    {i : Nat} {prev : String} {e : AuditEvent} {now : Int} (hsel : s.status i = .selected prev)
    (ht : e.tenantId = t) :
    RecordInv sha256 t
      (s.mark i .finished (s.db.push (e.toRow sha256 prev s.db.nextId now)))
      (trace ++ [.inserted i]) := by
  obtain ⟨hhex, hheld⟩ := h.selected i prev hsel
  have hrows : (s.db.push (e.toRow sha256 prev s.db.nextId now)).tenantRows t =
      s.db.tenantRows t ++ [e.toRow sha256 prev s.db.nextId now] :=
    AuditDb.tenantRows_push s.db ht
  have hrec : ∀ r ∈ s.db.tenantRows t ++ [e.toRow sha256 prev s.db.nextId now],
      r.Recorded sha256 := by
    intro r hr
    rcases List.mem_append.mp hr with hr | hr
    · exact h.recorded r hr
    · exact ⟨e, prev, s.db.nextId, now, hhex, List.mem_singleton.mp hr⟩
  refine ⟨?_, ?_, ?_, ?_⟩
  · rw [s.mark_db, hrows]
    exact hrec
  · intro j hj
    simp [h.fresh j (RecordState.of_mark (by simp) hj).2]
  · intro j prev' hj
    obtain ⟨hhex', hheld'⟩ := h.selected j prev' (RecordState.of_mark (by simp) hj).2
    refine ⟨hhex', ?_⟩
    rw [s.mark_db, hrows]
    exact selected_mono (.inserted i) _ (by simp) (by simp) hheld'
  · rw [s.mark_db, hrows]
    intro hinj
    have hinj' : Set.InjOn sha256 {bs | ∃ r ∈ s.db.tenantRows t, bs = r.hashedText} := by
      apply hinj.mono
      rintro _ ⟨r, hr, rfl⟩
      exact ⟨r, List.mem_append_left _ hr, rfl⟩
    obtain ⟨pre, mid, rows₁, rows₂, htrace, hpre, hmid, hsplit, hprev, hiff⟩ := hheld
    have hlin := h.linear hinj'
    rw [Linear, HashChain.linked_concat, lastDigest_of_recorded h.recorded, ← Linear, hlin, htrace,
      unforked_concat_inserted hpre hmid, ← htrace]
    apply and_congr_right
    intro hunforked
    -- `rows₂` are the rows inserted since the SELECT of the call
    rw [← hiff]
    constructor
    · intro hlast
      have hlast' : lastHash rows₁ = lastHash (rows₁ ++ rows₂) := by
        rw [← hprev, ← hsplit]
        exact Option.some.inj hlast
      rw [hsplit] at hinj' hlin
      exact eq_nil_of_lastHash_eq (fun r hr => h.recorded r (hsplit ▸ hr)) h32 hinj'
        (hlin.mpr hunforked) hlast'
    · rintro rfl
      rw [hsplit, List.append_nil, ← hprev]
      rfl

/-- Every statement keeps the invariant, when the sinks read the table and
the events are the tenant's. -/
theorem RecordInv.step (h32 : ∀ bs, (sha256 bs).length = 32)
    (hread : ∀ task ∈ tasks, task.sink.client.bypassRls = true ∧ task.event.tenantId = t)
    (h : RecordInv sha256 t s trace) (i : Nat × Int) :
    RecordInv sha256 t (recordStep sha256 tasks s i).1
      (trace ++ (recordStep sha256 tasks s i).2) := by
  have hnul : ∀ j prev, s.status j = .selected prev → hasNul prev = false :=
    fun j prev hj => hasNul_of_isHexText (h.selected j prev hj).1
  rcases recordStep_cases i hnul with e | ⟨task, prev, htask, hfresh, hfetch, e⟩ |
    ⟨db, hrows, e⟩ | ⟨task, prev, htask, hsel, e⟩ <;> rw [e]
  · simpa using h
  · obtain ⟨hb, ht⟩ := hread task (List.mem_of_getElem? htask)
    rw [PgAuditSink.fetchPrev_bypass hb, ht] at hfetch
    split at hfetch
    -- a tenant with a NUL is refused, and nothing is read
    · cases hfetch
    · obtain rfl : lastHash (s.db.tenantRows t) = prev := Except.ok.inj hfetch
      exact h.select hfresh
  · exact h.fail hrows
  · exact h.insert h32 hsel (hread task (List.mem_of_getElem? htask)).2

theorem recordInv_run (h32 : ∀ bs, (sha256 bs).length = 32)
    (hread : ∀ task ∈ tasks, task.sink.client.bypassRls = true ∧ task.event.tenantId = t)
    {db : AuditDb} (h0 : db.tenantRows t = []) (schedule : List (Nat × Int)) :
    RecordInv sha256 t (runRecords sha256 tasks db schedule).1
      (runRecords sha256 tasks db schedule).2 := by
  refine Machine.run_induction (P := fun _ s trace => RecordInv sha256 t s trace) ?_
    (fun _ i _ _ h => h.step h32 hread i) schedule
  refine ⟨by simp [h0], by simp, by simp, fun _ => ?_⟩
  rw [h0]
  exact iff_of_true trivial (fun pre mid post i e => absurd e (by simp))

/-- **Linearity under concurrency**: whatever the schedule, the tenant's rows
form one chain exactly when no accepted INSERT falls between a call's SELECT
and its own accepted INSERT. -/
theorem linear_iff_unforked (h32 : ∀ bs, (sha256 bs).length = 32)
    (hread : ∀ task ∈ tasks, task.sink.client.bypassRls = true ∧ task.event.tenantId = t)
    {db : AuditDb} (h0 : db.tenantRows t = []) (schedule : List (Nat × Int))
    (hinj : Set.InjOn sha256 {bs |
      ∃ r ∈ (runRecords sha256 tasks db schedule).1.db.tenantRows t, bs = r.hashedText}) :
    Linear ((runRecords sha256 tasks db schedule).1.db.tenantRows t) ↔
      Unforked (runRecords sha256 tasks db schedule).2 :=
  (recordInv_run h32 hread h0 schedule).linear hinj

/-- A read and a modification of the tenant `acme`, through one sink that
reads the table. -/
def acmeTasks : List RecordTask :=
  [⟨.connect true (.ok ()) "acme", .new 0 (.all "acme" "ana") .read true .null⟩,
   ⟨.connect true (.ok ()) "acme", .new 0 (.all "acme" "ana") .modify true .null⟩]

/-- The schedule in which both calls select before either inserts. -/
def racingSchedule : List (Nat × Int) := [(0, 1), (1, 1), (0, 2), (1, 3)]

theorem linear_iff_unforked_acme :
    Linear ((runRecords sha256OfAcme acmeTasks (.empty [(0, 10)] []) racingSchedule).1.db.tenantRows
        "acme") ↔
      Unforked (runRecords sha256OfAcme acmeTasks (.empty [(0, 10)] []) racingSchedule).2 := by
  refine linear_iff_unforked length_sha256OfAcme (fun task htask => ?_) rfl _ ?_
  · rcases List.mem_cons.mp htask with rfl | htask
    · exact ⟨rfl, rfl⟩
    · rw [List.mem_singleton.mp htask]
      exact ⟨rfl, rfl⟩
  · have htexts : ((runRecords sha256OfAcme acmeTasks (.empty [(0, 10)] [])
        racingSchedule).1.db.tenantRows "acme").map AuditRow.hashedText =
          [utf8 "read|1|acme|", utf8 "modify|4|acme|"] := by
      decide +kernel
    apply injOn_of_pair (utf8 "read|1|acme|") (utf8 "modify|4|acme|") (by decide +kernel)
    rintro _ ⟨r, hr, rfl⟩
    exact htexts ▸ List.mem_map_of_mem hr

/-- Both racing records name the empty hash: the second row does not name the
first one. -/
theorem racing_records_fork :
    ¬ Linear ((runRecords sha256OfAcme acmeTasks (.empty [(0, 10)] [])
      racingSchedule).1.db.tenantRows "acme") := by
  have hrows : ((runRecords sha256OfAcme acmeTasks (.empty [(0, 10)] [])
      racingSchedule).1.db.tenantRows "acme").map (fun r => (r.prevHash, r.rowHash)) =
        [(some "", some "4d57290923f244c10c4a9654950ebcab314315074c15479c1fd31729fa8fd685"),
         (some "", some "5e62714829578bba4d208e02f4f87fe2e30ff15bcd43db28e888c485fb505d24")] := by
    decide +kernel
  -- of the two rows there are, the second would have to name the first
  rcases e : (runRecords sha256OfAcme acmeTasks (.empty [(0, 10)] [])
    racingSchedule).1.db.tenantRows "acme" with - | ⟨r, - | ⟨r', rows⟩⟩
  · rw [e] at hrows
    cases hrows
  · rw [e] at hrows
    exact absurd (congrArg List.length hrows) (by simp)
  · rw [e] at hrows
    simp only [List.map_cons, List.cons.injEq, Prod.mk.injEq] at hrows
    rintro ⟨-, hlink, -⟩
    rw [hrows.1.2, hrows.2.1.1] at hlink
    exact absurd hlink (by decide)

end AgenticIde
