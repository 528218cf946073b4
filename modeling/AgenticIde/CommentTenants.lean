/-
AgenticIde/CommentTenants.lean

What a tenant learns of the others from the comment store in memory.

Comments are numbered across tenants, so a tenant that is alone on the store sees other ids
than in company; `renameId` takes the ids it sees in company to those it would see alone.
Up to this renaming every answer is the same, but for the order of a listing: ids are the
last key of the sort, and the texts of two numbers need not compare like the texts of the
numbers they are renamed to (`noninterference_iff`).

A run with all tenants is compared with the run of one tenant's operations, renamed
(`purge`), by a simulation: after every prefix, what the tenant has of the store, with its
ids renamed, is the store it would have alone (`alone`).  Its own operations keep that
(`alone_perform`), and so do those of others, which leave its comments as they are.

The renaming depends on the whole run, as an id can be asked for before it is given out; it
is one function for all steps, and on ids of the tenant it is one to one.  Answers agree
step by step then (`perform_alone_iff`), listings with ties excepted.  `TiesAgree` is about
two comments on one line of a file, and names the only comparison that can differ.
-/
import AgenticIde.Collab
import AgenticIde.Lib.Machine
import AgenticIde.Lib.Sort
import Mathlib

namespace AgenticIde

namespace InMemoryCommentStore

/-! ### Runs -/

/-- An operation as a step, its answer tagged with the tenant it acts for. -/
def step (self : InMemoryCommentStore) (op : CommentOp) :
    InMemoryCommentStore × List (String × CommentReply) :=
  ((self.perform op).2, [(op.tenantId, (self.perform op).1)])

/-- The store after some operations. -/
def after (ops : List CommentOp) : InMemoryCommentStore := (Machine.run step new ops).1

/-- The answers a tenant gets. -/
def repliesTo (tenantId : String) (ops : List CommentOp) : List CommentReply :=
  ((Machine.run step new ops).2.filter (·.1 = tenantId)).map Prod.snd

@[simp] theorem after_concat (ops : List CommentOp) (op : CommentOp) :
    after (ops ++ [op]) = ((after ops).perform op).2 := by
  rw [after, Machine.run_concat]
  rfl

theorem repliesTo_concat (tenantId : String) (ops : List CommentOp) (op : CommentOp) :
    repliesTo tenantId (ops ++ [op]) = repliesTo tenantId ops ++
      if op.tenantId = tenantId then [((after ops).perform op).1] else [] := by
  rw [repliesTo, repliesTo, Machine.run_concat, List.filter_append, List.map_append]
  congr 1
  by_cases h : op.tenantId = tenantId <;> simp [step, after, h]

/-! ### Ids -/

/-- The ids of the first comments. -/
def firstIds (n : Nat) : List String := (List.range n).map fun i => s!"c{i + 1}"

theorem commentId_injective : Function.Injective fun i : Nat => s!"c{i + 1}" := by
  intro i j h
  have hrepr : ("c" ++ (i + 1).repr : String) = "c" ++ (j + 1).repr := h
  have hlist := congrArg String.toList hrepr
  rw [String.toList_append, String.toList_append, List.append_cancel_left_eq] at hlist
  have hnat := Nat.repr_injective (String.toList_inj.mp hlist)
  omega

theorem nodup_firstIds (n : Nat) : (firstIds n).Nodup :=
  List.nodup_range.map commentId_injective

@[simp] theorem resolveIn_ids (tenantId id : String) (cs : List Comment) :
    (resolveIn tenantId id cs).2.map Comment.id = cs.map Comment.id := by
  induction cs with
  | nil => rfl
  | cons c cs ih =>
      unfold resolveIn
      split
      · rfl
      · rw [List.map_cons, List.map_cons, ih]

/-- The comments of a store are numbered in the order they were added. -/
theorem ids_after (ops : List CommentOp) :
    (after ops).comments.map Comment.id = firstIds (after ops).counter := by
  induction ops using List.reverseRecOn with
  | nil => rfl
  | append_singleton ops op ih =>
      rw [after_concat]
      cases op with
      | add tenantId file lineStart lineEnd author body now =>
          show ((after ops).comments ++ [_]).map Comment.id = firstIds ((after ops).counter + 1)
          rw [List.map_append, ih, firstIds, firstIds, List.range_succ, List.map_append]
          rfl
      | resolve tenantId id =>
          show (resolveIn tenantId id (after ops).comments).2.map Comment.id = _
          rw [resolveIn_ids]
          exact ih
      | listForFile tenantId file => exact ih

/-- The comments of a tenant, in the order they were added. -/
def own (tenantId : String) (cs : List Comment) : List Comment :=
  cs.filter (·.tenantId = tenantId)

/-- The ids of the comments a tenant has after some operations. -/
def ownIds (tenantId : String) (ops : List CommentOp) : List String :=
  (own tenantId (after ops).comments).map Comment.id

theorem nodup_ownIds (tenantId : String) (ops : List CommentOp) :
    (ownIds tenantId ops).Nodup := by
  have hall : ((after ops).comments.map Comment.id).Nodup := by
    rw [ids_after]
    exact nodup_firstIds _
  exact hall.sublist (List.filter_sublist.map _)

/-- A store has one comment under an id. -/
theorem eq_of_id_eq {ops : List CommentOp} {a b : Comment} (ha : a ∈ (after ops).comments)
    (hb : b ∈ (after ops).comments) (h : a.id = b.id) : a = b := by
  have hall : ((after ops).comments.map Comment.id).Nodup := by
    rw [ids_after]
    exact nodup_firstIds _
  exact List.inj_on_of_nodup_map hall ha hb h

/-- Resolving for a tenant looks at its own comments. -/
theorem own_resolveIn (tenantId id : String) (cs : List Comment) :
    (resolveIn tenantId id cs).1 = (resolveIn tenantId id (own tenantId cs)).1 ∧
      own tenantId (resolveIn tenantId id cs).2 = (resolveIn tenantId id (own tenantId cs)).2 := by
  induction cs with
  | nil => exact ⟨rfl, rfl⟩
  | cons c cs ih =>
      by_cases htenant : c.tenantId = tenantId
      · by_cases hid : c.id = id
        · simp [resolveIn, own, htenant, hid]
        · simpa [resolveIn, own, htenant, hid] using ih
      · simpa [resolveIn, own, htenant] using ih

/-- It leaves those of every other tenant as they are. -/
theorem own_resolveIn_of_ne {tenantId tenantId' : String} (h : tenantId' ≠ tenantId) (id : String)
    (cs : List Comment) : own tenantId (resolveIn tenantId' id cs).2 = own tenantId cs := by
  induction cs with
  | nil => rfl
  | cons c cs ih =>
      unfold resolveIn
      split
      · rename_i hmatch
        have hne : c.tenantId ≠ tenantId := hmatch.1 ▸ h
        simp [own, hne]
      · simp only [own, List.filter_cons] at ih ⊢
        rw [ih]

/-- An operation adds to the ids of its tenant at most. -/
theorem ownIds_concat (tenantId : String) (ops : List CommentOp) (op : CommentOp) :
    ownIds tenantId ops <+: ownIds tenantId (ops ++ [op]) := by
  -- By the operation: one `add` adds one id at the end, the others change no ids.
  cases op with
  | add tenantId' file lineStart lineEnd author body now =>
      rw [ownIds, ownIds, after_concat]
      show _ <+: (own tenantId ((after ops).comments ++ [_])).map Comment.id
      rw [own, own, List.filter_append, List.map_append]
      exact List.prefix_append _ _
  | resolve tenantId' id =>
      rw [ownIds, ownIds, after_concat]
      show _ <+: (own tenantId (resolveIn tenantId' id (after ops).comments).2).map Comment.id
      by_cases h : tenantId' = tenantId
      · subst h
        rw [(own_resolveIn _ _ _).2, resolveIn_ids]
      · rw [own_resolveIn_of_ne h]
  | listForFile tenantId' file =>
      rw [ownIds, ownIds, after_concat]
      exact List.prefix_rfl

theorem ownIds_mono (tenantId : String) {ops ops' : List CommentOp} (h : ops <+: ops') :
    ownIds tenantId ops <+: ownIds tenantId ops' := by
  obtain ⟨rest, rfl⟩ := h
  induction rest using List.reverseRecOn with
  | nil => rw [List.append_nil]
  | append_singleton rest op ih =>
      rw [← List.append_assoc]
      exact ih.trans (ownIds_concat tenantId _ op)

end InMemoryCommentStore

/-! ### Renaming -/

/-- The id a tenant's comment would have without the others: its number among
the tenant's comments.  An id that is none of the tenant's becomes one that
no store assigns. -/
def renameId (ownIds : List String) (id : String) : String :=
  if id ∈ ownIds then s!"c{ownIds.idxOf id + 1}" else ""

theorem renameId_ne_empty {ownIds : List String} {id : String} (h : id ∈ ownIds) :
    renameId ownIds id ≠ "" := by
  rw [renameId, if_pos h]
  intro hempty
  have hlist : 'c' :: (ownIds.idxOf id + 1).repr.toList = [] := by
    have := congrArg String.toList hempty
    rwa [show (s!"c{ownIds.idxOf id + 1}" : String) = "c" ++ (ownIds.idxOf id + 1).repr from rfl,
      String.toList_append] at this
  cases hlist

/-- A tenant's own ids are told apart from every other id. -/
theorem renameId_eq_iff {ownIds : List String} {a id : String} (ha : a ∈ ownIds) :
    renameId ownIds a = renameId ownIds id ↔ a = id := by
  constructor
  · intro h
    by_cases hid : id ∈ ownIds
    · rw [renameId, renameId, if_pos ha, if_pos hid] at h
      exact (List.idxOf_inj ha).mp (InMemoryCommentStore.commentId_injective h)
    · have hempty : renameId ownIds id = "" := if_neg hid
      exact absurd (h.trans hempty) (renameId_ne_empty ha)
  · rintro rfl
    rfl

/-- Rename the id of a comment. -/
def Comment.rename (ρ : String → String) (c : Comment) : Comment := { c with id := ρ c.id }

/-- Rename the id an operation asks for. -/
def CommentOp.rename (ρ : String → String) : CommentOp → CommentOp
  | resolve tenantId id => resolve tenantId (ρ id)
  | op => op

/-- Rename the ids of an answer. -/
def CommentReply.rename (ρ : String → String) : CommentReply → CommentReply
  | added id => added (ρ id)
  | resolved found => resolved found
  | listed comments => listed (comments.map (Comment.rename ρ))

/-- The operations of a tenant alone, on the ids it would see then. -/
def purge (tenantId : String) (ρ : String → String) (ops : List CommentOp) : List CommentOp :=
  (ops.filter (·.tenantId = tenantId)).map (.rename ρ)

theorem purge_concat (tenantId : String) (ρ : String → String) (ops : List CommentOp)
    (op : CommentOp) :
    purge tenantId ρ (ops ++ [op]) =
      purge tenantId ρ ops ++ if op.tenantId = tenantId then [op.rename ρ] else [] := by
  rw [purge, purge, List.filter_append, List.map_append]
  congr 1
  by_cases h : op.tenantId = tenantId <;> simp [h]

namespace InMemoryCommentStore

/-- The store a tenant would have alone. -/
def alone (tenantId : String) (ρ : String → String) (self : InMemoryCommentStore) :
    InMemoryCommentStore :=
  ⟨(own tenantId self.comments).map (Comment.rename ρ), (own tenantId self.comments).length⟩

/-- Two comments of the tenant on the file which only their ids tell apart in
a listing are in the same order under either id. -/
def TiesAgree (tenantId : String) (ρ : String → String) (file : String)
    (self : InMemoryCommentStore) : Prop :=
  ∀ a ∈ self.comments, ∀ b ∈ self.comments, a.tenantId = tenantId → b.tenantId = tenantId →
    a.file = file → b.file = file → a.resolved = b.resolved → a.lineStart = b.lineStart →
    (a.id ≤ b.id ↔ ρ a.id ≤ ρ b.id)

/-- What the others do does not reach the store a tenant would have alone. -/
theorem alone_perform_of_ne {tenantId : String} {op : CommentOp} (h : op.tenantId ≠ tenantId)
    (ρ : String → String) (self : InMemoryCommentStore) :
    (self.perform op).2.alone tenantId ρ = self.alone tenantId ρ := by
  have hown : own tenantId (self.perform op).2.comments = own tenantId self.comments := by
    cases op with
    | add tenantId' file lineStart lineEnd author body now =>
        show own tenantId (self.comments ++ [_]) = _
        rw [own, own, List.filter_append, List.filter_singleton]
        have hne : tenantId' ≠ tenantId := h
        simp [Comment.new, hne]
    | resolve tenantId' id => exact own_resolveIn_of_ne h id self.comments
    | listForFile tenantId' file => rfl
  rw [alone, alone, hown]

/-- Resolving commutes with a renaming that tells the ids apart. -/
theorem resolveIn_rename {ρ : String → String} {tenantId id : String} {cs : List Comment}
    (hρ : ∀ c ∈ cs, ρ c.id = ρ id ↔ c.id = id) :
    resolveIn tenantId (ρ id) (cs.map (Comment.rename ρ)) =
      ((resolveIn tenantId id cs).1, (resolveIn tenantId id cs).2.map (Comment.rename ρ)) := by
  induction cs with
  | nil => rfl
  | cons c cs ih =>
      have hc := hρ c List.mem_cons_self
      specialize ih fun c' hc' => hρ c' (List.mem_cons_of_mem _ hc')
      rw [List.map_cons]
      unfold resolveIn
      by_cases hmatch : c.tenantId = tenantId ∧ c.id = id
      · rw [if_pos hmatch, if_pos ⟨hmatch.1, hc.mpr hmatch.2⟩]
        rfl
      · rw [if_neg hmatch, if_neg fun hmatch' => hmatch ⟨hmatch'.1, hc.mp hmatch'.2⟩, ih]
        rfl

theorem own_concat_self {tenantId : String} (cs : List Comment) {c : Comment}
    (h : c.tenantId = tenantId) : own tenantId (cs ++ [c]) = own tenantId cs ++ [c] := by
  simp [own, h]

section Visible

variable {tenantId : String} {ops pre : List CommentOp}

/-- The next comment of the tenant is renamed to its number among them. -/
theorem renameId_next {file author body : String} {lineStart lineEnd : Nat} {now : Int}
    (hpre : pre ++ [.add tenantId file lineStart lineEnd author body now] <+: ops) :
    renameId (ownIds tenantId ops) s!"c{(after pre).counter + 1}" =
      s!"c{(own tenantId (after pre).comments).length + 1}" := by
  -- In company the new id is at the end of the tenant's ids, and it is a new one; so its
  -- index among them is their number.
  have hids : ownIds tenantId (pre ++ [.add tenantId file lineStart lineEnd author body now]) =
      ownIds tenantId pre ++ [s!"c{(after pre).counter + 1}"] := by
    rw [ownIds, ownIds, after_concat]
    show (own tenantId ((after pre).comments ++ [_])).map Comment.id = _
    rw [own, own, List.filter_append, List.map_append, List.filter_singleton]
    simp [Comment.new]
  have hnodup := nodup_ownIds tenantId
    (pre ++ [.add tenantId file lineStart lineEnd author body now])
  have hpfx := ownIds_mono tenantId hpre
  rw [hids] at hnodup hpfx
  obtain ⟨rest, hrest⟩ := hpfx
  have hfresh : s!"c{(after pre).counter + 1}" ∉ ownIds tenantId pre := by
    have hdisjoint := (List.nodup_append.mp hnodup).2.2
    exact fun hmem => hdisjoint _ hmem _ (List.mem_singleton_self _) rfl
  have hlength : (ownIds tenantId pre).length = (own tenantId (after pre).comments).length :=
    List.length_map ..
  rw [renameId, ← hrest, if_pos (by simp), List.append_assoc,
    List.idxOf_append_of_notMem hfresh, List.singleton_append, List.idxOf_cons_self, hlength]

/-- The ids of the comments a tenant has on the way are told apart. -/
theorem renameId_eq_iff_of_own (hpre : pre <+: ops) (id : String) :
    ∀ c ∈ own tenantId (after pre).comments,
      renameId (ownIds tenantId ops) c.id = renameId (ownIds tenantId ops) id ↔ c.id = id :=
  fun _ hc => renameId_eq_iff ((ownIds_mono tenantId hpre).subset (List.mem_map_of_mem hc))

/-- What the tenant does changes the store it would have alone as it changes
the store. -/
theorem alone_perform {op : CommentOp} (hop : op.tenantId = tenantId) (hpre : pre ++ [op] <+: ops) :
    (((after pre).alone tenantId (renameId (ownIds tenantId ops))).perform
        (op.rename (renameId (ownIds tenantId ops)))).2 =
      (after (pre ++ [op])).alone tenantId (renameId (ownIds tenantId ops)) := by
  set ρ := renameId (ownIds tenantId ops) with hρ
  rw [after_concat]
  cases op with
  -- The comment is added with the id it would have alone, which is what `renameId` makes of
  -- its own.
  | add tenantId' file lineStart lineEnd author body now =>
      obtain rfl : tenantId' = tenantId := hop
      have hnext := renameId_next hpre
      rw [← hρ] at hnext
      set c : Comment := { Comment.new tenantId' file lineStart lineEnd author body now with
        id := s!"c{(after pre).counter + 1}" } with hc
      have hown : own tenantId' ((after pre).comments ++ [c]) =
          own tenantId' (after pre).comments ++ [c] := own_concat_self _ rfl
      show _ = InMemoryCommentStore.mk ((own tenantId' ((after pre).comments ++ [c])).map _)
        (own tenantId' ((after pre).comments ++ [c])).length
      rw [hown, List.map_append, List.map_singleton, List.length_append, List.length_singleton,
        Comment.rename, hc, hnext]
      rfl
  | resolve tenantId' id =>
      obtain rfl : tenantId' = tenantId := hop
      have hresolve : resolveIn tenantId' (ρ id)
          ((own tenantId' (after pre).comments).map (Comment.rename ρ)) = _ :=
        resolveIn_rename (renameId_eq_iff_of_own ((List.prefix_append pre _).trans hpre) id)
      have hlength : (resolveIn tenantId' id (own tenantId' (after pre).comments)).2.length =
          (own tenantId' (after pre).comments).length := by
        -- Resolving changes one flag, so as many comments are there afterwards.
        rw [← List.length_map Comment.id, resolveIn_ids, List.length_map]
      show InMemoryCommentStore.mk (resolveIn tenantId' (ρ id)
          ((own tenantId' (after pre).comments).map (Comment.rename ρ))).2
          (own tenantId' (after pre).comments).length =
        InMemoryCommentStore.mk ((own tenantId' (resolveIn tenantId' id _).2).map _)
          (own tenantId' (resolveIn tenantId' id _).2).length
      rw [hresolve, (own_resolveIn tenantId' id _).2, hlength]
  | listForFile tenantId' file => rfl

/-- A listing is the listing the tenant would get alone exactly when its ties
agree. -/
theorem listForFile_alone_iff (hpre : pre <+: ops) (file : String) :
    ((after pre).alone tenantId (renameId (ownIds tenantId ops))).listForFile tenantId file =
        ((after pre).listForFile tenantId file).map (.rename (renameId (ownIds tenantId ops))) ↔
      (after pre).TiesAgree tenantId (renameId (ownIds tenantId ops)) file := by
  set ρ := renameId (ownIds tenantId ops) with hρ
  set listed := (after pre).comments.filter fun c => c.tenantId = tenantId ∧ c.file = file
    with hlisted
  have hmem : ∀ c ∈ listed, c ∈ (after pre).comments ∧ c.tenantId = tenantId ∧ c.file = file := by
    intro c hc
    simpa [hlisted] using hc
  have halone : ((own tenantId (after pre).comments).map (Comment.rename ρ)).filter
      (fun c => c.tenantId = tenantId ∧ c.file = file) = listed.map (Comment.rename ρ) := by
    rw [List.filter_map, own, List.filter_filter, hlisted]
    congr 1
    apply List.filter_congr
    intro c _
    by_cases htenant : c.tenantId = tenantId <;> simp [Comment.rename, htenant]
  have hids : ∀ a ∈ listed, ∀ b ∈ listed, ρ a.id = ρ b.id → a = b := by
    intro a ha b hb h
    have hown : a ∈ own tenantId (after pre).comments := by
      simpa [own] using ⟨(hmem a ha).1, (hmem a ha).2.1⟩
    exact eq_of_id_eq (hmem a ha).1 (hmem b hb).1
      ((renameId_eq_iff_of_own hpre b.id a hown).mp h)
  have hsort := map_mergeSort_iff (f := Comment.rename ρ) (l := listed) Comment.le_trans
    Comment.le_total Comment.le_trans Comment.le_total
    (fun a ha b hb hab hba => eq_of_id_eq (hmem a ha).1 (hmem b hb).1
      (Comment.id_eq_of_le_of_le hab hba))
    (fun a ha b hb hab hba => hids a ha b hb (Comment.id_eq_of_le_of_le hab hba))
  show (((own tenantId (after pre).comments).map (Comment.rename ρ)).filter _).mergeSort _ =
    (listed.mergeSort _).map _ ↔ _
  rw [halone, hsort]
  constructor
  · intro h a ha b hb hta htb hfa hfb hresolved hline
    have hle := h a (by simpa [hlisted] using ⟨ha, hta, hfa⟩) b
      (by simpa [hlisted] using ⟨hb, htb, hfb⟩)
    rw [Bool.eq_iff_iff, Comment.le_iff, Comment.le_iff] at hle
    simpa [Comment.rename, hresolved, hline] using hle
  · intro h a ha b hb
    obtain ⟨ha, hta, hfa⟩ := hmem a ha
    obtain ⟨hb, htb, hfb⟩ := hmem b hb
    rw [Bool.eq_iff_iff, Comment.le_iff, Comment.le_iff]
    simp only [Comment.rename]
    by_cases htie : a.resolved = b.resolved ∧ a.lineStart = b.lineStart
    · rw [h a ha b hb hta htb hfa hfb htie.1 htie.2]
    · -- without a tie the ids are not looked at
      have hskip : ∀ p : Prop, (a.resolved = b.resolved ∧ (a.lineStart < b.lineStart ∨
          a.lineStart = b.lineStart ∧ p)) ↔
          (a.resolved = b.resolved ∧ a.lineStart < b.lineStart) := by
        intro p
        constructor
        · rintro ⟨hresolved, hline | ⟨hline, -⟩⟩
          · exact ⟨hresolved, hline⟩
          · exact absurd ⟨hresolved, hline⟩ htie
        · rintro ⟨hresolved, hline⟩
          exact ⟨hresolved, .inl hline⟩
      rw [hskip, hskip]

/-- What the tenant is answered is what it would be answered alone, but for a
listing whose ties disagree. -/
theorem perform_alone_iff {op : CommentOp} (hop : op.tenantId = tenantId)
    (hpre : pre ++ [op] <+: ops) :
    (((after pre).alone tenantId (renameId (ownIds tenantId ops))).perform
        (op.rename (renameId (ownIds tenantId ops)))).1 =
        ((after pre).perform op).1.rename (renameId (ownIds tenantId ops)) ↔
      ∀ file, op = .listForFile tenantId file →
        (after pre).TiesAgree tenantId (renameId (ownIds tenantId ops)) file := by
  set ρ := renameId (ownIds tenantId ops) with hρ
  have hbefore : pre <+: ops := (List.prefix_append pre _).trans hpre
  cases op with
  | add tenantId' file lineStart lineEnd author body now =>
      obtain rfl : tenantId' = tenantId := hop
      -- Both are answered the id, in company and alone.
      have hnext := renameId_next hpre
      rw [← hρ] at hnext
      refine ⟨fun _ file h => (by cases h), fun _ => ?_⟩
      show CommentReply.added _ = CommentReply.added (ρ s!"c{(after pre).counter + 1}")
      rw [hnext]
      rfl
  | resolve tenantId' id =>
      obtain rfl : tenantId' = tenantId := hop
      have hresolve : resolveIn tenantId' (ρ id)
          ((own tenantId' (after pre).comments).map (Comment.rename ρ)) = _ :=
        resolveIn_rename (renameId_eq_iff_of_own hbefore id)
      refine ⟨fun _ file h => (by cases h), fun _ => ?_⟩
      -- Whether there is such a comment is the same, since the renaming is one to one on
      -- the tenant's ids.
      show CommentReply.resolved (resolveIn tenantId' (ρ id)
          ((own tenantId' (after pre).comments).map (Comment.rename ρ))).1 =
        CommentReply.resolved (resolveIn tenantId' id (after pre).comments).1
      rw [hresolve]
      exact congrArg CommentReply.resolved (own_resolveIn tenantId' id _).1.symm
  | listForFile tenantId' file =>
      obtain rfl : tenantId' = tenantId := hop
      have hlist : ((after pre).alone tenantId' (renameId (ownIds tenantId' ops))).listForFile
          tenantId' file = _ ↔ _ := listForFile_alone_iff hbefore file
      rw [← hρ] at hlist
      -- Listings differ in the order of ties at most.
      show CommentReply.listed _ = CommentReply.listed (((after pre).listForFile tenantId'
        file).map (Comment.rename ρ)) ↔ _
      rw [CommentReply.listed.injEq, show (((after pre).alone tenantId' ρ).listForFile tenantId'
        file = _ ↔ _) from hlist]
      constructor
      · intro h file' hfile
        cases hfile
        exact h
      · intro h
        exact h file rfl

/-- Up to some operation, the store a tenant would have alone, and whether it
is answered alike. -/
theorem run_purge (hpre : pre <+: ops) :
    after (purge tenantId (renameId (ownIds tenantId ops)) pre) =
        (after pre).alone tenantId (renameId (ownIds tenantId ops)) ∧
      (repliesTo tenantId (purge tenantId (renameId (ownIds tenantId ops)) pre) =
          (repliesTo tenantId pre).map (.rename (renameId (ownIds tenantId ops))) ↔
        ∀ before file, before ++ [.listForFile tenantId file] <+: pre →
          (after before).TiesAgree tenantId (renameId (ownIds tenantId ops)) file) := by
  induction pre using List.reverseRecOn with
  | nil => exact ⟨rfl, by simp [repliesTo, purge]⟩
  | append_singleton pre op ih =>
      obtain ⟨hafter, hreplies⟩ := ih ((List.prefix_append pre _).trans hpre)
      rw [purge_concat, repliesTo_concat, List.map_append]
      by_cases hop : op.tenantId = tenantId
      · have hperform := alone_perform hop hpre
        have hreply := perform_alone_iff hop hpre
        have hop' : (op.rename (renameId (ownIds tenantId ops))).tenantId = tenantId := by
          cases op <;> exact hop
        rw [if_pos hop, if_pos hop, after_concat, repliesTo_concat, if_pos hop', hafter, hperform]
        refine ⟨rfl, ?_⟩
        rw [List.map_singleton, List.append_singleton_inj, hreplies, hreply]
        constructor
        · rintro ⟨hbefore, hlast⟩ before file hpfx
          rcases List.prefix_concat_iff.mp hpfx with heq | hpfx
          · obtain ⟨rfl, hop⟩ := List.append_inj' heq rfl
            exact hlast file (List.singleton_inj.mp hop).symm
          · exact hbefore before file hpfx
        · intro h
          refine ⟨fun before file hpfx =>
            h before file (hpfx.trans (List.prefix_append _ _)), ?_⟩
          rintro file rfl
          exact h pre file List.prefix_rfl
      · have halone := alone_perform_of_ne hop (renameId (ownIds tenantId ops)) (after pre)
        rw [if_neg hop, if_neg hop, List.append_nil, List.map_nil, List.append_nil, after_concat,
          hafter, halone, hreplies]
        refine ⟨rfl, forall₂_congr fun before file => ?_⟩
        rw [List.prefix_concat_iff]
        refine imp_congr_left (or_iff_right ?_).symm
        -- the last operation is another tenant's
        intro heq
        obtain ⟨-, hlast⟩ := List.append_inj' heq rfl
        exact hop (by rw [← List.singleton_inj.mp hlast]; rfl)

end Visible

/-- **Tenants on one store**: removing the operations of all other tenants
leaves the answers to a tenant unchanged, up to the renaming of its ids,
exactly when at each of its listings any two of its comments on the file with
the same line and the same state are in one order under either id. -/
theorem noninterference_iff (tenantId : String) (ops : List CommentOp) :
    repliesTo tenantId (purge tenantId (renameId (ownIds tenantId ops)) ops) =
        (repliesTo tenantId ops).map (.rename (renameId (ownIds tenantId ops))) ↔
      ∀ before file, before ++ [.listForFile tenantId file] <+: ops →
        (after before).TiesAgree tenantId (renameId (ownIds tenantId ops)) file :=
  (run_purge List.prefix_rfl).2

/-- Eight comments of another tenant, and two of one's own on the same line. -/
def crowded : List CommentOp :=
  List.replicate 8 (.add "other" "src/a.rs" 1 1 "bob" "" 0) ++
    [.add "acme" "src/a.rs" 1 1 "alice" "first" 1, .add "acme" "src/a.rs" 1 1 "alice" "second" 2]

/-- The tenth comment is listed before the ninth; alone they are the first and
the second. -/
theorem not_noninterference :
    ¬ repliesTo "acme" (purge "acme"
        (renameId (ownIds "acme" (crowded ++ [.listForFile "acme" "src/a.rs"])))
        (crowded ++ [.listForFile "acme" "src/a.rs"])) =
      (repliesTo "acme" (crowded ++ [.listForFile "acme" "src/a.rs"])).map
        (.rename (renameId (ownIds "acme" (crowded ++ [.listForFile "acme" "src/a.rs"])))) := by
  intro h
  have hties := (run_purge List.prefix_rfl).2.mp h crowded "src/a.rs" List.prefix_rfl
  have hninth := hties ⟨"c9", "acme", "src/a.rs", 1, 1, "alice", "first", false, 1⟩ (by decide)
    ⟨"c10", "acme", "src/a.rs", 1, 1, "alice", "second", false, 2⟩ (by decide) rfl rfl rfl rfl rfl
    rfl
  exact absurd hninth (by decide)

end InMemoryCommentStore

end AgenticIde
