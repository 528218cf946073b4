/-
AgenticIde/Lib/HashChain.lean

Hash chains over any digests and any contents.  `link d x` is the digest of
the content `x` behind the digest `d`; a log `xs` that starts from the
digest `start` ends in the digest `head link start xs`.

A real hash function is not injective, so every result asks only that the
log at hand shows no collision (`Collisionless`, on the pairs `links` of the
log).  A link need not digest all of its content; what it binds is `bound`.

Results: the head binds the log (`head_inj`), no two positions of one log
share a digest (`head_prefix_inj`), and a stored log in which each entry
names the digest before it (`Linked`) grows at its end only.
-/
import Mathlib.Data.Set.Function
import Mathlib.Data.List.Induction

namespace AgenticIde

namespace HashChain

variable {δ ι γ ρ : Type*} {link : δ → ι → δ} {start : δ} {bound : ι → γ}

/-- The digest at the end of a log. -/
def head (link : δ → ι → δ) (start : δ) (xs : List ι) : δ := xs.foldl link start

/-- The pairs a log links, oldest first. -/
def links (link : δ → ι → δ) (start : δ) : List ι → List (δ × ι)
  | [] => []
  | x :: xs => (start, x) :: links link (link start x) xs

@[simp] theorem head_nil : head link start [] = start := rfl

@[simp] theorem head_concat (xs : List ι) (x : ι) :
    head link start (xs ++ [x]) = link (head link start xs) x := by
  simp [head]

theorem links_append (xs ys : List ι) :
    links link start (xs ++ ys) = links link start xs ++ links link (head link start xs) ys := by
  induction xs generalizing start with
  | nil => rfl
  | cons x xs ih => simp [links, ih, head]

@[simp] theorem links_concat (xs : List ι) (x : ι) :
    links link start (xs ++ [x]) = links link start xs ++ [(head link start xs, x)] := by
  rw [links_append]
  rfl

/-- Every link but the first stands behind a digest. -/
theorem fst_of_mem_links {xs : List ι} {p : δ × ι} (h : p ∈ links link start xs) :
    p.1 = start ∨ ∃ q : δ × ι, p.1 = link q.1 q.2 := by
  induction xs generalizing start with
  | nil => simp [links] at h
  | cons x xs ih =>
      rcases List.mem_cons.mp h with rfl | h
      · exact .inl rfl
      · exact .inr ((ih h).elim (fun h => ⟨(start, x), h⟩) id)

/-! ### The head binds the log -/

/-- The links in `S` show no collision: a digest determines the digest before
it and what `bound` reads off the content, and no link digests to `start`. -/
structure Collisionless (link : δ → ι → δ) (start : δ) (bound : ι → γ) (S : Set (δ × ι)) :
    Prop where
  inj : ∀ p ∈ S, ∀ q ∈ S, link p.1 p.2 = link q.1 q.2 → p.1 = q.1 ∧ bound p.2 = bound q.2
  fresh : ∀ p ∈ S, link p.1 p.2 ≠ start

/-- **The head binds the log**: two logs with the same head have the same bound
contents at every position, and the same length.  The link need not be injective; it
must not collide on the set of what is linked in the two logs. -/
theorem head_inj {S : Set (δ × ι)} (hS : Collisionless link start bound S) {xs ys : List ι}
    (hxs : ∀ p ∈ links link start xs, p ∈ S) (hys : ∀ p ∈ links link start ys, p ∈ S)
    (h : head link start xs = head link start ys) : xs.map bound = ys.map bound := by
  -- from the end: equal heads have equal last links, and those name equal heads
  induction xs using List.reverseRecOn generalizing ys with
  | nil =>
      rcases List.eq_nil_or_concat ys with rfl | ⟨ys, y, rfl⟩
      · rfl
      · rw [List.concat_eq_append, head_concat] at h
        exact absurd h.symm (hS.fresh (head link start ys, y) (hys _ (by simp)))
  | append_singleton xs x ih =>
      rcases List.eq_nil_or_concat ys with rfl | ⟨ys, y, rfl⟩
      · rw [head_concat] at h
        exact absurd h (hS.fresh (head link start xs, x) (hxs _ (by simp)))
      · rw [List.concat_eq_append, head_concat, head_concat] at h
        obtain ⟨hhead, hbound⟩ : head link start xs = head link start ys ∧ bound x = bound y :=
          hS.inj (head link start xs, x) (hxs _ (by simp)) (head link start ys, y)
            (hys _ (by simp)) h
        have ih' := ih (fun p hp => hxs p (by simp [hp])) (fun p hp => hys p (by simp [hp])) hhead
        simp [ih', hbound]

/-- No two positions of one log share a digest. -/
theorem head_prefix_inj {S : Set (δ × ι)} (hS : Collisionless link start bound S) {xs ys : List ι}
    (hxy : ∀ p ∈ links link start (xs ++ ys), p ∈ S)
    (h : head link start xs = head link start (xs ++ ys)) : ys = [] := by
  have hxs : ∀ p ∈ links link start xs, p ∈ S := by
    intro p hp
    apply hxy p
    rw [links_append]
    exact List.mem_append_left _ hp
  have hmap := head_inj hS hxs hxy h
  rw [List.map_append] at hmap
  exact List.map_eq_nil_iff.mp (List.self_eq_append_right.mp hmap)

/-! ### Stored logs -/

/-- A stored log in which every entry names the digest of the entry before
it, the first one naming `start`. -/
def Linked (prev digest : ρ → δ) : δ → List ρ → Prop
  | _, [] => True
  | d, r :: rs => prev r = d ∧ Linked prev digest (digest r) rs

/-- The digest of the last entry. -/
def lastDigest (digest : ρ → δ) (start : δ) (rs : List ρ) : δ :=
  (rs.getLast?.map digest).getD start

variable {prev digest : ρ → δ}

@[simp] theorem lastDigest_nil : lastDigest digest start [] = start := rfl

theorem lastDigest_cons (r : ρ) (rs : List ρ) :
    lastDigest digest start (r :: rs) = lastDigest digest (digest r) rs := by
  rw [lastDigest, List.getLast?_cons, lastDigest]
  rcases rs.getLast? with - | r' <;> rfl

@[simp] theorem lastDigest_concat (rs : List ρ) (r : ρ) :
    lastDigest digest start (rs ++ [r]) = digest r := by
  simp [lastDigest]

theorem linked_append {rs ss : List ρ} :
    Linked prev digest start (rs ++ ss) ↔
      Linked prev digest start rs ∧ Linked prev digest (lastDigest digest start rs) ss := by
  induction rs generalizing start with
  | nil => simp [Linked]
  | cons r rs ih =>
      rw [List.cons_append, Linked, Linked, ih, and_assoc]
      rw [lastDigest_cons]

/-- A linked log stays linked when the new entry names its last digest, and
only then. -/
theorem linked_concat {rs : List ρ} {r : ρ} :
    Linked prev digest start (rs ++ [r]) ↔
      Linked prev digest start rs ∧ prev r = lastDigest digest start rs := by
  rw [linked_append]
  simp [Linked]

/-- The digests of a linked log are those of its contents: its last digest
is their head. -/
theorem lastDigest_of_linked {content : ρ → ι} {rs : List ρ}
    (hd : ∀ r ∈ rs, digest r = link (prev r) (content r))
    (h : Linked prev digest start rs) :
    lastDigest digest start rs = head link start (rs.map content) := by
  induction rs using List.reverseRecOn with
  | nil => rfl
  | append_singleton rs r ih =>
      obtain ⟨hrs, hr⟩ := linked_concat.mp h
      rw [lastDigest_concat, hd r (by simp), hr, ih (fun r hr => hd r (by simp [hr])) hrs]
      simp

/-- The pairs a linked log stores are the pairs its contents link. -/
theorem links_of_linked {content : ρ → ι} {rs : List ρ}
    (hd : ∀ r ∈ rs, digest r = link (prev r) (content r))
    (h : Linked prev digest start rs) :
    links link start (rs.map content) = rs.map fun r => (prev r, content r) := by
  induction rs using List.reverseRecOn with
  | nil => rfl
  | append_singleton rs r ih =>
      obtain ⟨hrs, hr⟩ := linked_concat.mp h
      have hd' : ∀ r ∈ rs, digest r = link (prev r) (content r) := fun r hr => hd r (by simp [hr])
      rw [List.map_append, List.map_singleton, links_concat, ih hd' hrs,
        ← lastDigest_of_linked hd' hrs, ← hr]
      simp

end HashChain

end AgenticIde
