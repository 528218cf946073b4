/-
AgenticIde/Lib/Tally.lean

Debits and credits in a list of events.

Two views read keys off the entries of one list: some entries are debits,
some are credits, and each debit is to have a credit of its own with the same
key.  Whether that can be done is a matter of counting (`covered_iff`): for
every key there are at most as many debits as credits.

The debits of a program may outnumber its credits by what it does twice over;
`Law.balance` is the law that they outnumber them by exactly the pairs of
neighbours of some kind.  Where a counter of the state is kept of them,
`Law.ledger` is the law that it says what the events say.
-/
import AgenticIde.Lib.Act
import Mathlib.Algebra.GroupWithZero.Nat
import Mathlib.Data.Fintype.Card
import Mathlib.Data.Fintype.Fin
import Mathlib.Data.List.OfFn

namespace AgenticIde

universe u v

variable {ω : Type u} {κ : Type v}

/-- Every debit has a credit of its own with the same key: an injection of
the positions of the debits. -/
def Covered (debit credit : ω → Option κ) (t : List ω) : Prop :=
  ∃ f : Fin t.length → Fin t.length, Set.InjOn f {i | (debit (t.get i)).isSome} ∧
    ∀ i k, debit (t.get i) = some k → credit (t.get (f i)) = some k

/-- The positions of a kind of entry are as many as its entries. -/
theorem card_positions (p : ω → Prop) [DecidablePred p] (t : List ω) :
    Fintype.card {i : Fin t.length // p (t.get i)} = t.countP p := by
  have hmap : (Finset.univ.val.map fun i : Fin t.length => t.get i) = (t : Multiset ω) := by
    rw [Fin.univ_val_map]
    exact congrArg _ (List.ofFn_get t)
  rw [Fintype.card_subtype, Finset.card_def, Finset.filter_val, ← Multiset.coe_countP, ← hmap,
    Multiset.countP_map]

/-- **Covering is counting**: the debits can be covered exactly when no key has more
debits than credits.  The events of a key are covered among themselves, so nothing
has to be chosen between keys. -/
theorem covered_iff [DecidableEq κ] (debit credit : ω → Option κ) (t : List ω) :
    Covered debit credit t ↔
      ∀ k, t.countP (fun e => debit e = some k) ≤ t.countP (fun e => credit e = some k) := by
  constructor
  · rintro ⟨f, hinj, hkey⟩ k
    rw [← card_positions fun e => debit e = some k, ← card_positions fun e => credit e = some k]
    apply Fintype.card_le_of_injective (fun i => ⟨f i.1, hkey i.1 k i.2⟩)
    rintro ⟨i, hi⟩ ⟨j, hj⟩ hij
    have hsome : ∀ i : Fin t.length, debit (t.get i) = some k → (debit (t.get i)).isSome :=
      fun i hi => by rw [hi]; rfl
    exact Subtype.ext (hinj (hsome i hi) (hsome j hj) (congrArg Subtype.val hij))
  · intro hcount
    -- one embedding for each key; the keys keep their images apart
    have hembed : ∀ k, Nonempty ({i : Fin t.length // debit (t.get i) = some k} ↪
        {i : Fin t.length // credit (t.get i) = some k}) := by
      intro k
      apply Function.Embedding.nonempty_of_card_le
      rw [card_positions fun e => debit e = some k, card_positions fun e => credit e = some k]
      exact hcount k
    let g := fun k => (hembed k).some
    have hchoice : ∀ i : Fin t.length, ∃ j : Fin t.length,
        ∀ k (hk : debit (t.get i) = some k), j = (g k ⟨i, hk⟩).1 := by
      intro i
      by_cases hi : ∃ k, debit (t.get i) = some k
      · obtain ⟨k, hk⟩ := hi
        refine ⟨(g k ⟨i, hk⟩).1, fun k' hk' => ?_⟩
        obtain rfl : k = k' := Option.some.inj (hk.symm.trans hk')
        rfl
      · exact ⟨i, fun k hk => absurd ⟨k, hk⟩ hi⟩
    choose f hf using hchoice
    have hkey : ∀ i k, debit (t.get i) = some k → credit (t.get (f i)) = some k := by
      intro i k hi
      rw [hf i k hi]
      exact (g k ⟨i, hi⟩).2
    refine ⟨f, fun i hi j hj hij => ?_, hkey⟩
    obtain ⟨k, hk⟩ := Option.isSome_iff_exists.mp hi
    obtain ⟨k', hk'⟩ := Option.isSome_iff_exists.mp hj
    obtain rfl : k = k' := Option.some.inj ((hkey i k hk).symm.trans (hij ▸ hkey j k' hk'))
    rw [hf i k hk, hf j k hk'] at hij
    exact congrArg Subtype.val ((g k).injective (Subtype.ext hij))

/-! ### Pairs of neighbours -/

section Neighbours

variable {p q : ω → Bool} {e : ω} {t t' : List ω}

/-- How many neighbours there are of which the first satisfies `p` and the
second satisfies `q`. -/
def neighbours (p q : ω → Bool) : List ω → Nat
  | e :: e' :: t => (if p e && q e' then 1 else 0) + neighbours p q (e' :: t)
  | _ => 0

/-- The first entry, if there is one, does not satisfy `q`. -/
def Closed (q : ω → Bool) (t : List ω) : Prop := ∀ e ∈ t.head?, q e = false

theorem closed_nil : Closed q [] := by simp [Closed]

theorem closed_cons : Closed q (e :: t) ↔ q e = false := by simp [Closed]

theorem closed_of_forall (h : ∀ e ∈ t, q e = false) : Closed q t :=
  fun e he => h e (List.mem_of_mem_head? he)

theorem Closed.append (ht : Closed q t) (ht' : Closed q t') : Closed q (t ++ t') := by
  rcases t with - | ⟨e, t⟩
  · exact ht'
  · exact closed_cons.mpr (closed_cons.mp ht)

theorem neighbours_cons_of_not (h : p e = false) (t : List ω) :
    neighbours p q (e :: t) = neighbours p q t := by
  rcases t with - | ⟨e', t⟩
  · rfl
  · simp [neighbours, h]

/-- No pair lies across the border to a closed list. -/
theorem neighbours_append (h : Closed q t') :
    neighbours p q (t ++ t') = neighbours p q t + neighbours p q t' := by
  induction t with
  | nil => exact (Nat.zero_add _).symm
  | cons e t ih =>
      rcases t with - | ⟨e₁, t⟩
      · rcases t' with - | ⟨e', t'⟩
        · rfl
        · simp [neighbours, closed_cons.mp h]
      · show (if p e && q e₁ then 1 else 0) + neighbours p q (e₁ :: t ++ t') = _
        rw [ih, ← Nat.add_assoc]
        rfl

theorem neighbours_eq_zero_iff :
    neighbours p q t = 0 ↔
      ∀ pre e e' post, t = pre ++ e :: e' :: post → p e = true → q e' = false := by
  induction t with
  | nil => simp [neighbours]
  | cons e t ih =>
      rcases t with - | ⟨e₁, t⟩
      · simp only [neighbours, true_iff]
        rintro (- | ⟨e₂, pre⟩) e e' post h <;> simp at h
      · show (if p e && q e₁ then 1 else 0) + neighbours p q (e₁ :: t) = 0 ↔ _
        rw [Nat.add_eq_zero_iff, ih]
        constructor
        · rintro ⟨hfirst, hrest⟩ (- | ⟨e₂, pre⟩) e₃ e' post heq hp
          · obtain ⟨rfl, rfl, -⟩ : e = e₃ ∧ e₁ = e' ∧ t = post := by simpa using heq
            simpa [hp] using hfirst
          · exact hrest pre e₃ e' post (List.cons.inj heq).2 hp
        · intro h
          refine ⟨?_, fun pre e₃ e' post heq => h (e :: pre) e₃ e' post (by rw [heq]; rfl)⟩
          have hfirst := h [] e e₁ t rfl
          rcases hp : p e with - | -
          · simp
          · simp [hfirst hp]

end Neighbours

namespace Law

variable {σ ω : Type u} {debit credit p q : ω → Bool}

/-- The law that the debits outnumber the credits by the pairs of
neighbours. -/
def balance (σ : Type u) (debit credit p q : ω → Bool) : Law σ ω where
  rel _ t _ := Closed q t ∧ t.countP debit = t.countP credit + neighbours p q t
  refl _ := ⟨closed_nil, rfl⟩
  comp h h' := by
    refine ⟨h.1.append h'.1, ?_⟩
    rw [List.countP_append, List.countP_append, neighbours_append h'.1, h.2, h'.2]
    omega

/-- The law that a counter of the state grows by the credits of the events,
less their debits. -/
def ledger {σ ω : Type u} (count : σ → Nat) (debit credit : ω → Nat) : Law σ ω where
  rel s t s' := count s' + (t.map debit).sum = count s + (t.map credit).sum
  refl _ := rfl
  comp h h' := by
    rw [List.map_append, List.sum_append, List.map_append, List.sum_append]
    omega

end Law

end AgenticIde
