/-
AgenticIde/Lib/Machine.lean

Machines that take one input after the other: a step maps a state and an
input to the next state and the outputs of the step.  A run folds the step
over the inputs and keeps the outputs in order.

Four rules are all that is needed of them.  `run_induction` carries a
property of the history so far (the inputs, the state, the outputs) from the
empty run to every run.  `outputs_of_simulation` compares two machines on the
same inputs, step by step.  `outputs_eq_of_unwinding` compares a run with the
run of the same inputs less the hidden ones: if some relation is kept by
every visible step on both sides and by every hidden step on one side, the
visible outputs are the same.  In `run_kept` it is the output of an input that
says whether the input is deleted.
-/
import Mathlib.Data.List.Induction

namespace AgenticIde

namespace Machine

variable {σ ι ω : Type*}

/-- A run from `s`: the state it ends in and all the outputs, oldest first. -/
def run (step : σ → ι → σ × List ω) (s : σ) (inputs : List ι) : σ × List ω :=
  inputs.foldl (fun acc i => ((step acc.1 i).1, acc.2 ++ (step acc.1 i).2)) (s, [])

variable {step : σ → ι → σ × List ω} {s : σ}

@[simp] theorem run_nil : run step s [] = (s, []) := rfl

@[simp] theorem run_concat (inputs : List ι) (i : ι) :
    run step s (inputs ++ [i]) =
      ((step (run step s inputs).1 i).1,
        (run step s inputs).2 ++ (step (run step s inputs).1 i).2) := by
  simp [run]

/-- A run in two parts. -/
theorem run_append (inputs more : List ι) :
    run step s (inputs ++ more) =
      ((run step (run step s inputs).1 more).1,
        (run step s inputs).2 ++ (run step (run step s inputs).1 more).2) := by
  induction more using List.reverseRecOn with
  | nil => rw [List.append_nil, run_nil, List.append_nil]
  | append_singleton more i ih =>
      rw [← List.append_assoc, run_concat, run_concat, ih, List.append_assoc]

theorem run_cons (i : ι) (inputs : List ι) :
    run step s (i :: inputs) =
      ((run step (step s i).1 inputs).1, (step s i).2 ++ (run step (step s i).1 inputs).2) :=
  run_append [i] inputs

/-- What one step carries along, a run carries along. -/
theorem run_induction {P : List ι → σ → List ω → Prop} (init : P [] s [])
    (hstep : ∀ inputs i s t, P inputs s t → P (inputs ++ [i]) (step s i).1 (t ++ (step s i).2))
    (inputs : List ι) : P inputs (run step s inputs).1 (run step s inputs).2 := by
  induction inputs using List.reverseRecOn with
  | nil => exact init
  | append_singleton inputs i ih =>
      rw [run_concat]
      exact hstep _ _ _ _ ih

/-- **Simulation.** Where each step of the second machine answers what the first one
does, translated, so does every run.  By induction on the inputs, with the relation
between the states carried along. -/
theorem outputs_of_simulation {σ' ω' : Type*} {step' : σ' → ι → σ' × List ω'}
    {R : σ → σ' → Prop} {g : ω → ω'}
    (hstep : ∀ s s' i, R s s' →
      R (step s i).1 (step' s' i).1 ∧ (step' s' i).2 = (step s i).2.map g)
    {s' : σ'} (init : R s s') (inputs : List ι) :
    R (run step s inputs).1 (run step' s' inputs).1 ∧
      (run step' s' inputs).2 = (run step s inputs).2.map g := by
  induction inputs using List.reverseRecOn with
  | nil => exact ⟨init, rfl⟩
  | append_singleton inputs i ih =>
      obtain ⟨hR, hout⟩ := ih
      obtain ⟨hR', hout'⟩ := hstep _ _ i hR
      rw [run_concat, run_concat]
      exact ⟨hR', by simp only [List.map_append, hout, hout']⟩

/-- The machine with each output tagged by the input it answers. -/
def tagged (step : σ → ι → σ × List ω) (s : σ) (i : ι) : σ × List (ι × ω) :=
  ((step s i).1, (step s i).2.map (i, ·))

/-- Tagging the outputs changes nothing but the tags. -/
theorem run_tagged (inputs : List ι) :
    run step s inputs =
      ((run (tagged step) s inputs).1, (run (tagged step) s inputs).2.map Prod.snd) := by
  induction inputs using List.reverseRecOn with
  | nil => rfl
  | append_singleton inputs i ih =>
      rw [run_concat, run_concat, ih]
      simp [tagged, Function.comp_def]

/-- The inputs of a run with an output that is wanted. -/
def kept (keep : ω → Bool) (step : σ → ι → σ × List ω) (s : σ) (inputs : List ι) : List ι :=
  ((run (tagged step) s inputs).2.filter fun o => keep o.2).map Prod.fst

theorem kept_concat {keep : ω → Bool} (inputs : List ι) (i : ι) {o : ω}
    (hone : (step (run step s inputs).1 i).2 = [o]) :
    kept keep step s (inputs ++ [i]) =
      kept keep step s inputs ++ if keep o then [i] else [] := by
  have hstate : (run (tagged step) s inputs).1 = (run step s inputs).1 :=
    (congrArg Prod.fst (run_tagged inputs)).symm
  have hlast : (tagged step (run (tagged step) s inputs).1 i).2 = [(i, o)] := by
    rw [hstate, tagged, hone]
    rfl
  rw [kept, run_concat, hlast, List.filter_append, List.map_append, kept, List.filter_cons]
  cases keep o <;> rfl

/-- **Deletion.**  Of inputs with one output each, those with an unwanted output
may be left out, if some relation is kept by their steps on one side, and by
all other steps on both sides. -/
theorem run_kept {keep : ω → Bool} {R : σ → σ → Prop}
    (hone : ∀ s i, ∃ o, (step s i).2 = [o])
    (hkeep : ∀ s s' i o, R s s' → (step s i).2 = [o] → keep o = true →
      R (step s i).1 (step s' i).1 ∧ (step s' i).2 = [o])
    (hdrop : ∀ s s' i o, R s s' → (step s i).2 = [o] → keep o = false → R (step s i).1 s')
    {s' : σ} (init : R s s') (inputs : List ι) :
    R (run step s inputs).1 (run step s' (kept keep step s inputs)).1 ∧
      (run step s' (kept keep step s inputs)).2 = (run step s inputs).2.filter keep := by
  induction inputs using List.reverseRecOn with
  | nil => exact ⟨init, rfl⟩
  | append_singleton inputs i ih =>
      obtain ⟨hR, hout⟩ := ih
      obtain ⟨o, ho⟩ := hone (run step s inputs).1 i
      rw [kept_concat inputs i ho, run_concat inputs i, ho, List.filter_append]
      cases hwanted : keep o with
      | true =>
          obtain ⟨hR', hout'⟩ := hkeep _ _ i o hR ho hwanted
          rw [if_pos rfl, run_concat, hout, hout', List.filter_cons_of_pos hwanted]
          exact ⟨hR', rfl⟩
      | false =>
          rw [if_neg Bool.false_ne_true, List.append_nil, hout,
            List.filter_cons_of_neg (by rw [hwanted]; exact Bool.false_ne_true)]
          exact ⟨hdrop _ _ i o hR ho hwanted, (List.append_nil _).symm⟩

/-- **Unwinding.**  `hidden` inputs are deleted in the second run; `R` relates
the two runs after the same visible inputs, and `ok` is what the history
must satisfy for the relation to be kept. -/
theorem outputs_eq_of_unwinding {hidden : ι → Bool} {ok : List ι → Prop}
    {R : List ι → σ → σ → Prop} {vis : ω → Bool}
    (hpre : ∀ inputs i, ok (inputs ++ [i]) → ok inputs)
    (init : R [] s s)
    (hvis : ∀ inputs i s s', ok (inputs ++ [i]) → hidden i = false → R inputs s s' →
      R (inputs ++ [i]) (step s i).1 (step s' i).1 ∧
        (step s i).2.filter vis = (step s' i).2.filter vis)
    (hhid : ∀ inputs i s s', ok (inputs ++ [i]) → hidden i = true → R inputs s s' →
      R (inputs ++ [i]) (step s i).1 s' ∧ (step s i).2.filter vis = [])
    {inputs : List ι} (hok : ok inputs) :
    R inputs (run step s inputs).1 (run step s (inputs.filter (!hidden ·))).1 ∧
      (run step s inputs).2.filter vis =
        (run step s (inputs.filter (!hidden ·))).2.filter vis := by
  induction inputs using List.reverseRecOn with
  | nil => exact ⟨init, rfl⟩
  | append_singleton inputs i ih =>
      obtain ⟨hR, hout⟩ := ih (hpre _ _ hok)
      -- a hidden input is deleted from the second run, a visible one is the last of both
      rcases hi : hidden i with - | -
      · have hfilter : (inputs ++ [i]).filter (!hidden ·) = inputs.filter (!hidden ·) ++ [i] := by
          simp [hi]
        obtain ⟨hR', hout'⟩ := hvis _ _ _ _ hok hi hR
        rw [hfilter, run_concat, run_concat]
        exact ⟨hR', by simp only [List.filter_append, hout, hout']⟩
      · have hfilter : (inputs ++ [i]).filter (!hidden ·) = inputs.filter (!hidden ·) := by
          simp [hi]
        obtain ⟨hR', hout'⟩ := hhid _ _ _ _ hok hi hR
        rw [hfilter, run_concat]
        exact ⟨hR', by simp only [List.filter_append, hout, hout', List.append_nil]⟩

end Machine

end AgenticIde
