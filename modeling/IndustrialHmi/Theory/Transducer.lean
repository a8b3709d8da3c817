import Mathlib.Data.List.Induction

/-!
# Transducers

A *transducer* is a total step function that takes an input, gives an output and
moves to a next state.  `runAll` feeds it a list of inputs.

Facts about runs come from facts about steps in two ways.  `final_invariant`
carries a property of states along a run.  `run_history` carries a relation
between the inputs so far and the state, which is what a statement about the past
of a run needs: it grows the run at its end, one input at a time.
-/

namespace Transducer

variable {σ ι ο : Type} (step : σ → ι → ο × σ)

/-- The outputs of a run, and the state after it. -/
def runAll : σ → List ι → List ο × σ
  | s, [] => ([], s)
  | s, i :: is => ((step s i).1 :: (runAll (step s i).2 is).1, (runAll (step s i).2 is).2)

/-- The state after a run. -/
def final (s : σ) (is : List ι) : σ := (runAll step s is).2

/-- The outputs of a run. -/
def outputs (s : σ) (is : List ι) : List ο := (runAll step s is).1

@[simp] theorem final_nil (s : σ) : final step s [] = s := rfl

@[simp] theorem outputs_nil (s : σ) : outputs step s [] = [] := rfl

theorem final_cons (s : σ) (i : ι) (is : List ι) :
    final step s (i :: is) = final step (step s i).2 is := rfl

theorem outputs_cons (s : σ) (i : ι) (is : List ι) :
    outputs step s (i :: is) = (step s i).1 :: outputs step (step s i).2 is := rfl

theorem final_append (is js : List ι) :
    ∀ s : σ, final step s (is ++ js) = final step (final step s is) js := by
  induction is with
  | nil => intro s; rfl
  | cons i is ih => intro s; exact ih (step s i).2

theorem outputs_append (is js : List ι) :
    ∀ s : σ, outputs step s (is ++ js) =
      outputs step s is ++ outputs step (final step s is) js := by
  induction is with
  | nil => intro s; rfl
  | cons i is ih => intro s; exact congrArg ((step s i).1 :: ·) (ih (step s i).2)

theorem final_concat (s : σ) (is : List ι) (i : ι) :
    final step s (is ++ [i]) = (step (final step s is) i).2 := final_append step is [i] s

theorem outputs_concat (s : σ) (is : List ι) (i : ι) :
    outputs step s (is ++ [i]) = outputs step s is ++ [(step (final step s is) i).1] :=
  outputs_append step is [i] s

/-- What every step keeps holds after every run. -/
theorem final_invariant {Inv : σ → Prop} (hstep : ∀ s i, Inv s → Inv (step s i).2)
    (is : List ι) : ∀ {s : σ}, Inv s → Inv (final step s is) := by
  induction is with
  | nil => intro s h; exact h
  | cons i is ih => intro s h; exact ih (hstep s i h)

/-- A relation between the inputs so far and the state, kept by every step, holds
after every run. -/
theorem run_history {s₀ : σ} {R : List ι → σ → Prop} (start : R [] s₀)
    (next : ∀ is i, R is (final step s₀ is) → R (is ++ [i]) (step (final step s₀ is) i).2)
    (is : List ι) : R is (final step s₀ is) := by
  induction is using List.reverseRecOn with
  | nil => exact start
  | append_singleton is i ih =>
      rw [final_concat]
      exact next is i ih

/-- Where every step from a kept property gives only outputs of a kind, so does a run. -/
theorem outputs_forall {Inv : σ → Prop} {P : ο → Prop} {is : List ι}
    (hstep : ∀ s, ∀ i ∈ is, Inv s → P (step s i).1 ∧ Inv (step s i).2) :
    ∀ {s : σ}, Inv s → (∀ o ∈ outputs step s is, P o) ∧ Inv (final step s is) := by
  induction is with
  | nil =>
      intro s h
      exact ⟨fun o ho => (nomatch ho), h⟩
  | cons i is ih =>
      intro s h
      obtain ⟨hout, hnext⟩ := hstep s i List.mem_cons_self h
      obtain ⟨hrest, hfinal⟩ := ih (fun t j hj => hstep t j (List.mem_cons_of_mem _ hj)) hnext
      refine ⟨fun o ho => ?_, hfinal⟩
      cases List.mem_cons.mp ho with
      | inl he => exact he ▸ hout
      | inr ho' => exact hrest o ho'

/-- Two transducers that stay related and answer alike, up to `g`, give the same outputs. -/
theorem outputs_simulation {τ ο' : Type} {step' : τ → ι → ο' × τ} {g : ο → ο'} {R : σ → τ → Prop}
    (hstep : ∀ s t i, R s t → (step' t i).1 = g (step s i).1 ∧ R (step s i).2 (step' t i).2)
    (is : List ι) :
    ∀ {s : σ} {t : τ}, R s t → outputs step' t is = (outputs step s is).map g := by
  induction is with
  | nil => intro s t _; rfl
  | cons i is ih =>
      intro s t h
      obtain ⟨hout, hnext⟩ := hstep s t i h
      rw [outputs_cons, outputs_cons, List.map_cons, hout, ih hnext]

end Transducer
