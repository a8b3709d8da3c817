import Mathlib.Data.List.Basic

/-!
# Runs

A run is a list of events that a step function takes one after the other.  A condition on the
state before a step and on its event may hold of every step of a run, and what each step that
meets it keeps holds at the end.
-/

namespace Runs

variable {σ ε : Type*} {step : σ → ε → σ}

/-- Every step of a run meets a condition, in the state it finds. -/
def Along (step : σ → ε → σ) (P : σ → ε → Prop) : σ → List ε → Prop
  | _, [] => True
  | s, e :: events => P s e ∧ Along step P (step s e) events

/-- A condition that can be decided at every step can be decided along a run. -/
instance decidableAlong {P : σ → ε → Prop} [∀ s e, Decidable (P s e)] :
    ∀ (s : σ) (events : List ε), Decidable (Along step P s events)
  | _, [] => isTrue trivial
  | s, e :: events =>
      have : Decidable (Along step P (step s e) events) := decidableAlong (step s e) events
      inferInstanceAs (Decidable (P s e ∧ Along step P (step s e) events))

variable {P : σ → ε → Prop} {I : σ → Prop} {s : σ}

theorem along_append {events events' : List ε} :
    Along step P s (events ++ events') ↔
      Along step P s events ∧ Along step P (events.foldl step s) events' := by
  induction events generalizing s with
  | nil => exact (iff_of_eq (true_and _)).symm
  | cons e events ih =>
      show P s e ∧ Along step P (step s e) (events ++ events') ↔ _
      rw [ih, ← and_assoc]
      rfl

/-- Conditions that agree on every step agree along every run. -/
theorem along_congr {Q : σ → ε → Prop} (h : ∀ s e, P s e ↔ Q s e) {events : List ε} :
    Along step P s events ↔ Along step Q s events := by
  induction events generalizing s with
  | nil => exact Iff.rfl
  | cons e events ih => exact and_congr (h s e) ih

theorem Along.invariant {events : List ε} (h : Along step P s events) (hs : I s)
    (hstep : ∀ s e, I s → P s e → I (step s e)) : I (events.foldl step s) := by
  induction events generalizing s with
  | nil => exact hs
  | cons e events ih => exact ih h.2 (hstep s e hs h.1)

/-- What a condition gives on every step from the states of an invariant that it keeps, it gives
along every run from such a state. -/
theorem Along.gives {Q : σ → ε → Prop} {events : List ε} (h : Along step P s events) (hs : I s)
    (hstep : ∀ s e, I s → P s e → Q s e ∧ I (step s e)) : Along step Q s events := by
  induction events generalizing s with
  | nil => trivial
  | cons e events ih =>
      obtain ⟨hfirst, hkeeps⟩ := hstep s e hs h.1
      exact ⟨hfirst, ih h.2 hkeeps⟩

/-- Two conditions that agree on the steps from states of an invariant, which one of them keeps,
agree along every run from such a state. -/
theorem along_iff {Q : σ → ε → Prop} (hs : I s) (h : ∀ s e, I s → (P s e ↔ Q s e))
    (hstep : ∀ s e, I s → Q s e → I (step s e)) {events : List ε} :
    Along step P s events ↔ Along step Q s events := by
  induction events generalizing s with
  | nil => exact Iff.rfl
  | cons e events ih =>
      show P s e ∧ _ ↔ Q s e ∧ _
      rw [h s e hs]
      exact and_congr_right fun hmeets => ih (hstep s e hs hmeets)

/-- A property that holds after a step exactly if it held before and the step meets a condition,
holds after a run exactly if it did before and every step meets the condition. -/
theorem final_iff_along {G : σ → Prop} (hs : I s) (hI : ∀ s e, I s → I (step s e))
    (h : ∀ s e, I s → (G (step s e) ↔ G s ∧ P s e)) {events : List ε} :
    G (events.foldl step s) ↔ G s ∧ Along step P s events := by
  induction events generalizing s with
  | nil => exact (iff_of_eq (and_true _)).symm
  | cons e events ih => exact (ih (hI s e hs)).trans ((and_congr_left' (h s e hs)).trans and_assoc)

/-- What every step keeps holds after any run. -/
theorem invariant (hs : I s) (hstep : ∀ s e, I s → I (step s e)) (events : List ε) :
    I (events.foldl step s) := by
  induction events generalizing s with
  | nil => exact hs
  | cons e events ih => exact ih (hstep s e hs)

/-! ## Steps with the state they find -/

/-- The events of a run, each with the state it finds. -/
def trace (step : σ → ε → σ) : σ → List ε → List (σ × ε)
  | _, [] => []
  | s, e :: events => (s, e) :: trace step (step s e) events

theorem trace_append (s : σ) (events events' : List ε) :
    trace step s (events ++ events') =
      trace step s events ++ trace step (events.foldl step s) events' := by
  induction events generalizing s with
  | nil => rfl
  | cons e events ih => exact congrArg ((s, e) :: ·) (ih _)

theorem trace_concat (s : σ) (events : List ε) (e : ε) :
    trace step s (events ++ [e]) = trace step s events ++ [(events.foldl step s, e)] :=
  trace_append s events [e]

end Runs
