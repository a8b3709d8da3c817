import Mathlib.Logic.Function.Iterate

/-!
# Where a deterministic system gets to

`Leads step P Q` says that from every state with `P`, some number of steps gives
a state with `Q`.  Such facts chain (`Leads.trans`), and a loop is the chain of its
turns (`Leads.loop`).
-/

namespace Iteration

variable {σ : Type} {step : σ → σ} {P Q R : σ → Prop}

/-- From every state with `P`, some number of steps gives a state with `Q`. -/
def Leads (step : σ → σ) (P Q : σ → Prop) : Prop := ∀ s, P s → ∃ n, Q (step^[n] s)

theorem Leads.refl : Leads step P P := fun _ h => ⟨0, h⟩

theorem Leads.of_step (h : ∀ s, P s → Q (step s)) : Leads step P Q := fun s hs => ⟨1, h s hs⟩

theorem Leads.trans (hpq : Leads step P Q) (hqr : Leads step Q R) : Leads step P R := by
  intro s hs
  obtain ⟨n, hn⟩ := hpq s hs
  obtain ⟨m, hm⟩ := hqr _ hn
  refine ⟨m + n, ?_⟩
  rw [Function.iterate_add_apply]
  exact hm

/-- A loop that runs `count` turns. -/
theorem Leads.loop {I : Nat → σ → Prop} (count : Nat)
    (turn : ∀ i, i < count → Leads step (I i) (I (i + 1))) : Leads step (I 0) (I count) := by
  induction count with
  | zero => exact Leads.refl
  | succ count ih =>
      have hturns := ih fun i hi => turn i (Nat.lt_succ_of_lt hi)
      exact hturns.trans (turn count (Nat.lt_succ_self count))

end Iteration
