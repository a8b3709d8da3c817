import Mathlib.Data.Fintype.Basic

/-!
# A copy kept by its writers

Threads write the cells of a store.  After a write the thread reads the cell again, and
then puts what it read into the same cell of a second store.  These are three steps, so
that another thread may write, read and forward in between, and a value read early may
be forwarded late.

A forwarded value that is out of date does no harm as long as some other thread still
owes the current one.  If that is so at every forward, the stores agree on every cell
that was written once all threads are done (`run_agrees`).
-/

namespace Mirroring

/-- Where a thread stands. -/
inductive Stage (κ ν : Type) where
  | idle
  /-- It has written a cell and will read it again. -/
  | written (k : κ)
  /-- It has read a value that it will forward. -/
  | holding (k : κ) (v : ν)
  deriving DecidableEq

/-- A thread and the writes it has still to do. -/
structure Thread (κ ν : Type) where
  stage : Stage κ ν := .idle
  todo : List (κ × ν)

structure Stores (θ κ ν : Type) where
  primary : κ → ν
  secondary : κ → ν
  threads : θ → Thread κ ν

namespace Stores

variable {θ κ ν : Type} [DecidableEq θ] [DecidableEq κ]

/-- One step of a thread. -/
def step (s : Stores θ κ ν) (t : θ) : Stores θ κ ν :=
  let todo := (s.threads t).todo
  match (s.threads t).stage with
  | .idle =>
      match todo with
      | [] => s
      | (k, v) :: todo =>
          { s with
            primary := Function.update s.primary k v
            threads := Function.update s.threads t { stage := .written k, todo := todo } }
  | .written k =>
      { s with
        threads := Function.update s.threads t
          { stage := .holding k (s.primary k), todo := todo } }
  | .holding k v =>
      { s with
        secondary := Function.update s.secondary k v
        threads := Function.update s.threads t { stage := .idle, todo := todo } }

def run (s : Stores θ κ ν) (turns : List θ) : Stores θ κ ν := turns.foldl step s

/-- A thread will forward the current value of a cell, unless the cell changes. -/
def Owes (s : Stores θ κ ν) (t : θ) (k : κ) : Prop :=
  (s.threads t).stage = .written k ∨ (s.threads t).stage = .holding k (s.primary k)

/-- What a thread forwards is current, or another thread owes the current value. -/
def Fresh (s : Stores θ κ ν) (t : θ) : Prop :=
  ∀ k v, (s.threads t).stage = .holding k v → v = s.primary k ∨ ∃ t', t' ≠ t ∧ s.Owes t' k

/-- At every step of a run what is forwarded is fresh. -/
def FreshRun (s : Stores θ κ ν) : List θ → Prop
  | [] => True
  | t :: turns => s.Fresh t ∧ (s.step t).FreshRun turns

/-- The copy of a cell is current or owed. -/
def Kept (s : Stores θ κ ν) (k : κ) : Prop :=
  s.secondary k = s.primary k ∨ ∃ t, s.Owes t k

/-- A write of the cell is still to be done. -/
def Awaited (s : Stores θ κ ν) (k : κ) : Prop := ∃ t, ∃ v, (k, v) ∈ (s.threads t).todo

/-- Every thread has done all its writes and forwarded them. -/
def Quiescent (s : Stores θ κ ν) : Prop := ∀ t, s.threads t = { todo := [] }

instance [DecidableEq ν] (s : Stores θ κ ν) (t : θ) (k : κ) : Decidable (s.Owes t k) :=
  inferInstanceAs (Decidable (_ ∨ _))

instance [DecidableEq ν] [Fintype θ] (s : Stores θ κ ν) (t : θ) : Decidable (s.Fresh t) :=
  match hstage : (s.threads t).stage with
  | .idle => isTrue (by simp [Fresh, hstage])
  | .written _ => isTrue (by simp [Fresh, hstage])
  | .holding k v =>
      decidable_of_iff (v = s.primary k ∨ ∃ t', t' ≠ t ∧ s.Owes t' k) (by simp [Fresh, hstage])

/-! ## One step -/

/-- What a step does: nothing, a write, a read, or a forward. -/
theorem step_cases (s : Stores θ κ ν) (t : θ) :
    ((s.threads t) = { todo := [] } ∧ s.step t = s) ∨
    (∃ k v todo, s.threads t = { todo := (k, v) :: todo } ∧ s.step t =
      { s with
        primary := Function.update s.primary k v
        threads := Function.update s.threads t { stage := .written k, todo := todo } }) ∨
    (∃ k, (s.threads t).stage = .written k ∧ s.step t =
      { s with
        threads := Function.update s.threads t
          { stage := .holding k (s.primary k), todo := (s.threads t).todo } }) ∨
    (∃ k v, (s.threads t).stage = .holding k v ∧ s.step t =
      { s with
        secondary := Function.update s.secondary k v
        threads := Function.update s.threads t { todo := (s.threads t).todo } }) := by
  rcases hthread : s.threads t with ⟨stage, todo⟩
  cases stage with
  | idle =>
      cases todo with
      | nil => exact .inl ⟨rfl, by simp only [step, hthread]⟩
      | cons write todo =>
          exact .inr (.inl ⟨write.1, write.2, todo, rfl, by simp only [step, hthread]⟩)
  | written k => exact .inr (.inr (.inl ⟨k, rfl, by simp only [step, hthread]⟩))
  | holding k v => exact .inr (.inr (.inr ⟨k, v, rfl, by simp only [step, hthread]⟩))

omit [DecidableEq κ] in
/-- A thread that does not take the step owes what it owed, if the cell is unchanged. -/
theorem Owes.of_ne {s s' : Stores θ κ ν} {t t' : θ} {k : κ} {th : Thread κ ν}
    (h : s.Owes t' k) (hne : t' ≠ t) (hthreads : s'.threads = Function.update s.threads t th)
    (hprimary : s'.primary k = s.primary k) : s'.Owes t' k := by
  rw [Owes, hthreads, Function.update_of_ne hne, hprimary]
  exact h

/-- A step keeps the copy of a cell current or owed, if what is forwarded is fresh. -/
theorem Kept.step {s : Stores θ κ ν} {k : κ} (h : s.Kept k) {t : θ} (hfresh : s.Fresh t) :
    (s.step t).Kept k := by
  obtain ⟨-, hsame⟩ | ⟨k', v, todo, hthread, hstep⟩ | ⟨k', hstage, hstep⟩ | ⟨k', v, hstage, hstep⟩
    := s.step_cases t
  · rw [hsame]
    exact h
  · rw [hstep]
    by_cases hk : k' = k
    · exact .inr ⟨t, .inl (by simp [hk])⟩
    · have hprimary : Function.update s.primary k' v k = s.primary k :=
        Function.update_of_ne (Ne.symm hk) v s.primary
      refine h.imp (·.trans hprimary.symm) ?_
      rintro ⟨t', howes⟩
      have hne : t' ≠ t := by
        rintro rfl
        simp [Owes, hthread] at howes
      exact ⟨t', howes.of_ne hne rfl hprimary⟩
  · rw [hstep]
    refine h.imp_right ?_
    rintro ⟨t', howes⟩
    by_cases hne : t' = t
    · subst hne
      -- the thread that was about to read the cell now holds its value
      have hk : k' = k := by simpa [Owes, hstage] using howes
      exact ⟨t', .inr (by simp [hk])⟩
    · exact ⟨t', howes.of_ne hne rfl rfl⟩
  · rw [hstep]
    by_cases hk : k' = k
    · subst hk
      rcases hfresh k' v hstage with hv | ⟨t', hne, howes⟩
      · exact .inl (by simp [hv])
      · exact .inr ⟨t', howes.of_ne hne rfl rfl⟩
    · have hsecondary : Function.update s.secondary k' v k = s.secondary k :=
        Function.update_of_ne (Ne.symm hk) v s.secondary
      refine h.imp hsecondary.trans ?_
      rintro ⟨t', howes⟩
      have hne : t' ≠ t := by
        rintro rfl
        simp [Owes, hstage, hk] at howes
      exact ⟨t', howes.of_ne hne rfl rfl⟩

/-- A step does a write that is awaited, or leaves it awaited. -/
theorem Awaited.step {s : Stores θ κ ν} {k : κ} (h : s.Awaited k) (t : θ) :
    (s.step t).Awaited k ∨ (s.step t).Kept k := by
  obtain ⟨t', v', hmem⟩ := h
  -- another thread's list is not touched, and the list of this one loses at most its head
  obtain ⟨-, hsame⟩ | ⟨k', v, todo, hthread, hstep⟩ | ⟨k', hstage, hstep⟩ | ⟨k', v, hstage, hstep⟩
    := s.step_cases t
  · rw [hsame]
    exact .inl ⟨t', v', hmem⟩
  · rw [hstep]
    by_cases hne : t' = t
    · subst hne
      rw [hthread] at hmem
      rcases List.mem_cons.mp hmem with hhead | htail
      · obtain ⟨rfl, rfl⟩ := Prod.mk.inj hhead
        exact .inr (.inr ⟨t', .inl (by simp)⟩)
      · exact .inl ⟨t', v', by simpa using htail⟩
    · exact .inl ⟨t', v', by simpa [hne] using hmem⟩
  all_goals
    rw [hstep]
    by_cases hne : t' = t
    · subst hne
      exact .inl ⟨t', v', by simpa using hmem⟩
    · exact .inl ⟨t', v', by simpa [hne] using hmem⟩

/-! ## Runs -/

/-- Once a cell is to be written, it stays so or its copy is current or owed. -/
theorem run_keeps {s : Stores θ κ ν} {k : κ} (hk : s.Awaited k ∨ s.Kept k) {turns : List θ}
    (hfresh : s.FreshRun turns) : (s.run turns).Awaited k ∨ (s.run turns).Kept k := by
  induction turns generalizing s with
  | nil => exact hk
  | cons t turns ih =>
      refine ih ?_ hfresh.2
      rcases hk with hawaited | hkept
      · exact hawaited.step t
      · exact .inr (hkept.step hfresh.1)

omit [DecidableEq θ] [DecidableEq κ] in
theorem Quiescent.not_owes {s : Stores θ κ ν} (h : s.Quiescent) (t : θ) (k : κ) : ¬ s.Owes t k := by
  rw [Owes, h t]
  rintro (hstage | hstage) <;> cases hstage

omit [DecidableEq θ] [DecidableEq κ] in
theorem Quiescent.not_awaited {s : Stores θ κ ν} (h : s.Quiescent) (k : κ) : ¬ s.Awaited k := by
  rintro ⟨t, v, hmem⟩
  rw [h t] at hmem
  exact List.not_mem_nil hmem

/-- When every forward is fresh and all threads are done, the stores agree on every cell
that was to be written. -/
theorem run_agrees {s : Stores θ κ ν} {k : κ} (hk : s.Awaited k) {turns : List θ}
    (hfresh : s.FreshRun turns) (hdone : (s.run turns).Quiescent) :
    (s.run turns).secondary k = (s.run turns).primary k := by
  rcases run_keeps (.inl hk) hfresh with hawaited | hequal | ⟨t, howes⟩
  · exact absurd hawaited (hdone.not_awaited k)
  · exact hequal
  · exact absurd howes (hdone.not_owes t k)

end Stores

end Mirroring
