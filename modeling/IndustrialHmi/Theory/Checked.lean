import Mathlib.Algebra.Ring.Int.Defs
import Mathlib.Tactic.Common

/-!
# Buffers and loops that are checked

A computation throws, or it stops where it would leave a buffer or where a number does not fit in
its type.  One that returns has done neither.

A counted loop returns if each of its turns keeps an invariant (`exists_loop_eq_ok`).  `Filled` is
the invariant of a buffer that is written from its first place on.
-/

/-- Why a computation does not return. -/
inductive Fault (ε : Type) where
  | thrown (e : ε)
  | outOfBounds
  | overflow
  deriving DecidableEq

abbrev Checked (ε α : Type) := Except (Fault ε) α

namespace Checked

variable {ε α σ : Type}

def throwing (e : ε) : Checked ε α := .error (.thrown e)

def read (buffer : List α) (i : Nat) : Checked ε α :=
  match buffer[i]? with
  | some a => .ok a
  | none => .error .outOfBounds

def write (buffer : List α) (i : Nat) (a : α) : Checked ε (List α) :=
  if i < buffer.length then .ok (buffer.set i a) else .error .outOfBounds

/-- A number of 32 bits. -/
def int (i : ℤ) : Checked ε ℤ :=
  if -2 ^ 31 ≤ i ∧ i < 2 ^ 31 then .ok i else .error .overflow

/-- A loop that counts from 0 to below `n`. -/
def loop (body : Nat → σ → Checked ε σ) : Nat → σ → Checked ε σ
  | 0, s => .ok s
  | n + 1, s => do
      let s ← loop body n s
      body n s

/-! ## Rules -/

@[simp] theorem ok_bind (a : α) (f : α → Checked ε σ) : ((.ok a : Checked ε α) >>= f) = f a := rfl

@[simp] theorem error_bind (e : Fault ε) (f : α → Checked ε σ) :
    ((.error e : Checked ε α) >>= f) = .error e := rfl

theorem read_of_some {buffer : List α} {i : Nat} {a : α} (h : buffer[i]? = some a) :
    (read buffer i : Checked ε α) = .ok a := by
  rw [read, h]

theorem exists_read {buffer : List α} {i : Nat} (h : i < buffer.length) :
    ∃ a, buffer[i]? = some a ∧ (read buffer i : Checked ε α) = .ok a := by
  have hget := List.getElem?_eq_getElem h
  exact ⟨buffer[i], hget, read_of_some hget⟩

theorem write_of_lt {buffer : List α} {i : Nat} (h : i < buffer.length) (a : α) :
    (write buffer i a : Checked ε (List α)) = .ok (buffer.set i a) :=
  if_pos h

theorem int_of_bounds {i : ℤ} (hlow : -2 ^ 31 ≤ i) (hhigh : i < 2 ^ 31) :
    (int i : Checked ε ℤ) = .ok i :=
  if_pos ⟨hlow, hhigh⟩

theorem int_of_ge {i : ℤ} (h : 2 ^ 31 ≤ i) : (int i : Checked ε ℤ) = .error .overflow :=
  if_neg fun hbounds => absurd hbounds.2 (Int.not_lt.mpr h)

/-- A loop whose turns keep an invariant returns. -/
theorem exists_loop_eq_ok {body : Nat → σ → Checked ε σ} (Inv : Nat → σ → Prop) {n : Nat} {s : σ}
    (init : Inv 0 s)
    (step : ∀ i s, i < n → Inv i s → ∃ s', body i s = .ok s' ∧ Inv (i + 1) s') :
    ∃ s', loop body n s = .ok s' ∧ Inv n s' := by
  induction n with
  | zero => exact ⟨s, rfl, init⟩
  | succ n ih =>
      obtain ⟨s', hs', hinv⟩ := ih fun i s hi => step i s (Nat.lt_succ_of_lt hi)
      obtain ⟨s'', hs'', hinv'⟩ := step n s' (Nat.lt_succ_self n) hinv
      refine ⟨s'', ?_, hinv'⟩
      rw [loop, hs', ok_bind, hs'']

/-! ## Filling a buffer -/

/-- The buffer has its size, and its first `k` elements are what they should be. -/
structure Filled (P : Nat → α → Prop) (size k : Nat) (buffer : List α) : Prop where
  length : buffer.length = size
  first : ∀ j a, j < k → buffer[j]? = some a → P j a

theorem filled_zero (P : Nat → α → Prop) (buffer : List α) : Filled P buffer.length 0 buffer :=
  ⟨rfl, fun _ _ hj => absurd hj (Nat.not_lt_zero _)⟩

/-- The next element is written. -/
theorem exists_write {P : Nat → α → Prop} {size k : Nat} {buffer : List α}
    (h : Filled P size k buffer) (hk : k < size) {a : α} (ha : P k a) :
    ∃ buffer', (write buffer k a : Checked ε (List α)) = .ok buffer' ∧
      Filled P size (k + 1) buffer' := by
  have hinside : k < buffer.length := h.length ▸ hk
  refine ⟨buffer.set k a, write_of_lt hinside a, List.length_set.trans h.length, ?_⟩
  intro j b hj hb
  rcases Nat.lt_succ_iff_lt_or_eq.mp hj with hless | rfl
  · rw [List.getElem?_set_ne (Nat.ne_of_gt hless)] at hb
    exact h.first j b hless hb
  · rw [List.getElem?_set_self hinside] at hb
    obtain rfl := Option.some.inj hb
    exact ha

end Checked
