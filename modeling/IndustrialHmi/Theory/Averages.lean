import Mathlib.Algebra.BigOperators.Group.List.Basic
import Mathlib.Algebra.Order.BigOperators.Group.List
import Mathlib.Algebra.Order.Field.Rat
import Mathlib.Tactic.FieldSimp
import Mathlib.Tactic.Ring

/-!
# Averages

The mean of a list of rationals, and of means.  The mean of the means of some lists is
the mean of all their elements when the lists are equally long.
-/

namespace Averages

/-- The arithmetic mean; zero for no values. -/
def mean (l : List ℚ) : ℚ := l.sum / l.length

theorem mean_singleton (q : ℚ) : mean [q] = q := by
  simp [mean]

theorem mean_perm {l l' : List ℚ} (h : l.Perm l') : mean l = mean l' := by
  rw [mean, mean, h.sum_eq, h.length_eq]

theorem sum_eq_mean_mul (l : List ℚ) : l.sum = mean l * l.length := by
  cases l with
  | nil => simp [mean]
  | cons q l =>
      have hlength : ((q :: l).length : ℚ) ≠ 0 := Nat.cast_ne_zero.mpr (Nat.succ_ne_zero _)
      rw [mean, div_mul_cancel₀ _ hlength]

/-- The sum of equally long lists in terms of their means. -/
theorem sum_flatten_of_length {n : Nat} {ls : List (List ℚ)} (h : ∀ l ∈ ls, l.length = n) :
    ls.flatten.sum = (ls.map mean).sum * n := by
  induction ls with
  | nil => simp
  | cons l ls ih =>
      have hrest := ih fun l' hl' => h l' (List.mem_cons_of_mem l hl')
      have hlength : l.length = n := h l List.mem_cons_self
      rw [List.flatten_cons, List.sum_append, hrest, sum_eq_mean_mul l, hlength, List.map_cons,
        List.sum_cons]
      ring

theorem length_flatten_of_length {n : Nat} {ls : List (List ℚ)} (h : ∀ l ∈ ls, l.length = n) :
    ls.flatten.length = ls.length * n := by
  rw [List.length_flatten, List.map_congr_left h]
  simp

/-- The mean of the means of equally long lists. -/
theorem mean_flatten {n : Nat} {ls : List (List ℚ)} (hn : n ≠ 0) (h : ∀ l ∈ ls, l.length = n) :
    mean ls.flatten = mean (ls.map mean) := by
  have hcast : (n : ℚ) ≠ 0 := Nat.cast_ne_zero.mpr hn
  rw [mean, sum_flatten_of_length h, length_flatten_of_length h, mean, List.length_map,
    Nat.cast_mul, mul_div_mul_right _ _ hcast]

/-! ## Bounds -/

theorem sum_map_mean (l : List ℚ) : (l.map fun _ => mean l).sum = l.sum := by
  rw [List.map_const', List.sum_replicate, nsmul_eq_mul, mul_comm, sum_eq_mean_mul l]

/-- Some value is at most the mean. -/
theorem exists_le_mean {l : List ℚ} (hne : l ≠ []) : ∃ q ∈ l, q ≤ mean l := by
  refine List.exists_le_of_sum_le hne (f := id) (g := fun _ => mean l) ?_
  rw [sum_map_mean, List.map_id]

/-- Some value is at least the mean. -/
theorem exists_mean_le {l : List ℚ} (hne : l ≠ []) : ∃ q ∈ l, mean l ≤ q := by
  refine List.exists_le_of_sum_le hne (f := fun _ => mean l) (g := id) ?_
  rw [sum_map_mean, List.map_id]

end Averages
