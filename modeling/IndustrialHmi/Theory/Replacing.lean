import Mathlib.Data.List.Basic
import Mathlib.Data.List.Infix

/-!
# Replacing a pattern

A search from the left takes occurrences of a pattern, none of which overlap.  A *split* of a text
says what it passes over: a gap before each occurrence it takes, and the rest behind the last.
Filled with the pattern, a split is the text that was searched.  Filled with something else, it is
that text with the occurrences replaced.

A split is *clean* when the pattern begins in none of its gaps and not in its rest.  Every text
has a clean split (`exists_clean`), and the search finds it (`firstAt_gap`, `firstAt_rest`).
-/

namespace Replacing

variable {α : Type}

inductive Split (α : Type) where
  | last (rest : List α)
  | gap (front : List α) (s : Split α)

namespace Split

def fill (t : List α) : Split α → List α
  | last rest => rest
  | gap front s => front ++ (t ++ fill t s)

def gaps : Split α → List (List α)
  | last _ => []
  | gap front s => front :: gaps s

/-- A text put in front. -/
def push (t : List α) : Split α → Split α
  | last rest => last (t ++ rest)
  | gap front s => gap (t ++ front) s

@[simp] theorem fill_push (t u : List α) (s : Split α) : (s.push t).fill u = t ++ s.fill u := by
  cases s with
  | last rest => rfl
  | gap front s => exact List.append_assoc t front _

/-- A split is determined by its gaps and its text. -/
theorem eq_of_gaps {t : List α} {s s' : Split α} (hgaps : s.gaps = s'.gaps)
    (hfill : s.fill t = s'.fill t) : s = s' := by
  induction s generalizing s' with
  | last rest =>
      cases s' with
      | last rest' => exact congrArg last hfill
      | gap front' s' => cases hgaps
  | gap front s ih =>
      cases s' with
      | last rest' => cases hgaps
      | gap front' s' =>
          obtain ⟨rfl, hrest⟩ := List.cons.inj hgaps
          rw [ih hrest (List.append_cancel_left (List.append_cancel_left hfill))]

end Split

/-! ## Where the pattern begins -/

/-- The pattern does not begin in a front that the rest follows. -/
def Avoids (pat front rest : List α) : Prop := ∀ i < front.length, ¬pat <+: front.drop i ++ rest

theorem avoids_nil (pat rest : List α) : Avoids pat [] rest :=
  fun _ h => absurd h (Nat.not_lt_zero _)

theorem avoids_cons {pat front rest : List α} {x : α} :
    Avoids pat (x :: front) rest ↔ ¬pat <+: x :: (front ++ rest) ∧ Avoids pat front rest := by
  constructor
  · intro h
    exact ⟨h 0 (Nat.succ_pos _), fun i hi => h (i + 1) (Nat.succ_lt_succ hi)⟩
  · rintro ⟨hfirst, hfront⟩ i hi
    cases i with
    | zero => exact hfirst
    | succ i => exact hfront i (Nat.lt_of_succ_lt_succ hi)

/-- The pattern begins in no gap and not in the rest. -/
def Split.Clean (pat : List α) : Split α → Prop
  | .last rest => Avoids pat rest []
  | .gap front s => Avoids pat front (pat ++ s.fill pat) ∧ s.Clean pat

section

variable [DecidableEq α]

instance (pat front rest : List α) : Decidable (Avoids pat front rest) :=
  inferInstanceAs (Decidable (∀ i < front.length, ¬pat <+: front.drop i ++ rest))

instance decidableClean (pat : List α) : DecidablePred (Split.Clean pat)
  | .last rest => inferInstanceAs (Decidable (Avoids pat rest []))
  | .gap front s =>
      have := decidableClean pat s
      inferInstanceAs (Decidable (Avoids pat front (pat ++ s.fill pat) ∧ s.Clean pat))

/-- Where the pattern begins first. -/
def firstAt (pat : List α) : List α → Option Nat
  | [] => none
  | x :: xs => if pat <+: x :: xs then some 0 else (firstAt pat xs).map (· + 1)

variable {pat : List α}

theorem firstAt_gap {front rest : List α} (hpat : pat ≠ []) (h : Avoids pat front (pat ++ rest)) :
    firstAt pat (front ++ (pat ++ rest)) = some front.length := by
  induction front with
  | nil =>
      obtain ⟨y, ys, rfl⟩ := List.exists_cons_of_ne_nil hpat
      exact if_pos (List.prefix_append (y :: ys) rest)
  | cons x front ih =>
      obtain ⟨hfirst, hfront⟩ := avoids_cons.mp h
      rw [List.cons_append, firstAt, if_neg hfirst, ih hfront]
      rfl

theorem firstAt_rest {rest : List α} (h : Avoids pat rest []) : firstAt pat rest = none := by
  induction rest with
  | nil => rfl
  | cons x rest ih =>
      obtain ⟨hfirst, hrest⟩ := avoids_cons.mp h
      rw [List.append_nil] at hfirst
      rw [firstAt, if_neg hfirst, ih hrest]
      rfl

/-- The search finds nothing, or what is in front of the first occurrence. -/
theorem firstAt_cases (pat xs : List α) :
    (firstAt pat xs = none ∧ Avoids pat xs []) ∨
      ∃ front rest, xs = front ++ (pat ++ rest) ∧ firstAt pat xs = some front.length ∧
        Avoids pat front (pat ++ rest) := by
  induction xs with
  | nil => exact Or.inl ⟨rfl, avoids_nil pat []⟩
  | cons x xs ih =>
      by_cases hfirst : pat <+: x :: xs
      · obtain ⟨rest, hrest⟩ := hfirst
        exact Or.inr ⟨[], rest, hrest.symm, if_pos ⟨rest, hrest⟩, avoids_nil pat _⟩
      · rw [firstAt, if_neg hfirst]
        rcases ih with ⟨hnone, havoids⟩ | ⟨front, rest, rfl, hsome, havoids⟩
        · refine Or.inl ⟨by rw [hnone]; rfl, avoids_cons.mpr ⟨?_, havoids⟩⟩
          rwa [List.append_nil]
        · refine Or.inr ⟨x :: front, rest, rfl, by rw [hsome]; rfl, ?_⟩
          exact avoids_cons.mpr ⟨hfirst, havoids⟩

theorem exists_clean (hpat : pat ≠ []) (xs : List α) :
    ∃ s : Split α, s.fill pat = xs ∧ s.Clean pat := by
  induction h : xs.length using Nat.strong_induction_on generalizing xs with
  | _ n ih =>
      rcases firstAt_cases pat xs with ⟨-, havoids⟩ | ⟨front, rest, hxs, -, havoids⟩
      · exact ⟨.last xs, rfl, havoids⟩
      · have hlength := congrArg List.length hxs
        have hpos := List.length_pos_of_ne_nil hpat
        rw [List.length_append, List.length_append] at hlength
        obtain ⟨s, hs, hclean⟩ := ih rest.length (by omega) rest rfl
        refine ⟨.gap front s, ?_, ?_, hclean⟩
        · rw [Split.fill, hs, hxs]
        · rw [hs]
          exact havoids

end

end Replacing
