import Mathlib.Data.List.Forall2
import Mathlib.Data.List.Infix

/-!
# Patterns with two wildcards

A pattern is a list of items: characters, a wildcard for one character, and a wildcard for any
number of them.  Two characters are compared by what a function `fold` makes of them.
-/

namespace Like

inductive Item (γ : Type*) where
  | any
  | one
  | lit (c : γ)

variable {γ : Type*} [DecidableEq γ] (fold : γ → γ)

/-- Whether a pattern matches the whole of a text. -/
def test : List (Item γ) → List γ → Bool
  | [], text => text.isEmpty
  | .any :: pattern, text => text.tails.any (test pattern)
  | .one :: _, [] => false
  | .one :: pattern, _ :: text => test pattern text
  | .lit _ :: _, [] => false
  | .lit c :: pattern, d :: text => decide (fold c = fold d) && test pattern text

variable {fold}

theorem test_any {pattern : List (Item γ)} {text : List γ} :
    test fold (.any :: pattern) text = true ↔
      ∃ rest, rest <:+ text ∧ test fold pattern rest = true := by
  rw [test, List.any_eq_true]
  simp only [List.mem_tails]

/-- Characters match what is equal to them up to `fold`. -/
theorem test_lits {cs : List γ} {pattern : List (Item γ)} {text : List γ} :
    test fold (cs.map .lit ++ pattern) text = true ↔
      ∃ u v, text = u ++ v ∧ cs.map fold = u.map fold ∧ test fold pattern v = true := by
  induction cs generalizing text with
  | nil =>
      constructor
      · intro h
        exact ⟨[], text, rfl, rfl, h⟩
      · rintro ⟨u, v, rfl, hu, hv⟩
        obtain rfl := List.map_eq_nil_iff.mp hu.symm
        exact hv
  | cons c cs ih =>
      cases text with
      | nil =>
          refine ⟨fun h => absurd h Bool.false_ne_true, ?_⟩
          rintro ⟨u, v, huv, hu, _⟩
          rw [(List.append_eq_nil_iff.mp huv.symm).1] at hu
          cases hu
      | cons d text =>
          rw [List.map_cons, List.cons_append, test, Bool.and_eq_true, decide_eq_true_eq, ih]
          constructor
          · rintro ⟨hd, u, v, rfl, hu, hv⟩
            exact ⟨d :: u, v, rfl, by rw [List.map_cons, List.map_cons, hd, hu], hv⟩
          · rintro ⟨u, v, huv, hu, hv⟩
            cases u with
            | nil => cases hu
            | cons d' u =>
                obtain ⟨rfl, rfl⟩ := List.cons.inj huv
                obtain ⟨hd, hu⟩ := List.cons.inj hu
                exact ⟨hd, u, v, rfl, hu, hv⟩

/-- Characters between two wildcards for any number are searched for. -/
theorem test_search {cs text : List γ} :
    test fold (.any :: (cs.map .lit ++ [.any])) text = true ↔
      cs.map fold <:+: text.map fold := by
  rw [test_any]
  constructor
  · rintro ⟨rest, ⟨w, rfl⟩, h⟩
    obtain ⟨u, v, rfl, hu, _⟩ := test_lits.mp h
    rw [hu, List.map_append, List.map_append]
    exact ⟨w.map fold, v.map fold, List.append_assoc _ _ _⟩
  · rintro ⟨w, v, h⟩
    rw [List.append_assoc] at h
    obtain ⟨w', rest, rfl, _, hrest⟩ := List.map_eq_append_iff.mp h.symm
    obtain ⟨u, v', rfl, hu, _⟩ := List.map_eq_append_iff.mp hrest
    refine ⟨u ++ v', List.suffix_append w' _, test_lits.mpr ⟨u, v', rfl, hu.symm, ?_⟩⟩
    exact test_any.mpr ⟨[], List.nil_suffix, rfl⟩

/-- A character that an item matches. -/
def Fits (fold : γ → γ) : Item γ → γ → Prop
  | .any, _ => True
  | .one, _ => True
  | .lit c, d => fold c = fold d

/-- Items may each match one character, and the rest of the pattern the rest of the text. -/
theorem test_append_of_fits {items pattern : List (Item γ)} {u v : List γ}
    (h : List.Forall₂ (Fits fold) items u) (hv : test fold pattern v = true) :
    test fold (items ++ pattern) (u ++ v) = true := by
  induction h with
  | nil => exact hv
  | @cons item c items u hitem _ ih =>
      cases item with
      | any => exact test_any.mpr ⟨u ++ v, List.suffix_cons c (u ++ v), ih⟩
      | one => exact ih
      | lit d =>
          rw [List.cons_append, List.cons_append, test, Bool.and_eq_true, decide_eq_true_eq]
          exact ⟨hitem, ih⟩

end Like
