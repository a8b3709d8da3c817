import Mathlib.Data.List.Induction

/-!
# Segments

Pieces come one by one and are collected.  When what is collected is full, it is closed and the
next segment begins.  The segments make up all the pieces in order, and one that is closed does
not change any more.
-/

namespace Segments

variable {α : Type} (full : List α → Bool)

/-- The closed segments, and the one that is open. -/
structure Cut (α : Type) where
  closed : List (List α) := []
  current : List α := []
  deriving DecidableEq

/-- A piece joins the open segment. -/
def Cut.add (c : Cut α) (piece : α) : Cut α :=
  if full (c.current ++ [piece]) then { closed := c.closed ++ [c.current ++ [piece]] }
  else { c with current := c.current ++ [piece] }

def cut (pieces : List α) : Cut α := pieces.foldl (Cut.add full) {}

/-- All segments, in order. -/
def Cut.segments (c : Cut α) : List (List α) := c.closed ++ [c.current]

variable {full}

theorem cut_concat (pieces : List α) (piece : α) :
    cut full (pieces ++ [piece]) = (cut full pieces).add full piece :=
  List.foldl_append

theorem flatten_add (c : Cut α) (piece : α) :
    (c.add full piece).segments.flatten = c.segments.flatten ++ [piece] := by
  rw [Cut.add]
  split <;> simp [Cut.segments]

theorem flatten_segments_cut (pieces : List α) : (cut full pieces).segments.flatten = pieces := by
  induction pieces using List.reverseRecOn with
  | nil => rfl
  | append_singleton pieces piece ih => rw [cut_concat, flatten_add, ih]

theorem closed_prefix_add (c : Cut α) (piece : α) : c.closed <+: (c.add full piece).closed := by
  rw [Cut.add]
  split
  next => exact List.prefix_append _ _
  next => exact List.prefix_rfl

/-- Segments that are closed stay as they are. -/
theorem closed_prefix_cut (pieces more : List α) :
    (cut full pieces).closed <+: (cut full (pieces ++ more)).closed := by
  induction more using List.reverseRecOn with
  | nil => simp only [List.append_nil, List.prefix_rfl]
  | append_singleton more piece ih =>
      rw [← List.append_assoc, cut_concat]
      exact ih.trans (closed_prefix_add _ piece)

/-- No segment is full before its last piece, and the open one is not full at all. -/
structure WellCut (full : List α → Bool) (c : Cut α) : Prop where
  closed : ∀ segment ∈ c.closed, ∃ pieces piece, segment = pieces ++ [piece] ∧
    full pieces = false
  current : full c.current = false

theorem WellCut.add {c : Cut α} (hc : WellCut full c) (hempty : full [] = false) (piece : α) :
    WellCut full (c.add full piece) := by
  rw [Cut.add]
  split
  next =>
    refine ⟨?_, hempty⟩
    rw [List.forall_mem_append, List.forall_mem_singleton]
    exact ⟨hc.closed, c.current, piece, rfl, hc.current⟩
  next hroom => exact ⟨hc.closed, eq_false_of_ne_true hroom⟩

theorem wellCut_cut (hempty : full [] = false) (pieces : List α) :
    WellCut full (cut full pieces) := by
  induction pieces using List.reverseRecOn with
  | nil => exact ⟨List.forall_mem_nil _, hempty⟩
  | append_singleton pieces piece ih =>
      rw [cut_concat]
      exact ih.add hempty piece

end Segments
