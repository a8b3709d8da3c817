import Mathlib.Algebra.BigOperators.Group.List.Basic
import Mathlib.Logic.Function.Basic
import IndustrialHmi.Theory.Json

/-!
# Flattening

The configuration is kept as a map from dot-joined paths to texts.  A loop with a stack of
the values still to be visited fills it.  The children of a value are pushed in their order
and popped from the last, so among the leaves of one path the first in the document is
written last, and stays (`flatten_eq`).
-/

namespace Config

abbrev FlatMap := Text → Option Text

def dot : UInt8 := 0x2E

/-- The path of a child. -/
def nextKey (pre key : Text) : Text := if pre.isEmpty then key else pre ++ dot :: key

def decimal (i : ℤ) : Text := ascii (toString i)

/-- `static_cast<std::int64_t>`. -/
def toInt64 (i : ℤ) : ℤ := i.bmod (2 ^ 64)

/-- The text kept for a scalar.  `is_number_integer` holds of unsigned numbers too. -/
def leafText : Json → Text
  | .string s => s
  | .boolean b => if b then ascii "true" else ascii "false"
  | .integer i => decimal (toInt64 i)
  | .unsigned n => decimal (toInt64 n)
  | .float d => d.dump
  | _ => []

/-! ## The loop -/

mutual

/-- The number of values in a value. -/
def nodes : Json → Nat
  | .array items => 1 + nodesOfItems items
  | .object members => 1 + nodesOfMembers members
  | _ => 1

def nodesOfItems : List Json → Nat
  | [] => 0
  | j :: items => nodes j + nodesOfItems items

def nodesOfMembers : List (Text × Json) → Nat
  | [] => 0
  | (_, j) :: members => nodes j + nodesOfMembers members

end

theorem nodes_pos (j : Json) : 0 < nodes j := by
  cases j with
  | array items => exact Nat.lt_add_right _ Nat.one_pos
  | object members => exact Nat.lt_add_right _ Nat.one_pos
  | _ => exact Nat.one_pos

/-- A value to be visited, with its path. -/
abbrev Frame := Json × Text

def memberFrames (pre : Text) (members : List (Text × Json)) : List Frame :=
  members.map fun e => (e.2, nextKey pre e.1)

def itemFrames (pre : Text) (index : Nat) (items : List Json) : List Frame :=
  (items.zipIdx index).map fun e => (e.1, nextKey pre (ascii (toString e.2)))

theorem nodes_memberFrames (pre : Text) (members : List (Text × Json)) :
    ((memberFrames pre members).map fun f => nodes f.1).sum = nodesOfMembers members := by
  induction members with
  | nil => rfl
  | cons e members ih => exact congrArg (nodes e.2 + ·) ih

theorem nodes_itemFrames (pre : Text) (index : Nat) (items : List Json) :
    ((itemFrames pre index items).map fun f => nodes f.1).sum = nodesOfItems items := by
  induction items generalizing index with
  | nil => rfl
  | cons j items ih => exact congrArg (nodes j + ·) (ih (index + 1))

/-- The head of the list is the back of the stack. -/
def flattenLoop : List Frame → FlatMap → FlatMap
  | [], out => out
  | (.object members, pre) :: stack, out =>
      flattenLoop ((memberFrames pre members).reverse ++ stack) out
  | (.array items, pre) :: stack, out =>
      flattenLoop ((itemFrames pre 0 items).reverse ++ stack) out
  | (scalar, pre) :: stack, out =>
      -- a scalar at the top level has no path to be kept under
      flattenLoop stack
        (if pre.isEmpty then out else Function.update out pre (some (leafText scalar)))
termination_by stack _ => (stack.map fun f => nodes f.1).sum
decreasing_by
  · simp [List.sum_reverse, List.map_reverse, nodes_memberFrames, nodes]
  · simp [List.sum_reverse, List.map_reverse, nodes_itemFrames, nodes]
  · exact Nat.lt_add_of_pos_left (nodes_pos scalar)

def flatten (root : Json) : FlatMap := flattenLoop [(root, [])] fun _ => none

/-! ## The leaves -/

mutual

/-- The leaves of a value in the order of the document, each with its path. -/
def leaves (pre : Text) : Json → List (Text × Text)
  | .object members => leavesOfMembers pre members
  | .array items => leavesOfItems pre 0 items
  | scalar => if pre.isEmpty then [] else [(pre, leafText scalar)]

def leavesOfItems (pre : Text) (index : Nat) : List Json → List (Text × Text)
  | [] => []
  | j :: items =>
      leaves (nextKey pre (ascii (toString index))) j ++ leavesOfItems pre (index + 1) items

def leavesOfMembers (pre : Text) : List (Text × Json) → List (Text × Text)
  | [] => []
  | (key, j) :: members => leaves (nextKey pre key) j ++ leavesOfMembers pre members

end

theorem leaves_memberFrames (pre : Text) (members : List (Text × Json)) :
    (memberFrames pre members).flatMap (fun f => leaves f.2 f.1) =
      leavesOfMembers pre members := by
  induction members with
  | nil => rfl
  | cons e members ih => exact congrArg (leaves (nextKey pre e.1) e.2 ++ ·) ih

theorem leaves_itemFrames (pre : Text) (index : Nat) (items : List Json) :
    (itemFrames pre index items).flatMap (fun f => leaves f.2 f.1) =
      leavesOfItems pre index items := by
  induction items generalizing index with
  | nil => rfl
  | cons j items ih =>
      exact congrArg (leaves (nextKey pre (ascii (toString index))) j ++ ·) (ih (index + 1))

theorem leavesOfItems_append (pre : Text) (index : Nat) (a b : List Json) :
    leavesOfItems pre index (a ++ b) =
      leavesOfItems pre index a ++ leavesOfItems pre (index + a.length) b := by
  rw [← leaves_itemFrames, ← leaves_itemFrames, ← leaves_itemFrames, itemFrames,
    List.zipIdx_append, List.map_append, List.flatMap_append]
  rfl

theorem leavesOfMembers_append (pre : Text) (a b : List (Text × Json)) :
    leavesOfMembers pre (a ++ b) = leavesOfMembers pre a ++ leavesOfMembers pre b := by
  rw [← leaves_memberFrames, ← leaves_memberFrames, ← leaves_memberFrames, memberFrames,
    List.map_append, List.flatMap_append]
  rfl

/-! ## The map -/

def write (out : FlatMap) (e : Text × Text) : FlatMap := Function.update out e.1 (some e.2)

/-- The loop writes the leaves of each value on its stack from the last to the first. -/
theorem flattenLoop_eq (stack : List Frame) (out : FlatMap) :
    flattenLoop stack out = (stack.flatMap fun f => (leaves f.2 f.1).reverse).foldl write out := by
  induction stack, out using flattenLoop.induct with
  | case1 out => rw [flattenLoop]; rfl
  | case2 members pre stack out ih =>
      have hframes : (memberFrames pre members).reverse.flatMap
          (fun f => (leaves f.2 f.1).reverse) = (leavesOfMembers pre members).reverse := by
        rw [← leaves_memberFrames, List.reverse_flatMap]
        rfl
      rw [flattenLoop, ih, List.flatMap_append, hframes, List.flatMap_cons]
      rfl
  | case3 items pre stack out ih =>
      have hframes : (itemFrames pre 0 items).reverse.flatMap
          (fun f => (leaves f.2 f.1).reverse) = (leavesOfItems pre 0 items).reverse := by
        rw [← leaves_itemFrames, List.reverse_flatMap]
        rfl
      rw [flattenLoop, ih, List.flatMap_append, hframes, List.flatMap_cons]
      rfl
  | case4 scalar pre stack out hobject harray ih =>
      have hleaves : leaves pre scalar = if pre.isEmpty then [] else [(pre, leafText scalar)] := by
        cases scalar with
        | object members => exact absurd rfl (hobject members)
        | array items => exact absurd rfl (harray items)
        | _ => rfl
      simp only [dite_eq_ite] at ih
      rw [flattenLoop, ih, List.flatMap_cons, hleaves, List.foldl_append]
      · split <;> rfl
      · exact hobject
      · exact harray

/-- Of the leaves of one path the one written last stays. -/
theorem foldl_write_reverse (l : List (Text × Text)) (path : Text) :
    (l.reverse.foldl write fun _ => none) path = l.lookup path := by
  rw [List.foldl_reverse]
  induction l with
  | nil => rfl
  | cons e l ih =>
      rw [List.foldr_cons, List.lookup_cons, ← ih, write]
      by_cases hpath : path = e.1
      · subst hpath
        simp
      · have hne : (path == e.1) = false := by simpa using hpath
        rw [Function.update_of_ne hpath, hne]

/-- The map has at each path the first leaf of the document with that path. -/
theorem flatten_eq (root : Json) (path : Text) :
    flatten root path = (leaves [] root).lookup path := by
  rw [flatten, flattenLoop_eq, List.flatMap_singleton, foldl_write_reverse]

end Config
