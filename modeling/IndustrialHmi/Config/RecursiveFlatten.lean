import Mathlib.Data.Int.DivMod
import IndustrialHmi.Config.Flatten

/-!
# Flattening by recursion

The loop of `flatten` stands for a recursion over the document, in whose order a leaf takes the
place of an earlier one with the same path, and in which a number keeps its decimals.  The loop
differs from it twice.  It keeps the first leaf of a path and not the last.  And it takes an
unsigned number for a signed one, so that one from `2 ^ 63` on becomes negative.

So they agree exactly when at every path the first leaf is kept with the text of the last
(`flatten_eq_flattenRec_iff`).
-/

namespace Config

/-! ## The recursion -/

/-- A scalar as text.  A number has all its decimals. -/
def scalarText : Json → Text
  | .string s => s
  | .boolean b => if b then ascii "true" else ascii "false"
  | .integer i => decimal i
  | .unsigned n => decimal n
  | .float d => d.dump
  | _ => []

mutual

/-- The natural traversal: in the order of the document, and a later leaf overwrites. -/
def flattenRec (pre : Text) : Json → FlatMap → FlatMap
  | .object members, out => flattenMembers pre members out
  | .array items, out => flattenItems pre 0 items out
  | scalar, out =>
      if pre.isEmpty then out else Function.update out pre (some (scalarText scalar))

def flattenItems (pre : Text) (index : Nat) : List Json → FlatMap → FlatMap
  | [], out => out
  | j :: items, out =>
      flattenItems pre (index + 1) items
        (flattenRec (nextKey pre (ascii (toString index))) j out)

def flattenMembers (pre : Text) : List (Text × Json) → FlatMap → FlatMap
  | [], out => out
  | (key, j) :: members, out => flattenMembers pre members (flattenRec (nextKey pre key) j out)

end

/-! ## The leaves and their scalars -/

mutual

/-- The scalars of a value in the order of the document, each with its path. -/
def scalars (pre : Text) : Json → List (Text × Json)
  | .object members => scalarsOfMembers pre members
  | .array items => scalarsOfItems pre 0 items
  | scalar => if pre.isEmpty then [] else [(pre, scalar)]

def scalarsOfItems (pre : Text) (index : Nat) : List Json → List (Text × Json)
  | [] => []
  | j :: items =>
      scalars (nextKey pre (ascii (toString index))) j ++ scalarsOfItems pre (index + 1) items

def scalarsOfMembers (pre : Text) : List (Text × Json) → List (Text × Json)
  | [] => []
  | (key, j) :: members => scalars (nextKey pre key) j ++ scalarsOfMembers pre members

end

def kept (e : Text × Json) : Text × Text := (e.1, leafText e.2)

def exact (e : Text × Json) : Text × Text := (e.1, scalarText e.2)

theorem leaves_eq (j : Json) : ∀ pre, leaves pre j = (scalars pre j).map kept := by
  induction j using Json.induction with
  | array items ih =>
      have hitems : ∀ pre index, leavesOfItems pre index items =
          (scalarsOfItems pre index items).map kept := by
        induction items with
        | nil => exact fun pre index => rfl
        | cons j items ihitems =>
            intro pre index
            rw [leavesOfItems, scalarsOfItems, List.map_append, ih j List.mem_cons_self,
              ihitems fun j' hj' => ih j' (List.mem_cons_of_mem j hj')]
      exact fun pre => hitems pre 0
  | object members ih =>
      intro pre
      rw [leaves, scalars]
      induction members with
      | nil => rfl
      | cons e members ihmembers =>
          rw [leavesOfMembers, scalarsOfMembers, List.map_append, ih e List.mem_cons_self,
            ihmembers fun e' he' => ih e' (List.mem_cons_of_mem e he')]
  | _ =>
      intro pre
      rw [leaves, scalars]
      · split <;> rfl
      all_goals exact fun _ h => by cases h

/-- The recursion writes the scalars in their order. -/
theorem flattenRec_eq (j : Json) :
    ∀ pre out, flattenRec pre j out = ((scalars pre j).map exact).foldl write out := by
  induction j using Json.induction with
  | array items ih =>
      have hitems : ∀ pre index out, flattenItems pre index items out =
          ((scalarsOfItems pre index items).map exact).foldl write out := by
        induction items with
        | nil => exact fun pre index out => rfl
        | cons j items ihitems =>
            intro pre index out
            rw [flattenItems, scalarsOfItems, List.map_append, List.foldl_append,
              ih j List.mem_cons_self,
              ihitems fun j' hj' => ih j' (List.mem_cons_of_mem j hj')]
      exact fun pre => hitems pre 0
  | object members ih =>
      intro pre
      rw [scalars]
      induction members with
      | nil => exact fun out => rfl
      | cons e members ihmembers =>
          intro out
          rw [flattenRec, flattenMembers, scalarsOfMembers, List.map_append, List.foldl_append,
            ih e List.mem_cons_self,
            ← ihmembers fun e' he' => ih e' (List.mem_cons_of_mem e he'), flattenRec]
  | _ =>
      intro pre out
      rw [flattenRec, scalars]
      · split <;> rfl
      all_goals exact fun _ h => by cases h

theorem lookup_map {f : Json → Text} (l : List (Text × Json)) (path : Text) :
    (l.map fun e => (e.1, f e.2)).lookup path = (l.lookup path).map f := by
  induction l with
  | nil => rfl
  | cons e l ih =>
      rw [List.map_cons, List.lookup_cons, List.lookup_cons]
      cases path == e.1 with
      | true => rfl
      | false => exact ih

/-- The loop keeps the first scalar of a path. -/
theorem flatten_first (root : Json) (path : Text) :
    flatten root path = ((scalars [] root).lookup path).map leafText := by
  rw [flatten_eq, leaves_eq]
  exact lookup_map _ path

/-- The recursion keeps the last. -/
theorem flattenRec_last (root : Json) (path : Text) :
    flattenRec [] root (fun _ => none) path =
      ((scalars [] root).reverse.lookup path).map scalarText := by
  have hwrite := foldl_write_reverse ((scalars [] root).map exact).reverse path
  rw [List.reverse_reverse, ← flattenRec_eq, ← List.map_reverse] at hwrite
  rw [hwrite]
  exact lookup_map _ path

theorem lookup_reverse_isSome (l : List (Text × Json)) (path : Text) :
    (l.reverse.lookup path).isSome = (l.lookup path).isSome := by
  rw [Bool.eq_iff_iff, List.lookup_isSome_iff, List.lookup_isSome_iff]
  simp only [List.mem_reverse]

/-! ## Where they agree -/

/-- The number fits its type. -/
def Representable : Json → Prop
  | .integer i => -2 ^ 63 ≤ i ∧ i < 2 ^ 63
  | .unsigned n => n < 2 ^ 64
  | _ => True

instance : DecidablePred Representable
  | .integer i => inferInstanceAs (Decidable (-2 ^ 63 ≤ i ∧ i < 2 ^ 63))
  | .unsigned n => inferInstanceAs (Decidable (n < 2 ^ 64))
  | .null | .boolean _ | .float _ | .string _ | .array _ | .object _ => isTrue trivial

/-- Two scalars have the same text, and the first is no number from `2 ^ 63` on, or it is and the
other has the text of that number less `2 ^ 64`. -/
def Agree (first last : Json) : Prop :=
  ((∀ n, first = .unsigned n → n < 2 ^ 63) ∧ scalarText last = scalarText first) ∨
    ∃ n, first = .unsigned n ∧ 2 ^ 63 ≤ n ∧ scalarText last = decimal (n - 2 ^ 64)

theorem toInt64_of_lt {i : ℤ} (hlow : -2 ^ 63 ≤ i) (hhigh : i < 2 ^ 63) : toInt64 i = i :=
  Int.bmod_eq_of_le (by omega) (by omega)

/-- A number with the upper bit set becomes negative. -/
theorem toInt64_of_le {n : ℕ} (hlow : 2 ^ 63 ≤ n) (hhigh : n < 2 ^ 64) :
    toInt64 n = n - 2 ^ 64 := by
  rw [toInt64, Int.bmod]
  omega

theorem agree_iff_of_ne {first : Json} (h : ∀ n, first ≠ .unsigned n) (last : Json) :
    Agree first last ↔ scalarText last = scalarText first := by
  constructor
  · rintro (⟨-, htext⟩ | ⟨n, hn, -⟩)
    · exact htext
    · exact absurd hn (h n)
  · exact fun htext => Or.inl ⟨fun n hn => absurd hn (h n), htext⟩

theorem leafText_eq_iff {first : Json} (h : Representable first) (last : Json) :
    leafText first = scalarText last ↔ Agree first last := by
  cases first with
  | unsigned n =>
      have hcast : ∀ m, Json.unsigned n = .unsigned m ↔ n = m := fun m => by
        rw [Json.unsigned.injEq]
      simp only [leafText, Agree, hcast, forall_eq', exists_eq_left']
      by_cases hn : n < 2 ^ 63
      · rw [toInt64_of_lt (by omega) (by omega), scalarText, eq_comm]
        exact ⟨fun ht => Or.inl ⟨hn, ht⟩, fun hor => hor.elim And.right fun hbig => absurd hn
          (Nat.not_lt.mpr hbig.1)⟩
      · rw [toInt64_of_le (Nat.not_lt.mp hn) h, eq_comm]
        exact ⟨fun ht => Or.inr ⟨Nat.not_lt.mp hn, ht⟩, fun hor => hor.elim
          (fun hsmall => absurd hsmall.1 hn) And.right⟩
  | integer i =>
      rw [agree_iff_of_ne (fun n hn => by cases hn), leafText, toInt64_of_lt h.1 h.2]
      exact eq_comm
  | _ =>
      rw [agree_iff_of_ne fun n hn => by cases hn]
      exact eq_comm

/-- The loop builds the map of the recursion exactly when at every path the first scalar agrees
with the last. -/
theorem flatten_eq_flattenRec_iff {root : Json}
    (h : ∀ leaf ∈ scalars [] root, Representable leaf.2) :
    flatten root = flattenRec [] root (fun _ => none) ↔
      ∀ path first last, (scalars [] root).lookup path = some first →
        (scalars [] root).reverse.lookup path = some last → Agree first last := by
  rw [funext_iff]
  refine forall_congr' fun path => ?_
  rw [flatten_first, flattenRec_last]
  have hboth := lookup_reverse_isSome (scalars [] root) path
  cases hfirst : (scalars [] root).lookup path with
  | none =>
      rw [hfirst, Option.isSome_none, Option.isSome_eq_false_iff,
        Option.isNone_iff_eq_none] at hboth
      rw [hboth]
      exact iff_of_true rfl fun _ _ h => by cases h
  | some first =>
      rw [hfirst, Option.isSome_some, Option.isSome_iff_exists] at hboth
      obtain ⟨last, hlast⟩ := hboth
      obtain ⟨before, after, hmem, -⟩ := List.lookup_eq_some_iff.mp hfirst
      have hfits : Representable first :=
        h (path, first) (hmem ▸ List.mem_append_right _ List.mem_cons_self)
      rw [hlast, Option.map_some, Option.map_some, Option.some.injEq, leafText_eq_iff hfits]
      constructor
      · intro hagree first' last' hf hl
        cases hf
        cases hl
        exact hagree
      · exact fun hall => hall first last rfl rfl

/-- Two leaves with the path `a.b`. -/
def colliding : Json :=
  .object [(ascii "a.b", .unsigned 1), (ascii "a", .object [(ascii "b", .unsigned 2)])]

/-- The least number that does not fit. -/
def large : Json := .object [(ascii "a", .unsigned (2 ^ 63))]

theorem flatten_ne_flattenRec :
    flatten colliding ≠ flattenRec [] colliding (fun _ => none) ∧
      flatten large ≠ flattenRec [] large fun _ => none := by
  constructor
  · intro h
    have hpath := congrFun h (ascii "a.b")
    rw [flatten_first, flattenRec_last] at hpath
    exact absurd hpath (by decide)
  · intro h
    have hpath := congrFun h (ascii "a")
    rw [flatten_first, flattenRec_last] at hpath
    exact absurd hpath (by decide)

theorem flatten_eq_flattenRec_large :
    flatten large = flattenRec [] large (fun _ => none) ↔
      ∀ path first last, (scalars [] large).lookup path = some first →
        (scalars [] large).reverse.lookup path = some last → Agree first last :=
  flatten_eq_flattenRec_iff (by decide)

end Config
