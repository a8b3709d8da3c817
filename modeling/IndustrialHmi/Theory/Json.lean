import Mathlib.Algebra.Order.Ring.Int
import Mathlib.Data.Rat.Defs

/-!
# JSON values

Values with texts as bytes and objects as lists of members in their order, no two of one
name.  An object is built by assigning its members one after the other: a later member of
a name takes the place of an earlier one.
-/

abbrev Text := List UInt8

instance : LawfulBEq Text := List.instLawfulBEq

/-- Every byte has a property. -/
def Text.All (p : UInt8 → Prop) (t : Text) : Prop := ∀ b ∈ t, p b

instance (p : UInt8 → Prop) [DecidablePred p] (t : Text) : Decidable (t.All p) :=
  List.decidableBAll p t

theorem Text.forall_head {p : UInt8 → Prop} {c : UInt8} (h : p c) (t : Text) :
    ∀ b ∈ (c :: t).head?, p b := by
  rintro b ⟨⟩
  exact h

/-- The bytes of a literal. -/
def ascii (s : String) : Text := s.toByteArray.data.toList

/-- The bytes are the encoding of a string. -/
def Text.WellEncoded (t : Text) : Prop := (ByteArray.mk t.toArray).IsValidUTF8

instance (t : Text) : Decidable t.WellEncoded :=
  inferInstanceAs (Decidable (ByteArray.mk t.toArray).IsValidUTF8)

namespace JsonText

def quote : UInt8 := 0x22
def backslash : UInt8 := 0x5C

/-- A text that is spelled as it is: no quote, backslash or control character, and well
encoded. -/
def Plain (raw : Text) : Prop :=
  (raw.All fun b => 0x20 ≤ b ∧ b ≠ quote ∧ b ≠ backslash) ∧ raw.WellEncoded

instance (raw : Text) : Decidable (Plain raw) :=
  inferInstanceAs (Decidable ((raw.All fun b => 0x20 ≤ b ∧ b ≠ quote ∧ b ≠ backslash) ∧
    raw.WellEncoded))

end JsonText

/-- A floating-point number, if it is finite its value, and its shortest text. -/
structure Double where
  value : Option ℚ
  dump : Text
  plain : JsonText.Plain dump

theorem wellEncoded_ascii (s : String) : (ascii s).WellEncoded := s.isValidUTF8

inductive Json where
  | null
  | boolean (b : Bool)
  /-- A number that is kept as a signed integer. -/
  | integer (i : ℤ)
  /-- A number that is kept as an unsigned integer. -/
  | unsigned (n : ℕ)
  /-- A number with a fraction or an exponent. -/
  | float (d : Double)
  | string (s : Text)
  | array (items : List Json)
  | object (members : List (Text × Json))

/-- What a parser makes of a text. -/
inductive Parsed where
  | value (j : Json)
  | parseError
  /-- The text is well formed and has a number that is too large. -/
  | outOfRange

namespace Json

/-- Induction over a value, with what holds of each item and of each member. -/
@[elab_as_elim]
theorem induction {P : Json → Prop} (null : P .null) (boolean : ∀ b, P (.boolean b))
    (integer : ∀ i, P (.integer i)) (unsigned : ∀ n, P (.unsigned n)) (float : ∀ d, P (.float d))
    (string : ∀ s, P (.string s)) (array : ∀ items, (∀ j ∈ items, P j) → P (.array items))
    (object : ∀ members, (∀ e ∈ members, P e.2) → P (.object members)) (j : Json) : P j :=
  @Json.rec P (fun items => ∀ j ∈ items, P j) (fun members => ∀ e ∈ members, P e.2)
    (fun e => P e.2) null boolean integer unsigned float string (fun items h => array items h)
    (fun members h => object members h) (fun _ h => absurd h List.not_mem_nil)
    (fun _ _ hj hitems => List.forall_mem_cons.mpr ⟨hj, hitems⟩)
    (fun _ h => absurd h List.not_mem_nil)
    (fun _ _ he hmembers => List.forall_mem_cons.mpr ⟨he, hmembers⟩) (fun _ _ h => h) j

/-! ## Encoding -/

mutual

/-- Every string in a value, and every name, is well encoded. -/
def wellEncoded : Json → Bool
  | .string s => s.WellEncoded
  | .array items => wellEncodedItems items
  | .object members => wellEncodedMembers members
  | _ => true

def wellEncodedItems : List Json → Bool
  | [] => true
  | j :: items => wellEncoded j && wellEncodedItems items

def wellEncodedMembers : List (Text × Json) → Bool
  | [] => true
  | (name, j) :: members => name.WellEncoded && (wellEncoded j && wellEncodedMembers members)

end

theorem wellEncoded_string (s : Text) : (string s).wellEncoded = true ↔ s.WellEncoded :=
  decide_eq_true_iff

theorem wellEncoded_array (items : List Json) :
    (array items).wellEncoded = true ↔ ∀ j ∈ items, j.wellEncoded = true := by
  rw [wellEncoded]
  induction items with
  | nil => simp [wellEncodedItems]
  | cons j items ih => simp [wellEncodedItems, ih]

theorem wellEncoded_object (members : List (Text × Json)) :
    (object members).wellEncoded = true ↔
      ∀ e ∈ members, e.1.WellEncoded ∧ e.2.wellEncoded = true := by
  rw [wellEncoded]
  induction members with
  | nil => simp [wellEncodedMembers]
  | cons e members ih =>
      obtain ⟨name, j⟩ := e
      simp [wellEncodedMembers, ih, and_assoc]

/-! ## Objects -/

/-- A member takes the place of the one of its name, or comes last. -/
def assign : List (Text × Json) → Text × Json → List (Text × Json)
  | [], e => [e]
  | e' :: l, e => if e'.1 = e.1 then e :: l else e' :: assign l e

/-- The members of an object as written, assigned in their order. -/
def collapse (l : List (Text × Json)) : List (Text × Json) := l.foldl assign []

theorem assign_of_mem {a : List (Text × Json)} {e : Text × Json} (h : e.1 ∈ a.map Prod.fst)
    (b : List (Text × Json)) : assign (a ++ b) e = assign a e ++ b := by
  induction a with
  | nil => exact absurd h List.not_mem_nil
  | cons e' a ih =>
      rw [List.cons_append, assign, assign]
      by_cases hname : e'.1 = e.1
      · rw [if_pos hname, if_pos hname, List.cons_append]
      · rw [if_neg hname, if_neg hname, List.cons_append,
          ih ((List.mem_cons.mp h).resolve_left fun h => hname h.symm)]

theorem assign_of_not_mem {a : List (Text × Json)} {e : Text × Json}
    (h : e.1 ∉ a.map Prod.fst) (b : List (Text × Json)) : assign (a ++ b) e = a ++ assign b e := by
  induction a with
  | nil => rfl
  | cons e' a ih =>
      rw [List.map_cons, List.mem_cons, not_or] at h
      rw [List.cons_append, assign, if_neg fun hname => h.1 hname.symm, ih h.2, List.cons_append]

theorem names_assign (l : List (Text × Json)) (e : Text × Json) (name : Text) :
    name ∈ (assign l e).map Prod.fst ↔ name ∈ l.map Prod.fst ∨ name = e.1 := by
  induction l with
  | nil => simp [assign]
  | cons e' l ih =>
      rw [assign]
      by_cases hname : e'.1 = e.1
      · rw [if_pos hname]
        simp only [List.map_cons, List.mem_cons, hname]
        grind
      · rw [if_neg hname]
        simp only [List.map_cons, List.mem_cons, ih, or_assoc]

/-- A member put before the others stays there, if none of them has its name. -/
theorem collapse_cons {l : List (Text × Json)} {e : Text × Json} (h : e.1 ∉ l.map Prod.fst) :
    collapse (e :: l) = e :: collapse l := by
  have hgo : ∀ (l acc : List (Text × Json)), e.1 ∉ l.map Prod.fst →
      l.foldl assign (e :: acc) = e :: l.foldl assign acc := by
    intro l
    induction l with
    | nil => exact fun _ _ => rfl
    | cons e' l ih =>
        intro acc hl
        rw [List.map_cons, List.mem_cons, not_or] at hl
        rw [List.foldl_cons, List.foldl_cons, assign, if_neg hl.1, ih _ hl.2]
  exact hgo l [] h

/-! ## One member among the others -/

/-- Members that do not depend on a value, or have it under a name that none before it
has. -/
def OneSlot (name : Text) (members : Json → List (Text × Json)) : Prop :=
  (∃ l, ∀ j, members j = l) ∨
    ∃ a b, name ∉ a.map Prod.fst ∧ ∀ j, members j = a ++ (name, j) :: b

theorem OneSlot.assign {name : Text} {members : Json → List (Text × Json)}
    (h : OneSlot name members) (e : Text × Json) :
    OneSlot name fun j => Json.assign (members j) e := by
  rcases h with ⟨l, hl⟩ | ⟨a, b, ha, hmembers⟩
  · exact .inl ⟨Json.assign l e, fun j => by simp only [hl]⟩
  · by_cases hmem : e.1 ∈ a.map Prod.fst
    · refine .inr ⟨Json.assign a e, b, ?_, fun j => by simp only [hmembers, assign_of_mem hmem]⟩
      rw [names_assign]
      rintro (hname | rfl)
      · exact ha hname
      · exact ha hmem
    · by_cases hname : name = e.1
      · refine .inl ⟨a ++ e :: b, fun j => ?_⟩
        simp only [hmembers, assign_of_not_mem hmem, Json.assign, if_pos hname]
      · refine .inr ⟨a, Json.assign b e, ha, fun j => ?_⟩
        simp only [hmembers, assign_of_not_mem hmem, Json.assign, if_neg hname]

/-- A member assigned to some that are there has one slot. -/
theorem oneSlot_assign (acc : List (Text × Json)) (name : Text) :
    OneSlot name fun j => Json.assign acc (name, j) := by
  induction acc with
  | nil => exact .inr ⟨[], [], List.not_mem_nil, fun _ => rfl⟩
  | cons e acc ih =>
      by_cases hname : e.1 = name
      · refine .inr ⟨[], acc, List.not_mem_nil, fun j => ?_⟩
        simp only [Json.assign, if_pos hname, List.nil_append]
      · rcases ih with ⟨l, hl⟩ | ⟨a, b, ha, hmembers⟩
        · exact .inl ⟨e :: l, fun j => by simp only [Json.assign, if_neg hname, hl]⟩
        · refine .inr ⟨e :: a, b, ?_, fun j => ?_⟩
          · rw [List.map_cons, List.mem_cons, not_or]
            exact ⟨fun h => hname h.symm, ha⟩
          · simp only [Json.assign, if_neg hname, hmembers, List.cons_append]

theorem oneSlot_collapse (before after : List (Text × Json)) (name : Text) :
    OneSlot name fun j => collapse (before ++ (name, j) :: after) := by
  have hgo : ∀ members, OneSlot name members →
      OneSlot name fun j => after.foldl Json.assign (members j) := by
    induction after with
    | nil => exact fun _ h => h
    | cons e after ih => exact fun members h => ih _ (h.assign e)
  have hslot := hgo _ (oneSlot_assign (collapse before) name)
  simpa only [collapse, List.foldl_append, List.foldl_cons] using hslot

/-! ## Access -/

/-- The member of a name. -/
def find (name : Text) : Json → Option Json
  | .object members => members.lookup name
  | _ => none

/-- The member of a name, converted, or a default when there is none.  Of a value that is
no object, and of a member that does not convert, it is a type error, which is `none`. -/
def value {α : Type} (convert : Json → Option α) (name : Text) (default : α) : Json → Option α
  | .object members =>
      match members.lookup name with
      | some j => convert j
      | none => some default
  | _ => none

def asText : Json → Option Text
  | .string s => some s
  | _ => none

/-- What a build of the program makes of a number that an integer type does not hold.  The cast of
such a number is not defined. -/
structure Casts where
  toInt64 : Double → BitVec 64
  toUInt64 : Double → BitVec 64
  toUInt32 : Double → BitVec 32

/-- The casts of a processor that has one value for what it cannot convert: the smallest of a signed
type, and zero of an unsigned one. -/
def Casts.indefinite : Casts where
  toInt64 _ := BitVec.ofNat 64 (2 ^ 63)
  toUInt64 _ := 0
  toUInt32 _ := 0

/-- The cast of a number with a fraction: it is cut off towards zero, if the type holds that. -/
def castFloat {α : Type} (wrap : ℤ → α) (holds : ℤ → Bool) (outside : Double → α) (d : Double) :
    α :=
  match d.value with
  | none => outside d
  | some q => if holds (q.num.tdiv q.den) then wrap (q.num.tdiv q.den) else outside d

/-- The conversion to an integer type, which takes whole numbers modulo its size.  Some conversions
take booleans for numbers. -/
def asInteger {α : Type} (booleans : Bool) (wrap : ℤ → α) (holds : ℤ → Bool)
    (outside : Double → α) : Json → Option α
  | .integer i => some (wrap i)
  | .unsigned n => some (wrap n)
  | .float d => some (castFloat wrap holds outside d)
  | .boolean b => if booleans then some (wrap b.toNat) else none
  | _ => none

section

variable (casts : Casts)

def asInt64 : Json → Option ℤ :=
  asInteger false (·.bmod (2 ^ 64)) (fun i => -2 ^ 63 ≤ i ∧ i < 2 ^ 63)
    fun d => (casts.toInt64 d).toInt

def asUInt64 : Json → Option Nat :=
  asInteger false (fun i => (i % 2 ^ 64).toNat) (fun i => 0 ≤ i ∧ i < 2 ^ 64)
    fun d => (casts.toUInt64 d).toNat

def asUInt32 : Json → Option (BitVec 32) :=
  asInteger true (BitVec.ofInt 32) (fun i => 0 ≤ i ∧ i < 2 ^ 32) casts.toUInt32

end

theorem find_wellEncoded {j j' : Json} {name : Text} (hj : j.wellEncoded = true)
    (h : j.find name = some j') : j'.wellEncoded = true := by
  cases j with
  | object members =>
      rw [wellEncoded_object] at hj
      obtain ⟨before, after, rfl, -⟩ := List.lookup_eq_some_iff.mp h
      exact (hj (name, j') (by simp)).2
  | _ => cases h

end Json
