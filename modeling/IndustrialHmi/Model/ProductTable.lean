import IndustrialHmi.Theory.Binary32
import IndustrialHmi.Theory.Characters
import IndustrialHmi.Theory.Json
import IndustrialHmi.Theory.Like
import Mathlib.Data.List.Nodup

/-!
# The table of products

A table keeps its rows in the order of their ids, which it hands out and never gives again.  A
product that is deleted keeps its row, with the time of its deletion, and so its code.

A statement is carried out, or it fails and changes nothing.  It fails when it would break a
constraint of the table, and else when `fails` says so.  The time is that of `CURRENT_TIMESTAMP`.
-/

namespace Products

/-- A text is bound up to its first zero. -/
def cString (t : Text) : Text := t.takeWhile (· ≠ 0)

/-- A row of `products`; the rate is null if it was no number, and the last time if the product
is not deleted. -/
structure ProductRow where
  id : ℤ
  productCode : Text
  name : Text
  status : Text
  stock : ℤ
  qualityRate : Option Binary32
  createdAt : Text
  updatedAt : Text
  deletedAt : Option Text
  deriving DecidableEq

structure Product where
  id : ℤ
  productCode : Text
  name : Text
  status : Text
  stock : ℤ
  qualityRate : Binary32
  createdAt : Text
  updatedAt : Text
  deletedAt : Text
  deriving DecidableEq

/-- `status IN ('Active', 'Inactive', 'Low Stock')`. -/
def statuses : List Text := [ascii "Active", ascii "Inactive", ascii "Low Stock"]

/-- What is stored for a number: null for what is none. -/
def bindDouble (q : Binary32) : Option Binary32 := if q = .nan then none else some q

/-- A column is read into 32 bits. -/
def columnInt (i : ℤ) : ℤ := i.bmod (2 ^ 32)

namespace ProductRow

def live (r : ProductRow) : Bool := r.deletedAt.isNone

def extractProduct (r : ProductRow) : Product where
  id := columnInt r.id
  productCode := cString r.productCode
  name := cString r.name
  status := cString r.status
  stock := columnInt r.stock
  qualityRate := r.qualityRate.getD (.fin 0)
  createdAt := cString r.createdAt
  updatedAt := cString r.updatedAt
  deletedAt := cString (r.deletedAt.getD [])

/-- What an `UPDATE` does to a row: it keeps the id and the code, and the status stays one of
those allowed. -/
structure Edit where
  apply : ProductRow → ProductRow
  id_apply (r : ProductRow) : (apply r).id = r.id
  productCode_apply (r : ProductRow) : (apply r).productCode = r.productCode
  status_apply (r : ProductRow) (h : r.status ∈ statuses) : (apply r).status ∈ statuses

/-- The row with what an update writes, and with the time that the trigger writes. -/
def withValues (name status : Text) (stock : ℤ) (qualityRate : Binary32) (now : Text)
    (r : ProductRow) : ProductRow :=
  { r with
    name := cString name
    status := cString status
    stock
    qualityRate := bindDouble qualityRate
    updatedAt := now }

/-- The row with a time of deletion, and with the time that the trigger writes. -/
def withDeletion (now : Text) (r : ProductRow) : ProductRow :=
  { r with updatedAt := now, deletedAt := some now }

end ProductRow

/-! ## Patterns -/

def percent : UInt8 := 0x25
def underscore : UInt8 := 0x5F

/-- The lower case of a letter of ASCII. -/
def lower (b : UInt8) : UInt8 := if 0x41 ≤ b ∧ b ≤ 0x5A then b + 0x20 else b

/-- What two characters are compared by. -/
def foldCase (c : Text) : Text := c.map lower

def likeItem (c : Text) : Like.Item Text :=
  if c = [percent] then .any else if c = [underscore] then .one else .lit c

/-- `text LIKE pattern`. -/
def like (pattern text : Text) : Bool :=
  Like.test foldCase ((Characters.chars pattern).map likeItem) (Characters.chars text)

/-- A longer pattern is an error. -/
def kMaxLikePatternLength : Nat := 50000

/-! ## The table -/

structure ProductTable where
  rows : List ProductRow
  /-- The largest id that was ever handed out. -/
  sequence : ℤ
  ids_ascending : (rows.map ProductRow.id).Pairwise (· < ·)
  id_le_sequence : ∀ r ∈ rows, r.id ≤ sequence
  codes_nodup : (rows.map ProductRow.productCode).Nodup
  status_mem : ∀ r ∈ rows, r.status ∈ statuses

def kMaxRowId : ℤ := 2 ^ 63 - 1

namespace ProductTable

def empty : ProductTable where
  rows := []
  sequence := 0
  ids_ascending := List.Pairwise.nil
  id_le_sequence _ h := absurd h List.not_mem_nil
  codes_nodup := List.nodup_nil
  status_mem _ h := absurd h List.not_mem_nil

/-- The row that an `INSERT` adds. -/
def newRow (t : ProductTable) (productCode name status : Text) (stock : ℤ)
    (qualityRate : Binary32) (now : Text) : ProductRow where
  id := t.sequence + 1
  productCode := cString productCode
  name := cString name
  status := cString status
  stock
  qualityRate := bindDouble qualityRate
  createdAt := now
  updatedAt := now
  deletedAt := none

/-- The table with one more row. -/
def insert (t : ProductTable) (r : ProductRow) (hid : r.id = t.sequence + 1)
    (hcode : r.productCode ∉ t.rows.map ProductRow.productCode)
    (hstatus : r.status ∈ statuses) : ProductTable where
  rows := t.rows ++ [r]
  sequence := t.sequence + 1
  ids_ascending := by
    rw [List.map_append, List.pairwise_append]
    refine ⟨t.ids_ascending, List.pairwise_singleton _ _, fun i hi j hj => ?_⟩
    obtain ⟨r', hr', rfl⟩ := List.mem_map.mp hi
    rw [List.map_singleton, List.mem_singleton] at hj
    rw [hj, hid]
    exact Int.lt_add_one_of_le (t.id_le_sequence r' hr')
  id_le_sequence r' hr' := by
    rcases List.mem_append.mp hr' with h | h
    · exact Int.le_trans (t.id_le_sequence r' h) (Int.le_of_lt (Int.lt_succ _))
    · rw [List.mem_singleton.mp h, hid]
  codes_nodup := by
    rw [List.map_append, List.map_singleton, ← List.concat_eq_append]
    exact t.codes_nodup.concat hcode
  status_mem r' hr' := by
    rcases List.mem_append.mp hr' with h | h
    · exact t.status_mem r' h
    · exact List.mem_singleton.mp h ▸ hstatus

/-- The table with the row of an id edited, if there is one. -/
def edit (t : ProductTable) (id : ℤ) (e : ProductRow.Edit) : ProductTable where
  rows := t.rows.map fun r => if r.id = id then e.apply r else r
  sequence := t.sequence
  ids_ascending := by
    have hids : (t.rows.map fun r => if r.id = id then e.apply r else r).map ProductRow.id =
        t.rows.map ProductRow.id := by
      rw [List.map_map]
      refine List.map_congr_left fun r _ => ?_
      show (if r.id = id then e.apply r else r).id = r.id
      split
      · exact e.id_apply r
      · rfl
    rw [hids]
    exact t.ids_ascending
  id_le_sequence r' hr' := by
    obtain ⟨r, hr, rfl⟩ := List.mem_map.mp hr'
    split
    · exact (e.id_apply r).symm ▸ t.id_le_sequence r hr
    · exact t.id_le_sequence r hr
  codes_nodup := by
    have hcodes : (t.rows.map fun r => if r.id = id then e.apply r else r).map
        ProductRow.productCode = t.rows.map ProductRow.productCode := by
      rw [List.map_map]
      refine List.map_congr_left fun r _ => ?_
      show (if r.id = id then e.apply r else r).productCode = r.productCode
      split
      · exact e.productCode_apply r
      · rfl
    rw [hcodes]
    exact t.codes_nodup
  status_mem r' hr' := by
    obtain ⟨r, hr, rfl⟩ := List.mem_map.mp hr'
    split
    · exact e.status_apply r (t.status_mem r hr)
    · exact t.status_mem r hr

/-- A live product has the id. -/
def Names (t : ProductTable) (id : ℤ) : Prop := ∃ r ∈ t.rows, r.id = id ∧ r.live = true

instance (t : ProductTable) (id : ℤ) : Decidable (t.Names id) :=
  inferInstanceAs (Decidable (∃ r ∈ t.rows, r.id = id ∧ r.live = true))

def addProduct (t : ProductTable) (productCode name status : Text) (stock : ℤ)
    (qualityRate : Binary32) (now : Text) (fails : Bool) : Bool × ProductTable :=
  let r := t.newRow productCode name status stock qualityRate now
  if h : r.productCode ∉ t.rows.map ProductRow.productCode ∧ r.status ∈ statuses then
    if fails ∨ kMaxRowId ≤ t.sequence then (false, t) else (true, t.insert r rfl h.1 h.2)
  else (false, t)

def deleteProduct (t : ProductTable) (id : ℤ) (now : Text) (fails : Bool) :
    Bool × ProductTable :=
  if fails then (false, t)
  else (true, t.edit id ⟨ProductRow.withDeletion now, fun _ => rfl, fun _ => rfl, fun _ h => h⟩)

/-- `… WHERE id = ? AND deleted_at IS NULL`: with no such row no constraint is looked at. -/
def updateProduct (t : ProductTable) (id : ℤ) (name status : Text) (stock : ℤ)
    (qualityRate : Binary32) (now : Text) (fails : Bool) : Bool × ProductTable :=
  if fails then (false, t)
  else if t.Names id then
    if h : cString status ∈ statuses then
      (true, t.edit id ⟨ProductRow.withValues name status stock qualityRate now, fun _ => rfl,
        fun _ => rfl, fun _ _ => h⟩)
    else (false, t)
  else (true, t)

/-- The products that a new table gets, with code, name, status, stock and rate. -/
def demoProducts : List (Text × Text × Text × ℤ × Binary32) :=
  [(ascii "PROD-001", ascii "Product A", ascii "Active", 850, Binary32.round (981 / 10)),
   (ascii "PROD-002", ascii "Product B", ascii "Active", 320, Binary32.round (957 / 10)),
   (ascii "PROD-003", ascii "Product C", ascii "Low Stock", 45, Binary32.round 93),
   (ascii "PROD-004", ascii "Product D", ascii "Inactive", 0, Binary32.round 0),
   (ascii "PROD-005", ascii "Product E", ascii "Active", 1200, Binary32.round (992 / 10)),
   (ascii "PROD-006", ascii "Product F", ascii "Active", 540, Binary32.round (968 / 10))]

def populateDemoData (t : ProductTable) (now : Text) : ProductTable :=
  demoProducts.foldl (fun t p => (t.addProduct p.1 p.2.1 p.2.2.1 p.2.2.2.1 p.2.2.2.2 now false).2) t

/-- The table of a store that was initialised. -/
def initialized (now : Text) : ProductTable := empty.populateDemoData now

/-! ## Reading -/

/-- The rows that `getAllProducts` reads. -/
def selectLive (t : ProductTable) : List ProductRow := t.rows.filter ProductRow.live

def getAllProducts (t : ProductTable) : List Product :=
  t.selectLive.map ProductRow.extractProduct

/-- The rows that `getProduct` reads. -/
def selectId (t : ProductTable) (id : ℤ) : List ProductRow :=
  t.rows.filter fun r => decide (r.id = id) && r.live

/-- The product of the first row; with none the id of the product is `kInvalidProductId`. -/
def getProduct (t : ProductTable) (id : ℤ) : Option Product :=
  (t.selectId id).head?.map ProductRow.extractProduct

/-- `getProduct` finds a product where an update of that id changes a row. -/
theorem getProduct_isSome_iff (t : ProductTable) (id : ℤ) :
    (t.getProduct id).isSome = true ↔ t.Names id := by
  rw [getProduct, Option.isSome_map, List.isSome_head?]
  constructor
  · intro hfound
    obtain ⟨r, hr⟩ := List.exists_mem_of_ne_nil _ hfound
    obtain ⟨hmem, hid⟩ := List.mem_filter.mp hr
    rw [Bool.and_eq_true, decide_eq_true_iff] at hid
    exact ⟨r, hmem, hid⟩
  · rintro ⟨r, hmem, hid, hlive⟩
    refine List.ne_nil_of_mem (List.mem_filter.mpr ⟨hmem, ?_⟩)
    rw [Bool.and_eq_true, decide_eq_true_iff]
    exact ⟨hid, hlive⟩

/-- The rows that `searchProducts` reads. -/
def selectLike (t : ProductTable) (query : Text) : List ProductRow :=
  let pattern := cString (percent :: query ++ [percent])
  if kMaxLikePatternLength < pattern.length then []
  else
    t.rows.filter fun r =>
      (like pattern (cString r.name) || like pattern (cString r.productCode)) && r.live

def searchProducts (t : ProductTable) (query : Text) : List Product :=
  (t.selectLike query).map ProductRow.extractProduct

end ProductTable

end Products
