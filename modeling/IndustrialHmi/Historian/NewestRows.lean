import IndustrialHmi.Historian.RangeQuery
import IndustrialHmi.Theory.Sorting

/-!
# The newest rows of a range

A query subtracts the bounds of its range as signed 64-bit integers, reads the table that the
difference routes it to, newest row first, and turns the rows round.  How rows of the same time
are ordered is up to the database.

The answer is right whenever the difference is one (`answersNewest_iff`).  The bounds come from the
agent as they are, and of two that are far enough apart the difference is none.
-/

namespace Historian

variable {ν : Type}

/-! ## Routing -/

def InInt64 (i : ℤ) : Prop := -2 ^ 63 ≤ i ∧ i < 2 ^ 63

instance (i : ℤ) : Decidable (InInt64 i) := inferInstanceAs (Decidable (_ ∧ _))

/-- Signed subtraction; its behaviour is undefined where it overflows. -/
def subInt64 (a b : ℤ) : Option ℤ := if InInt64 (a - b) then some (a - b) else none

def tierOfDuration (durationMs : ℤ) : Tier :=
  if durationMs ≤ kOneHourMs then .Raw
  else if durationMs ≤ kOneDayMs then .Minute
  else .Hour

/-- The routing as it is computed. -/
def tierForRange? (range : QueryRange) : Option Tier :=
  (subInt64 range.toMs range.fromMs).map tierOfDuration

/-! ## Selecting -/

def newerFirst (r r' : Row ν) : Bool := r'.ts ≤ r.ts

/-- The rows of the series in the range. -/
def matching (rows : List (Row ν)) (field : FieldKind) (entityId : BitVec 32)
    (range : QueryRange) : List (Row ν) :=
  rows.filter fun r =>
    r.field = fieldCode field && r.entity = entityId.toInt && range.fromMs ≤ r.ts &&
      r.ts ≤ range.toMs

/-- The limit as it is bound: a cast to a signed integer, and -1 for none. -/
def boundLimit (limit : Nat) : ℤ := if limit = 0 then -1 else (limit : ℤ).bmod (2 ^ 64)

/-- `LIMIT`; a negative one is none. -/
def limitRows (limit : ℤ) (rows : List (Row ν)) : List (Row ν) :=
  if limit < 0 then rows else rows.take limit.toNat

/-- What the statement selects from a table, turned round. -/
def select (order : Sorting (newerFirst (ν := ν))) (rows : List (Row ν)) (field : FieldKind)
    (entityId : BitVec 32) (range : QueryRange) : List (HistoryRecord ν) :=
  ((limitRows (boundLimit range.limit) (order.run (matching rows field entityId range))).map
    fun r => ⟨r.ts, field, entityId, r.value⟩).reverse

/-- The query with the subtraction as it is computed. -/
def Database.query? (db : Database ν) (order : Sorting (newerFirst (ν := ν))) (field : FieldKind)
    (entityId : BitVec 32) (range : QueryRange) : Option (List (HistoryRecord ν)) :=
  (tierForRange? range).map fun tier => select order (db.tables tier) field entityId range

/-! ## What a query should answer -/

/-- The newest rows of some, no more than the limit, in the order of their times. -/
structure NewestRows (rows : List (Row ν)) (limit : Nat) (field : FieldKind)
    (entityId : BitVec 32) (out : List (HistoryRecord ν)) : Prop where
  series : ∀ r ∈ out, r.field = field ∧ r.entityId = entityId
  ascending : out.Pairwise fun r r' => r.timestampMs ≤ r'.timestampMs
  count : out.length = if limit = 0 then rows.length else min limit rows.length
  newest : ∃ rest, (out.map HistoryRecord.row ++ rest).Perm rows ∧
    ∀ r ∈ out, ∀ r' ∈ rest, r'.ts ≤ r.timestampMs

/-- The query answers with the newest rows of the table its exact duration routes it to. -/
def AnswersNewest (db : Database ν) (order : Sorting (newerFirst (ν := ν))) (field : FieldKind)
    (entityId : BitVec 32) (range : QueryRange) : Prop :=
  ∃ out, db.query? order field entityId range = some out ∧
    NewestRows
      (matching (db.tables (tierOfDuration (range.toMs - range.fromMs))) field entityId range)
      range.limit field entityId out

/-! ## The limit -/

theorem boundLimit_zero : boundLimit 0 = -1 := rfl

theorem boundLimit_of_lt {limit : Nat} (hpos : limit ≠ 0) (h : limit < 2 ^ 63) :
    boundLimit limit = limit := by
  rw [boundLimit, if_neg hpos, Int.bmod_def]
  split <;> omega

theorem boundLimit_of_ge {limit : Nat} (h : 2 ^ 63 ≤ limit) (hsize : limit < 2 ^ 64) :
    boundLimit limit < 0 := by
  rw [boundLimit, if_neg (by omega), Int.bmod_def]
  split <;> omega

/-- A limit that is cast to a negative number is none. -/
theorem limitRows_boundLimit {limit : Nat} (hsize : limit < 2 ^ 64) (rows : List (Row ν)) :
    limitRows (boundLimit limit) rows =
      if limit = 0 ∨ 2 ^ 63 ≤ limit then rows else rows.take limit := by
  by_cases hzero : limit = 0
  · rw [hzero, boundLimit_zero, if_pos (.inl rfl)]
    rfl
  · rcases Nat.lt_or_ge limit (2 ^ 63) with hlt | hge
    · rw [limitRows, boundLimit_of_lt hzero hlt, if_neg (by omega), if_neg (by omega),
        Int.toNat_natCast]
    · rw [limitRows, if_pos (boundLimit_of_ge hge hsize), if_pos (.inr hge)]

/-! ## The selection -/

variable {field : FieldKind} {entityId : BitVec 32} {range : QueryRange}

theorem mem_matching {rows : List (Row ν)} {r : Row ν}
    (h : r ∈ matching rows field entityId range) :
    r.field = fieldCode field ∧ r.entity = entityId.toInt := by
  rw [matching, List.mem_filter] at h
  simp only [Bool.and_eq_true, decide_eq_true_eq] at h
  exact ⟨h.2.1.1.1, h.2.1.1.2⟩

/-- The record of a row of the series stands for that row. -/
theorem row_record {r : Row ν} (h : r.field = fieldCode field ∧ r.entity = entityId.toInt) :
    (⟨r.ts, field, entityId, r.value⟩ : HistoryRecord ν).row = r := by
  rw [HistoryRecord.row, ← h.1, ← h.2]

/-- What stands first in the order is the newest; turned round it ascends. -/
theorem newestRows_of_split {order : Sorting (newerFirst (ν := ν))}
    {rows taken rest : List (Row ν)} (hsplit : order.run rows = taken ++ rest)
    (hrows : ∀ r ∈ rows, r.field = fieldCode field ∧ r.entity = entityId.toInt) {limit : Nat}
    (hcount : taken.length = if limit = 0 then rows.length else min limit rows.length) :
    NewestRows rows limit field entityId
      (taken.map fun r => ⟨r.ts, field, entityId, r.value⟩).reverse := by
  have hperm : (taken ++ rest).Perm rows := hsplit ▸ order.perm rows
  have hsorted : (taken ++ rest).Pairwise fun r r' => newerFirst r r' = true :=
    hsplit ▸ order.sorted rows
  obtain ⟨htaken, -, hacross⟩ := List.pairwise_append.mp hsorted
  have hback : (taken.map fun r => (⟨r.ts, field, entityId, r.value⟩ : HistoryRecord ν)).map
      HistoryRecord.row = taken := by
    rw [List.map_map]
    refine (List.map_congr_left fun r hr => ?_).trans (List.map_id taken)
    exact row_record (hrows r (hperm.subset (List.mem_append_left rest hr)))
  refine ⟨?_, ?_, ?_, rest, ?_, ?_⟩
  · intro r hr
    obtain ⟨row, -, rfl⟩ := List.mem_map.mp (List.mem_reverse.mp hr)
    exact ⟨rfl, rfl⟩
  · rw [List.pairwise_reverse, List.pairwise_map]
    exact htaken.imp fun h => of_decide_eq_true h
  · rw [List.length_reverse, List.length_map, hcount]
  · rw [List.map_reverse, hback]
    exact ((List.reverse_perm taken).append_right rest).trans hperm
  · intro r hr r' hr'
    obtain ⟨row, hrow, rfl⟩ := List.mem_map.mp (List.mem_reverse.mp hr)
    exact of_decide_eq_true (hacross row hrow r' hr')

theorem length_select {order : Sorting (newerFirst (ν := ν))} (rows : List (Row ν))
    (hsize : range.limit < 2 ^ 64) :
    (select order rows field entityId range).length =
      if range.limit = 0 ∨ 2 ^ 63 ≤ range.limit then (matching rows field entityId range).length
      else min range.limit (matching rows field entityId range).length := by
  have hlength := (order.perm (matching rows field entityId range)).length_eq
  rw [select, List.length_reverse, List.length_map, limitRows_boundLimit hsize]
  split
  next => exact hlength
  next => rw [List.length_take, hlength]

/-- The selection has the newest rows, unless the cast takes away a limit that matters. -/
theorem newestRows_select {order : Sorting (newerFirst (ν := ν))} (rows : List (Row ν))
    (hsize : range.limit < 2 ^ 64) :
    NewestRows (matching rows field entityId range) range.limit field entityId
        (select order rows field entityId range) ↔
      range.limit < 2 ^ 63 ∨ (matching rows field entityId range).length ≤ range.limit := by
  have hlength := @length_select _ field entityId range order rows hsize
  constructor
  · intro h
    have hcount := h.count
    rw [hlength] at hcount
    by_contra hneither
    rw [not_or] at hneither
    rw [if_pos (.inr (Nat.not_lt.mp hneither.1)), if_neg (by omega)] at hcount
    omega
  · intro hlimit
    have hrun := (order.perm (matching rows field entityId range)).length_eq
    rw [select, limitRows_boundLimit hsize]
    by_cases hnone : range.limit = 0 ∨ 2 ^ 63 ≤ range.limit
    · rw [if_pos hnone]
      refine newestRows_of_split (List.append_nil _).symm (fun r => mem_matching) ?_
      rw [hrun]
      split <;> omega
    · rw [if_neg hnone]
      refine newestRows_of_split (List.take_append_drop _ _).symm (fun r => mem_matching) ?_
      rw [List.length_take, hrun, if_neg fun hzero => hnone (.inl hzero)]

/-! ## When the answer is right -/

theorem subInt64_of_in {a b : ℤ} (h : InInt64 (a - b)) : subInt64 a b = some (a - b) := if_pos h

theorem query?_of_in {db : Database ν} {order : Sorting (newerFirst (ν := ν))}
    (h : InInt64 (range.toMs - range.fromMs)) :
    db.query? order field entityId range =
      some (select order (db.tables (tierOfDuration (range.toMs - range.fromMs))) field entityId
        range) := by
  rw [Database.query?, tierForRange?, subInt64_of_in h]
  rfl

theorem not_answersNewest_of_overflow {db : Database ν} {order : Sorting (newerFirst (ν := ν))}
    (h : ¬ InInt64 (range.toMs - range.fromMs)) :
    ¬ AnswersNewest db order field entityId range := by
  rintro ⟨out, hout, -⟩
  rw [Database.query?, tierForRange?, subInt64, if_neg h] at hout
  cases hout

/-- A query answers with the newest rows of the right table exactly when the duration is a signed
64-bit integer, if the limit is one as well or is not reached. -/
theorem answersNewest_iff (db : Database ν) (order : Sorting (newerFirst (ν := ν)))
    (field : FieldKind) (entityId : BitVec 32) (range : QueryRange) (hsize : range.limit < 2 ^ 64) :
    AnswersNewest db order field entityId range ↔
      InInt64 (range.toMs - range.fromMs) ∧
        (range.limit < 2 ^ 63 ∨
          (matching (db.tables (tierOfDuration (range.toMs - range.fromMs))) field entityId
            range).length ≤ range.limit) := by
  by_cases h : InInt64 (range.toMs - range.fromMs)
  · rw [AnswersNewest, query?_of_in h, and_iff_right h,
      ← @newestRows_select _ field entityId range order _ hsize]
    simp only [Option.some.injEq, exists_eq_left']
  · exact iff_of_false (not_answersNewest_of_overflow h) fun hin => h hin.1

/-- The order of a stable sort. -/
def newestFirst : Sorting (newerFirst (ν := ν)) :=
  Sorting.merge
    (fun _ _ _ h h' => decide_eq_true ((of_decide_eq_true h').trans (of_decide_eq_true h)))
    fun r r' => by
      rcases le_total r'.ts r.ts with h | h
      · rw [newerFirst, decide_eq_true h]
        rfl
      · rw [Bool.or_comm, newerFirst, decide_eq_true h]
        rfl

/-- Four rows of the system state, two of them of one time. -/
def fourRows : Database ℚ where
  tables _ := [⟨0, "T", 0, 1⟩, ⟨2000, "T", 0, 0⟩, ⟨1000, "T", 0, 2⟩, ⟨2000, "T", 0, 1⟩]

/-- A limit of two. -/
theorem answersNewest_one_hour :
    AnswersNewest fourRows newestFirst .SystemState 0 ⟨0, 3600000, 2⟩ :=
  (answersNewest_iff fourRows newestFirst .SystemState 0 ⟨0, 3600000, 2⟩ (by decide)).mpr
    ⟨by decide, .inl (by decide)⟩

/-- A range from before the epoch to the last of the 64-bit times has a duration that is no
64-bit integer.  Where it wraps round it is negative, and the raw table is read. -/
theorem whole_range_overflows :
    InInt64 (-1) ∧ InInt64 (2 ^ 63 - 1) ∧
      ¬ AnswersNewest ({} : Database ℚ) newestFirst .SystemState 0 ⟨-1, 2 ^ 63 - 1, 10⟩ ∧
      tierOfDuration ((2 ^ 63 - 1 - -1 : ℤ).bmod (2 ^ 64)) = .Raw ∧
      tierOfDuration (2 ^ 63 - 1 - -1) = .Hour :=
  ⟨by decide, by decide, not_answersNewest_of_overflow (by decide), by decide, by decide⟩

/-! ## The exact query -/

/-- Without an overflow this is the query with the exact difference. -/
theorem query?_eq_query (db : Database ν) (h : InInt64 (range.toMs - range.fromMs))
    (hlimit : range.limit < 2 ^ 63) :
    db.query? newestFirst field entityId range = some (db.query field entityId range) := by
  rw [query?_of_in h, select, limitRows_boundLimit (by omega), Database.query]
  have hcast : (range.limit = 0 ∨ 2 ^ 63 ≤ range.limit) ↔ range.limit = 0 := by omega
  rw [if_congr hcast rfl rfl]
  rfl

end Historian
