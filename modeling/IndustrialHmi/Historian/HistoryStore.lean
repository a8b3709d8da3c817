import Mathlib.Data.Rat.Defs
import Mathlib.Logic.Function.Basic
import IndustrialHmi.Theory.Grouping

/-!
# The historian's archive

Three tables on one connection: raw samples, minute averages and hour averages.  A batch
of samples is inserted in one transaction, and so is a demotion, which inserts averages
of the old rows of one table into the next and deletes those rows.  Which statements fail
is a parameter, and a statement that fails has no effect; a commit that fails leaves the
transaction open.

The type of the values and the function that averages them are parameters too.  The order
of the rows of a table carries no meaning.
-/

namespace Historian

inductive FieldKind where
  | QualityPassRate
  | EquipmentSupplyLevel
  | SystemState
  | Throughput
  | OeePercent

def fieldCode : FieldKind → String
  | .QualityPassRate => "Q"
  | .EquipmentSupplyLevel => "S"
  | .SystemState => "T"
  | .Throughput => "H"
  | .OeePercent => "E"

structure HistoryRecord (ν : Type) where
  timestampMs : ℤ
  field : FieldKind
  entityId : BitVec 32
  value : ν

inductive Tier where
  | Raw
  | Minute
  | Hour
  deriving DecidableEq

/-- A row of a table. -/
structure Row (ν : Type) where
  ts : ℤ
  field : String
  entity : ℤ
  value : ν
  deriving DecidableEq

/-- What rows are grouped by. -/
structure Key where
  bucket : ℤ
  field : String
  entity : ℤ
  deriving DecidableEq

variable {ν : Type}

/-- The columns bound for a record; the entity is bound as a signed integer. -/
def HistoryRecord.row (r : HistoryRecord ν) : Row ν where
  ts := r.timestampMs
  field := fieldCode r.field
  entity := r.entityId.toInt
  value := r.value

/-- The bucket of a row, with its field and entity.  Division is that of SQL, towards
zero. -/
def Row.key (bucketMs : ℤ) (r : Row ν) : Key := ⟨r.ts.tdiv bucketMs, r.field, r.entity⟩

/-! ## Transactions -/

/-- A statement of a write or of a demotion. -/
inductive Statement where
  | beginImmediate
  | prepareInsert
  /-- The insertion of the sample with this position in its batch, or, in a demotion, the
  one insertion. -/
  | stepInsert (position : Nat)
  | prepareDelete
  | stepDelete
  | commit

abbrev Tables (ν : Type) := Tier → List (Row ν)

structure Database (ν : Type) where
  /-- The tables as the connection sees them. -/
  tables : Tables ν := fun _ => []
  /-- The tables at the beginning of the transaction that is open. -/
  saved : Option (Tables ν) := none

namespace Database

/-- A transaction begins only when none is open. -/
def beginImmediate (db : Database ν) (fails : Statement → Bool) : Option (Database ν) :=
  if fails .beginImmediate || db.saved.isSome then none
  else some { db with saved := some db.tables }

def rollback (db : Database ν) : Database ν := { tables := db.saved.getD db.tables }

def commit (db : Database ν) (fails : Statement → Bool) : Database ν :=
  if fails .commit then db else { tables := db.tables }

/-- Inserts the samples into the raw table; gives the number accepted. -/
def write (db : Database ν) (records : List (HistoryRecord ν)) (fails : Statement → Bool) :
    Database ν × Nat :=
  if records.isEmpty then (db, 0)
  else
    match db.beginImmediate fails with
    | none => (db, 0)
    | some db =>
        if fails .prepareInsert then (db.rollback, 0)
        else
          let accepted := records.zipIdx.filter fun r => !fails (.stepInsert r.2)
          let rows := accepted.map fun r => r.1.row
          let db := { db with tables := Function.update db.tables .Raw (db.tables .Raw ++ rows) }
          (db.commit fails, accepted.length)

variable (avg : List ν → ν)

/-- `SELECT (ts / ?) * ?, field, entity, AVG(value) … GROUP BY (ts / ?), field, entity`. -/
def averages (bucketMs : ℤ) (rows : List (Row ν)) : List (Row ν) :=
  Grouping.aggregate (Row.key bucketMs)
    (fun k group => ⟨k.bucket * bucketMs, k.field, k.entity, avg (group.map Row.value)⟩) rows

/-- Gives the number of rows deleted. -/
def demoteOlderThan (db : Database ν) (src dst : Tier) (olderThanMs bucketMs : ℤ)
    (fails : Statement → Bool) : Database ν × Nat :=
  if bucketMs ≤ 0 then (db, 0)
  else if src = dst then (db, 0)
  else
    match db.beginImmediate fails with
    | none => (db, 0)
    | some db =>
        if fails .prepareInsert then (db.rollback, 0)
        else if fails (.stepInsert 0) then (db.rollback, 0)
        else
          let old := (db.tables src).filter (·.ts < olderThanMs)
          let db := { db with
            tables := Function.update db.tables dst (db.tables dst ++ averages avg bucketMs old) }
          if fails .prepareDelete then (db.rollback, 0)
          else if fails .stepDelete then (db.commit fails, 0)
          else
            let kept := (db.tables src).filter fun r => !decide (r.ts < olderThanMs)
            let db := { db with tables := Function.update db.tables src kept }
            (db.commit fails, old.length)

end Database

/-! ## Maintenance -/

def kMinuteBucketMs : ℤ := 60000
def kHourBucketMs : ℤ := 3600000

theorem kMinuteBucketMs_pos : 0 < kMinuteBucketMs := by decide
theorem kHourBucketMs_pos : 0 < kHourBucketMs := by decide

structure Config where
  rawRetention : ℤ := 3600000
  minuteRetention : ℤ := 24 * 3600000

variable (avg : List ν → ν) (config : Config)

/-- One sweep at a time of the clock, with the statements that fail in each of its two
demotions. -/
def runOnce (db : Database ν) (now : ℤ) (rawFails minuteFails : Statement → Bool) :
    Database ν :=
  let rawCutoff := now - config.rawRetention
  let db := (db.demoteOlderThan avg .Raw .Minute rawCutoff kMinuteBucketMs rawFails).1
  let minCutoff := now - config.minuteRetention
  (db.demoteOlderThan avg .Minute .Hour minCutoff kHourBucketMs minuteFails).1

/-! ## Runs -/

/-- A batch written at a time, or a sweep. -/
inductive Op (ν : Type) where
  | write (now : ℤ) (records : List (HistoryRecord ν)) (fails : Statement → Bool)
  | runOnce (now : ℤ) (rawFails minuteFails : Statement → Bool)

/-- The clock never goes back, and no record is from its future. -/
def Timely (ν : Type) : ℤ → List (Op ν) → Prop
  | _, [] => True
  | clock, .write now records _ :: ops =>
      clock ≤ now ∧ (∀ r ∈ records, r.timestampMs ≤ now) ∧ Timely ν now ops
  | clock, .runOnce now _ _ :: ops => clock ≤ now ∧ Timely ν now ops

def Op.apply (db : Database ν) : Op ν → Database ν
  | .write _ records fails => (db.write records fails).1
  | .runOnce now rawFails minuteFails => Historian.runOnce avg config db now rawFails minuteFails

/-- A transaction of a run: a sweep is two of them. -/
inductive Transaction (ν : Type) where
  | write (records : List (HistoryRecord ν)) (fails : Statement → Bool)
  | demoteRaw (now : ℤ) (fails : Statement → Bool)
  | demoteMinute (now : ℤ) (fails : Statement → Bool)

def Op.transactions : Op ν → List (Transaction ν)
  | .write _ records fails => [.write records fails]
  | .runOnce now rawFails minuteFails => [.demoteRaw now rawFails, .demoteMinute now minuteFails]

def Transaction.apply (db : Database ν) : Transaction ν → Database ν
  | .write records fails => (db.write records fails).1
  | .demoteRaw now fails =>
      (db.demoteOlderThan avg .Raw .Minute (now - config.rawRetention) kMinuteBucketMs fails).1
  | .demoteMinute now fails =>
      (db.demoteOlderThan avg .Minute .Hour (now - config.minuteRetention) kHourBucketMs fails).1

def Database.after (db : Database ν) (transactions : List (Transaction ν)) : Database ν :=
  transactions.foldl (Transaction.apply avg config) db

/-- An operation is its transactions. -/
theorem Op.apply_eq (db : Database ν) (op : Op ν) :
    op.apply avg config db = db.after avg config op.transactions := by
  cases op <;> rfl

theorem Database.after_append (db : Database ν) (done more : List (Transaction ν)) :
    db.after avg config (done ++ more) = (db.after avg config done).after avg config more :=
  List.foldl_append

theorem Database.after_concat (db : Database ν) (done : List (Transaction ν))
    (t : Transaction ν) :
    db.after avg config (done ++ [t]) = t.apply avg config (db.after avg config done) := by
  rw [after_append]
  rfl

/-! ## What a transaction does to the tables -/

namespace Database

/-- The rows older than a cut-off. -/
def old (db : Database ν) (src : Tier) (olderThanMs : ℤ) : List (Row ν) :=
  (db.tables src).filter (·.ts < olderThanMs)

/-- The rows that are not. -/
def recent (db : Database ν) (src : Tier) (olderThanMs : ℤ) : List (Row ν) :=
  (db.tables src).filter fun r => !decide (r.ts < olderThanMs)

/-- The insertion of a demotion takes effect. -/
def Inserts (db : Database ν) (fails : Statement → Bool) : Prop :=
  db.saved = none ∧ fails .beginImmediate = false ∧ fails .prepareInsert = false ∧
    fails (.stepInsert 0) = false ∧ fails .prepareDelete = false

theorem tables_commit (db : Database ν) (fails : Statement → Bool) :
    (db.commit fails).tables = db.tables := by
  rw [commit]
  split <;> rfl

/-- Without its insertion a demotion changes nothing. -/
theorem tables_of_not_inserts {db : Database ν} {fails : Statement → Bool}
    (h : ¬ db.Inserts fails) (src dst : Tier) (olderThanMs bucketMs : ℤ) :
    (db.demoteOlderThan avg src dst olderThanMs bucketMs fails).1.tables = db.tables := by
  rw [demoteOlderThan]
  split
  next => rfl
  split
  next => rfl
  cases hbegin : db.beginImmediate fails with
  | none => rfl
  | some opened =>
      simp only [beginImmediate, Option.ite_none_left_eq_some, Bool.or_eq_true, not_or,
        Bool.not_eq_true, Option.isSome_eq_false_iff, Option.isNone_iff_eq_none,
        Option.some.injEq] at hbegin
      obtain ⟨⟨hfails, hsaved⟩, rfl⟩ := hbegin
      cases hprepare : fails .prepareInsert with
      | true => rfl
      | false =>
          cases hstep : fails (.stepInsert 0) with
          | true => rfl
          | false =>
              cases hdelete : fails .prepareDelete with
              | true => rfl
              | false => exact absurd ⟨hsaved, hfails, hprepare, hstep, hdelete⟩ h

/-- What a demotion whose insertion takes effect leaves in the tables. -/
structure Demoted (db db' : Database ν) (src dst : Tier) (olderThanMs bucketMs : ℤ)
    (fails : Statement → Bool) : Prop where
  inserted : db'.tables dst = db.tables dst ++ averages avg bucketMs (db.old src olderThanMs)
  remaining :
    db'.tables src = if fails .stepDelete then db.tables src else db.recent src olderThanMs
  other : ∀ tier, tier ≠ src → tier ≠ dst → db'.tables tier = db.tables tier

theorem demoted_of_inserts {db : Database ν} {fails : Statement → Bool} (h : db.Inserts fails)
    {src dst : Tier} {olderThanMs bucketMs : ℤ} (hbucket : 0 < bucketMs) (hne : src ≠ dst) :
    Demoted avg db (db.demoteOlderThan avg src dst olderThanMs bucketMs fails).1 src dst
      olderThanMs bucketMs fails := by
  obtain ⟨hsaved, hbegin, hprepare, hstep, hdelete⟩ := h
  have hpositive : ¬ bucketMs ≤ 0 := by omega
  have hopen : db.beginImmediate fails = some { db with saved := some db.tables } := by
    simp [beginImmediate, hbegin, hsaved]
  simp only [demoteOlderThan, hpositive, if_false, hne, hopen, hprepare, hstep, hdelete,
    Bool.false_eq_true, Function.update_of_ne hne]
  cases hdeleted : fails .stepDelete with
  | true =>
      refine ⟨?_, ?_, fun tier _ htier => ?_⟩ <;>
        simp only [hdeleted, if_true, tables_commit, Function.update_self,
          Function.update_of_ne hne]
      · rfl
      · exact Function.update_of_ne htier _ _
  | false =>
      refine ⟨?_, ?_, fun tier hsrc htier => ?_⟩ <;>
        simp only [hdeleted, Bool.false_eq_true, if_false, tables_commit, Function.update_self,
          Function.update_of_ne hne.symm]
      · rfl
      · rfl
      · rw [Function.update_of_ne hsrc, Function.update_of_ne htier]

/-- No row of the source is new. -/
theorem Demoted.source_sublist {avg : List ν → ν} {db db' : Database ν} {src dst : Tier}
    {olderThanMs bucketMs : ℤ} {fails : Statement → Bool}
    (h : Demoted avg db db' src dst olderThanMs bucketMs fails) :
    (db'.tables src).Sublist (db.tables src) := by
  rw [h.remaining]
  split
  · exact List.Sublist.refl _
  · exact List.filter_sublist

theorem demoted_demoteRaw (config : Config) {db : Database ν} {fails : Statement → Bool}
    (h : db.Inserts fails) (now : ℤ) :
    Demoted avg db ((Transaction.demoteRaw now fails).apply avg config db) .Raw .Minute
      (now - config.rawRetention) kMinuteBucketMs fails :=
  demoted_of_inserts avg h (by decide) (by decide)

theorem demoted_demoteMinute (config : Config) {db : Database ν} {fails : Statement → Bool}
    (h : db.Inserts fails) (now : ℤ) :
    Demoted avg db ((Transaction.demoteMinute now fails).apply avg config db) .Minute .Hour
      (now - config.minuteRetention) kHourBucketMs fails :=
  demoted_of_inserts avg h (by decide) (by decide)

theorem tables_demoteRaw (config : Config) {db : Database ν} {fails : Statement → Bool}
    (h : ¬ db.Inserts fails) (now : ℤ) :
    ((Transaction.demoteRaw now fails).apply avg config db).tables = db.tables :=
  tables_of_not_inserts avg h _ _ _ _

theorem tables_demoteMinute (config : Config) {db : Database ν} {fails : Statement → Bool}
    (h : ¬ db.Inserts fails) (now : ℤ) :
    ((Transaction.demoteMinute now fails).apply avg config db).tables = db.tables :=
  tables_of_not_inserts avg h _ _ _ _

/-- A write touches the raw table only. -/
theorem tables_write_of_ne (db : Database ν) (records : List (HistoryRecord ν))
    (fails : Statement → Bool) {tier : Tier} (h : tier ≠ .Raw) :
    (db.write records fails).1.tables tier = db.tables tier := by
  rw [write]
  split
  next => rfl
  next =>
    cases hbegin : db.beginImmediate fails with
    | none => rfl
    | some opened =>
        simp only [beginImmediate, Option.ite_none_left_eq_some, Option.some.injEq] at hbegin
        obtain ⟨-, rfl⟩ := hbegin
        cases hprepare : fails .prepareInsert with
        | true => rfl
        | false => exact (congrFun (tables_commit _ _) tier).trans (Function.update_of_ne h _ _)

/-! ## When every statement succeeds -/

/-- A batch is appended to the raw table. -/
theorem write_succeeding {db : Database ν} (h : db.saved = none)
    (records : List (HistoryRecord ν)) :
    (db.write records fun _ => false).1.saved = none ∧
      (db.write records fun _ => false).1.tables .Raw =
        db.tables .Raw ++ records.map HistoryRecord.row := by
  cases records with
  | nil => exact ⟨h, (List.append_nil _).symm⟩
  | cons r records =>
      have hrows : (((r :: records).zipIdx.filter fun _ => true).map fun r => r.1.row) =
          (r :: records).map HistoryRecord.row := by
        rw [List.filter_true]
        refine Eq.trans (List.map_map (g := HistoryRecord.row)).symm ?_
        rw [List.zipIdx_map_fst]
      have hopen : db.beginImmediate (fun _ => false) =
          some { db with saved := some db.tables } := by
        simp [beginImmediate, h]
      simp only [write, List.isEmpty_cons, hopen, Bool.false_eq_true, if_false, Bool.not_false,
        hrows, commit, Function.update_self, and_self]

theorem inserts_succeeding {db : Database ν} (h : db.saved = none) :
    db.Inserts fun _ => false := ⟨h, rfl, rfl, rfl, rfl⟩

theorem saved_demoteOlderThan_succeeding {db : Database ν} (h : db.saved = none) (src dst : Tier)
    (olderThanMs bucketMs : ℤ) :
    (db.demoteOlderThan avg src dst olderThanMs bucketMs fun _ => false).1.saved = none := by
  have hopen : db.beginImmediate (fun _ => false) =
      some { db with saved := some db.tables } := by
    simp [beginImmediate, h]
  rw [demoteOlderThan]
  split
  next => exact h
  split
  next => exact h
  simp [hopen, commit]

/-! ## Buckets of averages -/

/-- An average is stored in the bucket of its rows. -/
theorem key_average {bucketMs : ℤ} (hbucket : 0 < bucketMs) (k : Key) (value : ν) :
    Row.key bucketMs ⟨k.bucket * bucketMs, k.field, k.entity, value⟩ = k := by
  have hne : bucketMs ≠ 0 := by omega
  simp [Row.key, Int.mul_tdiv_cancel _ hne]

/-- There is one average for each bucket of the rows. -/
theorem keys_averages {bucketMs : ℤ} (hbucket : 0 < bucketMs) (rows : List (Row ν)) :
    (averages avg bucketMs rows).map (Row.key bucketMs) =
      (rows.map (Row.key bucketMs)).dedup :=
  Grouping.map_aggregate fun _ _ _ => key_average hbucket _ _

end Database

end Historian
