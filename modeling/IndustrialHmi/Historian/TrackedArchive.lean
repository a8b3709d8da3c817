import IndustrialHmi.Theory.Averages
import IndustrialHmi.Historian.HistoryStore

/-!
# Rows that know their samples

The archive does not record what a row is made of.  Here every value carries the raw
samples it stands for: a sample stands for itself, and an average for what its rows stand
for.  Forgetting the samples gives the archive back (`plain_after`), so that what is
proved of the samples speaks about the rows.
-/

namespace Historian

/-! ## Values replaced throughout -/

section Map

variable {ν ν' : Type} (f : ν → ν')

def Row.map (r : Row ν) : Row ν' := ⟨r.ts, r.field, r.entity, f r.value⟩

def HistoryRecord.map (r : HistoryRecord ν) : HistoryRecord ν' :=
  ⟨r.timestampMs, r.field, r.entityId, f r.value⟩

def Tables.map (tables : Tables ν) : Tables ν' := fun tier => (tables tier).map (Row.map f)

def Database.map (db : Database ν) : Database ν' where
  tables := db.tables.map f
  saved := db.saved.map (Tables.map f)

def Transaction.map : Transaction ν → Transaction ν'
  | .write records fails => .write (records.map (HistoryRecord.map f)) fails
  | .demoteRaw now fails => .demoteRaw now fails
  | .demoteMinute now fails => .demoteMinute now fails

@[simp] theorem Row.key_map (bucketMs : ℤ) (r : Row ν) : (r.map f).key bucketMs = r.key bucketMs :=
  rfl

theorem Tables.map_update (tables : Tables ν) (tier : Tier) (rows : List (Row ν)) :
    Tables.map f (Function.update tables tier rows) =
      Function.update (tables.map f) tier (rows.map (Row.map f)) := by
  funext tier'
  by_cases h : tier' = tier
  · subst h
    simp [Tables.map]
  · simp [Tables.map, h]

theorem Database.map_commit (db : Database ν) (fails : Statement → Bool) :
    (db.commit fails).map f = (db.map f).commit fails := by
  rw [commit, commit]
  split <;> rfl

theorem Database.map_rollback (db : Database ν) : db.rollback.map f = (db.map f).rollback := by
  cases h : db.saved <;> simp [rollback, Database.map, h]

theorem Database.map_beginImmediate (db : Database ν) (fails : Statement → Bool) :
    (db.map f).beginImmediate fails = (db.beginImmediate fails).map (Database.map f) := by
  cases h : db.saved <;> cases hb : fails .beginImmediate <;>
    simp [beginImmediate, Database.map, h, hb]

theorem Database.map_write (db : Database ν) (records : List (HistoryRecord ν))
    (fails : Statement → Bool) :
    (db.write records fails).1.map f =
      ((db.map f).write (records.map (HistoryRecord.map f)) fails).1 := by
  have haccepted : ((records.map (HistoryRecord.map f)).zipIdx.filter
      fun r => !fails (.stepInsert r.2)).map (fun r => r.1.row) =
      ((records.zipIdx.filter fun r => !fails (.stepInsert r.2)).map fun r => r.1.row).map
        (Row.map f) := by
    rw [List.zipIdx_map, List.filter_map, List.map_map, List.map_map]
    rfl
  rw [write, write, List.isEmpty_map, map_beginImmediate]
  split
  next => rfl
  next =>
    cases db.beginImmediate fails with
    | none => rfl
    | some opened =>
        simp only [Option.map_some, haccepted]
        split
        · exact map_rollback f opened
        · rw [map_commit]
          simp [Database.map, Tables.map_update, Tables.map]

variable {avg : List ν → ν} {avg' : List ν' → ν'}

theorem Database.map_averages (havg : ∀ l, f (avg l) = avg' (l.map f)) (bucketMs : ℤ)
    (rows : List (Row ν)) :
    (averages avg bucketMs rows).map (Row.map f) =
      averages avg' bucketMs (rows.map (Row.map f)) := by
  rw [averages, averages, Grouping.map_aggregate_make,
    Grouping.aggregate_map (Row.key_map f bucketMs)]
  congr 1
  funext k group
  simp [Row.map, havg, Function.comp_def]

theorem Database.map_demoteOlderThan (havg : ∀ l, f (avg l) = avg' (l.map f))
    (db : Database ν) (src dst : Tier) (olderThanMs bucketMs : ℤ) (fails : Statement → Bool) :
    (db.demoteOlderThan avg src dst olderThanMs bucketMs fails).1.map f =
      ((db.map f).demoteOlderThan avg' src dst olderThanMs bucketMs fails).1 := by
  rw [demoteOlderThan, demoteOlderThan, map_beginImmediate]
  split
  next => rfl
  split
  next => rfl
  next hne =>
    cases db.beginImmediate fails with
    | none => rfl
    | some opened =>
        have hold : ((opened.map f).tables src).filter (·.ts < olderThanMs) =
            ((opened.tables src).filter (·.ts < olderThanMs)).map (Row.map f) :=
          List.filter_map
        have hkept : ((opened.map f).tables src).filter (fun r => !decide (r.ts < olderThanMs)) =
            ((opened.tables src).filter fun r => !decide (r.ts < olderThanMs)).map
              (Row.map f) :=
          List.filter_map
        have hinserted : (opened.map f).tables dst ++ averages avg' bucketMs
            (((opened.map f).tables src).filter (·.ts < olderThanMs)) =
            (opened.tables dst ++ averages avg bucketMs
              ((opened.tables src).filter (·.ts < olderThanMs))).map (Row.map f) := by
          rw [hold, ← map_averages f havg, List.map_append]
          rfl
        simp only [Option.map_some, Function.update_of_ne hne, hkept, hinserted]
        split
        · exact map_rollback f opened
        split
        · exact map_rollback f opened
        split
        · cases h : opened.saved <;> simp [rollback, Database.map, h, Tables.map_update]
        split <;>
        · rw [map_commit]
          simp [Database.map, Tables.map_update]

theorem Transaction.map_apply (havg : ∀ l, f (avg l) = avg' (l.map f)) (config : Config)
    (db : Database ν) (t : Transaction ν) :
    (t.apply avg config db).map f = (t.map f).apply avg' config (db.map f) := by
  cases t with
  | write records fails => exact db.map_write f records fails
  | demoteRaw now fails => exact Database.map_demoteOlderThan f havg db _ _ _ _ fails
  | demoteMinute now fails => exact Database.map_demoteOlderThan f havg db _ _ _ _ fails

/-- A run on replaced values is the run with its values replaced. -/
theorem Database.map_after (havg : ∀ l, f (avg l) = avg' (l.map f)) (config : Config)
    (db : Database ν) (transactions : List (Transaction ν)) :
    (db.after avg config transactions).map f =
      (db.map f).after avg' config (transactions.map (Transaction.map f)) := by
  induction transactions generalizing db with
  | nil => rfl
  | cons t transactions ih =>
      rw [List.map_cons, after, List.foldl_cons, ← after, ih, Transaction.map_apply f havg]
      rfl

end Map

/-! ## Tracked values -/

/-- A value with the raw samples it stands for. -/
structure Tracked where
  value : ℚ
  sources : List (Row ℚ)

namespace Tracked

/-- A row with the samples forgotten. -/
def plain : Row Tracked → Row ℚ := Row.map Tracked.value

/-- `AVG` of the values; the samples are put together. -/
def average (l : List Tracked) : Tracked where
  value := Averages.mean (l.map Tracked.value)
  sources := l.flatMap Tracked.sources

/-- A record of a sample that stands for itself. -/
def record (r : HistoryRecord ℚ) : HistoryRecord Tracked :=
  ⟨r.timestampMs, r.field, r.entityId, ⟨r.value, [r.row]⟩⟩

def transaction : Transaction ℚ → Transaction Tracked
  | .write records fails => .write (records.map record) fails
  | .demoteRaw now fails => .demoteRaw now fails
  | .demoteMinute now fails => .demoteMinute now fails

/-- The tracked archive after a run from the empty one. -/
def after (config : Config) (done : List (Transaction ℚ)) : Database Tracked :=
  ({} : Database Tracked).after average config (done.map transaction)

theorem after_concat (config : Config) (done : List (Transaction ℚ)) (t : Transaction ℚ) :
    after config (done ++ [t]) = (transaction t).apply average config (after config done) := by
  rw [after, List.map_append, List.map_singleton, Database.after_concat]
  rfl

/-- The archive is the tracked archive with the samples forgotten. -/
theorem plain_after (config : Config) (done : List (Transaction ℚ)) (tier : Tier) :
    (({} : Database ℚ).after Averages.mean config done).tables tier =
      ((after config done).tables tier).map plain := by
  have haverage : ∀ l, (average l).value = Averages.mean (l.map Tracked.value) := fun _ => rfl
  have hmap := Database.map_after Tracked.value haverage config {} (done.map transaction)
  have hrecord : Transaction.map Tracked.value ∘ transaction = id := by
    funext t
    cases t with
    | write records fails => simp [transaction, Transaction.map, record, HistoryRecord.map,
        Function.comp_def]
    | demoteRaw now fails => rfl
    | demoteMinute now fails => rfl
  rw [List.map_map, hrecord, List.map_id] at hmap
  have htables := congrArg (fun db : Database ℚ => db.tables tier) hmap
  exact htables.symm

end Tracked

end Historian
