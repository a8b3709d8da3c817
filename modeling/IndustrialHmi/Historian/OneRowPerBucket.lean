import Mathlib.Data.List.Induction
import IndustrialHmi.Theory.Averages
import IndustrialHmi.Historian.HistoryStore

/-!
# One row for each bucket

A demotion inserts one average for each bucket of the rows it demotes.  Its cut-off is a
time of the clock and not the end of a bucket, so the rows of one bucket may be demoted
by two sweeps, and each then inserts a row.
-/

namespace Historian

variable {ν : Type} (avg : List ν → ν) (config : Config)

/-- No two rows of the minute table are of one minute, field and entity, and none of the
hour table of one hour, field and entity. -/
structure OneRowPerBucket (tables : Tables ν) : Prop where
  minute : ((tables .Minute).map (Row.key kMinuteBucketMs)).Nodup
  hour : ((tables .Hour).map (Row.key kHourBucketMs)).Nodup

/-- The buckets of some rows have no row in a table. -/
def NewIn (bucketMs : ℤ) (rows table : List (Row ν)) : Prop :=
  ∀ r ∈ rows, ∀ d ∈ table, d.key bucketMs ≠ r.key bucketMs

/-- A demotion whose insertion takes effect folds no row into a bucket that has one
already. -/
def FoldsNew (db : Database ν) : Transaction ν → Prop
  | .write _ _ => True
  | .demoteRaw now fails =>
      db.Inserts fails →
        NewIn kMinuteBucketMs (db.old .Raw (now - config.rawRetention)) (db.tables .Minute)
  | .demoteMinute now fails =>
      db.Inserts fails →
        NewIn kHourBucketMs (db.old .Minute (now - config.minuteRetention)) (db.tables .Hour)

/-! ## One transaction -/

/-- Averages keep the rows of a table apart exactly when their buckets are new. -/
theorem nodup_averages {bucketMs : ℤ} (hbucket : 0 < bucketMs) (rows : List (Row ν))
    {table : List (Row ν)} (htable : (table.map (Row.key bucketMs)).Nodup) :
    ((table ++ Database.averages avg bucketMs rows).map (Row.key bucketMs)).Nodup ↔
      NewIn bucketMs rows table := by
  rw [List.map_append, List.nodup_append, Database.keys_averages avg hbucket]
  have hrows : (rows.map (Row.key bucketMs)).dedup.Nodup := List.nodup_dedup _
  simp only [htable, hrows, true_and, List.mem_map, List.mem_dedup, NewIn]
  constructor
  · intro h r hr d hd
    exact h _ ⟨d, hd, rfl⟩ _ ⟨r, hr, rfl⟩
  · rintro h _ ⟨d, hd, rfl⟩ _ ⟨r, hr, rfl⟩
    exact h r hr d hd

theorem oneRowPerBucket_write {db : Database ν} (h : OneRowPerBucket db.tables)
    (records : List (HistoryRecord ν)) (fails : Statement → Bool) :
    OneRowPerBucket (db.write records fails).1.tables :=
  ⟨by rw [db.tables_write_of_ne records fails (by decide)]; exact h.minute,
    by rw [db.tables_write_of_ne records fails (by decide)]; exact h.hour⟩

theorem oneRowPerBucket_demoteRaw {db : Database ν} (h : OneRowPerBucket db.tables) (now : ℤ)
    (fails : Statement → Bool) :
    OneRowPerBucket ((Transaction.demoteRaw now fails).apply avg config db).tables ↔
      FoldsNew config db (.demoteRaw now fails) := by
  rw [FoldsNew]
  by_cases hinserts : db.Inserts fails
  · have hdemoted := Database.demoted_demoteRaw avg config hinserts now
    have hnew := nodup_averages avg kMinuteBucketMs_pos (db.old .Raw (now - config.rawRetention))
      h.minute
    rw [← hdemoted.inserted] at hnew
    refine ⟨fun hafter _ => hnew.mp hafter.minute, fun hfolds => ⟨hnew.mpr (hfolds hinserts), ?_⟩⟩
    rw [hdemoted.other .Hour (by decide) (by decide)]
    exact h.hour
  · rw [Database.tables_demoteRaw avg config hinserts]
    exact ⟨fun _ hi => absurd hi hinserts, fun _ => h⟩

theorem oneRowPerBucket_demoteMinute {db : Database ν} (h : OneRowPerBucket db.tables) (now : ℤ)
    (fails : Statement → Bool) :
    OneRowPerBucket ((Transaction.demoteMinute now fails).apply avg config db).tables ↔
      FoldsNew config db (.demoteMinute now fails) := by
  rw [FoldsNew]
  by_cases hinserts : db.Inserts fails
  · have hdemoted := Database.demoted_demoteMinute avg config hinserts now
    have hnew := nodup_averages avg kHourBucketMs_pos
      (db.old .Minute (now - config.minuteRetention)) h.hour
    rw [← hdemoted.inserted] at hnew
    have hminute := h.minute.sublist (hdemoted.source_sublist.map (Row.key kMinuteBucketMs))
    exact ⟨fun hafter _ => hnew.mp hafter.hour,
      fun hfolds => ⟨hminute, hnew.mpr (hfolds hinserts)⟩⟩
  · rw [Database.tables_demoteMinute avg config hinserts]
    exact ⟨fun _ hi => absurd hi hinserts, fun _ => h⟩

theorem oneRowPerBucket_apply {db : Database ν} (h : OneRowPerBucket db.tables)
    (t : Transaction ν) :
    OneRowPerBucket (t.apply avg config db).tables ↔ FoldsNew config db t := by
  cases t with
  | write records fails => exact iff_true_intro (oneRowPerBucket_write h records fails)
  | demoteRaw now fails => exact oneRowPerBucket_demoteRaw avg config h now fails
  | demoteMinute now fails => exact oneRowPerBucket_demoteMinute avg config h now fails

/-! ## Runs -/

/-- In every run of batches and sweeps from an empty archive: there is one row for each
bucket throughout, between the two demotions of a sweep too, exactly when every demotion
folds new buckets only. -/
theorem oneRowPerBucket_iff (ops : List (Op ν)) :
    (∀ done, done <+: ops.flatMap Op.transactions →
        OneRowPerBucket (({} : Database ν).after avg config done).tables) ↔
      ∀ done t, done ++ [t] <+: ops.flatMap Op.transactions →
        FoldsNew config (({} : Database ν).after avg config done) t := by
  constructor
  · intro h done t ht
    have hbefore := h done ((List.prefix_append done [t]).trans ht)
    have hafter := h (done ++ [t]) ht
    rw [Database.after_concat] at hafter
    exact (oneRowPerBucket_apply avg config hbefore t).mp hafter
  · intro h done hdone
    induction done using List.reverseRecOn with
    | nil => exact ⟨List.nodup_nil, List.nodup_nil⟩
    | append_singleton done t ih =>
        have hbefore := ih ((List.prefix_append done [t]).trans hdone)
        rw [Database.after_concat]
        exact (oneRowPerBucket_apply avg config hbefore t).mpr (h done t hdone)

/-! ## The default sweep -/

/-- Two samples of one minute are demoted by two sweeps a minute apart. -/
def splitMinute : List (Op ℚ) :=
  [.write 50000 [⟨10000, .QualityPassRate, 0, 90⟩, ⟨50000, .QualityPassRate, 0, 96⟩]
      fun _ => false,
    .runOnce 3630000 (fun _ => false) fun _ => false,
    .runOnce 3690000 (fun _ => false) fun _ => false]

theorem split_minute_has_two_rows :
    Timely ℚ 0 splitMinute ∧
      ¬ ∀ done, done <+: splitMinute.flatMap Op.transactions →
        OneRowPerBucket (({} : Database ℚ).after Averages.mean {} done).tables := by
  refine ⟨?_, fun h => ?_⟩
  · simp [Timely, splitMinute]
  · exact absurd (h _ List.prefix_rfl).minute (by decide +kernel)

end Historian
