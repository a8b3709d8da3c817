import Mathlib.Data.List.Sort
import IndustrialHmi.Theory.Averages
import IndustrialHmi.Theory.Since
import IndustrialHmi.Historian.HistoryStore

/-!
# Range queries

A query reads one table, and which one depends on the length of its range alone; which
table holds a sample depends on the sweeps since it was written.  What a query sees is
therefore a matter of the schedule of the sweeps.
-/

namespace Historian

variable {ν : Type}

structure QueryRange where
  fromMs : ℤ
  toMs : ℤ
  /-- Zero means no limit. -/
  limit : Nat := 10000

def kOneHourMs : ℤ := 3600000
def kOneDayMs : ℤ := 24 * kOneHourMs

def tierForRange (range : QueryRange) : Tier :=
  let durationMs := range.toMs - range.fromMs
  if durationMs ≤ kOneHourMs then .Raw
  else if durationMs ≤ kOneDayMs then .Minute
  else .Hour

/-- The newest rows of the series in the range, in the order of their timestamps. -/
def Database.query (db : Database ν) (field : FieldKind) (entityId : BitVec 32)
    (range : QueryRange) : List (HistoryRecord ν) :=
  let rows := (db.tables (tierForRange range)).filter fun r =>
    r.field = fieldCode field && r.entity = entityId.toInt && range.fromMs ≤ r.ts &&
      r.ts ≤ range.toMs
  let newest := rows.mergeSort fun r r' => r'.ts ≤ r.ts
  let out := if range.limit = 0 then newest else newest.take range.limit
  (out.map fun r => ⟨r.ts, field, entityId, r.value⟩).reverse

/-- Without a limit a query gives every row of the series in the range. -/
theorem Database.mem_query {db : Database ν} {field : FieldKind} {entityId : BitVec 32}
    {range : QueryRange} (hlimit : range.limit = 0) {row : Row ν} :
    (∃ r ∈ db.query field entityId range, r.row = row) ↔
      row ∈ db.tables (tierForRange range) ∧ row.field = fieldCode field ∧
        row.entity = entityId.toInt ∧ range.fromMs ≤ row.ts ∧ row.ts ≤ range.toMs := by
  simp only [query, hlimit, if_true, List.mem_reverse, List.mem_map, List.mem_mergeSort,
    List.mem_filter, Bool.and_eq_true, decide_eq_true_eq, and_assoc]
  constructor
  · rintro ⟨_, ⟨r, hr, hfield, hentity, hfrom, hto, rfl⟩, rfl⟩
    have hrow : (⟨r.ts, field, entityId, r.value⟩ : HistoryRecord ν).row = r := by
      rw [HistoryRecord.row, ← hfield, ← hentity]
    rw [hrow]
    exact ⟨hr, hfield, hentity, hfrom, hto⟩
  · rintro ⟨hr, hfield, hentity, hfrom, hto⟩
    refine ⟨_, ⟨row, hr, hfield, hentity, hfrom, hto, rfl⟩, ?_⟩
    rw [HistoryRecord.row, ← hfield, ← hentity]

/-! ## What a transaction does to the rows of a table -/

namespace Database

/-- The rows a write adds to the raw table. -/
def accepted (db : Database ν) (records : List (HistoryRecord ν)) (fails : Statement → Bool) :
    List (Row ν) :=
  if db.saved.isNone && !fails .beginImmediate && !fails .prepareInsert then
    (records.zipIdx.filter fun r => !fails (.stepInsert r.2)).map fun r => r.1.row
  else []

theorem tables_write_raw (db : Database ν) (records : List (HistoryRecord ν))
    (fails : Statement → Bool) :
    (db.write records fails).1.tables .Raw = db.tables .Raw ++ db.accepted records fails := by
  rw [write, accepted]
  cases records with
  | nil => simp
  | cons r records =>
      cases hsaved : db.saved with
      | some tables => simp [beginImmediate, hsaved]
      | none =>
          cases hbegin : fails .beginImmediate with
          | true => simp [beginImmediate, hbegin]
          | false =>
              cases hprepare : fails .prepareInsert with
              | true => simp [beginImmediate, hbegin, hsaved, rollback]
              | false => simp [beginImmediate, hbegin, hsaved, tables_commit]

end Database

variable (avg : List ν → ν) (config : Config)

/-- The transaction writes the sample. -/
def Writes (db : Database ν) (s : Row ν) : Transaction ν → Prop
  | .write records fails => s ∈ db.accepted records fails
  | _ => False

/-- The transaction takes the raw rows of a time out of their table. -/
def TakesRaw (db : Database ν) (ts : ℤ) : Transaction ν → Prop
  | .demoteRaw now fails =>
      db.Inserts fails ∧ fails .stepDelete = false ∧ ts < now - config.rawRetention
  | _ => False

/-- The transaction takes the minute rows of a time out of their table. -/
def TakesMinute (db : Database ν) (ts : ℤ) : Transaction ν → Prop
  | .demoteMinute now fails =>
      db.Inserts fails ∧ fails .stepDelete = false ∧ ts < now - config.minuteRetention
  | _ => False

/-- A demotion takes out the rows before its cut-off, if its insertion and its deletion
take effect. -/
theorem mem_source_demoted {avg : List ν → ν} {db db' : Database ν} {src dst : Tier}
    {olderThanMs bucketMs : ℤ} {fails : Statement → Bool}
    (h : Database.Demoted avg db db' src dst olderThanMs bucketMs fails) (r : Row ν) :
    r ∈ db'.tables src ↔
      r ∈ db.tables src ∧ ¬ (fails .stepDelete = false ∧ r.ts < olderThanMs) := by
  rw [h.remaining]
  cases fails .stepDelete with
  | true => simp
  | false => simp [Database.recent]

theorem mem_raw_apply (db : Database ν) (t : Transaction ν) (s : Row ν) :
    s ∈ (t.apply avg config db).tables .Raw ↔
      Writes db s t ∨ s ∈ db.tables .Raw ∧ ¬ TakesRaw config db s.ts t := by
  cases t with
  | write records fails =>
      rw [Transaction.apply, db.tables_write_raw, List.mem_append, or_comm]
      simp only [Writes, TakesRaw, not_false_eq_true, and_true]
  | demoteRaw now fails =>
      by_cases hinserts : db.Inserts fails
      · rw [mem_source_demoted (Database.demoted_demoteRaw avg config hinserts now)]
        simp [Writes, TakesRaw, hinserts]
      · rw [Database.tables_demoteRaw avg config hinserts]
        simp [Writes, TakesRaw, hinserts]
  | demoteMinute now fails =>
      have hraw : ((Transaction.demoteMinute now fails).apply avg config db).tables .Raw =
          db.tables .Raw := by
        by_cases hinserts : db.Inserts fails
        · exact (Database.demoted_demoteMinute avg config hinserts now).other .Raw (by decide)
            (by decide)
        · rw [Database.tables_demoteMinute avg config hinserts]
      rw [hraw]
      simp [Writes, TakesRaw]

/-- The transaction folds a raw row of the minute. -/
def Folds (db : Database ν) (k : Key) : Transaction ν → Prop
  | .demoteRaw now fails =>
      db.Inserts fails ∧
        ∃ s ∈ db.tables .Raw, s.key kMinuteBucketMs = k ∧ s.ts < now - config.rawRetention
  | _ => False

/-- A minute row lies at the start of its minute. -/
def MinuteEdges (db : Database ν) : Prop :=
  ∀ r ∈ db.tables .Minute, r.ts = (r.key kMinuteBucketMs).bucket * kMinuteBucketMs

def HasMinute (db : Database ν) (k : Key) : Prop :=
  ∃ r ∈ db.tables .Minute, r.key kMinuteBucketMs = k

theorem exists_average {bucketMs : ℤ} (hbucket : 0 < bucketMs) (rows : List (Row ν)) (k : Key) :
    (∃ r ∈ Database.averages avg bucketMs rows, r.key bucketMs = k) ↔
      ∃ s ∈ rows, s.key bucketMs = k := by
  have hkeys : k ∈ (Database.averages avg bucketMs rows).map (Row.key bucketMs) ↔
      k ∈ rows.map (Row.key bucketMs) := by
    rw [Database.keys_averages avg hbucket, List.mem_dedup]
  simpa only [List.mem_map] using hkeys

theorem hasMinute_apply {db : Database ν} (hedges : MinuteEdges db) (t : Transaction ν)
    (k : Key) :
    HasMinute (t.apply avg config db) k ↔
      Folds config db k t ∨
        HasMinute db k ∧ ¬ TakesMinute config db (k.bucket * kMinuteBucketMs) t := by
  cases t with
  | write records fails =>
      rw [HasMinute, Transaction.apply, db.tables_write_of_ne records fails (by decide)]
      simp [HasMinute, Folds, TakesMinute]
  | demoteRaw now fails =>
      by_cases hinserts : db.Inserts fails
      · have hdemoted := Database.demoted_demoteRaw avg config hinserts now
        have hold : ∀ s, s ∈ db.old .Raw (now - config.rawRetention) ↔
            s ∈ db.tables .Raw ∧ s.ts < now - config.rawRetention := by simp [Database.old]
        have hnew := exists_average avg kMinuteBucketMs_pos
          (db.old .Raw (now - config.rawRetention)) k
        simp only [HasMinute, hdemoted.inserted, List.mem_append, or_and_right, exists_or, hnew,
          hold, Folds, hinserts, true_and, TakesMinute, not_false_eq_true, and_true, and_assoc]
        rw [or_comm]
        simp only [and_comm]
      · rw [HasMinute, Database.tables_demoteRaw avg config hinserts]
        simp [HasMinute, Folds, TakesMinute, hinserts]
  | demoteMinute now fails =>
      by_cases hinserts : db.Inserts fails
      · have hmem := mem_source_demoted (Database.demoted_demoteMinute avg config hinserts now)
        simp only [HasMinute, hmem, Folds, TakesMinute, hinserts, true_and, false_or]
        constructor
        · rintro ⟨r, ⟨hr, hnot⟩, rfl⟩
          exact ⟨⟨r, hr, rfl⟩, by rwa [← hedges r hr]⟩
        · rintro ⟨⟨r, hr, rfl⟩, hnot⟩
          exact ⟨r, ⟨hr, by rwa [hedges r hr]⟩, rfl⟩
      · rw [HasMinute, Database.tables_demoteMinute avg config hinserts]
        simp [HasMinute, Folds, TakesMinute, hinserts]

theorem MinuteEdges.apply {db : Database ν} (h : MinuteEdges db) (t : Transaction ν) :
    MinuteEdges (t.apply avg config db) := by
  intro r hr
  cases t with
  | write records fails =>
      rw [Transaction.apply, db.tables_write_of_ne records fails (by decide)] at hr
      exact h r hr
  | demoteRaw now fails =>
      by_cases hinserts : db.Inserts fails
      · rw [(Database.demoted_demoteRaw avg config hinserts now).inserted] at hr
        rcases List.mem_append.mp hr with hold | hnew
        · exact h r hold
        · obtain ⟨s, -, rfl⟩ := Grouping.mem_aggregate.mp hnew
          rw [Database.key_average kMinuteBucketMs_pos]
      · rw [Database.tables_demoteRaw avg config hinserts] at hr
        exact h r hr
  | demoteMinute now fails =>
      by_cases hinserts : db.Inserts fails
      · have hdemoted := Database.demoted_demoteMinute avg config hinserts now
        exact h r (hdemoted.source_sublist.subset hr)
      · rw [Database.tables_demoteMinute avg config hinserts] at hr
        exact h r hr

theorem minuteEdges_after (run : List (Transaction ν)) :
    MinuteEdges (({} : Database ν).after avg config run) := by
  induction run using List.reverseRecOn with
  | nil => exact fun r hr => absurd hr List.not_mem_nil
  | append_singleton run t ih =>
      rw [Database.after_concat]
      exact ih.apply avg config t

/-! ## Where a sample is, by the schedule -/

/-- A write has written the sample, and no sweep since has taken it. -/
def RawSince (run : List (Transaction ν)) (s : Row ν) : Prop :=
  Since (fun before t => Writes (({} : Database ν).after avg config before) s t)
    (fun before t => TakesRaw config (({} : Database ν).after avg config before) s.ts t) run

/-- A sweep has folded a sample of the minute, and none since has taken the minute. -/
def MinuteSince (run : List (Transaction ν)) (k : Key) : Prop :=
  Since
    (fun before t => ∃ now fails, t = .demoteRaw now fails ∧
      (({} : Database ν).after avg config before).Inserts fails ∧
      ∃ s, RawSince avg config before s ∧ s.key kMinuteBucketMs = k ∧
        s.ts < now - config.rawRetention)
    (fun before t => TakesMinute config (({} : Database ν).after avg config before)
      (k.bucket * kMinuteBucketMs) t) run

theorem mem_raw_iff (run : List (Transaction ν)) (s : Row ν) :
    s ∈ (({} : Database ν).after avg config run).tables .Raw ↔ RawSince avg config run s := by
  refine Since.iff_of_step
    (P := fun run => s ∈ (({} : Database ν).after avg config run).tables .Raw)
    List.not_mem_nil (fun run t => ?_) run
  simp only [Database.after_concat, mem_raw_apply]

theorem hasMinute_iff (run : List (Transaction ν)) (k : Key) :
    HasMinute (({} : Database ν).after avg config run) k ↔ MinuteSince avg config run k := by
  refine Since.iff_of_step
    (P := fun run => HasMinute (({} : Database ν).after avg config run) k)
    (fun ⟨r, hr, _⟩ => absurd hr List.not_mem_nil) (fun run t => ?_) run
  have hfolds : Folds config (({} : Database ν).after avg config run) k t ↔
      ∃ now fails, t = .demoteRaw now fails ∧
        (({} : Database ν).after avg config run).Inserts fails ∧
        ∃ s, RawSince avg config run s ∧ s.key kMinuteBucketMs = k ∧
          s.ts < now - config.rawRetention := by
    cases t with
    | demoteRaw now fails =>
        simp only [Folds, mem_raw_iff, Transaction.demoteRaw.injEq]
        constructor
        · exact fun h => ⟨now, fails, ⟨rfl, rfl⟩, h⟩
        · rintro ⟨_, _, ⟨rfl, rfl⟩, h⟩
          exact h
    | _ => simp [Folds]
  simp only [Database.after_concat, hasMinute_apply avg config (minuteEdges_after avg config run),
    hfolds]

/-! ## What a query sees -/

/-- A sample of the series that a run has written, from a minute after the start of the
range to its end, and younger than the retention of the minutes. -/
structure Asked (run : List (Transaction ν)) (now : ℤ) (field : FieldKind)
    (entityId : BitVec 32) (range : QueryRange) (s : Row ν) : Prop where
  written : ∃ before t, before ++ [t] <+: run ∧
    Writes (({} : Database ν).after avg config before) s t
  field : s.field = fieldCode field
  entity : s.entity = entityId.toInt
  start : range.fromMs + kMinuteBucketMs ≤ s.ts
  stop : s.ts ≤ range.toMs
  young : now - s.ts < config.minuteRetention

/-- The result of the query has the row of the sample, or the row of its minute where
minutes are read. -/
def Sees (db : Database ν) (field : FieldKind) (entityId : BitVec 32) (range : QueryRange)
    (s : Row ν) : Prop :=
  match tierForRange range with
  | .Raw => ∃ r ∈ db.query field entityId range, r.row = s
  | .Minute =>
      ∃ r ∈ db.query field entityId range, r.row.key kMinuteBucketMs = s.key kMinuteBucketMs
  | .Hour => False

theorem tierForRange_of_le_hour {range : QueryRange}
    (h : range.toMs - range.fromMs ≤ kOneHourMs) : tierForRange range = .Raw := if_pos h

theorem tierForRange_of_le_day {range : QueryRange}
    (hhour : ¬ range.toMs - range.fromMs ≤ kOneHourMs)
    (hday : range.toMs - range.fromMs ≤ kOneDayMs) : tierForRange range = .Minute := by
  simp only [tierForRange, hhour, if_false, hday, if_true]

/-- The minute of a sample starts no earlier than a minute before it. -/
theorem minute_start (ts : ℤ) :
    ts - kMinuteBucketMs ≤ ts.tdiv kMinuteBucketMs * kMinuteBucketMs := by
  have hrem := Int.tmod_lt_of_pos ts kMinuteBucketMs_pos
  have hsplit := Int.mul_tdiv_add_tmod ts kMinuteBucketMs
  rw [mul_comm] at hsplit
  omega

/-- A query without a limit over at most a day sees the samples asked for exactly when the
sweeps suit the length of its range.  Over at most an hour, no sweep has taken a sample
since it was written.  Over more, a sweep has folded a sample of its minute and none since
has taken the minute, which starts within the range. -/
theorem sees_iff (run : List (Transaction ν)) (now : ℤ) (field : FieldKind)
    (entityId : BitVec 32) (range : QueryRange) (hlimit : range.limit = 0)
    (hday : range.toMs - range.fromMs ≤ kOneDayMs) :
    (∀ s, Asked avg config run now field entityId range s →
        Sees (({} : Database ν).after avg config run) field entityId range s) ↔
      ∀ s, Asked avg config run now field entityId range s →
        if range.toMs - range.fromMs ≤ kOneHourMs then RawSince avg config run s
        else MinuteSince avg config run (s.key kMinuteBucketMs) ∧
          s.ts.tdiv kMinuteBucketMs * kMinuteBucketMs ≤ range.toMs := by
  refine forall_congr' fun s => imp_congr_right fun hasked => ?_
  by_cases hhour : range.toMs - range.fromMs ≤ kOneHourMs
  · have htier := tierForRange_of_le_hour hhour
    have hfrom : range.fromMs ≤ s.ts := by
      have hstart := hasked.start
      have hminute := kMinuteBucketMs_pos
      omega
    simp only [Sees, htier, Database.mem_query hlimit, mem_raw_iff, hasked.field, hasked.entity,
      hfrom, hasked.stop, and_true, hhour, if_true]
  · have htier := tierForRange_of_le_day hhour hday
    have hedges := minuteEdges_after avg config run
    have hfrom := minute_start s.ts
    have hstart := hasked.start
    simp only [Sees, htier, hhour, if_false]
    rw [← hasMinute_iff]
    constructor
    · rintro ⟨r, hr, hkey⟩
      obtain ⟨hmem, -, -, -, hto⟩ := (Database.mem_query hlimit).mp ⟨r, hr, rfl⟩
      rw [htier] at hmem
      rw [hedges r.row hmem, hkey] at hto
      exact ⟨⟨r.row, hmem, hkey⟩, hto⟩
    · rintro ⟨⟨row, hmem, hkey⟩, hto⟩
      have hts := hedges row hmem
      rw [hkey] at hts
      have hrow : row ∈ (({} : Database ν).after avg config run).tables (tierForRange range) := by
        rwa [htier]
      have hseries : row.field = s.field ∧ row.entity = s.entity := by
        simp only [Row.key, Key.mk.injEq] at hkey
        exact hkey.2
      have hlow : range.fromMs ≤ row.ts := by
        rw [hts]
        exact le_trans (by omega) hfrom
      obtain ⟨r, hr, rfl⟩ := (Database.mem_query hlimit).mpr ⟨hrow,
        hseries.1.trans hasked.field, hseries.2.trans hasked.entity, hlow, hts ▸ hto⟩
      exact ⟨r, hr, hkey⟩

/-- One sample, just written. -/
def justWritten : List (Op ℚ) :=
  [.write 7200000 [⟨7200000, .QualityPassRate, 0, 90⟩] fun _ => false]

theorem writes_justWritten : Writes ({} : Database ℚ) ⟨7200000, "Q", 0, 90⟩
    (.write [⟨7200000, .QualityPassRate, 0, 90⟩] fun _ => false) := by
  simp [Writes, Database.accepted, HistoryRecord.row, fieldCode]

theorem sees_iff_justWritten :
    Sees (({} : Database ℚ).after Averages.mean {} (justWritten.flatMap Op.transactions))
      .QualityPassRate 0 ⟨3600000, 7200000, 0⟩ ⟨7200000, "Q", 0, 90⟩ := by
  refine (sees_iff Averages.mean {} _ 7200000 .QualityPassRate 0 ⟨3600000, 7200000, 0⟩ rfl
    (by decide)).mpr (fun s hs => ?_) ⟨7200000, "Q", 0, 90⟩
    ⟨⟨[], _, List.prefix_rfl, writes_justWritten⟩, rfl, rfl, by decide, by decide, by decide⟩
  rw [if_pos (by decide)]
  obtain ⟨before, t, hinitial, hwrites⟩ := hs.written
  obtain ⟨rfl, rfl⟩ : before = [] ∧ t = .write [⟨7200000, .QualityPassRate, 0, 90⟩]
      fun _ => false := by
    have hlength := hinitial.length_le
    rcases before with _ | ⟨_, before⟩
    · exact ⟨rfl, by simpa [justWritten, Op.transactions] using hinitial⟩
    · simp [justWritten, Op.transactions] at hlength
  have hsince : RawSince Averages.mean {} ([] ++ [.write [⟨7200000, .QualityPassRate, 0, 90⟩]
      fun _ => false]) s := Since.of_starts hwrites
  exact hsince

/-- A range of two hours that ends with the sample does not see it. -/
theorem two_hours_miss_justWritten :
    Timely ℚ 0 justWritten ∧
      ¬ ∀ s, Asked Averages.mean {} (justWritten.flatMap Op.transactions) 7200000
          .QualityPassRate 0 ⟨0, 7200000, 0⟩ s →
        Sees (({} : Database ℚ).after Averages.mean {} (justWritten.flatMap Op.transactions))
          .QualityPassRate 0 ⟨0, 7200000, 0⟩ s := by
  refine ⟨by simp [Timely, justWritten], fun h => ?_⟩
  obtain ⟨r, hr, -⟩ := h ⟨7200000, "Q", 0, 90⟩
    ⟨⟨[], _, List.prefix_rfl, writes_justWritten⟩, rfl, rfl, by decide, by decide, by decide⟩
  have hrow := ((Database.mem_query rfl).mp ⟨r, hr, rfl⟩).1
  exact absurd hrow List.not_mem_nil

end Historian
