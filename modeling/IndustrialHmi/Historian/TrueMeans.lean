import Mathlib.Data.List.Induction
import IndustrialHmi.Historian.TrackedArchive

/-!
# Means of means

A demotion averages rows, whatever number of samples each stands for.  The average is
the mean of the samples when the rows of the bucket stand for equally many, and the rows
of a bucket together have the mean of its samples when the new row stands for as many as
those that are there.
-/

namespace Historian

namespace Tracked

open Averages

/-! ## Rows and their samples -/

/-- The row stands for samples, all of its own bucket. -/
structure InBucket (bucketMs : ℤ) (r : Row Tracked) : Prop where
  nonempty : r.value.sources ≠ []
  keys : ∀ s ∈ r.value.sources, s.key bucketMs = r.key bucketMs

/-- The value of the row is the mean of its samples. -/
def IsMean (r : Row Tracked) : Prop := r.value.value = mean (r.value.sources.map Row.value)

/-- The number of samples a row stands for. -/
def count (r : Row Tracked) : Nat := r.value.sources.length

/-- The rows of one bucket stand for equally many samples. -/
def EvenCounts (bucketMs : ℤ) (rows : List (Row Tracked)) : Prop :=
  ∀ r ∈ rows, ∀ r' ∈ rows, r'.key bucketMs = r.key bucketMs → count r' = count r

/-- A minute lies in one hour. -/
theorem hour_of_minute (ts : ℤ) :
    ts.tdiv kHourBucketMs = (ts.tdiv kMinuteBucketMs).tdiv ((60 : Nat) : ℤ) := by
  have hbuckets : kHourBucketMs = ((60000 * 60 : Nat) : ℤ) := rfl
  have hminute : kMinuteBucketMs = ((60000 : Nat) : ℤ) := rfl
  rw [hbuckets, hminute]
  obtain ⟨n, rfl | rfl⟩ := ts.eq_nat_or_neg
  · rw [← Int.ofNat_tdiv, ← Int.ofNat_tdiv, ← Int.ofNat_tdiv, Nat.div_div_eq_div_mul]
  · rw [Int.neg_tdiv, Int.neg_tdiv, Int.neg_tdiv, ← Int.ofNat_tdiv, ← Int.ofNat_tdiv,
      ← Int.ofNat_tdiv, Nat.div_div_eq_div_mul]

theorem inBucket_minute_hour {r : Row Tracked} (h : InBucket kMinuteBucketMs r) :
    InBucket kHourBucketMs r := by
  refine ⟨h.nonempty, fun s hs => ?_⟩
  have hkey := h.keys s hs
  simp only [Row.key, Key.mk.injEq] at hkey ⊢
  exact ⟨by rw [hour_of_minute, hour_of_minute, hkey.1], hkey.2⟩

/-- The averages stand for what the rows stood for. -/
theorem sources_averages (bucketMs : ℤ) (rows : List (Row Tracked)) :
    ((Database.averages average bucketMs rows).flatMap (·.value.sources)).Perm
      (rows.flatMap (·.value.sources)) :=
  Grouping.flatMap_aggregate_perm (fun k l => by simp [average, List.flatMap_map]) rows

theorem inBucket_averages {bucketMs : ℤ} (hbucket : 0 < bucketMs) {rows : List (Row Tracked)}
    (hrows : ∀ r ∈ rows, InBucket bucketMs r) :
    ∀ r ∈ Database.averages average bucketMs rows, InBucket bucketMs r := by
  intro r hr
  obtain ⟨r₀, hr₀, rfl⟩ := Grouping.mem_aggregate.mp hr
  constructor
  case nonempty =>
    have hmem : r₀ ∈ Grouping.group (Row.key bucketMs) rows (r₀.key bucketMs) :=
      Grouping.mem_group.mpr ⟨hr₀, rfl⟩
    obtain ⟨s, hs⟩ := List.exists_mem_of_ne_nil _ (hrows r₀ hr₀).nonempty
    exact List.ne_nil_of_mem (List.mem_flatMap.mpr ⟨_, List.mem_map_of_mem hmem, hs⟩)
  case keys =>
    intro s hs
    obtain ⟨_, hv, hs⟩ := List.mem_flatMap.mp hs
    obtain ⟨r', hr', rfl⟩ := List.mem_map.mp hv
    obtain ⟨hr', hkey⟩ := Grouping.mem_group.mp hr'
    rw [(hrows r' hr').keys s hs, hkey, Database.key_average hbucket]

/-- The mean of means over equally many samples is the mean of all of them. -/
theorem mean_of_means {rows : List (Row Tracked)} {n : Nat} (hn : n ≠ 0)
    (hmean : ∀ r ∈ rows, IsMean r) (hcount : ∀ r ∈ rows, count r = n) :
    mean (rows.map (·.value.value)) = mean ((rows.flatMap (·.value.sources)).map Row.value) := by
  have hlength : ∀ l ∈ rows.map (fun r => r.value.sources.map Row.value), l.length = n := by
    intro l hl
    obtain ⟨r, hr, rfl⟩ := List.mem_map.mp hl
    rw [List.length_map]
    exact hcount r hr
  have hvalues : rows.map (·.value.value) =
      (rows.map fun r => r.value.sources.map Row.value).map mean := by
    rw [List.map_map]
    exact List.map_congr_left hmean
  rw [hvalues, ← mean_flatten hn hlength, List.map_flatMap, List.flatMap_def]

/-- Averages of means over equally many samples are means. -/
theorem isMean_averages {bucketMs : ℤ} {rows : List (Row Tracked)}
    (hrows : ∀ r ∈ rows, InBucket bucketMs r) (hmean : ∀ r ∈ rows, IsMean r)
    (heven : EvenCounts bucketMs rows) :
    ∀ r ∈ Database.averages average bucketMs rows, IsMean r := by
  intro r hr
  obtain ⟨r₀, hr₀, rfl⟩ := Grouping.mem_aggregate.mp hr
  have hcount : count r₀ ≠ 0 := fun h => (hrows r₀ hr₀).nonempty (List.length_eq_zero_iff.mp h)
  have hgroup : ∀ r ∈ Grouping.group (Row.key bucketMs) rows (r₀.key bucketMs),
      IsMean r ∧ count r = count r₀ := by
    intro r hr
    obtain ⟨hr, hkey⟩ := Grouping.mem_group.mp hr
    exact ⟨hmean r hr, heven r₀ hr₀ r hr hkey⟩
  simp only [IsMean, average, List.map_map, List.flatMap_map]
  exact mean_of_means hcount (fun r hr => (hgroup r hr).1) fun r hr => (hgroup r hr).2

/-- The rows that are folded into a bucket stand for equally many samples, and the rows
that are there for as many as all of them together. -/
structure FoldsEvenly (bucketMs : ℤ) (rows table : List (Row Tracked)) : Prop where
  even : EvenCounts bucketMs rows
  joins : ∀ r ∈ rows, ∀ d ∈ table, d.key bucketMs = r.key bucketMs →
    count d = ((Grouping.group (Row.key bucketMs) rows (r.key bucketMs)).map count).sum

theorem evenCounts_averages {bucketMs : ℤ} (hbucket : 0 < bucketMs)
    {rows table : List (Row Tracked)} (htable : EvenCounts bucketMs table)
    (hfolds : FoldsEvenly bucketMs rows table) :
    EvenCounts bucketMs (table ++ Database.averages average bucketMs rows) := by
  -- an average of the bucket of a row has the key of that row and the count of its group
  have haverage : ∀ r ∈ Database.averages average bucketMs rows, ∃ r₀ ∈ rows,
      r.key bucketMs = r₀.key bucketMs ∧
      count r = ((Grouping.group (Row.key bucketMs) rows (r₀.key bucketMs)).map count).sum := by
    intro r hr
    obtain ⟨r₀, hr₀, rfl⟩ := Grouping.mem_aggregate.mp hr
    refine ⟨r₀, hr₀, Database.key_average hbucket _ _, ?_⟩
    simp only [count, average, List.flatMap_map, List.length_flatMap]
    rfl
  intro r hr r' hr' hkey
  rcases List.mem_append.mp hr with hold | hnew <;>
    rcases List.mem_append.mp hr' with hold' | hnew'
  · exact htable r hold r' hold' hkey
  · obtain ⟨r₀, hr₀, hkey₀, hcount⟩ := haverage r' hnew'
    rw [hcount, hfolds.joins r₀ hr₀ r hold (hkey.symm.trans hkey₀)]
  · obtain ⟨r₀, hr₀, hkey₀, hcount⟩ := haverage r hnew
    rw [hcount, hfolds.joins r₀ hr₀ r' hold' (hkey.trans hkey₀)]
  · obtain ⟨r₀, hr₀, hkey₀, hcount⟩ := haverage r hnew
    obtain ⟨r₁, hr₁, hkey₁, hcount₁⟩ := haverage r' hnew'
    rw [hcount, hcount₁, ← hkey₀, ← hkey₁, hkey]

/-! ## Every sample is accounted for -/

/-- The samples a transaction writes. -/
def writtenBy : Transaction ℚ → List (Row ℚ)
  | .write records _ => records.map HistoryRecord.row
  | _ => []

/-- All samples a run has written. -/
def written (done : List (Transaction ℚ)) : List (Row ℚ) := done.flatMap writtenBy

/-- Every statement of the transaction succeeds. -/
def Succeeds : Transaction ℚ → Prop
  | .write _ fails => fails = fun _ => false
  | .demoteRaw _ fails => fails = fun _ => false
  | .demoteMinute _ fails => fails = fun _ => false

/-- The samples of all rows of the archive. -/
def samplesIn (db : Database Tracked) : List (Row ℚ) :=
  (db.tables .Raw).flatMap (·.value.sources) ++ (db.tables .Minute).flatMap (·.value.sources) ++
    (db.tables .Hour).flatMap (·.value.sources)

/-- Every sample written is one of one row, and the rows stand for samples of their
buckets. -/
structure Accounted (db : Database Tracked) (samples : List (Row ℚ)) : Prop where
  saved : db.saved = none
  raw : ∀ r ∈ db.tables .Raw, r.value.sources = [plain r]
  minute : ∀ r ∈ db.tables .Minute, InBucket kMinuteBucketMs r
  hour : ∀ r ∈ db.tables .Hour, InBucket kHourBucketMs r
  perm : (samplesIn db).Perm samples

theorem inBucket_raw {r : Row Tracked} (h : r.value.sources = [plain r]) (bucketMs : ℤ) :
    InBucket bucketMs r := by
  refine ⟨by simp [h], fun s hs => ?_⟩
  rw [h, List.mem_singleton] at hs
  rw [hs]
  rfl

/-- The old rows and the recent ones are the rows. -/
theorem old_recent_perm (db : Database Tracked) (src : Tier) (olderThanMs : ℤ) :
    ((db.recent src olderThanMs).flatMap (·.value.sources) ++
      (db.old src olderThanMs).flatMap (·.value.sources)).Perm
      ((db.tables src).flatMap (·.value.sources)) := by
  rw [← List.flatMap_append]
  exact (List.perm_append_comm.trans (List.filter_append_perm _ (db.tables src))).flatMap_right _

theorem sources_record (records : List (HistoryRecord ℚ)) :
    ((records.map record).map HistoryRecord.row).flatMap (·.value.sources) =
      records.map HistoryRecord.row := by
  induction records with
  | nil => rfl
  | cons r records ih => exact congrArg (r.row :: ·) ih

theorem Accounted.write {db : Database Tracked} {samples : List (Row ℚ)}
    (h : Accounted db samples) (records : List (HistoryRecord ℚ)) :
    Accounted (db.write (records.map record) fun _ => false).1
      (samples ++ records.map HistoryRecord.row) := by
  obtain ⟨hsaved, hraw⟩ := Database.write_succeeding h.saved (records.map record)
  have hother : ∀ tier, tier ≠ .Raw →
      (db.write (records.map record) fun _ => false).1.tables tier = db.tables tier :=
    fun tier htier => db.tables_write_of_ne _ _ htier
  refine ⟨hsaved, ?_, ?_, ?_, ?_⟩
  · intro r hr
    rw [hraw] at hr
    rcases List.mem_append.mp hr with hold | hnew
    · exact h.raw r hold
    · simp only [List.map_map, List.mem_map] at hnew
      obtain ⟨rec, -, rfl⟩ := hnew
      rfl
  · rw [hother .Minute (by decide)]
    exact h.minute
  · rw [hother .Hour (by decide)]
    exact h.hour
  · rw [samplesIn, hraw, hother .Minute (by decide), hother .Hour (by decide),
      List.flatMap_append, sources_record]
    refine List.Perm.trans ?_ (h.perm.append_right _)
    rw [samplesIn, List.append_assoc, List.append_assoc, List.append_assoc, List.append_assoc]
    refine List.Perm.append_left _ ?_
    rw [← List.append_assoc _ _ (records.map _)]
    exact List.perm_append_comm

/-- A demotion moves the samples of the rows it folds. -/
theorem demoted_perm {db db' : Database Tracked} {src dst : Tier} {olderThanMs bucketMs : ℤ}
    (h : Database.Demoted average db db' src dst olderThanMs bucketMs fun _ => false) :
    ((db'.tables src).flatMap (·.value.sources) ++
      (db'.tables dst).flatMap (·.value.sources)).Perm
      ((db.tables src).flatMap (·.value.sources) ++
        (db.tables dst).flatMap (·.value.sources)) := by
  rw [h.inserted, h.remaining, if_neg Bool.false_ne_true, List.flatMap_append]
  have hmoved := ((sources_averages bucketMs (db.old src olderThanMs)).append_left
    ((db.recent src olderThanMs).flatMap (·.value.sources))).trans
      (old_recent_perm db src olderThanMs)
  refine List.Perm.trans ?_ (hmoved.append_right _)
  rw [List.append_assoc]
  exact List.perm_append_comm.append_left _

/-- The destination keeps rows that stand for samples of their buckets. -/
theorem inBucket_demoted {db db' : Database Tracked} {src dst : Tier} {olderThanMs bucketMs : ℤ}
    {fails : Statement → Bool}
    (h : Database.Demoted average db db' src dst olderThanMs bucketMs fails)
    (hbucket : 0 < bucketMs) (hsrc : ∀ r ∈ db.tables src, InBucket bucketMs r)
    (hdst : ∀ r ∈ db.tables dst, InBucket bucketMs r) :
    ∀ r ∈ db'.tables dst, InBucket bucketMs r := by
  intro r hr
  rw [h.inserted] at hr
  rcases List.mem_append.mp hr with hold | hnew
  · exact hdst r hold
  · exact inBucket_averages hbucket (fun r hr => hsrc r (List.mem_filter.mp hr).1) r hnew

theorem Accounted.demoteRaw {db : Database Tracked} {samples : List (Row ℚ)}
    (h : Accounted db samples) (config : Config) (now : ℤ) :
    Accounted ((Transaction.demoteRaw now fun _ => false).apply average config db) samples := by
  have hdemoted := Database.demoted_demoteRaw average config
    (Database.inserts_succeeding h.saved) now
  have hraw : ∀ r ∈ db.tables .Raw, InBucket kMinuteBucketMs r :=
    fun r hr => inBucket_raw (h.raw r hr) _
  have hhour := hdemoted.other .Hour (by decide) (by decide)
  refine ⟨Database.saved_demoteOlderThan_succeeding average h.saved _ _ _ _, ?_, ?_, ?_, ?_⟩
  · exact fun r hr => h.raw r (hdemoted.source_sublist.subset hr)
  · exact inBucket_demoted hdemoted kMinuteBucketMs_pos hraw h.minute
  · rw [hhour]
    exact h.hour
  · rw [samplesIn, hhour]
    exact ((demoted_perm hdemoted).append_right _).trans h.perm

theorem Accounted.demoteMinute {db : Database Tracked} {samples : List (Row ℚ)}
    (h : Accounted db samples) (config : Config) (now : ℤ) :
    Accounted ((Transaction.demoteMinute now fun _ => false).apply average config db) samples := by
  have hdemoted := Database.demoted_demoteMinute average config
    (Database.inserts_succeeding h.saved) now
  have hminute : ∀ r ∈ db.tables .Minute, InBucket kHourBucketMs r :=
    fun r hr => inBucket_minute_hour (h.minute r hr)
  have hraw := hdemoted.other .Raw (by decide) (by decide)
  refine ⟨Database.saved_demoteOlderThan_succeeding average h.saved _ _ _ _, ?_, ?_, ?_, ?_⟩
  · rw [hraw]
    exact h.raw
  · exact fun r hr => h.minute r (hdemoted.source_sublist.subset hr)
  · exact inBucket_demoted hdemoted kHourBucketMs_pos hminute h.hour
  · rw [samplesIn, hraw, List.append_assoc]
    refine ((demoted_perm hdemoted).append_left _).trans ?_
    rw [← List.append_assoc]
    exact h.perm

theorem Accounted.apply {db : Database Tracked} {samples : List (Row ℚ)}
    (h : Accounted db samples) (config : Config) {t : Transaction ℚ} (ht : Succeeds t) :
    Accounted ((transaction t).apply average config db) (samples ++ writtenBy t) := by
  cases t with
  | write records fails =>
      subst ht
      exact h.write records
  | demoteRaw now fails =>
      subst ht
      show Accounted _ (samples ++ [])
      rw [List.append_nil]
      exact h.demoteRaw config now
  | demoteMinute now fails =>
      subst ht
      show Accounted _ (samples ++ [])
      rw [List.append_nil]
      exact h.demoteMinute config now

/-- In a run whose statements all succeed every sample is one of one row. -/
theorem accounted_after (config : Config) {done : List (Transaction ℚ)}
    (hsucceed : ∀ t ∈ done, Succeeds t) : Accounted (after config done) (written done) := by
  induction done using List.reverseRecOn with
  | nil =>
      refine ⟨rfl, ?_, ?_, ?_, List.Perm.refl _⟩
      all_goals exact fun r hr => absurd hr List.not_mem_nil
  | append_singleton done t ih =>
      have hbefore := ih fun t ht => hsucceed t (List.mem_append_left _ ht)
      have hstep := hbefore.apply config (hsucceed t (by simp))
      rw [after_concat, written, List.flatMap_append, List.flatMap_singleton]
      exact hstep

/-! ## Means -/

/-- The rows of a table are means, and those of one bucket of equally many samples. -/
structure Means (bucketMs : ℤ) (table : List (Row Tracked)) : Prop where
  mean : ∀ r ∈ table, IsMean r
  even : EvenCounts bucketMs table

theorem isMean_raw {r : Row Tracked} (h : r.value.sources = [plain r]) : IsMean r := by
  rw [IsMean, h]
  exact (mean_singleton _).symm

theorem Means.sublist {bucketMs : ℤ} {table table' : List (Row Tracked)}
    (h : Means bucketMs table) (hsub : table'.Sublist table) : Means bucketMs table' :=
  ⟨fun r hr => h.mean r (hsub.subset hr),
    fun r hr r' hr' => h.even r (hsub.subset hr) r' (hsub.subset hr')⟩

theorem Means.append_averages {bucketMs : ℤ} (hbucket : 0 < bucketMs)
    {rows table : List (Row Tracked)} (h : Means bucketMs table)
    (hrows : ∀ r ∈ rows, InBucket bucketMs r) (hmean : ∀ r ∈ rows, IsMean r)
    (hfolds : FoldsEvenly bucketMs rows table) :
    Means bucketMs (table ++ Database.averages average bucketMs rows) := by
  refine ⟨fun r hr => ?_, evenCounts_averages hbucket h.even hfolds⟩
  rcases List.mem_append.mp hr with hold | hnew
  · exact h.mean r hold
  · exact isMean_averages hrows hmean hfolds.even r hnew

/-- The condition on the state before a transaction. -/
def SweepsEvenly (config : Config) (db : Database Tracked) : Transaction ℚ → Prop
  | .write _ _ => True
  | .demoteRaw now _ =>
      FoldsEvenly kMinuteBucketMs (db.old .Raw (now - config.rawRetention)) (db.tables .Minute)
  | .demoteMinute now _ =>
      FoldsEvenly kHourBucketMs (db.old .Minute (now - config.minuteRetention)) (db.tables .Hour)

/-- The averages of both tiers are means. -/
structure Balanced (db : Database Tracked) : Prop where
  minute : Means kMinuteBucketMs (db.tables .Minute)
  hour : Means kHourBucketMs (db.tables .Hour)

theorem Balanced.apply {db : Database Tracked} {samples : List (Row ℚ)}
    (haccounted : Accounted db samples) (h : Balanced db) {config : Config} {t : Transaction ℚ}
    (ht : Succeeds t) (heven : SweepsEvenly config db t) :
    Balanced ((transaction t).apply average config db) := by
  have hinserts := Database.inserts_succeeding haccounted.saved
  cases t with
  | write records fails =>
      constructor
      · rw [transaction, Transaction.apply, db.tables_write_of_ne _ _ (by decide)]
        exact h.minute
      · rw [transaction, Transaction.apply, db.tables_write_of_ne _ _ (by decide)]
        exact h.hour
  | demoteRaw now fails =>
      subst ht
      have hdemoted := Database.demoted_demoteRaw average config hinserts now
      have hraw : ∀ r ∈ db.old .Raw (now - config.rawRetention), r.value.sources = [plain r] :=
        fun r hr => haccounted.raw r (List.mem_filter.mp hr).1
      rw [transaction]
      constructor
      · rw [hdemoted.inserted]
        exact h.minute.append_averages kMinuteBucketMs_pos (fun r hr => inBucket_raw (hraw r hr) _)
          (fun r hr => isMean_raw (hraw r hr)) heven
      · rw [hdemoted.other .Hour (by decide) (by decide)]
        exact h.hour
  | demoteMinute now fails =>
      subst ht
      have hdemoted := Database.demoted_demoteMinute average config hinserts now
      have hminute : ∀ r ∈ db.old .Minute (now - config.minuteRetention),
          InBucket kMinuteBucketMs r := fun r hr => haccounted.minute r (List.mem_filter.mp hr).1
      rw [transaction]
      constructor
      · exact h.minute.sublist hdemoted.source_sublist
      · rw [hdemoted.inserted]
        exact h.hour.append_averages kHourBucketMs_pos
          (fun r hr => inBucket_minute_hour (hminute r hr))
          (fun r hr => h.minute.mean r (List.mem_filter.mp hr).1) heven

theorem balanced_after (config : Config) {done : List (Transaction ℚ)}
    (hsucceed : ∀ t ∈ done, Succeeds t)
    (heven : ∀ before t, before ++ [t] <+: done → SweepsEvenly config (after config before) t) :
    Balanced (after config done) := by
  induction done using List.reverseRecOn with
  | nil =>
      constructor <;> constructor
      all_goals exact fun r hr => absurd hr List.not_mem_nil
  | append_singleton done t ih =>
      have hdone : ∀ t ∈ done, Succeeds t := fun t ht => hsucceed t (List.mem_append_left _ ht)
      have hbefore := ih hdone fun before t' ht' =>
        heven before t' (ht'.trans (List.prefix_append done [t]))
      rw [after_concat]
      exact hbefore.apply (accounted_after config hdone) (hsucceed t (by simp))
        (heven done t List.prefix_rfl)

/-- No sample of the bucket is of a row of another tier. -/
def HeldIn (db : Database Tracked) (tier : Tier) (bucketMs : ℤ) (k : Key) : Prop :=
  ∀ tier', tier' ≠ tier → ∀ r ∈ db.tables tier', ∀ s ∈ r.value.sources, s.key bucketMs ≠ k

/-- The samples of a bucket are those of its rows. -/
theorem group_sources {bucketMs : ℤ} {table : List (Row Tracked)}
    (htable : ∀ r ∈ table, InBucket bucketMs r) (k : Key) :
    Grouping.group (Row.key bucketMs) (table.flatMap (·.value.sources)) k =
      (Grouping.group (Row.key bucketMs) table k).flatMap (·.value.sources) := by
  induction table with
  | nil => rfl
  | cons r table ih =>
      have hrest := ih fun r' hr' => htable r' (List.mem_cons_of_mem r hr')
      have hkeys := (htable r List.mem_cons_self).keys
      rw [List.flatMap_cons, Grouping.group_append, hrest]
      by_cases hk : r.key bucketMs = k
      · have hall : Grouping.group (Row.key bucketMs) r.value.sources k = r.value.sources :=
          List.filter_eq_self.mpr fun s hs => by simp [hkeys s hs, hk]
        rw [hall, Grouping.group, Grouping.group, List.filter_cons_of_pos (by simp [hk]),
          List.flatMap_cons]
      · have hnone : Grouping.group (Row.key bucketMs) r.value.sources k = [] :=
          List.filter_eq_nil_iff.mpr fun s hs => by simp [hkeys s hs, hk]
        rw [hnone, Grouping.group, Grouping.group, List.filter_cons_of_neg (by simp [hk]),
          List.nil_append]

/-- The rows of a bucket that is held in their table have the mean of its samples. -/
theorem mean_group {bucketMs : ℤ} {table : List (Row Tracked)}
    (htable : ∀ r ∈ table, InBucket bucketMs r) (hmeans : Means bucketMs table) (k : Key) :
    mean ((Grouping.group (Row.key bucketMs) (table.map plain) k).map Row.value) =
      mean ((Grouping.group (Row.key bucketMs) (table.flatMap (·.value.sources)) k).map
        Row.value) := by
  have hplain : Grouping.group (Row.key bucketMs) (table.map plain) k =
      (Grouping.group (Row.key bucketMs) table k).map plain :=
    Grouping.group_map (Row.key_map Tracked.value bucketMs) table k
  rw [group_sources htable, hplain, List.map_map]
  cases hgroup : Grouping.group (Row.key bucketMs) table k with
  | nil => rfl
  | cons r rows =>
      have hmem : ∀ r' ∈ r :: rows, r' ∈ table ∧ r'.key bucketMs = k := fun r' hr' =>
        Grouping.mem_group.mp (hgroup ▸ hr')
      obtain ⟨hr, hkey⟩ := hmem r List.mem_cons_self
      have hcount : count r ≠ 0 := fun h =>
        (htable r hr).nonempty (List.length_eq_zero_iff.mp h)
      refine mean_of_means hcount (fun r' hr' => hmeans.mean r' (hmem r' hr').1) fun r' hr' => ?_
      exact hmeans.even r hr r' (hmem r' hr').1 ((hmem r' hr').2.trans hkey.symm)

/-- The samples of a bucket that is held in a tier are those of the rows of the tier. -/
theorem group_held {db : Database Tracked} {tier : Tier} {bucketMs : ℤ} {k : Key}
    (h : HeldIn db tier bucketMs k) :
    Grouping.group (Row.key bucketMs) (samplesIn db) k =
      Grouping.group (Row.key bucketMs) ((db.tables tier).flatMap (·.value.sources)) k := by
  have hother : ∀ tier', tier' ≠ tier →
      Grouping.group (Row.key bucketMs) ((db.tables tier').flatMap (·.value.sources)) k = [] := by
    intro tier' htier'
    refine List.filter_eq_nil_iff.mpr fun s hs => ?_
    obtain ⟨r, hr, hs⟩ := List.mem_flatMap.mp hs
    simpa using h tier' htier' r hr s hs
  rw [samplesIn, Grouping.group_append, Grouping.group_append]
  cases tier with
  | Raw => rw [hother .Minute (by decide), hother .Hour (by decide)]; simp
  | Minute => rw [hother .Raw (by decide), hother .Hour (by decide)]; simp
  | Hour => rw [hother .Raw (by decide), hother .Minute (by decide)]; simp

/-- In a bucket held in a tier the rows of the tier have the mean of the samples written. -/
def TrueMeans (config : Config) (done : List (Transaction ℚ)) (tier : Tier) (bucketMs : ℤ) :
    Prop :=
  ∀ k, HeldIn (after config done) tier bucketMs k →
    mean ((Grouping.group (Row.key bucketMs)
      ((({} : Database ℚ).after mean config done).tables tier) k).map Row.value) =
      mean ((Grouping.group (Row.key bucketMs) (written done) k).map Row.value)

theorem trueMeans_of_means {config : Config} {done : List (Transaction ℚ)}
    (haccounted : Accounted (after config done) (written done)) {tier : Tier} {bucketMs : ℤ}
    (htable : ∀ r ∈ (after config done).tables tier, InBucket bucketMs r)
    (hmeans : Means bucketMs ((after config done).tables tier)) :
    TrueMeans config done tier bucketMs := by
  intro k hheld
  rw [plain_after, mean_group htable hmeans, ← group_held hheld]
  exact mean_perm ((haccounted.perm.filter _).map _)

/-- In every run whose statements all succeed and whose demotions all fold evenly, the
averages of both tiers are true means throughout. -/
theorem true_means (config : Config) (ops : List (Op ℚ))
    (hsucceed : ∀ t ∈ ops.flatMap Op.transactions, Succeeds t)
    (heven : ∀ done t, done ++ [t] <+: ops.flatMap Op.transactions →
      SweepsEvenly config (after config done) t) :
    ∀ done, done <+: ops.flatMap Op.transactions →
      TrueMeans config done .Minute kMinuteBucketMs ∧
        TrueMeans config done .Hour kHourBucketMs := by
  intro done hdone
  have hall : ∀ t ∈ done, Succeeds t := fun t ht => hsucceed t (hdone.subset ht)
  have haccounted := accounted_after config hall
  have hbalanced := balanced_after config hall fun before t ht => heven before t (ht.trans hdone)
  exact ⟨trueMeans_of_means haccounted haccounted.minute hbalanced.minute,
    trueMeans_of_means haccounted haccounted.hour hbalanced.hour⟩

/-- One minute with two samples, demoted to its hour by one sweep. -/
def wholeMinute : List (Op ℚ) :=
  [.write 50000 [⟨10000, .QualityPassRate, 0, 90⟩, ⟨50000, .QualityPassRate, 0, 96⟩]
      fun _ => false,
    .runOnce 90000000 (fun _ => false) fun _ => false]

theorem true_means_wholeMinute :
    TrueMeans {} (wholeMinute.flatMap Op.transactions) .Hour kHourBucketMs := by
  refine (true_means {} wholeMinute ?_ ?_ _ List.prefix_rfl).2
  · simp [wholeMinute, Op.transactions, Succeeds]
  · rintro (_ | ⟨_, _ | ⟨_, _ | ⟨_, done⟩⟩⟩) t ht
    all_goals
      simp only [wholeMinute, Op.transactions, List.flatMap_cons, List.flatMap_nil,
        List.nil_append, List.cons_append, List.cons_prefix_cons, List.nil_prefix, and_true,
        List.prefix_nil, List.append_eq_nil_iff, List.cons_ne_nil, and_false] at ht
    · rw [ht]
      trivial
    · obtain ⟨rfl, rfl⟩ := ht
      exact ⟨by unfold EvenCounts; decide +kernel, by decide +kernel⟩
    · obtain ⟨rfl, rfl, rfl⟩ := ht
      exact ⟨by unfold EvenCounts; decide +kernel, by decide +kernel⟩

/-- Two minutes of one hour, of three samples and of one. -/
def unevenMinutes : List (Op ℚ) :=
  [.write 60000 [⟨0, .QualityPassRate, 0, 0⟩, ⟨1000, .QualityPassRate, 0, 0⟩,
      ⟨2000, .QualityPassRate, 0, 0⟩, ⟨60000, .QualityPassRate, 0, 4⟩] fun _ => false,
    .runOnce 90000000 (fun _ => false) fun _ => false]

theorem uneven_minutes_not_true :
    Timely ℚ 0 unevenMinutes ∧ (∀ t ∈ unevenMinutes.flatMap Op.transactions, Succeeds t) ∧
      ¬ ∀ done, done <+: unevenMinutes.flatMap Op.transactions →
        TrueMeans {} done .Minute kMinuteBucketMs ∧ TrueMeans {} done .Hour kHourBucketMs := by
  refine ⟨by simp [Timely, unevenMinutes], by simp [unevenMinutes, Op.transactions, Succeeds],
    fun h => ?_⟩
  have hhour := (h _ List.prefix_rfl).2 ⟨0, "Q", 0⟩ fun tier htier => by
    cases tier with
    | Raw => decide +kernel
    | Minute => decide +kernel
    | Hour => exact absurd rfl htier
  exact absurd hhour (by decide +kernel)

end Tracked

end Historian
