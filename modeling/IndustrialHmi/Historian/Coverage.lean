import IndustrialHmi.Historian.TrueMeans

/-!
# Coverage

Demotion loses no sample and invents none: what has left one table is in the bucket of a
row of the next, and a row of a coarse table lies on the edge of a bucket that has
samples, with a value between theirs.
-/

namespace Historian

/-! ## What a table has of the samples -/

/-- The samples of the bucket of a row, of its field and entity. -/
def bucketOf (bucketMs : ℤ) (samples : List (Row ℚ)) (r : Row ℚ) : List (Row ℚ) :=
  Grouping.group (Row.key bucketMs) samples (r.key bucketMs)

/-- The table has a row of the field and entity of a sample, at the start of its bucket. -/
def HasBucket (bucketMs : ℤ) (table : List (Row ℚ)) (s : Row ℚ) : Prop :=
  ∃ r ∈ table, r.field = s.field ∧ r.entity = s.entity ∧ r.ts = s.ts / bucketMs * bucketMs

def Represented (tables : Tables ℚ) (s : Row ℚ) : Prop :=
  s ∈ tables .Raw ∨ HasBucket kMinuteBucketMs (tables .Minute) s ∨
    HasBucket kHourBucketMs (tables .Hour) s

/-- A row on the edge of a bucket that has samples, with a value between two of them. -/
structure StandsFor (bucketMs : ℤ) (samples : List (Row ℚ)) (r : Row ℚ) : Prop where
  edge : bucketMs ∣ r.ts
  nonempty : bucketOf bucketMs samples r ≠ []
  least : ∃ s ∈ bucketOf bucketMs samples r, s.value ≤ r.value
  greatest : ∃ s ∈ bucketOf bucketMs samples r, r.value ≤ s.value

structure Covered (tables : Tables ℚ) (samples : List (Row ℚ)) : Prop where
  represented : ∀ s ∈ samples, Represented tables s
  raw : ∀ s, (tables .Raw).count s ≤ samples.count s
  minute : ∀ r ∈ tables .Minute, StandsFor kMinuteBucketMs samples r
  hour : ∀ r ∈ tables .Hour, StandsFor kHourBucketMs samples r

namespace Tracked

open Averages

/-! ## Values between those of the samples -/

/-- The value of the row lies between the values of two of its samples. -/
structure Between (r : Row Tracked) : Prop where
  least : ∃ s ∈ r.value.sources, s.value ≤ r.value.value
  greatest : ∃ s ∈ r.value.sources, r.value.value ≤ s.value

theorem between_raw {r : Row Tracked} (h : r.value.sources = [plain r]) : Between r :=
  ⟨⟨plain r, by simp [h], le_refl r.value.value⟩, ⟨plain r, by simp [h], le_refl r.value.value⟩⟩

/-- An average lies on the edge of a bucket, and between the values of its samples. -/
theorem between_averages {bucketMs : ℤ} {rows : List (Row Tracked)}
    (hrows : ∀ r ∈ rows, Between r) :
    ∀ r ∈ Database.averages average bucketMs rows, bucketMs ∣ r.ts ∧ Between r := by
  intro r hr
  obtain ⟨r₀, hr₀, rfl⟩ := Grouping.mem_aggregate.mp hr
  have hsource : ∀ r' ∈ Grouping.group (Row.key bucketMs) rows (r₀.key bucketMs),
      ∀ s ∈ r'.value.sources, s ∈ (average ((Grouping.group (Row.key bucketMs) rows
        (r₀.key bucketMs)).map Row.value)).sources :=
    fun r' hr' s hs => List.mem_flatMap.mpr ⟨r'.value, List.mem_map_of_mem hr', hs⟩
  have hmem : r₀ ∈ Grouping.group (Row.key bucketMs) rows (r₀.key bucketMs) :=
    Grouping.mem_group.mpr ⟨hr₀, rfl⟩
  have hne : ((Grouping.group (Row.key bucketMs) rows (r₀.key bucketMs)).map Row.value).map
      Tracked.value ≠ [] :=
    List.ne_nil_of_mem (List.mem_map_of_mem (List.mem_map_of_mem hmem))
  refine ⟨⟨_, mul_comm _ _⟩, ?_, ?_⟩
  · obtain ⟨q, hq, hle⟩ := exists_le_mean hne
    obtain ⟨_, hv, rfl⟩ := List.mem_map.mp hq
    obtain ⟨r', hr', rfl⟩ := List.mem_map.mp hv
    obtain ⟨s, hs, hsle⟩ := (hrows r' (Grouping.mem_group.mp hr').1).least
    exact ⟨s, hsource r' hr' s hs, hsle.trans hle⟩
  · obtain ⟨q, hq, hle⟩ := exists_mean_le hne
    obtain ⟨_, hv, rfl⟩ := List.mem_map.mp hq
    obtain ⟨r', hr', rfl⟩ := List.mem_map.mp hv
    obtain ⟨s, hs, hsle⟩ := (hrows r' (Grouping.mem_group.mp hr').1).greatest
    exact ⟨s, hsource r' hr' s hs, hle.trans hsle⟩

/-- The rows of both coarse tables lie on edges and between their samples. -/
structure Bounded (db : Database Tracked) : Prop where
  minute : ∀ r ∈ db.tables .Minute, kMinuteBucketMs ∣ r.ts ∧ Between r
  hour : ∀ r ∈ db.tables .Hour, kHourBucketMs ∣ r.ts ∧ Between r

theorem bounded_demoted {db db' : Database Tracked} {src dst : Tier} {olderThanMs bucketMs : ℤ}
    {fails : Statement → Bool}
    (h : Database.Demoted average db db' src dst olderThanMs bucketMs fails)
    (hsrc : ∀ r ∈ db.tables src, Between r)
    (hdst : ∀ r ∈ db.tables dst, bucketMs ∣ r.ts ∧ Between r) :
    ∀ r ∈ db'.tables dst, bucketMs ∣ r.ts ∧ Between r := by
  intro r hr
  rw [h.inserted] at hr
  rcases List.mem_append.mp hr with hold | hnew
  · exact hdst r hold
  · exact between_averages (fun r hr => hsrc r (List.mem_filter.mp hr).1) r hnew

theorem Bounded.apply {db : Database Tracked} {samples : List (Row ℚ)}
    (haccounted : Accounted db samples) (h : Bounded db) (config : Config) {t : Transaction ℚ}
    (ht : Succeeds t) : Bounded ((transaction t).apply average config db) := by
  have hinserts := Database.inserts_succeeding haccounted.saved
  cases t with
  | write records fails =>
      constructor
      · rw [transaction, Transaction.apply, db.tables_write_of_ne _ _ (by decide)]
        exact h.minute
      · rw [transaction, Transaction.apply, db.tables_write_of_ne _ _ (by decide)]
        exact h.hour
  | demoteRaw now fails =>
      subst ht
      have hdemoted := Database.demoted_demoteRaw average config hinserts now
      rw [transaction]
      constructor
      · exact bounded_demoted hdemoted (fun r hr => between_raw (haccounted.raw r hr)) h.minute
      · rw [hdemoted.other .Hour (by decide) (by decide)]
        exact h.hour
  | demoteMinute now fails =>
      subst ht
      have hdemoted := Database.demoted_demoteMinute average config hinserts now
      rw [transaction]
      constructor
      · exact fun r hr => h.minute r (hdemoted.source_sublist.subset hr)
      · exact bounded_demoted hdemoted (fun r hr => (h.minute r hr).2) h.hour

theorem bounded_after (config : Config) {done : List (Transaction ℚ)}
    (hsucceed : ∀ t ∈ done, Succeeds t) : Bounded (after config done) := by
  induction done using List.reverseRecOn with
  | nil => constructor <;> exact fun r hr => absurd hr List.not_mem_nil
  | append_singleton done t ih =>
      have hdone : ∀ t ∈ done, Succeeds t := fun t ht => hsucceed t (List.mem_append_left _ ht)
      rw [after_concat]
      exact (ih hdone).apply (accounted_after config hdone) config (hsucceed t (by simp))

/-! ## Coverage -/

/-- A row that has a sample from the epoch on among its own lies at the start of the
bucket of the sample. -/
theorem hasBucket_plain {bucketMs : ℤ} {table : List (Row Tracked)} {r : Row Tracked}
    (hr : r ∈ table) (hbucket : InBucket bucketMs r) (hedge : bucketMs ∣ r.ts) {s : Row ℚ}
    (hs : s ∈ r.value.sources) (hts : 0 ≤ s.ts) : HasBucket bucketMs (table.map plain) s := by
  have hkey := hbucket.keys s hs
  simp only [Row.key, Key.mk.injEq] at hkey
  obtain ⟨hindex, hfield, hentity⟩ := hkey
  refine ⟨plain r, List.mem_map_of_mem hr, hfield.symm, hentity.symm, ?_⟩
  show r.ts = s.ts / bucketMs * bucketMs
  rw [← Int.tdiv_eq_ediv_of_nonneg hts, hindex, Int.tdiv_mul_cancel hedge]

theorem standsFor_plain {bucketMs : ℤ} {samples : List (Row ℚ)} {r : Row Tracked}
    (hbucket : InBucket bucketMs r) (hr : bucketMs ∣ r.ts ∧ Between r)
    (hsources : ∀ s ∈ r.value.sources, s ∈ samples) : StandsFor bucketMs samples (plain r) := by
  have hmem : ∀ s ∈ r.value.sources, s ∈ bucketOf bucketMs samples (plain r) :=
    fun s hs => Grouping.mem_group.mpr ⟨hsources s hs, hbucket.keys s hs⟩
  obtain ⟨hedge, ⟨low, hlow, hle⟩, ⟨high, hhigh, hge⟩⟩ := hr
  exact ⟨hedge, List.ne_nil_of_mem (hmem low hlow), ⟨low, hmem low hlow, hle⟩,
    ⟨high, hmem high hhigh, hge⟩⟩

theorem mem_samplesIn {db : Database Tracked} {s : Row ℚ} :
    s ∈ samplesIn db ↔ ∃ tier, ∃ r ∈ db.tables tier, s ∈ r.value.sources := by
  simp only [samplesIn, List.mem_append, List.mem_flatMap]
  constructor
  · rintro ((h | h) | h)
    · exact ⟨.Raw, h⟩
    · exact ⟨.Minute, h⟩
    · exact ⟨.Hour, h⟩
  · rintro ⟨tier, h⟩
    cases tier with
    | Raw => exact .inl (.inl h)
    | Minute => exact .inl (.inr h)
    | Hour => exact .inr h

/-- The raw rows are samples of the archive, each by itself. -/
theorem raw_sublist {db : Database Tracked} {samples : List (Row ℚ)}
    (h : Accounted db samples) : ((db.tables .Raw).map plain).Sublist (samplesIn db) := by
  have hraw : (db.tables .Raw).map plain = (db.tables .Raw).flatMap (·.value.sources) := by
    rw [List.flatMap_congr h.raw]
    exact List.map_eq_flatMap
  rw [hraw, samplesIn, List.append_assoc]
  exact List.sublist_append_left _ _

/-- In every run whose statements all succeed, whatever the clock does, the archive covers
the samples from the epoch on, between the two demotions of a sweep too. -/
theorem covered_after (config : Config) (ops : List (Op ℚ))
    (hsucceed : ∀ t ∈ ops.flatMap Op.transactions, Succeeds t)
    (hts : ∀ s ∈ written (ops.flatMap Op.transactions), 0 ≤ s.ts) :
    ∀ done, done <+: ops.flatMap Op.transactions →
      Covered (({} : Database ℚ).after mean config done).tables (written done) := by
  intro done hdone
  have hall : ∀ t ∈ done, Succeeds t := fun t ht => hsucceed t (hdone.subset ht)
  have haccounted := accounted_after config hall
  have hbounded := bounded_after config hall
  have hsources : ∀ tier, ∀ r ∈ (after config done).tables tier, ∀ s ∈ r.value.sources,
      s ∈ written done := fun tier r hr s hs =>
    haccounted.perm.mem_iff.mp (mem_samplesIn.mpr ⟨tier, r, hr, hs⟩)
  constructor
  case represented =>
    intro s hs
    have hepoch : 0 ≤ s.ts := hts s (by
      obtain ⟨t, ht, hst⟩ := List.mem_flatMap.mp hs
      exact List.mem_flatMap.mpr ⟨t, hdone.subset ht, hst⟩)
    obtain ⟨tier, r, hr, hsr⟩ := mem_samplesIn.mp (haccounted.perm.mem_iff.mpr hs)
    rw [Represented, plain_after, plain_after, plain_after]
    cases tier with
    | Raw =>
        rw [haccounted.raw r hr, List.mem_singleton] at hsr
        exact .inl (hsr ▸ List.mem_map_of_mem hr)
    | Minute =>
        exact .inr (.inl (hasBucket_plain hr (haccounted.minute r hr) (hbounded.minute r hr).1
          hsr hepoch))
    | Hour =>
        exact .inr (.inr (hasBucket_plain hr (haccounted.hour r hr) (hbounded.hour r hr).1
          hsr hepoch))
  case raw =>
    intro s
    rw [plain_after, ← haccounted.perm.count_eq]
    exact (raw_sublist haccounted).count_le s
  case minute =>
    rw [plain_after]
    intro _ hplain
    obtain ⟨r, hr, rfl⟩ := List.mem_map.mp hplain
    exact standsFor_plain (haccounted.minute r hr) (hbounded.minute r hr) (hsources _ r hr)
  case hour =>
    rw [plain_after]
    intro _ hplain
    obtain ⟨r, hr, rfl⟩ := List.mem_map.mp hplain
    exact standsFor_plain (haccounted.hour r hr) (hbounded.hour r hr) (hsources _ r hr)

theorem covered_unevenMinutes :
    Covered (({} : Database ℚ).after mean {} (unevenMinutes.flatMap Op.transactions)).tables
      (written (unevenMinutes.flatMap Op.transactions)) :=
  covered_after {} unevenMinutes (by simp [unevenMinutes, Op.transactions, Succeeds])
    (by decide +kernel) _ List.prefix_rfl

end Tracked

end Historian
