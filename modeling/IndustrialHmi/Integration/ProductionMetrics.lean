import IndustrialHmi.Integration.IngestBridges
import IndustrialHmi.Integration.SensorRates
import IndustrialHmi.Model.ObserverTables

/-!
# Production metrics

The overall effectiveness of the line is the product of three percentages, of the lines that run, of
the throughput against its target, and of the pass rates.  All of it is computed from what the model
stores, in single precision, and stays a percentage in every run as long as every pass rate is a
number (`metrics_law`).
-/

namespace Production

open Binary32

def kPerformanceTargetUph : ℚ := 100

/-- Each a percentage. -/
structure OeeMetrics where
  availabilityPct : Binary32 := .fin 0
  performancePct : Binary32 := .fin 0
  qualityPct : Binary32 := .fin 0
  oeePct : Binary32 := .fin 0

namespace SimulatedModel

/-- A line that is online or processing. -/
def available (status : EquipmentStatus) : Bool :=
  status.status = kEquipmentStatusOnline ∨ status.status = kEquipmentStatusProcessing

def availabilityPct (c : SimulatedModel) : Binary32 :=
  if c.equipmentStatuses.isEmpty then .fin 0
  else
    let running := c.equipmentStatuses.toList.countP fun entry => available entry.2
    ((ofInt running).mul (.fin 100)).div (ofInt c.equipmentStatuses.size)

/-- Running ahead of the target counts as reaching it. -/
def performancePct (c : SimulatedModel) : Binary32 :=
  let throughput := c.currentWorkUnit.throughputUnitsPerHour
  let perfRatio := if throughput > 0 then throughput / kPerformanceTargetUph else 0
  round (min perfRatio 1 * 100)

/-- The pass rates, in the order of the ids. -/
def passRates (c : SimulatedModel) : List Binary32 :=
  c.qualityCheckpoints.toList.map fun entry => entry.2.passRate

def qualityPct (c : SimulatedModel) : Binary32 :=
  if c.qualityCheckpoints.isEmpty then .fin 0
  else (c.passRates.foldl add (.fin 0)).div (ofInt c.qualityCheckpoints.size)

def oeeSnapshot (c : SimulatedModel) : OeeMetrics where
  availabilityPct := c.availabilityPct
  performancePct := c.performancePct
  qualityPct := c.qualityPct
  oeePct := (((c.availabilityPct.div (.fin 100)).mul (c.performancePct.div (.fin 100))).mul
    (c.qualityPct.div (.fin 100))).mul (.fin 100)

end SimulatedModel

/-! ## What is published -/

def kMinutesPerHour : ℚ := 60

/-- The document of the metrics; a key that is left out is `none`. -/
structure ProductionMetrics where
  throughputUph : ℚ
  oeePct : Binary32
  minutesPerUnit : Option ℚ

def buildProductionMetrics (c : SimulatedModel) : ProductionMetrics where
  throughputUph := c.currentWorkUnit.throughputUnitsPerHour
  oeePct := c.oeeSnapshot.oeePct
  minutesPerUnit :=
    if c.currentWorkUnit.throughputUnitsPerHour > 0 then
      some (kMinutesPerHour / c.currentWorkUnit.throughputUnitsPerHour)
    else none

/-- What holds of the metrics of a model. -/
structure Metrics (c : SimulatedModel) : Prop where
  availability : UpTo 100 c.oeeSnapshot.availabilityPct
  performance : UpTo 100 c.oeeSnapshot.performancePct
  quality : UpTo 100 c.oeeSnapshot.qualityPct ↔ .nan ∉ c.passRates
  oee : UpTo 100 (buildProductionMetrics c).oeePct ↔ .nan ∉ c.passRates
  /-- The time for a unit is left out only while no units come. -/
  minutes : (buildProductionMetrics c).minutesPerUnit = none ↔
    (buildProductionMetrics c).throughputUph = 0

namespace SimulatedModel

variable {c : SimulatedModel}

/-! ## What the model keeps -/

/-- A pass rate is a percentage or is not a number. -/
def Rate (x : Binary32) : Prop := x = .nan ∨ UpTo 100 x

theorem rate_clamp (x : Binary32) : Rate (x.clamp kQualityRateMin kQualityRateMax) := by
  by_cases hnan : x = .nan
  · subst hnan
    exact .inl rfl
  · obtain ⟨q, hq, hlow, hhigh⟩ := Sensor.withinLimits_clamp.mpr hnan
    exact .inr ⟨q, hq, by linarith, by exact_mod_cast hhigh⟩

theorem rate_default : Rate (default : QualityCheckpoint).passRate :=
  .inr ⟨100, rfl, by norm_num, by norm_num⟩

/-- Every pass rate is such a rate, and the throughput is not negative. -/
structure Gauged (c : SimulatedModel) : Prop where
  rates : ∀ k cp, c.qualityCheckpoints.entry k = some cp → Rate cp.passRate
  throughput : 0 ≤ c.currentWorkUnit.throughputUnitsPerHour

theorem gauged_initial : ({} : SimulatedModel).Gauged := ⟨fun k cp h => by simp at h, le_rfl⟩

theorem unitsPerHour_nonneg (m : ThroughputMeter) (now : ℤ) : 0 ≤ (m.unitsPerHour now).2 := by
  rw [ThroughputMeter.unitsPerHour]
  split
  · exact le_rfl
  · next hlength =>
      simp only
      split
      · exact le_rfl
      · next hseconds =>
          have hcount : (0 : ℤ) ≤ (m.evictOlderThan (now - m.window)).completions.length - 1 := by
            omega
          have hunits : (0 : ℚ) ≤
              (((m.evictOlderThan (now - m.window)).completions.length - 1 : ℤ) : ℚ) * 3600 :=
            mul_nonneg (by exact_mod_cast hcount) (by norm_num)
          exact div_nonneg hunits (not_le.mp hseconds).le

theorem rate_tickCheckpoint (draws : Draws) (k : Nat) {cp : QualityCheckpoint}
    (h : Rate cp.passRate) : Rate (c.tickCheckpoint draws k cp).passRate := by
  rw [tickCheckpoint]
  simp only
  split
  · exact h
  · exact rate_clamp _

theorem Gauged.notifyQualityChange (h : c.Gauged) (id : Nat) :
    (c.notifyQualityChange id).1.Gauged := by
  refine ⟨fun k cp hk => ?_, h.throughput⟩
  simp only [SimulatedModel.notifyQualityChange, IdMap.entry, IdMap.get_subscript] at hk
  split at hk
  · obtain rfl := Option.some.inj hk
    cases hid : c.qualityCheckpoints[id]? with
    | none => exact rate_default
    | some cp => exact h.rates id cp hid
  · exact h.rates k cp hk

theorem Gauged.setQualityPassRate (h : c.Gauged) (id : Nat) (rate : Binary32) :
    (c.setQualityPassRate id rate).1.Gauged := by
  by_cases hmem : id ∈ c.qualityCheckpoints
  · obtain ⟨cp, hclamp, -, hstored⟩ := Sensor.setQualityPassRate_of_mem hmem rate
    refine ⟨fun k cp' hk => ?_, ?_⟩
    · rw [IdMap.entry, hstored] at hk
      split at hk
      · cases hk
        exact hclamp ▸ rate_clamp rate
      · exact h.rates k cp' hk
    · rw [setQualityPassRate_keeps]
      exact h.throughput
  · simpa only [SimulatedModel.setQualityPassRate, if_pos hmem] using h

theorem Gauged.tickSimulation (h : c.Gauged) (draws : Draws) (now : ℤ) :
    (c.tickSimulation draws now).1.Gauged where
  rates k cp hk := by
    rw [tickSimulation_keeps, IdMap.entry, Std.ExtTreeMap.getElem?_map,
      Option.map_eq_some_iff] at hk
    obtain ⟨old, hold, rfl⟩ := hk
    exact rate_tickCheckpoint draws k (h.rates k old hold)
  throughput := by
    simp only [SimulatedModel.tickSimulation, andThen_fst, notifyQualityChanges_keys]
    exact unitsPerHour_nonneg _ _

theorem Gauged.loadProduct (h : c.Gauged) (product : Product) (recipe : Recipe) :
    (c.loadProduct product recipe).1.Gauged := by
  simp only [SimulatedModel.loadProduct, andThen_fst, notifyQualityChanges_keys]
  refine ⟨fun k cp hk => ?_, le_rfl⟩
  rw [IdMap.entry, Std.ExtTreeMap.getElem?_map, Option.map_eq_some_iff] at hk
  obtain ⟨old, hold, rfl⟩ := hk
  exact h.rates k old hold

theorem Gauged.initializeDemoData (h : c.Gauged) : c.initializeDemoData.1.Gauged := by
  have hdemo : ∀ {q : ℚ}, 0 ≤ q → q ≤ 100 → Rate (.round q) := fun hpos hle =>
    .inr (upTo_round (by norm_num) hpos (by exact_mod_cast hle))
  simp only [SimulatedModel.initializeDemoData, andThen_fst, dispatch_fst,
    notifyQualityChanges_keys]
  refine ⟨fun k cp hk => ?_, le_rfl⟩
  simp only [IdMap.entry, Std.ExtTreeMap.getElem?_insert] at hk
  split at hk
  · cases hk
    exact .inr ⟨93, rfl, by norm_num, by norm_num⟩
  · split at hk
    · cases hk
      exact hdemo (by norm_num) (by norm_num)
    · split at hk
      · cases hk
        exact hdemo (by norm_num) (by norm_num)
      · exact h.rates k cp hk

theorem Gauged.startProduction (h : c.Gauged) : c.startProduction.1.Gauged := by
  by_cases hleft : c.currentWorkUnit.completedOperations < c.currentWorkUnit.totalOperations
  · simp only [SimulatedModel.startProduction, simulateProductionCycle, andThen_fst, dispatch_fst,
      hleft, if_true]
    exact ⟨h.rates, h.throughput⟩
  · simp only [SimulatedModel.startProduction, simulateProductionCycle, andThen_fst, dispatch_fst,
      hleft, if_false]
    exact ⟨h.rates, h.throughput⟩

theorem Gauged.step (h : c.Gauged) (op : Op) : (c.step op).1.Gauged := by
  cases op with
  | startProduction => exact h.startProduction
  | resetSystem => exact ⟨h.rates, le_rfl⟩
  | setEquipmentEnabled id enabled =>
      rw [SimulatedModel.step, setEquipmentEnabled, changeEquipment_keeps]
      exact ⟨h.rates, h.throughput⟩
  | setEquipmentSupplyLevel id level =>
      rw [SimulatedModel.step, setEquipmentSupplyLevel, changeEquipment_keeps]
      exact ⟨h.rates, h.throughput⟩
  | setQualityPassRate id rate => exact h.setQualityPassRate id rate
  | loadProduct product recipe => exact h.loadProduct product recipe
  | tickSimulation draws now => exact h.tickSimulation draws now
  | republishAll =>
      rw [SimulatedModel.step, republishAll_keeps]
      exact h
  | notifyQualityChange id => exact h.notifyQualityChange id
  | initializeDemoData => exact h.initializeDemoData
  | stopProduction => exact ⟨h.rates, h.throughput⟩
  | startCalibration => exact ⟨h.rates, h.throughput⟩
  | triggerFault reason => exact ⟨h.rates, h.throughput⟩
  | notifyWorkUnitChange => exact h

theorem gauged_after (ops : List Op) : (({} : SimulatedModel).after ops).Gauged := by
  induction ops using List.reverseRecOn with
  | nil => exact gauged_initial
  | append_singleton ops op ih =>
      rw [after_concat]
      exact ih.step op

/-! ## The percentages -/

/-- The lines are few in every run: an id is checked against their number. -/
theorem size_equipmentStatuses (ops : List Op) :
    (({} : SimulatedModel).after ops).equipmentStatuses.size ≤ kEquipmentCount := by
  have hrange := Ingest.inRange_after Ingest.inRange_initial ops
  rw [← Std.ExtTreeMap.length_keys, ← List.length_range (n := kEquipmentCount)]
  refine List.Nodup.length_le_of_subset Std.ExtTreeMap.nodup_keys fun id hid => ?_
  exact List.mem_range.mpr (hrange id (Std.ExtTreeMap.mem_keys.mp hid))

theorem upTo_availabilityPct (hfew : c.equipmentStatuses.size ≤ kEquipmentCount) :
    UpTo 100 c.availabilityPct := by
  rw [availabilityPct]
  split
  next => exact ⟨0, rfl, le_rfl, by norm_num⟩
  next hsome =>
    have hsize : 0 < c.equipmentStatuses.size := by
      rw [Nat.pos_iff_ne_zero]
      simpa [Std.ExtTreeMap.isEmpty_eq_size_beq_zero] using hsome
    set n := c.equipmentStatuses.size with hn
    set running := c.equipmentStatuses.toList.countP fun entry => available entry.2
    have hrunning : running ≤ n := by
      rw [hn, ← Std.ExtTreeMap.length_toList]
      exact List.countP_le_length
    have hcount : n ≤ 4 := hfew
    have hexact : UpTo n (ofInt running) := by
      rw [ofInt_natCast (by omega)]
      exact ⟨running, rfl, by positivity, by exact_mod_cast hrunning⟩
    have hhundred : UpTo 100 (.fin 100) := ⟨100, rfl, by norm_num, by norm_num⟩
    have hproduct := hexact.mul hhundred (by omega)
    rw [Nat.mul_comm] at hproduct
    exact hproduct.div hsize (by omega) (by norm_num)

theorem upTo_performancePct (c : SimulatedModel) : UpTo 100 c.performancePct := by
  rw [performancePct]
  set ratio := if c.currentWorkUnit.throughputUnitsPerHour > 0 then
    c.currentWorkUnit.throughputUnitsPerHour / kPerformanceTargetUph else 0 with hratio
  have hpos : 0 ≤ ratio := by
    rw [hratio]
    split
    · next h => exact div_nonneg h.le (by norm_num [kPerformanceTargetUph])
    · exact le_rfl
  have hmin : 0 ≤ min ratio 1 := le_min hpos zero_le_one
  refine upTo_round (by norm_num) (by positivity) ?_
  calc min ratio 1 * 100 ≤ 1 * 100 := by gcongr; exact min_le_right _ _
    _ = (100 : ℕ) := by norm_num

/-- What is not a number in one rate is not a number in the mean. -/
theorem qualityPct_of_nan (h : .nan ∈ c.passRates) : c.qualityPct = .nan := by
  have hsome : c.qualityCheckpoints.isEmpty = false := by
    obtain ⟨entry, hentry, -⟩ := List.mem_map.mp h
    rw [← Std.ExtTreeMap.isEmpty_toList, List.isEmpty_eq_false_iff]
    exact List.ne_nil_of_mem hentry
  rw [qualityPct, hsome, foldl_add_of_nan h]
  simp

theorem upTo_qualityPct (hc : c.Gauged) (hfew : c.qualityCheckpoints.size ≤ 167772)
    (hnumbers : .nan ∉ c.passRates) : UpTo 100 c.qualityPct := by
  rw [qualityPct]
  split
  next => exact ⟨0, rfl, le_rfl, by norm_num⟩
  next hsome =>
    have hsize : 0 < c.qualityCheckpoints.size := by
      rw [Nat.pos_iff_ne_zero]
      simpa [Std.ExtTreeMap.isEmpty_eq_size_beq_zero] using hsome
    have hlength : c.passRates.length = c.qualityCheckpoints.size := by simp [passRates]
    have hrates : ∀ rate ∈ c.passRates, UpTo 100 rate := by
      intro rate hrate
      obtain ⟨entry, hentry, rfl⟩ := List.mem_map.mp hrate
      have hstored := Std.ExtTreeMap.mem_toList_iff_getElem?_eq_some.mp hentry
      rcases hc.rates entry.1 entry.2 hstored with hnan | hnumber
      · exact absurd (hnan ▸ hrate) hnumbers
      · exact hnumber
    have hsum := upTo_foldl_add hrates (by omega)
    rw [hlength] at hsum
    exact hsum.div hsize (by omega) (by norm_num)

theorem upTo_hundredth {x : Binary32} (h : UpTo 100 x) : UpTo 1 (x.div (.fin 100)) := by
  have hdiv : UpTo 1 (x.div (ofInt (100 : ℕ))) :=
    h.div (by norm_num) (by norm_num) (by norm_num)
  rwa [ofInt_natCast (by norm_num)] at hdiv

theorem upTo_oeePct (ha : UpTo 100 c.availabilityPct) (hp : UpTo 100 c.performancePct)
    (hq : UpTo 100 c.qualityPct) : UpTo 100 c.oeeSnapshot.oeePct := by
  have hhundred : UpTo 100 (.fin 100) := ⟨100, rfl, by norm_num, by norm_num⟩
  have hlines := (upTo_hundredth ha).mul (upTo_hundredth hp) (by norm_num)
  have hratio := hlines.mul (upTo_hundredth hq) (by norm_num)
  exact hratio.mul hhundred (by norm_num)

theorem oeePct_of_nan (h : .nan ∈ c.passRates) : c.oeeSnapshot.oeePct = .nan := by
  simp [oeeSnapshot, qualityPct_of_nan h]

theorem not_upTo_nan {b : ℕ} : ¬UpTo b .nan := by
  rintro ⟨q, h, -⟩
  cases h

theorem Gauged.metrics (hc : c.Gauged) (hlines : c.equipmentStatuses.size ≤ kEquipmentCount)
    (hfew : c.qualityCheckpoints.size ≤ 167772) : Metrics c where
  availability := upTo_availabilityPct hlines
  performance := upTo_performancePct c
  quality := by
    refine ⟨fun h hnan => ?_, upTo_qualityPct hc hfew⟩
    have hmean : c.oeeSnapshot.qualityPct = .nan := qualityPct_of_nan hnan
    exact not_upTo_nan (hmean ▸ h)
  oee := by
    refine ⟨fun h hnan => ?_, fun hnumbers => ?_⟩
    · have hproduct : (buildProductionMetrics c).oeePct = .nan := oeePct_of_nan hnan
      exact not_upTo_nan (hproduct ▸ h)
    · exact upTo_oeePct (upTo_availabilityPct hlines) (upTo_performancePct c)
        (upTo_qualityPct hc hfew hnumbers)
  minutes := by
    have hpos := hc.throughput
    simp only [buildProductionMetrics, ite_eq_right_iff, reduceCtorEq, imp_false, not_lt]
    exact ⟨fun h => le_antisymm h hpos, le_of_eq⟩

/-- In every run: the percentages are percentages, with the quality and the overall effectiveness
among them exactly if every pass rate is a number. -/
theorem metrics_law (ops : List Op)
    (hfew : (({} : SimulatedModel).after ops).qualityCheckpoints.size ≤ 167772) :
    Metrics (({} : SimulatedModel).after ops) :=
  (gauged_after ops).metrics (size_equipmentStatuses ops) hfew

/-- A rate that is not a number takes the effectiveness with it. -/
theorem metrics_law_demo :
    Metrics (({} : SimulatedModel).after [.initializeDemoData, .setQualityPassRate 1 .nan]) :=
  metrics_law _ (by decide +kernel)

end SimulatedModel

end Production
