import Mathlib.Data.List.Induction
import Mathlib.Data.List.Nodup
import IndustrialHmi.Model.SimulatedModel
import IndustrialHmi.Theory.Numerals
import IndustrialHmi.Theory.Since

/-!
# The progress of the work unit

Production and every tick advance the active work unit.  A tick that finds it complete starts
the next one and tells the throughput meter of a completion; a reset and the load of a product
start afresh and clear the meter.  So what the meter has been told of since it was cleared are
the rollovers since the last fresh start.
-/

namespace Production

namespace SimulatedModel

/-! ## What the meter is told -/

inductive MeterCall where
  | recordCompletion (now : ℤ)
  | unitsPerHour (now : ℤ)
  | clear
  deriving DecidableEq

def MeterCall.apply (m : ThroughputMeter) : MeterCall → ThroughputMeter
  | .recordCompletion now => m.recordCompletion now
  | .unitsPerHour now => (m.unitsPerHour now).1
  | .clear => m.clear

/-- The calls an operation makes to the meter of the model it finds. -/
def Op.meterCalls (c : SimulatedModel) : Op → List MeterCall
  | .resetSystem | .loadProduct _ _ => [.clear]
  | .tickSimulation _ now =>
      if c.currentWorkUnit.completedOperations < c.currentWorkUnit.totalOperations then
        [.unitsPerHour now]
      else [.recordCompletion now, .unitsPerHour now]
  | _ => []

/-- Each operation of a run, with the model it finds. -/
def steps : SimulatedModel → List Op → List (SimulatedModel × Op)
  | _, [] => []
  | c, op :: run => (c, op) :: steps (c.step op).1 run

/-- The calls a run makes to the meter. -/
def meterCalls (c : SimulatedModel) (run : List Op) : List MeterCall :=
  (c.steps run).flatMap fun s => s.2.meterCalls s.1

def MeterCall.completion? : MeterCall → Option ℤ
  | .recordCompletion now => some now
  | _ => none

/-- The completions the meter was told of since it was last cleared. -/
def completionsSinceClear (calls : List MeterCall) : List ℤ :=
  (sinceLast (fun call => call = .clear) calls).filterMap MeterCall.completion?

/-! ## Fresh starts and rollovers -/

/-- The operation starts the work unit afresh. -/
def Op.restarts : Op → Bool
  | .resetSystem | .loadProduct _ _ => true
  | _ => false

/-- The time of a tick that finds the work unit complete. -/
def rollover? : SimulatedModel × Op → Option ℤ
  | (c, .tickSimulation _ now) =>
      if c.currentWorkUnit.completedOperations = c.currentWorkUnit.totalOperations then some now
      else none
  | _ => none

/-- The rollovers since the last reset or load. -/
def rolloversSinceRestart (c : SimulatedModel) (run : List Op) : List ℤ :=
  (sinceLast (fun s => s.2.restarts) (c.steps run)).filterMap rollover?

/-- The work-unit ids that loading products has generated. -/
def generatedIds (c : SimulatedModel) (run : List Op) : List String :=
  (c.steps run).filterMap fun s =>
    match s.2 with
    | .loadProduct _ _ => some (s.1.step s.2).1.currentWorkUnit.workUnitId
    | _ => none

/-- How an operation changes the number of completed operations. -/
inductive Progress (c : SimulatedModel) (op : Op) : Prop where
  | kept : (c.step op).1.currentWorkUnit.completedOperations =
      c.currentWorkUnit.completedOperations → Progress c op
  | advanced : (c.step op).1.currentWorkUnit.completedOperations =
      c.currentWorkUnit.completedOperations + 1 → Progress c op
  | rolledOver : (rollover? (c, op)).isSome →
      (c.step op).1.currentWorkUnit.completedOperations = 0 → Progress c op
  | restarted : op.restarts →
      (c.step op).1.currentWorkUnit.completedOperations = 0 → Progress c op

/-- Operations are counted from nothing to all. -/
def InRange (c : SimulatedModel) : Prop :=
  0 ≤ c.currentWorkUnit.completedOperations ∧
    c.currentWorkUnit.completedOperations ≤ c.currentWorkUnit.totalOperations

/-- A recipe that is loaded has a number of operations. -/
def Op.RecipeCounts : Op → Prop
  | .loadProduct _ recipe => 0 ≤ recipe.totalOperations
  | _ => True

/-- The law of a run.  The initialisation is an operation of the run like any other. -/
structure ProgressLaw (run : List Op) : Prop where
  inRange : (({} : SimulatedModel).after run).InRange
  progress : ∀ before op later, run = before ++ op :: later → op ≠ .initializeDemoData →
    Progress (({} : SimulatedModel).after before) op
  /-- The meter is told of a completion exactly at the rollovers. -/
  told : ∀ before op later, run = before ++ op :: later →
    (op.meterCalls (({} : SimulatedModel).after before)).filterMap MeterCall.completion? =
      (rollover? (({} : SimulatedModel).after before, op)).toList
  completions : completionsSinceClear (meterCalls {} run) = rolloversSinceRestart {} run
  /-- The meter has had these calls and no others. -/
  meter : (({} : SimulatedModel).after run).throughputMeter =
    (meterCalls {} run).foldl MeterCall.apply {}
  ids : (generatedIds {} run).length < 2 ^ 63 →
    ("WU-2024-001234" :: generatedIds {} run).Nodup

/-! ## One operation -/

theorem step_throughputMeter (c : SimulatedModel) (op : Op) :
    (c.step op).1.throughputMeter = (op.meterCalls c).foldl MeterCall.apply c.throughputMeter := by
  cases op with
  | startProduction => exact (congrArg throughputMeter c.startProduction_keeps).trans rfl
  | setEquipmentEnabled id enabled =>
      exact (congrArg throughputMeter (c.changeEquipment_keeps id _)).trans rfl
  | setEquipmentSupplyLevel id level =>
      exact (congrArg throughputMeter (c.changeEquipment_keeps id _)).trans rfl
  | setQualityPassRate id rate =>
      exact (congrArg throughputMeter (c.setQualityPassRate_keeps id rate)).trans rfl
  | loadProduct product recipe =>
      exact (congrArg throughputMeter (c.loadProduct_keeps product recipe)).trans rfl
  | tickSimulation draws now =>
      simp only [step, tickSimulation, andThen_fst, notifyQualityChanges_keys, Op.meterCalls]
      split <;> rfl
  | republishAll => exact (congrArg throughputMeter c.republishAll_keeps).trans rfl
  | initializeDemoData => exact (congrArg throughputMeter c.initializeDemoData_keeps).trans rfl
  | _ => rfl

/-- What an operation makes of the two counters of the work unit. -/
def Op.counters (completed total : ℤ) : Op → ℤ × ℤ
  | .startProduction => (if completed < total then completed + 1 else completed, total)
  | .tickSimulation _ _ => (if completed < total then completed + 1 else 0, total)
  | .resetSystem => (0, total)
  | .loadProduct _ recipe => (0, recipe.totalOperations)
  | .initializeDemoData => (3, 5)
  | _ => (completed, total)

def counters (c : SimulatedModel) : ℤ × ℤ :=
  (c.currentWorkUnit.completedOperations, c.currentWorkUnit.totalOperations)

theorem counters_simulateProductionCycle (c : SimulatedModel) :
    c.simulateProductionCycle.1.counters =
      Op.startProduction.counters c.counters.1 c.counters.2 := by
  by_cases hleft : c.currentWorkUnit.completedOperations < c.currentWorkUnit.totalOperations
  · rw [simulateProductionCycle, if_pos hleft]
    exact Prod.ext (if_pos hleft).symm rfl
  · rw [simulateProductionCycle, if_neg hleft]
    exact Prod.ext (if_neg hleft).symm rfl

theorem counters_tickSimulation (c : SimulatedModel) (draws : Draws) (now : ℤ) :
    (c.tickSimulation draws now).1.counters =
      (Op.tickSimulation draws now).counters c.counters.1 c.counters.2 := by
  simp only [tickSimulation, andThen_fst, notifyQualityChanges_keys]
  by_cases hleft : c.currentWorkUnit.completedOperations < c.currentWorkUnit.totalOperations
  · rw [if_pos hleft]
    exact Prod.ext (if_pos hleft).symm rfl
  · rw [if_neg hleft]
    exact Prod.ext (if_neg hleft).symm rfl

theorem counters_step (c : SimulatedModel) (op : Op) :
    (c.step op).1.counters = op.counters c.counters.1 c.counters.2 := by
  cases op with
  | startProduction => exact counters_simulateProductionCycle (c.dispatch _).1
  | tickSimulation draws now => exact counters_tickSimulation c draws now
  | setEquipmentEnabled id enabled =>
      exact (congrArg counters (c.changeEquipment_keeps id _)).trans rfl
  | setEquipmentSupplyLevel id level =>
      exact (congrArg counters (c.changeEquipment_keeps id _)).trans rfl
  | setQualityPassRate id rate =>
      exact (congrArg counters (c.setQualityPassRate_keeps id rate)).trans rfl
  | loadProduct product recipe =>
      simp only [step, loadProduct, andThen_fst, notifyQualityChanges_keys]
      rfl
  | republishAll => exact (congrArg counters c.republishAll_keeps).trans rfl
  | initializeDemoData =>
      simp only [step, initializeDemoData, andThen_fst, notifyQualityChanges_keys, dispatch_fst]
      rfl
  | _ => rfl

theorem counters_inRange {completed total : ℤ} (h : 0 ≤ completed ∧ completed ≤ total) {op : Op}
    (hop : op.RecipeCounts) :
    0 ≤ (op.counters completed total).1 ∧
      (op.counters completed total).1 ≤ (op.counters completed total).2 := by
  obtain ⟨hnonneg, hle⟩ := h
  cases op with
  | startProduction =>
      rw [Op.counters]
      rcases lt_or_ge completed total with hleft | hfull
      · rw [if_pos hleft]
        exact ⟨by omega, hleft⟩
      · rw [if_neg hfull.not_gt]
        exact ⟨hnonneg, hle⟩
  | tickSimulation draws now =>
      rw [Op.counters]
      rcases lt_or_ge completed total with hleft | hfull
      · rw [if_pos hleft]
        exact ⟨by omega, hleft⟩
      · rw [if_neg hfull.not_gt]
        exact ⟨le_rfl, hnonneg.trans hle⟩
  | resetSystem => exact ⟨le_rfl, hnonneg.trans hle⟩
  | loadProduct product recipe => exact ⟨le_rfl, hop⟩
  | initializeDemoData => exact ⟨show (0 : ℤ) ≤ 3 by decide, show (3 : ℤ) ≤ 5 by decide⟩
  | _ => exact ⟨hnonneg, hle⟩

theorem inRange_step {c : SimulatedModel} (hc : c.InRange) {op : Op} (hop : op.RecipeCounts) :
    (c.step op).1.InRange := by
  have hcounters : 0 ≤ (op.counters c.counters.1 c.counters.2).1 ∧
      (op.counters c.counters.1 c.counters.2).1 ≤ (op.counters c.counters.1 c.counters.2).2 :=
    counters_inRange hc hop
  rwa [← counters_step c op] at hcounters

theorem progress_step {c : SimulatedModel} (hc : c.InRange) {op : Op}
    (hop : op ≠ .initializeDemoData) : Progress c op := by
  have hstep : (c.step op).1.currentWorkUnit.completedOperations =
      (op.counters c.counters.1 c.counters.2).1 := congrArg Prod.fst (counters_step c op)
  cases op with
  | startProduction =>
      by_cases hleft : c.counters.1 < c.counters.2
      · exact .advanced (hstep.trans (if_pos hleft))
      · exact .kept (hstep.trans (if_neg hleft))
  | tickSimulation draws now =>
      by_cases hleft : c.counters.1 < c.counters.2
      · exact .advanced (hstep.trans (if_pos hleft))
      · refine .rolledOver ?_ (hstep.trans (if_neg hleft))
        rw [rollover?, if_pos (le_antisymm hc.2 (not_lt.mp hleft))]
        rfl
  | resetSystem => exact .restarted rfl hstep
  | loadProduct product recipe => exact .restarted rfl hstep
  | initializeDemoData => exact absurd rfl hop
  | _ => exact .kept hstep

/-- The meter is told of a completion exactly when a tick finds the work unit complete. -/
theorem filterMap_meterCalls {c : SimulatedModel} (hc : c.InRange) (op : Op) :
    (op.meterCalls c).filterMap MeterCall.completion? = (rollover? (c, op)).toList := by
  cases op with
  | tickSimulation draws now =>
      rw [Op.meterCalls, rollover?]
      split
      next hleft => rw [if_neg hleft.ne]; rfl
      next hfull => rw [if_pos (le_antisymm hc.2 (not_lt.mp hfull))]; rfl
  | _ => rfl

/-- The meter is cleared exactly by the operations that start afresh. -/
theorem clear_mem_meterCalls {c : SimulatedModel} {op : Op} :
    .clear ∈ op.meterCalls c ↔ op.restarts := by
  cases op with
  | tickSimulation draws now =>
      rw [Op.meterCalls]
      split <;> simp [Op.restarts]
  | _ => simp [Op.meterCalls, Op.restarts]

/-! ## Runs -/

theorem steps_concat (c : SimulatedModel) (run : List Op) (op : Op) :
    c.steps (run ++ [op]) = c.steps run ++ [(c.after run, op)] := by
  induction run generalizing c with
  | nil => rfl
  | cons first run ih => exact congrArg ((c, first) :: ·) (ih _)

theorem inRange_after {run : List Op} (hrun : ∀ op ∈ run, op.RecipeCounts) :
    (({} : SimulatedModel).after run).InRange := by
  induction run using List.reverseRecOn with
  | nil => exact ⟨by norm_num [after], by norm_num [after]⟩
  | append_singleton run op ih =>
      obtain ⟨hearlier, hop⟩ := List.forall_mem_append.mp hrun
      rw [after_concat]
      exact inRange_step (ih hearlier) (hop op List.mem_cons_self)

theorem throughputMeter_after (c : SimulatedModel) (run : List Op) :
    (c.after run).throughputMeter = (c.meterCalls run).foldl MeterCall.apply c.throughputMeter := by
  induction run generalizing c with
  | nil => rfl
  | cons op run ih =>
      rw [after_cons, ih, step_throughputMeter, ← List.foldl_append]
      rfl

theorem meterCalls_concat (c : SimulatedModel) (run : List Op) (op : Op) :
    c.meterCalls (run ++ [op]) = c.meterCalls run ++ op.meterCalls (c.after run) := by
  rw [meterCalls, steps_concat, List.flatMap_append, List.flatMap_singleton]
  rfl

theorem meterCalls_of_restarts {c : SimulatedModel} {op : Op} (hop : op.restarts) :
    op.meterCalls c = [.clear] := by
  cases op with
  | resetSystem => rfl
  | loadProduct product recipe => rfl
  | _ => cases hop

theorem not_clear_of_not_restarts {c : SimulatedModel} {op : Op} (hop : op.restarts = false) :
    ∀ call ∈ op.meterCalls c, decide (call = .clear) = false := by
  intro call hcall
  refine decide_eq_false ?_
  rintro rfl
  rw [clear_mem_meterCalls.mp hcall] at hop
  cases hop

/-- What the meter was told of since it was cleared are the rollovers since the last fresh
start. -/
theorem completionsSinceClear_meterCalls {run : List Op} (hrun : ∀ op ∈ run, op.RecipeCounts) :
    completionsSinceClear (meterCalls {} run) = rolloversSinceRestart {} run := by
  induction run using List.reverseRecOn with
  | nil => rfl
  | append_singleton run op ih =>
      obtain ⟨hearlier, -⟩ := List.forall_mem_append.mp hrun
      rw [meterCalls_concat, completionsSinceClear, rolloversSinceRestart, steps_concat,
        sinceLast_concat]
      cases hrestarts : op.restarts with
      | true => rw [meterCalls_of_restarts hrestarts, sinceLast_concat]; rfl
      | false =>
          rw [sinceLast_append_of_not _ (not_clear_of_not_restarts hrestarts),
            List.filterMap_append, filterMap_meterCalls (inRange_after hearlier)]
          refine (congrArg (· ++ _) (ih hearlier)).trans ?_
          rw [if_neg Bool.false_ne_true, List.filterMap_append, rolloversSinceRestart]
          rfl

/-! ## Work-unit ids -/

theorem workUnitSequence_step (c : SimulatedModel) (op : Op) :
    (c.step op).1.workUnitSequence = match op with
      | .loadProduct _ _ => (c.workUnitSequence + 1) % 2 ^ 64
      | _ => c.workUnitSequence := by
  cases op with
  | startProduction => exact (congrArg workUnitSequence c.startProduction_keeps).trans rfl
  | setEquipmentEnabled id enabled =>
      exact (congrArg workUnitSequence (c.changeEquipment_keeps id _)).trans rfl
  | setEquipmentSupplyLevel id level =>
      exact (congrArg workUnitSequence (c.changeEquipment_keeps id _)).trans rfl
  | setQualityPassRate id rate =>
      exact (congrArg workUnitSequence (c.setQualityPassRate_keeps id rate)).trans rfl
  | loadProduct product recipe =>
      exact (congrArg workUnitSequence (c.loadProduct_keeps product recipe)).trans rfl
  | tickSimulation draws now =>
      exact (congrArg workUnitSequence (c.tickSimulation_keeps draws now)).trans rfl
  | republishAll => exact (congrArg workUnitSequence c.republishAll_keeps).trans rfl
  | initializeDemoData => exact (congrArg workUnitSequence c.initializeDemoData_keeps).trans rfl
  | _ => rfl

/-- The id that the load after `loads` others generates. -/
def workUnitId (loads : Nat) : String := "WU-" ++ toString ((2024000000 + loads + 1) % 2 ^ 64)

theorem workUnitId_loadProduct (c : SimulatedModel) (product : Product) (recipe : Recipe) :
    (c.loadProduct product recipe).1.currentWorkUnit.workUnitId =
      "WU-" ++ toString ((c.workUnitSequence + 1) % 2 ^ 64) := by
  simp only [loadProduct, andThen_fst, notifyQualityChanges_keys]

theorem generatedIds_concat (c : SimulatedModel) (run : List Op) (op : Op) :
    c.generatedIds (run ++ [op]) = c.generatedIds run ++ match op with
      | .loadProduct _ _ => ["WU-" ++ toString (((c.after run).workUnitSequence + 1) % 2 ^ 64)]
      | _ => [] := by
  rw [generatedIds, steps_concat, List.filterMap_append]
  cases op with
  | loadProduct product recipe =>
      exact congrArg (fun id => _ ++ [id]) (workUnitId_loadProduct _ product recipe)
  | _ => rfl

theorem workUnitSequence_after (run : List Op) :
    (({} : SimulatedModel).after run).workUnitSequence =
      (2024000000 + (generatedIds {} run).length) % 2 ^ 64 := by
  induction run using List.reverseRecOn with
  | nil => rfl
  | append_singleton run op ih =>
      rw [after_concat, workUnitSequence_step, generatedIds_concat]
      cases op with
      | loadProduct product recipe =>
          rw [ih, List.length_append, List.length_singleton, Nat.mod_add_mod, Nat.add_assoc]
      | _ => simpa using ih

/-- The ids are numbered on from the base. -/
theorem generatedIds_eq (run : List Op) :
    generatedIds {} run = (List.range (generatedIds {} run).length).map workUnitId := by
  induction run using List.reverseRecOn with
  | nil => rfl
  | append_singleton run op ih =>
      rw [generatedIds_concat]
      cases op with
      | loadProduct product recipe =>
          rw [List.length_append, List.length_singleton, List.range_succ, List.map_append, ← ih,
            workUnitSequence_after, Nat.mod_add_mod]
          rfl
      | _ => simpa using ih

theorem workUnitId_injOn {i j : Nat} (hi : i < 2 ^ 63) (hj : j < 2 ^ 63)
    (h : workUnitId i = workUnitId j) : i = j := by
  have hnumber := Numeral.toString_injective ((String.append_right_inj "WU-").mp h)
  omega

/-- The id of the demonstration has a dash where the others have digits only. -/
theorem workUnitId_ne_demo (i : Nat) : "WU-2024-001234" ≠ workUnitId i := by
  intro h
  have hnumber : "2024-001234" = toString ((2024000000 + i + 1) % 2 ^ 64) :=
    (String.append_right_inj "WU-").mp h
  have hdigits := Numeral.nat_digits ((2024000000 + i + 1) % 2 ^ 64)
  rw [← hnumber] at hdigits
  exact absurd (hdigits 45 (by decide)) (by decide)

/-- Fewer than `2 ^ 63` loads generate ids that all differ. -/
theorem nodup_generatedIds {run : List Op} (hloads : (generatedIds {} run).length < 2 ^ 63) :
    ("WU-2024-001234" :: generatedIds {} run).Nodup := by
  rw [generatedIds_eq run, List.nodup_cons]
  constructor
  · intro hmem
    obtain ⟨i, -, hi⟩ := List.mem_map.mp hmem
    exact workUnitId_ne_demo i hi.symm
  · refine List.nodup_range.map_on fun i hi j hj hsame => ?_
    exact workUnitId_injOn ((List.mem_range.mp hi).trans hloads)
      ((List.mem_range.mp hj).trans hloads) hsame

/-! ## The law -/

/-- Every run in which loaded recipes have a number of operations obeys the law. -/
theorem progress_law (run : List Op) (hrun : ∀ op ∈ run, op.RecipeCounts) : ProgressLaw run where
  inRange := inRange_after hrun
  progress := by
    rintro before op later rfl hop
    exact progress_step (inRange_after (List.forall_mem_append.mp hrun).1) hop
  told := by
    rintro before op later rfl
    exact filterMap_meterCalls (inRange_after (List.forall_mem_append.mp hrun).1) op
  completions := completionsSinceClear_meterCalls hrun
  meter := throughputMeter_after {} run
  ids := nodup_generatedIds

/-- Two operations are done and the third tick rolls over, twice with a fault in between. -/
def twoOperations : List Op :=
  let draws : Draws := ⟨fun _ => 1 / 4, fun _ => 3, fun _ => by norm_num [kQualityRateJitter],
    fun _ => by norm_num [kMinUnitsPerTick, kMaxUnitsPerTick]⟩
  [.initializeDemoData, .startProduction, .loadProduct ⟨"TAB-200", "Tablet"⟩ ⟨2, []⟩,
    .tickSimulation draws 0, .tickSimulation draws 1, .tickSimulation draws 2,
    .triggerFault "jam", .tickSimulation draws 3, .tickSimulation draws 4,
    .tickSimulation draws 5]

theorem progress_law_demo :
    ProgressLaw twoOperations ∧ rolloversSinceRestart {} twoOperations = [2, 5] :=
  ⟨progress_law _ (by simp [twoOperations, Op.RecipeCounts]), by decide +kernel⟩

end SimulatedModel

end Production
