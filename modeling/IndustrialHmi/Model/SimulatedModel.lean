import IndustrialHmi.Model.ProductionTypes
import IndustrialHmi.Model.SystemStateMachine

/-!
# The simulated production model

Every public operation gives the model after it and what the observers are called with,
in order.  Observers are taken not to call the model back.  Values of type `float` are
single-precision numbers, the others exact.
-/

namespace Production

open SystemStateMachine

/-- A call of the observers of one subject. -/
inductive Notification where
  | equipment (status : EquipmentStatus)
  | actuator (status : ActuatorStatus)
  | quality (checkpoint : QualityCheckpoint)
  | workUnit (workUnit : WorkUnit)
  | systemState (state : SystemState)
  deriving DecidableEq

structure SimulatedModel where
  equipmentStatuses : IdMap EquipmentStatus := ∅
  actuatorStatuses : IdMap ActuatorStatus := ∅
  qualityCheckpoints : IdMap QualityCheckpoint := ∅
  /-- The checkpoints whose pass rate belongs to an external writer. -/
  externalPassRateOverrides : List Nat := []
  currentWorkUnit : WorkUnit := {}
  stateMachine : SystemStateMachine := {}
  throughputMeter : ThroughputMeter := {}
  workUnitSequence : Nat := 2024000000

/-- What an operation does: the model after it and the calls of observers. -/
abbrev Effect := SimulatedModel × List Notification

/-- One operation after another. -/
def Effect.andThen (e : Effect) (next : SimulatedModel → Effect) : Effect :=
  ((next e.1).1, e.2 ++ (next e.1).2)

namespace SimulatedModel

def kEquipmentCount : Nat := 4
def kQualityRateJitter : ℚ := 10066330 / 2 ^ 25
def kMinUnitsPerTick : ℤ := 1
def kMaxUnitsPerTick : ℤ := 3
def kQualityRateMin : Binary32 := .fin 85
def kQualityRateMax : Binary32 := .fin 100
def kSupplyLevelMin : ℤ := 0
def kSupplyLevelMax : ℤ := 100
def kEquipmentStatusProcessing : ℤ := 2
def kEquipmentStatusOnline : ℤ := 1
def kEquipmentStatusOffline : ℤ := 0
def kBLineId : Nat := 1

/-! ## Notifying -/

def notifyEquipmentChange (c : SimulatedModel) (equipmentId : Nat) : List Notification :=
  c.equipmentStatuses[equipmentId]?.toList.map .equipment

def notifyActuatorChange (c : SimulatedModel) (actuatorId : Nat) : List Notification :=
  c.actuatorStatuses[actuatorId]?.toList.map .actuator

/-- There is no test here that the checkpoint exists. -/
def notifyQualityChange (c : SimulatedModel) (id : Nat) : Effect :=
  let c := { c with qualityCheckpoints := c.qualityCheckpoints.subscript id fun cp => cp }
  (c, c.qualityCheckpoints[id]?.toList.map .quality)

def notifyWorkUnitChange (c : SimulatedModel) : List Notification :=
  [.workUnit c.currentWorkUnit]

def notifyStateChange (c : SimulatedModel) : List Notification :=
  [.systemState c.stateMachine.state]

def notifyQualityChanges (c : SimulatedModel) (ids : List Nat) : Effect :=
  ids.foldl (fun e id => e.andThen (notifyQualityChange · id)) (c, [])

/-! ## Commands -/

/-- A command of the state machine; the model observes it. -/
def dispatch (c : SimulatedModel) (r : SystemStateMachine × List SystemState) : Effect :=
  let c := { c with stateMachine := r.1 }
  (c, r.2.flatMap fun _ => c.notifyStateChange)

def simulateProductionCycle (c : SimulatedModel) : Effect :=
  if c.currentWorkUnit.completedOperations < c.currentWorkUnit.totalOperations then
    let c := { c with
      currentWorkUnit :=
        { c.currentWorkUnit with
          completedOperations := c.currentWorkUnit.completedOperations + 1 } }
    let progress := c.notifyWorkUnitChange
    let c := { c with
      equipmentStatuses := c.equipmentStatuses.subscript kBLineId fun status =>
        { status with status := kEquipmentStatusProcessing } }
    (c, progress ++ c.notifyEquipmentChange kBLineId)
  else (c, [])

def startProduction (c : SimulatedModel) : Effect :=
  (c.dispatch c.stateMachine.start).andThen simulateProductionCycle

def stopProduction (c : SimulatedModel) : Effect := c.dispatch c.stateMachine.stop

def resetSystem (c : SimulatedModel) : Effect :=
  (c.dispatch c.stateMachine.reset).andThen fun c =>
    let c := { c with
      currentWorkUnit :=
        { c.currentWorkUnit with completedOperations := 0, throughputUnitsPerHour := 0 }
      throughputMeter := c.throughputMeter.clear }
    (c, c.notifyWorkUnitChange)

def startCalibration (c : SimulatedModel) : Effect := c.dispatch c.stateMachine.calibrate

def triggerFault (c : SimulatedModel) (reason : String) : Effect :=
  c.dispatch (c.stateMachine.fault reason)

/-- A change of one equipment status, for an id below the bound, and its notification. -/
def changeEquipment (c : SimulatedModel) (equipmentId : Nat)
    (f : EquipmentStatus → EquipmentStatus) : Effect :=
  if equipmentId ≥ kEquipmentCount then (c, [])
  else
    let c := { c with equipmentStatuses := c.equipmentStatuses.subscript equipmentId f }
    (c, c.notifyEquipmentChange equipmentId)

def setEquipmentEnabled (c : SimulatedModel) (equipmentId : Nat) (enabled : Bool) : Effect :=
  c.changeEquipment equipmentId fun status =>
    { status with
      status := if enabled then kEquipmentStatusOnline else kEquipmentStatusOffline }

def setEquipmentSupplyLevel (c : SimulatedModel) (equipmentId : Nat) (level : ℤ) : Effect :=
  let clamped := max kSupplyLevelMin (min level kSupplyLevelMax)
  c.changeEquipment equipmentId fun status => { status with supplyLevel := clamped }

def setQualityPassRate (c : SimulatedModel) (checkpointId : Nat) (rate : Binary32) : Effect :=
  if checkpointId ∉ c.qualityCheckpoints then (c, [])
  else
    let clamped := rate.clamp kQualityRateMin kQualityRateMax
    let c := { c with
      qualityCheckpoints := c.qualityCheckpoints.subscript checkpointId fun cp =>
        { cp with passRate := clamped }
      externalPassRateOverrides := c.externalPassRateOverrides.insert checkpointId }
    c.notifyQualityChange checkpointId

/-- The first target of the recipe for the checkpoint's name, else the target it has. -/
def recipeTarget (recipe : Recipe) (cp : QualityCheckpoint) : Binary32 :=
  match recipe.checkpointTargets.find? (·.checkpointName = cp.name) with
  | some target => target.passRateTarget
  | none => cp.passRateTarget

def loadProduct (c : SimulatedModel) (product : Product) (recipe : Recipe) : Effect :=
  let sequence := (c.workUnitSequence + 1) % 2 ^ 64
  let workUnitId := "WU-" ++ toString sequence
  let c := { c with
    workUnitSequence := sequence
    currentWorkUnit :=
      { workUnitId := workUnitId
        productId := product.productCode
        description := "Batch " ++ workUnitId ++ " | " ++ product.name
        completedOperations := 0
        totalOperations := recipe.totalOperations
        throughputUnitsPerHour := 0 }
    throughputMeter := c.throughputMeter.clear
    qualityCheckpoints := c.qualityCheckpoints.map fun _ cp =>
      { cp with
        unitsInspected := 0
        defectsFound := 0
        passRateTarget := recipeTarget recipe cp } }
  Effect.andThen (c, c.notifyWorkUnitChange) fun c =>
    c.notifyQualityChanges c.qualityCheckpoints.keys

/-! ## The simulation -/

/-- What the random generator gives each checkpoint in one tick. -/
structure Draws where
  rateDist : Nat → ℚ
  unitDist : Nat → ℤ
  rateDist_le : ∀ id, |rateDist id| ≤ kQualityRateJitter
  unitDist_mem : ∀ id, kMinUnitsPerTick ≤ unitDist id ∧ unitDist id ≤ kMaxUnitsPerTick

/-- The tick of one checkpoint. -/
def tickCheckpoint (c : SimulatedModel) (draws : Draws) (id : Nat) (cp : QualityCheckpoint) :
    QualityCheckpoint :=
  let passRate :=
    if id ∈ c.externalPassRateOverrides then cp.passRate
    else (cp.passRate.add (.fin (draws.rateDist id))).clamp kQualityRateMin kQualityRateMax
  { cp with
    passRate := passRate
    unitsInspected := cp.unitsInspected + draws.unitDist id }

def tickSimulation (c : SimulatedModel) (draws : Draws) (now : ℤ) : Effect :=
  let c := { c with qualityCheckpoints := c.qualityCheckpoints.map (c.tickCheckpoint draws) }
  let c :=
    if c.currentWorkUnit.completedOperations < c.currentWorkUnit.totalOperations then
      { c with
        currentWorkUnit :=
          { c.currentWorkUnit with
            completedOperations := c.currentWorkUnit.completedOperations + 1 } }
    else
      { c with
        currentWorkUnit := { c.currentWorkUnit with completedOperations := 0 }
        throughputMeter := c.throughputMeter.recordCompletion now }
  let (meter, rate) := c.throughputMeter.unitsPerHour now
  let c := { c with
    throughputMeter := meter
    currentWorkUnit := { c.currentWorkUnit with throughputUnitsPerHour := rate } }
  (c.notifyQualityChanges c.qualityCheckpoints.keys).andThen fun c =>
    (c, c.notifyWorkUnitChange)

def republishAll (c : SimulatedModel) : Effect :=
  let equipment := c.equipmentStatuses.keys.flatMap c.notifyEquipmentChange
  let actuators := c.actuatorStatuses.keys.flatMap c.notifyActuatorChange
  Effect.andThen (c, equipment ++ actuators) fun c =>
    (c.notifyQualityChanges c.qualityCheckpoints.keys).andThen fun c =>
      (c, c.notifyWorkUnitChange ++ c.notifyStateChange)

def initializeDemoData (c : SimulatedModel) : Effect :=
  let c := { c with
    equipmentStatuses := c.equipmentStatuses
      |>.insert 0 ⟨0, 2, 85, "85K tablets/hr"⟩
      |>.insert 1 ⟨1, 1, 95, "Film coating"⟩
      |>.insert 2 ⟨2, 0, 0, "Standby"⟩
    actuatorStatuses := c.actuatorStatuses
      |>.insert 0 ⟨0, 1, 150, 200, true, false⟩
      |>.insert 1 ⟨1, 0, 0, 0, true, true⟩
    qualityCheckpoints := c.qualityCheckpoints
      |>.insert 0 { checkpointId := 0, name := "Weight Check", status := 0, unitsInspected := 645,
                    defectsFound := 12, passRate := .round (981 / 10),
                    lastDefect := "Underweight" }
      |>.insert 1 { checkpointId := 1, name := "Hardness Test", status := 0, unitsInspected := 645,
                    defectsFound := 28, passRate := .round (957 / 10),
                    lastDefect := "Soft tablet (65N)" }
      |>.insert 2 { checkpointId := 2, name := "Final Inspection", status := 1,
                    unitsInspected := 645, defectsFound := 45, passRate := .fin 93,
                    lastDefect := "Coating uneven" }
    currentWorkUnit :=
      { workUnitId := "WU-2024-001234"
        productId := "TAB-200"
        description := "Batch WU-2024-001234 | TAB-200"
        completedOperations := 3
        totalOperations := 5 } }
  (c.dispatch c.stateMachine.reset).andThen fun c =>
    Effect.andThen
      (c, c.equipmentStatuses.keys.flatMap c.notifyEquipmentChange ++
        c.actuatorStatuses.keys.flatMap c.notifyActuatorChange) fun c =>
      (c.notifyQualityChanges c.qualityCheckpoints.keys).andThen fun c =>
        (c, c.notifyWorkUnitChange ++ c.notifyStateChange)

/-! ## Runs -/

/-- A call of a public operation. -/
inductive Op where
  | startProduction
  | stopProduction
  | resetSystem
  | startCalibration
  | setEquipmentEnabled (equipmentId : Nat) (enabled : Bool)
  | setEquipmentSupplyLevel (equipmentId : Nat) (level : ℤ)
  | setQualityPassRate (checkpointId : Nat) (rate : Binary32)
  | loadProduct (product : Product) (recipe : Recipe)
  | triggerFault (reason : String)
  | tickSimulation (draws : Draws) (now : ℤ)
  | republishAll
  | notifyQualityChange (id : Nat)
  | notifyWorkUnitChange
  | initializeDemoData

def step (c : SimulatedModel) : Op → Effect
  | .startProduction => c.startProduction
  | .stopProduction => c.stopProduction
  | .resetSystem => c.resetSystem
  | .startCalibration => c.startCalibration
  | .setEquipmentEnabled id enabled => c.setEquipmentEnabled id enabled
  | .setEquipmentSupplyLevel id level => c.setEquipmentSupplyLevel id level
  | .setQualityPassRate id rate => c.setQualityPassRate id rate
  | .loadProduct product recipe => c.loadProduct product recipe
  | .triggerFault reason => c.triggerFault reason
  | .tickSimulation draws now => c.tickSimulation draws now
  | .republishAll => c.republishAll
  | .notifyQualityChange id => c.notifyQualityChange id
  | .notifyWorkUnitChange => (c, c.notifyWorkUnitChange)
  | .initializeDemoData => c.initializeDemoData

/-- The model after a run of operations. -/
def after (c : SimulatedModel) (ops : List Op) : SimulatedModel :=
  ops.foldl (fun c op => (c.step op).1) c

@[simp] theorem after_nil (c : SimulatedModel) : c.after [] = c := rfl

@[simp] theorem after_cons (c : SimulatedModel) (op : Op) (ops : List Op) :
    c.after (op :: ops) = (c.step op).1.after ops := rfl

theorem after_append (c : SimulatedModel) (ops ops' : List Op) :
    c.after (ops ++ ops') = (c.after ops).after ops' := List.foldl_append

theorem after_concat (c : SimulatedModel) (ops : List Op) (op : Op) :
    c.after (ops ++ [op]) = ((c.after ops).step op).1 := c.after_append ops [op]

/-! ## What an operation changes -/

/-- Notifying checkpoints that exist changes nothing. -/
theorem foldl_notifyQualityChange (c : SimulatedModel) (ids : List Nat)
    (hids : ∀ id ∈ ids, id ∈ c.qualityCheckpoints) (sent : List Notification) :
    ids.foldl (fun e id => Effect.andThen e (notifyQualityChange · id)) (c, sent) =
      (c, sent ++ ids.flatMap fun id => c.qualityCheckpoints[id]?.toList.map .quality) := by
  induction ids generalizing sent with
  | nil => simp
  | cons id ids ih =>
      have hid : id ∈ c.qualityCheckpoints := hids id List.mem_cons_self
      have hone : Effect.andThen (c, sent) (notifyQualityChange · id) =
          (c, sent ++ c.qualityCheckpoints[id]?.toList.map .quality) := by
        simp [Effect.andThen, notifyQualityChange, IdMap.subscript_of_mem hid]
      rw [List.foldl_cons, hone, ih fun id' h => hids id' (List.mem_cons_of_mem id h),
        List.flatMap_cons, List.append_assoc]

@[simp] theorem notifyQualityChanges_keys (c : SimulatedModel) :
    c.notifyQualityChanges c.qualityCheckpoints.keys =
      (c, c.qualityCheckpoints.keys.flatMap fun id =>
        c.qualityCheckpoints[id]?.toList.map .quality) :=
  c.foldl_notifyQualityChange _ (fun _ h => Std.ExtTreeMap.mem_keys.mp h) []

@[simp] theorem andThen_fst (e : Effect) (next : SimulatedModel → Effect) :
    (e.andThen next).1 = (next e.1).1 := rfl

@[simp] theorem andThen_snd (e : Effect) (next : SimulatedModel → Effect) :
    (e.andThen next).2 = e.2 ++ (next e.1).2 := rfl

@[simp] theorem dispatch_fst (c : SimulatedModel) (r : SystemStateMachine × List SystemState) :
    (c.dispatch r).1 = { c with stateMachine := r.1 } := rfl

/-! ### What an operation leaves alone -/

theorem startProduction_keeps (c : SimulatedModel) : c.startProduction.1 = { c with
    stateMachine := c.stateMachine.start.1
    currentWorkUnit := c.startProduction.1.currentWorkUnit
    equipmentStatuses := c.startProduction.1.equipmentStatuses } := by
  simp only [startProduction, simulateProductionCycle, andThen_fst]
  split <;> rfl

theorem changeEquipment_keeps (c : SimulatedModel) (id : Nat)
    (f : EquipmentStatus → EquipmentStatus) : (c.changeEquipment id f).1 =
      { c with equipmentStatuses := (c.changeEquipment id f).1.equipmentStatuses } := by
  simp only [changeEquipment]
  split <;> rfl

theorem setQualityPassRate_keeps (c : SimulatedModel) (id : Nat) (rate : Binary32) :
    (c.setQualityPassRate id rate).1 = { c with
      qualityCheckpoints := (c.setQualityPassRate id rate).1.qualityCheckpoints
      externalPassRateOverrides :=
        (c.setQualityPassRate id rate).1.externalPassRateOverrides } := by
  simp only [setQualityPassRate, notifyQualityChange]
  split <;> rfl

theorem loadProduct_keeps (c : SimulatedModel) (product : Product) (recipe : Recipe) :
    (c.loadProduct product recipe).1 = { c with
      workUnitSequence := (c.workUnitSequence + 1) % 2 ^ 64
      throughputMeter := c.throughputMeter.clear
      currentWorkUnit := (c.loadProduct product recipe).1.currentWorkUnit
      qualityCheckpoints := (c.loadProduct product recipe).1.qualityCheckpoints } := by
  simp only [loadProduct, andThen_fst, notifyQualityChanges_keys]

theorem tickSimulation_keeps (c : SimulatedModel) (draws : Draws) (now : ℤ) :
    (c.tickSimulation draws now).1 = { c with
      throughputMeter := (c.tickSimulation draws now).1.throughputMeter
      currentWorkUnit := (c.tickSimulation draws now).1.currentWorkUnit
      qualityCheckpoints := c.qualityCheckpoints.map (c.tickCheckpoint draws) } := by
  simp only [tickSimulation, andThen_fst, notifyQualityChanges_keys]
  split <;> rfl

theorem republishAll_keeps (c : SimulatedModel) : c.republishAll.1 = c := by
  simp only [republishAll, andThen_fst, notifyQualityChanges_keys]

theorem initializeDemoData_keeps (c : SimulatedModel) : c.initializeDemoData.1 = { c with
    stateMachine := c.stateMachine.reset.1
    equipmentStatuses := c.initializeDemoData.1.equipmentStatuses
    actuatorStatuses := c.initializeDemoData.1.actuatorStatuses
    qualityCheckpoints := c.initializeDemoData.1.qualityCheckpoints
    currentWorkUnit := c.initializeDemoData.1.currentWorkUnit } := by
  simp only [initializeDemoData, andThen_fst, notifyQualityChanges_keys, dispatch_fst]

/-! ### The parts -/

/-- What an operation makes the state machine do. -/
def Op.command (m : SystemStateMachine) : Op → SystemStateMachine
  | .startProduction => m.start.1
  | .stopProduction => m.stop.1
  | .resetSystem | .initializeDemoData => m.reset.1
  | .startCalibration => m.calibrate.1
  | .triggerFault reason => (m.fault reason).1
  | _ => m

theorem step_stateMachine (c : SimulatedModel) (op : Op) :
    (c.step op).1.stateMachine = op.command c.stateMachine := by
  cases op with
  | startProduction => exact (congrArg stateMachine c.startProduction_keeps).trans rfl
  | setEquipmentEnabled id enabled =>
      exact (congrArg stateMachine (c.changeEquipment_keeps id _)).trans rfl
  | setEquipmentSupplyLevel id level =>
      exact (congrArg stateMachine (c.changeEquipment_keeps id _)).trans rfl
  | setQualityPassRate id rate =>
      exact (congrArg stateMachine (c.setQualityPassRate_keeps id rate)).trans rfl
  | tickSimulation draws now =>
      exact (congrArg stateMachine (c.tickSimulation_keeps draws now)).trans rfl
  | loadProduct product recipe =>
      exact (congrArg stateMachine (c.loadProduct_keeps product recipe)).trans rfl
  | initializeDemoData => exact (congrArg stateMachine c.initializeDemoData_keeps).trans rfl
  | republishAll => exact (congrArg stateMachine c.republishAll_keeps).trans rfl
  | _ => rfl

theorem mem_changeEquipment {c : SimulatedModel} {id k : Nat}
    {f : EquipmentStatus → EquipmentStatus}
    (h : k ∈ (c.changeEquipment id f).1.equipmentStatuses) :
    k ∈ c.equipmentStatuses ∨ k < kEquipmentCount := by
  simp only [changeEquipment] at h
  split at h
  next => exact .inl h
  next hrange =>
    rcases (IdMap.mem_subscript _ _ _ _).mp h with rfl | hold
    · exact .inr (not_le.mp hrange)
    · exact .inl hold

/-- The lines an operation adds are in the range of the setters. -/
theorem mem_equipmentStatuses_step {c : SimulatedModel} {op : Op} {k : Nat}
    (h : k ∈ (c.step op).1.equipmentStatuses) :
    k ∈ c.equipmentStatuses ∨ k < kEquipmentCount := by
  cases op with
  | startProduction =>
      simp only [step, startProduction, simulateProductionCycle, andThen_fst] at h
      split at h
      next =>
        rcases (IdMap.mem_subscript _ _ _ _).mp h with rfl | hold
        · exact .inr (by decide)
        · exact .inl hold
      next => exact .inl h
  | setEquipmentEnabled id enabled => exact mem_changeEquipment h
  | setEquipmentSupplyLevel id level => exact mem_changeEquipment h
  | setQualityPassRate id rate =>
      rw [step, setQualityPassRate_keeps] at h
      exact .inl h
  | loadProduct product recipe =>
      rw [step, loadProduct_keeps] at h
      exact .inl h
  | tickSimulation draws now =>
      rw [step, tickSimulation_keeps] at h
      exact .inl h
  | republishAll =>
      rw [step, republishAll_keeps] at h
      exact .inl h
  | initializeDemoData =>
      simp only [step, initializeDemoData, andThen_fst, notifyQualityChanges_keys, dispatch_fst,
        Std.ExtTreeMap.mem_insert, Nat.compare_eq_eq] at h
      rcases h with rfl | rfl | rfl | hold
      · exact .inr (by decide)
      · exact .inr (by decide)
      · exact .inr (by decide)
      · exact .inl hold
  | _ => exact .inl h

/-- An operation adds a checkpoint. -/
def Op.Creates (id : Nat) : Op → Prop
  | .initializeDemoData => id < 3
  | .notifyQualityChange id' => id' = id
  | _ => False

theorem mem_qualityCheckpoints_step (c : SimulatedModel) (op : Op) (k : Nat) :
    k ∈ (c.step op).1.qualityCheckpoints ↔ op.Creates k ∨ k ∈ c.qualityCheckpoints := by
  cases op with
  | startProduction =>
      rw [step, startProduction_keeps]
      exact Iff.of_eq (false_or _).symm
  | setEquipmentEnabled id enabled =>
      rw [step, setEquipmentEnabled, changeEquipment_keeps]
      exact Iff.of_eq (false_or _).symm
  | setEquipmentSupplyLevel id level =>
      rw [step, setEquipmentSupplyLevel, changeEquipment_keeps]
      exact Iff.of_eq (false_or _).symm
  | setQualityPassRate id rate =>
      simp only [step, setQualityPassRate, notifyQualityChange]
      split
      next => exact Iff.of_eq (false_or _).symm
      next hmem =>
        rw [not_not] at hmem
        have hold : id = k → k ∈ c.qualityCheckpoints := fun h => h ▸ hmem
        simp only [IdMap.mem_subscript, Op.Creates, false_or, or_iff_right_of_imp hold]
  | notifyQualityChange id => simp [step, notifyQualityChange, Op.Creates]
  | loadProduct product recipe => simp [step, loadProduct, Op.Creates]
  | tickSimulation draws now =>
      rw [step, tickSimulation_keeps]
      simp [Op.Creates]
  | republishAll =>
      rw [step, republishAll_keeps]
      exact Iff.of_eq (false_or _).symm
  | initializeDemoData =>
      have hthree : k < 3 ↔ 2 = k ∨ 1 = k ∨ 0 = k := by omega
      simp only [step, initializeDemoData, andThen_fst, notifyQualityChanges_keys, dispatch_fst,
        Std.ExtTreeMap.mem_insert, Nat.compare_eq_eq, Op.Creates, hthree, or_assoc]
  | _ => exact Iff.of_eq (false_or _).symm

end SimulatedModel

end Production
