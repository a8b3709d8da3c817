import IndustrialHmi.Model.ObserverTables
import IndustrialHmi.Presenter.DashboardAlarms

/-!
# Cards of the dashboard

The presenter makes a card of each report and hands it to the views.  Of a checkpoint, of the work
unit and of the state it asks the model again, so that a card shows what is stored when the
observers are called.  While the entities are identified that is what was reported (`card_eq`).

The overall effectiveness on the card of the work unit is left out: no view that is modelled
reads it.
-/

open Production

/-! ## View models -/

inductive EquipmentCardStatus where
  | Offline
  | StartingUp
  | CheckOutput
  | Online
  | Processing
  | WarmingUp
  | Ready
  | Reboot
  | Error
  | Disabled
  | Unknown
  deriving DecidableEq

inductive ActuatorCardStatus where
  | Offline
  | Idle
  | Working
  | Error
  | Homing
  | Calibrating
  | Unknown
  deriving DecidableEq

inductive ActiveControl where
  | None
  | Start
  | Stop
  | ResetRestart
  | Calibration
  deriving DecidableEq

structure WorkUnitViewModel where
  workUnitId : String
  productId : String
  productDescription : String
  progress : Binary32
  totalOperations : Nat
  completedOperations : Nat
  throughputUph : ℚ
  statusMessage : String
  isTestMode : Bool := false
  hasErrors : Bool := false

structure EquipmentCardViewModel where
  equipmentId : Nat
  status : EquipmentCardStatus := .Unknown
  consumables : String := ""
  enabled : Bool := false

structure ActuatorCardViewModel where
  actuatorId : Nat
  status : ActuatorCardStatus := .Unknown
  statusMessage : String := ""
  autoMode : Bool := false
  atHomePosition : Bool := false
  hasAlert : Bool := false
  alertMessage : String := ""

structure QualityCheckpointViewModel where
  checkpointId : Nat
  checkpointName : String
  status : QualityCheckpointStatus
  unitsInspected : ℤ
  defectsFound : ℤ
  passRate : Binary32
  targetPassRate : Binary32
  lastDefect : String

structure ControlPanelViewModel where
  activeButton : ActiveControl
  startEnabled : Bool
  stopEnabled : Bool
  resetRestartEnabled : Bool
  calibrationEnabled : Bool

/-- What a view is called with. -/
inductive Card where
  | workUnit (vm : WorkUnitViewModel)
  | equipment (vm : EquipmentCardViewModel)
  | actuator (vm : ActuatorCardViewModel)
  | quality (vm : QualityCheckpointViewModel)
  | controlPanel (vm : ControlPanelViewModel)

namespace DashboardCards

/-! ## Builders -/

/-- An `int` as an unsigned number of 32 bits. -/
def uint32 (i : ℤ) : Nat := (i % 2 ^ 32).toNat

def buildWorkUnitVM (wu : WorkUnit) : WorkUnitViewModel where
  workUnitId := wu.workUnitId
  productId := wu.productId
  productDescription := wu.description
  completedOperations := uint32 wu.completedOperations
  totalOperations := uint32 wu.totalOperations
  throughputUph := wu.throughputUnitsPerHour
  progress :=
    if wu.totalOperations > 0 then
      (Binary32.ofInt wu.completedOperations).div (.ofInt wu.totalOperations)
    else .fin 0
  statusMessage :=
    if wu.completedOperations < wu.totalOperations then
      "Processing operation " ++ toString (wu.completedOperations + 1) ++ "..."
    else "Complete"

section Texts

variable (catalog : TextCatalog)

def buildEquipmentVM (equipmentId : Nat) (status : ℤ) : EquipmentCardViewModel :=
  if status = 0 then
    { equipmentId, status := .Offline, consumables := catalog.gettext "Not connected"
      enabled := false }
  else if status = 1 then
    { equipmentId, status := .Online, consumables := catalog.gettext "Supply level: 85%"
      enabled := true }
  else if status = 2 then
    { equipmentId, status := .Processing, consumables := catalog.gettext "Supply level: 60%"
      enabled := true }
  else if status = 3 then
    { equipmentId, status := .Error, consumables := catalog.gettext "Low supply (12%)"
      enabled := false }
  else { equipmentId }

def buildActuatorVM (actuatorId : Nat) (status : ℤ) : ActuatorCardViewModel :=
  if status = 0 then
    { actuatorId, status := .Idle, statusMessage := catalog.gettext "Idle - At home position"
      autoMode := true, atHomePosition := true, hasAlert := false }
  else if status = 1 then
    { actuatorId, status := .Working
      statusMessage := catalog.gettext "Working - Position X:150 Y:200"
      autoMode := true, atHomePosition := false, hasAlert := false }
  else if status = 2 then
    { actuatorId, status := .Error, statusMessage := catalog.gettext "Error - Position fault"
      autoMode := true, atHomePosition := false, hasAlert := true
      alertMessage := catalog.gettext "Position timeout detected" }
  else { actuatorId }

end Texts

def buildQualityCheckpointVM (checkpointId : Nat) (cp : QualityCheckpoint) :
    QualityCheckpointViewModel where
  checkpointId
  checkpointName := cp.name
  unitsInspected := cp.unitsInspected
  defectsFound := cp.defectsFound
  passRate := cp.passRate
  targetPassRate := cp.passRateTarget
  lastDefect := cp.lastDefect
  status := checkpointStatus cp

def buildControlPanelVM : SystemState → ControlPanelViewModel
  | .IDLE => ⟨.None, true, false, true, true⟩
  | .RUNNING => ⟨.Start, false, true, false, false⟩
  | .ERROR => ⟨.None, false, false, true, false⟩
  | .CALIBRATION => ⟨.Calibration, false, true, false, false⟩

/-! ## The handlers -/

variable (catalog : TextCatalog)

/-- The card that the views are handed for a report of the model, which the handler may ask again;
`at` throws for a checkpoint that is not stored. -/
def handle (c : SimulatedModel) : Notification → Option Card
  | .equipment status =>
      some (.equipment (buildEquipmentVM catalog status.equipmentId status.status))
  | .actuator status =>
      some (.actuator (buildActuatorVM catalog status.actuatorId status.status))
  | .quality checkpoint =>
      c.qualityCheckpoints[checkpoint.checkpointId]?.map fun cp =>
        .quality (buildQualityCheckpointVM checkpoint.checkpointId cp)
  | .workUnit _ => some (.workUnit (buildWorkUnitVM c.currentWorkUnit))
  | .systemState _ => some (.controlPanel (buildControlPanelVM c.stateMachine.state))

/-- The card that shows what was reported. -/
def card : Notification → Card
  | .equipment status => .equipment (buildEquipmentVM catalog status.equipmentId status.status)
  | .actuator status => .actuator (buildActuatorVM catalog status.actuatorId status.status)
  | .quality cp => .quality (buildQualityCheckpointVM cp.checkpointId cp)
  | .workUnit wu => .workUnit (buildWorkUnitVM wu)
  | .systemState state => .controlPanel (buildControlPanelVM state)

/-- What a step reports is what the model then stores. -/
theorem card_eq {c : SimulatedModel} (hc : SystemStateMachine.UpToDate c.stateMachine)
    {op : SimulatedModel.Op} (hident : (c.step op).1.Identified) {sent : Notification}
    (hsent : sent ∈ (c.step op).2) :
    handle catalog (c.step op).1 sent = some (card catalog sent) := by
  cases sent with
  | equipment status => rfl
  | actuator status => rfl
  | quality checkpoint =>
      obtain ⟨k, hk⟩ := (SimulatedModel.quality_step c op).stored hsent
      have hown : (c.step op).1.qualityCheckpoints[checkpoint.checkpointId]? = some checkpoint := by
        rw [hident.quality k checkpoint hk]
        exact hk
      rw [handle, hown]
      rfl
  | workUnit unit =>
      obtain ⟨-, hunit⟩ := (SimulatedModel.workUnit_step c op).stored hsent
      rw [handle, Option.some.inj hunit]
      rfl
  | systemState state =>
      obtain ⟨-, hstate⟩ := (SimulatedModel.state_step hc op).stored hsent
      rw [handle, Option.some.inj hstate]
      rfl

/-- While the entities are identified no handler throws, and the cards show what was reported. -/
theorem cards_eq {c : SimulatedModel} (hc : SystemStateMachine.UpToDate c.stateMachine)
    {op : SimulatedModel.Op} (hident : (c.step op).1.Identified) :
    (c.step op).2.filterMap (handle catalog (c.step op).1) = (c.step op).2.map (card catalog) := by
  have hall := List.filterMap_congr fun sent hsent => card_eq catalog hc hident hsent
  rw [← List.filterMap_eq_map, hall]
  rfl

/-! ## Keys -/

section Maps

variable {ν ν' : Type} {m m' : IdMap ν}

/-- The keys are in the order of the ids. -/
theorem keys_congr (h : ∀ k, k ∈ m ↔ k ∈ m') : m.keys = m'.keys := by
  have hlt : ∀ a b : Nat, compare a b = .lt ↔ a < b := fun _ _ => Nat.compare_eq_lt
  have hsorted : ∀ n : IdMap ν, n.keys.Pairwise (· < ·) := fun n =>
    n.ordered_keys.imp fun h => (hlt _ _).mp h
  refine List.Pairwise.eq_of_mem_iff (hsorted m) (hsorted m') fun k => ?_
  rw [Std.ExtTreeMap.mem_keys, Std.ExtTreeMap.mem_keys, h]

theorem map_key_toList {image : Nat → ν → ν'} {keyOf : ν' → Nat}
    (hkey : ∀ id v, keyOf (image id v) = id) (m : IdMap ν) :
    (m.toList.map fun entry => image entry.1 entry.2).map keyOf = m.keys := by
  rw [List.map_map, ← Std.ExtTreeMap.map_fst_toList_eq_keys]
  exact List.map_congr_left fun entry _ => hkey entry.1 entry.2

theorem find_toList {image : Nat → ν → ν'} {keyOf : ν' → Nat}
    (hkey : ∀ id v, keyOf (image id v) = id) (m : IdMap ν) (k : Nat) :
    FirstMatch.find keyOf (m.toList.map fun entry => image entry.1 entry.2) k =
      (m.entry k).map (image k) := by
  have hkeys := map_key_toList hkey m
  cases hk : m.entry k with
  | none =>
      rw [Option.map_none, FirstMatch.find_eq_none, hkeys, Std.ExtTreeMap.mem_keys]
      intro hmem
      rw [IdMap.entry, Std.ExtTreeMap.getElem?_eq_some_getElem hmem] at hk
      cases hk
  | some v =>
      have hmem : image k v ∈ m.toList.map fun entry => image entry.1 entry.2 :=
        List.mem_map.mpr ⟨(k, v), Std.ExtTreeMap.mem_toList_iff_getElem?_eq_some.mpr hk, rfl⟩
      have hnodup : ((m.toList.map fun entry => image entry.1 entry.2).map keyOf).Nodup :=
        hkeys ▸ Std.ExtTreeMap.nodup_keys
      have hfind := FirstMatch.find_of_mem hnodup hmem
      rwa [hkey] at hfind

end Maps

@[simp] theorem equipmentId_buildEquipmentVM (equipmentId : Nat) (status : ℤ) :
    (buildEquipmentVM catalog equipmentId status).equipmentId = equipmentId := by
  simp only [buildEquipmentVM]
  split_ifs <;> rfl

@[simp] theorem checkpointId_buildQualityCheckpointVM (checkpointId : Nat)
    (cp : QualityCheckpoint) :
    (buildQualityCheckpointVM checkpointId cp).checkpointId = checkpointId := rfl

end DashboardCards
