import IndustrialHmi.Model.ProductionTypes

/-!
# The mirror model

The secondary station stores what the bridge forwards and runs no simulation.  Its
setters look an id up and drop one that is not there.  Each gives the model after it and
the record its observers are called with.
-/

namespace Production

structure MirrorModel where
  equipment : IdMap EquipmentStatus
  quality : IdMap QualityCheckpoint

namespace MirrorModel

def kMinSupplyLevel : ℤ := 0
def kMaxSupplyLevel : ℤ := 100
def kMinPassRate : Binary32 := .fin 0
def kMaxPassRate : Binary32 := .fin 100
def kDefaultStatus : ℤ := 1
def kDefaultSupplyLevel : ℤ := 100
def kDefaultPassRate : Binary32 := .fin 100

def kDefaultCheckpointNames : List String := ["Weight Check", "Hardness Test", "Final Inspection"]

/-- A new model with ids from zero on. -/
def create (equipmentCount qualityCount : Nat) : MirrorModel where
  equipment := (List.range equipmentCount).foldl
    (fun m i => m.insert i
      { equipmentId := i, status := kDefaultStatus, supplyLevel := kDefaultSupplyLevel }) ∅
  quality := (List.range qualityCount).foldl
    (fun m i => m.insert i
      { checkpointId := i
        name := kDefaultCheckpointNames[i]?.getD ("Checkpoint " ++ toString (i + 1))
        passRate := kDefaultPassRate }) ∅

/-- A change of one equipment, if it is there. -/
def changeEquipment (m : MirrorModel) (equipmentId : Nat) (f : EquipmentStatus → EquipmentStatus) :
    MirrorModel × Option EquipmentStatus :=
  let equipment := m.equipment.modify equipmentId f
  ({ m with equipment := equipment }, equipment[equipmentId]?)

def setEquipmentEnabled (m : MirrorModel) (equipmentId : Nat) (enabled : Bool) :
    MirrorModel × Option EquipmentStatus :=
  m.changeEquipment equipmentId fun status => { status with status := if enabled then 1 else 0 }

def setEquipmentSupplyLevel (m : MirrorModel) (equipmentId : Nat) (level : ℤ) :
    MirrorModel × Option EquipmentStatus :=
  let level := max kMinSupplyLevel (min level kMaxSupplyLevel)
  m.changeEquipment equipmentId fun status => { status with supplyLevel := level }

def setQualityPassRate (m : MirrorModel) (checkpointId : Nat) (rate : Binary32) :
    MirrorModel × Option QualityCheckpoint :=
  let rate := rate.clamp kMinPassRate kMaxPassRate
  let quality := m.quality.modify checkpointId fun cp => { cp with passRate := rate }
  ({ m with quality := quality }, quality[checkpointId]?)

end MirrorModel

end Production
