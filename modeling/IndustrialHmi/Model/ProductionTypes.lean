import IndustrialHmi.Theory.Binary32

/-!
# Types of the production model

The records the models store and deliver, with the defaults of their fields, and the
maps from ids they are stored in.
-/

namespace Production

/-! ## Maps from ids -/

/-- A map from ids to records, in the order of the ids. -/
abbrev IdMap (ν : Type) := Std.ExtTreeMap Nat ν

namespace IdMap

variable {ν : Type} [Inhabited ν]

/-- `m[id]` followed by a change of the entry: one that is missing is created first, with
the default of every field. -/
def subscript (m : IdMap ν) (id : Nat) (f : ν → ν) : IdMap ν :=
  m.insert id (f (m[id]?.getD default))

theorem get_subscript (m : IdMap ν) (id : Nat) (f : ν → ν) (k : Nat) :
    (m.subscript id f)[k]? = if id = k then some (f (m[id]?.getD default)) else m[k]? := by
  simp [subscript, Std.ExtTreeMap.getElem?_insert]

@[simp] theorem get_subscript_self (m : IdMap ν) (id : Nat) (f : ν → ν) :
    (m.subscript id f)[id]? = some (f (m[id]?.getD default)) := by
  simp [get_subscript]

theorem get_subscript_of_ne (m : IdMap ν) {id k : Nat} (f : ν → ν) (h : id ≠ k) :
    (m.subscript id f)[k]? = m[k]? := by
  simp [get_subscript, h]

@[simp] theorem mem_subscript (m : IdMap ν) (id : Nat) (f : ν → ν) (k : Nat) :
    k ∈ m.subscript id f ↔ id = k ∨ k ∈ m := by
  simp [subscript]

/-- What is read of the entries, when the change leaves a value to be read. -/
theorem map_get_subscript {α : Type} {read : ν → α} {value : α} (m : IdMap ν) (id : Nat)
    {f : ν → ν} (hf : ∀ v, read (f v) = value) (k : Nat) :
    (m.subscript id f)[k]?.map read = if k = id then some value else m[k]?.map read := by
  by_cases hk : k = id
  · subst hk
    rw [if_pos rfl, get_subscript_self, Option.map_some, hf]
  · rw [if_neg hk, get_subscript_of_ne m f (Ne.symm hk)]

/-- An entry that is there is not created. -/
theorem subscript_eq_modify {m : IdMap ν} {id : Nat} (h : id ∈ m) (f : ν → ν) :
    m.subscript id f = m.modify id f := by
  refine Std.ExtTreeMap.ext_getElem? fun k => ?_
  rw [get_subscript, Std.ExtTreeMap.getElem?_modify]
  by_cases hk : id = k
  · subst hk
    rw [if_pos rfl, Std.ExtTreeMap.getElem?_eq_some_getElem h]
    simp
  · rw [if_neg hk, if_neg (by simpa using hk)]

/-- Reading an entry that is there changes nothing. -/
theorem subscript_of_mem {m : IdMap ν} {id : Nat} (h : id ∈ m) :
    m.subscript id (fun v => v) = m := by
  refine Std.ExtTreeMap.ext_getElem? fun k => ?_
  rw [get_subscript]
  by_cases hk : id = k
  · subst hk
    rw [if_pos rfl, Std.ExtTreeMap.getElem?_eq_some_getElem h, Option.getD_some]
  · rw [if_neg hk]

end IdMap

/-! ## Records -/

structure EquipmentStatus where
  equipmentId : Nat := 0
  /-- 0 offline, 1 online, 2 processing, 3 error. -/
  status : ℤ := 0
  supplyLevel : ℤ := 0
  message : String := ""
  deriving DecidableEq

structure ActuatorStatus where
  actuatorId : Nat := 0
  status : ℤ := 0
  posX : ℤ := 0
  posY : ℤ := 0
  autoMode : Bool := true
  atHome : Bool := true
  deriving DecidableEq

structure QualityCheckpoint where
  checkpointId : Nat := 0
  name : String := ""
  status : ℤ := 0
  unitsInspected : ℤ := 0
  defectsFound : ℤ := 0
  passRate : Binary32 := .fin 100
  lastDefect : String := ""
  passRateTarget : Binary32 := .fin 95
  deriving DecidableEq

structure WorkUnit where
  workUnitId : String := ""
  productId : String := ""
  description : String := ""
  completedOperations : ℤ := 0
  totalOperations : ℤ := 5
  throughputUnitsPerHour : ℚ := 0
  deriving DecidableEq

instance : Inhabited EquipmentStatus := ⟨{}⟩
instance : Inhabited QualityCheckpoint := ⟨{}⟩

/-- The fields of a product that loading it reads. -/
structure Product where
  productCode : String
  name : String

structure CheckpointTarget where
  checkpointName : String
  passRateTarget : Binary32 := .fin 0

/-- The fields of a recipe that loading it reads. -/
structure Recipe where
  totalOperations : ℤ := 5
  checkpointTargets : List CheckpointTarget

/-! ## The throughput meter

Time points are nanoseconds of the steady clock, the rate an exact number. -/

structure ThroughputMeter where
  window : ℤ := 120 * 10 ^ 9
  completions : List ℤ := []

namespace ThroughputMeter

def recordCompletion (m : ThroughputMeter) (now : ℤ) : ThroughputMeter :=
  { m with completions := m.completions ++ [now] }

def evictOlderThan (m : ThroughputMeter) (cutoff : ℤ) : ThroughputMeter :=
  { m with completions := m.completions.dropWhile (· < cutoff) }

/-- The rate over the window that ends now, and the meter without what fell out of it. -/
def unitsPerHour (m : ThroughputMeter) (now : ℤ) : ThroughputMeter × ℚ :=
  let m := m.evictOlderThan (now - m.window)
  if m.completions.length < 2 then (m, 0)
  else
    let seconds : ℚ := (m.completions.getLastD 0 - m.completions.headD 0 : ℤ) / 10 ^ 9
    if seconds ≤ 0 then (m, 0)
    else (m, (m.completions.length - 1 : ℤ) * 3600 / seconds)

def clear (m : ThroughputMeter) : ThroughputMeter := { m with completions := [] }

end ThroughputMeter

end Production
