import Mathlib.Data.List.Induction
import IndustrialHmi.Integration.ModbusPollLoop
import IndustrialHmi.Model.SimulatedModel

/-!
# The inbound bridges

The Modbus bridge is given register values, the OPC-UA bridge node values.  Both turn a
value into one setter of the model, unless it equals the last value they forwarded for
the same field of the same entity.  The last values are kept whatever became of them:
the model may have dropped a value, and another writer may have replaced it since.
-/

namespace Ingest

open Production Modbus

/-! ## The bridges -/

def kMaxTrackedEquipment : Nat := 16
def kMaxTrackedQuality : Nat := 16

/-- The last values a bridge has forwarded. -/
structure IngestCache where
  lastEnabled : IdMap Bool := ∅
  lastSupplyLevel : IdMap ℤ := ∅
  lastPassRate : IdMap Binary32 := ∅

namespace IngestCache

/-- A cache and the setter called, if any. -/
abbrev Outcome := IngestCache × Option SimulatedModel.Op

/-- The enabled bit of an equipment, as either bridge handles it. -/
def handleEnabled (cache : IngestCache) (id : Nat) (enabled : Bool) : Outcome :=
  if id ≥ kMaxTrackedEquipment then (cache, none)
  else if cache.lastEnabled[id]? = some enabled then (cache, none)
  else
    ({ cache with lastEnabled := cache.lastEnabled.insert id enabled },
      some (.setEquipmentEnabled id enabled))

/-- The supply level of an equipment, as either bridge handles it. -/
def handleSupplyLevel (cache : IngestCache) (id : Nat) (level : ℤ) : Outcome :=
  let set := some (.setEquipmentSupplyLevel id level)
  if id < kMaxTrackedEquipment then
    if cache.lastSupplyLevel[id]? = some level then (cache, none)
    else ({ cache with lastSupplyLevel := cache.lastSupplyLevel.insert id level }, set)
  else (cache, set)

/-- The pass rate of a checkpoint, as either bridge handles it.  A last rate that is not
a number equals nothing. -/
def handlePassRate (cache : IngestCache) (id : Nat) (rate : Binary32) : Outcome :=
  let set := some (.setQualityPassRate id rate)
  if id < kMaxTrackedQuality then
    if cache.lastPassRate[id]?.any (·.eq rate) then (cache, none)
    else ({ cache with lastPassRate := cache.lastPassRate.insert id rate }, set)
  else (cache, set)

end IngestCache

namespace ModbusIngestBridge

def onRegisterChanged (cache : IngestCache) (mapping : RegisterMapping) (rawValue : BitVec 16) :
    IngestCache.Outcome :=
  let id := mapping.entityId.toNat
  let scaled := (Binary32.ofInt rawValue.toNat).mul (.ofBits mapping.scale)
  match mapping.field with
  | .EquipmentEnabled => cache.handleEnabled id (rawValue ≠ 0)
  | .EquipmentSupplyLevel => cache.handleSupplyLevel id scaled.toInt
  | .QualityPassRate => cache.handlePassRate id scaled

end ModbusIngestBridge

namespace OpcUaIngestBridge

def kEquipmentStatusOffline : ℤ := 0

def onStatusNotification (cache : IngestCache) (id : Nat) (status : ℤ) : IngestCache.Outcome :=
  cache.handleEnabled id (status ≠ kEquipmentStatusOffline)

def onSupplyNotification (cache : IngestCache) (id : Nat) (supply : ℤ) : IngestCache.Outcome :=
  cache.handleSupplyLevel id supply

def onPassRateNotification (cache : IngestCache) (id : Nat) (rate : Binary32) :
    IngestCache.Outcome :=
  cache.handlePassRate id rate

end OpcUaIngestBridge

/-! ## Runs -/

/-- A notification of one of the bridges, or an operation of the model: its
initialisation, or a command of another writer. -/
inductive Event where
  | register (mapping : RegisterMapping) (rawValue : BitVec 16)
  | status (id : Nat) (status : ℤ)
  | supply (id : Nat) (supply : ℤ)
  | passRate (id : Nat) (rate : Binary32)
  | operation (op : SimulatedModel.Op)

/-- The model with both bridges. -/
structure System where
  model : SimulatedModel := {}
  modbus : IngestCache := {}
  opcua : IngestCache := {}

namespace System

def step (s : System) : Event → System
  | .register mapping rawValue =>
      let (cache, set) := ModbusIngestBridge.onRegisterChanged s.modbus mapping rawValue
      { s with model := s.model.after set.toList, modbus := cache }
  | .status id status =>
      let (cache, set) := OpcUaIngestBridge.onStatusNotification s.opcua id status
      { s with model := s.model.after set.toList, opcua := cache }
  | .supply id supply =>
      let (cache, set) := OpcUaIngestBridge.onSupplyNotification s.opcua id supply
      { s with model := s.model.after set.toList, opcua := cache }
  | .passRate id rate =>
      let (cache, set) := OpcUaIngestBridge.onPassRateNotification s.opcua id rate
      { s with model := s.model.after set.toList, opcua := cache }
  | .operation op => { s with model := (s.model.step op).1 }

def after (s : System) (events : List Event) : System := events.foldl step s

end System

/-! ## The run without the caches -/

/-- A value for a field of an entity. -/
inductive Reading where
  | enabled (id : Nat) (enabled : Bool)
  | supplyLevel (id : Nat) (level : ℤ)
  | passRate (id : Nat) (rate : Binary32)

/-- What a notification says. -/
def Event.reading : Event → Option Reading
  | .register mapping rawValue =>
      let id := mapping.entityId.toNat
      let scaled := (Binary32.ofInt rawValue.toNat).mul (.ofBits mapping.scale)
      match mapping.field with
      | .EquipmentEnabled => some (.enabled id (rawValue ≠ 0))
      | .EquipmentSupplyLevel => some (.supplyLevel id scaled.toInt)
      | .QualityPassRate => some (.passRate id scaled)
  | .status id code => some (.enabled id (code ≠ OpcUaIngestBridge.kEquipmentStatusOffline))
  | .supply id level => some (.supplyLevel id level)
  | .passRate id rate => some (.passRate id rate)
  | .operation _ => none

namespace Reading

/-- The setter a bridge calls for a value that it has not forwarded before. -/
def setter : Reading → Option SimulatedModel.Op
  | .enabled id bit =>
      if id ≥ kMaxTrackedEquipment then none else some (.setEquipmentEnabled id bit)
  | .supplyLevel id level => some (.setEquipmentSupplyLevel id level)
  | .passRate id rate => some (.setQualityPassRate id rate)

end Reading

/-- The call of the model that an event makes when the bridges have no cache. -/
def Event.call : Event → Option SimulatedModel.Op
  | .operation op => some op
  | e => e.reading.bind Reading.setter

/-- The model after a run without the caches. -/
def afterUncached (c : SimulatedModel) (events : List Event) : SimulatedModel :=
  c.after (events.filterMap Event.call)

/-- The cache of the bridge that is notified. -/
def System.cache (s : System) : Event → IngestCache
  | .register _ _ => s.modbus
  | _ => s.opcua

/-- The value is the last one forwarded for its field. -/
def IngestCache.Repeats (cache : IngestCache) : Reading → Prop
  | .enabled id enabled => id < kMaxTrackedEquipment ∧ cache.lastEnabled[id]? = some enabled
  | .supplyLevel id level => id < kMaxTrackedEquipment ∧ cache.lastSupplyLevel[id]? = some level
  | .passRate id rate => id < kMaxTrackedQuality ∧ cache.lastPassRate[id]?.any (·.eq rate)

/-! ## Transparency

The status of an equipment is compared by what `read` makes of it: the status itself, or
whether the line is enabled. -/

/-- The content of a field. -/
inductive Content (α : Type) where
  | status (status : α)
  | supplyLevel (level : ℤ)
  | passRate (rate : Binary32)
  deriving DecidableEq

variable {α : Type} (read : ℤ → α)

/-- The field of the entity in the model, if the entity exists. -/
def Reading.held (c : SimulatedModel) : Reading → Option (Content α)
  | .enabled id _ =>
      c.equipmentStatuses[id]?.map fun status => .status (read status.status)
  | .supplyLevel id _ =>
      c.equipmentStatuses[id]?.map fun status => .supplyLevel status.supplyLevel
  | .passRate id _ => c.qualityCheckpoints[id]?.map fun cp => .passRate cp.passRate

/-- What the setter leaves in the field. -/
def Reading.stored : Reading → Content α
  | .enabled _ bit =>
      .status (read (if bit then SimulatedModel.kEquipmentStatusOnline
        else SimulatedModel.kEquipmentStatusOffline))
  | .supplyLevel _ level =>
      .supplyLevel (max SimulatedModel.kSupplyLevelMin (min level SimulatedModel.kSupplyLevelMax))
  | .passRate _ rate =>
      .passRate (rate.clamp SimulatedModel.kQualityRateMin SimulatedModel.kQualityRateMax)

/-- After every notification the field of its entity, if that exists, is the one of the
run without the caches. -/
def Transparent (events : List Event) : Prop :=
  ∀ done e r v, done ++ [e] <+: events → e.reading = some r →
    r.held read (({} : System).after (done ++ [e])).model = some v →
    r.held read (afterUncached {} (done ++ [e])) = some v

/-- Every notification that repeats the last value of its field finds the field, if the
entity exists, as the setter would leave it. -/
def RepeatsWhatIsHeld (events : List Event) : Prop :=
  ∀ done e r v, done ++ [e] <+: events → e.reading = some r →
    ((({} : System).after done).cache e).Repeats r →
    r.held read (({} : System).after done).model = some v → v = r.stored read

/-! ## One notification -/

instance (cache : IngestCache) (r : Reading) : Decidable (cache.Repeats r) := by
  cases r <;> unfold IngestCache.Repeats <;> infer_instance

theorem snd_handleEnabled (cache : IngestCache) (id : Nat) (enabled : Bool) :
    (cache.handleEnabled id enabled).2 =
      if cache.Repeats (.enabled id enabled) then none
      else (Reading.enabled id enabled).setter := by
  by_cases hid : id ≥ kMaxTrackedEquipment
  · simp [IngestCache.handleEnabled, Reading.setter, hid]
  · by_cases hlast : cache.lastEnabled[id]? = some enabled <;>
      simp [IngestCache.handleEnabled, IngestCache.Repeats, Reading.setter, hid, hlast,
        not_le.mp hid]

theorem snd_handleSupplyLevel (cache : IngestCache) (id : Nat) (level : ℤ) :
    (cache.handleSupplyLevel id level).2 =
      if cache.Repeats (.supplyLevel id level) then none
      else (Reading.supplyLevel id level).setter := by
  by_cases hid : id < kMaxTrackedEquipment
  · by_cases hlast : cache.lastSupplyLevel[id]? = some level <;>
      simp [IngestCache.handleSupplyLevel, IngestCache.Repeats, Reading.setter, hid, hlast]
  · simp [IngestCache.handleSupplyLevel, IngestCache.Repeats, Reading.setter, hid]

theorem snd_handlePassRate (cache : IngestCache) (id : Nat) (rate : Binary32) :
    (cache.handlePassRate id rate).2 =
      if cache.Repeats (.passRate id rate) then none else (Reading.passRate id rate).setter := by
  by_cases hid : id < kMaxTrackedQuality
  · by_cases hlast : cache.lastPassRate[id]?.any (·.eq rate) = true <;>
      simp [IngestCache.handlePassRate, IngestCache.Repeats, Reading.setter, hid, hlast]
  · simp [IngestCache.handlePassRate, IngestCache.Repeats, Reading.setter, hid]

/-- A notification calls the setter of its reading unless that is a repetition. -/
theorem model_step {s : System} {e : Event} {r : Reading} (hr : e.reading = some r) :
    (s.step e).model =
      s.model.after (if (s.cache e).Repeats r then none else r.setter).toList := by
  cases e with
  | register mapping rawValue =>
      rw [Event.reading] at hr
      cases hfield : mapping.field <;> rw [hfield] at hr <;> obtain rfl := Option.some.inj hr
      · simp only [System.step, ModbusIngestBridge.onRegisterChanged, hfield, snd_handleEnabled]
        rfl
      · simp only [System.step, ModbusIngestBridge.onRegisterChanged, hfield,
          snd_handleSupplyLevel]
        rfl
      · simp only [System.step, ModbusIngestBridge.onRegisterChanged, hfield, snd_handlePassRate]
        rfl
  | status id status =>
      obtain rfl := Option.some.inj hr
      rw [← snd_handleEnabled]
      rfl
  | supply id supply =>
      obtain rfl := Option.some.inj hr
      rw [← snd_handleSupplyLevel]
      rfl
  | passRate id rate =>
      obtain rfl := Option.some.inj hr
      rw [← snd_handlePassRate]
      rfl
  | operation op => cases hr

/-! ## What a setter leaves in its field -/

/-- The model does not drop the setter. -/
def Reading.Accepted (c : SimulatedModel) : Reading → Prop
  | .enabled id _ => id < SimulatedModel.kEquipmentCount
  | .supplyLevel id _ => id < SimulatedModel.kEquipmentCount
  | .passRate id _ => id ∈ c.qualityCheckpoints

/-- No line is out of the range of the setters. -/
def InRange (c : SimulatedModel) : Prop :=
  ∀ id ∈ c.equipmentStatuses, id < SimulatedModel.kEquipmentCount

theorem accepted_of_held {c : SimulatedModel} (hc : InRange c) {r : Reading} {v : Content α}
    (h : r.held read c = some v) : r.Accepted c := by
  cases r with
  | enabled id bit =>
      obtain ⟨status, hstatus, -⟩ := Option.map_eq_some_iff.mp h
      exact hc id (Std.ExtTreeMap.mem_iff_isSome_getElem?.mpr (by rw [hstatus]; rfl))
  | supplyLevel id level =>
      obtain ⟨status, hstatus, -⟩ := Option.map_eq_some_iff.mp h
      exact hc id (Std.ExtTreeMap.mem_iff_isSome_getElem?.mpr (by rw [hstatus]; rfl))
  | passRate id rate =>
      obtain ⟨checkpoint, hcheckpoint, -⟩ := Option.map_eq_some_iff.mp h
      exact Std.ExtTreeMap.mem_iff_isSome_getElem?.mpr (by rw [hcheckpoint]; rfl)

theorem held_setter {c : SimulatedModel} {r : Reading} (h : r.Accepted c) :
    r.held read (c.after r.setter.toList) = some (r.stored read) := by
  cases r with
  | enabled id bit =>
      have hrange : ¬ id ≥ SimulatedModel.kEquipmentCount := not_le.mpr h
      have htracked : ¬ id ≥ kMaxTrackedEquipment := not_le.mpr (lt_trans h (by decide))
      simp only [Reading.setter, htracked, if_false, Option.toList_some, SimulatedModel.after_cons,
        SimulatedModel.after_nil, SimulatedModel.step, SimulatedModel.setEquipmentEnabled,
        SimulatedModel.changeEquipment, hrange, if_false, Reading.held,
        IdMap.get_subscript_self]
      rfl
  | supplyLevel id level =>
      have hrange : ¬ id ≥ SimulatedModel.kEquipmentCount := not_le.mpr h
      simp only [Reading.setter, Option.toList_some, SimulatedModel.after_cons,
        SimulatedModel.after_nil, SimulatedModel.step, SimulatedModel.setEquipmentSupplyLevel,
        SimulatedModel.changeEquipment, hrange, if_false, Reading.held,
        IdMap.get_subscript_self]
      rfl
  | passRate id rate =>
      have hmem : ¬ id ∉ c.qualityCheckpoints := not_not.mpr h
      simp only [Reading.setter, Option.toList_some, SimulatedModel.after_cons,
        SimulatedModel.after_nil, SimulatedModel.step, SimulatedModel.setQualityPassRate, hmem,
        if_false, SimulatedModel.notifyQualityChange, Reading.held, IdMap.get_subscript_self]
      rfl

/-! ## What both runs have in common -/

theorem inRange_step {c : SimulatedModel} (hc : InRange c) (op : SimulatedModel.Op) :
    InRange (c.step op).1 := by
  intro id hid
  rcases SimulatedModel.mem_equipmentStatuses_step hid with hold | hnew
  · exact hc id hold
  · exact hnew

theorem inRange_after {c : SimulatedModel} (hc : InRange c) (ops : List SimulatedModel.Op) :
    InRange (c.after ops) := by
  induction ops generalizing c with
  | nil => exact hc
  | cons op ops ih => exact ih (inRange_step hc op)

theorem inRange_initial : InRange {} := by
  intro id hid
  exact absurd hid Std.ExtTreeMap.not_mem_empty

/-- A setter adds no checkpoint. -/
theorem not_creates_setter {r : Reading} {op : SimulatedModel.Op} (h : op ∈ r.setter) (id : Nat) :
    ¬ op.Creates id := by
  cases r with
  | enabled id' bit =>
      simp only [Reading.setter, Option.mem_def] at h
      split at h
      next => cases h
      next =>
        obtain rfl := Option.some.inj h
        exact fun h => h
  | supplyLevel id' level =>
      obtain rfl := Option.some.inj h
      exact fun h => h
  | passRate id' rate =>
      obtain rfl := Option.some.inj h
      exact fun h => h

/-- The checkpoints after a call that a bridge makes or not. -/
theorem mem_after_setter (c : SimulatedModel) (r : Reading) (repeated : Prop)
    [Decidable repeated] (id : Nat) :
    id ∈ (c.after (if repeated then none else r.setter).toList).qualityCheckpoints ↔
      id ∈ c.qualityCheckpoints := by
  by_cases hrepeated : repeated
  · simp [hrepeated]
  · cases hset : r.setter with
    | none => simp
    | some op =>
        rw [if_neg hrepeated, Option.toList_some, SimulatedModel.after_cons,
          SimulatedModel.after_nil, SimulatedModel.mem_qualityCheckpoints_step,
          or_iff_right (not_creates_setter hset id)]

theorem afterUncached_append (c : SimulatedModel) (done : List Event) (e : Event) :
    afterUncached c (done ++ [e]) = (afterUncached c done).after e.call.toList := by
  simp only [afterUncached, List.filterMap_append, SimulatedModel.after_append]
  cases he : e.call <;> simp [he]

theorem after_append (s : System) (done : List Event) (e : Event) :
    s.after (done ++ [e]) = (s.after done).step e := by
  rw [System.after, List.foldl_append]
  rfl

theorem call_of_reading {e : Event} {r : Reading} (hr : e.reading = some r) :
    e.call = r.setter := by
  cases e with
  | operation op => cases hr
  | _ => exact congrArg (Option.bind · Reading.setter) hr

theorem inRange_model_after (events : List Event) :
    InRange (({} : System).after events).model := by
  induction events using List.reverseRecOn with
  | nil => exact inRange_initial
  | append_singleton done e ih =>
      rw [after_append]
      cases hr : e.reading with
      | some r =>
          rw [model_step hr]
          exact inRange_after ih _
      | none =>
          cases e with
          | operation op => exact inRange_step ih op
          | register mapping rawValue => rw [Event.reading] at hr; split at hr <;> cases hr
          | _ => cases hr

theorem sameCheckpoints_after (events : List Event) (id : Nat) :
    id ∈ (({} : System).after events).model.qualityCheckpoints ↔
      id ∈ (afterUncached {} events).qualityCheckpoints := by
  induction events using List.reverseRecOn with
  | nil => exact Iff.rfl
  | append_singleton done e ih =>
      rw [after_append, afterUncached_append]
      cases hr : e.reading with
      | some r =>
          have huncached := mem_after_setter (afterUncached {} done) r False id
          rw [if_neg not_false] at huncached
          rw [model_step hr, call_of_reading hr, mem_after_setter, huncached, ih]
      | none =>
          cases e with
          | operation op =>
              simp only [System.step, Event.call, Option.toList_some, SimulatedModel.after_cons,
                SimulatedModel.after_nil, SimulatedModel.mem_qualityCheckpoints_step, ih]
          | register mapping rawValue => rw [Event.reading] at hr; split at hr <;> cases hr
          | _ => cases hr

/-! ## The caches are transparent exactly when they repeat what is held -/

/-- An accepted reading leaves in the run without the caches what its setter stores. -/
theorem held_afterUncached {done : List Event} {e : Event} {r : Reading}
    (hr : e.reading = some r) (haccepted : r.Accepted (({} : System).after done).model) :
    r.held read (afterUncached {} (done ++ [e])) = some (r.stored read) := by
  rw [afterUncached_append, call_of_reading hr]
  refine held_setter read ?_
  cases r with
  | enabled id bit => exact haccepted
  | supplyLevel id level => exact haccepted
  | passRate id rate => exact (sameCheckpoints_after done id).mp haccepted

/-- An entity that is there after a notification is one whose setter is not dropped. -/
theorem accepted_before {done : List Event} {e : Event} {r : Reading} {v : Content α}
    (hr : e.reading = some r)
    (h : r.held read (({} : System).after (done ++ [e])).model = some v) :
    r.Accepted (({} : System).after done).model := by
  have haccepted := accepted_of_held read (inRange_model_after (done ++ [e])) h
  cases r with
  | enabled id bit => exact haccepted
  | supplyLevel id level => exact haccepted
  | passRate id rate =>
      have hmem : id ∈ (({} : System).after (done ++ [e])).model.qualityCheckpoints := haccepted
      rw [after_append, model_step hr, mem_after_setter] at hmem
      exact hmem

/-- In every run: the caches are transparent exactly when each repeated value is the one
the model holds. -/
theorem transparent_iff (events : List Event) :
    Transparent read events ↔ RepeatsWhatIsHeld read events := by
  constructor
  · intro h done e r v hdone hr hrepeats hheld
    have hdropped :
        (({} : System).after (done ++ [e])).model = (({} : System).after done).model := by
      rw [after_append, model_step hr, if_pos hrepeats]
      rfl
    have haccepted := accepted_of_held read (inRange_model_after done) hheld
    rw [← hdropped] at hheld
    have hsame := h done e r v hdone hr hheld
    rw [held_afterUncached read hr haccepted] at hsame
    exact (Option.some.inj hsame).symm
  · intro h done e r v hdone hr hheld
    have haccepted := accepted_before read hr hheld
    rw [held_afterUncached read hr haccepted]
    by_cases hrepeats : ((({} : System).after done).cache e).Repeats r
    · rw [after_append, model_step hr, if_pos hrepeats] at hheld
      rw [h done e r v hdone hr hrepeats hheld]
    · rw [after_append, model_step hr, if_neg hrepeats, held_setter read haccepted] at hheld
      exact hheld

/-- A rate that arrives before the checkpoints exist is dropped by the model and by the
cache ever after. -/
theorem early_rate_is_lost :
    ¬ Transparent id [.passRate 0 (.fin 90), .operation .initializeDemoData,
      .passRate 0 (.fin 90)] := by
  intro h
  have hsame := h [.passRate 0 (.fin 90), .operation .initializeDemoData] (.passRate 0 (.fin 90))
    (.passRate 0 (.fin 90)) (.passRate (.round (981 / 10))) List.prefix_rfl rfl
    (by decide +kernel)
  exact absurd hsame (by decide +kernel)

end Ingest
