import IndustrialHmi.Model.EntityIdentity
import IndustrialHmi.Model.StateObservers
import IndustrialHmi.Theory.Reporting

/-!
# What the observers know

The model has no reader but its observers: a front end, a bridge and a historian keep what they
were told last of each entity, of the work unit and of the state.  They are told all there is by
`republishAll`, and from then on what they keep is what the model stores.  That holds through a run
exactly if no step of it subscripts an entry that it should not create (`observers_know_iff`).
-/

namespace Production

open SystemStateMachine Reporting

/-- The entry under an id, if there is one. -/
abbrev IdMap.entry {ν : Type} (m : IdMap ν) (id : Nat) : Option ν := m[id]?

/-! ## The subjects -/

inductive Subject where
  | equipment
  | actuator
  | quality
  | workUnit
  | systemState
  deriving DecidableEq

namespace Notification

@[simp] def subject : Notification → Subject
  | equipment _ => .equipment
  | actuator _ => .actuator
  | quality _ => .quality
  | workUnit _ => .workUnit
  | systemState _ => .systemState

def equipment? : Notification → Option EquipmentStatus
  | equipment status => some status
  | _ => none

def actuator? : Notification → Option ActuatorStatus
  | actuator status => some status
  | _ => none

def quality? : Notification → Option QualityCheckpoint
  | quality checkpoint => some checkpoint
  | _ => none

def workUnit? : Notification → Option WorkUnit
  | workUnit unit => some unit
  | _ => none

def systemState? : Notification → Option SystemState
  | systemState state => some state
  | _ => none

theorem equipment?_eq_some {sent : Notification} {status : EquipmentStatus} :
    sent.equipment? = some status ↔ sent = .equipment status := by
  cases sent <;> simp [equipment?]

theorem actuator?_eq_some {sent : Notification} {status : ActuatorStatus} :
    sent.actuator? = some status ↔ sent = .actuator status := by
  cases sent <;> simp [actuator?]

theorem quality?_eq_some {sent : Notification} {checkpoint : QualityCheckpoint} :
    sent.quality? = some checkpoint ↔ sent = .quality checkpoint := by
  cases sent <;> simp [quality?]

theorem workUnit?_eq_some {sent : Notification} {unit : WorkUnit} :
    sent.workUnit? = some unit ↔ sent = .workUnit unit := by
  cases sent <;> simp [workUnit?]

theorem systemState?_eq_some {sent : Notification} {state : SystemState} :
    sent.systemState? = some state ↔ sent = .systemState state := by
  cases sent <;> simp [systemState?]

end Notification

namespace SimulatedModel

/-- What the observers are told in a run. -/
def told (c : SimulatedModel) : List Op → List Notification
  | [] => []
  | op :: ops => (c.step op).2 ++ (c.step op).1.told ops

theorem told_concat (c : SimulatedModel) (ops : List Op) (op : Op) :
    c.told (ops ++ [op]) = c.told ops ++ ((c.after ops).step op).2 := by
  induction ops generalizing c with
  | nil => simp [told]
  | cons first ops ih => simp [told, ih, List.append_assoc]

/-- What was told last of everything is what is stored. -/
structure KnownBy (c : SimulatedModel) (sent : List Notification) : Prop where
  equipment : Known Notification.equipment? EquipmentStatus.equipmentId
    c.equipmentStatuses.entry sent
  actuator : Known Notification.actuator? ActuatorStatus.actuatorId c.actuatorStatuses.entry sent
  quality : Known Notification.quality? QualityCheckpoint.checkpointId
    c.qualityCheckpoints.entry sent
  workUnit : lastSaid Notification.workUnit? sent = some c.currentWorkUnit
  systemState : lastSaid Notification.systemState? sent = some c.stateMachine.state

/-! ## What an operation tells -/

/-- The entries of a map, one after the other. -/
theorem mem_entries {ν : Type} {m : IdMap ν} {v : ν} :
    (∃ k ∈ m, m[k]? = some v) ↔ ∃ k : Nat, m[k]? = some v := by
  refine ⟨fun ⟨k, _, hk⟩ => ⟨k, hk⟩, fun ⟨k, hk⟩ => ⟨k, ?_, hk⟩⟩
  exact Std.ExtTreeMap.mem_iff_isSome_getElem?.mpr (by simp [hk])

@[simp] theorem getElem_subscript_self {ν : Type} [Inhabited ν] {m : IdMap ν} {id : Nat}
    {f : ν → ν} (h : id ∈ m.subscript id f) :
    (m.subscript id f)[id] = f (m[id]?.getD default) := by
  refine Option.some.inj ?_
  rw [← Std.ExtTreeMap.getElem?_eq_some_getElem h, IdMap.get_subscript_self]

/-- A change of one entry that is notified. -/
theorem step_subscript {ν : Type} [Inhabited ν] (m : IdMap ν) (id : Nat) (f : ν → ν)
    {reported : ν → Prop} (h : ∀ v, reported v ↔ v = f (m[id]?.getD default)) :
    Reporting.Step m.entry (m.subscript id f).entry reported :=
  .one id _ (IdMap.get_subscript_self m id f)
    (fun _ hk => IdMap.get_subscript_of_ne m f (Ne.symm hk)) h

/-- The machine tells of states, and of nothing else. -/
@[simp] theorem mem_dispatch {c : SimulatedModel} {r : SystemStateMachine × List SystemState}
    {sent : Notification} :
    sent ∈ (c.dispatch r).2 ↔ r.2 ≠ [] ∧ sent = .systemState r.1.state := by
  simp only [dispatch, notifyStateChange, List.mem_flatMap, List.mem_singleton]
  constructor
  · rintro ⟨state, hstate, rfl⟩
    exact ⟨List.ne_nil_of_mem hstate, rfl⟩
  · rintro ⟨hne, rfl⟩
    obtain ⟨state, hstate⟩ := List.exists_mem_of_ne_nil _ hne
    exact ⟨state, hstate, rfl⟩

/-- The subjects that an operation may tell of. -/
@[simp] def Op.subjects : Op → List Subject
  | .startProduction => [.systemState, .workUnit, .equipment]
  | .stopProduction | .startCalibration | .triggerFault _ => [.systemState]
  | .resetSystem => [.systemState, .workUnit]
  | .setEquipmentEnabled _ _ | .setEquipmentSupplyLevel _ _ => [.equipment]
  | .setQualityPassRate _ _ | .notifyQualityChange _ => [.quality]
  | .loadProduct _ _ | .tickSimulation _ _ => [.quality, .workUnit]
  | .republishAll | .initializeDemoData =>
      [.equipment, .actuator, .quality, .workUnit, .systemState]
  | .notifyWorkUnitChange => [.workUnit]

theorem subject_changeEquipment {c : SimulatedModel} {id : Nat}
    {f : EquipmentStatus → EquipmentStatus} {sent : Notification}
    (h : sent ∈ (c.changeEquipment id f).2) : sent.subject = .equipment := by
  simp only [changeEquipment] at h
  split at h
  next => cases h
  next =>
    obtain ⟨status, -, rfl⟩ := List.mem_map.mp h
    rfl

theorem subject_notifyQualityChange {c : SimulatedModel} {id : Nat} {sent : Notification}
    (h : sent ∈ (c.notifyQualityChange id).2) : sent.subject = .quality := by
  obtain ⟨checkpoint, -, rfl⟩ := List.mem_map.mp h
  rfl

theorem subject_told {c : SimulatedModel} {op : Op} {sent : Notification}
    (h : sent ∈ (c.step op).2) : sent.subject ∈ op.subjects := by
  cases op with
  | setEquipmentEnabled id enabled =>
      rw [subject_changeEquipment h]
      simp
  | setEquipmentSupplyLevel id level =>
      rw [subject_changeEquipment h]
      simp
  | notifyQualityChange id =>
      rw [subject_notifyQualityChange h]
      simp
  | setQualityPassRate id rate =>
      simp only [step, setQualityPassRate] at h
      split at h
      next => cases h
      next =>
        rw [subject_notifyQualityChange h]
        simp
  | startProduction =>
      simp only [step, startProduction, simulateProductionCycle, andThen_snd, List.mem_append,
        mem_dispatch] at h
      rcases h with ⟨-, rfl⟩ | h
      · simp
      · split at h
        next =>
          simp only [SimulatedModel.notifyWorkUnitChange, notifyEquipmentChange, List.mem_append,
            List.mem_singleton, List.mem_map] at h
          rcases h with rfl | ⟨status, -, rfl⟩ <;> simp
        next => cases h
  | stopProduction => simp [(mem_dispatch.mp h).2]
  | startCalibration => simp [(mem_dispatch.mp h).2]
  | triggerFault reason => simp [(mem_dispatch.mp h).2]
  | resetSystem =>
      simp only [step, resetSystem, andThen_snd, SimulatedModel.notifyWorkUnitChange,
        List.mem_append, mem_dispatch, List.mem_singleton] at h
      rcases h with ⟨-, rfl⟩ | rfl <;> simp
  | loadProduct product recipe =>
      simp only [step, loadProduct, andThen_snd, notifyQualityChanges_keys,
        SimulatedModel.notifyWorkUnitChange, List.mem_append, List.mem_singleton, List.mem_flatMap,
        List.mem_map] at h
      rcases h with rfl | ⟨id, -, checkpoint, -, rfl⟩ <;> simp
  | tickSimulation draws now =>
      simp only [step, tickSimulation, andThen_snd, notifyQualityChanges_keys,
        SimulatedModel.notifyWorkUnitChange, List.mem_append, List.mem_singleton, List.mem_flatMap,
        List.mem_map] at h
      rcases h with ⟨id, -, checkpoint, -, rfl⟩ | rfl <;> simp
  | notifyWorkUnitChange =>
      simp [List.mem_singleton.mp h]
  | republishAll => cases sent <;> simp
  | initializeDemoData => cases sent <;> simp

/-- Of other subjects it tells nothing. -/
theorem not_told {c : SimulatedModel} {op : Op} {sent : Notification}
    (h : sent.subject ∉ op.subjects) : sent ∉ (c.step op).2 := fun hsent => h (subject_told hsent)

theorem equipment_republishAll {c : SimulatedModel} {status : EquipmentStatus} :
    .equipment status ∈ c.republishAll.2 ↔ ∃ k, c.equipmentStatuses.entry k = some status := by
  rw [← mem_entries]
  simp [republishAll, notifyEquipmentChange, notifyActuatorChange, notifyWorkUnitChange,
    notifyStateChange]

theorem actuator_republishAll {c : SimulatedModel} {status : ActuatorStatus} :
    .actuator status ∈ c.republishAll.2 ↔ ∃ k, c.actuatorStatuses.entry k = some status := by
  rw [← mem_entries]
  simp [republishAll, notifyEquipmentChange, notifyActuatorChange, notifyWorkUnitChange,
    notifyStateChange]

theorem quality_republishAll {c : SimulatedModel} {checkpoint : QualityCheckpoint} :
    .quality checkpoint ∈ c.republishAll.2 ↔
      ∃ k, c.qualityCheckpoints.entry k = some checkpoint := by
  rw [← mem_entries]
  simp [republishAll, notifyEquipmentChange, notifyActuatorChange, notifyWorkUnitChange,
    notifyStateChange]

theorem equipment_changeEquipment (c : SimulatedModel) (id : Nat)
    (f : EquipmentStatus → EquipmentStatus) :
    Reporting.Step c.equipmentStatuses.entry (c.changeEquipment id f).1.equipmentStatuses.entry
      fun status => .equipment status ∈ (c.changeEquipment id f).2 := by
  simp only [changeEquipment]
  split
  next => exact .nothing rfl (by simp)
  next => exact step_subscript _ id f (by simp [notifyEquipmentChange])

theorem equipment_step (c : SimulatedModel) (op : Op) :
    Reporting.Step c.equipmentStatuses.entry (c.step op).1.equipmentStatuses.entry
      fun status => .equipment status ∈ (c.step op).2 := by
  cases op with
  | startProduction =>
      simp only [step, startProduction, simulateProductionCycle, andThen_fst, andThen_snd]
      split
      next =>
        refine step_subscript _ kBLineId _ ?_
        simp [notifyWorkUnitChange, notifyEquipmentChange]
      next => exact .nothing rfl (by simp)
  | setEquipmentEnabled id enabled => exact equipment_changeEquipment c id _
  | setEquipmentSupplyLevel id level => exact equipment_changeEquipment c id _
  | setQualityPassRate id rate =>
      exact .nothing (by rw [step, setQualityPassRate_keeps]) fun _ => not_told (by simp)
  | loadProduct product recipe =>
      exact .nothing (by rw [step, loadProduct_keeps]) fun _ => not_told (by simp)
  | tickSimulation draws now =>
      exact .nothing (by rw [step, tickSimulation_keeps]) fun _ => not_told (by simp)
  | republishAll =>
      rw [step, republishAll_keeps]
      exact .all (fun _ hk => hk) fun _ => equipment_republishAll
  | initializeDemoData =>
      refine .all (fun k hk => ?_) fun status => ?_
      · simp only [step, initializeDemoData, andThen_fst, notifyQualityChanges_keys, dispatch_fst,
          IdMap.entry, Std.ExtTreeMap.getElem?_insert] at hk
        split_ifs at hk
        exact hk
      · rw [← mem_entries]
        simp [step, initializeDemoData, notifyEquipmentChange, notifyActuatorChange,
          notifyWorkUnitChange, notifyStateChange]
  | _ => exact .nothing rfl fun _ => not_told (by simp)

theorem actuators_step {c : SimulatedModel} {op : Op} (h : op ≠ .initializeDemoData) :
    (c.step op).1.actuatorStatuses = c.actuatorStatuses := by
  cases op with
  | startProduction => rw [step, startProduction_keeps]
  | setEquipmentEnabled id enabled => rw [step, setEquipmentEnabled, changeEquipment_keeps]
  | setEquipmentSupplyLevel id level =>
      rw [step, setEquipmentSupplyLevel, changeEquipment_keeps]
  | setQualityPassRate id rate => rw [step, setQualityPassRate_keeps]
  | loadProduct product recipe => rw [step, loadProduct_keeps]
  | tickSimulation draws now => rw [step, tickSimulation_keeps]
  | republishAll => rw [step, republishAll_keeps]
  | initializeDemoData => exact absurd rfl h
  | _ => rfl

theorem actuator_step (c : SimulatedModel) (op : Op) :
    Reporting.Step c.actuatorStatuses.entry (c.step op).1.actuatorStatuses.entry
      fun status => .actuator status ∈ (c.step op).2 := by
  cases op with
  | republishAll =>
      rw [step, republishAll_keeps]
      exact .all (fun _ hk => hk) fun _ => actuator_republishAll
  | initializeDemoData =>
      refine .all (fun k hk => ?_) fun status => ?_
      · simp only [step, initializeDemoData, andThen_fst, notifyQualityChanges_keys, dispatch_fst,
          IdMap.entry, Std.ExtTreeMap.getElem?_insert] at hk
        split_ifs at hk
        exact hk
      · rw [← mem_entries]
        simp [step, initializeDemoData, notifyEquipmentChange, notifyActuatorChange,
          notifyWorkUnitChange, notifyStateChange]
  | _ => exact .nothing (by rw [actuators_step (by simp)]) fun _ => not_told (by simp)

theorem quality_step (c : SimulatedModel) (op : Op) :
    Reporting.Step c.qualityCheckpoints.entry (c.step op).1.qualityCheckpoints.entry
      fun checkpoint => .quality checkpoint ∈ (c.step op).2 := by
  cases op with
  | startProduction =>
      exact .nothing (by rw [step, startProduction_keeps]) fun _ => not_told (by simp)
  | setEquipmentEnabled id enabled =>
      exact .nothing (by rw [step, setEquipmentEnabled, changeEquipment_keeps])
        fun _ => not_told (by simp)
  | setEquipmentSupplyLevel id level =>
      exact .nothing (by rw [step, setEquipmentSupplyLevel, changeEquipment_keeps])
        fun _ => not_told (by simp)
  | setQualityPassRate id rate =>
      simp only [step, setQualityPassRate, notifyQualityChange]
      split
      next => exact .nothing rfl (by simp)
      next =>
        have hmem : id ∈ c.qualityCheckpoints.subscript id fun cp =>
            { cp with passRate := rate.clamp kQualityRateMin kQualityRateMax } := by simp
        rw [IdMap.subscript_of_mem hmem]
        exact step_subscript _ id _ (by simp)
  | notifyQualityChange id =>
      simp only [step, SimulatedModel.notifyQualityChange]
      exact step_subscript _ id _ (by simp)
  | loadProduct product recipe =>
      refine .all (fun k hk => ?_) fun checkpoint => ?_
      · simpa [step, loadProduct] using hk
      · rw [← mem_entries]
        simp [step, loadProduct, notifyWorkUnitChange]
  | tickSimulation draws now =>
      refine .all (fun k hk => ?_) fun checkpoint => ?_
      · rw [step, tickSimulation_keeps] at hk
        simpa using hk
      · rw [← mem_entries, step, tickSimulation_keeps]
        simp only [tickSimulation, andThen_snd, notifyQualityChanges_keys, notifyWorkUnitChange]
        split <;> simp
  | republishAll =>
      rw [step, republishAll_keeps]
      exact .all (fun _ hk => hk) fun _ => quality_republishAll
  | initializeDemoData =>
      refine .all (fun k hk => ?_) fun checkpoint => ?_
      · simp only [step, initializeDemoData, andThen_fst, notifyQualityChanges_keys, dispatch_fst,
          IdMap.entry, Std.ExtTreeMap.getElem?_insert] at hk
        split_ifs at hk
        exact hk
      · rw [← mem_entries]
        simp [step, initializeDemoData, notifyEquipmentChange, notifyActuatorChange,
          notifyWorkUnitChange, notifyStateChange]
  | _ => exact .nothing rfl fun _ => not_told (by simp)

theorem workUnit_step (c : SimulatedModel) (op : Op) :
    Reporting.Step (fun _ : Unit => some c.currentWorkUnit)
      (fun _ => some (c.step op).1.currentWorkUnit) fun unit => .workUnit unit ∈ (c.step op).2 := by
  have hone : ∀ op : Op, (∀ unit, .workUnit unit ∈ (c.step op).2 ↔
      unit = (c.step op).1.currentWorkUnit) →
      Reporting.Step (fun _ : Unit => some c.currentWorkUnit)
        (fun _ => some (c.step op).1.currentWorkUnit) fun unit => .workUnit unit ∈ (c.step op).2 :=
    fun _ h => .one () _ rfl (fun _ hk => absurd rfl hk) h
  cases op with
  | startProduction =>
      simp only [step, startProduction, simulateProductionCycle, andThen_fst, andThen_snd]
      split
      next =>
        refine .one () _ rfl (fun _ hk => absurd rfl hk) ?_
        simp [notifyWorkUnitChange, notifyEquipmentChange]
      next => exact .nothing rfl (by simp)
  | resetSystem => exact hone _ (by simp [step, resetSystem, notifyWorkUnitChange])
  | loadProduct product recipe => exact hone _ (by simp [step, loadProduct, notifyWorkUnitChange])
  | tickSimulation draws now =>
      exact hone _ (by simp [step, tickSimulation, notifyWorkUnitChange])
  | republishAll =>
      exact hone _ (by
        simp [step, republishAll, notifyEquipmentChange, notifyActuatorChange,
          notifyWorkUnitChange, notifyStateChange])
  | initializeDemoData =>
      exact hone _ (by
        simp [step, initializeDemoData, notifyEquipmentChange, notifyActuatorChange,
          notifyWorkUnitChange, notifyStateChange])
  | notifyWorkUnitChange => exact hone _ (by simp [step, SimulatedModel.notifyWorkUnitChange])
  | setEquipmentEnabled id enabled =>
      exact .nothing (by rw [step, setEquipmentEnabled, changeEquipment_keeps])
        fun _ => not_told (by simp)
  | setEquipmentSupplyLevel id level =>
      exact .nothing (by rw [step, setEquipmentSupplyLevel, changeEquipment_keeps])
        fun _ => not_told (by simp)
  | setQualityPassRate id rate =>
      exact .nothing (by rw [step, setQualityPassRate_keeps]) fun _ => not_told (by simp)
  | _ => exact .nothing rfl fun _ => not_told (by simp)

/-- The machine tells of a state that is not the one it told of last. -/
theorem state_dispatch {c : SimulatedModel} {m : SystemStateMachine} (hm : UpToDate m)
    (hstate : m.state = c.stateMachine.state) (e : Evt) :
    Reporting.Step (fun _ : Unit => some c.stateMachine.state)
      (fun _ => some (m.dispatch e).1.state)
      fun state => .systemState state ∈ (c.dispatch (m.dispatch e)).2 := by
  have htold := dispatch_told hm e
  simp only [mem_dispatch, htold, dispatch_state]
  split
  next hsame => exact .nothing (by rw [hsame, hstate]) (by simp)
  next => exact .one () _ rfl (fun _ hk => absurd rfl hk) (by simp)

theorem state_step {c : SimulatedModel} (hc : UpToDate c.stateMachine) (op : Op) :
    Reporting.Step (fun _ : Unit => some c.stateMachine.state)
      (fun _ => some (c.step op).1.stateMachine.state)
      fun state => .systemState state ∈ (c.step op).2 := by
  cases op with
  | startProduction =>
      have hstart := state_dispatch (c := c) hc rfl .StartEvt
      rw [step, startProduction_keeps]
      simp only [startProduction, simulateProductionCycle, andThen_snd]
      split <;>
        simpa [SystemStateMachine.start, notifyWorkUnitChange, notifyEquipmentChange] using hstart
  | stopProduction => exact state_dispatch hc rfl _
  | startCalibration => exact state_dispatch hc rfl _
  | triggerFault reason =>
      exact state_dispatch (m := { c.stateMachine with lastFaultReason := reason }) hc rfl _
  | resetSystem =>
      have hreset := state_dispatch (c := c) (m := { c.stateMachine with lastFaultReason := "" })
        hc rfl .ResetEvt
      simpa [step, resetSystem, SystemStateMachine.reset, notifyWorkUnitChange] using hreset
  | republishAll =>
      rw [step, republishAll_keeps]
      refine .one () _ rfl (fun _ hk => absurd rfl hk) ?_
      simp [republishAll, notifyEquipmentChange, notifyActuatorChange, notifyWorkUnitChange,
        notifyStateChange]
  | initializeDemoData =>
      refine .one () _ rfl (fun _ hk => absurd rfl hk) fun state => ?_
      rw [step, initializeDemoData_keeps]
      simp [initializeDemoData, notifyEquipmentChange, notifyActuatorChange,
        notifyWorkUnitChange, notifyStateChange]
  | setEquipmentEnabled id enabled =>
      exact .nothing (by rw [step, setEquipmentEnabled, changeEquipment_keeps])
        fun _ => not_told (by simp)
  | setEquipmentSupplyLevel id level =>
      exact .nothing (by rw [step, setEquipmentSupplyLevel, changeEquipment_keeps])
        fun _ => not_told (by simp)
  | setQualityPassRate id rate =>
      exact .nothing (by rw [step, setQualityPassRate_keeps]) fun _ => not_told (by simp)
  | loadProduct product recipe =>
      exact .nothing (by rw [step, loadProduct_keeps]) fun _ => not_told (by simp)
  | tickSimulation draws now =>
      exact .nothing (by rw [step, tickSimulation_keeps]) fun _ => not_told (by simp)
  | _ => exact .nothing rfl fun _ => not_told (by simp)

/-! ## Runs -/

/-- What holds of the machine and of the actuators in every state of a run. -/
structure Sound (c : SimulatedModel) : Prop where
  upToDate : UpToDate c.stateMachine
  actuators : IdMap.Identified ActuatorStatus.actuatorId c.actuatorStatuses

theorem upToDate_command {m : SystemStateMachine} (h : UpToDate m) (op : Op) :
    UpToDate (op.command m) := by
  cases op with
  | startProduction => exact upToDate_dispatch _ _
  | stopProduction => exact upToDate_dispatch _ _
  | resetSystem => exact upToDate_dispatch _ _
  | initializeDemoData => exact upToDate_dispatch _ _
  | startCalibration => exact upToDate_dispatch _ _
  | triggerFault reason => exact upToDate_dispatch _ _
  | _ => exact h

theorem Sound.step {c : SimulatedModel} (h : c.Sound) (op : Op) : (c.step op).1.Sound := by
  refine ⟨step_stateMachine c op ▸ upToDate_command h.upToDate op, ?_⟩
  by_cases hop : op = .initializeDemoData
  · subst hop
    simp only [SimulatedModel.step, initializeDemoData, andThen_fst, notifyQualityChanges_keys,
      dispatch_fst]
    refine .insert (.insert h.actuators ?_) ?_ <;> rfl
  · rw [actuators_step hop]
    exact h.actuators

theorem sound_initial : ({} : SimulatedModel).Sound := ⟨rfl, IdMap.identified_empty⟩

theorem Sound.after {c : SimulatedModel} (h : c.Sound) (ops : List Op) : (c.after ops).Sound := by
  induction ops generalizing c with
  | nil => exact h
  | cons op ops ih => exact ih (h.step op)

/-- After `republishAll` everything that is identified is known. -/
theorem knownBy_republishAll {c : SimulatedModel} (hsound : c.Sound) (hc : c.Identified) :
    c.KnownBy c.republishAll.2 where
  equipment := known_of_all hc.equipment fun _ => by
    simpa only [Notification.equipment?_eq_some, exists_eq_right] using equipment_republishAll
  actuator := known_of_all hsound.actuators fun _ => by
    simpa only [Notification.actuator?_eq_some, exists_eq_right] using actuator_republishAll
  quality := known_of_all hc.quality fun _ => by
    simpa only [Notification.quality?_eq_some, exists_eq_right] using quality_republishAll
  workUnit := by
    simp [republishAll, lastSaid, notifyWorkUnitChange, notifyStateChange,
      Notification.workUnit?, List.filterMap_cons]
  systemState := by
    simp [republishAll, lastSaid, notifyWorkUnitChange, notifyStateChange,
      Notification.systemState?, List.filterMap_cons]

/-- A step after which the entities are identified is followed. -/
theorem KnownBy.step {c : SimulatedModel} {sent : List Notification} (h : c.KnownBy sent)
    (hsound : c.Sound) {op : Op} (hc : (c.step op).1.Identified) :
    (c.step op).1.KnownBy (sent ++ (c.step op).2) where
  equipment := h.equipment.append hc.equipment
    (by simpa only [Notification.equipment?_eq_some, exists_eq_right] using equipment_step c op)
  actuator := h.actuator.append (hsound.step op).actuators
    (by simpa only [Notification.actuator?_eq_some, exists_eq_right] using actuator_step c op)
  quality := h.quality.append hc.quality
    (by simpa only [Notification.quality?_eq_some, exists_eq_right] using quality_step c op)
  workUnit := lastSaid_of_step h.workUnit
    (by simpa only [Notification.workUnit?_eq_some, exists_eq_right] using workUnit_step c op)
  systemState := lastSaid_of_step h.systemState
    (by
      simpa only [Notification.systemState?_eq_some, exists_eq_right] using
        state_step hsound.upToDate op)

/-- Who knows the model knows it identified. -/
theorem KnownBy.identified {c : SimulatedModel} {sent : List Notification} (h : c.KnownBy sent) :
    c.Identified :=
  ⟨h.equipment.keyed, h.quality.keyed⟩

theorem told_republishAll (c : SimulatedModel) (ops : List Op) :
    c.told (.republishAll :: ops) = c.republishAll.2 ++ c.told ops := by
  rw [told, step, republishAll_keeps]

/-- While the entities stay identified, who is told all there is knows the model. -/
theorem knownBy_told {c : SimulatedModel} (hsound : c.Sound) (hc : c.Identified) {ops : List Op}
    (hown : ∀ done op, done ++ [op] <+: ops → (c.after done).SubscriptsOwn op) :
    (c.after ops).KnownBy (c.told (.republishAll :: ops)) := by
  rw [told_republishAll]
  induction ops using List.reverseRecOn with
  | nil =>
      rw [told, List.append_nil]
      exact knownBy_republishAll hsound hc
  | append_singleton ops op ih =>
      have hbefore := ih fun done op' h => hown done op' (h.trans (List.prefix_append ops [op]))
      rw [after_concat, told_concat, ← List.append_assoc]
      exact hbefore.step (hsound.after ops)
        ((identified_step hbefore.identified op).mpr (hown ops op List.prefix_rfl))

/-- Whoever observes a model that has run, and has it tell all there is, knows what it stores from
then on throughout a run, exactly if its entities are identified and no step of the run subscripts
an entry that it should not create. -/
theorem observers_know_iff (history ops : List Op) :
    (∀ done, done <+: ops → ((({} : SimulatedModel).after history).after done).KnownBy
      ((({} : SimulatedModel).after history).told (.republishAll :: done))) ↔
      (({} : SimulatedModel).after history).Identified ∧
        ∀ done op, done ++ [op] <+: ops →
          ((({} : SimulatedModel).after history).after done).SubscriptsOwn op := by
  have hsound := sound_initial.after history
  generalize ({} : SimulatedModel).after history = c at hsound ⊢
  constructor
  · intro h
    refine ⟨(h [] List.nil_prefix).identified, fun done op hdone => ?_⟩
    have hbefore := (h done ((List.prefix_append done [op]).trans hdone)).identified
    have hafter := (h (done ++ [op]) hdone).identified
    rw [after_concat] at hafter
    exact (identified_step hbefore op).mp hafter
  · rintro ⟨hc, hown⟩ done hdone
    exact knownBy_told hsound hc fun done' op h => hown done' op (h.trans hdone)

end SimulatedModel

end Production
