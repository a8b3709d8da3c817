import Mathlib.Data.List.Induction
import IndustrialHmi.Model.SimulatedModel

/-!
# The identity of entities

Every stored record carries the id of the entity it is about, and the maps are keyed by
that id.  Subscripting a map creates a missing entry whose record carries the id zero,
so that an operation that subscripts without looking breaks the agreement for every
other id.
-/

namespace Production

/-! ## Maps whose records carry their key -/

namespace IdMap

variable {ν : Type}

/-- Every record carries the id it is stored under. -/
def Identified (idOf : ν → Nat) (m : IdMap ν) : Prop :=
  ∀ k v, m[k]? = some v → idOf v = k

variable {idOf : ν → Nat} {m : IdMap ν}

theorem identified_empty : Identified idOf (∅ : IdMap ν) := by
  intro k v h
  simp at h

theorem Identified.insert (hm : Identified idOf m) {id : Nat} {v : ν} (hv : idOf v = id) :
    Identified idOf (m.insert id v) := by
  intro k w hw
  rw [Std.ExtTreeMap.getElem?_insert] at hw
  split at hw
  next heq =>
    obtain rfl := Option.some.inj hw
    exact hv.trans (Std.LawfulEqCmp.eq_of_compare heq)
  next => exact hm k w hw

theorem Identified.map (hm : Identified idOf m) {f : Nat → ν → ν}
    (hf : ∀ k v, idOf (f k v) = idOf v) : Identified idOf (m.map f) := by
  intro k w hw
  rw [Std.ExtTreeMap.getElem?_map, Option.map_eq_some_iff] at hw
  obtain ⟨v, hv, rfl⟩ := hw
  rw [hf, hm k v hv]

variable [Inhabited ν]

/-- Subscripting keeps the agreement exactly when the entry is there or its id is the one
a new record carries. -/
theorem identified_subscript (hm : Identified idOf m) (id : Nat) {f : ν → ν}
    (hf : ∀ v, idOf (f v) = idOf v) (hdefault : idOf default = 0) :
    Identified idOf (m.subscript id f) ↔ id = 0 ∨ id ∈ m := by
  have hnew : id ∉ m → idOf (f (m[id]?.getD default)) = 0 := by
    intro habsent
    rw [Std.ExtTreeMap.getElem?_eq_none habsent, Option.getD_none, hf, hdefault]
  constructor
  · intro h
    by_cases hid : id ∈ m
    · exact .inr hid
    · exact .inl ((h id _ (get_subscript_self m id f)).symm.trans (hnew hid))
  · intro hid
    refine hm.insert ?_
    by_cases hmem : id ∈ m
    · rw [Std.ExtTreeMap.getElem?_eq_some_getElem hmem, Option.getD_some, hf]
      exact hm id _ (Std.ExtTreeMap.getElem?_eq_some_getElem hmem)
    · rw [hnew hmem, hid.resolve_right hmem]

end IdMap

/-! ## The agreement in the model -/

/-- A delivered status is about an id. -/
def Notification.Carries (id : Nat) : Notification → Prop
  | .equipment status => status.equipmentId = id
  | .quality checkpoint => checkpoint.checkpointId = id
  | _ => True

namespace SimulatedModel

structure Identified (c : SimulatedModel) : Prop where
  equipment : IdMap.Identified EquipmentStatus.equipmentId c.equipmentStatuses
  quality : IdMap.Identified QualityCheckpoint.checkpointId c.qualityCheckpoints

/-- The id an operation is a command on. -/
def Op.target : Op → Option Nat
  | .setEquipmentEnabled id _ => some id
  | .setEquipmentSupplyLevel id _ => some id
  | .setQualityPassRate id _ => some id
  | .notifyQualityChange id => some id
  | _ => none

/-- What a command on an id delivers is about that id. -/
def DeliversOwn (c : SimulatedModel) (op : Op) : Prop :=
  ∀ id, op.target = some id → ∀ sent ∈ (c.step op).2, sent.Carries id

/-- The agreement holds in every state of a run and in every delivery. -/
structure KeepsIdentity (ops : List Op) : Prop where
  states : ∀ done, done <+: ops → (({} : SimulatedModel).after done).Identified
  deliveries : ∀ done op, done ++ [op] <+: ops → (({} : SimulatedModel).after done).DeliversOwn op

/-- What an operation subscripts is there, or is out of the range it accepts, or has the
id of a new record. -/
def SubscriptsOwn (c : SimulatedModel) : Op → Prop
  | .setEquipmentEnabled id _ => kEquipmentCount ≤ id ∨ id = 0 ∨ id ∈ c.equipmentStatuses
  | .setEquipmentSupplyLevel id _ => kEquipmentCount ≤ id ∨ id = 0 ∨ id ∈ c.equipmentStatuses
  | .notifyQualityChange id => id = 0 ∨ id ∈ c.qualityCheckpoints
  | .startProduction =>
      c.currentWorkUnit.totalOperations ≤ c.currentWorkUnit.completedOperations ∨
        kBLineId ∈ c.equipmentStatuses
  | _ => True

/-! ## One operation -/

theorem identified_changeEquipment {c : SimulatedModel} (hc : c.Identified) (id : Nat)
    {f : EquipmentStatus → EquipmentStatus} (hf : ∀ s, (f s).equipmentId = s.equipmentId) :
    (c.changeEquipment id f).1.Identified ↔
      kEquipmentCount ≤ id ∨ id = 0 ∨ id ∈ c.equipmentStatuses := by
  by_cases hrange : kEquipmentCount ≤ id
  · simp [changeEquipment, hrange, hc]
  · have hmap := IdMap.identified_subscript hc.equipment id hf rfl
    simp only [changeEquipment, ge_iff_le, hrange, if_false, false_or]
    rw [← hmap]
    exact ⟨fun h => h.equipment, fun h => ⟨h, hc.quality⟩⟩

theorem identified_notifyQualityChange {c : SimulatedModel} (hc : c.Identified) (id : Nat) :
    (c.notifyQualityChange id).1.Identified ↔ id = 0 ∨ id ∈ c.qualityCheckpoints := by
  rw [← IdMap.identified_subscript hc.quality id (f := fun cp => cp) (fun _ => rfl) rfl]
  exact ⟨fun h => h.quality, fun h => ⟨hc.equipment, h⟩⟩

theorem identified_startProduction {c : SimulatedModel} (hc : c.Identified) :
    c.startProduction.1.Identified ↔
      c.currentWorkUnit.totalOperations ≤ c.currentWorkUnit.completedOperations ∨
        kBLineId ∈ c.equipmentStatuses := by
  by_cases hleft : c.currentWorkUnit.completedOperations < c.currentWorkUnit.totalOperations
  · have hmap := IdMap.identified_subscript hc.equipment kBLineId
      (f := fun s => { s with status := kEquipmentStatusProcessing }) (fun _ => rfl) rfl
    have hline : kBLineId ≠ 0 := Nat.one_ne_zero
    simp only [hline, false_or] at hmap
    rw [or_iff_right (not_le.mpr hleft), ← hmap]
    simp only [startProduction, simulateProductionCycle, andThen_fst, dispatch_fst, hleft, if_true]
    exact ⟨fun h => h.equipment, fun h => ⟨h, hc.quality⟩⟩
  · simp only [startProduction, simulateProductionCycle, andThen_fst, dispatch_fst, hleft,
      if_false, not_lt.mp hleft, true_or, iff_true]
    exact ⟨hc.equipment, hc.quality⟩

theorem identified_setQualityPassRate {c : SimulatedModel} (hc : c.Identified) (id : Nat)
    (rate : Binary32) : (c.setQualityPassRate id rate).1.Identified := by
  rw [setQualityPassRate]
  split
  next => exact hc
  next hmem =>
    rw [not_not] at hmem
    have hset := (IdMap.identified_subscript hc.quality id
      (f := fun cp => { cp with passRate := rate.clamp kQualityRateMin kQualityRateMax })
      (fun _ => rfl) rfl).mpr (.inr hmem)
    refine ⟨hc.equipment, ?_⟩
    exact (IdMap.identified_subscript hset id (fun _ => rfl) rfl).mpr (.inr (by simp))

/-- The demo data are identified, whatever else is stored. -/
theorem identified_initializeDemoData {c : SimulatedModel} (hc : c.Identified) :
    c.initializeDemoData.1.Identified := by
  simp only [initializeDemoData, andThen_fst, dispatch_fst, notifyQualityChanges_keys]
  constructor
  · refine .insert (.insert (.insert hc.equipment ?_) ?_) ?_ <;> rfl
  · refine .insert (.insert (.insert hc.quality ?_) ?_) ?_ <;> rfl

theorem identified_step {c : SimulatedModel} (hc : c.Identified) (op : Op) :
    (c.step op).1.Identified ↔ c.SubscriptsOwn op := by
  cases op with
  | startProduction => exact identified_startProduction hc
  | setEquipmentEnabled id enabled => exact identified_changeEquipment hc id fun _ => rfl
  | setEquipmentSupplyLevel id level => exact identified_changeEquipment hc id fun _ => rfl
  | notifyQualityChange id => exact identified_notifyQualityChange hc id
  | setQualityPassRate id rate => exact iff_true_intro (identified_setQualityPassRate hc id rate)
  | initializeDemoData => exact iff_true_intro (identified_initializeDemoData hc)
  | loadProduct product recipe =>
      refine iff_true_intro ?_
      simp only [step, loadProduct, andThen_fst, notifyQualityChanges_keys]
      exact ⟨hc.equipment, hc.quality.map fun _ _ => rfl⟩
  | tickSimulation draws now =>
      refine iff_true_intro ?_
      rw [step, tickSimulation_keeps]
      exact ⟨hc.equipment, hc.quality.map fun _ _ => rfl⟩
  | republishAll =>
      refine iff_true_intro ?_
      rw [step, republishAll_keeps]
      exact hc
  | _ => exact iff_true_intro ⟨hc.equipment, hc.quality⟩

/-! ## Deliveries -/

theorem carries_of_notifyEquipmentChange {c : SimulatedModel} (hc : c.Identified) {id : Nat}
    {sent : Notification} (h : sent ∈ c.notifyEquipmentChange id) : sent.Carries id := by
  obtain ⟨status, hstatus, rfl⟩ := List.mem_map.mp h
  exact hc.equipment id status (Option.mem_toList.mp hstatus)

theorem carries_of_notifyQualityChange {c : SimulatedModel} {id : Nat}
    (hc : (c.notifyQualityChange id).1.Identified) {sent : Notification}
    (h : sent ∈ (c.notifyQualityChange id).2) : sent.Carries id := by
  obtain ⟨checkpoint, hcheckpoint, rfl⟩ := List.mem_map.mp h
  exact hc.quality id checkpoint (Option.mem_toList.mp hcheckpoint)

theorem deliversOwn_changeEquipment {c : SimulatedModel} {id : Nat}
    {f : EquipmentStatus → EquipmentStatus} (hc : (c.changeEquipment id f).1.Identified) :
    ∀ sent ∈ (c.changeEquipment id f).2, sent.Carries id := by
  intro sent h
  simp only [changeEquipment] at hc h
  split at h
  next => exact absurd h List.not_mem_nil
  next hrange =>
    rw [if_neg hrange] at hc
    exact carries_of_notifyEquipmentChange hc h

/-- A step that keeps the agreement delivers the id it is a command on. -/
theorem deliversOwn_of_identified {c : SimulatedModel} {op : Op} (hc : (c.step op).1.Identified) :
    c.DeliversOwn op := by
  intro id htarget sent h
  cases op with
  | setEquipmentEnabled id' enabled =>
      obtain rfl := Option.some.inj htarget
      exact deliversOwn_changeEquipment hc sent h
  | setEquipmentSupplyLevel id' level =>
      obtain rfl := Option.some.inj htarget
      exact deliversOwn_changeEquipment hc sent h
  | setQualityPassRate id' rate =>
      obtain rfl := Option.some.inj htarget
      simp only [step, setQualityPassRate] at hc h
      split at h
      next => exact absurd h List.not_mem_nil
      next hmem =>
        rw [if_neg hmem] at hc
        exact carries_of_notifyQualityChange hc h
  | notifyQualityChange id' =>
      obtain rfl := Option.some.inj htarget
      exact carries_of_notifyQualityChange hc h
  | _ => cases htarget

/-! ## Runs -/

theorem identified_initial : ({} : SimulatedModel).Identified :=
  ⟨IdMap.identified_empty, IdMap.identified_empty⟩

theorem identified_after {ops : List Op}
    (hops : ∀ done op, done ++ [op] <+: ops → (({} : SimulatedModel).after done).SubscriptsOwn op) :
    (({} : SimulatedModel).after ops).Identified := by
  induction ops using List.reverseRecOn with
  | nil => exact identified_initial
  | append_singleton ops op ih =>
      have hbefore : (({} : SimulatedModel).after ops).Identified :=
        ih fun done op' h => hops done op' (h.trans (List.prefix_append ops [op]))
      rw [after_append]
      exact (identified_step hbefore op).mpr (hops ops op List.prefix_rfl)

/-- In every run from the empty model: the records and deliveries carry their ids
throughout exactly when no step subscripts an entry that it should not create. -/
theorem keepsIdentity_iff (ops : List Op) :
    KeepsIdentity ops ↔
      ∀ done op, done ++ [op] <+: ops →
        (({} : SimulatedModel).after done).SubscriptsOwn op := by
  constructor
  · intro h done op hop
    have hbefore := h.states done ((List.prefix_append done [op]).trans hop)
    have hafter := h.states (done ++ [op]) hop
    rw [after_append] at hafter
    exact (identified_step hbefore op).mp hafter
  · intro h
    have hstates : ∀ done, done <+: ops → (({} : SimulatedModel).after done).Identified :=
      fun done hdone => identified_after fun done' op hop => h done' op (hop.trans hdone)
    refine ⟨hstates, fun done op hop => ?_⟩
    have hafter := hstates (done ++ [op]) hop
    rw [after_append] at hafter
    exact deliversOwn_of_identified hafter

/-- The fourth line, which the demo data do not have, gets a record about the first. -/
theorem enabling_fourth_line_misdelivers :
    ¬ KeepsIdentity [.initializeDemoData, .setEquipmentEnabled 3 true] := by
  intro h
  have hafter := (h.states _ List.prefix_rfl).equipment 3 { status := 1 } (by decide)
  exact absurd hafter (by decide)

end SimulatedModel

end Production
