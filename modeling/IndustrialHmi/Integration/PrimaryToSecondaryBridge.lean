import IndustrialHmi.Theory.Mirroring
import IndustrialHmi.Model.MirrorModel
import IndustrialHmi.Model.SimulatedModel

/-!
# The bridge from the primary to the secondary

Threads call the inbound setters of the primary.  A setter writes under the lock of the
primary, then takes a snapshot of the record under it, and then calls the bridge, which
sets the same field of the secondary under the lock of the secondary.  These are the
three steps of a call; the checks of the id read nothing that changes here and belong to
the first.  The counters of the bridge are left out.
-/

namespace Bridge

open Production

/-- A call of an inbound setter of the primary. -/
inductive Call where
  | setEquipmentSupplyLevel (equipmentId : Nat) (level : ℤ)
  | setQualityPassRate (checkpointId : Nat) (rate : Binary32)

/-! ## The steps of a call -/

/-- The locked section of the setter that writes, if the id passes the check. -/
def write (c : SimulatedModel) : Call → Option SimulatedModel
  | .setEquipmentSupplyLevel id level =>
      if id ≥ SimulatedModel.kEquipmentCount then none
      else
        let clamped :=
          max SimulatedModel.kSupplyLevelMin (min level SimulatedModel.kSupplyLevelMax)
        some { c with
          equipmentStatuses := c.equipmentStatuses.subscript id fun status =>
            { status with supplyLevel := clamped } }
  | .setQualityPassRate id rate =>
      if id ∉ c.qualityCheckpoints then none
      else
        let clamped := rate.clamp SimulatedModel.kQualityRateMin SimulatedModel.kQualityRateMax
        some { c with
          qualityCheckpoints := c.qualityCheckpoints.subscript id fun cp =>
            { cp with passRate := clamped }
          externalPassRateOverrides := c.externalPassRateOverrides.insert id }

/-- The notification that follows, up to the calls of the observers. -/
def snapshot (c : SimulatedModel) : Call → Effect
  | .setEquipmentSupplyLevel id _ => (c, c.notifyEquipmentChange id)
  | .setQualityPassRate id _ => c.notifyQualityChange id

/-- What the bridge does as an observer of the primary. -/
def forward (running : Bool) (m : MirrorModel) (sent : Notification) : MirrorModel :=
  if running then
    match sent with
    | .equipment status => (m.setEquipmentSupplyLevel status.equipmentId status.supplyLevel).1
    | .quality checkpoint => (m.setQualityPassRate checkpoint.checkpointId checkpoint.passRate).1
    | _ => m
  else m

/-- A call without interruption is the write and then the snapshot. -/
theorem step_eq_write_snapshot (c : SimulatedModel) (call : Call) :
    (match call with
      | .setEquipmentSupplyLevel id level => c.setEquipmentSupplyLevel id level
      | .setQualityPassRate id rate => c.setQualityPassRate id rate) =
    match write c call with
    | none => (c, [])
    | some c' => snapshot c' call := by
  cases call with
  | setEquipmentSupplyLevel id level =>
      by_cases hid : id ≥ SimulatedModel.kEquipmentCount <;>
        simp [SimulatedModel.setEquipmentSupplyLevel, SimulatedModel.changeEquipment, write,
          snapshot, hid]
  | setQualityPassRate id rate =>
      by_cases hid : id ∉ c.qualityCheckpoints <;>
        simp [SimulatedModel.setQualityPassRate, write, snapshot, hid]

/-! ## Threads -/

inductive Stage where
  | idle
  | written (call : Call)
  /-- It has copied the record and is about to call the bridge. -/
  | snapped (sent : List Notification)

structure Thread where
  stage : Stage := .idle
  todo : List Call

structure System (θ : Type) where
  primary : SimulatedModel
  secondary : MirrorModel
  running : Bool := true
  threads : θ → Thread

variable {θ : Type} [DecidableEq θ]

/-- One step of a thread. -/
def System.step (s : System θ) (t : θ) : System θ :=
  let todo := (s.threads t).todo
  match (s.threads t).stage with
  | .idle =>
      match todo with
      | [] => s
      | call :: todo =>
          match write s.primary call with
          | none => { s with threads := Function.update s.threads t { todo := todo } }
          | some primary =>
              { s with
                primary := primary
                threads := Function.update s.threads t { stage := .written call, todo := todo } }
  | .written call =>
      { s with
        primary := (snapshot s.primary call).1
        threads := Function.update s.threads t
          { stage := .snapped (snapshot s.primary call).2, todo := todo } }
  | .snapped sent =>
      { s with
        secondary := sent.foldl (forward s.running) s.secondary
        threads := Function.update s.threads t { todo := todo } }

def System.run (s : System θ) (turns : List θ) : System θ := turns.foldl System.step s

/-! ## The fields as cells

A field of an entity is a cell of a store, so that a call writes, reads and forwards one
cell. -/

inductive Cell where
  | supplyLevel (equipmentId : Nat)
  | passRate (checkpointId : Nat)
  deriving DecidableEq

inductive Value where
  | level (level : ℤ)
  | rate (rate : Binary32)
  deriving DecidableEq

/-- The cells of either model, those of missing entities empty. -/
def cells (equipment : IdMap EquipmentStatus) (quality : IdMap QualityCheckpoint) :
    Cell → Option Value
  | .supplyLevel id => equipment[id]?.map fun status => .level status.supplyLevel
  | .passRate id => quality[id]?.map fun cp => .rate cp.passRate

def Call.cell : Call → Cell
  | .setEquipmentSupplyLevel id _ => .supplyLevel id
  | .setQualityPassRate id _ => .passRate id

/-- What the call writes. -/
def Call.value : Call → Value
  | .setEquipmentSupplyLevel _ level =>
      .level (max SimulatedModel.kSupplyLevelMin (min level SimulatedModel.kSupplyLevelMax))
  | .setQualityPassRate _ rate =>
      .rate (rate.clamp SimulatedModel.kQualityRateMin SimulatedModel.kQualityRateMax)

def Stage.view : Stage → Mirroring.Stage Cell (Option Value)
  | .idle => .idle
  | .written call => .written call.cell
  | .snapped [.equipment status] =>
      .holding (.supplyLevel status.equipmentId) (some (.level status.supplyLevel))
  | .snapped [.quality cp] => .holding (.passRate cp.checkpointId) (some (.rate cp.passRate))
  | .snapped _ => .idle

def Thread.view (t : Thread) : Mirroring.Thread Cell (Option Value) where
  stage := t.stage.view
  todo := t.todo.map fun call => (call.cell, some call.value)

/-- The two models as stores of cells. -/
def System.view (s : System θ) : Mirroring.Stores θ Cell (Option Value) where
  primary := cells s.primary.equipmentStatuses s.primary.qualityCheckpoints
  secondary := cells s.secondary.equipment s.secondary.quality
  threads t := (s.threads t).view

/-! ## Valid cells -/

/-- The entity is in the primary, in the range of its setter, under its own id. -/
def InPrimary (c : SimulatedModel) : Cell → Prop
  | .supplyLevel id =>
      id < SimulatedModel.kEquipmentCount ∧
        ∃ status, c.equipmentStatuses[id]? = some status ∧ status.equipmentId = id
  | .passRate id => ∃ cp, c.qualityCheckpoints[id]? = some cp ∧ cp.checkpointId = id

/-- The entity is in the secondary. -/
def InSecondary (m : MirrorModel) : Cell → Prop
  | .supplyLevel id => id ∈ m.equipment
  | .passRate id => id ∈ m.quality

/-- The secondary stores the value as it is. -/
def Value.Stable : Value → Prop
  | .level v => max MirrorModel.kMinSupplyLevel (min v MirrorModel.kMaxSupplyLevel) = v
  | .rate v => v.clamp MirrorModel.kMinPassRate MirrorModel.kMaxPassRate = v

/-- A value in the range of the primary is in that of the secondary. -/
theorem Call.value_stable (call : Call) : call.value.Stable := by
  cases call with
  | setEquipmentSupplyLevel id level =>
      simp only [Call.value, Value.Stable, SimulatedModel.kSupplyLevelMin,
        SimulatedModel.kSupplyLevelMax, MirrorModel.kMinSupplyLevel, MirrorModel.kMaxSupplyLevel]
      omega
  | setQualityPassRate id rate =>
      exact Binary32.clamp_clamp_of_wider (by decide) (by decide) (by decide) (by decide)
        (by decide) (by decide) rate

/-! ## The three steps on cells -/

theorem cells_subscript_equipment {equipment : IdMap EquipmentStatus} (id : Nat) (level : ℤ)
    (quality : IdMap QualityCheckpoint) :
    cells (equipment.subscript id fun status => { status with supplyLevel := level }) quality =
      Function.update (cells equipment quality) (.supplyLevel id) (some (.level level)) := by
  funext k
  cases k with
  | supplyLevel id' =>
      simp only [Function.update_apply, Cell.supplyLevel.injEq]
      exact IdMap.map_get_subscript equipment id (fun _ => rfl) id'
  | passRate id' => rw [Function.update_of_ne (by simp)]; rfl

theorem cells_subscript_quality {quality : IdMap QualityCheckpoint} (id : Nat) (rate : Binary32)
    (equipment : IdMap EquipmentStatus) :
    cells equipment (quality.subscript id fun cp => { cp with passRate := rate }) =
      Function.update (cells equipment quality) (.passRate id) (some (.rate rate)) := by
  funext k
  cases k with
  | passRate id' =>
      simp only [Function.update_apply, Cell.passRate.injEq]
      exact IdMap.map_get_subscript quality id (fun _ => rfl) id'
  | supplyLevel id' => rw [Function.update_of_ne (by simp)]; rfl

/-- The write of a valid call changes its cell and nothing else. -/
theorem write_valid {c : SimulatedModel} {call : Call} (h : InPrimary c call.cell) :
    ∃ c', write c call = some c' ∧
      cells c'.equipmentStatuses c'.qualityCheckpoints =
        Function.update (cells c.equipmentStatuses c.qualityCheckpoints) call.cell
          (some call.value) := by
  cases call with
  | setEquipmentSupplyLevel id level =>
      have hid : ¬ id ≥ SimulatedModel.kEquipmentCount := not_le.mpr h.1
      exact ⟨_, if_neg hid, cells_subscript_equipment id _ _⟩
  | setQualityPassRate id rate =>
      obtain ⟨cp, hcp, -⟩ := h
      have hid : ¬ id ∉ c.qualityCheckpoints :=
        not_not.mpr (Std.ExtTreeMap.mem_iff_isSome_getElem?.mpr (by rw [hcp]; rfl))
      exact ⟨_, if_neg hid, cells_subscript_quality id _ _⟩

theorem get_subscript_own {ν : Type} [Inhabited ν] {idOf : ν → Nat} {m : IdMap ν} {f : ν → ν}
    (hf : ∀ v, idOf (f v) = idOf v) (id : Nat) {k : Nat} (h : ∃ v, m[k]? = some v ∧ idOf v = k) :
    ∃ v, (m.subscript id f)[k]? = some v ∧ idOf v = k := by
  obtain ⟨v, hv, hid⟩ := h
  by_cases hk : id = k
  · subst hk
    exact ⟨f v, by rw [IdMap.get_subscript_self, hv, Option.getD_some], (hf v).trans hid⟩
  · exact ⟨v, by rw [IdMap.get_subscript_of_ne _ _ hk, hv], hid⟩

/-- A write keeps every valid cell valid. -/
theorem inPrimary_write {c c' : SimulatedModel} {call : Call} (hwrite : write c call = some c')
    {k : Cell} (h : InPrimary c k) : InPrimary c' k := by
  cases call with
  | setEquipmentSupplyLevel id level =>
      simp only [write] at hwrite
      split at hwrite
      next => cases hwrite
      next =>
        obtain rfl := Option.some.inj hwrite
        cases k with
        | supplyLevel id' => exact ⟨h.1, get_subscript_own (by exact fun _ => rfl) id h.2⟩
        | passRate id' => exact h
  | setQualityPassRate id rate =>
      simp only [write] at hwrite
      split at hwrite
      next => cases hwrite
      next =>
        obtain rfl := Option.some.inj hwrite
        cases k with
        | supplyLevel id' => exact h
        | passRate id' => exact get_subscript_own (by exact fun _ => rfl) id h

/-- The snapshot of a valid call changes nothing and holds the value of its cell. -/
theorem snapshot_valid {c : SimulatedModel} {call : Call} (h : InPrimary c call.cell) :
    (snapshot c call).1 = c ∧
      Stage.view (.snapped (snapshot c call).2) =
        .holding call.cell (cells c.equipmentStatuses c.qualityCheckpoints call.cell) := by
  cases call with
  | setEquipmentSupplyLevel id level =>
      obtain ⟨-, status, hstatus, rfl⟩ := h
      refine ⟨rfl, ?_⟩
      simp only [snapshot, SimulatedModel.notifyEquipmentChange, hstatus, Option.toList_some,
        List.map_cons, List.map_nil, Stage.view, Call.cell, cells, Option.map_some]
  | setQualityPassRate id rate =>
      obtain ⟨cp, hcp, rfl⟩ := h
      have hmem : cp.checkpointId ∈ c.qualityCheckpoints :=
        Std.ExtTreeMap.mem_iff_isSome_getElem?.mpr (by rw [hcp]; rfl)
      constructor
      · simp only [snapshot, SimulatedModel.notifyQualityChange, IdMap.subscript_of_mem hmem]
      · simp only [snapshot, SimulatedModel.notifyQualityChange, IdMap.subscript_of_mem hmem, hcp,
          Option.toList_some, List.map_cons, List.map_nil, Stage.view, Call.cell, cells,
          Option.map_some]

/-- A snapshot that the secondary stores as it is. -/
def Deliverable (m : MirrorModel) (sent : List Notification) : Prop :=
  ∃ k v, Stage.view (.snapped sent) = .holding k (some v) ∧ InSecondary m k ∧ v.Stable

/-- A stage that holds a value holds the snapshot of one record. -/
theorem snapped_cases {sent : List Notification} {k : Cell} {v : Value}
    (h : Stage.view (.snapped sent) = .holding k (some v)) :
    (∃ status : EquipmentStatus, sent = [.equipment status] ∧
      k = .supplyLevel status.equipmentId ∧ v = .level status.supplyLevel) ∨
    ∃ cp : QualityCheckpoint, sent = [.quality cp] ∧
      k = .passRate cp.checkpointId ∧ v = .rate cp.passRate := by
  generalize hstage : Stage.snapped sent = stage at h
  unfold Stage.view at h
  split at h
  next => cases h
  next => cases hstage
  next status =>
    obtain rfl := Stage.snapped.inj hstage
    injection h with hk hv
    exact .inl ⟨status, rfl, hk.symm, (Option.some.inj hv).symm⟩
  next cp =>
    obtain rfl := Stage.snapped.inj hstage
    injection h with hk hv
    exact .inr ⟨cp, rfl, hk.symm, (Option.some.inj hv).symm⟩
  next => cases h

/-- Forwarding a deliverable snapshot sets its cell of the secondary and nothing else. -/
theorem forward_deliverable {m : MirrorModel} {sent : List Notification} {k : Cell} {v : Value}
    (hview : Stage.view (.snapped sent) = .holding k (some v)) (hk : InSecondary m k)
    (hv : v.Stable) :
    cells (sent.foldl (forward true) m).equipment (sent.foldl (forward true) m).quality =
        Function.update (cells m.equipment m.quality) k (some v) ∧
      ∀ k', InSecondary m k' → InSecondary (sent.foldl (forward true) m) k' := by
  obtain ⟨status, rfl, rfl, rfl⟩ | ⟨cp, rfl, rfl, rfl⟩ := snapped_cases hview
  · have hlevel : max MirrorModel.kMinSupplyLevel
        (min status.supplyLevel MirrorModel.kMaxSupplyLevel) = status.supplyLevel := hv
    simp only [List.foldl_cons, List.foldl_nil, forward, if_true,
      MirrorModel.setEquipmentSupplyLevel, MirrorModel.changeEquipment, hlevel]
    have hid : status.equipmentId ∈ m.equipment := hk
    rw [← IdMap.subscript_eq_modify hid]
    refine ⟨cells_subscript_equipment _ _ _, fun k' hk' => ?_⟩
    cases k' with
    | supplyLevel id => exact (IdMap.mem_subscript _ _ _ _).mpr (.inr hk')
    | passRate id => exact hk'
  · have hrate : cp.passRate.clamp MirrorModel.kMinPassRate MirrorModel.kMaxPassRate =
        cp.passRate := hv
    simp only [List.foldl_cons, List.foldl_nil, forward, if_true,
      MirrorModel.setQualityPassRate, hrate]
    have hid : cp.checkpointId ∈ m.quality := hk
    rw [← IdMap.subscript_eq_modify hid]
    refine ⟨cells_subscript_quality _ _ _, fun k' hk' => ?_⟩
    cases k' with
    | supplyLevel id => exact hk'
    | passRate id => exact (IdMap.mem_subscript _ _ _ _).mpr (.inr hk')

end Bridge
