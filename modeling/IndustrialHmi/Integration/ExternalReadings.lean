import Mathlib.Data.List.Induction
import IndustrialHmi.Integration.SensorRates
import IndustrialHmi.Theory.Since

/-!
# Readings from outside

Supply levels and pass rates come from ingest bridges.  No operation of the simulation writes
a supply level.  A pass rate is written by every tick, unless the checkpoint is marked as
driven from outside, and the mark is set by the first reading the model accepts and never
taken away.
-/

namespace Production

open Sensor

namespace SimulatedModel

/-! ## What is read -/

def supplyLevel? (c : SimulatedModel) (id : Nat) : Option ℤ :=
  c.equipmentStatuses[id]?.map (·.supplyLevel)

def passRate? (c : SimulatedModel) (id : Nat) : Option Binary32 :=
  c.qualityCheckpoints[id]?.map (·.passRate)

/-- A run in which `setQualityPassRate` was called for the checkpoint and accepted. -/
def Accepted (c : SimulatedModel) (run : List Op) (id : Nat) : Prop :=
  ∃ before rate later, run = before ++ .setQualityPassRate id rate :: later ∧
    id ∈ (c.after before).qualityCheckpoints

/-- The operations that leave readings alone: all but the external writer of supply levels
and the initialisation.  The external writer of pass rates is one of them, for the other
checkpoints. -/
def Op.KeepsReadings : Op → Prop
  | .setEquipmentSupplyLevel _ _ | .initializeDemoData => False
  | _ => True

/-- What a run after a history does to the readings. -/
structure ReadingsKept (history run : List Op) : Prop where
  /-- Supply levels are unchanged. -/
  supplyLevel : ∀ id level, (({} : SimulatedModel).after history).supplyLevel? id = some level →
    ((({} : SimulatedModel).after history).after run).supplyLevel? id = some level
  /-- The rate of a checkpoint that had an accepted reading is unchanged until the next. -/
  passRate : ∀ id, Accepted {} history id →
    ¬ Accepted (({} : SimulatedModel).after history) run id →
    ∃ rate, (({} : SimulatedModel).after history).passRate? id = some rate ∧
      ((({} : SimulatedModel).after history).after run).passRate? id = some rate
  /-- The rate of any other checkpoint stays within the limits. -/
  withinLimits : ∀ id rate, ¬ Accepted {} history id →
    ¬ Accepted (({} : SimulatedModel).after history) run id →
    (({} : SimulatedModel).after history).passRate? id = some rate → WithinLimits rate →
    ∃ rate', ((({} : SimulatedModel).after history).after run).passRate? id = some rate' ∧
      WithinLimits rate'

/-! ## Supply levels -/

/-- An entry that is there reads as before, when the change leaves alone what is read. -/
theorem map_get_subscript_of_keeps {ν α : Type} [Inhabited ν] {read : ν → α} {m : IdMap ν}
    {k : Nat} (hk : k ∈ m) (id : Nat) {f : ν → ν} (hf : ∀ v, read (f v) = read v) :
    (m.subscript id f)[k]?.map read = m[k]?.map read := by
  rw [IdMap.get_subscript]
  split
  next hid =>
    subst hid
    rw [Std.ExtTreeMap.getElem?_eq_some_getElem hk, Option.getD_some, Option.map_some, hf,
      Option.map_some]
  next => rfl

theorem supplyLevel?_step {c : SimulatedModel} {op : Op} (hop : op.KeepsReadings) {id : Nat}
    (hid : id ∈ c.equipmentStatuses) : (c.step op).1.supplyLevel? id = c.supplyLevel? id := by
  cases op with
  | startProduction =>
      simp only [step, startProduction, simulateProductionCycle, andThen_fst]
      split
      next => exact map_get_subscript_of_keeps hid _ fun _ => rfl
      next => rfl
  | setEquipmentEnabled id' enabled =>
      simp only [step, setEquipmentEnabled, changeEquipment]
      split
      next => rfl
      next => exact map_get_subscript_of_keeps hid _ fun _ => rfl
  | setQualityPassRate id' rate =>
      exact (congrArg (supplyLevel? · id) (c.setQualityPassRate_keeps id' rate)).trans rfl
  | loadProduct product recipe =>
      exact (congrArg (supplyLevel? · id) (c.loadProduct_keeps product recipe)).trans rfl
  | tickSimulation draws now =>
      exact (congrArg (supplyLevel? · id) (c.tickSimulation_keeps draws now)).trans rfl
  | republishAll => exact congrArg (supplyLevel? · id) c.republishAll_keeps
  | setEquipmentSupplyLevel id' level => exact hop.elim
  | initializeDemoData => exact hop.elim
  | _ => rfl

theorem mem_of_supplyLevel? {c : SimulatedModel} {id : Nat} {level : ℤ}
    (h : c.supplyLevel? id = some level) : id ∈ c.equipmentStatuses := by
  obtain ⟨status, hstatus, -⟩ := Option.map_eq_some_iff.mp h
  exact Std.ExtTreeMap.mem_iff_isSome_getElem?.mpr (Option.isSome_of_eq_some hstatus)

theorem supplyLevel?_after {c : SimulatedModel} {run : List Op}
    (hrun : ∀ op ∈ run, op.KeepsReadings) {id : Nat} {level : ℤ}
    (h : c.supplyLevel? id = some level) : (c.after run).supplyLevel? id = some level := by
  induction run generalizing c with
  | nil => exact h
  | cons op run ih =>
      obtain ⟨hop, hlater⟩ := List.forall_mem_cons.mp hrun
      exact ih hlater ((supplyLevel?_step hop (mem_of_supplyLevel? h)).trans h)

/-! ## The marked checkpoints -/

/-- The operation is an accepted reading for the checkpoint. -/
def Op.Accepts (c : SimulatedModel) (id : Nat) : Op → Prop
  | .setQualityPassRate id' _ => id' = id ∧ id ∈ c.qualityCheckpoints
  | _ => False

theorem not_accepted_nil {c : SimulatedModel} {id : Nat} : ¬ Accepted c [] id := by
  rintro ⟨before, rate, later, hrun, -⟩
  exact List.append_ne_nil_of_right_ne_nil before (List.cons_ne_nil _ later) hrun.symm

theorem accepted_concat {c : SimulatedModel} {run : List Op} {op : Op} {id : Nat} :
    Accepted c (run ++ [op]) id ↔ Accepted c run id ∨ op.Accepts (c.after run) id := by
  constructor
  · rintro ⟨before, rate, later, hrun, hmem⟩
    rcases concat_eq_split hrun with ⟨rfl, rfl, rfl⟩ | ⟨middle, rfl, rfl⟩
    · exact .inr ⟨rfl, hmem⟩
    · exact .inl ⟨before, rate, middle, rfl, hmem⟩
  · rintro (⟨before, rate, later, rfl, hmem⟩ | haccepts)
    · exact ⟨before, rate, later ++ [op], by rw [List.append_assoc, List.cons_append], hmem⟩
    · cases op with
      | setQualityPassRate id' rate =>
          obtain ⟨rfl, hmem⟩ := haccepts
          exact ⟨run, rate, [], rfl, hmem⟩
      | _ => exact haccepts.elim

theorem mem_overrides_step {c : SimulatedModel} {op : Op} {id : Nat} :
    id ∈ (c.step op).1.externalPassRateOverrides ↔
      id ∈ c.externalPassRateOverrides ∨ op.Accepts c id := by
  cases op with
  | startProduction =>
      rw [step, startProduction_keeps]
      exact (or_iff_left (fun h => h)).symm
  | setEquipmentEnabled id' enabled =>
      rw [step, setEquipmentEnabled, changeEquipment_keeps]
      exact (or_iff_left (fun h => h)).symm
  | setEquipmentSupplyLevel id' level =>
      rw [step, setEquipmentSupplyLevel, changeEquipment_keeps]
      exact (or_iff_left (fun h => h)).symm
  | setQualityPassRate id' rate =>
      simp only [step, setQualityPassRate, notifyQualityChange, Op.Accepts]
      split
      next hmissing =>
        exact (or_iff_left fun h : id' = id ∧ _ => hmissing (h.1 ▸ h.2)).symm
      next hmem =>
        rw [List.mem_insert_iff, or_comm]
        exact or_congr_right ⟨fun h => ⟨h.symm, h ▸ not_not.mp hmem⟩, fun h => h.1.symm⟩
  | loadProduct product recipe =>
      rw [step, loadProduct_keeps]
      exact (or_iff_left (fun h => h)).symm
  | tickSimulation draws now =>
      rw [step, tickSimulation_keeps]
      exact (or_iff_left (fun h => h)).symm
  | republishAll =>
      rw [step, republishAll_keeps]
      exact (or_iff_left (fun h => h)).symm
  | initializeDemoData =>
      rw [step, initializeDemoData_keeps]
      exact (or_iff_left (fun h => h)).symm
  | _ => exact (or_iff_left (fun h => h)).symm

/-- Exactly the checkpoints with an accepted reading are marked. -/
theorem mem_overrides_after {c : SimulatedModel} (run : List Op) {id : Nat} :
    id ∈ (c.after run).externalPassRateOverrides ↔
      id ∈ c.externalPassRateOverrides ∨ Accepted c run id := by
  induction run using List.reverseRecOn with
  | nil => exact (or_iff_left not_accepted_nil).symm
  | append_singleton run op ih =>
      rw [after_concat, mem_overrides_step, ih, accepted_concat, or_assoc]

theorem mem_qualityCheckpoints_after {c : SimulatedModel} {id : Nat}
    (h : id ∈ c.qualityCheckpoints) (run : List Op) :
    id ∈ (c.after run).qualityCheckpoints := by
  induction run using List.reverseRecOn with
  | nil => exact h
  | append_singleton run op ih =>
      rw [after_concat]
      exact (mem_qualityCheckpoints_step _ op id).mpr (.inr ih)

/-- A checkpoint with an accepted reading exists from then on. -/
theorem mem_of_accepted {c : SimulatedModel} {run : List Op} {id : Nat}
    (h : Accepted c run id) : id ∈ (c.after run).qualityCheckpoints := by
  obtain ⟨before, rate, later, rfl, hmem⟩ := h
  rw [after_append]
  exact mem_qualityCheckpoints_after hmem _

/-! ## Pass rates -/

/-- The rates an operation other than a reading and a tick leaves. -/
theorem passRate?_step {c : SimulatedModel} {op : Op} (hop : op.KeepsReadings) {id : Nat}
    (hid : id ∈ c.qualityCheckpoints) (haccepts : ¬ op.Accepts c id)
    (hmarked : id ∈ c.externalPassRateOverrides ∨ ∀ draws now, op ≠ .tickSimulation draws now) :
    (c.step op).1.passRate? id = c.passRate? id := by
  cases op with
  | startProduction => exact (congrArg (passRate? · id) c.startProduction_keeps).trans rfl
  | setEquipmentEnabled id' enabled =>
      exact (congrArg (passRate? · id) (c.changeEquipment_keeps id' _)).trans rfl
  | setQualityPassRate id' rate =>
      have hother : id' ≠ id := fun h => haccepts ⟨h, hid⟩
      simp only [step, setQualityPassRate, notifyQualityChange]
      split
      next => rfl
      next =>
        simp only [passRate?, IdMap.get_subscript_of_ne _ _ hother]
  | loadProduct product recipe =>
      simp only [step, loadProduct, andThen_fst, notifyQualityChanges_keys, passRate?,
        Std.ExtTreeMap.getElem?_map, Option.map_map]
      rfl
  | tickSimulation draws now =>
      have hin := hmarked.resolve_right fun h => h draws now rfl
      rw [step, tickSimulation_keeps]
      simp only [passRate?, Std.ExtTreeMap.getElem?_map, Option.map_map, Function.comp_def,
        tickCheckpoint, if_pos hin]
  | republishAll => exact congrArg (passRate? · id) c.republishAll_keeps
  | notifyQualityChange id' =>
      simp only [step, SimulatedModel.notifyQualityChange, passRate?]
      exact map_get_subscript_of_keeps hid _ fun _ => rfl
  | setEquipmentSupplyLevel id' level => exact hop.elim
  | initializeDemoData => exact hop.elim
  | _ => rfl

theorem passRate?_of_mem {c : SimulatedModel} {id : Nat} (h : id ∈ c.qualityCheckpoints) :
    ∃ rate, c.passRate? id = some rate := by
  rw [passRate?, Std.ExtTreeMap.getElem?_eq_some_getElem h]
  exact ⟨_, rfl⟩

theorem mem_of_passRate? {c : SimulatedModel} {id : Nat} {rate : Binary32}
    (h : c.passRate? id = some rate) : id ∈ c.qualityCheckpoints := by
  obtain ⟨cp, hcp, -⟩ := Option.map_eq_some_iff.mp h
  exact Std.ExtTreeMap.mem_iff_isSome_getElem?.mpr (Option.isSome_of_eq_some hcp)

/-- A marked checkpoint keeps its rate until the next accepted reading. -/
theorem passRate?_after {c : SimulatedModel} {run : List Op}
    (hrun : ∀ op ∈ run, op.KeepsReadings) {id : Nat} {rate : Binary32}
    (hmarked : id ∈ c.externalPassRateOverrides) (hnone : ¬ Accepted c run id)
    (h : c.passRate? id = some rate) : (c.after run).passRate? id = some rate := by
  induction run using List.reverseRecOn with
  | nil => exact h
  | append_singleton run op ih =>
      obtain ⟨hearlier, hop⟩ := List.forall_mem_append.mp hrun
      obtain ⟨hnotRun, hnotOp⟩ := not_or.mp fun hor => hnone (accepted_concat.mpr hor)
      have hbefore := ih hearlier hnotRun
      rw [after_concat, passRate?_step (hop op List.mem_cons_self) (mem_of_passRate? hbefore) hnotOp
        (.inl ((mem_overrides_after run).mpr (.inl hmarked)))]
      exact hbefore

/-- A tick keeps a rate within the limits. -/
theorem withinLimits_tick {c : SimulatedModel} {id : Nat} {rate : Binary32}
    (h : c.passRate? id = some rate) (hrate : WithinLimits rate) (draws : Draws) (now : ℤ) :
    ∃ rate', (c.tickSimulation draws now).1.passRate? id = some rate' ∧ WithinLimits rate' := by
  obtain ⟨cp, hcp, rfl⟩ := Option.map_eq_some_iff.mp h
  refine ⟨(c.tickCheckpoint draws id cp).passRate, ?_, ?_⟩
  · simp only [tickSimulation, andThen_fst, notifyQualityChanges_keys, passRate?]
    split <;> simp only [Std.ExtTreeMap.getElem?_map, hcp, Option.map_some]
  · exact withinLimits_tickCheckpoint draws id hrate

theorem withinLimits_step {c : SimulatedModel} {op : Op} (hop : op.KeepsReadings) {id : Nat}
    (haccepts : ¬ op.Accepts c id) {rate : Binary32} (h : c.passRate? id = some rate)
    (hrate : WithinLimits rate) :
    ∃ rate', (c.step op).1.passRate? id = some rate' ∧ WithinLimits rate' := by
  cases op with
  | tickSimulation draws now => exact withinLimits_tick h hrate draws now
  | _ =>
      refine ⟨rate, (passRate?_step hop (mem_of_passRate? h) haccepts (.inr ?_)).trans h, hrate⟩
      intro draws now hop
      cases hop

theorem withinLimits_after {c : SimulatedModel} {run : List Op}
    (hrun : ∀ op ∈ run, op.KeepsReadings) {id : Nat} {rate : Binary32}
    (hnone : ¬ Accepted c run id) (h : c.passRate? id = some rate) (hrate : WithinLimits rate) :
    ∃ rate', (c.after run).passRate? id = some rate' ∧ WithinLimits rate' := by
  induction run using List.reverseRecOn with
  | nil => exact ⟨rate, h, hrate⟩
  | append_singleton run op ih =>
      obtain ⟨hearlier, hop⟩ := List.forall_mem_append.mp hrun
      obtain ⟨hnotRun, hnotOp⟩ := not_or.mp fun hor => hnone (accepted_concat.mpr hor)
      obtain ⟨rate', hbefore, hwithin⟩ := ih hearlier hnotRun
      rw [after_concat]
      exact withinLimits_step (hop op List.mem_cons_self) hnotOp hbefore hwithin

/-! ## The law -/

/-- From every reachable state, every run without the writer of supply levels and the
initialisation keeps the readings from outside. -/
theorem readings_kept (history run : List Op) (hrun : ∀ op ∈ run, op.KeepsReadings) :
    ReadingsKept history run where
  supplyLevel id level h := supplyLevel?_after hrun h
  passRate id haccepted hnone := by
    obtain ⟨rate, hrate⟩ := passRate?_of_mem (mem_of_accepted haccepted)
    have hmarked := (mem_overrides_after history).mpr (.inr haccepted)
    exact ⟨rate, hrate, passRate?_after hrun hmarked hnone hrate⟩
  withinLimits id rate _ hnone h hrate := withinLimits_after hrun hnone h hrate

/-- A tick in which nothing is random. -/
def stillDraws : Draws where
  rateDist _ := 0
  unitDist _ := 1
  rateDist_le _ := by norm_num [kQualityRateJitter]
  unitDist_mem _ := by norm_num [kMinUnitsPerTick, kMaxUnitsPerTick]

theorem reading_survives_tick :
    ReadingsKept [.initializeDemoData, .setQualityPassRate 0 (.fin 90)]
      [.startProduction, .tickSimulation stillDraws 0, .setQualityPassRate 1 (.fin 88),
        .resetSystem] :=
  readings_kept _ _ (by simp [Op.KeepsReadings])

end SimulatedModel

end Production
