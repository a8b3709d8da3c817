import IndustrialHmi.Model.MirrorModel
import IndustrialHmi.Model.SimulatedModel
import IndustrialHmi.Theory.Transducer

/-!
# The contract of the inbound setters

Ingest bridges set analog values on a production model, whichever it is.  The contract: an id
that is not there is dropped, a value is clamped to the domain of its field, and the observers are
told the id and the new value.  `Panel` is a model that does this and nothing else.

The mirror keeps the contract.  The simulated model has a bound of its own on the ids of lines and
a smaller domain for pass rates; `interchangeable_iff` says for which calls this is not seen.
-/

namespace Production

/-- A call of an inbound setter. -/
inductive InboundCall where
  | setEquipmentSupplyLevel (equipmentId : Nat) (level : ℤ)
  | setQualityPassRate (checkpointId : Nat) (rate : Binary32)
  deriving DecidableEq

/-- What observers are told. -/
inductive Told where
  | supplyLevel (equipmentId : Nat) (level : ℤ)
  | passRate (checkpointId : Nat) (rate : Binary32)
  deriving DecidableEq

/-! ## The contract -/

structure Panel where
  supplyLevel : Nat → Option ℤ
  passRate : Nat → Option Binary32

namespace Panel

def clampLevel (level : ℤ) : ℤ := max 0 (min level 100)
def clampRate (rate : Binary32) : Binary32 := rate.clamp (.fin 0) (.fin 100)

def set (p : Panel) : InboundCall → List Told × Panel
  | .setEquipmentSupplyLevel id level =>
      if (p.supplyLevel id).isSome then
        ([.supplyLevel id (clampLevel level)],
          { p with supplyLevel := Function.update p.supplyLevel id (some (clampLevel level)) })
      else ([], p)
  | .setQualityPassRate id rate =>
      if (p.passRate id).isSome then
        ([.passRate id (clampRate rate)],
          { p with passRate := Function.update p.passRate id (some (clampRate rate)) })
      else ([], p)

end Panel

/-- What a call sets the level of a line to, if it is about that line. -/
def InboundCall.levelFor (id : Nat) : InboundCall → Option ℤ
  | .setEquipmentSupplyLevel id' level => if id' = id then some level else none
  | .setQualityPassRate _ _ => none

def InboundCall.rateFor (id : Nat) : InboundCall → Option Binary32
  | .setQualityPassRate id' rate => if id' = id then some rate else none
  | .setEquipmentSupplyLevel _ _ => none

/-- The last value that was set, clamped; or the value from before the calls. -/
def lastLevel (id : Nat) (calls : List InboundCall) (old : ℤ) : ℤ :=
  ((calls.filterMap (InboundCall.levelFor id)).getLast?.map Panel.clampLevel).getD old

def lastRate (id : Nat) (calls : List InboundCall) (old : Binary32) : Binary32 :=
  ((calls.filterMap (InboundCall.rateFor id)).getLast?.map Panel.clampRate).getD old

/-! ## The two models -/

/-- The id and the value of a notification about a field that is set. -/
def Notification.told : Notification → Option Told
  | .equipment status => some (.supplyLevel status.equipmentId status.supplyLevel)
  | .quality checkpoint => some (.passRate checkpoint.checkpointId checkpoint.passRate)
  | _ => none

def SimulatedModel.inbound (c : SimulatedModel) (call : InboundCall) :
    List Told × SimulatedModel :=
  let e : Effect :=
    match call with
    | .setEquipmentSupplyLevel id level => c.setEquipmentSupplyLevel id level
    | .setQualityPassRate id rate => c.setQualityPassRate id rate
  (e.2.filterMap Notification.told, e.1)

def MirrorModel.inbound (m : MirrorModel) (call : InboundCall) : List Told × MirrorModel :=
  match call with
  | .setEquipmentSupplyLevel id level =>
      let r := m.setEquipmentSupplyLevel id level
      ((r.2.map Notification.equipment).toList.filterMap Notification.told, r.1)
  | .setQualityPassRate id rate =>
      let r := m.setQualityPassRate id rate
      ((r.2.map Notification.quality).toList.filterMap Notification.told, r.1)

/-! ## Maps that show a field -/

/-- The map has a record for each id that has a value, with the id and the value in it. -/
def ShowsField {ν α : Type} (key : ν → Nat) (value : ν → α) (m : IdMap ν)
    (f : Nat → Option α) : Prop :=
  ∀ id, m[id]?.map (fun v => (key v, value v)) = (f id).map fun a => (id, a)

section ShowsField

variable {ν α : Type} [Inhabited ν] {key : ν → Nat} {value : ν → α} {m : IdMap ν}
  {f : Nat → Option α}

omit [Inhabited ν] in
theorem ShowsField.mem_iff (h : ShowsField key value m f) (id : Nat) :
    id ∈ m ↔ (f id).isSome = true := by
  have hid := congrArg Option.isSome (h id)
  rw [Option.isSome_map, Option.isSome_map] at hid
  rw [← hid]
  exact Std.ExtTreeMap.isSome_getElem?_iff_mem.symm

omit [Inhabited ν] in
theorem ShowsField.value_eq (h : ShowsField key value m f) (id : Nat) :
    m[id]?.map value = f id := by
  have hid := congrArg (Option.map Prod.snd) (h id)
  simpa [Function.comp_def] using hid

/-- A record that is there is changed, and then found with its id and the new value. -/
theorem ShowsField.subscript (h : ShowsField key value m f) {id : Nat} (hid : id ∈ m)
    (change : ν → ν) (a : α) (hkey : ∀ v, key (change v) = key v)
    (hvalue : ∀ v, value (change v) = a) :
    ShowsField key value (m.subscript id change) (Function.update f id (some a)) ∧
      ∃ v, (m.subscript id change)[id]? = some v ∧ key v = id ∧ value v = a := by
  obtain ⟨v, hv⟩ := Option.isSome_iff_exists.mp (Std.ExtTreeMap.isSome_getElem?_iff_mem.mpr hid)
  obtain ⟨old, hold⟩ := Option.isSome_iff_exists.mp ((h.mem_iff id).mp hid)
  have hrecord := h id
  rw [hv, hold] at hrecord
  have hown : key (change v) = id :=
    (hkey v).trans (congrArg Prod.fst (Option.some.inj hrecord))
  have hnew : (m.subscript id change)[id]? = some (change v) := by
    rw [IdMap.get_subscript_self, hv, Option.getD_some]
  refine ⟨fun k => ?_, change v, hnew, hown, hvalue v⟩
  by_cases hk : id = k
  · subst hk
    rw [hnew, Function.update_self, Option.map_some, Option.map_some, hown, hvalue]
  · rw [IdMap.get_subscript_of_ne m change hk, Function.update_of_ne (Ne.symm hk)]
    exact h k

end ShowsField

/-- The records of lines and checkpoints show what the panel has. -/
structure Shows (equipment : IdMap EquipmentStatus) (quality : IdMap QualityCheckpoint)
    (p : Panel) : Prop where
  levels :
    ShowsField EquipmentStatus.equipmentId EquipmentStatus.supplyLevel equipment p.supplyLevel
  rates : ShowsField QualityCheckpoint.checkpointId QualityCheckpoint.passRate quality p.passRate

theorem IdMap.modify_of_not_mem {ν : Type} {m : IdMap ν} {id : Nat} (h : id ∉ m) (f : ν → ν) :
    m.modify id f = m := by
  refine Std.ExtTreeMap.ext_getElem? fun k => ?_
  rw [Std.ExtTreeMap.getElem?_modify]
  split
  next hk =>
    obtain rfl := Nat.compare_eq_eq.mp hk
    rw [Std.ExtTreeMap.getElem?_eq_none h]
    rfl
  next => rfl

section Step

variable {m : MirrorModel} {c : SimulatedModel} {p : Panel}

/-- The mirror does what the contract says. -/
theorem MirrorModel.inbound_panel (h : Shows m.equipment m.quality p) (call : InboundCall) :
    (m.inbound call).1 = (p.set call).1 ∧
      Shows (m.inbound call).2.equipment (m.inbound call).2.quality (p.set call).2 := by
  cases call with
  | setEquipmentSupplyLevel id level =>
      have hclamp : max kMinSupplyLevel (min level kMaxSupplyLevel) = Panel.clampLevel level := rfl
      simp only [inbound, setEquipmentSupplyLevel, changeEquipment, Panel.set, hclamp]
      by_cases hid : id ∈ m.equipment
      · obtain ⟨hlevels, status, hstatus, hkey, hvalue⟩ := h.levels.subscript hid
          (fun status => { status with supplyLevel := Panel.clampLevel level })
          (Panel.clampLevel level) (fun _ => rfl) fun _ => rfl
        rw [if_pos ((h.levels.mem_iff id).mp hid), ← IdMap.subscript_eq_modify hid]
        refine ⟨?_, hlevels, h.rates⟩
        rw [hstatus]
        simp [Notification.told, hkey, hvalue]
      · rw [if_neg (mt (h.levels.mem_iff id).mpr hid), IdMap.modify_of_not_mem hid,
          Std.ExtTreeMap.getElem?_eq_none hid]
        exact ⟨rfl, h.levels, h.rates⟩
  | setQualityPassRate id rate =>
      have hclamp : rate.clamp kMinPassRate kMaxPassRate = Panel.clampRate rate := rfl
      simp only [inbound, setQualityPassRate, Panel.set, hclamp]
      by_cases hid : id ∈ m.quality
      · obtain ⟨hrates, cp, hcp, hkey, hvalue⟩ := h.rates.subscript hid
          (fun cp => { cp with passRate := Panel.clampRate rate })
          (Panel.clampRate rate) (fun _ => rfl) fun _ => rfl
        rw [if_pos ((h.rates.mem_iff id).mp hid), ← IdMap.subscript_eq_modify hid]
        refine ⟨?_, h.levels, hrates⟩
        rw [hcp]
        simp [Notification.told, hkey, hvalue]
      · rw [if_neg (mt (h.rates.mem_iff id).mpr hid), IdMap.modify_of_not_mem hid,
          Std.ExtTreeMap.getElem?_eq_none hid]
        exact ⟨rfl, h.levels, h.rates⟩

/-! ## The calls for which the simulated model keeps the contract -/

/-- The line is there just when its id is below the bound; a rate for a checkpoint that is there
is not below the smallest that the simulation uses. -/
def Kept (p : Panel) : InboundCall → Prop
  | .setEquipmentSupplyLevel id _ =>
      (p.supplyLevel id).isSome = true ↔ id < SimulatedModel.kEquipmentCount
  | .setQualityPassRate id rate =>
      (p.passRate id).isSome = true → rate.lt SimulatedModel.kQualityRateMin = false

theorem clampRate_of_not_lt {rate : Binary32} (h : rate.lt SimulatedModel.kQualityRateMin = false) :
    rate.clamp SimulatedModel.kQualityRateMin SimulatedModel.kQualityRateMax =
      Panel.clampRate rate := by
  have hzero : rate.lt (.fin 0) = false :=
    Binary32.not_lt_trans (b := SimulatedModel.kQualityRateMin) nofun h (by decide)
  rw [Binary32.clamp, Panel.clampRate, Binary32.clamp, h, hzero]
  rfl

theorem clampRate_of_lt {rate : Binary32} (h : rate.lt SimulatedModel.kQualityRateMin = true) :
    rate.clamp SimulatedModel.kQualityRateMin SimulatedModel.kQualityRateMax ≠
      Panel.clampRate rate := by
  rw [Binary32.clamp, if_pos h, Panel.clampRate, Binary32.clamp]
  split
  next => decide
  next =>
    split
    next => decide
    next =>
      rintro rfl
      exact absurd h (by decide)

theorem SimulatedModel.inbound_panel (h : Shows c.equipmentStatuses c.qualityCheckpoints p)
    {call : InboundCall} (hkept : Kept p call) :
    (c.inbound call).1 = (p.set call).1 ∧
      Shows (c.inbound call).2.equipmentStatuses (c.inbound call).2.qualityCheckpoints
        (p.set call).2 := by
  cases call with
  | setEquipmentSupplyLevel id level =>
      have hclamp : max kSupplyLevelMin (min level kSupplyLevelMax) = Panel.clampLevel level := rfl
      simp only [inbound, setEquipmentSupplyLevel, changeEquipment, Panel.set, hclamp]
      by_cases hrange : id < kEquipmentCount
      · have hid := hkept.mpr hrange
        obtain ⟨hlevels, status, hstatus, hkey, hvalue⟩ :=
          h.levels.subscript ((h.levels.mem_iff id).mpr hid)
            (fun status => { status with supplyLevel := Panel.clampLevel level })
            (Panel.clampLevel level) (fun _ => rfl) fun _ => rfl
        rw [if_neg (Nat.not_le.mpr hrange), if_pos hid]
        refine ⟨?_, hlevels, h.rates⟩
        rw [notifyEquipmentChange, hstatus]
        simp [Notification.told, hkey, hvalue]
      · rw [if_pos (Nat.not_lt.mp hrange), if_neg (mt hkept.mp hrange)]
        exact ⟨rfl, h.levels, h.rates⟩
  | setQualityPassRate id rate =>
      simp only [inbound, setQualityPassRate, Panel.set]
      by_cases hid : id ∈ c.qualityCheckpoints
      · have hsome := (h.rates.mem_iff id).mp hid
        obtain ⟨hrates, cp, hcp, hkey, hvalue⟩ := h.rates.subscript hid
          (fun cp => { cp with passRate := Panel.clampRate rate })
          (Panel.clampRate rate) (fun _ => rfl) fun _ => rfl
        rw [if_neg (not_not_intro hid), if_pos hsome, clampRate_of_not_lt (hkept hsome)]
        have hmem : id ∈ c.qualityCheckpoints.subscript id fun cp =>
            { cp with passRate := Panel.clampRate rate } :=
          (IdMap.mem_subscript ..).mpr (Or.inl rfl)
        simp only [notifyQualityChange, IdMap.subscript_of_mem hmem]
        refine ⟨?_, h.levels, hrates⟩
        rw [hcp]
        simp [Notification.told, hkey, hvalue]
      · rw [if_pos hid, if_neg (mt (h.rates.mem_iff id).mpr hid)]
        exact ⟨rfl, h.levels, h.rates⟩

/-- A call that is not kept is seen by the observers. -/
theorem SimulatedModel.told_of_not_kept (h : Shows c.equipmentStatuses c.qualityCheckpoints p)
    {call : InboundCall} (hnot : ¬Kept p call) : (c.inbound call).1 ≠ (p.set call).1 := by
  cases call with
  | setEquipmentSupplyLevel id level =>
      simp only [inbound, setEquipmentSupplyLevel, changeEquipment, Panel.set]
      by_cases hrange : id < kEquipmentCount
      · have hnone : ¬(p.supplyLevel id).isSome = true := fun hid =>
          hnot (iff_of_true hid hrange)
        rw [if_neg (Nat.not_le.mpr hrange), if_neg hnone, notifyEquipmentChange,
          IdMap.get_subscript_self]
        exact List.cons_ne_nil _ _
      · have hsome : (p.supplyLevel id).isSome = true := by
          by_contra hid
          exact hnot (iff_of_false hid hrange)
        rw [if_pos (Nat.not_lt.mp hrange), if_pos hsome]
        exact (List.cons_ne_nil _ _).symm
  | setQualityPassRate id rate =>
      obtain ⟨hsome, hlt⟩ := Classical.not_imp.mp hnot
      have hid : id ∈ c.qualityCheckpoints := (h.rates.mem_iff id).mpr hsome
      simp only [inbound, setQualityPassRate, Panel.set]
      rw [if_neg (not_not_intro hid), if_pos hsome]
      have hmem : id ∈ c.qualityCheckpoints.subscript id fun cp =>
          { cp with passRate := rate.clamp kQualityRateMin kQualityRateMax } :=
        (IdMap.mem_subscript ..).mpr (Or.inl rfl)
      simp only [notifyQualityChange, IdMap.subscript_of_mem hmem, IdMap.get_subscript_self]
      intro htold
      have hrate := (Told.passRate.inj (List.cons.inj htold).1).2
      exact clampRate_of_lt ((Bool.not_eq_false _).mp hlt) hrate

end Step

/-! ## Sequences of calls -/

section Run

open Transducer

/-- What a call does to the level of a line. -/
theorem Panel.set_supplyLevel (p : Panel) (call : InboundCall) (id : Nat) :
    (p.set call).2.supplyLevel id =
      (p.supplyLevel id).map ((call.levelFor id).map clampLevel).getD := by
  cases call with
  | setEquipmentSupplyLevel id' level =>
      rw [Panel.set, InboundCall.levelFor]
      by_cases hid : id' = id
      · rw [if_pos hid, hid]
        cases hlevel : p.supplyLevel id with
        | none => exact hlevel
        | some old => exact Function.update_self ..
      · rw [if_neg hid]
        refine Eq.trans ?_ Option.map_id'.symm
        split
        next => exact Function.update_of_ne (Ne.symm hid) ..
        next => rfl
  | setQualityPassRate id' rate =>
      refine Eq.trans ?_ Option.map_id'.symm
      rw [Panel.set]
      split <;> rfl

theorem Panel.set_passRate (p : Panel) (call : InboundCall) (id : Nat) :
    (p.set call).2.passRate id =
      (p.passRate id).map ((call.rateFor id).map clampRate).getD := by
  cases call with
  | setQualityPassRate id' rate =>
      rw [Panel.set, InboundCall.rateFor]
      by_cases hid : id' = id
      · rw [if_pos hid, hid]
        cases hrate : p.passRate id with
        | none => exact hrate
        | some old => exact Function.update_self ..
      · rw [if_neg hid]
        refine Eq.trans ?_ Option.map_id'.symm
        split
        next => exact Function.update_of_ne (Ne.symm hid) ..
        next => rfl
  | setEquipmentSupplyLevel id' level =>
      refine Eq.trans ?_ Option.map_id'.symm
      rw [Panel.set]
      split <;> rfl

theorem lastLevel_concat (id : Nat) (calls : List InboundCall) (call : InboundCall) (old : ℤ) :
    lastLevel id (calls ++ [call]) old =
      ((call.levelFor id).map Panel.clampLevel).getD (lastLevel id calls old) := by
  rw [lastLevel, List.filterMap_append]
  cases hlevel : call.levelFor id <;> simp [hlevel, lastLevel]

theorem lastRate_concat (id : Nat) (calls : List InboundCall) (call : InboundCall)
    (old : Binary32) :
    lastRate id (calls ++ [call]) old =
      ((call.rateFor id).map Panel.clampRate).getD (lastRate id calls old) := by
  rw [lastRate, List.filterMap_append]
  cases hrate : call.rateFor id <;> simp [hrate, lastRate]

/-- A field of the panel has the last value that was set. -/
theorem final_supplyLevel (p : Panel) (calls : List InboundCall) (id : Nat) :
    (final Panel.set p calls).supplyLevel id = (p.supplyLevel id).map (lastLevel id calls) := by
  refine run_history Panel.set
    (R := fun done q => q.supplyLevel id = (p.supplyLevel id).map (lastLevel id done))
    Option.map_id'.symm (fun done call h => ?_) calls
  rw [Panel.set_supplyLevel, h, Option.map_map]
  congr 1
  funext old
  exact (lastLevel_concat id done call old).symm

theorem final_passRate (p : Panel) (calls : List InboundCall) (id : Nat) :
    (final Panel.set p calls).passRate id = (p.passRate id).map (lastRate id calls) := by
  refine run_history Panel.set
    (R := fun done q => q.passRate id = (p.passRate id).map (lastRate id done))
    Option.map_id'.symm (fun done call h => ?_) calls
  rw [Panel.set_passRate, h, Option.map_map]
  congr 1
  funext old
  exact (lastRate_concat id done call old).symm

/-- The contract adds no id, so a call that is kept at one time is so at any other. -/
theorem kept_final (p : Panel) (calls : List InboundCall) (call : InboundCall) :
    Kept (final Panel.set p calls) call ↔ Kept p call := by
  cases call with
  | setEquipmentSupplyLevel id level =>
      rw [Kept, final_supplyLevel, Option.isSome_map]
      rfl
  | setQualityPassRate id rate =>
      rw [Kept, final_passRate, Option.isSome_map]
      rfl

/-- The models cannot be told apart by calls of the setters: after every call both hold for every
id of the panel the last value that was set, clamped, and both tell their observers the same. -/
structure Interchangeable (c : SimulatedModel) (m : MirrorModel) (p : Panel)
    (calls : List InboundCall) : Prop where
  levels : ∀ done, done <+: calls → ∀ id old, p.supplyLevel id = some old →
    (final SimulatedModel.inbound c done).equipmentStatuses[id]?.map EquipmentStatus.supplyLevel =
        some (lastLevel id done old) ∧
      (final MirrorModel.inbound m done).equipment[id]?.map EquipmentStatus.supplyLevel =
        some (lastLevel id done old)
  rates : ∀ done, done <+: calls → ∀ id old, p.passRate id = some old →
    (final SimulatedModel.inbound c done).qualityCheckpoints[id]?.map
        QualityCheckpoint.passRate = some (lastRate id done old) ∧
      (final MirrorModel.inbound m done).quality[id]?.map QualityCheckpoint.passRate =
        some (lastRate id done old)
  told : ∀ done, done <+: calls →
    outputs SimulatedModel.inbound c done = outputs MirrorModel.inbound m done

/-- The mirror keeps the contract in every sequence of calls. -/
theorem MirrorModel.run_panel {m : MirrorModel} {p : Panel} (h : Shows m.equipment m.quality p)
    (calls : List InboundCall) :
    outputs MirrorModel.inbound m calls = outputs Panel.set p calls ∧
      Shows (final MirrorModel.inbound m calls).equipment
        (final MirrorModel.inbound m calls).quality (final Panel.set p calls) := by
  induction calls generalizing m p with
  | nil => exact ⟨rfl, h⟩
  | cons call calls ih =>
      obtain ⟨htold, hshows⟩ := inbound_panel h call
      obtain ⟨houtputs, hfinal⟩ := ih hshows
      rw [outputs_cons, outputs_cons, htold, houtputs]
      exact ⟨rfl, hfinal⟩

theorem SimulatedModel.run_panel {c : SimulatedModel} {p : Panel}
    (h : Shows c.equipmentStatuses c.qualityCheckpoints p) {calls : List InboundCall}
    (hkept : ∀ call ∈ calls, Kept p call) :
    outputs SimulatedModel.inbound c calls = outputs Panel.set p calls ∧
      Shows (final SimulatedModel.inbound c calls).equipmentStatuses
        (final SimulatedModel.inbound c calls).qualityCheckpoints (final Panel.set p calls) := by
  induction calls generalizing c p with
  | nil => exact ⟨rfl, h⟩
  | cons call calls ih =>
      obtain ⟨htold, hshows⟩ := inbound_panel h (hkept call List.mem_cons_self)
      obtain ⟨houtputs, hfinal⟩ := ih hshows fun call' hmem =>
        (kept_final p [call] call').mpr (hkept call' (List.mem_cons_of_mem call hmem))
      rw [outputs_cons, outputs_cons, htold, houtputs]
      exact ⟨rfl, hfinal⟩

/-- The two models are interchangeable for a sequence of calls exactly when each is kept. -/
theorem interchangeable_iff {c : SimulatedModel} {m : MirrorModel} {p : Panel}
    (hc : Shows c.equipmentStatuses c.qualityCheckpoints p) (hm : Shows m.equipment m.quality p)
    (calls : List InboundCall) : Interchangeable c m p calls ↔ ∀ call ∈ calls, Kept p call := by
  constructor
  · intro h
    have hdone : ∀ done, done <+: calls → ∀ call ∈ done, Kept p call := by
      intro done
      induction done using List.reverseRecOn with
      | nil =>
          intro _ call hmem
          cases hmem
      | append_singleton done call ih =>
          intro hpre
          have hbefore := ih ((List.prefix_append done [call]).trans hpre)
          intro call' hmem
          rcases List.mem_append.mp hmem with hmem | hmem
          · exact hbefore call' hmem
          · rw [List.mem_singleton.mp hmem]
            obtain ⟨_, hshows⟩ := SimulatedModel.run_panel hc hbefore
            obtain ⟨_, hshows'⟩ := MirrorModel.run_panel hm done
            have htold := h.told _ hpre
            rw [outputs_concat, outputs_concat] at htold
            have hlast := List.singleton_inj.mp (List.append_inj_right' htold rfl)
            rw [(MirrorModel.inbound_panel hshows' call).1] at hlast
            by_contra hnot
            exact SimulatedModel.told_of_not_kept hshows
              (mt (kept_final p done call).mp hnot) hlast
    exact hdone calls List.prefix_rfl
  · intro hkept
    have hrun (done : List InboundCall) (hpre : done <+: calls) :=
      SimulatedModel.run_panel hc fun call hmem => hkept call (hpre.subset hmem)
    refine ⟨fun done hpre id old hold => ?_, fun done hpre id old hold => ?_,
      fun done hpre => ?_⟩
    · rw [(hrun done hpre).2.levels.value_eq, (MirrorModel.run_panel hm done).2.levels.value_eq,
        final_supplyLevel, hold]
      exact ⟨rfl, rfl⟩
    · rw [(hrun done hpre).2.rates.value_eq, (MirrorModel.run_panel hm done).2.rates.value_eq,
        final_passRate, hold]
      exact ⟨rfl, rfl⟩
    · exact (hrun done hpre).1.trans (MirrorModel.run_panel hm done).1.symm

/-! ### The demo line and a mirror that was brought to its values -/

/-- What a new mirror shows. -/
def createdPanel (equipmentCount qualityCount : Nat) : Panel where
  supplyLevel id := if id < equipmentCount then some MirrorModel.kDefaultSupplyLevel else none
  passRate id := if id < qualityCount then some MirrorModel.kDefaultPassRate else none

/-- Records that are made one for each id show what they were made with. -/
theorem showsField_range {ν α : Type} (key : ν → Nat) (value : ν → α) (make : Nat → ν) (a : α)
    (hkey : ∀ id, key (make id) = id) (hvalue : ∀ id, value (make id) = a) (n : Nat) :
    ShowsField key value ((List.range n).foldl (fun m i => m.insert i (make i)) (∅ : IdMap ν))
      fun id => if id < n then some a else none := by
  induction n with
  | zero =>
      intro id
      dsimp only
      rw [if_neg (Nat.not_lt_zero id)]
      exact congrArg (Option.map _) Std.ExtTreeMap.getElem?_empty
  | succ n ih =>
      intro id
      dsimp only
      rw [List.range_succ, List.foldl_append, List.foldl_cons, List.foldl_nil,
        Std.ExtTreeMap.getElem?_insert]
      by_cases hid : n = id
      · rw [if_pos (Nat.compare_eq_eq.mpr hid), if_pos (by omega), Option.map_some, hkey, hvalue,
          hid, Option.map_some]
      · rw [if_neg (mt Nat.compare_eq_eq.mp hid), ih id]
        congr 1
        exact if_congr (by omega) rfl rfl

theorem shows_create (equipmentCount qualityCount : Nat) :
    Shows (MirrorModel.create equipmentCount qualityCount).equipment
      (MirrorModel.create equipmentCount qualityCount).quality
      (createdPanel equipmentCount qualityCount) :=
  ⟨showsField_range EquipmentStatus.equipmentId EquipmentStatus.supplyLevel
      (fun id =>
        { equipmentId := id
          status := MirrorModel.kDefaultStatus
          supplyLevel := MirrorModel.kDefaultSupplyLevel })
      MirrorModel.kDefaultSupplyLevel (fun _ => rfl) (fun _ => rfl) equipmentCount,
    showsField_range QualityCheckpoint.checkpointId QualityCheckpoint.passRate
      (fun id =>
        { checkpointId := id
          name := MirrorModel.kDefaultCheckpointNames[id]?.getD
            ("Checkpoint " ++ toString (id + 1))
          passRate := MirrorModel.kDefaultPassRate })
      MirrorModel.kDefaultPassRate (fun _ => rfl) (fun _ => rfl) qualityCount⟩

def demoModel : SimulatedModel := ({} : SimulatedModel).initializeDemoData.1

/-- The calls that bring a new mirror to the values of the demo data. -/
def demoCalls : List InboundCall :=
  [.setEquipmentSupplyLevel 0 85, .setEquipmentSupplyLevel 1 95, .setEquipmentSupplyLevel 2 0,
    .setQualityPassRate 0 (.round (981 / 10)), .setQualityPassRate 1 (.round (957 / 10)),
    .setQualityPassRate 2 (.fin 93)]

def demoMirror : MirrorModel := final MirrorModel.inbound (MirrorModel.create 3 3) demoCalls
def demoPanel : Panel := final Panel.set (createdPanel 3 3) demoCalls

theorem shows_demoMirror : Shows demoMirror.equipment demoMirror.quality demoPanel :=
  (MirrorModel.run_panel (shows_create 3 3) demoCalls).2

theorem shows_demoModel :
    Shows demoModel.equipmentStatuses demoModel.qualityCheckpoints demoPanel := by
  refine ⟨fun id => ?_, fun id => ?_⟩
  · rw [demoPanel, final_supplyLevel]
    rcases id with _ | _ | _ | id
    · decide +kernel
    · decide +kernel
    · decide +kernel
    · rfl
  · rw [demoPanel, final_passRate]
    rcases id with _ | _ | _ | id
    · decide +kernel
    · decide +kernel
    · decide +kernel
    · rfl

/-- Rates that the simulation could have, and a line with an id out of range. -/
theorem interchangeable_demo :
    Interchangeable demoModel demoMirror demoPanel
      [.setQualityPassRate 0 (.fin 90), .setEquipmentSupplyLevel 2 120,
        .setQualityPassRate 9 (.fin 3), .setEquipmentSupplyLevel 4 50] := by
  refine (interchangeable_iff shows_demoModel shows_demoMirror _).mpr fun call hmem => ?_
  rcases List.mem_cons.mp hmem with rfl | hmem
  · exact fun _ => by decide
  rcases List.mem_cons.mp hmem with rfl | hmem
  · exact iff_of_true (by decide) (by decide)
  rcases List.mem_cons.mp hmem with rfl | hmem
  · exact fun h => absurd h (by decide)
  · obtain rfl := List.mem_singleton.mp hmem
    exact iff_of_false (by decide) (by decide)

/-- The simulated model raises a pass rate of 50 to 85, and the mirror keeps it. -/
theorem low_pass_rate_differs :
    Shows demoModel.equipmentStatuses demoModel.qualityCheckpoints demoPanel ∧
      Shows demoMirror.equipment demoMirror.quality demoPanel ∧
      (demoModel.inbound (.setQualityPassRate 0 (.fin 50))).1 = [.passRate 0 (.fin 85)] ∧
      (demoMirror.inbound (.setQualityPassRate 0 (.fin 50))).1 = [.passRate 0 (.fin 50)] ∧
      ¬Interchangeable demoModel demoMirror demoPanel [.setQualityPassRate 0 (.fin 50)] := by
  refine ⟨shows_demoModel, shows_demoMirror, by decide +kernel, by decide +kernel, fun h => ?_⟩
  exact absurd (h.told _ List.prefix_rfl) (by decide +kernel)

end Run

end Production
