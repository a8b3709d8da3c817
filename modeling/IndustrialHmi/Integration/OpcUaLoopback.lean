import IndustrialHmi.Integration.FactoryNodeMap
import IndustrialHmi.Integration.IngestBridges
import IndustrialHmi.Theory.FirstMatch

/-!
# The factory's server and the ingest bridge

The ingest bridge subscribes to paths that it forms itself, and turns the values at them into
setters of its model.  Pointed at the factory's own server, that model should end with what was
published last.

With the status of a line it does, where it has the line, and with the rate of a checkpoint, where
it takes the rate as it is (`agrees_target_iff`).  The level of a line is published as `SupplyLevel`
and asked for as `Supply`, where no node ever is (`agrees_iff`).
-/

namespace OpcUa

open Production Ingest FactoryNodeMap

/-! ## Subscriptions -/

/-- A monitored item. -/
inductive Target where
  | status (id : Nat)
  | supply (id : Nat)
  | passRate (id : Nat)
  deriving DecidableEq

structure Config where
  topicPrefix : Text := ascii "Factory"
  equipmentCount : Nat := 3
  qualityCount : Nat := 3

namespace Target

def path (topicPrefix : Text) : Target → Text
  | status id =>
      topicPrefix ++ ascii "/EquipmentLines/Line" ++ ascii (toString id) ++ ascii "/Status"
  | supply id =>
      topicPrefix ++ ascii "/EquipmentLines/Line" ++ ascii (toString id) ++ ascii "/Supply"
  | passRate id =>
      topicPrefix ++ ascii "/QualityCheckpoints/Checkpoint" ++ ascii (toString id) ++
        ascii "/PassRate"

def kind : Target → Kind
  | status _ | supply _ => .int32
  | passRate _ => .float

/-- The handler that a notification is given to. -/
def notify : Target → Value → IngestCache → IngestCache.Outcome
  | status id, .int32 v, cache => OpcUaIngestBridge.onStatusNotification cache id v
  | supply id, .int32 v, cache => OpcUaIngestBridge.onSupplyNotification cache id v
  | passRate id, .float v, cache => OpcUaIngestBridge.onPassRateNotification cache id v
  | _, _, cache => (cache, none)

end Target

/-- What `wire` subscribes to, in order. -/
def subscriptions (config : Config) : List Target :=
  let equipmentBound := min config.equipmentCount kMaxTrackedEquipment
  let qualityBound := min config.qualityCount kMaxTrackedQuality
  (List.range equipmentBound).flatMap (fun id => [.status id, .supply id]) ++
    (List.range qualityBound).map .passRate

/-! ## Delivery -/

/-- The caches of the bridge and the model that it calls. -/
structure Received where
  cache : IngestCache := {}
  model : SimulatedModel

namespace Received

def notify (r : Received) (t : Target) (v : Value) : Received :=
  let (cache, set) := t.notify v r.cache
  { cache, model := r.model.after set.toList }

/-- A written value goes to every subscription of its path. -/
def deliver (config : Config) (r : Received) (write : Text × Value) : Received :=
  ((subscriptions config).filter fun t => t.path config.topicPrefix = write.1).foldl
    (fun r t => r.notify t write.2) r

/-- Everything that was written, delivered in order to a bridge whose model is as it is. -/
def all (config : Config) (model : SimulatedModel) (written : List (Text × Value)) : Received :=
  written.foldl (deliver config) { model }

end Received

/-! ## Agreement -/

namespace Target

/-- What a value says at the target. -/
def reading? : Target → Value → Option Reading
  | status id, .int32 v => some (.enabled id (v ≠ OpcUaIngestBridge.kEquipmentStatusOffline))
  | supply id, .int32 v => some (.supplyLevel id v)
  | passRate id, .float v => some (.passRate id v)
  | _, _ => none

/-- What a model holds in the target's field. -/
def held? : Target → SimulatedModel → Option Reading
  | status id, c => c.equipmentStatuses[id]?.map fun s =>
      .enabled id (s.status ≠ OpcUaIngestBridge.kEquipmentStatusOffline)
  | supply id, c => c.equipmentStatuses[id]?.map fun s => .supplyLevel id s.supplyLevel
  | passRate id, c => c.qualityCheckpoints[id]?.map fun cp => .passRate id cp.passRate

/-- What a published change says of the target's field. -/
def published? : Target → Change → Option Reading
  | status id, .equipmentStatus s =>
      if s.equipmentId = id then
        some (.enabled id (s.status ≠ OpcUaIngestBridge.kEquipmentStatusOffline))
      else none
  | supply id, .equipmentStatus s =>
      if s.equipmentId = id then some (.supplyLevel id s.supplyLevel) else none
  | passRate id, .qualityCheckpoint q =>
      if q.checkpointId = id then some (.passRate id q.passRate) else none
  | _, _ => none

end Target

/-- The target is a variable of the map with the subscribed type, and the ingesting model ends with
what was published last. -/
structure Agrees (sink : Bool) (config : Config) (model : SimulatedModel) (run : List Change)
    (t : Target) : Prop where
  created : ((after sink run).nodes (t.path config.topicPrefix)).bind Node.kind? = some t.kind
  delivered : ∀ r, lastSaid t.published? run = some r →
    t.held? (Received.all config model (after sink run).written).model = some r

/-- A change of the target's line or checkpoint is among those of a run. -/
def Target.PublishedIn (t : Target) (run : List Change) : Prop :=
  ∃ c ∈ run, (t.published? c).isSome

/-! ## Paths -/

namespace Target

/-- The name at the end of the path. -/
def leaf : Target → Text
  | status _ => ascii "Status"
  | supply _ => ascii "Supply"
  | passRate _ => ascii "PassRate"

def base : Target → Text
  | status id | supply id => equipmentBase id
  | passRate id => checkpointBase id

theorem path_eq (t : Target) : t.path (ascii "Factory") = t.base ++ ascii "/" ++ t.leaf := by
  cases t with
  | status id =>
      rw [List.append_assoc]
      rfl
  | supply id =>
      rw [List.append_assoc]
      rfl
  | passRate id =>
      rw [List.append_assoc]
      rfl

theorem path_status (id : Nat) :
    (status id).path (ascii "Factory") = equipmentPath id (ascii "Status") := path_eq _

theorem path_passRate (id : Nat) :
    (passRate id).path (ascii "Factory") = checkpointPath id (ascii "PassRate") := path_eq _

theorem slash_not_mem_leaf (t : Target) : (47 : UInt8) ∉ t.leaf := by
  cases t with
  | status id => exact show (47 : UInt8) ∉ ascii "Status" by decide
  | supply id => exact show (47 : UInt8) ∉ ascii "Supply" by decide
  | passRate id => exact show (47 : UInt8) ∉ ascii "PassRate" by decide

theorem split_path (t : Target) :
    splitParentLeaf (t.path (ascii "Factory")) = (t.base, t.leaf) := by
  rw [path_eq, split_slash t.base t.slash_not_mem_leaf]

theorem path_injective {t t' : Target}
    (h : t.path (ascii "Factory") = t'.path (ascii "Factory")) : t = t' := by
  have hsplit := congrArg splitParentLeaf h
  rw [split_path, split_path, Prod.mk.injEq] at hsplit
  obtain ⟨hbase, hleaf⟩ := hsplit
  cases t with
  | status id =>
      cases t' with
      | status id' => rw [equipmentBase_inj hbase]
      | supply id' => exact absurd (show ascii "Status" = ascii "Supply" from hleaf) (by decide)
      | passRate id' => exact absurd hbase (equipmentBase_ne_checkpointBase id id')
  | supply id =>
      cases t' with
      | status id' => exact absurd (show ascii "Supply" = ascii "Status" from hleaf) (by decide)
      | supply id' => rw [equipmentBase_inj hbase]
      | passRate id' => exact absurd hbase (equipmentBase_ne_checkpointBase id id')
  | passRate id =>
      cases t' with
      | status id' => exact absurd hbase.symm (equipmentBase_ne_checkpointBase id' id)
      | supply id' => exact absurd hbase.symm (equipmentBase_ne_checkpointBase id' id)
      | passRate id' => rw [checkpointBase_inj hbase]

/-- Writes under another name go elsewhere. -/
theorem path_ne_of_leaf (t : Target) {path : Text} (h : (splitParentLeaf path).2 ≠ t.leaf) :
    t.path (ascii "Factory") ≠ path := by
  rintro rfl
  rw [split_path] at h
  exact h rfl

end Target

theorem nodup_subscriptions (config : Config) : (subscriptions config).Nodup := by
  refine List.Nodup.append ?_ ?_ ?_
  · refine List.nodup_flatMap.mpr ⟨fun id _ => by simp, ?_⟩
    refine List.nodup_range.imp fun hne => ?_
    simp [Function.onFun, List.disjoint_left, hne]
  · exact List.nodup_range.map fun _ _ h => Target.passRate.inj h
  · intro t hleft hright
    obtain ⟨id, -, rfl⟩ := List.mem_map.mp hright
    obtain ⟨id', -, hmem⟩ := List.mem_flatMap.mp hleft
    simp at hmem

theorem status_mem {config : Config} {id : Nat} : .status id ∈ subscriptions config ↔
    id < min config.equipmentCount kMaxTrackedEquipment := by
  simp [subscriptions]

theorem supply_mem {config : Config} {id : Nat} : .supply id ∈ subscriptions config ↔
    id < min config.equipmentCount kMaxTrackedEquipment := by
  simp [subscriptions]

theorem passRate_mem {config : Config} {id : Nat} : .passRate id ∈ subscriptions config ↔
    id < min config.qualityCount kMaxTrackedQuality := by
  simp [subscriptions]

/-! ## One notification -/

namespace Target

/-- The bridge has a place in its caches for the target. -/
def Tracked : Target → Prop
  | status id | supply id => id < kMaxTrackedEquipment
  | passRate id => id < kMaxTrackedQuality

theorem tracked_of_mem {config : Config} {t : Target} (h : t ∈ subscriptions config) :
    t.Tracked := by
  cases t with
  | status id => exact (lt_min_iff.mp (status_mem.mp h)).2
  | supply id => exact (lt_min_iff.mp (supply_mem.mp h)).2
  | passRate id => exact (lt_min_iff.mp (passRate_mem.mp h)).2

/-- The value of the target that the bridge has forwarded last. -/
def cached : Target → IngestCache → Option Reading
  | status id, cache => cache.lastEnabled[id]?.map (.enabled id)
  | supply id, cache => cache.lastSupplyLevel[id]?.map (.supplyLevel id)
  | passRate id, cache => cache.lastPassRate[id]?.map (.passRate id)

theorem eq_of_eq {a b : Binary32} (h : a.eq b = true) : a = b := by
  cases a with
  | nan => cases h
  | _ => exact of_decide_eq_true h

/-- The value of a notification is cached, and its setter is called. -/
structure Forwards (t : Target) (r : Reading) (cache : IngestCache)
    (out : IngestCache.Outcome) : Prop where
  set : out.2 = r.setter
  cached : ∀ t' : Target, t'.cached out.1 = if t' = t then some r else t'.cached cache

theorem forwards_status {id : Nat} (hid : id < kMaxTrackedEquipment) (enabled : Bool)
    (cache : IngestCache) :
    Forwards (.status id) (.enabled id enabled) cache
      ({ cache with lastEnabled := cache.lastEnabled.insert id enabled },
        some (.setEquipmentEnabled id enabled)) := by
  refine ⟨(if_neg (Nat.not_le.mpr hid)).symm, fun t' => ?_⟩
  cases t' with
  | status id' =>
      by_cases h : id = id'
      · subst h
        simp [Target.cached]
      · simp [Target.cached, Std.ExtTreeMap.getElem?_insert, h, Ne.symm h]
  | _ => rfl

theorem forwards_supply (id : Nat) (level : ℤ) (cache : IngestCache) :
    Forwards (.supply id) (.supplyLevel id level) cache
      ({ cache with lastSupplyLevel := cache.lastSupplyLevel.insert id level },
        some (.setEquipmentSupplyLevel id level)) := by
  refine ⟨rfl, fun t' => ?_⟩
  cases t' with
  | supply id' =>
      by_cases h : id = id'
      · subst h
        simp [Target.cached]
      · simp [Target.cached, Std.ExtTreeMap.getElem?_insert, h, Ne.symm h]
  | _ => rfl

theorem forwards_passRate (id : Nat) (rate : Binary32) (cache : IngestCache) :
    Forwards (.passRate id) (.passRate id rate) cache
      ({ cache with lastPassRate := cache.lastPassRate.insert id rate },
        some (.setQualityPassRate id rate)) := by
  refine ⟨rfl, fun t' => ?_⟩
  cases t' with
  | passRate id' =>
      by_cases h : id = id'
      · subst h
        simp [Target.cached]
      · simp [Target.cached, Std.ExtTreeMap.getElem?_insert, h, Ne.symm h]
  | _ => rfl

/-- A notification repeats the cached value and is dropped, or it is forwarded. -/
theorem notify_cases {t : Target} {v : Value} {r : Reading} (hr : t.reading? v = some r)
    (htracked : t.Tracked) (cache : IngestCache) :
    t.notify v cache = (cache, none) ∧ t.cached cache = some r ∨
      t.Forwards r cache (t.notify v cache) := by
  cases t with
  | status id =>
      cases v with
      | int32 status =>
          obtain rfl := Option.some.inj hr
          simp only [notify, OpcUaIngestBridge.onStatusNotification, IngestCache.handleEnabled,
            if_neg (Nat.not_le.mpr htracked)]
          split
          next hlast => exact .inl ⟨rfl, by rw [Target.cached, hlast, Option.map_some]⟩
          next => exact .inr (forwards_status htracked _ cache)
      | _ => cases hr
  | supply id =>
      cases v with
      | int32 level =>
          obtain rfl := Option.some.inj hr
          simp only [notify, OpcUaIngestBridge.onSupplyNotification, IngestCache.handleSupplyLevel,
            if_pos (show id < kMaxTrackedEquipment from htracked)]
          split
          next hlast => exact .inl ⟨rfl, by rw [Target.cached, hlast, Option.map_some]⟩
          next => exact .inr (forwards_supply id level cache)
      | _ => cases hr
  | passRate id =>
      cases v with
      | float rate =>
          obtain rfl := Option.some.inj hr
          simp only [notify, OpcUaIngestBridge.onPassRateNotification, IngestCache.handlePassRate,
            if_pos (show id < kMaxTrackedQuality from htracked)]
          split
          next hlast =>
            obtain ⟨last, hfound, heq⟩ := (Option.any_eq_true _ _).mp hlast
            rw [eq_of_eq heq] at hfound
            exact .inl ⟨rfl, by rw [Target.cached, hfound, Option.map_some]⟩
          next => exact .inr (forwards_passRate id rate cache)
      | _ => cases hr

theorem notify_of_none {t : Target} {v : Value} (h : t.reading? v = none) (cache : IngestCache) :
    t.notify v cache = (cache, none) := by
  cases t with
  | status id =>
      cases v with
      | int32 status => cases h
      | _ => rfl
  | supply id =>
      cases v with
      | int32 level => cases h
      | _ => rfl
  | passRate id =>
      cases v with
      | float rate => cases h
      | _ => rfl

/-- What a write says at the target. -/
def heard (t : Target) (write : Text × Value) : Option Reading :=
  if t.path (ascii "Factory") = write.1 then t.reading? write.2 else none

theorem heard_of_ne {t : Target} {path : Text} (h : t.path (ascii "Factory") ≠ path) (v : Value) :
    t.heard (path, v) = none := if_neg h

theorem heard_self {t : Target} {path : Text} (h : t.path (ascii "Factory") = path) (v : Value) :
    t.heard (path, v) = t.reading? v := if_pos h

end Target

/-! ## One setter -/

namespace Target

/-- What the model keeps of a reading. -/
def kept : Reading → Reading
  | .enabled id enabled => .enabled id enabled
  | .supplyLevel id level =>
      .supplyLevel id
        (max SimulatedModel.kSupplyLevelMin (min level SimulatedModel.kSupplyLevelMax))
  | .passRate id rate =>
      .passRate id (rate.clamp SimulatedModel.kQualityRateMin SimulatedModel.kQualityRateMax)

/-- The model does not drop the setters of the target. -/
def Accepted (c : SimulatedModel) : Target → Prop
  | status id | supply id => id < SimulatedModel.kEquipmentCount
  | passRate id => id ∈ c.qualityCheckpoints

/-- The setter of a reading leaves in its field what the model keeps of it. -/
theorem held_setter {t : Target} {v : Value} {r : Reading} (hr : t.reading? v = some r)
    {c : SimulatedModel} (h : t.Accepted c) :
    t.held? (c.after r.setter.toList) = some (kept r) := by
  cases t with
  | status id =>
      cases v with
      | int32 status =>
          obtain rfl := Option.some.inj hr
          have hrange : ¬ id ≥ SimulatedModel.kEquipmentCount := not_le.mpr h
          have htracked : ¬ id ≥ kMaxTrackedEquipment := not_le.mpr (lt_trans h (by decide))
          simp only [Reading.setter, htracked, if_false, Option.toList_some,
            SimulatedModel.after_cons, SimulatedModel.after_nil, SimulatedModel.step,
            SimulatedModel.setEquipmentEnabled, SimulatedModel.changeEquipment, hrange, held?,
            IdMap.get_subscript_self, Option.map_some, kept]
          generalize decide (status ≠ OpcUaIngestBridge.kEquipmentStatusOffline) = enabled
          cases enabled with
          | false => rfl
          | true => rfl
      | _ => cases hr
  | supply id =>
      cases v with
      | int32 level =>
          obtain rfl := Option.some.inj hr
          have hrange : ¬ id ≥ SimulatedModel.kEquipmentCount := not_le.mpr h
          simp only [Reading.setter, Option.toList_some, SimulatedModel.after_cons,
            SimulatedModel.after_nil, SimulatedModel.step, SimulatedModel.setEquipmentSupplyLevel,
            SimulatedModel.changeEquipment, hrange, if_false, held?, IdMap.get_subscript_self,
            Option.map_some, kept]
      | _ => cases hr
  | passRate id =>
      cases v with
      | float rate =>
          obtain rfl := Option.some.inj hr
          have hmem : ¬ id ∉ c.qualityCheckpoints := not_not.mpr h
          simp only [Reading.setter, Option.toList_some, SimulatedModel.after_cons,
            SimulatedModel.after_nil, SimulatedModel.step, SimulatedModel.setQualityPassRate, hmem,
            if_false, SimulatedModel.notifyQualityChange, held?, IdMap.get_subscript_self,
            Option.map_some, kept]
          rfl
      | _ => cases hr

/-- A change of a line keeps the fields that it does not set. -/
theorem held_changeEquipment {c : SimulatedModel} {t : Target} {x : Reading} {id : Nat}
    {f : EquipmentStatus → EquipmentStatus}
    (hstatus : t ≠ status id ∨ ∀ s, (f s).status = s.status)
    (hsupply : t ≠ supply id ∨ ∀ s, (f s).supplyLevel = s.supplyLevel)
    (hx : t.held? c = some x) : t.held? (c.changeEquipment id f).1 = some x := by
  simp only [SimulatedModel.changeEquipment]
  split
  next => exact hx
  next =>
    cases t with
    | status id' =>
        by_cases hid : id = id'
        · subst hid
          obtain ⟨s, hs, rfl⟩ := Option.map_eq_some_iff.mp hx
          have hkeeps := hstatus.resolve_left (not_not.mpr rfl) s
          rw [held?, IdMap.get_subscript_self, hs, Option.getD_some, Option.map_some, hkeeps]
        · simpa only [held?, IdMap.get_subscript_of_ne _ _ hid] using hx
    | supply id' =>
        by_cases hid : id = id'
        · subst hid
          obtain ⟨s, hs, rfl⟩ := Option.map_eq_some_iff.mp hx
          have hkeeps := hsupply.resolve_left (not_not.mpr rfl) s
          rw [held?, IdMap.get_subscript_self, hs, Option.getD_some, Option.map_some, hkeeps]
        · simpa only [held?, IdMap.get_subscript_of_ne _ _ hid] using hx
    | passRate id' => exact hx

theorem held_setQualityPassRate {c : SimulatedModel} {t : Target} {id : Nat}
    (hne : t ≠ passRate id) (rate : Binary32) :
    t.held? (c.setQualityPassRate id rate).1 = t.held? c := by
  cases t with
  | status id' => rw [SimulatedModel.setQualityPassRate_keeps]; rfl
  | supply id' => rw [SimulatedModel.setQualityPassRate_keeps]; rfl
  | passRate id' =>
      have hid : id ≠ id' := fun heq => hne (heq ▸ rfl)
      simp only [SimulatedModel.setQualityPassRate, SimulatedModel.notifyQualityChange]
      split
      next => rfl
      next => simp only [held?, IdMap.get_subscript_of_ne _ _ hid]

/-- The setter of a reading keeps what is held in every other field. -/
theorem held_setter_of_ne {t t' : Target} {v : Value} {r : Reading} (hr : t.reading? v = some r)
    (hne : t' ≠ t) {c : SimulatedModel} {x : Reading} (hx : t'.held? c = some x) :
    t'.held? (c.after r.setter.toList) = some x := by
  cases t with
  | status id =>
      cases v with
      | int32 status =>
          obtain rfl := Option.some.inj hr
          rw [Reading.setter]
          split
          next => exact hx
          next => exact held_changeEquipment (.inl hne) (.inr fun _ => rfl) hx
      | _ => cases hr
  | supply id =>
      cases v with
      | int32 level =>
          obtain rfl := Option.some.inj hr
          exact held_changeEquipment (.inr fun _ => rfl) (.inl hne) hx
      | _ => cases hr
  | passRate id =>
      cases v with
      | float rate =>
          obtain rfl := Option.some.inj hr
          exact (held_setQualityPassRate hne rate).trans hx
      | _ => cases hr

end Target

/-! ## All notifications -/

/-- The bridge's settings for the factory's own server. -/
abbrev loopback (equipmentCount qualityCount : Nat) : Config := { equipmentCount, qualityCount }

namespace Received

variable {equipmentCount qualityCount : Nat} {start : SimulatedModel}

/-- What was heard last of a target is cached, and held unless the model drops it. -/
structure Hears (start : SimulatedModel) (t : Target) (said : Option Reading) (r : Received) :
    Prop where
  cached : t.cached r.cache = said
  held : t.Accepted start → ∀ reading, said = some reading →
    t.held? r.model = some (Target.kept reading)

/-- Every subscribed target is heard, and the model has the lines and checkpoints that it had or may
have. -/
structure Heeds (config : Config) (start : SimulatedModel) (written : List (Text × Value))
    (r : Received) : Prop where
  hears : ∀ t ∈ subscriptions config, r.Hears start t (lastSaid t.heard written)
  checkpoints : ∀ id, id ∈ r.model.qualityCheckpoints ↔ id ∈ start.qualityCheckpoints
  inRange : InRange start → InRange r.model

/-- A write notifies the one target with its path, if there is one. -/
theorem deliver_eq (r : Received) (path : Text) (v : Value) :
    r.deliver (loopback equipmentCount qualityCount) (path, v) =
      (FirstMatch.find (Target.path (ascii "Factory"))
        (subscriptions (loopback equipmentCount qualityCount)) path).toList.foldl
        (fun r t => r.notify t v) r := by
  have hnodup : ((subscriptions (loopback equipmentCount qualityCount)).map
      (Target.path (ascii "Factory"))).Nodup :=
    (nodup_subscriptions _).map fun _ _ => Target.path_injective
  exact congrArg (List.foldl (fun (r : Received) (t : Target) => r.notify t v) r)
    (FirstMatch.filter_key hnodup path)

/-- A notification that is dropped changes nothing. -/
theorem notify_dropped {r : Received} {t : Target} {v : Value}
    (h : t.notify v r.cache = (r.cache, none)) : r.notify t v = r := by
  rw [Received.notify, h]
  rfl

/-- One that is forwarded calls the setter of what it says. -/
theorem model_forwarded {r : Received} {t : Target} {v : Value} {reading : Reading}
    (h : t.Forwards reading r.cache (t.notify v r.cache)) :
    (r.notify t v).model = r.model.after reading.setter.toList := by
  rw [← h.set]
  rfl

/-- A notification of one target leaves each target with what was heard last. -/
theorem Hears.notify {said : Option Reading} {r : Received} {t t' : Target} {path : Text}
    {v : Value} (h : r.Hears start t' said) (ht : t.Tracked)
    (hpath : t.path (ascii "Factory") = path)
    (hsame : ∀ id, id ∈ r.model.qualityCheckpoints ↔ id ∈ start.qualityCheckpoints) :
    (r.notify t v).Hears start t' ((t'.heard (path, v)).or said) := by
  have hheard : t'.heard (path, v) = if t' = t then t.reading? v else none := by
    split
    next heq => rw [heq, Target.heard_self hpath]
    next hne =>
      exact Target.heard_of_ne (fun heq => hne (Target.path_injective (heq.trans hpath.symm))) v
  rw [hheard]
  cases hreading : t.reading? v with
  | none =>
      rw [notify_dropped (Target.notify_of_none hreading r.cache), ite_self, Option.none_or]
      exact h
  | some reading =>
      rcases Target.notify_cases hreading ht r.cache with ⟨hout, hrepeated⟩ | hforwards
      · rw [notify_dropped hout]
        split
        next heq =>
          -- it was heard before, and is held
          obtain rfl := heq
          rw [Option.some_or, ← hrepeated, h.cached]
          exact h
        next =>
          rw [Option.none_or]
          exact h
      · have hmodel := model_forwarded hforwards
        split
        next heq =>
          obtain rfl := heq
          refine ⟨(hforwards.cached t').trans (if_pos rfl), fun haccepted reading' hsaid => ?_⟩
          obtain rfl := Option.some.inj hsaid
          have hnow : t'.Accepted r.model := by
            cases t' with
            | status id => exact haccepted
            | supply id => exact haccepted
            | passRate id => exact (hsame id).mpr haccepted
          rw [hmodel]
          exact Target.held_setter hreading hnow
        next hne =>
          refine ⟨((hforwards.cached t').trans (if_neg hne)).trans h.cached,
            fun haccepted reading' hsaid => ?_⟩
          rw [hmodel]
          exact Target.held_setter_of_ne hreading hne (h.held haccepted reading' hsaid)

/-- A notification adds no checkpoint, and no line out of range. -/
theorem checkpoints_notify (r : Received) {t : Target} (ht : t.Tracked) (v : Value) :
    (∀ id, id ∈ (r.notify t v).model.qualityCheckpoints ↔ id ∈ r.model.qualityCheckpoints) ∧
      (InRange r.model → InRange (r.notify t v).model) := by
  have hnothing : (∀ id, id ∈ r.model.qualityCheckpoints ↔ id ∈ r.model.qualityCheckpoints) ∧
      (InRange r.model → InRange r.model) := ⟨fun _ => Iff.rfl, fun h => h⟩
  cases hreading : t.reading? v with
  | none =>
      rw [notify_dropped (Target.notify_of_none hreading r.cache)]
      exact hnothing
  | some reading =>
      rcases Target.notify_cases hreading ht r.cache with ⟨hout, -⟩ | hforwards
      · rw [notify_dropped hout]
        exact hnothing
      · rw [model_forwarded hforwards]
        refine ⟨fun id => ?_, fun h => inRange_after h _⟩
        have hmem := mem_after_setter r.model reading False id
        rwa [if_neg not_false] at hmem

theorem Heeds.deliver {written : List (Text × Value)} {r : Received}
    (h : r.Heeds (loopback equipmentCount qualityCount) start written) (write : Text × Value) :
    (r.deliver (loopback equipmentCount qualityCount) write).Heeds
      (loopback equipmentCount qualityCount) start (written ++ [write]) := by
  obtain ⟨path, v⟩ := write
  rw [deliver_eq]
  cases hfind : FirstMatch.find (Target.path (ascii "Factory"))
      (subscriptions (loopback equipmentCount qualityCount)) path with
  | none =>
      refine ⟨fun t' ht' => ?_, h.checkpoints, h.inRange⟩
      have hne : t'.path (ascii "Factory") ≠ path := fun heq =>
        FirstMatch.find_eq_none.mp hfind (List.mem_map.mpr ⟨t', ht', heq⟩)
      rw [lastSaid_concat, Target.heard_of_ne hne, Option.none_or]
      exact h.hears t' ht'
  | some t =>
      have ht := Target.tracked_of_mem (FirstMatch.mem_of_find hfind)
      obtain ⟨hcheckpoints, hrange⟩ := r.checkpoints_notify ht v
      refine ⟨fun t' ht' => ?_, fun id => (hcheckpoints id).trans (h.checkpoints id),
        fun hstart => hrange (h.inRange hstart)⟩
      rw [lastSaid_concat]
      exact (h.hears t' ht').notify ht (FirstMatch.key_of_find hfind) h.checkpoints

theorem heeds_all (written : List (Text × Value)) :
    (all (loopback equipmentCount qualityCount) start written).Heeds
      (loopback equipmentCount qualityCount) start written := by
  induction written using List.reverseRecOn with
  | nil =>
      refine ⟨fun t _ => ⟨?_, by rintro _ _ ⟨⟩⟩, fun _ => Iff.rfl, fun hstart => hstart⟩
      cases t <;> simp [Target.cached, all, lastSaid]
  | append_singleton written write ih =>
      rw [all, List.foldl_concat]
      exact ih.deliver write

end Received

/-! ## What the map writes at the targets -/

section Writes

variable {s : Server} {t : Target} {path : Text} {v : Value} {run : List Change}

theorem heard_write_of_ne (h : t.path (ascii "Factory") ≠ path) :
    lastSaid t.heard (s.write path v).written = lastSaid t.heard s.written := by
  rw [Server.write]
  split
  next =>
    rw [lastSaid_concat, Target.heard_of_ne h]
    rfl
  next => rfl

theorem heard_write_self (hkind : (s.nodes path).bind Node.kind? = some v.kind)
    (h : t.path (ascii "Factory") = path) :
    lastSaid t.heard (s.write path v).written =
      (t.reading? v).or (lastSaid t.heard s.written) := by
  rw [Server.write, if_pos hkind, lastSaid_concat, Target.heard_self h]

theorem written_addAll (s : Server) (nodes : List (Text × Node)) :
    (s.addAll nodes).written = s.written := by
  induction nodes generalizing s with
  | nil => rfl
  | cons added nodes ih =>
      refine (ih _).trans (?_ : (s.add added.1 added.2).written = s.written)
      rw [Server.add]
      split <;> rfl

theorem ne_leaf_of_unasked {leaf : Text} (t : Target) (h : Unasked leaf) : leaf ≠ t.leaf := by
  cases t with
  | status id => exact h.1
  | supply id => exact h.2.2
  | passRate id => exact h.2.1

/-- Writes under names that the ingest bridge does not ask for go elsewhere. -/
theorem path_ne_of_unasked (t : Target) (h : Unasked (splitParentLeaf path).2) :
    t.path (ascii "Factory") ≠ path :=
  t.path_ne_of_leaf (ne_leaf_of_unasked t h)

theorem path_ne_equipmentPath (t : Target) (id : Nat) (leaf : Text) (h : (47 : UInt8) ∉ leaf)
    (hne : leaf ≠ t.leaf) : t.path (ascii "Factory") ≠ equipmentPath id leaf := by
  refine t.path_ne_of_leaf ?_
  rw [equipmentPath, split_slash _ h]
  exact hne

theorem path_ne_checkpointPath (t : Target) (id : Nat) (leaf : Text) (h : (47 : UInt8) ∉ leaf)
    (hne : leaf ≠ t.leaf) : t.path (ascii "Factory") ≠ checkpointPath id leaf := by
  refine t.path_ne_of_leaf ?_
  rw [checkpointPath, split_slash _ h]
  exact hne

/-- What the target hears of a change of the system or of the work unit. -/
theorem heard_systemState (t : Target) (state : SystemState) :
    lastSaid t.heard (publish s (.systemState state)).written = lastSaid t.heard s.written :=
  heard_write_of_ne (path_ne_of_unasked t (by decide))

theorem heard_workUnit (t : Target) (wu : WorkUnit) :
    lastSaid t.heard (publish s (.workUnit wu)).written = lastSaid t.heard s.written := by
  simp only [publish]
  rw [heard_write_of_ne (path_ne_of_unasked t (by decide)),
    heard_write_of_ne (path_ne_of_unasked t (by decide)),
    heard_write_of_ne (path_ne_of_unasked t (by decide)),
    heard_write_of_ne (path_ne_of_unasked t (by decide))]

theorem heard_equipmentStatus (t : Target) (status : EquipmentStatus) :
    lastSaid t.heard (publish s (.equipmentStatus status)).written =
      lastSaid t.heard ((ensureEquipmentSubtree status.equipmentId s).write
        (equipmentPath status.equipmentId (ascii "Status")) (.int32 status.status)).written := by
  simp only [publish]
  rw [heard_write_of_ne
      (path_ne_equipmentPath t _ _ (by decide) (ne_leaf_of_unasked t (by decide))),
    heard_write_of_ne
      (path_ne_equipmentPath t _ _ (by decide) (ne_leaf_of_unasked t (by decide)))]

theorem heard_qualityCheckpoint (t : Target) (q : QualityCheckpoint) :
    lastSaid t.heard (publish s (.qualityCheckpoint q)).written =
      lastSaid t.heard ((((ensureCheckpointSubtree q.checkpointId s).write
        (checkpointPath q.checkpointId (ascii "Name")) (.string q.name)).write
        (checkpointPath q.checkpointId (ascii "Status")) (.int32 q.status)).write
        (checkpointPath q.checkpointId (ascii "PassRate")) (.float q.passRate)).written := by
  simp only [publish]
  rw [heard_write_of_ne
      (path_ne_checkpointPath t _ _ (by decide) (ne_leaf_of_unasked t (by decide))),
    heard_write_of_ne
      (path_ne_checkpointPath t _ _ (by decide) (ne_leaf_of_unasked t (by decide)))]

/-- A target elsewhere hears nothing of a line. -/
theorem heard_equipmentStatus_of_ne {t : Target} {status : EquipmentStatus}
    (hstatus : t.path (ascii "Factory") ≠ equipmentPath status.equipmentId (ascii "Status")) :
    lastSaid t.heard (publish s (.equipmentStatus status)).written =
      lastSaid t.heard s.written := by
  rw [heard_equipmentStatus, heard_write_of_ne hstatus, ensureEquipmentSubtree, written_addAll]

/-- A target elsewhere hears nothing of a checkpoint. -/
theorem heard_qualityCheckpoint_of_ne {t : Target} {q : QualityCheckpoint}
    (hstatus : t.path (ascii "Factory") ≠ checkpointPath q.checkpointId (ascii "Status"))
    (hpassRate : t.path (ascii "Factory") ≠ checkpointPath q.checkpointId (ascii "PassRate")) :
    lastSaid t.heard (publish s (.qualityCheckpoint q)).written = lastSaid t.heard s.written := by
  rw [heard_qualityCheckpoint, heard_write_of_ne hpassRate, heard_write_of_ne hstatus,
    heard_write_of_ne
      (path_ne_checkpointPath _ _ _ (by decide) (ne_leaf_of_unasked _ (by decide))),
    ensureCheckpointSubtree, written_addAll]

/-- The status of a line is heard as it is published. -/
theorem heard_publish_status (h : Mapped run s) (id : Nat) (c : Change) :
    lastSaid (Target.status id).heard (publish s c).written =
      ((Target.status id).published? c).or (lastSaid (Target.status id).heard s.written) := by
  cases c with
  | systemState state => exact heard_systemState _ state
  | workUnit wu => exact heard_workUnit _ wu
  | equipmentStatus status =>
      rw [Target.published?]
      split
      next hid =>
        obtain rfl := hid
        have hkind := kind_status (h.named.ensureEquipmentSubtree status.equipmentId)
          (exists_status h.equipmentRoot status.equipmentId)
        rw [heard_equipmentStatus,
          heard_write_self (v := .int32 status.status) hkind (Target.path_status _),
          ensureEquipmentSubtree, written_addAll]
        rfl
      next hid =>
        have hne : (Target.status id).path (ascii "Factory") ≠
            equipmentPath status.equipmentId (ascii "Status") := by
          rw [Target.path_status]
          exact fun heq => hid (equipmentPath_inj (by decide) (by decide) heq).1.symm
        exact heard_equipmentStatus_of_ne hne
  | qualityCheckpoint q =>
      have hstatus : (Target.status id).path (ascii "Factory") ≠
          checkpointPath q.checkpointId (ascii "Status") := by
        rw [Target.path_status]
        exact equipmentPath_ne_checkpointPath (by decide) (by decide) id q.checkpointId
      have hpassRate : (Target.status id).path (ascii "Factory") ≠
          checkpointPath q.checkpointId (ascii "PassRate") :=
        path_ne_checkpointPath _ _ _ (by decide) (by decide : ascii "PassRate" ≠ ascii "Status")
      exact heard_qualityCheckpoint_of_ne hstatus hpassRate

/-- The rate of a checkpoint is heard as it is published. -/
theorem heard_publish_passRate (h : Mapped run s) (id : Nat) (c : Change) :
    lastSaid (Target.passRate id).heard (publish s c).written =
      ((Target.passRate id).published? c).or (lastSaid (Target.passRate id).heard s.written) := by
  cases c with
  | systemState state => exact heard_systemState _ state
  | workUnit wu => exact heard_workUnit _ wu
  | equipmentStatus status =>
      have hstatus : (Target.passRate id).path (ascii "Factory") ≠
          equipmentPath status.equipmentId (ascii "Status") :=
        path_ne_equipmentPath _ _ _ (by decide) (by decide : ascii "Status" ≠ ascii "PassRate")
      exact heard_equipmentStatus_of_ne hstatus
  | qualityCheckpoint q =>
      have hstatus : (Target.passRate id).path (ascii "Factory") ≠
          checkpointPath q.checkpointId (ascii "Status") :=
        path_ne_checkpointPath _ _ _ (by decide) (by decide : ascii "Status" ≠ ascii "PassRate")
      have hname : (Target.passRate id).path (ascii "Factory") ≠
          checkpointPath q.checkpointId (ascii "Name") :=
        path_ne_checkpointPath _ _ _ (by decide) (ne_leaf_of_unasked _ (by decide))
      rw [Target.published?]
      split
      next hid =>
        obtain rfl := hid
        have hnamed : WellNamed (fun id => id = q.checkpointId ∨ Published run id)
            (((ensureCheckpointSubtree q.checkpointId s).write
              (checkpointPath q.checkpointId (ascii "Name")) (.string q.name)).write
              (checkpointPath q.checkpointId (ascii "Status")) (.int32 q.status)) :=
          (((h.named.mono fun _ => .inr).ensureCheckpointSubtree (.inl rfl)).write _).write _
        have hkind := kind_passRate hnamed (Server.exists_write (Server.exists_write
          (exists_passRate h.checkpointRoot q.checkpointId)))
        rw [heard_qualityCheckpoint,
          heard_write_self (v := .float q.passRate) hkind (Target.path_passRate _),
          heard_write_of_ne hstatus, heard_write_of_ne hname, ensureCheckpointSubtree,
          written_addAll]
        rfl
      next hid =>
        have hne : (Target.passRate id).path (ascii "Factory") ≠
            checkpointPath q.checkpointId (ascii "PassRate") := by
          rw [Target.path_passRate]
          exact fun heq => hid (checkpointPath_inj (by decide) (by decide) heq).1.symm
        exact heard_qualityCheckpoint_of_ne hstatus hne

/-- Nothing is written where the level of a line is asked for. -/
theorem heard_publish_supply (id : Nat) (c : Change) :
    lastSaid (Target.supply id).heard (publish s c).written =
      lastSaid (Target.supply id).heard s.written := by
  cases c with
  | systemState state => exact heard_systemState _ state
  | workUnit wu => exact heard_workUnit _ wu
  | equipmentStatus status =>
      have hstatus : (Target.supply id).path (ascii "Factory") ≠
          equipmentPath status.equipmentId (ascii "Status") :=
        path_ne_equipmentPath _ _ _ (by decide) (by decide : ascii "Status" ≠ ascii "Supply")
      exact heard_equipmentStatus_of_ne hstatus
  | qualityCheckpoint q =>
      have hstatus : (Target.supply id).path (ascii "Factory") ≠
          checkpointPath q.checkpointId (ascii "Status") :=
        path_ne_checkpointPath _ _ _ (by decide) (by decide : ascii "Status" ≠ ascii "Supply")
      have hpassRate : (Target.supply id).path (ascii "Factory") ≠
          checkpointPath q.checkpointId (ascii "PassRate") :=
        path_ne_checkpointPath _ _ _ (by decide) (by decide : ascii "PassRate" ≠ ascii "Supply")
      exact heard_qualityCheckpoint_of_ne hstatus hpassRate

end Writes

theorem written_registerNodes (sink : Bool) : (registerNodes sink {}).written = [] := by
  have hfixed : (({} : Server).addAll fixedNodes).written = [] := written_addAll {} fixedNodes
  rw [registerNodes]
  split
  next =>
    rw [registerCommandSurface]
    induction List.range kEquipmentCount using List.reverseRecOn with
    | nil => rw [List.foldl_nil, written_addAll, hfixed]
    | append_singleton ids id ih => rw [List.foldl_concat, written_addAll, ih]
  next => exact hfixed

/-- What is written at a target whose changes are heard is what is published of it. -/
theorem heard_after (sink : Bool) {t : Target}
    (hpublish : ∀ run s, Mapped run s → ∀ c, lastSaid t.heard (publish s c).written =
      (t.published? c).or (lastSaid t.heard s.written)) (run : List Change) :
    lastSaid t.heard (after sink run).written = lastSaid t.published? run := by
  induction run using List.reverseRecOn with
  | nil =>
      rw [after, List.foldl_nil, written_registerNodes]
      rfl
  | append_singleton run c ih =>
      rw [after_concat, hpublish run _ (mapped_after sink run), ih, lastSaid_concat]

/-! ## Agreement of the targets -/

namespace Target

/-! ### What a published change is -/

theorem published_status {id : Nat} {c : Change} {r : Reading}
    (h : (status id).published? c = some r) :
    ∃ s, c = .equipmentStatus s ∧ s.equipmentId = id ∧
      r = .enabled id (s.status ≠ OpcUaIngestBridge.kEquipmentStatusOffline) := by
  cases c with
  | equipmentStatus s =>
      obtain ⟨hid, hr⟩ := Option.ite_none_right_eq_some.mp h
      exact ⟨s, rfl, hid, (Option.some.inj hr).symm⟩
  | _ => cases h

theorem published_supply {id : Nat} {c : Change} {r : Reading}
    (h : (supply id).published? c = some r) :
    ∃ s, c = .equipmentStatus s ∧ s.equipmentId = id := by
  cases c with
  | equipmentStatus s => exact ⟨s, rfl, (Option.ite_none_right_eq_some.mp h).1⟩
  | _ => cases h

theorem published_passRate {id : Nat} {c : Change} {r : Reading}
    (h : (passRate id).published? c = some r) :
    ∃ q, c = .qualityCheckpoint q ∧ q.checkpointId = id ∧ r = .passRate id q.passRate := by
  cases c with
  | qualityCheckpoint q =>
      obtain ⟨hid, hr⟩ := Option.ite_none_right_eq_some.mp h
      exact ⟨q, rfl, hid, (Option.some.inj hr).symm⟩
  | _ => cases h

end Target

theorem published_line {run : List Change} {id : Nat}
    (h : (Target.status id).PublishedIn run ∨ (Target.supply id).PublishedIn run) :
    ∃ status, .equipmentStatus status ∈ run ∧ status.equipmentId = id := by
  rcases h with ⟨c, hc, hsome⟩ | ⟨c, hc, hsome⟩
  · obtain ⟨r, hr⟩ := Option.isSome_iff_exists.mp hsome
    obtain ⟨status, rfl, hid, -⟩ := Target.published_status hr
    exact ⟨status, hc, hid⟩
  · obtain ⟨r, hr⟩ := Option.isSome_iff_exists.mp hsome
    obtain ⟨status, rfl, hid⟩ := Target.published_supply hr
    exact ⟨status, hc, hid⟩

theorem published_checkpoint {run : List Change} {id : Nat}
    (h : (Target.passRate id).PublishedIn run) : Published run id := by
  obtain ⟨c, hc, hsome⟩ := h
  obtain ⟨r, hr⟩ := Option.isSome_iff_exists.mp hsome
  obtain ⟨q, rfl, hid, -⟩ := Target.published_passRate hr
  exact ⟨q, hc, hid⟩

section Agreement

variable {sink : Bool} {equipmentCount qualityCount : Nat} {model : SimulatedModel}
  {run : List Change} {id : Nat}

theorem heeds_after (sink : Bool) (equipmentCount qualityCount : Nat) (model : SimulatedModel)
    (run : List Change) :
    (Received.all (loopback equipmentCount qualityCount) model (after sink run).written).Heeds
      (loopback equipmentCount qualityCount) model (after sink run).written :=
  Received.heeds_all _

/-- Of a target whose changes are heard, the bridge hears what is published. -/
theorem hears_of_heard {t : Target}
    (h : t ∈ subscriptions (loopback equipmentCount qualityCount))
    (hpublish : ∀ run s, Mapped run s → ∀ c, lastSaid t.heard (publish s c).written =
      (t.published? c).or (lastSaid t.heard s.written)) :
    (Received.all (loopback equipmentCount qualityCount) model (after sink run).written).Hears
      model t (lastSaid t.published? run) :=
  heard_after sink hpublish run ▸ (heeds_after sink equipmentCount qualityCount model run).hears t h

/-- What is published of the status of a line is what the model keeps of it. -/
theorem kept_status {r : Reading} (h : lastSaid (Target.status id).published? run = some r) :
    Target.kept r = r := by
  obtain ⟨c, -, hc⟩ := exists_of_lastSaid h
  obtain ⟨status, -, -, rfl⟩ := Target.published_status hc
  rfl

theorem agrees_status_iff (hmodel : InRange model)
    (h : .status id ∈ subscriptions (loopback equipmentCount qualityCount))
    (hrun : (Target.status id).PublishedIn run) :
    Agrees sink (loopback equipmentCount qualityCount) model run (.status id) ↔
      id < SimulatedModel.kEquipmentCount := by
  constructor
  · rintro ⟨-, hdelivered⟩
    obtain ⟨c, hc, hsome⟩ := hrun
    obtain ⟨r, hr⟩ := Option.isSome_iff_exists.mp hsome
    obtain ⟨last, hlast⟩ := exists_lastSaid hc hr
    obtain ⟨status, hstatus, -⟩ := Option.map_eq_some_iff.mp (hdelivered last hlast)
    have hinRange := (heeds_after sink equipmentCount qualityCount model run).inRange hmodel
    exact hinRange id (Std.ExtTreeMap.mem_iff_isSome_getElem?.mpr (by rw [hstatus]; rfl))
  · intro hid
    refine ⟨?_, fun r hr => ?_⟩
    · obtain ⟨status, hstatus, rfl⟩ := published_line (.inl hrun)
      have hmapped := mapped_after sink run
      rw [Target.path_status]
      exact kind_status hmapped.named (hmapped.status status hstatus)
    · have hhears : (Received.all (loopback equipmentCount qualityCount) model
          (after sink run).written).Hears model (.status id)
            (lastSaid (Target.status id).published? run) :=
        hears_of_heard h fun _ _ hmapped => heard_publish_status hmapped id
      have hheld := hhears.held hid r hr
      rwa [kept_status hr] at hheld

/-- The model has the checkpoint, and takes the rate that is published last as it is. -/
def TakesRate (model : SimulatedModel) (run : List Change) (id : Nat) : Prop :=
  id ∈ model.qualityCheckpoints ∧
    ∀ rate, lastSaid (Target.passRate id).published? run = some (.passRate id rate) →
      rate.clamp SimulatedModel.kQualityRateMin SimulatedModel.kQualityRateMax = rate

theorem published_of_created
    (h : ((after sink run).nodes ((Target.passRate id).path (ascii "Factory"))).bind Node.kind? =
      some .float) : Published run id := by
  rw [Target.path_passRate] at h
  obtain ⟨node, hnode, -⟩ := Option.bind_eq_some_iff.mp h
  have hfits := (mapped_after sink run).named _ node hnode
  have hleaf : (splitParentLeaf (checkpointPath id (ascii "PassRate"))).2 = ascii "PassRate" := by
    rw [checkpointPath, split_slash _ (by decide)]
  obtain ⟨-, id', hid', hpath⟩ := hfits.passRate hleaf
  rwa [(checkpointPath_inj (by decide) (by decide) hpath).1]

/-- What is published of the rate of a checkpoint is a rate of it. -/
theorem exists_rate {r : Reading} (h : lastSaid (Target.passRate id).published? run = some r) :
    ∃ rate, r = .passRate id rate := by
  obtain ⟨c, -, hc⟩ := exists_of_lastSaid h
  obtain ⟨q, -, -, hr⟩ := Target.published_passRate hc
  exact ⟨q.passRate, hr⟩

theorem agrees_passRate_iff
    (h : .passRate id ∈ subscriptions (loopback equipmentCount qualityCount)) :
    Agrees sink (loopback equipmentCount qualityCount) model run (.passRate id) ↔
      Published run id ∧ TakesRate model run id := by
  have hhears : (Received.all (loopback equipmentCount qualityCount) model
      (after sink run).written).Hears model (.passRate id)
        (lastSaid (Target.passRate id).published? run) :=
    hears_of_heard h fun _ _ hmapped => heard_publish_passRate hmapped id
  constructor
  · rintro ⟨hcreated, hdelivered⟩
    have hpublished := published_of_created hcreated
    have hmem : id ∈ model.qualityCheckpoints := by
      obtain ⟨q, hq, hid⟩ := hpublished
      have hsaid : (Target.passRate id).published? (.qualityCheckpoint q) =
          some (.passRate id q.passRate) := if_pos hid
      obtain ⟨last, hlast⟩ := exists_lastSaid hq hsaid
      obtain ⟨cp, hcp, -⟩ := Option.map_eq_some_iff.mp (hdelivered last hlast)
      refine ((heeds_after sink equipmentCount qualityCount model run).checkpoints id).mp ?_
      exact Std.ExtTreeMap.mem_iff_isSome_getElem?.mpr (by rw [hcp]; rfl)
    refine ⟨hpublished, hmem, fun rate hrate => ?_⟩
    have hboth := (hhears.held hmem _ hrate).symm.trans (hdelivered _ hrate)
    exact (Reading.passRate.inj (Option.some.inj hboth)).2
  · rintro ⟨⟨q, hq, rfl⟩, hmem, htakes⟩
    have hmapped := mapped_after sink run
    refine ⟨?_, fun r hr => ?_⟩
    · rw [Target.path_passRate]
      exact kind_passRate hmapped.named (hmapped.passRate q hq)
    · obtain ⟨rate, rfl⟩ := exists_rate hr
      have hheld := hhears.held hmem _ hr
      rwa [Target.kept, htakes rate hr] at hheld

/-- There is never a node under the name that the level of a line is asked for. -/
theorem not_agrees_supply :
    ¬ Agrees sink (loopback equipmentCount qualityCount) model run (.supply id) := by
  rintro ⟨hcreated, -⟩
  obtain ⟨node, hnode, -⟩ := Option.bind_eq_some_iff.mp hcreated
  have hfits := (mapped_after sink run).named _ node hnode
  refine hfits.supply ?_
  rw [Target.split_path]
  rfl

/-- No level is ever heard. -/
theorem supply_not_heard (sink : Bool) (run : List Change) (id : Nat) :
    lastSaid (Target.supply id).heard (after sink run).written = none := by
  induction run using List.reverseRecOn with
  | nil =>
      rw [after, List.foldl_nil, written_registerNodes]
      rfl
  | append_singleton run c ih => rw [after_concat, heard_publish_supply, ih]

/-- Of what has been published, the status agrees where the model has the line, the rate where the
model takes it, and the level never. -/
theorem agrees_target_iff {t : Target} (hmodel : InRange model)
    (ht : t ∈ subscriptions (loopback equipmentCount qualityCount)) (hrun : t.PublishedIn run) :
    Agrees sink (loopback equipmentCount qualityCount) model run t ↔
      match t with
      | .status id => id < SimulatedModel.kEquipmentCount
      | .supply _ => False
      | .passRate id => TakesRate model run id := by
  cases t with
  | status id => exact agrees_status_iff hmodel ht hrun
  | supply id => exact iff_of_false not_agrees_supply not_false
  | passRate id =>
      exact (agrees_passRate_iff ht).trans (and_iff_right (published_checkpoint hrun))

/-- What has been published is agreed on exactly when no line has been, and the model takes the
rates of the tracked checkpoints that have. -/
theorem agrees_published_iff :
    (∀ t ∈ subscriptions (loopback equipmentCount qualityCount), t.PublishedIn run →
        Agrees sink (loopback equipmentCount qualityCount) model run t) ↔
      (∀ status, .equipmentStatus status ∈ run →
        ¬ status.equipmentId < min equipmentCount kMaxTrackedEquipment) ∧
      ∀ id < min qualityCount kMaxTrackedQuality, Published run id → TakesRate model run id := by
  constructor
  · intro h
    refine ⟨fun status hstatus hid => ?_, fun id hid hpublished => ?_⟩
    · refine not_agrees_supply (h (.supply status.equipmentId) (supply_mem.mpr hid)
        ⟨.equipmentStatus status, hstatus, ?_⟩)
      rw [Target.published?, if_pos rfl]
      rfl
    · have hmem : .passRate id ∈ subscriptions (loopback equipmentCount qualityCount) :=
        passRate_mem.mpr hid
      obtain ⟨q, hq, rfl⟩ := hpublished
      refine ((agrees_passRate_iff hmem).mp (h _ hmem ⟨.qualityCheckpoint q, hq, ?_⟩)).2
      rw [Target.published?, if_pos rfl]
      rfl
  · rintro ⟨hlines, hrates⟩ t ht hrun
    cases t with
    | status id =>
        obtain ⟨status, hstatus, rfl⟩ := published_line (.inl hrun)
        exact absurd (status_mem.mp ht) (hlines status hstatus)
    | supply id =>
        obtain ⟨status, hstatus, rfl⟩ := published_line (.inr hrun)
        exact absurd (supply_mem.mp ht) (hlines status hstatus)
    | passRate id =>
        have hpublished := published_checkpoint hrun
        exact (agrees_passRate_iff ht).mpr
          ⟨hpublished, hrates id (passRate_mem.mp ht) hpublished⟩

/-- Every subscription is agreed on exactly when no line is tracked, and the model takes the
published rate of every tracked checkpoint. -/
theorem agrees_all_iff :
    (∀ t ∈ subscriptions (loopback equipmentCount qualityCount),
        Agrees sink (loopback equipmentCount qualityCount) model run t) ↔
      equipmentCount = 0 ∧
        ∀ id < min qualityCount kMaxTrackedQuality, Published run id ∧ TakesRate model run id := by
  constructor
  · intro h
    constructor
    · by_contra hcount
      refine not_agrees_supply (h (.supply 0) (supply_mem.mpr ?_))
      exact lt_min (Nat.pos_of_ne_zero hcount) (by decide)
    · intro id hid
      have hmem : .passRate id ∈ subscriptions (loopback equipmentCount qualityCount) :=
        passRate_mem.mpr hid
      exact (agrees_passRate_iff hmem).mp (h (.passRate id) hmem)
  · rintro ⟨rfl, hpublished⟩ t ht
    cases t with
    | status id => exact absurd (lt_min_iff.mp (status_mem.mp ht)).1 (Nat.not_lt_zero id)
    | supply id => exact absurd (lt_min_iff.mp (supply_mem.mp ht)).1 (Nat.not_lt_zero id)
    | passRate id => exact (agrees_passRate_iff ht).mpr (hpublished id (passRate_mem.mp ht))

end Agreement

/-- The server and the bridge agree on what has been published exactly when no line has been, and
the model takes the rates of the tracked checkpoints that have.  They agree on every subscription
exactly when no line is tracked, and the model takes the published rate of every tracked
checkpoint. -/
theorem agrees_iff (sink : Bool) (equipmentCount qualityCount : Nat) (model : SimulatedModel)
    (run : List Change) :
    ((∀ t ∈ subscriptions (loopback equipmentCount qualityCount), t.PublishedIn run →
        Agrees sink (loopback equipmentCount qualityCount) model run t) ↔
      (∀ status, .equipmentStatus status ∈ run →
        ¬ status.equipmentId < min equipmentCount kMaxTrackedEquipment) ∧
      ∀ id < min qualityCount kMaxTrackedQuality, Published run id → TakesRate model run id) ∧
    ((∀ t ∈ subscriptions (loopback equipmentCount qualityCount),
        Agrees sink (loopback equipmentCount qualityCount) model run t) ↔
      equipmentCount = 0 ∧
        ∀ id < min qualityCount kMaxTrackedQuality, Published run id ∧ TakesRate model run id) :=
  ⟨agrees_published_iff, agrees_all_iff⟩

/-- The level of a line is published and does not arrive, and a low rate arrives as the lowest that
the model has. -/
theorem level_not_delivered :
    let run : List Change :=
      [.equipmentStatus { equipmentId := 0, status := 1, supplyLevel := 50 },
        .qualityCheckpoint { checkpointId := 0, passRate := .fin 50 }]
    let model := ({} : SimulatedModel).after [.initializeDemoData]
    let received := Received.all (loopback 1 1) model (after false run).written
    (.supply 0 ∈ subscriptions (loopback 1 1) ∧
        ((after false run).nodes (ascii "Factory/EquipmentLines/Line0/Supply")).isNone = true ∧
        lastSaid (Target.supply 0).published? run = some (.supplyLevel 0 50) ∧
        received.model.equipmentStatuses[0]?.map EquipmentStatus.supplyLevel = some 85 ∧
        ¬ Agrees false (loopback 1 1) model run (.supply 0)) ∧
      .passRate 0 ∈ subscriptions (loopback 1 1) ∧
      lastSaid (Target.passRate 0).published? run = some (.passRate 0 (.fin 50)) ∧
      received.model.qualityCheckpoints[0]?.map QualityCheckpoint.passRate = some (.fin 85) ∧
      ¬ Agrees false (loopback 1 1) model run (.passRate 0) := by
  refine ⟨⟨by decide, by decide, rfl, by decide +kernel, not_agrees_supply⟩, by decide, rfl,
    by decide +kernel, fun hagrees => ?_⟩
  obtain ⟨-, -, htakes⟩ := (agrees_passRate_iff (by decide)).mp hagrees
  exact absurd (htakes (.fin 50) rfl) (by decide +kernel)

end OpcUa
