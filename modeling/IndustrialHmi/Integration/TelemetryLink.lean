import IndustrialHmi.Integration.ExternalReadings
import IndustrialHmi.Integration.IngestBridges
import IndustrialHmi.Integration.MqttEncoder
import IndustrialHmi.Integration.TelemetryFormatters
import IndustrialHmi.Model.ObserverTables

/-!
# From one HMI to another

What the telemetry bridge publishes is what the sensor bridge subscribes to, when both are given
the same topic prefix.  Of the topics of a line it understands the supply level, of those of a
checkpoint the pass rate; the state of the system, the documents and the names of a status come to
nothing.

So a second HMI that is fed by the first one only shows its supply levels, and its pass rates as
they are printed, whatever either does in between and however the bytes arrive (`delivery_law`).
The second HMI reads numbers in its own locale, and that has to have the point that the first one
prints.
-/

namespace Telemetry

open CType Numeral Production Production.SimulatedModel Sensor

/-! ## Topics -/

theorem digit_slash (t : Text) : ∀ b ∈ (0x2F :: t : Text).head?, isDigit b = false :=
  Text.forall_head (by decide) t

/-- A field of an entity is found under no other topic of its family. -/
theorem fieldTopic_inj {topicPrefix family field field' : Text} {id id' : Nat}
    (h : fieldTopic topicPrefix family id (0x2F :: field) =
      fieldTopic topicPrefix family id' (0x2F :: field')) : id = id' ∧ field = field' := by
  obtain ⟨hid, hfield⟩ := number_inj (digit_slash _) (digit_slash _)
    (List.append_cancel_left (List.append_cancel_left h))
  exact ⟨hid, (List.cons.inj hfield).2⟩

/-- The topic is none of the bridge. -/
def Foreign (topicPrefix topic : Text) : Prop :=
  ∀ callback : Callback, callback.topic topicPrefix ≠ topic

/-- What is behind the prefix tells the families apart. -/
theorem foreign_of_second {topicPrefix rest : Text} {c : UInt8} (h : c ≠ 0x65) (h' : c ≠ 0x71) :
    Foreign topicPrefix (topicPrefix ++ 0x2F :: c :: rest) := by
  intro callback hsame
  cases callback with
  | state id => exact h (List.cons.inj (List.cons.inj (List.append_cancel_left hsame)).2).1.symm
  | supply id => exact h (List.cons.inj (List.cons.inj (List.append_cancel_left hsame)).2).1.symm
  | rate id => exact h' (List.cons.inj (List.cons.inj (List.append_cancel_left hsame)).2).1.symm

theorem foreign_equipment {topicPrefix field : Text} {id : Nat} (hstate : field ≠ ascii "state")
    (hsupply : field ≠ ascii "supply") :
    Foreign topicPrefix (fieldTopic topicPrefix (ascii "/equipment/") id (0x2F :: field)) := by
  intro callback hsame
  cases callback with
  | state id' => exact hstate (fieldTopic_inj hsame).2.symm
  | supply id' => exact hsupply (fieldTopic_inj hsame).2.symm
  | rate id' =>
      have hsecond := (List.cons.inj (List.cons.inj (List.append_cancel_left hsame)).2).1
      exact absurd hsecond (by decide)

theorem foreign_quality {topicPrefix field : Text} {id : Nat} (hrate : field ≠ ascii "rate") :
    Foreign topicPrefix (fieldTopic topicPrefix (ascii "/quality/") id (0x2F :: field)) := by
  intro callback hsame
  cases callback with
  | state id' =>
      have hsecond := (List.cons.inj (List.cons.inj (List.append_cancel_left hsame)).2).1
      exact absurd hsecond (by decide)
  | supply id' =>
      have hsecond := (List.cons.inj (List.cons.inj (List.append_cancel_left hsame)).2).1
      exact absurd hsecond (by decide)
  | rate id' => exact hrate (fieldTopic_inj hsame).2.symm

theorem publish_of_foreign [Lconv] {sensors : Sensor.Config} {topic : Text}
    (h : Foreign sensors.topicPrefix topic) (payload : Text) :
    Sensor.publish sensors topic payload = [] := by
  have hfind : FirstMatch.find Prod.fst (wire sensors) topic = none := by
    refine FirstMatch.find_eq_none.mpr fun hmem => ?_
    obtain ⟨entry, hentry, rfl⟩ := List.mem_map.mp hmem
    obtain ⟨callback, -, rfl⟩ := List.mem_map.mp hentry
    exact h callback rfl
  simp only [Sensor.publish, Mqtt.Client.deliverInboundPublish, hfind, Option.bind_none]
  rfl

/-! ## What is heard of a change -/

/-- The setters that messages call. -/
def heard [Lconv] (sensors : Sensor.Config) (messages : List Message) : List Op :=
  messages.flatMap fun m => Sensor.publish sensors m.topic m.payload

/-- The setters that a change calls. -/
def echo [Lconv] (sensors : Sensor.Config) : Notification → List Op
  | .equipment status =>
      if status.equipmentId < sensors.equipmentCount.toNat then
        ((parseIntPayload (ascii (toString status.supplyLevel))).map
          (.setEquipmentSupplyLevel status.equipmentId)).toList
      else []
  | .quality checkpoint =>
      if checkpoint.checkpointId < sensors.qualityCount.toNat then
        ((parseFloatPayload (rateText checkpoint.passRate)).map
          (.setQualityPassRate checkpoint.checkpointId)).toList
      else []
  | _ => []

def isReading : Op → Bool
  | .setEquipmentSupplyLevel _ _ | .setQualityPassRate _ _ => true
  | _ => false

/-- A change calls nothing but readings. -/
theorem isReading_of_mem_echo [Lconv] {sensors : Sensor.Config} {n : Notification} {op : Op}
    (h : op ∈ echo sensors n) : isReading op = true := by
  cases n with
  | equipment status =>
      rw [echo] at h
      split at h
      next =>
        obtain ⟨level, -, rfl⟩ := Option.map_eq_some_iff.mp (Option.mem_toList.mp h)
        rfl
      next => cases h
  | quality checkpoint =>
      rw [echo] at h
      split at h
      next =>
        obtain ⟨rate, -, rfl⟩ := Option.map_eq_some_iff.mp (Option.mem_toList.mp h)
        rfl
      next => cases h
  | _ => cases h

theorem supply_mem_callbacks_iff {sensors : Sensor.Config} {id : Nat} :
    Callback.supply id ∈ callbacks sensors ↔ id < sensors.equipmentCount.toNat := by
  simp [callbacks]

/-- What is published on a topic of a callback. -/
theorem publish_callback [Lconv] (sensors : Sensor.Config) (callback : Callback) (payload : Text) :
    Sensor.publish sensors (callback.topic sensors.topicPrefix) payload =
      if callback ∈ callbacks sensors then (callback.command payload).toList else [] := by
  split
  next hmem => exact publish_topic hmem payload
  next hmem => exact publish_of_notMem hmem payload

theorem heard_plainText [Lconv] (sensors : Sensor.Config) (n : Notification) :
    heard sensors (plainTextFormatter.publish sensors.topicPrefix n) = echo sensors n := by
  cases n with
  | systemState state =>
      have hforeign : Foreign sensors.topicPrefix (sensors.topicPrefix ++ ascii "/state") :=
        foreign_of_second (by decide) (by decide)
      simp [heard, echo, Formatter.publish, plainTextFormatter, PlainText.publishSystemState,
        publish_of_foreign hforeign]
  | equipment status =>
      have hstate := publish_callback sensors (.state status.equipmentId)
        (equipmentStatusName status.status)
      have hsupply := publish_callback sensors (.supply status.equipmentId)
        (ascii (toString status.supplyLevel))
      simp only [Callback.command, parseOnOffPayload_name, Option.map_none, Option.toList_none,
        ite_self] at hstate
      simp only [supply_mem_callbacks_iff] at hsupply
      exact (congrArg₂ (· ++ ·) hstate (congrArg (· ++ []) hsupply)).trans (List.append_nil _)
  | quality checkpoint =>
      have hrate := publish_callback sensors (.rate checkpoint.checkpointId)
        (rateText checkpoint.passRate)
      have hforeign : Foreign sensors.topicPrefix (fieldTopic sensors.topicPrefix
          (ascii "/quality/") checkpoint.checkpointId (ascii "/status")) :=
        foreign_quality (by decide)
      have hstatus := publish_of_foreign hforeign (qualityStatusName checkpoint.status)
      simp only [rate_mem_callbacks] at hrate
      exact (congrArg₂ (· ++ ·) hrate (congrArg (· ++ []) hstatus)).trans (List.append_nil _)
  | actuator status => rfl
  | workUnit unit => rfl

theorem heard_json [Lconv] (sensors : Sensor.Config) (n : Notification) :
    heard sensors (jsonFormatter.publish sensors.topicPrefix n) = [] := by
  cases n with
  | systemState state =>
      have hforeign : Foreign sensors.topicPrefix (sensors.topicPrefix ++ ascii "/state/json") :=
        foreign_of_second (by decide) (by decide)
      simp [heard, Formatter.publish, jsonFormatter, Json.publishSystemState,
        publish_of_foreign hforeign]
  | equipment status =>
      have hforeign : Foreign sensors.topicPrefix (fieldTopic sensors.topicPrefix
          (ascii "/equipment/") status.equipmentId (ascii "/json")) :=
        foreign_equipment (by decide) (by decide)
      simp [heard, Formatter.publish, jsonFormatter, Json.publishEquipment,
        publish_of_foreign hforeign]
  | quality checkpoint =>
      have hforeign : Foreign sensors.topicPrefix (fieldTopic sensors.topicPrefix
          (ascii "/quality/") checkpoint.checkpointId (ascii "/json")) :=
        foreign_quality (by decide)
      simp [heard, Formatter.publish, jsonFormatter, Json.publishQuality,
        publish_of_foreign hforeign]
  | actuator status => rfl
  | workUnit unit => rfl

theorem heard_append [Lconv] (sensors : Sensor.Config) (a b : List Message) :
    heard sensors (a ++ b) = heard sensors a ++ heard sensors b := List.flatMap_append

/-- Of what the bridge publishes, the receiver hears the readings. -/
theorem heard_published [Lconv] {config : Config} {sensors : Sensor.Config}
    (htopic : sensors.topicPrefix = config.topicPrefix) (hplain : config.emitPlainText = true)
    (sent : List Notification) :
    heard sensors (config.published sent) = sent.flatMap (echo sensors) := by
  have hone (n : Notification) : heard sensors (config.onChange n) = echo sensors n := by
    rw [Config.onChange, makeDefaultFormatters, hplain, if_pos rfl, ← htopic, List.flatMap_append,
      heard_append, List.flatMap_singleton, heard_plainText]
    cases config.emitJson with
    | false => exact List.append_nil _
    | true => rw [if_pos rfl, List.flatMap_singleton, heard_json, List.append_nil]
  induction sent with
  | nil => rfl
  | cons n sent ih =>
      rw [Config.published, List.flatMap_cons, heard_append, hone, List.flatMap_cons]
      exact congrArg _ ih

/-! ## The client -/

/-- The setters that the callbacks of a client have called. -/
def commands [Lconv] (client : Mqtt.Client Callback) : List Op :=
  client.calls.filterMap fun call => call.callback.command call.payload

/-- The setter that a message calls, if it calls one. -/
def called [Lconv] (sensors : Sensor.Config) (m : Message) : Option Op :=
  ((FirstMatch.find Prod.fst (wire sensors) m.topic).bind Prod.snd).bind fun callback =>
    callback.command m.payload

theorem publish_eq_called [Lconv] (sensors : Sensor.Config) (m : Message) :
    Sensor.publish sensors m.topic m.payload = (called sensors m).toList := by
  simp only [Sensor.publish, Mqtt.Client.deliverInboundPublish, called]
  cases (FirstMatch.find Prod.fst (wire sensors) m.topic).bind Prod.snd with
  | none => rfl
  | some callback =>
      simp only [Option.bind_some, List.nil_append]
      cases hcommand : callback.command m.payload with
      | none => exact List.filterMap_cons_none hcommand
      | some op => exact List.filterMap_cons_some hcommand

/-- A client that has dealt with all its packets has called what their publications say. -/
theorem commands_of_dealt [Lconv] {sensors : Sensor.Config} {count : BitVec 64}
    {ps : List Mqtt.Packet} {client : Mqtt.Client Callback}
    (h : Mqtt.Dealt (wire sensors) count ps client) :
    commands client = heard sensors (ps.filterMap Mqtt.Packet.publication) := by
  have hpacket (p : Mqtt.Packet) : ((p.delivery (wire sensors)).bind fun call =>
      call.callback.command call.payload) = p.publication.bind (called sensors) := by
    cases hpublication : p.publication with
    | none => simp [Mqtt.Packet.delivery, hpublication]
    | some m =>
        rw [Mqtt.Packet.delivery, hpublication, Option.bind_some, Option.bind_some, called]
        cases (FirstMatch.find Prod.fst (wire sensors) m.topic).bind Prod.snd <;> rfl
  simp only [heard, publish_eq_called, ← List.filterMap_eq_flatMap_toList]
  rw [commands, h.called, List.filterMap_filterMap, List.filterMap_filterMap]
  exact List.filterMap_congr fun p _ => hpacket p

/-! ## The receiver -/

/-- What an operation sets the supply level of a line to. -/
def level? (id : Nat) : Op → Option ℤ
  | .setEquipmentSupplyLevel id' level => if id' = id then some level else none
  | _ => none

/-- What an operation sets the pass rate of a checkpoint to. -/
def rate? (id : Nat) : Op → Option Binary32
  | .setQualityPassRate id' rate => if id' = id then some rate else none
  | _ => none

/-- The level set last is held, within the limits. -/
theorem holds_level {c : SimulatedModel} {run : List Op} {id : Nat} {level : ℤ}
    (hid : id < kEquipmentCount) (hrun : ∀ op ∈ run, op ≠ .initializeDemoData)
    (h : lastSaid (level? id) run = some level) :
    (c.after run).supplyLevel? id = some (max kSupplyLevelMin (min level kSupplyLevelMax)) := by
  induction run using List.reverseRecOn with
  | nil => exact absurd h (by simp [lastSaid])
  | append_singleton run op ih =>
      obtain ⟨hearlier, hop⟩ := List.forall_mem_append.mp hrun
      rw [lastSaid_concat] at h
      rw [after_concat]
      have hkeeps (hnone : level? id op = none) (hreadings : op.KeepsReadings) :
          ((c.after run).step op).1.supplyLevel? id =
            some (max kSupplyLevelMin (min level kSupplyLevelMax)) := by
        rw [hnone, Option.none_or] at h
        have hbefore := ih hearlier h
        rw [supplyLevel?_step hreadings (mem_of_supplyLevel? hbefore), hbefore]
      cases op with
      | setEquipmentSupplyLevel id' level' =>
          by_cases hsame : id' = id
          · subst hsame
            simp only [level?, if_pos, Option.some_or, Option.some.injEq] at h
            subst h
            simp [step, setEquipmentSupplyLevel, changeEquipment, not_le.mpr hid, supplyLevel?]
          · rw [level?, if_neg hsame, Option.none_or] at h
            have hbefore := ih hearlier h
            simp only [step, setEquipmentSupplyLevel, changeEquipment]
            split
            next => exact hbefore
            next =>
              simpa only [supplyLevel?, IdMap.get_subscript_of_ne _ _ hsame] using hbefore
      | initializeDemoData => exact absurd rfl (hop _ List.mem_cons_self)
      | _ => exact hkeeps rfl trivial

/-- The rate set last is held, within the limits, where there is a checkpoint. -/
theorem holds_rate {c : SimulatedModel} {run : List Op} {id : Nat} {rate : Binary32}
    (hid : id ∈ c.qualityCheckpoints) (hrun : ∀ op ∈ run, op ≠ .initializeDemoData)
    (h : lastSaid (rate? id) run = some rate) :
    (c.after run).passRate? id = some (rate.clamp kQualityRateMin kQualityRateMax) ∧
      id ∈ (c.after run).externalPassRateOverrides := by
  induction run using List.reverseRecOn with
  | nil => exact absurd h (by simp [lastSaid])
  | append_singleton run op ih =>
      obtain ⟨hearlier, hop⟩ := List.forall_mem_append.mp hrun
      have hstored := mem_qualityCheckpoints_after hid run
      rw [lastSaid_concat] at h
      rw [after_concat, mem_overrides_step]
      have hkeeps (hnone : rate? id op = none) (hreadings : op.KeepsReadings)
          (haccepts : ¬ op.Accepts (c.after run) id) :
          ((c.after run).step op).1.passRate? id =
            some (rate.clamp kQualityRateMin kQualityRateMax) ∧
          (id ∈ (c.after run).externalPassRateOverrides ∨ op.Accepts (c.after run) id) := by
        rw [hnone, Option.none_or] at h
        obtain ⟨hbefore, hmarked⟩ := ih hearlier h
        exact ⟨(passRate?_step hreadings hstored haccepts (.inl hmarked)).trans hbefore,
          .inl hmarked⟩
      cases op with
      | setQualityPassRate id' rate' =>
          by_cases hsame : id' = id
          · subst hsame
            simp only [rate?, if_pos, Option.some_or, Option.some.injEq] at h
            subst h
            exact ⟨by simp [step, setQualityPassRate, hstored, SimulatedModel.notifyQualityChange,
              passRate?], .inr ⟨rfl, hstored⟩⟩
          · exact hkeeps (if_neg hsame) trivial fun haccepts => hsame haccepts.1
      | setEquipmentSupplyLevel id' level =>
          have hnone : rate? id (.setEquipmentSupplyLevel id' level) = none := rfl
          rw [hnone, Option.none_or] at h
          obtain ⟨hbefore, hmarked⟩ := ih hearlier h
          refine ⟨?_, .inl hmarked⟩
          rw [step, setEquipmentSupplyLevel, changeEquipment_keeps]
          exact hbefore
      | initializeDemoData => exact absurd rfl (hop _ List.mem_cons_self)
      | _ => exact hkeeps rfl trivial fun haccepts => haccepts

/-! ## The sender -/

/-- What is told last of a line is echoed last. -/
theorem lastSaid_level [Lconv] {sensors : Sensor.Config} {sent : List Notification} {id : Nat}
    {status : EquipmentStatus} (hid : id < sensors.equipmentCount.toNat)
    (hlevel : inInt status.supplyLevel = true)
    (h : lastSaid (Reporting.about Notification.equipment? EquipmentStatus.equipmentId id) sent =
      some status) :
    lastSaid (level? id) (sent.flatMap (echo sensors)) = some status.supplyLevel := by
  refine lastSaid_flatMap h (fun n hn => ?_) fun n hn => ?_
  · obtain ⟨hequipment, rfl⟩ := Reporting.about_eq_some.mp hn
    obtain rfl := Notification.equipment?_eq_some.mp hequipment
    rw [echo, if_pos hid, parseIntPayload_level hlevel]
    simp [lastSaid, level?]
  · cases n with
    | equipment status' =>
        have hother : status'.equipmentId ≠ id := by
          rintro rfl
          simp [Reporting.about, Notification.equipment?] at hn
        rw [echo]
        split
        next =>
          cases parseIntPayload (ascii (toString status'.supplyLevel)) <;>
            simp [lastSaid, level?, hother]
        next => rfl
    | quality checkpoint =>
        rw [echo]
        split
        next =>
          cases parseFloatPayload (rateText checkpoint.passRate) <;> simp [lastSaid, level?]
        next => rfl
    | _ => rfl

/-- What is told last of a checkpoint is echoed last, as it is printed. -/
theorem lastSaid_rate [Lconv] (hpointed : Lconv.Pointed) {sensors : Sensor.Config}
    {sent : List Notification} {id : Nat} {checkpoint : QualityCheckpoint}
    (hid : id < sensors.qualityCount.toNat)
    (hrate : ∀ q, checkpoint.passRate = .fin q → |q| ≤ Binary32.maxFinite)
    (h : lastSaid (Reporting.about Notification.quality? QualityCheckpoint.checkpointId id) sent =
      some checkpoint) :
    lastSaid (rate? id) (sent.flatMap (echo sensors)) = some (asPrinted checkpoint.passRate) := by
  refine lastSaid_flatMap h (fun n hn => ?_) fun n hn => ?_
  · obtain ⟨hquality, rfl⟩ := Reporting.about_eq_some.mp hn
    obtain rfl := Notification.quality?_eq_some.mp hquality
    rw [echo, if_pos hid, parseFloatPayload_rate hpointed hrate]
    simp [lastSaid, rate?]
  · cases n with
    | quality checkpoint' =>
        have hother : checkpoint'.checkpointId ≠ id := by
          rintro rfl
          simp [Reporting.about, Notification.quality?] at hn
        rw [echo]
        split
        next =>
          cases parseFloatPayload (rateText checkpoint'.passRate) <;>
            simp [lastSaid, rate?, hother]
        next => rfl
    | equipment status =>
        rw [echo]
        split
        next =>
          cases parseIntPayload (ascii (toString status.supplyLevel)) <;> simp [lastSaid, rate?]
        next => rfl
    | _ => rfl

/-- Every supply level is one that the setters leave. -/
def LevelsInRange (c : SimulatedModel) : Prop :=
  ∀ (id : Nat) (status : EquipmentStatus), c.equipmentStatuses[id]? = some status →
    kSupplyLevelMin ≤ status.supplyLevel ∧ status.supplyLevel ≤ kSupplyLevelMax

theorem levelsInRange_subscript {m : IdMap EquipmentStatus} (id : Nat)
    {f : EquipmentStatus → EquipmentStatus}
    (hm : ∀ (k : Nat) (status : EquipmentStatus), m[k]? = some status →
      kSupplyLevelMin ≤ status.supplyLevel ∧ status.supplyLevel ≤ kSupplyLevelMax)
    (hf : ∀ status : EquipmentStatus,
      kSupplyLevelMin ≤ status.supplyLevel ∧ status.supplyLevel ≤ kSupplyLevelMax →
        kSupplyLevelMin ≤ (f status).supplyLevel ∧ (f status).supplyLevel ≤ kSupplyLevelMax)
    (k : Nat) (status : EquipmentStatus) (h : (m.subscript id f)[k]? = some status) :
    kSupplyLevelMin ≤ status.supplyLevel ∧ status.supplyLevel ≤ kSupplyLevelMax := by
  rw [IdMap.get_subscript] at h
  split at h
  next =>
    obtain rfl := Option.some.inj h
    refine hf _ ?_
    cases hold : m[id]? with
    | none => exact ⟨le_refl 0, by decide⟩
    | some old => exact hm id old hold
  next => exact hm k status h

theorem levelsInRange_step {c : SimulatedModel} (hc : LevelsInRange c) (op : Op) :
    LevelsInRange (c.step op).1 := by
  cases op with
  | startProduction =>
      simp only [step, startProduction, simulateProductionCycle, andThen_fst]
      split
      next => exact levelsInRange_subscript kBLineId hc fun _ h => h
      next => exact hc
  | setEquipmentEnabled id enabled =>
      simp only [step, setEquipmentEnabled, changeEquipment]
      split
      next => exact hc
      next => exact levelsInRange_subscript id hc fun _ h => h
  | setEquipmentSupplyLevel id level =>
      simp only [step, setEquipmentSupplyLevel, changeEquipment]
      split
      next => exact hc
      next =>
        refine levelsInRange_subscript id hc fun _ _ =>
          ⟨le_max_left _ _, max_le ?_ (min_le_right _ _)⟩
        decide
  | setQualityPassRate id rate =>
      rw [step, setQualityPassRate_keeps]
      exact hc
  | loadProduct product recipe =>
      rw [step, loadProduct_keeps]
      exact hc
  | tickSimulation draws now =>
      rw [step, tickSimulation_keeps]
      exact hc
  | republishAll =>
      rw [step, republishAll_keeps]
      exact hc
  | initializeDemoData =>
      intro id status h
      simp only [step, initializeDemoData, andThen_fst, notifyQualityChanges_keys, dispatch_fst,
        Std.ExtTreeMap.getElem?_insert] at h
      split_ifs at h
      · obtain rfl := Option.some.inj h
        decide
      · obtain rfl := Option.some.inj h
        decide
      · obtain rfl := Option.some.inj h
        decide
      · exact hc id status h
  | _ => exact hc

theorem levelsInRange_initial : LevelsInRange {} := fun _ _ h => absurd h (by simp)

theorem levelsInRange_after {c : SimulatedModel} (hc : LevelsInRange c) (ops : List Op) :
    LevelsInRange (c.after ops) := by
  induction ops generalizing c with
  | nil => exact hc
  | cons op ops ih => exact ih (levelsInRange_step hc op)

/-! ## The link -/

/-- A value that is clamped is no farther from one that is between the limits. -/
theorem clamp_near {q q' : ℚ} (hlow : 85 ≤ q) (hhigh : q ≤ 100) {e : ℚ} (h : |q' - q| ≤ e) :
    ∃ r, (Binary32.fin q').clamp kQualityRateMin kQualityRateMax = .fin r ∧ |r - q| ≤ e := by
  obtain ⟨hlower, hupper⟩ := abs_le.mp h
  simp only [Binary32.clamp, Binary32.lt, kQualityRateMin, kQualityRateMax, decide_eq_true_eq]
  split_ifs
  · exact ⟨85, rfl, abs_le.mpr ⟨by linarith, by linarith⟩⟩
  · exact ⟨100, rfl, abs_le.mpr ⟨by linarith, by linarith⟩⟩
  · exact ⟨q', rfl, h⟩

/-- An operation of the receiver that is no reading sets nothing. -/
theorem level?_of_not_reading {id : Nat} {op : Op} (h : isReading op = false) :
    level? id op = none := by
  cases op <;> first | rfl | cases h

theorem rate?_of_not_reading {id : Nat} {op : Op} (h : isReading op = false) :
    rate? id op = none := by
  cases op <;> first | rfl | cases h

/-- One HMI publishes, a broker forwards, another HMI subscribes. -/
structure Link [Lconv] where
  config : Config
  sensors : Sensor.Config
  samePrefix : sensors.topicPrefix = config.topicPrefix
  plainText : config.emitPlainText = true
  /-- The receiver reads numbers with the point that the sender prints. -/
  pointed : Lconv.Pointed
  /-- What the sender's model did before it told the bridge all there is. -/
  history : List Op
  identified : (({} : SimulatedModel).after history).Identified
  /-- What it has done since. -/
  ops : List Op
  own : ∀ done op, done ++ [op] <+: ops →
    ((({} : SimulatedModel).after history).after done).SubscriptsOwn op
  /-- What the broker sends the receiver's client. -/
  stream : List UInt8
  /-- It forwards every message, in order; what else it sends does not matter. -/
  forwarded : (Mqtt.packets stream).filterMap Mqtt.Packet.publication =
    config.published ((({} : SimulatedModel).after history).told (.republishAll :: ops))
  receivedCount : BitVec 64
  /-- How the bytes arrive and the client gets to run. -/
  turns : List Mqtt.Turn
  arrived : ((Mqtt.connect (wire sensors) receivedCount stream).run turns).coming = []
  quiet : Mqtt.Quiet ((Mqtt.connect (wire sensors) receivedCount stream).run turns)
  /-- The receiver's model when its client starts to read. -/
  start : SimulatedModel
  /-- What it has done since: its readings come from the client, all else is its own. -/
  run : List Op
  readings : run.filter isReading =
    commands ((Mqtt.connect (wire sensors) receivedCount stream).run turns).client
  notInitialized : ∀ op ∈ run, op ≠ .initializeDemoData

namespace Link

variable [Lconv] (l : Link)

def sender : SimulatedModel := (({} : SimulatedModel).after l.history).after l.ops

def receiver : SimulatedModel := l.start.after l.run

/-- What the sender's observers were told. -/
def sent : List Notification :=
  (({} : SimulatedModel).after l.history).told (.republishAll :: l.ops)

def client : Mqtt.Client Callback :=
  ((Mqtt.connect (wire l.sensors) l.receivedCount l.stream).run l.turns).client

/-- The receiver shows the readings of the sender. -/
structure Mirrors : Prop where
  /-- Its supply levels are those of the sender. -/
  levels : ∀ id level, id < l.sensors.equipmentCount.toNat →
    l.sender.supplyLevel? id = some level → l.receiver.supplyLevel? id = some level
  /-- Its pass rates are those of the sender as they are printed. -/
  rates : ∀ id q, id < l.sensors.qualityCount.toNat → id ∈ l.start.qualityCheckpoints →
    l.sender.passRate? id = some (.fin q) → 85 ≤ q → q ≤ 100 →
      ∃ q', l.receiver.passRate? id = some (.fin q') ∧ |q' - q| ≤ 1 / 20 + 1 / 2 ^ 18
  /-- It is told readings, and never to switch a line on or off. -/
  switchesNothing : ∀ op ∈ commands l.client, isReading op = true

variable {l}

theorem commands_eq : commands l.client = l.sent.flatMap (echo l.sensors) := by
  have hconnect : Mqtt.Follows (wire l.sensors) l.receivedCount l.stream _ :=
    Mqtt.follows_connect l.stream
  have hsettled := Mqtt.settled_of_quiet (Mqtt.follows_run l.turns hconnect) l.arrived l.quiet
  rw [client, commands_of_dealt hsettled.dealt, l.forwarded,
    heard_published l.samePrefix l.plainText]
  rfl

/-- What is said last by the receiver's readings is said last by the echoes. -/
theorem lastSaid_run {β : Type} {said : Op → Option β}
    (hsaid : ∀ op, isReading op = false → said op = none) :
    lastSaid said l.run = lastSaid said (l.sent.flatMap (echo l.sensors)) := by
  rw [← commands_eq, ← lastSaid_filter hsaid, l.readings]
  rfl

/-- The receiver has the supply levels of the sender, and its pass rates as they are printed, when
all that the broker sent has come through. -/
theorem delivery_law (l : Link) : l.Mirrors := by
  have hknown : l.sender.KnownBy l.sent :=
    knownBy_told (sound_initial.after l.history) l.identified l.own
  refine ⟨fun id level hid hlevel => ?_, fun id q hid hmem hrate hlow hhigh => ?_, ?_⟩
  · obtain ⟨status, hstatus, rfl⟩ := Option.map_eq_some_iff.mp hlevel
    have hrange := levelsInRange_after (levelsInRange_after levelsInRange_initial l.history)
      l.ops id status hstatus
    have hcount : id < kEquipmentCount :=
      Ingest.inRange_after (Ingest.inRange_after Ingest.inRange_initial l.history) l.ops id
        (mem_of_supplyLevel? hlevel)
    have hint : inInt status.supplyLevel = true := by
      simp only [kSupplyLevelMin, kSupplyLevelMax] at hrange
      simp only [inInt, decide_eq_true_eq]
      omega
    have hlast := lastSaid_level hid hint ((hknown.equipment id).trans hstatus)
    rw [← lastSaid_run fun _ => level?_of_not_reading] at hlast
    have hholds := holds_level (c := l.start) hcount l.notInitialized hlast
    rw [min_eq_left hrange.2, max_eq_right hrange.1] at hholds
    exact hholds
  · obtain ⟨checkpoint, hcheckpoint, hfin⟩ := Option.map_eq_some_iff.mp hrate
    obtain ⟨printed, hprinted, hnear⟩ := asPrinted_near hlow hhigh
    have hfinite : ∀ q', checkpoint.passRate = .fin q' → |q'| ≤ Binary32.maxFinite := by
      intro q' hq'
      obtain rfl : q = q' := Binary32.fin.inj (hfin.symm.trans hq')
      rw [abs_of_nonneg (by linarith)]
      exact hhigh.trans (by norm_num [Binary32.maxFinite])
    have hlast := lastSaid_rate l.pointed hid hfinite ((hknown.quality id).trans hcheckpoint)
    rw [← lastSaid_run fun _ => rate?_of_not_reading, hfin, hprinted] at hlast
    obtain ⟨r, hclamp, hclose⟩ := clamp_near hlow hhigh hnear
    exact ⟨r, (holds_rate hmem l.notInitialized hlast).1.trans (congrArg some hclamp), hclose⟩
  · rw [commands_eq]
    intro op hop
    obtain ⟨n, -, hn⟩ := List.mem_flatMap.mp hop
    exact isReading_of_mem_echo hn

end Link

/-! ## A link -/

/-- The packet that the client builds for a message. -/
def packet (m : Message) : List UInt8 := (Mqtt.buildPublish m.topic m.payload).toOption.getD []

/-- A broker that sends on the packets of the client forwards its messages. -/
theorem publications_packets {messages : List Message}
    (hfits : ∀ m ∈ messages, m.topic.length ≤ Mqtt.kMaxStringLength ∧
      Mqtt.publishLength m.topic m.payload ≤ Mqtt.kMaxRemainingLength) :
    (Mqtt.packets (messages.flatMap packet)).filterMap Mqtt.Packet.publication = messages := by
  obtain ⟨ps, hbytes, hpublications⟩ : ∃ ps : List Mqtt.Packet,
      messages.flatMap packet = ps.flatMap Mqtt.Packet.bytes ∧
        ps.filterMap Mqtt.Packet.publication = messages := by
    induction messages with
    | nil => exact ⟨[], rfl, rfl⟩
    | cons m messages ih =>
        obtain ⟨⟨htopic, hlength⟩, hrest⟩ := List.forall_mem_cons.mp hfits
        obtain ⟨ps, hbytes, hpublications⟩ := ih hrest
        obtain ⟨p, hbuilt, hheader, hbody⟩ := Mqtt.buildPublish_eq_ok htopic hlength
        have hparsed := Mqtt.parsePublish_of_body hheader htopic hbody
        have hpublication : p.publication = some m := by
          rw [← Mqtt.parsePublish_bytes, hparsed]
          rfl
        refine ⟨p :: ps, ?_, ?_⟩
        · rw [List.flatMap_cons, List.flatMap_cons, hbytes, packet, hbuilt]
          rfl
        · rw [List.filterMap_cons_some hpublication, hpublications]
  have hscan := (Mqtt.scan_position ps []).1
  rw [List.append_nil, (Mqtt.scan_none (w := []) rfl).1, List.append_nil] at hscan
  rw [hbytes, hscan, hpublications]

def benchHistory : List Op := [.initializeDemoData]

/-- A supply level and a pass rate are set. -/
def benchOps : List Op := [.setEquipmentSupplyLevel 0 40, .setQualityPassRate 1 (.fin 97)]

/-- What an initialised model tells its observers of itself and of these. -/
def benchSent : List Notification :=
  (({} : SimulatedModel).after benchHistory).told (.republishAll :: benchOps)

def benchSensors : Sensor.Config := { topicPrefix := ascii "industrial-hmi" }

/-- A broker that sends on the packets of the client. -/
def benchStream : List UInt8 := (({} : Config).published benchSent).flatMap packet

theorem publications_benchStream :
    (Mqtt.packets benchStream).filterMap Mqtt.Packet.publication =
      ({} : Config).published benchSent :=
  publications_packets (by decide +kernel)

/-- All bytes are there when the client gets to run. -/
def benchTurns : List Mqtt.Turn :=
  .arrive benchStream.length :: List.replicate
    (Mqtt.pending ((Mqtt.connect (wire benchSensors) 0 benchStream).step
      (.arrive benchStream.length))) .complete

theorem bench_arrived :
    ((Mqtt.connect (wire benchSensors) 0 benchStream).run benchTurns).coming = [] := by
  rw [benchTurns, Mqtt.Connection.run, List.foldl_cons]
  refine (Mqtt.coming_of_completes _).trans ?_
  exact List.drop_length

theorem bench_quiet :
    Mqtt.Quiet ((Mqtt.connect (wire benchSensors) 0 benchStream).run benchTurns) := by
  rw [benchTurns, Mqtt.Connection.run, List.foldl_cons]
  exact Mqtt.quiet_of_pending _ le_rfl

theorem own_benchOps (done : List Op) (op : Op) (h : done ++ [op] <+: benchOps) :
    ((({} : SimulatedModel).after benchHistory).after done).SubscriptsOwn op := by
  have hmem : op ∈ benchOps := h.subset (List.mem_append_right _ (List.mem_singleton_self op))
  simp only [benchOps, List.mem_cons, List.not_mem_nil, or_false] at hmem
  rcases hmem with rfl | rfl
  · exact .inr (.inl rfl)
  · trivial

/-- The second HMI starts production before it hears of the first. -/
def benchRun : List Op := .startProduction :: benchSent.flatMap (@echo Lconv.c benchSensors)

theorem readings_benchRun :
    benchRun.filter isReading =
      @commands Lconv.c
        ((Mqtt.connect (wire benchSensors) 0 benchStream).run benchTurns).client := by
  have hconnect : Mqtt.Follows (wire benchSensors) 0 benchStream _ := Mqtt.follows_connect _
  have hsettled :=
    Mqtt.settled_of_quiet (Mqtt.follows_run benchTurns hconnect) bench_arrived bench_quiet
  rw [@commands_of_dealt Lconv.c _ _ _ _ hsettled.dealt, publications_benchStream,
    @heard_published Lconv.c _ _ rfl rfl]
  refine (List.filter_cons_of_neg (by simp [isReading])).trans
    (List.filter_eq_self.mpr fun op hop => ?_)
  obtain ⟨n, -, hn⟩ := List.mem_flatMap.mp hop
  exact @isReading_of_mem_echo Lconv.c _ _ _ hn

theorem notInitialized_benchRun : ∀ op ∈ benchRun, op ≠ .initializeDemoData := by
  intro op hop
  rcases List.mem_cons.mp hop with rfl | hecho
  · simp
  · obtain ⟨n, -, hn⟩ := List.mem_flatMap.mp hecho
    have hreading := @isReading_of_mem_echo Lconv.c _ _ _ hn
    rintro rfl
    cases hreading

def bench : @Link Lconv.c :=
  letI := Lconv.c
  { config := {}
    sensors := benchSensors
    samePrefix := rfl
    plainText := rfl
    pointed := rfl
    history := benchHistory
    identified := identified_initializeDemoData identified_initial
    ops := benchOps
    own := own_benchOps
    stream := benchStream
    forwarded := publications_benchStream
    receivedCount := 0
    turns := benchTurns
    arrived := bench_arrived
    quiet := bench_quiet
    start := demoModel
    run := benchRun
    readings := readings_benchRun
    notInitialized := notInitialized_benchRun }

theorem delivery_law_bench :
    letI := Lconv.c
    bench.receiver.supplyLevel? 0 = some 40 ∧
      ∃ q', bench.receiver.passRate? 1 = some (.fin q') ∧ |q' - 97| ≤ 1 / 20 + 1 / 2 ^ 18 :=
  letI := Lconv.c
  ⟨bench.delivery_law.levels 0 40 (by decide) (by decide +kernel),
    bench.delivery_law.rates 1 97 (by decide) ((mem_demoModel 1).mpr (by decide))
      (by decide +kernel) (by norm_num) (by norm_num)⟩

end Telemetry
