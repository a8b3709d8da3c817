import IndustrialHmi.Integration.MqttReadLoop
import IndustrialHmi.Model.SimulatedModel
import IndustrialHmi.Theory.Numerals

/-!
# The sensor bridge

The bridge subscribes one topic for the state and one for the supply level of each line, and one
for the pass rate of each checkpoint.  The client finds a subscription by the topic as it is, so a
publish reaches the callback of its topic and no other (`publish_topic`).

A payload is read without the white space around it.  One that is not understood is dropped.
-/

namespace Sensor

open CType Numeral Production

structure Config where
  topicPrefix : Text := ascii "industrial-hmi-sensors"
  equipmentCount : UInt32 := 3
  qualityCount : UInt32 := 3

/-! ## Payloads -/

def parseOnOffPayload (raw : Text) : Option Bool :=
  let raw := trim raw
  if raw = [] then none
  else
    let lower := raw.map toLower
    if lower = ascii "on" ∨ lower = ascii "1" ∨ lower = ascii "true" then some true
    else if lower = ascii "off" ∨ lower = ascii "0" ∨ lower = ascii "false" then some false
    else none

def parseIntPayload (raw : Text) : Option ℤ :=
  let raw := trim raw
  if raw = [] then none
  else
    match fromCharsInt raw with
    | none => none
    | some (value, rest) => if rest ≠ [] then none else some value

/-- The text up to its first zero byte goes to `strtof`, and all of that has to be a number. -/
def parseFloatPayload [Lconv] (raw : Text) : Option Binary32 :=
  let raw := trim raw
  if raw = [] then none
  else
    match strtof (raw.takeWhile (· ≠ 0)) with
    | none => none
    | some r => if r.rest ≠ [] then none else some r.value

/-! ## Subscriptions -/

inductive Callback where
  | state (id : Nat)
  | supply (id : Nat)
  | rate (id : Nat)
  deriving DecidableEq

namespace Callback

def topic (topicPrefix : Text) : Callback → Text
  | state id =>
      topicPrefix ++ (ascii "/equipment/" ++ (ascii (toString id) ++ ascii "/state"))
  | supply id =>
      topicPrefix ++ (ascii "/equipment/" ++ (ascii (toString id) ++ ascii "/supply"))
  | rate id => topicPrefix ++ (ascii "/quality/" ++ (ascii (toString id) ++ ascii "/rate"))

/-- The setter that the callback calls. -/
def command [Lconv] (payload : Text) : Callback → Option SimulatedModel.Op
  | state id => (parseOnOffPayload payload).map (.setEquipmentEnabled id)
  | supply id => (parseIntPayload payload).map (.setEquipmentSupplyLevel id)
  | rate id => (parseFloatPayload payload).map (.setQualityPassRate id)

end Callback

/-- The callbacks in the order in which they are subscribed. -/
def callbacks (config : Config) : List Callback :=
  ((List.range config.equipmentCount.toNat).flatMap fun id => [.state id, .supply id]) ++
    (List.range config.qualityCount.toNat).map .rate

def wire (config : Config) : List (Text × Option Callback) :=
  (callbacks config).map fun callback => (callback.topic config.topicPrefix, some callback)

/-- The setters called when a message is published to the client that the bridge is wired to. -/
def publish [Lconv] (config : Config) (topic payload : Text) : List SimulatedModel.Op :=
  let client : Mqtt.Client Callback := { receivedCount := 0, subscriptions := wire config }
  (client.deliverInboundPublish topic payload).calls.filterMap fun call =>
    call.callback.command call.payload

/-! ## Dispatch -/

theorem state_mem_callbacks {config : Config} {id : Nat} (h : id < config.equipmentCount.toNat) :
    Callback.state id ∈ callbacks config :=
  List.mem_append_left _ (List.mem_flatMap.mpr ⟨id, List.mem_range.mpr h, List.mem_cons_self⟩)

theorem rate_mem_callbacks {config : Config} {id : Nat} :
    Callback.rate id ∈ callbacks config ↔ id < config.qualityCount.toNat := by
  simp [callbacks]

/-- A number between two texts is read back, and so is what follows it. -/
theorem number_inj {id id' : Nat} {rest rest' : Text} (hrest : ∀ b ∈ rest.head?, isDigit b = false)
    (hrest' : ∀ b ∈ rest'.head?, isDigit b = false)
    (h : ascii (toString id) ++ rest = ascii (toString id') ++ rest') :
    id = id' ∧ rest = rest' := by
  obtain ⟨htake, hdrop⟩ := nat_run id hrest
  obtain ⟨htake', hdrop'⟩ := nat_run id' hrest'
  rw [h, htake'] at htake
  rw [h, hdrop'] at hdrop
  refine ⟨?_, hdrop.symm⟩
  rw [← ofDigits_nat id, ← htake, ofDigits_nat]

theorem topic_injective (topicPrefix : Text) : Function.Injective (Callback.topic topicPrefix) := by
  have hfamily : ∀ t t' : Text, ascii "/equipment/" ++ t ≠ ascii "/quality/" ++ t' := by
    intro t t' h
    have hsecond : (0x65 : UInt8) = 0x71 := (List.cons.inj (List.cons.inj h).2).1
    exact absurd hsecond (by decide)
  have hslash : ∀ t : Text, ∀ b ∈ (0x2F :: t : Text).head?, isDigit b = false :=
    Text.forall_head (by decide)
  intro a b h
  cases a with
  | state id =>
      cases b with
      | state id' =>
          have htail := List.append_cancel_left (List.append_cancel_left h)
          exact congrArg _ (number_inj (hslash _) (hslash _) htail).1
      | supply id' =>
          have htail := List.append_cancel_left (List.append_cancel_left h)
          exact absurd (number_inj (hslash _) (hslash _) htail).2 (by decide)
      | rate id' => exact absurd (List.append_cancel_left h) (hfamily _ _)
  | supply id =>
      cases b with
      | state id' =>
          have htail := List.append_cancel_left (List.append_cancel_left h)
          exact absurd (number_inj (hslash _) (hslash _) htail).2 (by decide)
      | supply id' =>
          have htail := List.append_cancel_left (List.append_cancel_left h)
          exact congrArg _ (number_inj (hslash _) (hslash _) htail).1
      | rate id' => exact absurd (List.append_cancel_left h) (hfamily _ _)
  | rate id =>
      cases b with
      | state id' => exact absurd (List.append_cancel_left h).symm (hfamily _ _)
      | supply id' => exact absurd (List.append_cancel_left h).symm (hfamily _ _)
      | rate id' =>
          have htail := List.append_cancel_left (List.append_cancel_left h)
          exact congrArg _ (number_inj (hslash _) (hslash _) htail).1

/-- The callback found under its topic, if it is subscribed. -/
theorem find_topic (config : Config) (callback : Callback) :
    FirstMatch.find Prod.fst (wire config) (callback.topic config.topicPrefix) =
      if callback ∈ callbacks config then
        some (callback.topic config.topicPrefix, some callback)
      else none := by
  cases hfind : FirstMatch.find Prod.fst (wire config) (callback.topic config.topicPrefix) with
  | none =>
      rw [if_neg]
      intro h
      have hmem : (callback.topic config.topicPrefix, some callback) ∈ wire config :=
        List.mem_map_of_mem h
      exact FirstMatch.find_eq_none.mp hfind (List.mem_map_of_mem hmem)
  | some e =>
      have htopic := FirstMatch.key_of_find hfind
      obtain ⟨callback', hmem, rfl⟩ := List.mem_map.mp (FirstMatch.mem_of_find hfind)
      obtain rfl : callback' = callback := topic_injective config.topicPrefix htopic
      rw [if_pos hmem]

/-- A publish on a topic of the bridge calls the callback of the topic, once. -/
theorem publish_topic [Lconv] {config : Config} {callback : Callback}
    (h : callback ∈ callbacks config) (payload : Text) :
    publish config (callback.topic config.topicPrefix) payload =
      (callback.command payload).toList := by
  have hfind := (find_topic config callback).trans (if_pos h)
  simp only [publish, Mqtt.Client.deliverInboundPublish, hfind, Option.bind_some]
  cases hcommand : callback.command payload with
  | none => exact List.filterMap_cons_none hcommand
  | some op => exact List.filterMap_cons_some hcommand

theorem publish_of_notMem [Lconv] {config : Config} {callback : Callback}
    (h : callback ∉ callbacks config) (payload : Text) :
    publish config (callback.topic config.topicPrefix) payload = [] := by
  have hfind := (find_topic config callback).trans (if_neg h)
  simp only [publish, Mqtt.Client.deliverInboundPublish, hfind, Option.bind_none]
  rfl

end Sensor
