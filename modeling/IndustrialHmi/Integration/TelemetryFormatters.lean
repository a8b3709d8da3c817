import IndustrialHmi.Integration.ExportedProduct
import IndustrialHmi.Integration.MqttPacket
import IndustrialHmi.Integration.SensorRates

/-!
# Telemetry

Every change that the model tells its observers of is published, by the plain-text formatter one
field on a topic, by the other as one document.  What is published about a supply level is what the
sensor bridge reads back (`parseIntPayload_level`), and so is a pass rate where the decimal point
is the one that is printed (`parseFloatPayload_fin`).  The names of a status are no payload that it
understands (`parseOnOffPayload_name`).

The value of a rate has no sign bit of its own: that of a zero, and of what is not a number, is
printed as a plus.
-/

namespace Telemetry

open CType Numeral Production SystemStateMachine

/-! ## Formatters -/

/-- What a publisher is handed. -/
abbrev Message := Mqtt.ParsedPublish

def systemStateName : SystemState → Text
  | .IDLE => ascii "idle"
  | .RUNNING => ascii "running"
  | .ERROR => ascii "error"
  | .CALIBRATION => ascii "calibration"

def equipmentStatusName (status : ℤ) : Text :=
  if status = 0 then ascii "offline"
  else if status = 1 then ascii "online"
  else if status = 2 then ascii "processing"
  else if status = 3 then ascii "error"
  else ascii "unknown"

def qualityStatusName (status : ℤ) : Text :=
  if status = 0 then ascii "passing"
  else if status = 1 then ascii "warning"
  else if status = 2 then ascii "critical"
  else ascii "unknown"

/-- `{:.1f}` of a value of type `float`. -/
def rateText : Binary32 → Text
  | .fin q => oneDecimal (decide (q < 0)) q
  | .nan => ascii "nan"
  | .posInf => ascii "inf"
  | .negInf => ascii "-inf"

/-- The topic of a field of an entity. -/
def fieldTopic (topicPrefix family : Text) (id : Nat) (field : Text) : Text :=
  topicPrefix ++ (family ++ (ascii (toString id) ++ field))

namespace PlainText

def publishSystemState (topicPrefix : Text) (state : SystemState) : List Message :=
  [⟨topicPrefix ++ ascii "/state", systemStateName state⟩]

def publishEquipment (topicPrefix : Text) (es : EquipmentStatus) : List Message :=
  [⟨fieldTopic topicPrefix (ascii "/equipment/") es.equipmentId (ascii "/state"),
      equipmentStatusName es.status⟩,
    ⟨fieldTopic topicPrefix (ascii "/equipment/") es.equipmentId (ascii "/supply"),
      ascii (toString es.supplyLevel)⟩]

def publishQuality (topicPrefix : Text) (qc : QualityCheckpoint) : List Message :=
  [⟨fieldTopic topicPrefix (ascii "/quality/") qc.checkpointId (ascii "/rate"),
      rateText qc.passRate⟩,
    ⟨fieldTopic topicPrefix (ascii "/quality/") qc.checkpointId (ascii "/status"),
      qualityStatusName qc.status⟩]

end PlainText

namespace Json

def publishSystemState (topicPrefix : Text) (state : SystemState) : List Message :=
  [⟨topicPrefix ++ ascii "/state/json",
      ascii "\x7b\"state\":\"" ++ systemStateName state ++ ascii "\"\x7d"⟩]

def publishEquipment (topicPrefix : Text) (es : EquipmentStatus) : List Message :=
  [⟨fieldTopic topicPrefix (ascii "/equipment/") es.equipmentId (ascii "/json"),
      ascii "\x7b\"id\":" ++ ascii (toString es.equipmentId) ++ ascii ",\"state\":\"" ++
        equipmentStatusName es.status ++ ascii "\",\"supply\":" ++
        ascii (toString es.supplyLevel) ++ ascii "\x7d"⟩]

def publishQuality (topicPrefix : Text) (qc : QualityCheckpoint) : List Message :=
  [⟨fieldTopic topicPrefix (ascii "/quality/") qc.checkpointId (ascii "/json"),
      ascii "\x7b\"id\":" ++ ascii (toString qc.checkpointId) ++ ascii ",\"rate\":" ++
        rateText qc.passRate ++ ascii ",\"status\":\"" ++ qualityStatusName qc.status ++
        ascii "\"\x7d"⟩]

end Json

/-- A formatter: what it publishes for each of the three signals. -/
structure Formatter where
  publishSystemState : Text → SystemState → List Message
  publishEquipment : Text → EquipmentStatus → List Message
  publishQuality : Text → QualityCheckpoint → List Message

def plainTextFormatter : Formatter where
  publishSystemState := PlainText.publishSystemState
  publishEquipment := PlainText.publishEquipment
  publishQuality := PlainText.publishQuality

def jsonFormatter : Formatter where
  publishSystemState := Json.publishSystemState
  publishEquipment := Json.publishEquipment
  publishQuality := Json.publishQuality

/-! ## The bridge -/

structure Config where
  topicPrefix : Text := ascii "industrial-hmi"
  emitPlainText : Bool := true
  emitJson : Bool := false

def makeDefaultFormatters (config : Config) : List Formatter :=
  (if config.emitPlainText then [plainTextFormatter] else []) ++
    (if config.emitJson then [jsonFormatter] else [])

/-- What a formatter publishes when the observers are called. -/
def Formatter.publish (f : Formatter) (topicPrefix : Text) : Notification → List Message
  | .systemState state => f.publishSystemState topicPrefix state
  | .equipment status => f.publishEquipment topicPrefix status
  | .quality checkpoint => f.publishQuality topicPrefix checkpoint
  | .actuator _ => []
  | .workUnit _ => []

/-- What the bridge publishes for one call of the observers. -/
def Config.onChange (config : Config) (sent : Notification) : List Message :=
  (makeDefaultFormatters config).flatMap (·.publish config.topicPrefix sent)

/-- What the bridge publishes, in order. -/
def Config.published (config : Config) (sent : List Notification) : List Message :=
  sent.flatMap config.onChange

/-! ## Payloads -/

open Sensor

/-- The bridge of the sensors knows other words for on and off. -/
theorem parseOnOffPayload_name (status : ℤ) :
    parseOnOffPayload (equipmentStatusName status) = none := by
  simp only [equipmentStatusName]
  split_ifs <;> decide

theorem trim_of_isNumeric {t : Text} (h : Export.IsNumeric t) : trim t = t := by
  have hspace : t.All fun b => isSpace b = false := h.all (by decide +kernel)
  exact trim_eq_self (fun b hb => hspace b (List.mem_of_mem_head? hb))
    fun b hb => hspace b (List.mem_of_mem_getLast? hb)

theorem parseIntPayload_level {level : ℤ} (h : inInt level = true) :
    parseIntPayload (ascii (toString level)) = some level := by
  have hread : fromCharsInt (ascii (toString level) ++ []) = some (level, []) :=
    fromChars_int h fun b hb => by cases hb
  have hne : ascii (toString level) ≠ [] := by
    intro hnil
    rw [hnil] at hread
    cases hread
  rw [List.append_nil] at hread
  rw [parseIntPayload, trim_of_isNumeric (Export.isNumeric_int level), if_neg hne, hread]
  rfl

/-- The rate that is read of what was printed. -/
def asPrinted : Binary32 → Binary32
  | .fin q => .round (printed (decide (q < 0)) q)
  | other => other

theorem isNumeric_oneDecimal (negative : Bool) (q : ℚ) :
    Export.IsNumeric (oneDecimal negative q) := by
  have hbody : Export.IsNumeric
      (ascii (toString (tenths q / 10)) ++ point :: ascii (toString (tenths q % 10))) :=
    Export.isNumeric_append (Export.isNumeric_nat _)
      (Export.isNumeric_append (a := [point]) (by unfold Export.IsNumeric; decide)
        (Export.isNumeric_nat _))
  refine Export.isNumeric_append ?_ hbody
  cases negative with
  | false => exact fun b hb => by cases hb
  | true => unfold Export.IsNumeric; decide

/-- A number is read back as it was printed where the decimal point is a point, and is no payload
elsewhere. -/
theorem parseFloatPayload_fin [Lconv] {q : ℚ} (h : |q| ≤ Binary32.maxFinite) :
    parseFloatPayload (rateText (.fin q)) =
      if Lconv.Pointed then some (asPrinted (.fin q)) else none := by
  have hnumeric := isNumeric_oneDecimal (decide (q < 0)) q
  have hnonzero : (oneDecimal (decide (q < 0)) q).All fun b => b ≠ 0 :=
    hnumeric.all (by decide +kernel)
  have hne : oneDecimal (decide (q < 0)) q ≠ [] := by
    refine List.append_ne_nil_of_right_ne_nil _ ?_
    exact List.append_ne_nil_of_left_ne_nil (nat_ne_nil _) _
  have htake : (oneDecimal (decide (q < 0)) q).takeWhile (· ≠ 0) =
      oneDecimal (decide (q < 0)) q :=
    List.takeWhile_eq_self_iff.mpr fun b hb => by simpa using hnonzero b hb
  simp only [rateText, parseFloatPayload, trim_of_isNumeric hnumeric, if_neg hne, htake,
    strtof_oneDecimal _ h]
  by_cases hpointed : Lconv.Pointed
  · simp [hpointed, readBack, asPrinted]
  · simp [hpointed]

/-- A rate is read back as it was printed. -/
theorem parseFloatPayload_rate [Lconv] (hpointed : Lconv.Pointed) {rate : Binary32}
    (h : ∀ q, rate = .fin q → |q| ≤ Binary32.maxFinite) :
    parseFloatPayload (rateText rate) = some (asPrinted rate) := by
  cases rate with
  | nan => rfl
  | posInf => rfl
  | negInf => rfl
  | fin q => rw [parseFloatPayload_fin (h q rfl), if_pos hpointed]

/-- Between the limits of the model a rate is printed as one that is next to it. -/
theorem asPrinted_near {q : ℚ} (hlow : 85 ≤ q) (hhigh : q ≤ 100) :
    ∃ q', asPrinted (.fin q) = .fin q' ∧ |q' - q| ≤ 1 / 20 + 1 / 2 ^ 18 := by
  have hsign : decide (q < 0) = false := decide_eq_false (not_lt.mpr (by linarith))
  have hsigned : Signed false q := by
    rw [Signed, if_neg Bool.false_ne_true]
    linarith
  have hprinted := abs_printed_sub_le hsigned
  have hnear := abs_le.mp hprinted
  have hprintedAbs : |printed false q| < 2 ^ ((6 : ℤ) + 1) := by
    rw [abs_lt]
    norm_num
    constructor <;> linarith [hnear.1, hnear.2]
  have hmax : |printed false q| ≤ Binary32.maxFinite := by
    refine hprintedAbs.le.trans ?_
    norm_num [Binary32.maxFinite]
  refine ⟨Binary32.rounded (printed false q), ?_, ?_⟩
  · rw [asPrinted, hsign, Binary32.round_of_le hmax]
  · have hround := Binary32.abs_rounded_sub_le hprintedAbs (by decide)
    have hunit : (2 : ℚ) ^ ((6 : ℤ) - 24) = 1 / 2 ^ 18 := by norm_num
    rw [hunit] at hround
    calc |Binary32.rounded (printed false q) - q|
        ≤ |Binary32.rounded (printed false q) - printed false q| + |printed false q - q| :=
          abs_sub_le _ _ _
      _ ≤ 1 / 20 + 1 / 2 ^ 18 := by linarith

end Telemetry
