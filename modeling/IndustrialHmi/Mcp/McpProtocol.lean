import IndustrialHmi.Theory.JsonWriter
import IndustrialHmi.Auth.User
import IndustrialHmi.Presenter.AlertCenter
import IndustrialHmi.Historian.RangeQuery

/-!
# Tools of the agent interface

A request is dispatched on the texts it has for its method and its tool, and the arguments
are read out of whatever value was sent.  A tool that is given the wrong arguments answers
with an error that is a value.  A member of the wrong type is an exception of the library,
which is `none` here.

The services answer from a state of their own, which any call of them may change.
-/

namespace Mcp

open Auth Historian JsonText

/-! ## Errors -/

inductive McpErrorCode where
  | ParseError
  | MethodNotFound
  | InvalidParams
  | Unauthorized
  | InvalidState
  deriving DecidableEq

namespace McpErrorCode

def jsonRpcCode : McpErrorCode → ℤ
  | ParseError => -32700
  | MethodNotFound => -32601
  | InvalidParams | Unauthorized | InvalidState => -32602

def defaultMessage : McpErrorCode → Text
  | ParseError => ascii "Parse error"
  | MethodNotFound => ascii "Method not found"
  | InvalidParams => ascii "Invalid params"
  | Unauthorized => ascii "Unauthorized: the agent role may not perform this action"
  | InvalidState => ascii "Invalid state for the requested action"

end McpErrorCode

/-! ## The services -/

/-- A row of the snapshot of the alarms, with its texts as they are in memory. -/
structure AlertViewModel where
  key : Text
  severity : AlertSeverity
  state : AlarmState
  priority : ℤ
  title : Text
  message : Text
  timestamp : Text

inductive EquipmentCommand where
  | Start
  | Stop
  | ResetRestart
  deriving DecidableEq

structure Services (σ : Type) where
  library : Library
  casts : Json.Casts
  /-- Greater than zero. -/
  positive : Double → Bool
  divide : ℚ → Double → Double
  snapshot : σ → List AlertViewModel × σ
  query : FieldKind → BitVec 32 → QueryRange → σ → List (HistoryRecord Double) × σ
  /-- The throughput and the OEE. -/
  production : σ → (Double × Double) × σ
  session : σ → Session
  hasSession : σ → Bool
  /-- The handler of a command in the presenter. -/
  invoke : EquipmentCommand → σ → σ

variable {σ : Type} (S : Services σ)

/-! ## The alarms -/

def kAlarmsSnapshotTool : Text := ascii "alarms_snapshot"

def severityName : AlertSeverity → Text
  | .Info => ascii "info"
  | .Warning => ascii "warning"
  | .Critical => ascii "critical"

def stateName : AlarmState → Text
  | .UnackActive => ascii "unack_active"
  | .AckActive => ascii "ack_active"
  | .RtnUnack => ascii "rtn_unack"
  | .Shelved => ascii "shelved"

def alarmsSnapshotDescriptor : Json :=
  .object [
    (ascii "name", .string kAlarmsSnapshotTool),
    (ascii "description",
      .string (ascii "Current active alarms (ISA-18.2), most urgent first. Read-only.")),
    (ascii "inputSchema",
      .object [(ascii "type", .string (ascii "object")), (ascii "properties", .object [])])]

def AlertViewModel.json (alert : AlertViewModel) : Json :=
  .object [
    (ascii "key", .string alert.key),
    (ascii "severity", .string (severityName alert.severity)),
    (ascii "state", .string (stateName alert.state)),
    (ascii "priority", .integer alert.priority),
    (ascii "title", .string alert.title),
    (ascii "message", .string alert.message),
    (ascii "timestamp", .string alert.timestamp)]

def runAlarmsSnapshot (w : σ) : Json × σ :=
  (.array ((S.snapshot w).1.map AlertViewModel.json), (S.snapshot w).2)

/-! ## The historian -/

def kHistorianQueryTool : Text := ascii "historian_query"

def kFieldMappings : List (FieldKind × Text) := [
  (.QualityPassRate, ascii "quality"),
  (.EquipmentSupplyLevel, ascii "supply"),
  (.SystemState, ascii "state"),
  (.Throughput, ascii "throughput"),
  (.OeePercent, ascii "oee")]

def fieldName : FieldKind → Text
  | .QualityPassRate => ascii "quality"
  | .EquipmentSupplyLevel => ascii "supply"
  | .SystemState => ascii "state"
  | .Throughput => ascii "throughput"
  | .OeePercent => ascii "oee"

def fieldFromName (name : Text) : Option FieldKind :=
  (kFieldMappings.find? fun m => m.2 = name).map Prod.fst

def described (type description : String) : Json :=
  .object [(ascii "type", .string (ascii type)),
    (ascii "description", .string (ascii description))]

def historianQueryDescriptor : Json :=
  .object [
    (ascii "name", .string kHistorianQueryTool),
    (ascii "description",
      .string (ascii "Bounded time-series read from the historian archive. Read-only.")),
    (ascii "inputSchema", .object [
      (ascii "type", .string (ascii "object")),
      (ascii "properties", .object [
        (ascii "field", .object [
          (ascii "type", .string (ascii "string")),
          (ascii "enum", .array (kFieldMappings.map fun m => .string m.2)),
          (ascii "description", .string (ascii ("Series: quality pass rate, equipment supply " ++
            "level, system state, throughput (units/hour) or OEE (%).")))]),
        (ascii "entityId", described "integer" ("Checkpoint or equipment id (0 for the global " ++
          "system-state, throughput and OEE series).")),
        (ascii "fromMs", described "integer" "Range start, ms since the Unix epoch."),
        (ascii "toMs", described "integer" "Range end, ms since the Unix epoch."),
        (ascii "limit", described "integer" "Max rows, capped at the store default.")]),
      (ascii "required", .array [.string (ascii "field")])])]

structure HistorianQueryArgs where
  field : FieldKind
  entityId : BitVec 32
  range : QueryRange

def kDefaultLimit : Nat := 10000

def parseHistorianArgs (args : Json) : Option (Except McpErrorCode HistorianQueryArgs) :=
  match args with
  | .object _ => do
      let fieldStr ← args.value Json.asText (ascii "field") []
      match fieldFromName fieldStr with
      | none => return .error .InvalidParams
      | some field =>
          let entityId ← args.value (Json.asUInt32 S.casts) (ascii "entityId") 0
          let fromMs ← args.value (Json.asInt64 S.casts) (ascii "fromMs") 0
          let toMs ← args.value (Json.asInt64 S.casts) (ascii "toMs") 0
          let requested ← args.value (Json.asUInt64 S.casts) (ascii "limit") kDefaultLimit
          return .ok ⟨field, entityId, ⟨fromMs, toMs, min requested kDefaultLimit⟩⟩
  | _ => some (.error .InvalidParams)

def recordJson (r : HistoryRecord Double) : Json :=
  .object [
    (ascii "timestampMs", .integer r.timestampMs),
    (ascii "field", .string (fieldName r.field)),
    (ascii "entityId", .unsigned r.entityId.toNat),
    (ascii "value", .float r.value)]

def runHistorianQuery (args : HistorianQueryArgs) (w : σ) : Json × σ :=
  (.array ((S.query args.field args.entityId args.range w).1.map recordJson),
    (S.query args.field args.entityId args.range w).2)

/-! ## The production metrics -/

def kProductionMetricsTool : Text := ascii "production_metrics"

def productionMetricsDescriptor : Json :=
  .object [
    (ascii "name", .string kProductionMetricsTool),
    (ascii "description", .string (ascii ("Live production KPIs: throughput (units/hour), OEE " ++
      "(percent) and the derived minutes per unit. Read-only."))),
    (ascii "inputSchema",
      .object [(ascii "type", .string (ascii "object")), (ascii "properties", .object [])])]

def kMinutesPerHour : ℚ := 60

def buildProductionMetricsJson (throughputUph oeePct : Double) : Json :=
  .object ([(ascii "throughputUph", .float throughputUph), (ascii "oeePct", .float oeePct)] ++
    if S.positive throughputUph then
      [(ascii "minutesPerUnit", .float (S.divide kMinutesPerHour throughputUph))]
    else [])

def runProductionMetrics (w : σ) : Json × σ :=
  (buildProductionMetricsJson S (S.production w).1.1 (S.production w).1.2, (S.production w).2)

/-! ## The equipment commands -/

def kEquipmentCommandTool : Text := ascii "equipment_command"
def kArgCommand : Text := ascii "command"

namespace EquipmentCommand

def all : List EquipmentCommand := [Start, Stop, ResetRestart]

def name : EquipmentCommand → Text
  | Start => ascii "start"
  | Stop => ascii "stop"
  | ResetRestart => ascii "reset"

def allowed : EquipmentCommand → Role → Bool
  | Start | Stop => canStartStop
  | ResetRestart => canResetSystem

end EquipmentCommand

def commandFromName (name : Text) : Option EquipmentCommand :=
  EquipmentCommand.all.find? fun c => c.name = name

def equipmentCommandDescriptor : Json :=
  .object [
    (ascii "name", .string kEquipmentCommandTool),
    (ascii "description", .string (ascii ("Change the production line state (start / stop / " ++
      "reset). State-changing and audited; the agent role must permit the action " ++
      "(start/stop need Operator, reset needs Maintenance)."))),
    (ascii "inputSchema", .object [
      (ascii "type", .string (ascii "object")),
      (ascii "properties", .object [
        (kArgCommand, .object [
          (ascii "type", .string (ascii "string")),
          (ascii "enum", .array (EquipmentCommand.all.map fun c => .string c.name)),
          (ascii "description", .string (ascii ("Line command: start or stop production, or " ++
            "reset/restart the system.")))])]),
      (ascii "required", .array [.string kArgCommand])])]

def parseEquipmentCommandArgs (args : Json) : Option (Except McpErrorCode EquipmentCommand) :=
  match args with
  | .object _ => do
      let name ← args.value Json.asText kArgCommand []
      match commandFromName name with
      | none => return .error .InvalidParams
      | some command => return .ok command
  | _ => some (.error .InvalidParams)

def runEquipmentCommand (command : EquipmentCommand) (w : σ) : Except McpErrorCode Json × σ :=
  match (S.session w).current with
  | none => (.error .Unauthorized, w)
  | some agent =>
      if !S.hasSession w then (.error .Unauthorized, w)
      else if !command.allowed agent.role then (.error .Unauthorized, S.invoke command w)
      else
        (.ok (.object [(ascii "command", .string command.name),
          (ascii "status", .string (ascii "accepted"))]), S.invoke command w)

end Mcp
