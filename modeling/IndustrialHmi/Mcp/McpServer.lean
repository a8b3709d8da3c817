import IndustrialHmi.Theory.JsonReader
import IndustrialHmi.Mcp.McpProtocol

/-!
# The agent server

The server reads a request from each line and writes the response on a line of its own.  Of
all exceptions it catches the parse error alone.  Any other, and there is one wherever a
member has a type that is not expected, leaves the loop, and the lines after it are not
read.
-/

namespace Mcp

open JsonText Historian

variable {σ : Type} (S : Services σ)

/-! ## The protocol -/

def kMcpProtocolVersion : Text := ascii "2024-11-05"
def kServerName : Text := ascii "industrial-hmi-mcp"
def kServerVersion : Text := ascii "1.2.0"
def kJsonRpcVersion : Text := ascii "2.0"
def kMethodInitialize : Text := ascii "initialize"
def kMethodToolsList : Text := ascii "tools/list"
def kMethodToolsCall : Text := ascii "tools/call"

def toolResult (data : Json) : Option Json :=
  (S.library.pretty data).map fun text =>
    .object [(ascii "content", .array [
      .object [(ascii "type", .string (ascii "text")), (ascii "text", .string text)]])]

def handleInitialize : Json :=
  .object [
    (ascii "protocolVersion", .string kMcpProtocolVersion),
    (ascii "capabilities", .object [(ascii "tools", .object [])]),
    (ascii "serverInfo", .object [
      (ascii "name", .string kServerName),
      (ascii "version", .string kServerVersion)])]

def handleToolsList (writeEnabled : Bool) : Json :=
  .object [(ascii "tools", .array (
    [alarmsSnapshotDescriptor, historianQueryDescriptor, productionMetricsDescriptor] ++
      if writeEnabled then [equipmentCommandDescriptor] else []))]

/-- The result of a tool, in the envelope of its content. -/
def answered (run : Json × σ) : Option (Except McpErrorCode Json) × σ :=
  ((toolResult S run.1).map .ok, run.2)

/-- The branch of `historian_query`. -/
def callHistorianQuery (arguments : Json) (w : σ) : Option (Except McpErrorCode Json) × σ :=
  match parseHistorianArgs S arguments with
  | none => (none, w)
  | some (.error e) => (some (.error e), w)
  | some (.ok args) => answered S (runHistorianQuery S args w)

/-- The branch of `equipment_command`. -/
def callEquipmentCommand (arguments : Json) (writeEnabled : Bool) (w : σ) :
    Option (Except McpErrorCode Json) × σ :=
  if !writeEnabled then (some (.error .MethodNotFound), w)
  else
    match parseEquipmentCommandArgs arguments with
    | none => (none, w)
    | some (.error e) => (some (.error e), w)
    | some (.ok command) =>
        match runEquipmentCommand S command w with
        | (.error e, w) => (some (.error e), w)
        | (.ok payload, w) => answered S (payload, w)

def argumentsOf (params : Json) : Json := (params.find (ascii "arguments")).getD (.object [])

def handleToolsCall (params : Json) (writeEnabled : Bool) (w : σ) :
    Option (Except McpErrorCode Json) × σ :=
  match params.value Json.asText (ascii "name") [] with
  | none => (none, w)
  | some name =>
      if name = kAlarmsSnapshotTool then answered S (runAlarmsSnapshot S w)
      else if name = kProductionMetricsTool then answered S (runProductionMetrics S w)
      else if name = kHistorianQueryTool then callHistorianQuery S (argumentsOf params) w
      else if name = kEquipmentCommandTool then
        callEquipmentCommand S (argumentsOf params) writeEnabled w
      else (some (.error .MethodNotFound), w)

/-! ## What can be written -/

theorem wellEncoded_runHistorianQuery (args : HistorianQueryArgs) (w : σ) :
    (runHistorianQuery S args w).1.wellEncoded = true := by
  rw [runHistorianQuery, Json.wellEncoded_array]
  simp only [List.forall_mem_map]
  intro r _
  have hfield : (fieldName r.field).WellEncoded := by
    cases r.field <;> exact wellEncoded_ascii _
  simp only [recordJson, Json.wellEncoded_object, List.forall_mem_cons, Json.wellEncoded_string,
    wellEncoded_ascii, hfield, true_and]
  exact ⟨rfl, rfl, rfl, by simp⟩

theorem wellEncoded_runProductionMetrics (w : σ) :
    (runProductionMetrics S w).1.wellEncoded = true := by
  have hfloat : ∀ d, (Json.float d).wellEncoded = true := fun _ => rfl
  rw [runProductionMetrics, buildProductionMetricsJson, Json.wellEncoded_object]
  cases S.positive (S.production w).1.1 <;> simp [wellEncoded_ascii, hfloat]

theorem wellEncoded_runEquipmentCommand {command : EquipmentCommand} {w : σ} {payload : Json}
    (h : (runEquipmentCommand S command w).1 = .ok payload) : payload.wellEncoded = true := by
  rw [runEquipmentCommand] at h
  split at h
  · cases h
  split at h
  · cases h
  split at h
  · cases h
  · cases h
    have hname : command.name.WellEncoded := by
      cases command <;> exact wellEncoded_ascii _
    simp [Json.wellEncoded_object, Json.wellEncoded_string, wellEncoded_ascii, hname]

theorem wellEncoded_handleInitialize : handleInitialize.wellEncoded = true := by
  simp [handleInitialize, Json.wellEncoded_object, Json.wellEncoded_string, wellEncoded_ascii,
    kMcpProtocolVersion, kServerName, kServerVersion]

-- The texts are left as they are written: putting them together takes the kernel long.

theorem wellEncoded_described (type description : String) :
    (described type description).wellEncoded = true := by
  simp [described, Json.wellEncoded_object, Json.wellEncoded_string, wellEncoded_ascii]

theorem wellEncoded_alarmsSnapshotDescriptor : alarmsSnapshotDescriptor.wellEncoded = true := by
  simp [alarmsSnapshotDescriptor, kAlarmsSnapshotTool, Json.wellEncoded_object,
    Json.wellEncoded_string, wellEncoded_ascii]

theorem wellEncoded_productionMetricsDescriptor :
    productionMetricsDescriptor.wellEncoded = true := by
  simp [-String.reduceAppend, productionMetricsDescriptor, kProductionMetricsTool,
    Json.wellEncoded_object, Json.wellEncoded_string, wellEncoded_ascii]

theorem wellEncoded_historianQueryDescriptor :
    historianQueryDescriptor.wellEncoded = true := by
  simp [-String.reduceAppend, historianQueryDescriptor, kHistorianQueryTool, kFieldMappings,
    wellEncoded_described, Json.wellEncoded_object, Json.wellEncoded_array,
    Json.wellEncoded_string, wellEncoded_ascii]

theorem wellEncoded_equipmentCommandDescriptor :
    equipmentCommandDescriptor.wellEncoded = true := by
  simp [-String.reduceAppend, equipmentCommandDescriptor, kEquipmentCommandTool, kArgCommand,
    EquipmentCommand.all, EquipmentCommand.name, Json.wellEncoded_object,
    Json.wellEncoded_array, Json.wellEncoded_string, wellEncoded_ascii]

theorem wellEncoded_handleToolsList (writeEnabled : Bool) :
    (handleToolsList writeEnabled).wellEncoded = true := by
  cases writeEnabled <;>
    simp [handleToolsList, wellEncoded_alarmsSnapshotDescriptor,
      wellEncoded_productionMetricsDescriptor, wellEncoded_historianQueryDescriptor,
      wellEncoded_equipmentCommandDescriptor, Json.wellEncoded_object, Json.wellEncoded_array,
      wellEncoded_ascii]

/-- A result is put into its envelope if it can be written. -/
theorem answered_spec {run : Json × σ} :
    ((answered S run).1.isSome = run.1.wellEncoded) ∧
      ∀ result, (answered S run).1 = some (.ok result) → result.wellEncoded = true := by
  refine ⟨by simp [answered, toolResult, S.library.isSome_pretty], fun result h => ?_⟩
  rw [answered, toolResult, Option.map_map, Option.map_eq_some_iff] at h
  obtain ⟨text, htext, hresult⟩ := h
  cases hresult
  have hencoded := S.library.wellEncoded_pretty htext
  simp [Json.wellEncoded_object, Json.wellEncoded_array, Json.wellEncoded_string,
    wellEncoded_ascii, hencoded]

/-! ## The loop -/

def successEnvelope (id result : Json) : Json :=
  .object [(ascii "jsonrpc", .string kJsonRpcVersion), (ascii "id", id), (ascii "result", result)]

def errorEnvelope (id : Json) (code : McpErrorCode) : Json :=
  .object [(ascii "jsonrpc", .string kJsonRpcVersion), (ascii "id", id),
    (ascii "error", .object [
      (ascii "code", .integer code.jsonRpcCode),
      (ascii "message", .string code.defaultMessage)])]

/-- What is written for a response, unless it cannot be written. -/
def writeResponse (response : Json) : Option Text :=
  (S.library.dump response).map (· ++ [newline])

def paramsOf (request : Json) : Json := (request.find (ascii "params")).getD (.object [])

/-- The response to a request with an id, if there is no exception. -/
def respond (request id : Json) (writeEnabled : Bool) (w : σ) : Option Json × σ :=
  match request.value Json.asText (ascii "method") [] with
  | none => (none, w)
  | some method =>
      if method = kMethodInitialize then (some (successEnvelope id handleInitialize), w)
      else if method = kMethodToolsList then
        (some (successEnvelope id (handleToolsList writeEnabled)), w)
      else if method = kMethodToolsCall then
        match handleToolsCall S (paramsOf request) writeEnabled w with
        | (none, w) => (none, w)
        | (some (.ok result), w) => (some (successEnvelope id result), w)
        | (some (.error code), w) => (some (errorEnvelope id code), w)
      else (some (errorEnvelope id .MethodNotFound), w)

/-- What is written for a line, or none when an exception leaves the function. -/
def processLine (line : Text) (writeEnabled : Bool) (w : σ) : Option Text × σ :=
  match S.library.parse line with
  | .parseError => (writeResponse S (errorEnvelope .null .ParseError), w)
  | .outOfRange => (none, w)
  | .value request =>
      match request.find (ascii "id") with
      | none => (some [], w)
      | some id =>
          match respond S request id writeEnabled w with
          | (none, w) => (none, w)
          | (some response, w) => (writeResponse S response, w)

structure Outcome (σ : Type) where
  output : Text
  /-- The loop has come to the end of the input. -/
  returned : Bool
  state : σ

def run (writeEnabled : Bool) : List Text → σ → Outcome σ
  | [], w => ⟨[], true, w⟩
  | line :: lines, w =>
      if line.isEmpty then run writeEnabled lines w
      else
        match processLine S line writeEnabled w with
        | (none, w) => ⟨[], false, w⟩
        | (some written, w) =>
            { run writeEnabled lines w with
              output := written ++ (run writeEnabled lines w).output }

def zero : Double := ⟨some 0, ascii "0.0", by decide⟩

/-- Services with nothing to tell. -/
def quiet : Services Unit where
  library := Library.ofParse reader.parse
  casts := .indefinite
  positive _ := false
  divide _ d := d
  snapshot w := ([], w)
  query _ _ _ w := ([], w)
  production w := ((zero, zero), w)
  session _ := {}
  hasSession _ := false
  invoke _ w := w

end Mcp
