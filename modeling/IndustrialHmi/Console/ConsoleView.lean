import IndustrialHmi.Integration.TelemetryFormatters
import IndustrialHmi.Model.ProductTable
import IndustrialHmi.Presenter.DashboardCards

/-!
# The console

A line that is typed is a command, a usage error or nothing.  The console keeps the newest card
of each kind and of each entity, and writes one line for each card that it is handed.
-/

namespace Console

open CType Numeral Production AlertCenter

/-! ## Reading a line -/

/-- The white space that is trimmed off a line. -/
def isBlank (b : UInt8) : Bool := b = 0x20 ∨ b = 0x09 ∨ b = 0x0D ∨ b = 0x0A

def trim (s : Text) : Text := ((s.dropWhile isBlank).reverse.dropWhile isBlank).reverse

def space : UInt8 := 0x20

/-- What stands before the first blank, and the rest without the blanks around it. -/
def splitToken (s : Text) : Text × Text :=
  (s.takeWhile (· ≠ space), trim ((s.dropWhile (· ≠ space)).drop 1))

/-- What a line asks for. -/
inductive Action where
  | nothing
  | help
  | status
  | start
  | stop
  | reset
  | calibrate
  | toggleEquipment (id : Nat) (enabled : Bool)
  | alerts
  | dismiss (key : Text)
  | products
  | view (id : ℤ)
  | quit
  /-- The line is answered with a message. -/
  | refuse (message : Text)
  deriving DecidableEq

def handleEqCommand (args : Text) : Action :=
  if args = [] then .refuse (ascii "[ERROR    ] Usage: eq <id> on|off")
  else
    let (idToken, stateToken) := splitToken args
    match fromCharsUnsigned 4294967296 idToken with
    | some (id, []) =>
        let stateLower := stateToken.map toLower
        if stateLower = ascii "on" ∨ stateLower = ascii "true" ∨ stateLower = ascii "1" then
          .toggleEquipment id true
        else if stateLower = ascii "off" ∨ stateLower = ascii "false" ∨ stateLower = ascii "0" then
          .toggleEquipment id false
        else
          .refuse (ascii "[ERROR    ] Expected on|off after id, got: '" ++ stateToken ++ ascii "'")
    | _ => .refuse (ascii "[ERROR    ] Invalid equipment id: '" ++ idToken ++ ascii "'")

def handleDismissCommand (args : Text) : Action :=
  if args = [] then
    .refuse (ascii "[ERROR    ] Usage: dismiss <key>. Use 'alerts' to list keys.")
  else .dismiss args

def handleViewCommand (args : Text) : Action :=
  if args = [] then .refuse (ascii "[ERROR    ] Usage: view <id>")
  else
    match fromCharsInt args with
    | some (id, []) => .view id
    | _ => .refuse (ascii "[ERROR    ] Invalid product id: '" ++ args ++ ascii "'")

/-- What is done with a line.  The front end has wired all actions. -/
def dispatchCommand (raw : Text) : Action :=
  let line := trim raw
  if line = [] then .nothing
  else
    let verb := (splitToken line).1.map toLower
    let args := (splitToken line).2
    if verb = ascii "help" ∨ verb = ascii "h" ∨ verb = ascii "?" then .help
    else if verb = ascii "status" then .status
    else if verb = ascii "start" ∨ verb = ascii "s" then .start
    else if verb = ascii "stop" ∨ verb = ascii "p" then .stop
    else if verb = ascii "reset" ∨ verb = ascii "r" then .reset
    else if verb = ascii "calibrate" ∨ verb = ascii "c" ∨ verb = ascii "cal" then .calibrate
    else if verb = ascii "eq" then handleEqCommand args
    else if verb = ascii "alerts" then .alerts
    else if verb = ascii "dismiss" then handleDismissCommand args
    else if verb = ascii "products" then .products
    else if verb = ascii "view" then handleViewCommand args
    else if verb = ascii "quit" ∨ verb = ascii "exit" ∨ verb = ascii "q" then .quit
    else .refuse (ascii "[ERROR    ] Unknown command: '" ++ verb ++ ascii "'. Type 'help'.")

example : dispatchCommand (ascii "  EQ 3  On\r") = .toggleEquipment 3 true := by decide +kernel

example : dispatchCommand (ascii "eq -1 on") =
    .refuse (ascii "[ERROR    ] Invalid equipment id: '-1'") := by decide +kernel

/-! ## Tags -/

def equipmentStatusTag : EquipmentCardStatus → Text
  | .Offline => ascii "OFFLINE"
  | .StartingUp => ascii "STARTING_UP"
  | .CheckOutput => ascii "CHECK_OUTPUT"
  | .Online => ascii "ONLINE"
  | .Processing => ascii "PROCESSING"
  | .WarmingUp => ascii "WARMING_UP"
  | .Ready => ascii "READY"
  | .Reboot => ascii "REBOOT"
  | .Error => ascii "ERROR"
  | .Disabled => ascii "DISABLED"
  | .Unknown => ascii "UNKNOWN"

def qualityStatusTag : QualityCheckpointStatus → Text
  | .Passing => ascii "PASSING"
  | .Warning => ascii "WARNING"
  | .Critical => ascii "CRITICAL"

def actuatorStatusTag : ActuatorCardStatus → Text
  | .Offline => ascii "OFFLINE"
  | .Idle => ascii "IDLE"
  | .Working => ascii "WORKING"
  | .Error => ascii "ERROR"
  | .Homing => ascii "HOMING"
  | .Calibrating => ascii "CALIBRATING"
  | .Unknown => ascii "UNKNOWN"

def alertSeverityTag : AlertSeverity → Text
  | .Info => ascii "INFO"
  | .Warning => ascii "WARNING"
  | .Critical => ascii "CRITICAL"

def alarmStateTag : AlarmState → Text
  | .UnackActive => ascii "UNACK"
  | .AckActive => ascii "ACK"
  | .RtnUnack => ascii "RTN"
  | .Shelved => ascii "SHELVED"

/-! ## Lines -/

/-- `{}` of a number or of a truth value. -/
def shown {α : Type} [ToString α] (a : α) : Text := ascii (toString a)

def workUnitText (vm : WorkUnitViewModel) : Text :=
  ascii "id=" ++ ascii vm.workUnitId ++ ascii " product=" ++ ascii vm.productId ++
    ascii " progress=" ++ shown vm.completedOperations ++ ascii "/" ++ shown vm.totalOperations

def equipmentText (vm : EquipmentCardViewModel) : Text :=
  ascii "id=" ++ shown vm.equipmentId ++ ascii " status=" ++ equipmentStatusTag vm.status ++
    ascii " enabled=" ++ shown vm.enabled

def actuatorText (vm : ActuatorCardViewModel) : Text :=
  ascii "id=" ++ shown vm.actuatorId ++ ascii " status=" ++ actuatorStatusTag vm.status ++
    ascii " auto=" ++ shown vm.autoMode ++ ascii " home=" ++ shown vm.atHomePosition

def qualityText (vm : QualityCheckpointViewModel) : Text :=
  ascii "id=" ++ shown vm.checkpointId ++ ascii " status=" ++ qualityStatusTag vm.status ++
    ascii " pass=" ++ Telemetry.rateText vm.passRate ++ ascii "% inspected=" ++
    shown vm.unitsInspected ++ ascii " defects=" ++ shown vm.defectsFound

def controlText (vm : ControlPanelViewModel) : Text :=
  ascii "start=" ++ shown vm.startEnabled ++ ascii " stop=" ++ shown vm.stopEnabled ++
    ascii " reset=" ++ shown vm.resetRestartEnabled ++ ascii " calib=" ++
    shown vm.calibrationEnabled

def productText (p : Products.Product) : Text :=
  ascii "  id=" ++ shown p.id ++ ascii " code=" ++ p.productCode ++ ascii " name=\"" ++ p.name ++
    ascii "\" status=" ++ p.status ++ ascii " stock=" ++ shown p.stock ++ ascii " quality=" ++
    Telemetry.rateText p.qualityRate ++ ascii "%"

def endLine : Text := ascii "--- END ---"

def bannerLines : List Text :=
  [ascii "========================================",
    ascii " Industrial HMI - Console front-end",
    ascii " Type 'help' for commands, 'quit' to exit.",
    ascii "========================================"]

def helpLines : List Text :=
  [ascii "Commands:",
    ascii "  help, h, ?            Show this list",
    ascii "  status                Dump current system snapshot",
    ascii "  start, s              Start production",
    ascii "  stop, p               Stop / pause production",
    ascii "  reset, r              Reset / restart sequence",
    ascii "  calibrate, cal, c     Run calibration routine",
    ascii "  eq <id> on|off        Toggle equipment enable (id: 0..2)",
    ascii "  alerts                List active alerts",
    ascii "  dismiss <key>         Acknowledge an alarm by key (ISA-18.2)",
    ascii "  products              List products from database",
    ascii "  view <id>             Show product detail",
    ascii "  quit, q, exit         Exit the application"]

/-- The lines of one alert; a message that is empty is left out. -/
def alertLines {τ : Type} (a : AlertViewModel τ) : List Text :=
  (ascii "  [" ++ alertSeverityTag a.severity ++ ascii "/" ++ alarmStateTag a.state ++
    ascii "] key=" ++ ascii a.key ++ ascii " " ++ ascii a.title ++ ascii " at " ++
    ascii a.timestamp) ::
    if a.message.isEmpty then [] else [ascii "        " ++ ascii a.message]

def alertsLines {τ : Type} (active : List (AlertViewModel τ)) : List Text :=
  ascii "--- ALERTS ---" ::
    (if active.isEmpty then [ascii "  (none)"] else active.flatMap alertLines) ++ [endLine]

def newline : UInt8 := 0x0A

/-- The lines of a description; nothing follows a newline at its end. -/
def descriptionLines (description : Text) : List Text :=
  let pieces := description.splitOn newline
  (if pieces.getLast? = some [] then pieces.dropLast else pieces).map (ascii "    " ++ ·)

/-- `std::to_string` of a value of type `float`: six decimals, ties to even. -/
def sixDecimals : Binary32 → Text
  | .fin q =>
      let millionths := (Binary32.roundEven (|q| * 1000000)).toNat
      let digits := ascii (toString (millionths % 1000000))
      (if q < 0 then [minus] else []) ++ ascii (toString (millionths / 1000000)) ++
        point :: (List.replicate (6 - digits.length) 0x30 ++ digits)
  | .nan => ascii "nan"
  | .posInf => ascii "inf"
  | .negInf => ascii "-inf"

/-! ## The products page -/

structure ViewProductDialogViewModel where
  productId : Text
  description : Text
  createdDate : Text
  isVerified : Bool

def kStatusActive : Text := ascii "Active"

/-- What the presenter says of a product; `none` is none that is found. -/
def buildProductDetailViewModel : Option Products.Product → ViewProductDialogViewModel
  | none => ⟨ascii "NOT FOUND", ascii "Product not found or deleted", [], false⟩
  | some product =>
      { productId := product.productCode
        description := product.name ++ ascii "\n" ++ ascii "Status: " ++ product.status ++
          ascii "\n" ++ ascii "Stock: " ++ ascii (toString product.stock) ++ ascii " units\n" ++
          ascii "Quality: " ++ sixDecimals product.qualityRate ++ ascii "%"
        createdDate := product.createdAt
        isVerified := product.status = kStatusActive }

def productDetailLines (vm : ViewProductDialogViewModel) : List Text :=
  [ascii "--- PRODUCT DETAIL ---", ascii "  id/code: " ++ vm.productId,
      ascii "  verified: " ++ shown vm.isVerified,
      ascii "  created:  " ++ if vm.createdDate = [] then ascii "-" else vm.createdDate] ++
    (if vm.description = [] then []
      else ascii "  description:" :: descriptionLines vm.description) ++ [endLine]

/-! ## The view -/

structure ConsoleView where
  lastWorkUnit : Option WorkUnitViewModel := none
  lastEquipment : List EquipmentCardViewModel := []
  lastQuality : List QualityCheckpointViewModel := []
  lastControl : Option ControlPanelViewModel := none
  lastProducts : Option (List Products.Product) := none
  /-- What has been written, line by line. -/
  out : List Text := []
  exit : Bool := false

namespace ConsoleView

def write (lines : List Text) (v : ConsoleView) : ConsoleView := { v with out := v.out ++ lines }

def onWorkUnitChanged (vm : WorkUnitViewModel) (v : ConsoleView) : ConsoleView :=
  { v with lastWorkUnit := some vm }.write [ascii "[WORK_UNIT] " ++ workUnitText vm]

def onEquipmentCardChanged (vm : EquipmentCardViewModel) (v : ConsoleView) : ConsoleView :=
  { v with
    lastEquipment := FirstMatch.put EquipmentCardViewModel.equipmentId v.lastEquipment vm }.write
    [ascii "[EQUIPMENT] " ++ equipmentText vm]

def onActuatorCardChanged (vm : ActuatorCardViewModel) (v : ConsoleView) : ConsoleView :=
  v.write [ascii "[ACTUATOR ] " ++ actuatorText vm]

def onQualityCheckpointChanged (vm : QualityCheckpointViewModel) (v : ConsoleView) :
    ConsoleView :=
  { v with
    lastQuality := FirstMatch.put QualityCheckpointViewModel.checkpointId v.lastQuality vm }.write
    [ascii "[QUALITY  ] " ++ qualityText vm]

def onControlPanelChanged (vm : ControlPanelViewModel) (v : ConsoleView) : ConsoleView :=
  { v with lastControl := some vm }.write [ascii "[CONTROL  ] " ++ controlText vm]

def onProductsLoaded (products : List Products.Product) (v : ConsoleView) : ConsoleView :=
  { v with lastProducts := some products }.write
    [ascii "[PRODUCTS ] loaded count=" ++ shown products.length]

/-- A call of the presenter. -/
def observe (v : ConsoleView) : Card → ConsoleView
  | .workUnit vm => v.onWorkUnitChanged vm
  | .equipment vm => v.onEquipmentCardChanged vm
  | .actuator vm => v.onActuatorCardChanged vm
  | .quality vm => v.onQualityCheckpointChanged vm
  | .controlPanel vm => v.onControlPanelChanged vm

/-- What `printStatus` writes. -/
def statusLines (v : ConsoleView) : List Text :=
  ascii "--- STATUS ---" ::
    (v.lastWorkUnit.toList.map fun vm => ascii "  work_unit  " ++ workUnitText vm) ++
    (v.lastEquipment.map fun vm => ascii "  equipment  " ++ equipmentText vm ++
      ascii " supply=" ++ ascii vm.consumables) ++
    (v.lastQuality.map fun vm => ascii "  quality    " ++ qualityText vm) ++
    (v.lastControl.toList.map fun vm => ascii "  control    " ++ controlText vm) ++ [endLine]

/-- What `printProducts` writes. -/
def productsLines (v : ConsoleView) : List Text :=
  let products := v.lastProducts.getD []
  ascii "--- PRODUCTS ---" ::
    (if products.isEmpty then [ascii "  (no products loaded)"] else products.map productText) ++
    [endLine]

end ConsoleView

end Console
