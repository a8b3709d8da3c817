import IndustrialHmi.Config.Flatten
import IndustrialHmi.Theory.Numerals

/-!
# Validation of a configuration

The accessors look a key up in the flat map and take a default when there is none.  A number is read
with `std::stoi` or `std::stof`, and the default is taken as well when that throws.

`validate` collects what is wrong with a configuration.  It goes through the accessors, as the rest
of the program does, and looks at most backends only when they are enabled.
-/

namespace Config

open Numeral

/-! ## Accessors -/

def getValue (config : FlatMap) (key : String) (defaultValue : Text) : Text :=
  (config (ascii key)).getD defaultValue

def getInt (config : FlatMap) (key : String) (defaultValue : ℤ) : ℤ :=
  match config (ascii key) with
  | none => defaultValue
  | some text => (stoi text).getD defaultValue

def getFloat [Lconv] (config : FlatMap) (key : String) (defaultValue : Binary32) : Binary32 :=
  match config (ascii key) with
  | none => defaultValue
  | some text => (stof text).getD defaultValue

/-- `getValue(key, defaultValue) == "true"`. -/
def getFlag (config : FlatMap) (key : String) (defaultValue : Text) : Bool :=
  getValue config key defaultValue = ascii "true"

section

variable (config : FlatMap)

def getWindowWidth : ℤ := getInt config "window.default_width" 1920
def getWindowHeight : ℤ := getInt config "window.default_height" 1080

def getLanguage : Text := getValue config "i18n.language" (ascii "auto")

def getLogLevel : Text := getValue config "logging.level" (ascii "TRACE")

/-- The conversion to `std::size_t` and the product are those of 64 bits. -/
def getLogMaxFileSize : Nat :=
  (getInt config "logging.max_file_size_mb" 5 * (1024 * 1024) % 2 ^ 64).toNat

def getLogMaxFiles : ℤ := getInt config "logging.max_files" 3

def isTcpBackendEnabled : Bool := getFlag config "network.tcp.enabled" (ascii "false")
def getTcpBackendPort : ℤ := getInt config "network.tcp.port" 5555

def isHttpBackendEnabled : Bool := getFlag config "network.http.enabled" (ascii "false")
def getHttpBackendPort : ℤ := getInt config "network.http.port" 8080
def isHttpTlsEnabled : Bool := getFlag config "network.http.tls.enabled" (ascii "false")
def getHttpTlsCertPath : Text := getValue config "network.http.tls.cert_path" []
def getHttpTlsKeyPath : Text := getValue config "network.http.tls.key_path" []
def isHttpTlsVerifyPeer : Bool := getFlag config "network.http.tls.verify_peer" (ascii "false")
def getHttpTlsClientCaPath : Text := getValue config "network.http.tls.client_ca_path" []

def isHistorianEnabled : Bool := getFlag config "historian.enabled" (ascii "false")
def getHistorianBatchSize : ℤ := getInt config "historian.batch_size" 32
def getHistorianBatchAgeMs : ℤ := getInt config "historian.batch_age_ms" 5000
def getHistorianSweepIntervalMs : ℤ := getInt config "historian.sweep_interval_ms" 60000

def isMqttBackendEnabled : Bool := getFlag config "network.mqtt.enabled" (ascii "false")
def getMqttBrokerPort : ℤ := getInt config "network.mqtt.broker_port" 1883

def isModbusBackendEnabled : Bool := getFlag config "network.modbus.enabled" (ascii "false")
def getModbusPort : ℤ := getInt config "network.modbus.port" 5020
def getModbusPollIntervalMs : ℤ := getInt config "network.modbus.poll_interval_ms" 1000
def getModbusSlaveId : ℤ := getInt config "network.modbus.slave_id" 1
def getModbusEquipmentBaseAddress : ℤ := getInt config "network.modbus.equipment_base_address" 0
def getModbusEquipmentCount : ℤ := getInt config "network.modbus.equipment_count" 3
def getModbusSupplyBaseAddress : ℤ := getInt config "network.modbus.supply_base_address" 0x10

def getModbusSupplyScale [Lconv] : Binary32 :=
  getFloat config "network.modbus.supply_scale" (.fin 1)

def getModbusQualityBaseAddress : ℤ := getInt config "network.modbus.quality_base_address" 0x20

def getModbusQualityScale [Lconv] : Binary32 :=
  getFloat config "network.modbus.quality_scale" (.round (1 / 10))

def getModbusQualityCount : ℤ := getInt config "network.modbus.quality_count" 3

def isOpcUaBackendEnabled : Bool := getFlag config "network.opcua.enabled" (ascii "false")
def getOpcUaServerPort : ℤ := getInt config "network.opcua.port" 4840
def isOpcUaClientEnabled : Bool := getFlag config "network.opcua.client.enabled" (ascii "false")

def isOpcUaServerSecurityEnabled : Bool :=
  getFlag config "network.opcua.server.security.enabled" (ascii "false")

def getOpcUaServerSecurityCertPath : Text :=
  getValue config "network.opcua.server.security.cert_path" []

def getOpcUaServerSecurityPrivateKeyPath : Text :=
  getValue config "network.opcua.server.security.private_key_path" []

def getOpcUaServerSecurityTrustListDir : Text :=
  getValue config "network.opcua.server.security.trust_list_dir" []

def isOpcUaClientSecurityEnabled : Bool :=
  getFlag config "network.opcua.client.security.enabled" (ascii "false")

def getOpcUaClientSecurityCertPath : Text :=
  getValue config "network.opcua.client.security.cert_path" []

def getOpcUaClientSecurityPrivateKeyPath : Text :=
  getValue config "network.opcua.client.security.private_key_path" []

def getOpcUaClientSecurityTrustListDir : Text :=
  getValue config "network.opcua.client.security.trust_list_dir" []

/-! ## The checks -/

/-- An error when something is wrong. -/
def refuse (wrong : Bool) (error : Text) : List Text := if wrong then [error] else []

def kLogLevels : List Text :=
  [ascii "TRACE", ascii "DEBUG", ascii "INFO", ascii "WARN", ascii "ERROR"]

def kLanguageCodes : List Text :=
  [ascii "auto", ascii "en", ascii "de", ascii "es", ascii "es_MX", ascii "fi",
    ascii "fr", ascii "ga", ascii "it", ascii "pt", ascii "pt_BR", ascii "sv"]

def isValidPort (p : ℤ) : Bool := 1 ≤ p ∧ p ≤ 65535

def checkLogging : List Text :=
  refuse (getLogLevel config ∉ kLogLevels)
    (ascii "logging.level: '" ++ getLogLevel config ++
      ascii "' is not one of TRACE|DEBUG|INFO|WARN|ERROR") ++
  refuse (getLogMaxFiles config < 1) (ascii "logging.max_files: must be >= 1") ++
  refuse (getLogMaxFileSize config = 0) (ascii "logging.max_file_size_mb: must be >= 1")

def checkI18n : List Text :=
  refuse (getLanguage config ∉ kLanguageCodes)
    (ascii "i18n.language: '" ++ getLanguage config ++
      ascii "' is not a recognised LINGUAS code (expected 'auto' or one of " ++
      ascii "en|de|es|es_MX|fi|fr|ga|it|pt|pt_BR|sv)")

def checkWindow : List Text :=
  refuse (getWindowWidth config ≤ 0) (ascii "window.default_width: must be > 0") ++
  refuse (getWindowHeight config ≤ 0) (ascii "window.default_height: must be > 0")

def checkPort (enabled : Bool) (port : ℤ) (key : String) : List Text :=
  refuse (enabled && !isValidPort port) (ascii key ++ ascii ": out of range (1..65535)")

def checkBackends : List Text :=
  checkPort (isTcpBackendEnabled config) (getTcpBackendPort config) "network.tcp.port" ++
  checkPort (isHttpBackendEnabled config) (getHttpBackendPort config) "network.http.port" ++
  checkPort (isMqttBackendEnabled config) (getMqttBrokerPort config) "network.mqtt.broker_port" ++
  checkPort (isModbusBackendEnabled config) (getModbusPort config) "network.modbus.port" ++
  checkPort (isOpcUaBackendEnabled config) (getOpcUaServerPort config) "network.opcua.port"

/-- A path that another setting asks for. -/
def checkRequired (value : Text) (key whenKey : Text) : List Text :=
  refuse value.isEmpty (key ++ ascii ": required when " ++ whenKey ++ ascii " is true")

def checkHttpTls : List Text :=
  if !isHttpBackendEnabled config || !isHttpTlsEnabled config then []
  else
    checkRequired (getHttpTlsCertPath config) (ascii "network.http.tls.cert_path")
      (ascii "network.http.tls.enabled") ++
    checkRequired (getHttpTlsKeyPath config) (ascii "network.http.tls.key_path")
      (ascii "network.http.tls.enabled") ++
    if isHttpTlsVerifyPeer config then
      checkRequired (getHttpTlsClientCaPath config) (ascii "network.http.tls.client_ca_path")
        (ascii "network.http.tls.verify_peer")
    else []

def checkOpcUaSecurityEndpoint (enabled : Bool) (keyPrefix : Text)
    (certPath privateKeyPath trustListDir : Text) : List Text :=
  if !enabled then []
  else
    checkRequired certPath (keyPrefix ++ ascii ".cert_path") (keyPrefix ++ ascii ".enabled") ++
    checkRequired privateKeyPath (keyPrefix ++ ascii ".private_key_path")
      (keyPrefix ++ ascii ".enabled") ++
    checkRequired trustListDir (keyPrefix ++ ascii ".trust_list_dir")
      (keyPrefix ++ ascii ".enabled")

def checkOpcUaSecurity : List Text :=
  if !isOpcUaBackendEnabled config then []
  else
    checkOpcUaSecurityEndpoint (isOpcUaServerSecurityEnabled config)
      (ascii "network.opcua.server.security") (getOpcUaServerSecurityCertPath config)
      (getOpcUaServerSecurityPrivateKeyPath config) (getOpcUaServerSecurityTrustListDir config) ++
    if !isOpcUaClientEnabled config then []
    else
      checkOpcUaSecurityEndpoint (isOpcUaClientSecurityEnabled config)
        (ascii "network.opcua.client.security") (getOpcUaClientSecurityCertPath config)
        (getOpcUaClientSecurityPrivateKeyPath config) (getOpcUaClientSecurityTrustListDir config)

/-- A setting that has to be positive. -/
def checkPositive (positive : Bool) (key : String) : List Text :=
  refuse (!positive) (ascii key ++ ascii ": must be > 0 when enabled")

def checkHistorian : List Text :=
  if !isHistorianEnabled config then []
  else
    checkPositive (0 < getHistorianBatchSize config) "historian.batch_size" ++
    checkPositive (0 < getHistorianBatchAgeMs config) "historian.batch_age_ms" ++
    checkPositive (0 < getHistorianSweepIntervalMs config) "historian.sweep_interval_ms"

def checkModbus [Lconv] : List Text :=
  if !isModbusBackendEnabled config then []
  else
    checkPositive (0 < getModbusEquipmentCount config) "network.modbus.equipment_count" ++
    checkPositive (0 < getModbusPollIntervalMs config) "network.modbus.poll_interval_ms" ++
    -- Not a number is not below zero either, and passes.
    checkPositive (!(getModbusSupplyScale config).le (.fin 0)) "network.modbus.supply_scale" ++
    checkPositive (!(getModbusQualityScale config).le (.fin 0)) "network.modbus.quality_scale"

structure ValidationResult where
  ok : Bool
  errors : List Text

def validate [Lconv] : ValidationResult :=
  let errors := checkLogging config ++ checkI18n config ++ checkWindow config ++
    checkBackends config ++ checkHttpTls config ++ checkOpcUaSecurity config ++
    checkHistorian config ++ checkModbus config
  { ok := errors.isEmpty, errors }

end

/-! ## What a valid configuration has -/

theorem refuse_eq_nil {wrong : Bool} {error : Text} : refuse wrong error = [] ↔ wrong = false := by
  cases wrong <;> simp [refuse]

/-- Each check passes on its own. -/
theorem validate_ok [Lconv] {config : FlatMap} : (validate config).ok = true ↔
    checkLogging config = [] ∧ checkI18n config = [] ∧ checkWindow config = [] ∧
      checkBackends config = [] ∧ checkHttpTls config = [] ∧ checkOpcUaSecurity config = [] ∧
      checkHistorian config = [] ∧ checkModbus config = [] := by
  simp only [validate, List.isEmpty_iff, List.append_eq_nil_iff, and_assoc]

theorem equipmentCount_pos [Lconv] {config : FlatMap} (hvalid : (validate config).ok = true)
    (henabled : isModbusBackendEnabled config = true) : 0 < getModbusEquipmentCount config := by
  have hmodbus : checkModbus config = [] := (validate_ok.mp hvalid).2.2.2.2.2.2.2
  simp only [checkModbus, henabled, Bool.not_true, Bool.false_eq_true, if_false,
    List.append_eq_nil_iff, checkPositive, refuse_eq_nil] at hmodbus
  simpa using hmodbus.1.1.1

/-- The defaults are valid. -/
theorem validate_defaults [Lconv] : (validate fun _ => none).ok = true := by
  rw [validate_ok]
  exact ⟨rfl, rfl, rfl, rfl, rfl, rfl, rfl, rfl⟩

end Config
