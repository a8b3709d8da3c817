import IndustrialHmi.Theory.Like
import IndustrialHmi.Theory.LittleEndian
import IndustrialHmi.Theory.BigEndian
import IndustrialHmi.Theory.Scanner
import IndustrialHmi.Theory.Lines
import IndustrialHmi.Theory.Transducer
import IndustrialHmi.Theory.Leads
import IndustrialHmi.Theory.Replacing
import IndustrialHmi.Theory.Ring
import IndustrialHmi.Theory.Runs
import IndustrialHmi.Theory.Access
import IndustrialHmi.Theory.Crc
import IndustrialHmi.Theory.IoContext
import IndustrialHmi.Theory.SharedConnection
import IndustrialHmi.Theory.BoundedFifo
import IndustrialHmi.Theory.FirstMatch
import IndustrialHmi.Theory.Sorting
import IndustrialHmi.Theory.Characters
import IndustrialHmi.Theory.DeferredLog
import IndustrialHmi.Theory.Binary32
import IndustrialHmi.Theory.Mirroring
import IndustrialHmi.Theory.Grouping
import IndustrialHmi.Theory.Averages
import IndustrialHmi.Theory.Since
import IndustrialHmi.Theory.Segments
import IndustrialHmi.Theory.Json
import IndustrialHmi.Theory.JsonText
import IndustrialHmi.Theory.JsonReader
import IndustrialHmi.Theory.JsonWriter
import IndustrialHmi.Theory.Numerals
import IndustrialHmi.Theory.Calendar
import IndustrialHmi.Theory.Checked
import IndustrialHmi.Theory.SlidingWindow
import IndustrialHmi.Theory.Reporting
import IndustrialHmi.Core.SpscQueue
import IndustrialHmi.Core.SpscFifo
import IndustrialHmi.Core.FileLogger
import IndustrialHmi.Rust.Spsc
import IndustrialHmi.Rust.SpscChannel
import IndustrialHmi.Rust.SpscExactlyOnce
import IndustrialHmi.Integration.FlashFrame
import IndustrialHmi.Integration.FlashFrameParser
import IndustrialHmi.Integration.FlashStream
import IndustrialHmi.Integration.FlashCorruption
import IndustrialHmi.Integration.FlashResync
import IndustrialHmi.Integration.SerialFrameParser
import IndustrialHmi.Integration.OtaSession
import IndustrialHmi.Integration.OtaSteps
import IndustrialHmi.Integration.OtaTranscript
import IndustrialHmi.Integration.OtaRuns
import IndustrialHmi.Integration.OtaTransfer
import IndustrialHmi.Integration.OtaRedelivery
import IndustrialHmi.Integration.OtaBoard
import IndustrialHmi.Integration.OtaDelivery
import IndustrialHmi.Integration.OtaAgent
import IndustrialHmi.Integration.OtaAgentThread
import IndustrialHmi.Integration.OtaAgentLaw
import IndustrialHmi.Integration.ModbusReader
import IndustrialHmi.Integration.ModbusPollLoop
import IndustrialHmi.Integration.IntegrationBootstrap
import IndustrialHmi.Integration.ModbusDecode
import IndustrialHmi.Integration.ModbusFlow
import IndustrialHmi.Integration.ModbusConservation
import IndustrialHmi.Integration.ModbusPdu
import IndustrialHmi.Integration.ModbusClient
import IndustrialHmi.Integration.ModbusHandlers
import IndustrialHmi.Integration.ModbusPairing
import IndustrialHmi.Presenter.AlertCenter
import IndustrialHmi.Presenter.AlertLifecycle
import IndustrialHmi.Presenter.AlertRuns
import IndustrialHmi.Presenter.AlertRecord
import IndustrialHmi.Presenter.AlertAudit
import IndustrialHmi.Model.SystemStateMachine
import IndustrialHmi.Model.ProductTable
import IndustrialHmi.Model.ProductStore
import IndustrialHmi.Model.RecipeUpsert
import IndustrialHmi.Model.RecipeRoundTrip
import IndustrialHmi.Model.ModelContext
import IndustrialHmi.Model.AsyncProducts
import IndustrialHmi.Model.ProductSearch
import IndustrialHmi.Model.ProductionTypes
import IndustrialHmi.Model.SimulatedModel
import IndustrialHmi.Model.FaultLockout
import IndustrialHmi.Model.StateObservers
import IndustrialHmi.Model.WorkUnitProgress
import IndustrialHmi.Model.Throughput
import IndustrialHmi.Model.EntityIdentity
import IndustrialHmi.Model.ObserverTables
import IndustrialHmi.Integration.IngestBridges
import IndustrialHmi.Model.MirrorModel
import IndustrialHmi.Integration.PrimaryToSecondaryBridge
import IndustrialHmi.Integration.BridgeConvergence
import IndustrialHmi.Historian.HistoryStore
import IndustrialHmi.Historian.OneRowPerBucket
import IndustrialHmi.Historian.TrackedArchive
import IndustrialHmi.Historian.TrueMeans
import IndustrialHmi.Historian.Coverage
import IndustrialHmi.Historian.RangeQuery
import IndustrialHmi.Historian.NewestRows
import IndustrialHmi.Historian.FailureAtomicity
import IndustrialHmi.Historian.HistorianBridge
import IndustrialHmi.Config.Flatten
import IndustrialHmi.Config.RecursiveFlatten
import IndustrialHmi.Config.FormatMessage
import IndustrialHmi.Config.ConfigValidator
import IndustrialHmi.Config.Reload
import IndustrialHmi.Config.ConfigFileWatcher
import IndustrialHmi.Config.PersistStringField
import IndustrialHmi.Config.SettingsRoundTrip
import IndustrialHmi.Config.CrashAtomicity
import IndustrialHmi.Auth.User
import IndustrialHmi.Presenter.DashboardAlarms
import IndustrialHmi.Presenter.DashboardPresenter
import IndustrialHmi.Mcp.McpProtocol
import IndustrialHmi.Mcp.McpServer
import IndustrialHmi.Mcp.BoundedQuery
import IndustrialHmi.Mcp.McpSurvival
import IndustrialHmi.Mcp.WriteGate
import IndustrialHmi.Auth.UserRepository
import IndustrialHmi.Presenter.UsersPresenter
import IndustrialHmi.Presenter.LastAdmin
import IndustrialHmi.Presenter.AllOrNothing
import IndustrialHmi.Auth.Migration
import IndustrialHmi.Auth.AuthService
import IndustrialHmi.Presenter.Accountability
import IndustrialHmi.Presenter.RecipeWorkflow
import IndustrialHmi.Presenter.RecipeEditing
import IndustrialHmi.Auth.SqliteAuditLogger
import IndustrialHmi.Ml.ImageNetPreprocessor
import IndustrialHmi.Integration.MqttPacket
import IndustrialHmi.Integration.MqttReadLoop
import IndustrialHmi.Integration.MqttSubscribe
import IndustrialHmi.Integration.MqttAccess
import IndustrialHmi.Integration.MqttEncoder
import IndustrialHmi.Integration.MqttLengthCodec
import IndustrialHmi.Integration.MqttLifecycle
import IndustrialHmi.Integration.SensorIngestBridge
import IndustrialHmi.Integration.EquipmentStateReading
import IndustrialHmi.Integration.SensorRates
import IndustrialHmi.Integration.ExternalReadings
import IndustrialHmi.Integration.FactoryNodeMap
import IndustrialHmi.Integration.ExportedProduct
import IndustrialHmi.Integration.TelemetryFormatters
import IndustrialHmi.Integration.TelemetryLink
import IndustrialHmi.Presenter.DashboardCards
import IndustrialHmi.Console.ConsoleView
import IndustrialHmi.Console.InitConsole
import IndustrialHmi.Integration.CsvSerializer
import IndustrialHmi.Integration.JsonSerializer
import IndustrialHmi.Integration.SerialBackend
import IndustrialHmi.Integration.SerialWriteQueue
import IndustrialHmi.Integration.SerialReadPath
import IndustrialHmi.Integration.TcpBackend
import IndustrialHmi.Integration.TcpService
import IndustrialHmi.Integration.ProductStream
import IndustrialHmi.Integration.ProductionMetrics
import IndustrialHmi.Model.InboundSetters
import IndustrialHmi.Integration.Open62541Client
import IndustrialHmi.Integration.OpcUaLoopback
import IndustrialHmi.Historian.Recording
