import FeatureRuntime.Transition
import FeatureRuntime.Description
import FeatureRuntime.IdMap
import FeatureRuntime.FtArray
import FeatureRuntime.SlotBuffer
import FeatureRuntime.MachineInt
import FeatureRuntime.CallbackManager
import FeatureRuntime.PromiseManager
import FeatureRuntime.PermissionsManager
import FeatureRuntime.ArrayRefinement
import FeatureRuntime.ArrayOwnership
import FeatureRuntime.FreeLog
import FeatureRuntime.JsValue
import FeatureRuntime.Native
import FeatureRuntime.Convertor
import FeatureRuntime.StructLayout
import FeatureRuntime.ConversionChecks
import FeatureRuntime.MethodCall
import FeatureRuntime.ArgumentCompleteness
import FeatureRuntime.ProtoOwnership
import FeatureRuntime.ConversionOwnership
import FeatureRuntime.EventEmission
import FeatureRuntime.AsyncCallbacks
import FeatureRuntime.RejectCallbacks
import FeatureRuntime.InterfaceLayout
import FeatureRuntime.LayoutAgreement
import FeatureRuntime.PermissionStubs
import FeatureRuntime.PermissionEnforcement
import FeatureRuntime.TaskQueue
import FeatureRuntime.Reclaim
import FeatureRuntime.ValueTree
import FeatureRuntime.ValueWalk
import FeatureRuntime.WalkAgreement
import FeatureRuntime.TreeOwnership
import FeatureRuntime.InstanceDetach
import FeatureRuntime.TargetConvertor
import FeatureRuntime.MessageTransport
import FeatureRuntime.TaskBoard
import FeatureRuntime.RequestCallbacks
import FeatureRuntime.ConnectionEvents
import FeatureRuntime.InterconnectSends
import FeatureRuntime.JidlTypes
import FeatureRuntime.ParamDefaults
import FeatureRuntime.ProtoRelease
import FeatureRuntime.Subscriptions
import FeatureRuntime.Binary64
import FeatureRuntime.DataRoundTrip
import FeatureRuntime.ProtoEncoding
import FeatureRuntime.ProtoRoundTrip
import FeatureRuntime.AppPath
import FeatureRuntime.Downloads
import FeatureRuntime.EventAccounting
import FeatureRuntime.EventHandlers
import FeatureRuntime.EventIsolation
import FeatureRuntime.ExclusiveDownload
import FeatureRuntime.InstanceSlots
import FeatureRuntime.RustWrappers
import FeatureRuntime.DownloadCompletion
import FeatureRuntime.StorageRequests
import FeatureRuntime.TopicDelivery
import FeatureRuntime.AesBuffers
import FeatureRuntime.Answering
import FeatureRuntime.Base64
import FeatureRuntime.CipherAgreement
import FeatureRuntime.CryptoCompletion
import FeatureRuntime.ExchangeKey
import FeatureRuntime.ExchangeRequests
import FeatureRuntime.FileRequests
import FeatureRuntime.FileTree
import FeatureRuntime.ZipExtraction
import FeatureRuntime.ZipRequests
import FeatureRuntime.Ecdh
import FeatureRuntime.EcdhHistory
import FeatureRuntime.Sensor
import FeatureRuntime.SensorIsolation
import FeatureRuntime.SensorBatches
import FeatureRuntime.SensorRecords
import FeatureRuntime.Geolocation
import FeatureRuntime.GeolocationRuns
import FeatureRuntime.Health
import FeatureRuntime.HealthRecords
import FeatureRuntime.SettingsIsolation
import FeatureRuntime.SettingsRequests
import FeatureRuntime.BackendAgreement
import FeatureRuntime.Brightness
import FeatureRuntime.BrightnessRequests
import FeatureRuntime.PromptCompletion
import FeatureRuntime.CText
import FeatureRuntime.EventRefusal
import FeatureRuntime.FetchLifecycle
import FeatureRuntime.FetchUrl
import FeatureRuntime.FieldLookup
import FeatureRuntime.IntegerConversion
import FeatureRuntime.RustArrays
import FeatureRuntime.StorageGet
import FeatureRuntime.JidlActions
import FeatureRuntime.JidlEnums
import FeatureRuntime.FeatureRegistry
import FeatureRuntime.ManagerUserData
import FeatureRuntime.Workers
import FeatureRuntime.FrameDelivery
import FeatureRuntime.Utf8Check
import FeatureRuntime.MqttRoundTrip
import FeatureRuntime.ParentDirs
import FeatureRuntime.FileFidelity
import FeatureRuntime.PathInverse
import FeatureRuntime.ProtoWire
import FeatureRuntime.NetworkMonitor
import FeatureRuntime.NetworkDelivery
import FeatureRuntime.BufferOwnership
import FeatureRuntime.FeaturePrototypes
import FeatureRuntime.FeatureTracker
import FeatureRuntime.PackageResults
import FeatureRuntime.Vibrator
