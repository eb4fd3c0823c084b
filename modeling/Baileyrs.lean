import Baileyrs.AddressForms
import Baileyrs.AsyncPrimitives
import Baileyrs.AtomicStore
import Baileyrs.Base64
import Baileyrs.BitStrings
import Baileyrs.BridgeClientOwner
import Baileyrs.BridgeMessages
import Baileyrs.BridgeStore
import Baileyrs.BridgeStoreCertificates
import Baileyrs.BridgeStoreDelete
import Baileyrs.BridgeStoreDrain
import Baileyrs.BridgeStoreFlush
import Baileyrs.BridgeStoreKeys
import Baileyrs.BridgeStoreListing
import Baileyrs.BridgeStoreOrder
import Baileyrs.BridgeStoreQuiesce
import Baileyrs.BridgeStoreSteps
import Baileyrs.ByteNumbers
import Baileyrs.CloseReporter
import Baileyrs.CodecRounds
import Baileyrs.ContactBuffer
import Baileyrs.CrashPrograms
import Baileyrs.Crockford
import Baileyrs.DeviceCredentials
import Baileyrs.DeviceRounds
import Baileyrs.EventBuffer
import Baileyrs.EventBufferChannels
import Baileyrs.EventBufferPresence
import Baileyrs.EventBufferRelease
import Baileyrs.ExpiringLruMap
import Baileyrs.FacadeClose
import Baileyrs.FacadeListeners
import Baileyrs.FallbackFlush
import Baileyrs.FileStoreFlush
import Baileyrs.ForwardedContent
import Baileyrs.GuardedUpdates
import Baileyrs.HistorySets
import Baileyrs.HistorySync
import Baileyrs.HistoryWalk
import Baileyrs.HostAtomicity
import Baileyrs.HostHydration
import Baileyrs.InsertionMap
import Baileyrs.Int64Fields
import Baileyrs.JidParts
import Baileyrs.JidRounds
import Baileyrs.JsNumber
import Baileyrs.JsNumberReading
import Baileyrs.JsNumberRounding
import Baileyrs.JsNumberSums
import Baileyrs.JsNumberText
import Baileyrs.JsString
import Baileyrs.Json
import Baileyrs.JsonText
import Baileyrs.JsonValues
import Baileyrs.KeyStoreCache
import Baileyrs.KeyedMutex
import Baileyrs.LabelledRuns
import Baileyrs.LegacyAtomic
import Baileyrs.LegacyAtomicAgreement
import Baileyrs.LegacyAtomicRuns
import Baileyrs.LegacyCodecs
import Baileyrs.LegacyFingerprint
import Baileyrs.LegacyInterleaving
import Baileyrs.LegacyMirror
import Baileyrs.LegacyMirrorRuns
import Baileyrs.LegacyMultiFile
import Baileyrs.LegacyOwnership
import Baileyrs.LegacyProjection
import Baileyrs.LegacySharing
import Baileyrs.LegacyValues
import Baileyrs.LinkPreview
import Baileyrs.LockRegistry
import Baileyrs.LruTimers
import Baileyrs.MemoryAgreement
import Baileyrs.MemoryStore
import Baileyrs.MessageBatch
import Baileyrs.MessageDispatch
import Baileyrs.ObjectHeap
import Baileyrs.PastParticipants
import Baileyrs.PatchIndex
import Baileyrs.PlainObjects
import Baileyrs.PreKeyTransactions
import Baileyrs.ProtoAgreement
import Baileyrs.ProtoConversion
import Baileyrs.ProtoEncoders
import Baileyrs.ProtoEncoding
import Baileyrs.ProtoFieldWalks
import Baileyrs.ProtoForms
import Baileyrs.ProtoHeap
import Baileyrs.ProtoRefinement
import Baileyrs.ProtoRepair
import Baileyrs.ProtoSchema
import Baileyrs.ProtoSimulation
import Baileyrs.ProtoTree
import Baileyrs.ProtoValues
import Baileyrs.ProtoWalk
import Baileyrs.QuickFlush
import Baileyrs.QuotedNumbers
import Baileyrs.ReceiptAttribution
import Baileyrs.ReceiptBuffer
import Baileyrs.RecordCodecs
import Baileyrs.RepairLoops
import Baileyrs.RepairSignal
import Baileyrs.RepairWalks
import Baileyrs.RetryMessages
import Baileyrs.RollbackMigration
import Baileyrs.RollbackProof
import Baileyrs.RollbackSafety
import Baileyrs.RowIndexes
import Baileyrs.RuntimeBase64
import Baileyrs.RuntimeCodecs
import Baileyrs.SecureHash
import Baileyrs.SessionImports
import Baileyrs.Sha256
import Baileyrs.SignalAddresses
import Baileyrs.SignalCodecs
import Baileyrs.SignalDataTypes
import Baileyrs.SignalJids
import Baileyrs.SignalRouting
import Baileyrs.SnapshotCodec
import Baileyrs.SnapshotFolder
import Baileyrs.SnapshotIsolation
import Baileyrs.SnapshotRollback
import Baileyrs.SnapshotRows
import Baileyrs.SnapshotSerial
import Baileyrs.SnapshotTransactions
import Baileyrs.SocketClose
import Baileyrs.SparseArrays
import Baileyrs.SyncStateRounds
import Baileyrs.TextSearch
import Baileyrs.TokenMerge
import Baileyrs.TokenRowText
import Baileyrs.TransactionCommit
import Baileyrs.TransactionLocks
import Baileyrs.TransactionOrder
import Baileyrs.TransactionalStore
import Baileyrs.UnreadCounts
import Baileyrs.UnreadMarks
import Baileyrs.UnreadReleases
import Baileyrs.UnreadWindows
import Baileyrs.UpsertShortcut
import Baileyrs.UriComponent
import Baileyrs.WaitGraph
import Baileyrs.WordOperators
