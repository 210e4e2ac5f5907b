import Esdb.AdapterSlots
import Esdb.AdapterText
import Esdb.AdapterTransaction
import Esdb.AdapterTransactionRuns
import Esdb.AscendingLog
import Esdb.BoundedLog
import Esdb.CanonicalJson
import Esdb.CrudAccepted
import Esdb.CrudDerive
import Esdb.CrudValid
import Esdb.Decimal
import Esdb.DecimalReaders
import Esdb.DelimitedText
import Esdb.Dialogue
import Esdb.DrizzleDefaults
import Esdb.EquiJoin
import Esdb.ErrorText
import Esdb.JsNumber
import Esdb.JsonText
import Esdb.KeyedRows
import Esdb.KeysetChain
import Esdb.KitMigrationRun
import Esdb.KitMigrations
import Esdb.MemoryBlocks
import Esdb.MemoryDelivery
import Esdb.MemoryExceptions
import Esdb.MemoryLifecycle
import Esdb.MemoryRegistry
import Esdb.MemoryStore
import Esdb.MemoryStoreJournal
import Esdb.MemoryStoreLog
import Esdb.MemoryStorePatch
import Esdb.MemoryStoreReads
import Esdb.MemorySubscription
import Esdb.Migration
import Esdb.MigrationLint
import Esdb.MigrationRun
import Esdb.MigrationText
import Esdb.MigrationWorld
import Esdb.ObjectJournal
import Esdb.ObjectStore
import Esdb.ObjectStoreAtomic
import Esdb.ObjectStoreCalls
import Esdb.ObjectStoreFollows
import Esdb.ObjectStoreKeeping
import Esdb.ObjectStoreLives
import Esdb.ObjectStoreMutations
import Esdb.ObjectStoreOperations
import Esdb.ObjectStoreParties
import Esdb.ObjectStoreProgress
import Esdb.ObjectStoreRecords
import Esdb.ObjectStoreSchemaFlag
import Esdb.ObjectStoreScope
import Esdb.ObjectStoreShared
import Esdb.ObjectStoreSound
import Esdb.ObjectStoreUndisturbed
import Esdb.ObjectStoreValues
import Esdb.ObjectStoreWorld
import Esdb.ObjectSubscription
import Esdb.ObjectTables
import Esdb.OrmRows
import Esdb.OrmWire
import Esdb.ParameterWire
import Esdb.PatchWire
import Esdb.PhysicalChecks
import Esdb.PhysicalDiff
import Esdb.PhysicalSelf
import Esdb.PhysicalSnapshot
import Esdb.PhysicalUnique
import Esdb.ResultWire
import Esdb.Runtime
import Esdb.RuntimeCalls
import Esdb.RuntimeChanges
import Esdb.RuntimeHealth
import Esdb.RuntimeMaintenance
import Esdb.RuntimeOpen
import Esdb.RuntimeProcess
import Esdb.RuntimeQuery
import Esdb.RuntimeShadow
import Esdb.RuntimeTransaction
import Esdb.SavepointNames
import Esdb.SavepointObjects
import Esdb.SavepointSql
import Esdb.ScanPagination
import Esdb.SchemaAccepted
import Esdb.SchemaBind
import Esdb.SchemaCardinality
import Esdb.SchemaContained
import Esdb.SchemaDdl
import Esdb.SchemaDeclared
import Esdb.SchemaIr
import Esdb.SchemaMethod
import Esdb.SchemaMutation
import Esdb.SchemaNaming
import Esdb.SchemaReserved
import Esdb.SchemaSeal
import Esdb.SchemaSelect
import Esdb.SchemaSql
import Esdb.SchemaTokens
import Esdb.ScriptSubscription
import Esdb.ScriptTransaction
import Esdb.SnapshotDiff
import Esdb.SqlNormalForm
import Esdb.SqlRespelling
import Esdb.SqlText
import Esdb.SqlTokens
import Esdb.SqliteApi
import Esdb.StorageProvider
import Esdb.StoreAgreement
import Esdb.StoreSubscription
import Esdb.StoreWire
import Esdb.Throwing
import Esdb.Transactional
import Esdb.TransactionalAct
import Esdb.TransactionalEmbedding
import Esdb.TransactionalGhost
import Esdb.TransactionalHistory
import Esdb.TransactionalKept
import Esdb.TransactionalLink
import Esdb.TransactionalProgram
import Esdb.TransactionalUndisturbed
import Esdb.TransactionalWorld
import Esdb.Types
import Esdb.Utf16Hex
import Esdb.Utf8
import Esdb.Utf8Readers
import Esdb.ValueWire
