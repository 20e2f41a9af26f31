import Fathomry.Machine
import Fathomry.Heap
import Fathomry.Failure
import Fathomry.Lifecycle
import Fathomry.ResourceBinding
import Fathomry.ResourceLifecycle
import Fathomry.ResourceOwnership
import Fathomry.ResourceLedger
import Fathomry.ResourceReceipts
import Fathomry.ResourceWake
import Fathomry.ResourceScope
import Fathomry.ResourceScopeRuns
import Fathomry.ResourceGuarantees
import Fathomry.ResourceApply
import Fathomry.AdapterRuntime
import Fathomry.AdapterAdmission
import Fathomry.AdapterTree
import Fathomry.AdapterRuns
import Fathomry.AdapterFairness
import Fathomry.AdapterGuarantees
import Fathomry.AdapterInbox
import Fathomry.AdapterCustody
import Fathomry.AdapterWorld
import Fathomry.AdapterEvidence
import Fathomry.AdapterDelivery
import Fathomry.KafkaPage
import Fathomry.KafkaScan
import Fathomry.KafkaConsumer
import Fathomry.KafkaGroup
import Fathomry.KafkaSession
import Fathomry.KafkaCommit
import Fathomry.KafkaRotation
import Fathomry.KafkaCheckpoints
import Fathomry.KafkaFence
import Fathomry.KafkaOutcome
import Fathomry.Composition
import Fathomry.CompositionBooks
import Fathomry.CompositionTitles
import Fathomry.CompositionCleanup
import Fathomry.CompositionRuns
import Fathomry.CompositionGuarantees
import Fathomry.LogFile
import Fathomry.Carried
import Fathomry.LogLayout
import Fathomry.LogRuns
import Fathomry.LogSteps
import Fathomry.LogGuarantees
import Fathomry.PgxTransaction
import Fathomry.PgxTransactionRuns
import Fathomry.PgxTransactionGuarantees
import Fathomry.Minio
import Fathomry.MinioMultipart
import Fathomry.MinioMultipartGuarantees
import Fathomry.Bytes
import Fathomry.MysqlPacket
import Fathomry.MysqlWire
import Fathomry.MysqlSecrecy
import Fathomry.PgxFence
import Fathomry.PgxPool
import Fathomry.PgxPoolGuarantees
import Fathomry.ErrorBridge
import Fathomry.MinioUpload
import Fathomry.MinioUploadGuarantees
import Fathomry.IcebergWriter
import Fathomry.IcebergWriterGuarantees
import Fathomry.IcebergFiles
import Fathomry.IcebergWriterAccounts
import Fathomry.IcebergWriterBytes
import Fathomry.IcebergFilesGuarantees
import Fathomry.DuckdbReader
import Fathomry.DuckdbReaderGuarantees
import Fathomry.DorisCursor
import Fathomry.DorisCursorGuarantees
import Fathomry.Utf8
import Fathomry.ConfigShape
import Fathomry.Pointer
import Fathomry.ResourceWatch
import Fathomry.ConfigPath
import Fathomry.FailureCode
import Fathomry.I18n
import Fathomry.LarkAcknowledgement
import Fathomry.InvocationCall
import Fathomry.InvocationInbox
import Fathomry.HttpBody
