import HelmSsh.Machine
import HelmSsh.Pool
import HelmSsh.CreditLedger
import HelmSsh.Errors
import HelmSsh.Terminal.FlowControl
import HelmSsh.Terminal.Output
import HelmSsh.Terminal.Reader
import HelmSsh.ConfigMutation
import HelmSsh.Api.Jobs
import HelmSsh.Api.Server
import HelmSsh.Api.Jobs
import HelmSsh.Api.Server
import HelmSsh.Api.Cleanup
import HelmSsh.Api.Revocation
import HelmSsh.Api.JobTasks
import HelmSsh.Api.Shutdown
import HelmSsh.Config.Data
import HelmSsh.Config.Validate
import HelmSsh.FirstMatch
import HelmSsh.Vault.Operations
import HelmSsh.Vault.Integrity
import HelmSsh.Vault.References
import HelmSsh.Vault.Workspace
import HelmSsh.AtomicFile
import HelmSsh.Crypto
import HelmSsh.Vault.Store
import HelmSsh.Vault.Commit
import HelmSsh.Vault.StoreRuns
import HelmSsh.ByteFile
import HelmSsh.Transfer.Parts
import HelmSsh.Transfer.Resume
import HelmSsh.Transfer.Table
import HelmSsh.Transfer.Exclusive
import HelmSsh.Transfer.Outcome
import HelmSsh.BoundedQueue
import HelmSsh.Api.JobEvents
import HelmSsh.Api.JobLifecycle
import HelmSsh.Api.JobStream
import HelmSsh.Api.JobReplay
import HelmSsh.Api.JobOutcome
import HelmSsh.Api.JobDrain
import HelmSsh.Transfer.Status
import HelmSsh.KeyedLocks
import HelmSsh.Remote.Forwards
import HelmSsh.Remote.Sftp
import HelmSsh.Remote.Children
import HelmSsh.Remote.Runtime
import HelmSsh.Remote.ForwardMoves
import HelmSsh.Remote.ForwardUnique
import HelmSsh.Remote.SftpMoves
import HelmSsh.Remote.SftpSessions
import HelmSsh.Remote.Records
import HelmSsh.Remote.Teardown
import HelmSsh.OwnedTable
import HelmSsh.Remote.ForwardRoutes
import HelmSsh.Crypto.Codec
import HelmSsh.Newest
import HelmSsh.Vault.Normalized
import HelmSsh.Vault.Backups
import HelmSsh.Vault.Migration
import HelmSsh.Vault.Snapshots
import HelmSsh.Vault.Connect
import HelmSsh.Remote.HostKey
import HelmSsh.Vault.HostKeys
import HelmSsh.ConfigMutation.Coordinator
import HelmSsh.ConfigMutation.Tickets
import HelmSsh.Api.ServerControl
import HelmSsh.Api.ControlMoves
import HelmSsh.Api.Authorization
import HelmSsh.Api.ExplicitStop
import HelmSsh.Api.ConnectionConfig
import HelmSsh.Api.StaleConfig
import HelmSsh.Terminal.FrameCodec
import HelmSsh.Transfer.History
import HelmSsh.Transfer.Durability
import HelmSsh.Api.Guard
import HelmSsh.Api.GuardText
import HelmSsh.Api.GuardRm
import HelmSsh.Api.GuardContext
import HelmSsh.Api.LogSecrecy
import HelmSsh.Remote.ApiUpload
import HelmSsh.Remote.UploadCommit
import HelmSsh.Remote.UploadBarrier
import HelmSsh.Api.JobRegistry
import HelmSsh.Api.Limiter
import HelmSsh.Frontend.TransferRecords
import HelmSsh.Frontend.TerminalReplay
import HelmSsh.Remote.TelemetryStream
import HelmSsh.Remote.TelemetryJobs
import HelmSsh.Remote.DownloadStreams
import HelmSsh.Conversation
import HelmSsh.Remote.Socks
import HelmSsh.Vault.BackupRecords
import HelmSsh.Vault.BackupRuns
import HelmSsh.Incremental
import HelmSsh.Utf8
import HelmSsh.Remote.ExecOutput
import HelmSsh.Remote.ExecStream
import HelmSsh.Api.JobCreation
import HelmSsh.Transfer.Workers
import HelmSsh.Transfer.RealCause
import HelmSsh.Transfer.Truncation
import HelmSsh.Remote.CommandGuard
import HelmSsh.Remote.ExecPool
import HelmSsh.Transfer.LimitedCopy
import HelmSsh.Frontend.DownloadPlan
import HelmSsh.Frontend.DownloadPlanExact
import HelmSsh.Frontend.DirectoryView
import HelmSsh.Api.OutputTail
import HelmSsh.Api.BatchOutput
import HelmSsh.Lines
import HelmSsh.Remote.TelemetryFraming
import HelmSsh.Api.RangeHeader
import HelmSsh.Remote.HttpConnect
import HelmSsh.Remote.SftpPath
import HelmSsh.Remote.ShellCommand
import HelmSsh.Terminal.VectorScan
import HelmSsh.Remote.RemoteSearch
import HelmSsh.Api.KeyRedaction
import HelmSsh.Remote.NoOverwriteCommit
import HelmSsh.Commands.LockScripts
import HelmSsh.Config.Timestamps
import HelmSsh.Commands.DirectBroker
import HelmSsh.Entities
import HelmSsh.Vault.XmlText
import HelmSsh.Forest
import HelmSsh.Vault.Groups
import HelmSsh.StdPath
import HelmSsh.Vault.BackupCleanup
import HelmSsh.FirstPerKey
import HelmSsh.Vault.Retention
import HelmSsh.Frontend.AsyncQueue
import HelmSsh.Frontend.AsyncQueueTurns
import HelmSsh.JsonText
import HelmSsh.Frontend.ApiLogEntries
import HelmSsh.Config.BackupJson
import HelmSsh.Api.BackupSettings
import HelmSsh.Frontend.ReconnectCountdown
import HelmSsh.Api.FilesPage
