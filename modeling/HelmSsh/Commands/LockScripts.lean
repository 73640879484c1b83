/-
# The locks of the commands

`src/commands`, `src/api_server/handlers_admin.rs`, `src/api_server/handlers_remote.rs` and
`src/remote`: which locks every command, REST handler and background task takes, in which order,
and for how long.  A scope of a guard is a `Script.hold`; a function that may return before its
end is a `Script.call`; the work between the locks is left out.

The locks have levels (`Lock.level`), and an operation asks only for locks above those it holds,
with one exception: the mutex of the API server is taken inside the configuration lock by the
commands that bring its table of sessions up to date, and the configuration lock inside the mutex
by the one that makes a key.  Both do so only under `api_server_operation`, so that at any moment
one of the two orders is in use (`Lock.crossedLevel`), and no interleaving reaches a deadlock
(`no_deadlock`).
-/

import HelmSsh.LockOrder
import HelmSsh.Remote.Forwards

namespace HelmSsh
namespace Commands

open Remote (ConnectionOrigin)

/-- The locks of the application, of the runtime, and of one session, tunnel, address or
connection. -/
inductive Lock where
  | apiServerOperation
  | backupOperation
  | tunnelOperation
  | connectionConfigGate
  | configMutations
  | apiServer
  | tunnelForwardLock (tunnelId : String)
  | lifecycleGate
  | connectionLock (sessionId : String) (origin : ConnectionOrigin)
  | remoteForwardLock (key : String)
  | sftpOpenLock (connectionId : String)
  deriving DecidableEq

/-- The locks that an operation takes. -/
abbrev LockScript := Script Lock String

/-- The guard of a mutex. -/
def mutex (l : Lock) (body : LockScript) : LockScript :=
  .hold l .exclusive body

/-- The guard of a reader. -/
def read (l : Lock) (body : LockScript) : LockScript :=
  .hold l .shared body

/-- The guard of a writer. -/
def write (l : Lock) (body : LockScript) : LockScript :=
  .hold l .exclusive body

/-- A part that is left out in some states. -/
def optional (body : LockScript) : LockScript :=
  .either body .done

/-! ### `src/remote` -/

/-- `remove_sftp_sessions_for_connection`, which `close_children_for_connection` calls. -/
def removeSftpSessionsForConnection (connectionId : String) : LockScript :=
  mutex (.sftpOpenLock connectionId) .done

/-- `shutdown_connection_with_reason`. -/
def shutdownConnectionWithReason (connectionId : String) : LockScript :=
  .call (removeSftpSessionsForConnection connectionId)

/-- The loop over connections of the functions that shut several down. -/
def shutdownConnections : LockScript :=
  .loop (.pick shutdownConnectionWithReason)

/-- `shutdown_session_connections`. -/
def shutdownSessionConnections (sessionId : String) : LockScript :=
  mutex (.connectionLock sessionId .desktop)
    (mutex (.connectionLock sessionId .automation) shutdownConnections)

/-- `shutdown_automation_connections`. -/
def shutdownAutomationConnections : LockScript := shutdownConnections

/-- `shutdown_all_with_reason`. -/
def shutdownAll : LockScript :=
  write .lifecycleGate shutdownConnections

/-- `reap_dead_connections`, and the end of a terminal task. -/
def reapDeadConnections : LockScript :=
  .loop (.pick removeSftpSessionsForConnection)

/-- `connect_inner`. -/
def connectInner (sessionId : String) (origin : ConnectionOrigin) : LockScript :=
  .call (read .lifecycleGate (mutex (.connectionLock sessionId origin)
    (optional (.pick shutdownConnectionWithReason))))

/-- `open_sftp`. -/
def openSftp (connectionId : String) : LockScript :=
  .call (read .lifecycleGate (mutex (.sftpOpenLock connectionId) .done))

/-- A function that registers a resource while nothing is shut down. -/
def underLifecycleGate : LockScript :=
  .call (read .lifecycleGate .done)

/-- `open_terminal`. -/
def openTerminal : LockScript := underLifecycleGate

/-- `telemetry_start`. -/
def telemetryStart : LockScript := underLifecycleGate

/-- `start_transfer`. -/
def startTransfer : LockScript := underLifecycleGate

/-- `record_tunnel_start_failure`. -/
def recordTunnelStartFailure : LockScript := underLifecycleGate

/-- `forward_start_local_unlocked`. -/
def forwardStartLocalUnlocked : LockScript := underLifecycleGate

/-- `forward_start_dynamic_unlocked`. -/
def forwardStartDynamicUnlocked : LockScript := underLifecycleGate

/-- `forward_start_remote_unlocked`. -/
def forwardStartRemoteUnlocked : LockScript :=
  .call (read .lifecycleGate (.pick fun key => mutex (.remoteForwardLock key) .done))

/-- `forward_start_local`, `forward_start_remote` and `forward_start_dynamic`. -/
def forwardStart (unlocked : LockScript) : Option String → LockScript
  | some tunnelId => .call (mutex (.tunnelForwardLock tunnelId) unlocked)
  | none => .call unlocked

/-- `forward_stop_if_present`. -/
def forwardStopIfPresent : LockScript :=
  .call (optional (.pick fun key => mutex (.remoteForwardLock key) .done))

/-- `forward_stop`. -/
def forwardStop : LockScript :=
  .call (.either forwardStopIfPresent
    (.pick fun tunnelId => mutex (.tunnelForwardLock tunnelId) forwardStopIfPresent))

/-- `stop_forwards_for_tunnel_inner`. -/
def stopForwardsForTunnel (tunnelId : String) : LockScript :=
  .call (mutex (.tunnelForwardLock tunnelId) (.loop forwardStopIfPresent))

/-- `forward_start_for_tunnel_on_connection`. -/
def forwardStartForTunnel (tunnelId : String) : LockScript :=
  .call (.either (forwardStart forwardStartLocalUnlocked (some tunnelId))
    (.either (forwardStart forwardStartRemoteUnlocked (some tunnelId))
      (forwardStart forwardStartDynamicUnlocked (some tunnelId))))

/-- `api_disconnect_session`. -/
def apiDisconnectSession : LockScript :=
  .call (.pick shutdownConnectionWithReason)

/-! ### `src/commands`: what several commands share -/

/-- `connect_session` and `connect_session_new`. -/
def connectSession (sessionId : String) : LockScript :=
  .call (read .connectionConfigGate
    (.seq (connectInner sessionId .desktop) (optional (.pick shutdownConnectionWithReason))))

/-- `restore_tunnel`. -/
def restoreTunnel (tunnelId : String) : LockScript :=
  .call (.seq (stopForwardsForTunnel tunnelId)
    (.seq (forwardStartForTunnel tunnelId) (optional recordTunnelStartFailure)))

/-- `ApiServerHandle::shutdown`. -/
def handleShutdown : LockScript := shutdownAutomationConnections

/-- `ApiServerHandle::update_allowed_sessions`. -/
def updateAllowedSessions : LockScript := shutdownAutomationConnections

/-- `sync_api_server_authorization_cache`. -/
def syncApiServerAuthorizationCache : LockScript := mutex .apiServer .done

/-- Work on the handle of the API server: the mutex is given back while a server that has finished
is shut down. -/
def withHandle (body : LockScript) : LockScript :=
  .either (mutex .apiServer body)
    (.seq (mutex .apiServer .done) (.seq handleShutdown (mutex .apiServer body)))

/-- `start_api_server_inner`: a server that runs gets the new sessions, another one may need a
key. -/
def startApiServerInner : LockScript :=
  .call (withHandle (.either updateAllowedSessions (optional (mutex .configMutations .done))))

/-- The handle is taken out and shut down. -/
def takeAndShutdown : LockScript :=
  .seq (mutex .apiServer .done) handleShutdown

/-- `stop_api_server_after_reconcile_failure`. -/
def stopApiServerAfterReconcileFailure : LockScript := takeAndShutdown

/-- `reconcile_api_server_with_snapshot_inner`. -/
def reconcileApiServerInner : LockScript :=
  .call (.either (withHandle updateAllowedSessions) (.seq (withHandle .done) handleShutdown))

/-- `reconcile_api_server_with_snapshot`. -/
def reconcileApiServer : LockScript :=
  .call (mutex .apiServerOperation
    (.seq reconcileApiServerInner (optional stopApiServerAfterReconcileFailure)))

/-- `stop_api_server_for_config_replacement`: its guard stays with the caller. -/
def stopApiServerForConfigReplacement (caller : LockScript) : LockScript :=
  mutex .apiServerOperation (.seq takeAndShutdown caller)

/-- `restore_api_server_after_config_replacement`. -/
def restoreApiServerAfterConfigReplacement : LockScript :=
  .call (mutex .apiServerOperation startApiServerInner)

/-- A replacement of the whole configuration, which `begin_replacement` guards. -/
def replaceConfig : LockScript :=
  .call (mutex .tunnelOperation (write .connectionConfigGate (mutex .configMutations shutdownAll)))

/-- A command that only changes the vault, or replaces it and nothing else. -/
def configMutation : LockScript := mutex .configMutations .done

/-- `backup_run_now`, `backup_run_auto` and `rest_backup_run`. -/
def backupRun : LockScript :=
  mutex .backupOperation (.seq configMutation configMutation)

/-! ### `src/api_server` -/

/-- `ensure_api_session_ready`. -/
def ensureApiSessionReady (sessionId : String) : LockScript :=
  .call (.seq
    (optional (.seq (read .connectionConfigGate .done)
      (.seq (connectInner sessionId .automation) (optional apiDisconnectSession))))
    (optional (.pick openSftp)))

/-! ### The operations -/

/-- The commands, the REST handlers and the background tasks that take locks. -/
inductive Command where
  -- `api_server_cmd.rs`
  | apiServerConfigureAndStart
  | apiServerAutostart
  | apiServerStop
  | apiServerStatus
  | apiServerRegenerateKey
  | apiServerLogs
  -- `sessions.rs`
  | groupCreate
  | groupUpdate
  | groupDelete
  | sessionCreate
  | sessionUpdate (sessionId : String)
  | sessionFavoriteUpdate
  | sessionMarkRecent
  | sessionClearRecent
  | sessionDelete (sessionId : String)
  | sshConnect (sessionId : String)
  | sshDisconnect (connectionId : String)
  | sshTrustHostKey
  -- `vault.rs`
  | vaultMigrate
  | vaultSkipMigration
  | settingsProxyUpdate
  | settingsBackupUpdate
  | quickCommandUpsert
  | quickCommandDelete
  | settingsAiApiUpdate
  | settingsIgnoreUpdateVersion
  | connectionSectionStateUpdate
  | tunnelCreate
  | tunnelUpdate (tunnelId : String)
  | tunnelDelete (tunnelId : String)
  | vaultBackupExport
  | vaultBackupImport
  -- `backup.rs`
  | backupRunNow
  | backupRunAuto
  | backupRecordRestore
  | backupRecordDelete
  | backupRecordsClear
  -- `tunnels.rs`
  | tunnelSetEnabled (tunnelId : String)
  | restoreTunnelsAfterConnect
  -- `remote.rs`, `sftp.rs` and `terminal.rs`
  | forwardStartLocal (sessionId : String) (tunnelId : Option String)
  | forwardStartRemote (sessionId : String) (tunnelId : Option String)
  | forwardStartDynamic (sessionId : String) (tunnelId : Option String)
  | forwardStop
  | forwardList
  | telemetryStart
  | sftpOpen (connectionId : String)
  | transferStart
  | terminalOpen
  | sshExec (sessionId : String)
  -- `handlers_admin.rs`
  | restTunnelsCreate
  | restTunnelsUpdate (tunnelId : String)
  | restTunnelsDelete (tunnelId : String)
  | restTunnelsStart (tunnelId sessionId : String)
  | restTunnelsStop (tunnelId : String)
  | restBackupSettings
  | restBackupRun
  | restBackupRecordDelete
  -- `handlers_remote.rs` and `handlers_jobs.rs`
  | restConnect (sessionId : String)
  | restDisconnect
  | restOnSession (sessionId : String)
  -- background tasks and the end of the application
  | apiServerTask
  | deadConnectionReaper
  | terminalTask
  | shutdownRuntime

/-- The locks of an operation. -/
def script : Command → LockScript
  | .apiServerConfigureAndStart =>
    mutex .apiServerOperation (.seq (mutex .apiServer .done)
      (.seq (mutex .configMutations syncApiServerAuthorizationCache)
        (.seq startApiServerInner (optional stopApiServerAfterReconcileFailure))))
  | .apiServerAutostart =>
    .seq (.loop (.call (mutex .apiServerOperation startApiServerInner)))
      (mutex .apiServerOperation .done)
  | .apiServerStop =>
    .seq (mutex .apiServer .done) (mutex .apiServerOperation takeAndShutdown)
  | .apiServerStatus => mutex .apiServerOperation takeAndShutdown
  | .apiServerRegenerateKey =>
    mutex .apiServerOperation (.seq configMutation
      (.seq takeAndShutdown (mutex .apiServer .done)))
  | .apiServerLogs => mutex .apiServer .done
  | .groupCreate => configMutation
  | .groupUpdate => configMutation
  | .groupDelete => configMutation
  | .sessionCreate => configMutation
  | .sessionUpdate sessionId =>
    .seq (mutex .tunnelOperation (write .connectionConfigGate
      (.seq configMutation (optional (shutdownSessionConnections sessionId))))) reconcileApiServer
  | .sessionFavoriteUpdate => configMutation
  | .sessionMarkRecent => configMutation
  | .sessionClearRecent => configMutation
  | .sessionDelete sessionId =>
    .seq (mutex .apiServerOperation (mutex .tunnelOperation (write .connectionConfigGate
      (.seq (mutex .configMutations syncApiServerAuthorizationCache)
        (shutdownSessionConnections sessionId))))) reconcileApiServer
  | .sshConnect sessionId => connectSession sessionId
  | .sshDisconnect connectionId => shutdownConnectionWithReason connectionId
  | .sshTrustHostKey => configMutation
  | .vaultMigrate => configMutation
  | .vaultSkipMigration => configMutation
  | .settingsProxyUpdate =>
    mutex .tunnelOperation (write .connectionConfigGate (.seq configMutation shutdownAll))
  | .settingsBackupUpdate => mutex .backupOperation configMutation
  | .quickCommandUpsert => configMutation
  | .quickCommandDelete => configMutation
  | .settingsAiApiUpdate =>
    .seq (mutex .apiServerOperation (mutex .configMutations syncApiServerAuthorizationCache))
      reconcileApiServer
  | .settingsIgnoreUpdateVersion => configMutation
  | .connectionSectionStateUpdate => configMutation
  | .tunnelCreate => mutex .tunnelOperation configMutation
  | .tunnelUpdate tunnelId =>
    mutex .tunnelOperation (read .connectionConfigGate
      (.seq (mutex .configMutations (stopForwardsForTunnel tunnelId))
        (optional (restoreTunnel tunnelId))))
  | .tunnelDelete tunnelId =>
    mutex .tunnelOperation (mutex .configMutations (stopForwardsForTunnel tunnelId))
  | .vaultBackupExport => mutex .backupOperation .done
  | .vaultBackupImport =>
    .seq (stopApiServerForConfigReplacement (mutex .backupOperation replaceConfig))
      restoreApiServerAfterConfigReplacement
  | .backupRunNow => backupRun
  | .backupRunAuto => backupRun
  | .backupRecordRestore =>
    .seq (stopApiServerForConfigReplacement (mutex .backupOperation (.call replaceConfig)))
      restoreApiServerAfterConfigReplacement
  | .backupRecordDelete => mutex .backupOperation configMutation
  | .backupRecordsClear => mutex .backupOperation configMutation
  | .tunnelSetEnabled tunnelId =>
    mutex .tunnelOperation (read .connectionConfigGate (.seq configMutation
      (.either (restoreTunnel tunnelId) (stopForwardsForTunnel tunnelId))))
  | .restoreTunnelsAfterConnect =>
    mutex .tunnelOperation (read .connectionConfigGate (.loop (.pick restoreTunnel)))
  | .forwardStartLocal sessionId tunnelId =>
    mutex .tunnelOperation (.seq (connectSession sessionId)
      (forwardStart forwardStartLocalUnlocked tunnelId))
  | .forwardStartRemote sessionId tunnelId =>
    mutex .tunnelOperation (.seq (connectSession sessionId)
      (forwardStart forwardStartRemoteUnlocked tunnelId))
  | .forwardStartDynamic sessionId tunnelId =>
    mutex .tunnelOperation (.seq (connectSession sessionId)
      (forwardStart forwardStartDynamicUnlocked tunnelId))
  | .forwardStop => mutex .tunnelOperation (.seq (optional configMutation) forwardStop)
  | .forwardList => mutex .tunnelOperation .done
  | .telemetryStart => telemetryStart
  | .sftpOpen connectionId => openSftp connectionId
  | .transferStart => startTransfer
  | .terminalOpen => openTerminal
  | .sshExec sessionId => connectSession sessionId
  | .restTunnelsCreate => mutex .tunnelOperation configMutation
  | .restTunnelsUpdate tunnelId =>
    mutex .tunnelOperation (mutex .configMutations (stopForwardsForTunnel tunnelId))
  | .restTunnelsDelete tunnelId =>
    mutex .tunnelOperation (mutex .configMutations (stopForwardsForTunnel tunnelId))
  | .restTunnelsStart tunnelId sessionId =>
    mutex .tunnelOperation (.seq (read .connectionConfigGate .done)
      (.seq (connectInner sessionId .automation) (.seq (optional apiDisconnectSession)
        (.seq (forwardStartForTunnel tunnelId)
          (optional (.seq (stopForwardsForTunnel tunnelId) apiDisconnectSession))))))
  | .restTunnelsStop tunnelId => mutex .tunnelOperation (stopForwardsForTunnel tunnelId)
  | .restBackupSettings => mutex .backupOperation configMutation
  | .restBackupRun => backupRun
  | .restBackupRecordDelete => mutex .backupOperation configMutation
  | .restConnect sessionId =>
    .seq (read .connectionConfigGate .done)
      (.seq (connectInner sessionId .automation) (optional apiDisconnectSession))
  | .restDisconnect => apiDisconnectSession
  | .restOnSession sessionId => ensureApiSessionReady sessionId
  | .apiServerTask => shutdownAutomationConnections
  | .deadConnectionReaper => .loop reapDeadConnections
  | .terminalTask => reapDeadConnections
  | .shutdownRuntime =>
    .seq (mutex .apiServer .done) (mutex .apiServerOperation (.seq takeAndShutdown
      (mutex .backupOperation (mutex .tunnelOperation
        (write .connectionConfigGate shutdownAll)))))

/-! ### The order -/

namespace Lock

/-- The levels of the locks. -/
@[simp] def level : Lock → ℕ
  | .apiServerOperation => 0
  | .backupOperation => 1
  | .tunnelOperation => 2
  | .connectionConfigGate => 3
  | .configMutations => 4
  | .apiServer => 5
  | .tunnelForwardLock _ => 6
  | .lifecycleGate => 7
  | .connectionLock _ .desktop => 8
  | .connectionLock _ .automation => 9
  | .remoteForwardLock _ => 10
  | .sftpOpenLock _ => 11

/-- The locks that have readers. -/
def isGate : Lock → Bool
  | .connectionConfigGate => true
  | .lifecycleGate => true
  | _ => false

/-- The two locks that are taken in both orders. -/
def crossed (l l' : Lock) : Prop :=
  l = .configMutations ∧ l' = .apiServer ∨ l = .apiServer ∧ l' = .configMutations

end Lock

/-- Locks are asked for in the order of their levels; the two crossed ones, in either order, under
`api_server_operation`. -/
def discipline : LockDiscipline Lock where
  allowed held l m :=
    (m = .shared → l.isGate = true) ∧
      ∀ h ∈ held, (h.level < l.level ∨ h.crossed l) ∧
        (h.crossed l → Lock.apiServerOperation ∈ held)
  fresh := by
    rintro held l m ⟨-, hbelow⟩ hmem
    rcases (hbelow l hmem).1 with hless | ⟨rfl, heq⟩ | ⟨rfl, heq⟩
    · exact Nat.lt_irrefl _ hless
    · cases heq
    · cases heq

/-- The locks held are below a level. -/
def Below (n : ℕ) (held : List Lock) : Prop :=
  ∀ h ∈ held, h.level < n

variable {held : List Lock} {l : Lock} {m : LockMode} {n k : ℕ} {body : LockScript}

namespace Below

theorem nil : Below n [] := fun _ hmem => absurd hmem List.not_mem_nil

theorem mono (h : Below n held) (hnk : n ≤ k) : Below k held :=
  fun l hmem => Nat.lt_of_lt_of_le (h l hmem) hnk

theorem push (h : Below l.level held) (hlk : l.level < k) : Below k (l :: held) := by
  intro l' hmem
  rcases List.mem_cons.mp hmem with rfl | hmem
  · exact hlk
  · exact Nat.lt_trans (h l' hmem) hlk

/-- A lock above those held may be asked for; the mutex of the API server, inside the configuration
lock, only under `api_server_operation`. -/
theorem allowed (h : Below l.level held) (hmode : m = .shared → l.isGate = true)
    (hserver : l = .apiServer → .configMutations ∈ held → .apiServerOperation ∈ held) :
    discipline.allowed held l m := by
  refine ⟨hmode, fun l' hmem => ⟨Or.inl (h l' hmem), ?_⟩⟩
  rintro (⟨rfl, rfl⟩ | ⟨rfl, rfl⟩)
  · exact hserver rfl hmem
  · have hless := h _ hmem
    cases hless
    contradiction

end Below

theorem mutex_follows (h : Below l.level held) (hl : l ≠ .apiServer)
    (hbody : body.Follows discipline (l :: held)) : (mutex l body).Follows discipline held :=
  ⟨h.allowed nofun fun heq => absurd heq hl, hbody⟩

theorem write_follows (h : Below l.level held) (hl : l ≠ .apiServer)
    (hbody : body.Follows discipline (l :: held)) : (write l body).Follows discipline held :=
  mutex_follows h hl hbody

theorem read_follows (h : Below l.level held) (hgate : l.isGate = true)
    (hbody : body.Follows discipline (l :: held)) : (read l body).Follows discipline held := by
  refine ⟨h.allowed (fun _ => hgate) ?_, hbody⟩
  rintro rfl
  cases hgate

theorem server_follows (h : Below 4 held) (hbody : body.Follows discipline (.apiServer :: held)) :
    (mutex .apiServer body).Follows discipline held :=
  ⟨(h.mono (by decide)).allowed nofun fun _ hmem => absurd (h _ hmem) (by decide), hbody⟩

theorem optional_follows (hbody : body.Follows discipline held) :
    (optional body).Follows discipline held :=
  ⟨hbody, trivial⟩

section Remote

variable (key : String) (origin : ConnectionOrigin) (tunnelId : Option String)

theorem removeSftpSessionsForConnection_follows (h : Below 11 held) :
    (removeSftpSessionsForConnection key).Follows discipline held :=
  mutex_follows (l := .sftpOpenLock key) h nofun trivial

theorem shutdownConnectionWithReason_follows (h : Below 11 held) :
    (shutdownConnectionWithReason key).Follows discipline held :=
  removeSftpSessionsForConnection_follows key h

theorem shutdownConnections_follows (h : Below 11 held) :
    shutdownConnections.Follows discipline held :=
  fun key => shutdownConnectionWithReason_follows key h

theorem shutdownSessionConnections_follows (h : Below 8 held) :
    (shutdownSessionConnections key).Follows discipline held := by
  refine mutex_follows h nofun ?_
  refine mutex_follows (Below.push h (by simp)) nofun ?_
  exact shutdownConnections_follows (Below.push (Below.push h (by simp)) (by simp))

theorem shutdownAll_follows (h : Below 7 held) : shutdownAll.Follows discipline held :=
  write_follows h nofun (shutdownConnections_follows (Below.push h (by simp)))

theorem apiDisconnectSession_follows (h : Below 11 held) :
    apiDisconnectSession.Follows discipline held :=
  fun key => shutdownConnectionWithReason_follows key h

theorem connectInner_follows (h : Below 7 held) :
    (connectInner key origin).Follows discipline held := by
  refine read_follows h rfl ?_
  have hlock : Below (Lock.connectionLock key origin).level (.lifecycleGate :: held) := by
    cases origin <;> exact Below.push h (by simp)
  have hinner : Below 11 (.connectionLock key origin :: .lifecycleGate :: held) := by
    cases origin <;> exact Below.push hlock (by simp)
  exact mutex_follows hlock nofun
    (optional_follows fun key => shutdownConnectionWithReason_follows key hinner)

theorem openSftp_follows (h : Below 7 held) : (openSftp key).Follows discipline held :=
  read_follows h rfl (mutex_follows (l := .sftpOpenLock key) (Below.push h (by simp)) nofun trivial)

theorem underLifecycleGate_follows (h : Below 7 held) :
    underLifecycleGate.Follows discipline held :=
  read_follows h rfl trivial

theorem forwardStartRemoteUnlocked_follows (h : Below 7 held) :
    forwardStartRemoteUnlocked.Follows discipline held :=
  read_follows h rfl fun key =>
    mutex_follows (l := .remoteForwardLock key) (Below.push h (by simp)) nofun trivial

theorem forwardStart_follows {unlocked : LockScript}
    (hunlocked : ∀ {held}, Below 7 held → unlocked.Follows discipline held) (h : Below 6 held) :
    (forwardStart unlocked tunnelId).Follows discipline held := by
  cases tunnelId with
  | none => exact hunlocked (h.mono (by decide))
  | some tunnelId =>
    exact mutex_follows (l := .tunnelForwardLock tunnelId) h nofun
      (hunlocked (Below.push h (by simp)))

theorem forwardStopIfPresent_follows (h : Below 10 held) :
    forwardStopIfPresent.Follows discipline held :=
  optional_follows fun key => mutex_follows (l := .remoteForwardLock key) h nofun trivial

theorem stopForwardsForTunnel_follows (h : Below 6 held) :
    (stopForwardsForTunnel key).Follows discipline held :=
  mutex_follows (l := .tunnelForwardLock key) h nofun
    (forwardStopIfPresent_follows (Below.push h (by simp)))

theorem forwardStop_follows (h : Below 6 held) : forwardStop.Follows discipline held :=
  ⟨forwardStopIfPresent_follows (h.mono (by decide)),
    fun key => mutex_follows (l := .tunnelForwardLock key) h nofun
      (forwardStopIfPresent_follows (Below.push h (by simp)))⟩

theorem forwardStartForTunnel_follows (h : Below 6 held) :
    (forwardStartForTunnel key).Follows discipline held :=
  ⟨forwardStart_follows _ underLifecycleGate_follows h,
    forwardStart_follows _ forwardStartRemoteUnlocked_follows h,
    forwardStart_follows _ underLifecycleGate_follows h⟩

theorem restoreTunnel_follows (h : Below 6 held) :
    (restoreTunnel key).Follows discipline held :=
  ⟨stopForwardsForTunnel_follows key h, forwardStartForTunnel_follows key h,
    optional_follows (underLifecycleGate_follows (h.mono (by decide)))⟩

theorem connectSession_follows (h : Below 3 held) :
    (connectSession key).Follows discipline held := by
  have hinner : Below 4 (.connectionConfigGate :: held) := Below.push h (by simp)
  exact read_follows h rfl ⟨connectInner_follows key _ (hinner.mono (by decide)),
    optional_follows fun key =>
      shutdownConnectionWithReason_follows key (hinner.mono (by decide))⟩

theorem ensureApiSessionReady_follows (h : Below 3 held) :
    (ensureApiSessionReady key).Follows discipline held :=
  ⟨optional_follows ⟨read_follows h rfl trivial,
      connectInner_follows key _ (h.mono (by decide)),
      optional_follows (apiDisconnectSession_follows (h.mono (by decide)))⟩,
    optional_follows fun key => openSftp_follows key (h.mono (by decide))⟩

end Remote

section Server

theorem configMutation_follows (h : Below 4 held) : configMutation.Follows discipline held :=
  mutex_follows h nofun trivial

theorem takeAndShutdown_follows (h : Below 4 held) : takeAndShutdown.Follows discipline held :=
  ⟨server_follows h trivial, shutdownConnections_follows (h.mono (by decide))⟩

theorem withHandle_follows (h : Below 4 held)
    (hbody : body.Follows discipline (.apiServer :: held)) :
    (withHandle body).Follows discipline held :=
  ⟨server_follows h hbody, server_follows h trivial,
    shutdownConnections_follows (h.mono (by decide)), server_follows h hbody⟩

theorem syncInside_follows (h : Below 4 held) (hoperation : .apiServerOperation ∈ held) :
    (mutex .configMutations syncApiServerAuthorizationCache).Follows discipline held := by
  refine mutex_follows h nofun ⟨?_, trivial⟩
  have hinner : Below Lock.apiServer.level (.configMutations :: held) := Below.push h (by simp)
  exact hinner.allowed nofun fun _ _ => List.mem_cons_of_mem _ hoperation

theorem keyInside_follows (h : Below 4 held) (hoperation : .apiServerOperation ∈ held) :
    (mutex .configMutations .done).Follows discipline (.apiServer :: held) := by
  refine ⟨⟨nofun, fun l hmem => ⟨?_, fun _ => List.mem_cons_of_mem _ hoperation⟩⟩, trivial⟩
  rcases List.mem_cons.mp hmem with rfl | hmem
  · exact Or.inr (Or.inr ⟨rfl, rfl⟩)
  · exact Or.inl (h l hmem)

theorem startApiServerInner_follows (h : Below 4 held) (hoperation : .apiServerOperation ∈ held) :
    startApiServerInner.Follows discipline held := by
  have hinner : Below 6 (.apiServer :: held) := Below.push (h.mono (by decide)) (by simp)
  exact withHandle_follows h ⟨shutdownConnections_follows (hinner.mono (by decide)),
    optional_follows (keyInside_follows h hoperation)⟩

theorem reconcileApiServer_follows (h : Below 0 held) :
    reconcileApiServer.Follows discipline held := by
  have hinner : Below 4 (.apiServerOperation :: held) := Below.push h (by simp)
  have hserver : Below 6 (.apiServer :: .apiServerOperation :: held) :=
    Below.push (hinner.mono (by decide)) (by simp)
  exact mutex_follows h nofun
    ⟨⟨withHandle_follows hinner (shutdownConnections_follows (hserver.mono (by decide))),
        withHandle_follows hinner trivial,
        shutdownConnections_follows (hinner.mono (by decide))⟩,
      optional_follows (takeAndShutdown_follows hinner)⟩

theorem restoreApiServerAfterConfigReplacement_follows (h : Below 0 held) :
    restoreApiServerAfterConfigReplacement.Follows discipline held :=
  mutex_follows h nofun
    (startApiServerInner_follows (Below.push h (by simp)) List.mem_cons_self)

theorem replaceConfig_follows (h : Below 2 held) : replaceConfig.Follows discipline held := by
  have htunnel : Below 3 (.tunnelOperation :: held) := Below.push h (by simp)
  have hgate : Below 4 (.connectionConfigGate :: .tunnelOperation :: held) :=
    Below.push htunnel (by simp)
  exact mutex_follows h nofun (write_follows htunnel nofun (mutex_follows hgate nofun
    (shutdownAll_follows (Below.push hgate (by simp)))))

/-- A replacement of the configuration between a stop and a restart of the API server. -/
theorem replacement_follows
    (hbody : ∀ {held}, Below 2 held → body.Follows discipline held) :
    (Script.seq (stopApiServerForConfigReplacement (mutex .backupOperation body))
      restoreApiServerAfterConfigReplacement).Follows discipline [] := by
  have hinner : Below 1 [.apiServerOperation] := Below.push Below.nil (by simp)
  exact ⟨mutex_follows Below.nil nofun ⟨takeAndShutdown_follows (hinner.mono (by decide)),
      mutex_follows hinner nofun (hbody (Below.push hinner (by simp)))⟩,
    restoreApiServerAfterConfigReplacement_follows Below.nil⟩

end Server

/-- **Every operation asks for its locks in order.** -/
theorem script_follows (c : Command) : (script c).Follows discipline [] := by
  have hnil : ∀ {n}, Below n [] := Below.nil
  have hapi : Below 1 [.apiServerOperation] := Below.push hnil (by simp)
  have hbackup : Below 2 [.backupOperation] := Below.push hnil (by simp)
  have htunnel : Below 3 [.tunnelOperation] := Below.push hnil (by simp)
  have hgate : Below 4 [.connectionConfigGate, .tunnelOperation] := Below.push htunnel (by simp)
  have hconfig : Below 5 [.configMutations, .tunnelOperation] :=
    Below.push (htunnel.mono (by decide)) (by simp)
  cases c with
  | groupCreate | groupUpdate | groupDelete | sessionCreate | sessionFavoriteUpdate
  | sessionMarkRecent | sessionClearRecent | sshTrustHostKey | vaultMigrate | vaultSkipMigration
  | quickCommandUpsert
  | quickCommandDelete | settingsIgnoreUpdateVersion | connectionSectionStateUpdate =>
    exact configMutation_follows hnil
  | settingsBackupUpdate | backupRecordDelete | backupRecordsClear | restBackupSettings
  | restBackupRecordDelete =>
    exact mutex_follows hnil nofun (configMutation_follows (hbackup.mono (by decide)))
  | backupRunNow | backupRunAuto | restBackupRun =>
    exact mutex_follows hnil nofun ⟨configMutation_follows (hbackup.mono (by decide)),
      configMutation_follows (hbackup.mono (by decide))⟩
  | tunnelCreate | restTunnelsCreate =>
    exact mutex_follows hnil nofun (configMutation_follows (htunnel.mono (by decide)))
  | tunnelDelete tunnelId | restTunnelsUpdate tunnelId | restTunnelsDelete tunnelId =>
    exact mutex_follows hnil nofun (mutex_follows (htunnel.mono (by decide)) nofun
      (stopForwardsForTunnel_follows tunnelId (hconfig.mono (by decide))))
  | telemetryStart | transferStart | terminalOpen => exact underLifecycleGate_follows hnil
  | sshConnect sessionId | sshExec sessionId => exact connectSession_follows sessionId hnil
  | sshDisconnect connectionId => exact shutdownConnectionWithReason_follows connectionId hnil
  | sftpOpen connectionId => exact openSftp_follows connectionId hnil
  | forwardList => exact mutex_follows hnil nofun trivial
  | vaultBackupExport => exact mutex_follows hnil nofun trivial
  | apiServerLogs => exact server_follows hnil trivial
  | apiServerConfigureAndStart =>
    exact mutex_follows hnil nofun ⟨server_follows (hapi.mono (by decide)) trivial,
      syncInside_follows (hapi.mono (by decide)) List.mem_cons_self,
      startApiServerInner_follows (hapi.mono (by decide)) List.mem_cons_self,
      optional_follows (takeAndShutdown_follows (hapi.mono (by decide)))⟩
  | apiServerAutostart =>
    exact ⟨mutex_follows hnil nofun
      (startApiServerInner_follows (hapi.mono (by decide)) List.mem_cons_self),
      mutex_follows hnil nofun trivial⟩
  | apiServerStop =>
    exact ⟨server_follows hnil trivial,
      mutex_follows hnil nofun (takeAndShutdown_follows (hapi.mono (by decide)))⟩
  | apiServerStatus =>
    exact mutex_follows hnil nofun (takeAndShutdown_follows (hapi.mono (by decide)))
  | apiServerRegenerateKey =>
    exact mutex_follows hnil nofun ⟨configMutation_follows (hapi.mono (by decide)),
      takeAndShutdown_follows (hapi.mono (by decide)),
      server_follows (hapi.mono (by decide)) trivial⟩
  | settingsAiApiUpdate =>
    exact ⟨mutex_follows hnil nofun
      (syncInside_follows (hapi.mono (by decide)) List.mem_cons_self),
      reconcileApiServer_follows hnil⟩
  | sessionUpdate sessionId =>
    exact ⟨mutex_follows hnil nofun (write_follows htunnel nofun
      ⟨configMutation_follows hgate,
        optional_follows (shutdownSessionConnections_follows sessionId
          (hgate.mono (by decide)))⟩),
      reconcileApiServer_follows hnil⟩
  | sessionDelete sessionId =>
    have htunnel : Below 3 [.tunnelOperation, .apiServerOperation] :=
      Below.push (hapi.mono (by decide)) (by simp)
    have hgate : Below 4 [.connectionConfigGate, .tunnelOperation, .apiServerOperation] :=
      Below.push htunnel (by simp)
    exact ⟨mutex_follows hnil nofun (mutex_follows (hapi.mono (by decide)) nofun
      (write_follows htunnel nofun ⟨syncInside_follows hgate (by simp),
        shutdownSessionConnections_follows sessionId (hgate.mono (by decide))⟩)),
      reconcileApiServer_follows hnil⟩
  | settingsProxyUpdate =>
    exact mutex_follows hnil nofun (write_follows htunnel nofun
      ⟨configMutation_follows hgate, shutdownAll_follows (hgate.mono (by decide))⟩)
  | vaultBackupImport => exact replacement_follows replaceConfig_follows
  | backupRecordRestore => exact replacement_follows replaceConfig_follows
  | tunnelUpdate tunnelId =>
    exact mutex_follows hnil nofun (read_follows htunnel rfl
      ⟨mutex_follows hgate nofun
          (stopForwardsForTunnel_follows tunnelId (Below.push hgate (by simp))),
        optional_follows (restoreTunnel_follows tunnelId (hgate.mono (by decide)))⟩)
  | tunnelSetEnabled tunnelId =>
    exact mutex_follows hnil nofun (read_follows htunnel rfl ⟨configMutation_follows hgate,
      restoreTunnel_follows tunnelId (hgate.mono (by decide)),
      stopForwardsForTunnel_follows tunnelId (hgate.mono (by decide))⟩)
  | restoreTunnelsAfterConnect =>
    exact mutex_follows hnil nofun (read_follows htunnel rfl
      fun tunnelId => restoreTunnel_follows tunnelId (hgate.mono (by decide)))
  | forwardStartLocal sessionId tunnelId | forwardStartDynamic sessionId tunnelId =>
    exact mutex_follows hnil nofun ⟨connectSession_follows sessionId htunnel,
      forwardStart_follows tunnelId underLifecycleGate_follows (htunnel.mono (by decide))⟩
  | forwardStartRemote sessionId tunnelId =>
    exact mutex_follows hnil nofun ⟨connectSession_follows sessionId htunnel,
      forwardStart_follows tunnelId forwardStartRemoteUnlocked_follows
        (htunnel.mono (by decide))⟩
  | forwardStop =>
    exact mutex_follows hnil nofun
      ⟨optional_follows (configMutation_follows (htunnel.mono (by decide))),
        forwardStop_follows (htunnel.mono (by decide))⟩
  | restTunnelsStart tunnelId sessionId =>
    have hremote : Below 6 [.tunnelOperation] := htunnel.mono (by decide)
    exact mutex_follows hnil nofun ⟨read_follows htunnel rfl trivial,
      connectInner_follows sessionId _ (hremote.mono (by decide)),
      optional_follows (apiDisconnectSession_follows (hremote.mono (by decide))),
      forwardStartForTunnel_follows tunnelId hremote,
      optional_follows ⟨stopForwardsForTunnel_follows tunnelId hremote,
        apiDisconnectSession_follows (hremote.mono (by decide))⟩⟩
  | restTunnelsStop tunnelId =>
    exact mutex_follows hnil nofun
      (stopForwardsForTunnel_follows tunnelId (htunnel.mono (by decide)))
  | restConnect sessionId =>
    exact ⟨read_follows hnil rfl trivial, connectInner_follows sessionId _ hnil,
      optional_follows (apiDisconnectSession_follows hnil)⟩
  | restDisconnect => exact apiDisconnectSession_follows hnil
  | restOnSession sessionId => exact ensureApiSessionReady_follows sessionId hnil
  | apiServerTask => exact shutdownConnections_follows hnil
  | deadConnectionReaper => exact fun key => removeSftpSessionsForConnection_follows key hnil
  | terminalTask => exact fun key => removeSftpSessionsForConnection_follows key hnil
  | shutdownRuntime =>
    have hbackup : Below 2 [.backupOperation, .apiServerOperation] := Below.push hapi (by simp)
    have htunnel : Below 3 [.tunnelOperation, .backupOperation, .apiServerOperation] :=
      Below.push hbackup (by simp)
    exact ⟨server_follows hnil trivial, mutex_follows hnil nofun
      ⟨takeAndShutdown_follows (hapi.mono (by decide)),
        mutex_follows hapi nofun (mutex_follows hbackup nofun (write_follows htunnel nofun
          (shutdownAll_follows (Below.push (htunnel.mono (by decide)) (by simp)))))⟩⟩

/-! ### No deadlock -/

namespace Lock

/-- The levels while an operation has the mutex of the API server under `api_server_operation`: that
one may ask for the configuration lock. -/
def crossedLevel : Lock → ℕ
  | .configMutations => 5
  | .apiServer => 4
  | l => l.level

theorem level_le (l : Lock) : l.level ≤ 11 := by
  cases l with
  | connectionLock sessionId origin => cases origin <;> simp
  | _ => simp

theorem crossedLevel_eq (l : Lock) :
    l.crossedLevel = if l.level = 4 then 5 else if l.level = 5 then 4 else l.level := by
  cases l with
  | connectionLock sessionId origin => cases origin <;> rfl
  | _ => rfl

theorem crossedLevel_le (l : Lock) : l.crossedLevel ≤ 11 := by
  have hlevel := level_le l
  rw [crossedLevel_eq]
  split_ifs <;> omega

theorem eq_configMutations {l : Lock} (h : l.level = 4) : l = .configMutations := by
  cases l with
  | configMutations => rfl
  | connectionLock sessionId origin => cases origin <;> simp at h
  | _ => simp at h

theorem eq_apiServer {l : Lock} (h : l.level = 5) : l = .apiServer := by
  cases l with
  | apiServer => rfl
  | connectionLock sessionId origin => cases origin <;> simp at h
  | _ => simp at h

theorem crossedLevel_lt {h l : Lock} (hless : h.level < l.level) (hcrossed : ¬ h.crossed l) :
    h.crossedLevel < l.crossedLevel := by
  have hapart : ¬ (h.level = 4 ∧ l.level = 5) := fun ⟨hh, hl⟩ =>
    hcrossed (Or.inl ⟨eq_configMutations hh, eq_apiServer hl⟩)
  rw [crossedLevel_eq, crossedLevel_eq]
  split_ifs <;> omega

end Lock

section Deadlock

variable {ι : Type} [DecidableEq ι] {s : Locks ι Lock String}

/-- An operation has the mutex of the API server under `api_server_operation`. -/
def KeyOrder (s : Locks ι Lock String) : Prop :=
  ∃ i, Lock.apiServerOperation ∈ Frame.held (s.stack i) ∧ Lock.apiServer ∈ Frame.held (s.stack i)

omit [DecidableEq ι] in
/-- `api_server_operation` is held by one operation. -/
theorem operation_unique (hinv : Locks.Inv discipline s) {i j : ι}
    (hi : Lock.apiServerOperation ∈ Frame.held (s.stack i))
    (hj : Lock.apiServerOperation ∈ Frame.held (s.stack j)) : j = i := by
  obtain ⟨m, hm⟩ := Frame.mem_held.mp hi
  obtain ⟨m', hm'⟩ := Frame.mem_held.mp hj
  obtain ⟨before, hallowed⟩ := (hinv.ordered i).allowed_of_drop hm
  cases m with
  | shared => exact absurd (hallowed.1 rfl) (by decide)
  | exclusive => exact hinv.holder_unique hm hm'

/-- **Lock order is deadlock-free.** -/
theorem no_deadlock (hreachable : (Locks.machine script).Reachable s) (members : Set ι) :
    ¬ s.Deadlocked members := by
  have hinv := Locks.reachable_inv script_follows hreachable
  have hwaiting : ∀ i l m body rest, s.stack i = .wait l m body :: rest →
      discipline.allowed (Frame.held rest) l m ∧
        Frame.held (s.stack i) = Frame.held rest := by
    intro i l m body rest hstack
    have hordered := hinv.ordered i
    rw [hstack] at hordered
    refine ⟨hordered.1, ?_⟩
    rw [hstack]
    rfl
  by_cases hkey : KeyOrder s
  · obtain ⟨owner, howner, hserver⟩ := hkey
    refine Locks.not_deadlocked hinv Lock.crossedLevel 11 Lock.crossedLevel_le ?_ members
    intro i l m body rest hstack h hmem
    obtain ⟨⟨-, hbelow⟩, hheld⟩ := hwaiting i l m body rest hstack
    obtain ⟨horder, hoperation⟩ := hbelow h hmem
    by_cases hcrossed : h.crossed l
    · -- Only the owner may hold one of the two and wait for the other; it has the mutex.
      have hsame : i = owner := by
        refine operation_unique hinv howner ?_
        rw [hheld]
        exact hoperation hcrossed
      subst hsame
      rw [hheld] at hserver
      rcases hcrossed with ⟨rfl, rfl⟩ | ⟨rfl, rfl⟩
      · exact absurd hserver (discipline.fresh (hwaiting i _ m body rest hstack).1)
      · decide
    · exact Lock.crossedLevel_lt (horder.resolve_right hcrossed) hcrossed
  · refine Locks.not_deadlocked hinv Lock.level 11 Lock.level_le ?_ members
    intro i l m body rest hstack h hmem
    obtain ⟨⟨-, hbelow⟩, hheld⟩ := hwaiting i l m body rest hstack
    obtain ⟨horder, hoperation⟩ := hbelow h hmem
    rcases horder with hless | ⟨rfl, rfl⟩ | ⟨rfl, rfl⟩
    · exact hless
    · decide
    · refine absurd ⟨i, ?_, ?_⟩ hkey
      · rw [hheld]
        exact hoperation (Or.inr ⟨rfl, rfl⟩)
      · rw [hheld]
        exact hmem

/-- While a key is made, the mutex of the API server is held by one operation that waits for the
configuration lock, which another one holds that deletes a tunnel. -/
def keyRun : List (LockEvent ℕ Lock String Command) :=
  [.start 0 (.tunnelDelete "t"), .advance 0 .left, .grant .tunnelOperation, .advance 0 .left,
    .grant .configMutations, .start 1 .apiServerAutostart, .advance 1 .left, .advance 1 .left,
    .advance 1 .left, .advance 1 .left, .grant .apiServerOperation, .advance 1 .left,
    .advance 1 .left, .advance 1 .left, .grant .apiServer, .advance 1 .right, .advance 1 .left,
    .advance 1 .left]

/-- There one waits for the other, and that is no deadlock. -/
theorem no_deadlock_key : ∃ s, (Locks.machine script).run keyRun = some s ∧ s.Blocks 0 1 ∧
    ¬ s.Deadlocked Set.univ :=
  ⟨_, rfl, ⟨.configMutations, [], .exclusive, [], rfl, Or.inl ⟨.exclusive, by decide, by decide⟩⟩,
    no_deadlock ⟨keyRun, rfl⟩ _⟩

end Deadlock

end Commands
end HelmSsh
