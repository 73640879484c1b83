/-
# The operations of the workspace

The changes that the methods of `VaultStore` (`src-tauri/src/vault.rs`) make to the
configuration: the closures they hand to `mutate`, under the names of the methods.
A closure works on a copy of the data, so one that fails has changed nothing.

`VaultOp` lists the operations with their arguments; `VaultOp.check` is what a method
refuses before it looks at the workspace, `VaultOp.isNoop` the one case in which it
leaves the workspace alone, and `VaultOp.update` the change.

What is outside of the source enters with `Env`: the clock, the new id and the parser
of stored times.  The files and remote objects of pruned backup records are cleaned
up by others and left out.
-/

import HelmSsh.Config.Validate
import HelmSsh.FirstMatch
import Mathlib.Data.List.Sort

namespace HelmSsh
namespace Vault

open Config

/-- What an operation takes from outside: the time as stored and in nanoseconds, the
next `Uuid::new_v4()`, and `DateTime::parse_from_rfc3339`. -/
structure Env where
  now : String
  instant : ℤ
  newId : String
  parseTime : String → Option ℤ

/-- `Duration::days(1)` in nanoseconds. -/
def dayNanos : ℤ := 86400 * 1000000000

/-! ### Settings -/

/-- `settings_proxy_update`. -/
def settingsProxyUpdate (proxy : Option AppProxyOptions) (data : VaultData) :
    AppResult VaultData := do
  let data := { data with settings := { data.settings with proxy := proxy } }
  validateSettings data.settings
  return data

/-- The cutoff of `prune_backup_records` has passed for the record. -/
def tooOld (env : Env) (settings : BackupSettings) (record : BackupRecord) : Bool :=
  settings.retentionDays ≠ 0 &&
    (env.parseTime record.createdAt).any
      fun created => created < env.instant - settings.retentionDays.toNat * dayNanos

/-- The loop of `prune_backup_records` over the records behind those of `seen`: the ids
to remove, beyond the retention count of their kind and outcome or too old. -/
def removeIds (env : Env) (settings : BackupSettings) (seen : List BackupRecord) :
    List BackupRecord → List String
  | [] => []
  | record :: rest =>
    let count := seen.countP fun r =>
      (r.status = "success" ↔ record.status = "success") ∧ r.targetKind = record.targetKind
    let rest := removeIds env settings (record :: seen) rest
    if count + 1 > max settings.retentionCount.toNat 1 ∨ tooOld env settings record = true then
      record.id :: rest
    else rest

/-- `prune_backup_records`. -/
def pruneBackupRecords (env : Env) (data : VaultData) : VaultData :=
  let records := data.backupRecords.insertionSort fun left right => right.createdAt ≤ left.createdAt
  let removed := removeIds env data.settings.backup [] records
  { data with backupRecords := records.filter fun record => record.id ∉ removed }

/-- `settings_backup_update`. -/
def settingsBackupUpdate (env : Env) (backup : BackupSettings) (data : VaultData) :
    AppResult VaultData := do
  let data := { data with settings := { data.settings with backup := backup } }
  validateSettings data.settings
  return pruneBackupRecords env data

/-- The command as `quick_command_upsert` stores it. -/
def trimQuickCommand (command : QuickCommand) : QuickCommand :=
  { command with
    id := Text.trim command.id
    name := Text.trim command.name
    command := Text.trim command.command }

/-- The list with the command replaced, or added with the oldest beyond a hundred
dropped. -/
def upsertQuickCommand (command : QuickCommand) (commands : List QuickCommand) :
    List QuickCommand :=
  match FirstMatch.modify (fun existing => existing.id = command.id)
    (fun _ => command) commands with
  | some commands => commands
  | none =>
    let commands := commands ++ [command]
    commands.drop (commands.length - 100)

/-- `quick_command_upsert`, on a trimmed command. -/
def quickCommandUpsert (command : QuickCommand) (data : VaultData) : AppResult VaultData := do
  let commands := upsertQuickCommand command data.settings.quickCommands
  let data := { data with settings := { data.settings with quickCommands := commands } }
  validateSettings data.settings
  return data

/-- `quick_command_delete`, on a trimmed id. -/
def quickCommandDelete (commandId : String) (data : VaultData) : AppResult VaultData := do
  let commands := data.settings.quickCommands.filter fun command => command.id ≠ commandId
  refuse (commands.length = data.settings.quickCommands.length) (.notFound s!"常用命令 {commandId}")
  let data := { data with settings := { data.settings with quickCommands := commands } }
  validateSettings data.settings
  return data

/-- The loop of `settings_ai_api_update` over the requested ids, with those it has
accepted. -/
def acceptSessionIds (data : VaultData) (accepted : List String) :
    List String → AppResult (List String)
  | [] => return accepted
  | sessionId :: rest => do
    let sessionId := Text.trim sessionId
    if sessionId = "" ∨ sessionId ∈ accepted then acceptSessionIds data accepted rest
    else do
      refuse (accepted.length ≥ 20) (.invalidInput "AI API 最多允许 20 个会话")
      refuse (sessionId ∉ data.sessions.map SessionConfig.id) (.notFound s!"会话 {sessionId}")
      acceptSessionIds data (accepted ++ [sessionId]) rest

/-- `AiApiSettingsUpdate`. -/
structure AiApiSettingsUpdate where
  sessionIds : List String
  port : Option UInt16
  autoStart : Bool
  deriving DecidableEq

/-- `settings_ai_api_update`. -/
def settingsAiApiUpdate (settings : AiApiSettingsUpdate) (data : VaultData) :
    AppResult VaultData := do
  refuse (settings.port.any (· < 1024) = true) (.invalidInput "AI API 端口必须在 1024-65535 之间")
  let sessionIds ← acceptSessionIds data [] settings.sessionIds
  refuse (settings.autoStart = true ∧ (sessionIds = [] ∨ settings.port = none))
    (.invalidInput "AI API 自动启动需要端口和至少一个授权会话")
  let data :=
    { data with
      settings :=
        { data.settings with
          aiApiSessionId := sessionIds.head?
          aiApiSessionIds := sessionIds
          aiApiPort := settings.port
          aiApiAutoStart := settings.autoStart } }
  validateSettings data.settings
  return data

/-- `settings_ai_api_key_update`. -/
def settingsAiApiKeyUpdate (apiKey : Option String) (data : VaultData) : AppResult VaultData := do
  let data := { data with settings := { data.settings with aiApiKey := apiKey } }
  validateSettings data.settings
  return data

/-- The version as `settings_ignore_update_version` stores it. -/
def trimVersion (version : String) : String :=
  Text.trimStartMatches (Text.trim version) fun c => c = 'v' || c = 'V'

/-- `settings_ignore_update_version`, on a trimmed version. -/
def settingsIgnoreUpdateVersion (version : String) (data : VaultData) : AppResult VaultData := do
  let versions := data.settings.ignoredUpdateVersions
  let versions := if version ∈ versions then versions else versions ++ [version]
  let data := { data with settings := { data.settings with ignoredUpdateVersions := versions } }
  validateSettings data.settings
  return data

/-- The sections of the connection list that are not groups. -/
def allowedBuiltin : List String :=
  ["favorites", "recent", "ungrouped", "all"]

/-- The sections that `connection_section_state_update` keeps: known ones, once each. -/
def normalizeSections (data : VaultData) (sectionIds : List String) : List String :=
  sectionIds.foldl
    (fun normalized sectionId =>
      let sectionId := Text.trim sectionId
      if (sectionId ∈ allowedBuiltin ∨ sectionId ∈ data.groups.map SessionGroup.id) ∧
          sectionId ∉ normalized then
        normalized ++ [sectionId]
      else normalized) []

/-- `connection_section_state_update`. -/
def connectionSectionStateUpdate (collapsedSectionIds : List String) (data : VaultData) :
    AppResult VaultData := do
  let normalized := normalizeSections data collapsedSectionIds
  validateCollapsedConnectionSectionIds normalized
  return { data with settings := { data.settings with collapsedConnectionSectionIds := normalized }
    }

/-! ### Tunnels -/

/-- The first tunnel with the id changes. -/
def updateTunnelById (tunnelId : String) (f : TunnelConfig → TunnelConfig) (data : VaultData) :
    AppResult VaultData :=
  match FirstMatch.modify (fun tunnel => tunnel.id = tunnelId) f data.tunnels with
  | some tunnels => .ok { data with tunnels := tunnels }
  | none => .error (.notFound s!"隧道 {tunnelId}")

/-- `create_tunnel`. -/
def createTunnel (env : Env) (input : TunnelInput) (data : VaultData) : AppResult VaultData := do
  validateTunnelInput data input
  return { data with tunnels := data.tunnels ++ [.new env.now env.newId input] }

/-- `set_tunnel_enabled`, when the tunnel is not as requested already. -/
def setTunnelEnabled (env : Env) (tunnelId : String) (enabled : Bool) :
    VaultData → AppResult VaultData :=
  updateTunnelById tunnelId fun tunnel => { tunnel with enabled := enabled, updatedAt := env.now }

/-- `update_tunnel`. -/
def updateTunnel (env : Env) (tunnelId : String) (input : TunnelInput) (data : VaultData) :
    AppResult VaultData := do
  validateTunnelInput data input
  updateTunnelById tunnelId (TunnelConfig.update env.now input) data

/-- `delete_tunnel`. -/
def deleteTunnel (tunnelId : String) (data : VaultData) : AppResult VaultData := do
  let tunnels := data.tunnels.filter fun tunnel => tunnel.id ≠ tunnelId
  refuse (data.tunnels.length = tunnels.length) (.notFound s!"隧道 {tunnelId}")
  return { data with tunnels := tunnels }

/-! ### Backup records and known hosts -/

/-- `replace_backup_records`. -/
def replaceBackupRecords (env : Env) (records : List BackupRecord) (data : VaultData) :
    AppResult VaultData :=
  return pruneBackupRecords env { data with backupRecords := records }

/-- `delete_backup_record`. -/
def deleteBackupRecord (recordId : String) (data : VaultData) : AppResult VaultData := do
  refuse (recordId ∉ data.backupRecords.map BackupRecord.id) (.notFound s!"备份记录 {recordId}")
  return { data with backupRecords := data.backupRecords.eraseP fun record => record.id = recordId }

/-- The list with the entry of its host and port replaced, or added. -/
def upsertKnownHost (entry : KnownHostEntry) (knownHosts : List KnownHostEntry) :
    List KnownHostEntry :=
  (FirstMatch.modify (fun known => known.host = entry.host && known.port = entry.port)
    (fun _ => entry) knownHosts).getD (knownHosts ++ [entry])

/-- `trust_host_key`. -/
def trustHostKey (env : Env) (sessionId host : String) (port : UInt16)
    (algorithm fingerprint : String) (data : VaultData) : AppResult VaultData :=
  match data.sessions.find? fun session => session.id = sessionId with
  | none => .error (.notFound s!"会话 {sessionId}")
  | some session => do
    refuse (session.host ≠ host ∨ session.port ≠ port)
      (.invalidInput "会话地址已变化，请重新连接并确认主机密钥")
    let trust (session : SessionConfig) : SessionConfig :=
      { session with ssh := { session.ssh with hostKeyFingerprint := some fingerprint } }
    let entry : KnownHostEntry :=
      { host := session.host, port := port, algorithm := algorithm, fingerprint := fingerprint,
        trustedAt := env.now }
    return { data with
      sessions := (FirstMatch.modify (fun session => session.id = sessionId) trust
        data.sessions).getD data.sessions
      knownHosts := upsertKnownHost entry data.knownHosts }

/-! ### Groups -/

/-- `create_group`. -/
def createGroup (env : Env) (input : GroupInput) (data : VaultData) : AppResult VaultData := do
  validateGroupInput data none input
  let sortOrder := UInt32.ofNat data.groups.length
  return { data with groups := data.groups ++ [.new env.now env.newId input sortOrder] }

/-- `update_group`. -/
def updateGroup (env : Env) (groupId : String) (input : GroupInput) (data : VaultData) :
    AppResult VaultData := do
  validateGroupInput data (some groupId) input
  match FirstMatch.modify (fun group => group.id = groupId) (SessionGroup.update env.now input)
      data.groups with
  | some groups => .ok { data with groups := groups }
  | none => .error (.notFound s!"分组 {groupId}")

/-- `delete_group`. -/
def deleteGroup (groupId : String) (data : VaultData) : AppResult VaultData := do
  refuse (data.isDefaultGroupId groupId = true) (.invalidInput "默认分组不允许删除")
  let groups := data.groups.filter fun group => group.id ≠ groupId
  refuse (data.groups.length = groups.length) (.notFound s!"分组 {groupId}")
  return { data with
    groups := groups.map fun group =>
      if group.parentId = some groupId then { group with parentId := none } else group
    sessions := data.sessions.map fun session =>
      if session.groupId = some groupId then { session with groupId := data.defaultGroupId }
      else session
    settings :=
      { data.settings with
        collapsedConnectionSectionIds :=
          data.settings.collapsedConnectionSectionIds.filter fun sectionId =>
            sectionId ≠ groupId } }

/-! ### Sessions -/

/-- The first session with the id changes. -/
def updateSessionById (sessionId : String) (f : SessionConfig → SessionConfig) (data : VaultData) :
    AppResult VaultData :=
  match FirstMatch.modify (fun session => session.id = sessionId) f data.sessions with
  | some sessions => .ok { data with sessions := sessions }
  | none => .error (.notFound s!"会话 {sessionId}")

/-- `create_session`. -/
def createSession (env : Env) (input : SessionInput) (data : VaultData) : AppResult VaultData := do
  validateSessionInput data none input
  return { data with sessions := data.sessions ++ [.new env.now env.newId input] }

/-- `update_session`. -/
def updateSession (env : Env) (sessionId : String) (input : SessionInput) (data : VaultData) :
    AppResult VaultData := do
  validateSessionInput data (some sessionId) input
  updateSessionById sessionId (SessionConfig.update env.now input) data

/-- `set_session_favorite`. -/
def setSessionFavorite (env : Env) (sessionId : String) (favorite : Bool) :
    VaultData → AppResult VaultData :=
  updateSessionById sessionId fun session =>
    { session with favorite := favorite, updatedAt := env.now }

/-- `u64::saturating_add(1)`. -/
def saturatingSucc (n : UInt64) : UInt64 :=
  if n.toNat + 1 < UInt64.size then n + 1 else n

/-- `mark_session_recent`. -/
def markSessionRecent (env : Env) (sessionId : String) : VaultData → AppResult VaultData :=
  updateSessionById sessionId fun session =>
    { session with
      lastConnectedAt := some env.now
      connectionCount := saturatingSucc session.connectionCount }

/-- `clear_session_recent`. -/
def clearSessionRecent (sessionId : String) : VaultData → AppResult VaultData :=
  updateSessionById sessionId fun session =>
    { session with lastConnectedAt := none, connectionCount := 0 }

/-- What `delete_session` makes of the API settings: the session is taken out; when
none is left and an older build had authorized another one, that one is taken in. -/
def forgetApiSession (sessionId : String) (sessions : List SessionConfig) (settings : AppSettings) :
    AppSettings :=
  let kept := settings.aiApiSessionIds.filter fun id => id ≠ sessionId
  let kept :=
    if kept = [] ∧ settings.aiApiSessionId ≠ some sessionId then
      settings.aiApiSessionId.toList.filter fun id => id ∈ sessions.map SessionConfig.id
    else kept
  { settings with
    aiApiSessionIds := kept
    aiApiSessionId := kept.head?
    aiApiAutoStart := settings.aiApiAutoStart && !kept.isEmpty }

/-- `delete_session`. -/
def deleteSession (sessionId : String) (data : VaultData) : AppResult VaultData := do
  let sessions := data.sessions.filter fun session => session.id ≠ sessionId
  refuse (data.sessions.length = sessions.length) (.notFound s!"会话 {sessionId}")
  return { data with
    sessions := sessions
    tunnels := data.tunnels.filter fun tunnel => tunnel.sessionId ≠ sessionId
    settings := forgetApiSession sessionId sessions data.settings }

/-! ### All operations -/

/-- The operations that go through `mutate`. -/
inductive VaultOp where
  | settingsProxyUpdate (proxy : Option AppProxyOptions)
  | settingsBackupUpdate (backup : BackupSettings)
  | quickCommandUpsert (command : QuickCommand)
  | quickCommandDelete (commandId : String)
  | settingsAiApiUpdate (settings : AiApiSettingsUpdate)
  | settingsAiApiKeyUpdate (apiKey : Option String)
  | settingsIgnoreUpdateVersion (version : String)
  | connectionSectionStateUpdate (collapsedSectionIds : List String)
  | createTunnel (input : TunnelInput)
  | setTunnelEnabled (tunnelId : String) (enabled : Bool)
  | updateTunnel (tunnelId : String) (input : TunnelInput)
  | deleteTunnel (tunnelId : String)
  | replaceBackupRecords (records : List BackupRecord)
  | deleteBackupRecord (recordId : String)
  | trustHostKey (sessionId host : String) (port : UInt16) (algorithm fingerprint : String)
  | createGroup (input : GroupInput)
  | updateGroup (groupId : String) (input : GroupInput)
  | deleteGroup (groupId : String)
  | createSession (input : SessionInput)
  | updateSession (sessionId : String) (input : SessionInput)
  | setSessionFavorite (sessionId : String) (favorite : Bool)
  | markSessionRecent (sessionId : String)
  | clearSessionRecent (sessionId : String)
  | deleteSession (sessionId : String)

namespace VaultOp

/-- What a method refuses before it looks at the workspace. -/
def check : VaultOp → AppResult Unit
  | .quickCommandUpsert command =>
    refuse ((trimQuickCommand command).id = "") (.invalidInput "常用命令 ID 不能为空")
  | .quickCommandDelete commandId =>
    refuse (Text.isBlank commandId = true) (.invalidInput "常用命令 ID 不能为空")
  | .settingsIgnoreUpdateVersion version =>
    refuse (trimVersion version = "") (.invalidInput "忽略版本不能为空")
  | _ => .ok ()

/-- The workspace is as requested already. -/
def isNoop (data : VaultData) : VaultOp → Bool
  | .setTunnelEnabled tunnelId enabled =>
    data.tunnels.any fun tunnel => tunnel.id = tunnelId && tunnel.enabled = enabled
  | _ => false

/-- The closure that a method hands to `mutate`. -/
def update (env : Env) : VaultOp → VaultData → AppResult VaultData
  | .settingsProxyUpdate proxy => Vault.settingsProxyUpdate proxy
  | .settingsBackupUpdate backup => Vault.settingsBackupUpdate env backup
  | .quickCommandUpsert command => Vault.quickCommandUpsert (trimQuickCommand command)
  | .quickCommandDelete commandId => Vault.quickCommandDelete (Text.trim commandId)
  | .settingsAiApiUpdate settings => Vault.settingsAiApiUpdate settings
  | .settingsAiApiKeyUpdate apiKey => Vault.settingsAiApiKeyUpdate apiKey
  | .settingsIgnoreUpdateVersion version =>
    Vault.settingsIgnoreUpdateVersion (trimVersion version)
  | .connectionSectionStateUpdate collapsed => Vault.connectionSectionStateUpdate collapsed
  | .createTunnel input => Vault.createTunnel env input
  | .setTunnelEnabled tunnelId enabled => Vault.setTunnelEnabled env tunnelId enabled
  | .updateTunnel tunnelId input => Vault.updateTunnel env tunnelId input
  | .deleteTunnel tunnelId => Vault.deleteTunnel tunnelId
  | .replaceBackupRecords records => Vault.replaceBackupRecords env records
  | .deleteBackupRecord recordId => Vault.deleteBackupRecord recordId
  | .trustHostKey sessionId host port algorithm fingerprint =>
    Vault.trustHostKey env sessionId host port algorithm fingerprint
  | .createGroup input => Vault.createGroup env input
  | .updateGroup groupId input => Vault.updateGroup env groupId input
  | .deleteGroup groupId => Vault.deleteGroup groupId
  | .createSession input => Vault.createSession env input
  | .updateSession sessionId input => Vault.updateSession env sessionId input
  | .setSessionFavorite sessionId favorite => Vault.setSessionFavorite env sessionId favorite
  | .markSessionRecent sessionId => Vault.markSessionRecent env sessionId
  | .clearSessionRecent sessionId => Vault.clearSessionRecent sessionId
  | .deleteSession sessionId => Vault.deleteSession sessionId

end VaultOp

end Vault
end HelmSsh
