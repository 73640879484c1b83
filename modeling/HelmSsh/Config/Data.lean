/-
# The configuration data

The records of `src-tauri/src/config.rs`: everything a workspace stores, with the
defaults of its settings, the construction and the update of groups, sessions and
tunnels from their inputs, and the migration of older data.

`now()` and `Uuid::new_v4()` are arguments here: the time of a change, as the text
that is stored, and the new id.
-/

import HelmSsh.Errors
import HelmSsh.Text

namespace HelmSsh
namespace Config

/-! ### Groups and sessions -/

/-- `SessionGroup`. -/
structure SessionGroup where
  id : String
  name : String
  parentId : Option String
  sortOrder : UInt32
  createdAt : String
  updatedAt : String
  deriving DecidableEq

/-- `GroupInput`. -/
structure GroupInput where
  name : String
  parentId : Option String
  deriving DecidableEq

/-- `AuthMethod`. -/
inductive AuthMethod where
  | password
  | privateKey
  deriving DecidableEq

/-- `AuthConfig`. -/
structure AuthConfig where
  method : AuthMethod
  password : Option String
  privateKeyPath : Option String
  importedPrivateKey : Option String
  privateKeyPassphrase : Option String
  deriving DecidableEq

/-- `TerminalOptions`, with its `Default`. -/
structure TerminalOptions where
  encoding : String := "utf-8"
  theme : String := "default"
  keepaliveIntervalSec : UInt16 := 15
  deriving DecidableEq

/-- `SshProxyOptions`. -/
structure SshProxyOptions where
  kind : String
  host : String
  port : UInt16
  deriving DecidableEq

/-- `SshOptions`, with its `Default`. -/
structure SshOptions where
  connectTimeoutMs : UInt64 := 10000
  keepaliveIntervalSec : UInt16 := 15
  hostKeyFingerprint : Option String := none
  proxy : Option SshProxyOptions := none
  deriving DecidableEq

/-- `SftpOptions`, with its `Default`. -/
structure SftpOptions where
  defaultPath : String := ""
  showHidden : Bool := false
  deriving DecidableEq

/-- `SessionConfig`. -/
structure SessionConfig where
  id : String
  name : String
  groupId : Option String
  favorite : Bool
  lastConnectedAt : Option String
  connectionCount : UInt64
  host : String
  port : UInt16
  username : String
  auth : AuthConfig
  ssh : SshOptions
  defaultPath : String
  tags : List String
  note : Option String
  terminal : TerminalOptions
  sftp : SftpOptions
  createdAt : String
  updatedAt : String
  deriving DecidableEq

/-- `SessionInput`. -/
structure SessionInput where
  name : String
  groupId : Option String
  host : String
  port : UInt16
  username : String
  auth : AuthConfig
  ssh : SshOptions
  defaultPath : String
  tags : List String
  note : Option String
  terminal : TerminalOptions
  sftp : SftpOptions
  deriving DecidableEq

/-- `KnownHostEntry`. -/
structure KnownHostEntry where
  host : String
  port : UInt16
  algorithm : String
  fingerprint : String
  trustedAt : String
  deriving DecidableEq

/-! ### Tunnels -/

/-- `TunnelConfig`. -/
structure TunnelConfig where
  id : String
  /-- User intent, preserved across disconnects and application restarts. -/
  enabled : Bool
  name : String
  sessionId : String
  forwardType : String
  bindHost : String
  bindPort : UInt16
  targetHost : String
  targetPort : UInt16
  createdAt : String
  updatedAt : String
  deriving DecidableEq

/-- `TunnelInput`. -/
structure TunnelInput where
  name : String
  sessionId : String
  forwardType : String
  bindHost : String
  bindPort : UInt16
  targetHost : String
  targetPort : UInt16
  deriving DecidableEq

/-! ### Settings -/

/-- `AppProxyOptions`. -/
structure AppProxyOptions where
  enabled : Bool
  kind : String
  host : String
  port : UInt16
  deriving DecidableEq

/-- `QuickCommand`. -/
structure QuickCommand where
  id : String
  name : String
  command : String
  createdAt : Option String
  updatedAt : Option String
  deriving DecidableEq

/-- `WebdavBackupConfig`, with its `Default`. -/
structure WebdavBackupConfig where
  endpoint : String := ""
  username : String := ""
  password : String := ""
  remotePath : String := ""
  deriving DecidableEq

/-- `S3BackupConfig`, with its `Default`. -/
structure S3BackupConfig where
  endpoint : String := ""
  region : String := "us-east-1"
  bucket : String := ""
  accessKeyId : String := ""
  secretAccessKey : String := ""
  keyPrefix : String := ""
  pathStyle : Bool := false
  deriving DecidableEq

/-- `CloudBackupSettings`, with its `Default`. -/
structure CloudBackupSettings where
  enabled : Bool := false
  autoEnabled : Bool := false
  kind : String := "webdav"
  webdav : WebdavBackupConfig := {}
  s3 : S3BackupConfig := {}
  deriving DecidableEq

/-- `BackupSettings`, with its `Default`. -/
structure BackupSettings where
  localDirectory : Option String := none
  autoEnabled : Bool := false
  frequency : String := "daily"
  retentionCount : UInt16 := 10
  retentionDays : UInt16 := 30
  cloud : CloudBackupSettings := {}
  deriving DecidableEq

/-- `AppSettings`, with its `Default`. -/
structure AppSettings where
  proxy : Option AppProxyOptions := none
  backup : BackupSettings := {}
  quickCommands : List QuickCommand := []
  ignoredUpdateVersions : List String := []
  aiApiKey : Option String := none
  /-- The first of `aiApiSessionIds`, for older builds. -/
  aiApiSessionId : Option String := none
  aiApiSessionIds : List String := []
  aiApiPort : Option UInt16 := none
  aiApiAutoStart : Bool := false
  collapsedConnectionSectionIds : List String := []
  deriving DecidableEq

/-- `BackupRecord`. -/
structure BackupRecord where
  id : String
  fileName : String
  targetKind : String
  targetPath : String
  size : UInt64
  status : String
  error : Option String
  createdAt : String
  deriving DecidableEq

/-! ### The workspace -/

/-- `VAULT_DATA_VERSION`. -/
def vaultDataVersion : UInt16 := 2

/-- `DEFAULT_GROUP_NAME`. -/
def defaultGroupName : String := "默认分组"

/-- `VaultData`. -/
structure VaultData where
  version : UInt16
  groups : List SessionGroup
  sessions : List SessionConfig
  knownHosts : List KnownHostEntry
  settings : AppSettings
  tunnels : List TunnelConfig
  backupRecords : List BackupRecord
  updatedAt : String
  deriving DecidableEq

/-- `SessionGroup::new`. -/
def SessionGroup.new (now id : String) (input : GroupInput) (sortOrder : UInt32) : SessionGroup :=
  { id := id, name := Text.trim input.name, parentId := input.parentId, sortOrder := sortOrder,
    createdAt := now, updatedAt := now }

/-- `SessionGroup::update`. -/
def SessionGroup.update (now : String) (input : GroupInput) (group : SessionGroup) : SessionGroup :=
  { group with name := Text.trim input.name, parentId := input.parentId, updatedAt := now }

/-- `clean_tags`: trimmed, without blanks and repetitions. -/
def cleanTags (tags : List String) : List String :=
  tags.foldl
    (fun cleaned tag =>
      let value := Text.trim tag
      if value ≠ "" ∧ value ∉ cleaned then cleaned ++ [value] else cleaned) []

/-- One segment of a path: `.` and the empty one are skipped, `..` drops the last. -/
def pushSegment (parts : List String) (part : String) : List String :=
  if part = "" ∨ part = "." then parts
  else if part = ".." then parts.dropLast
  else parts ++ [part]

/-- `normalize_remote_path`. -/
def normalizeRemotePath (path : String) : String :=
  if Text.isBlank path then ""
  else
    let parts := (Text.split path '/').foldl pushSegment []
    if parts = [] then "/" else "/" ++ Text.join parts "/"

/-- `SessionConfig::new`. -/
def SessionConfig.new (now id : String) (input : SessionInput) : SessionConfig :=
  { id := id
    name := Text.trim input.name
    groupId := input.groupId
    favorite := false
    lastConnectedAt := none
    connectionCount := 0
    host := Text.trim input.host
    port := input.port
    username := Text.trim input.username
    auth := input.auth
    ssh := input.ssh
    defaultPath := normalizeRemotePath input.defaultPath
    tags := cleanTags input.tags
    note := input.note.filter fun note => !Text.isBlank note
    terminal := input.terminal
    sftp := input.sftp
    createdAt := now
    updatedAt := now }

/-- `SessionConfig::update`. -/
def SessionConfig.update (now : String) (input : SessionInput) (session : SessionConfig) :
    SessionConfig :=
  { session with
    name := Text.trim input.name
    groupId := input.groupId
    host := Text.trim input.host
    port := input.port
    username := Text.trim input.username
    auth := input.auth
    ssh := input.ssh
    defaultPath := normalizeRemotePath input.defaultPath
    tags := cleanTags input.tags
    note := input.note.filter fun note => !Text.isBlank note
    terminal := input.terminal
    sftp := input.sftp
    updatedAt := now }

/-- `TunnelConfig::new`. -/
def TunnelConfig.new (now id : String) (input : TunnelInput) : TunnelConfig :=
  { id := id
    enabled := false
    name := Text.trim input.name
    sessionId := input.sessionId
    forwardType := input.forwardType
    bindHost := Text.trim input.bindHost
    bindPort := input.bindPort
    targetHost := Text.trim input.targetHost
    targetPort := input.targetPort
    createdAt := now
    updatedAt := now }

/-- `TunnelConfig::update`. -/
def TunnelConfig.update (now : String) (input : TunnelInput) (tunnel : TunnelConfig) :
    TunnelConfig :=
  { tunnel with
    name := Text.trim input.name
    sessionId := input.sessionId
    forwardType := input.forwardType
    bindHost := Text.trim input.bindHost
    bindPort := input.bindPort
    targetHost := Text.trim input.targetHost
    targetPort := input.targetPort
    updatedAt := now }

namespace VaultData

/-- `touch`. -/
def touch (now : String) (data : VaultData) : VaultData :=
  { data with updatedAt := now }

/-- `empty`. -/
def empty (now : String) : VaultData :=
  { version := vaultDataVersion, groups := [], sessions := [], knownHosts := [], settings := {},
    tunnels := [], backupRecords := [], updatedAt := now }

/-- `with_default_group`. -/
def withDefaultGroup (now id : String) : VaultData :=
  { empty now with
    groups := [.new now id { name := defaultGroupName, parentId := none } 0] }

/-- `default_group_id`: the first group in the order, or else the first one. -/
def defaultGroupId (data : VaultData) : Option String :=
  ((data.groups.find? fun group => group.sortOrder = 0).or data.groups.head?).map SessionGroup.id

/-- `is_default_group_id`. -/
def isDefaultGroupId (data : VaultData) (groupId : String) : Bool :=
  data.defaultGroupId = some groupId

end VaultData

/-- The first part of `migrate_vault_data`: the version, and the one session that older
builds had authorized. -/
def migrateSessionIds (data : VaultData) : VaultData :=
  let data :=
    if data.version < vaultDataVersion then { data with version := vaultDataVersion } else data
  if data.settings.aiApiSessionIds = [] then
    match (data.settings.aiApiSessionId.map Text.trim).filter fun id => id ≠ "" with
    | some id => { data with settings := { data.settings with aiApiSessionIds := [id] } }
    | none => data
  else data

/-- The rest of `migrate_vault_data` but its time stamp: the mirror and the automatic
start follow the list. -/
def migrateMirror (data : VaultData) : VaultData :=
  let ids := data.settings.aiApiSessionIds
  { data with
    settings :=
      { data.settings with
        aiApiSessionId := ids.head?
        aiApiAutoStart := data.settings.aiApiAutoStart && !ids.isEmpty } }

/-- `migrate_vault_data`, with whether it changed anything. -/
def migrateVaultData (now : String) (data : VaultData) : VaultData × Bool :=
  let migrated := migrateMirror (migrateSessionIds data)
  if migrated = data then (data, false) else (migrated.touch now, true)

end Config
end HelmSsh
