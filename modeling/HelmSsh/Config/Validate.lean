/-
# The validators of the configuration

The checks of `src-tauri/src/config.rs` on inputs and settings, with the texts of
their errors and in the order in which they are made.

* `validateGroupInput_ok`, `validateSessionInput_ok`, `validateTunnelInput_ok` — what
  an accepted input refers to exists.
* `validateSettings_quickCommands` — what accepted settings satisfy.
* `validateSettings_default` — the default settings pass their own check.
-/

import HelmSsh.Config.Data
import Mathlib.Data.List.Nodup

namespace HelmSsh
namespace Config

/-- `GROUP_NAME_MAX_HAN_CHARS`. -/
def groupNameMaxHanChars : ℕ := 8

/-- `GROUP_NAME_MAX_CHARS`. -/
def groupNameMaxChars : ℕ := 10

/-- `GROUP_CUSTOM_MAX_COUNT`. -/
def groupCustomMaxCount : ℕ := 10

/-- `COLLAPSED_CONNECTION_SECTION_MAX_COUNT`. -/
def collapsedConnectionSectionMaxCount : ℕ := 32

/-- `CONNECTION_SECTION_ID_MAX_CHARS`. -/
def connectionSectionIdMaxChars : ℕ := 128

/-- The input is refused with `error` when `bad` holds. -/
def refuse (bad : Prop) [Decidable bad] (error : AppError) : AppResult Unit :=
  if bad then .error error else .ok ()

theorem refuse_ok {bad : Prop} [Decidable bad] {error : AppError} {u : Unit}
    (h : refuse bad error = .ok u) : ¬bad := by
  intro hbad
  rw [refuse, if_pos hbad] at h
  cases h

theorem bind_ok {β γ : Type} {x : AppResult β} {f : β → AppResult γ} {c : γ}
    (h : x >>= f = .ok c) : ∃ b, x = .ok b ∧ f b = .ok c := by
  cases x with
  | error e => cases h
  | ok b => exact ⟨b, rfl, h⟩

/-! ### Groups -/

/-- `is_han_char`. -/
def isHanChar (c : Char) : Bool :=
  let n := c.toNat
  (0x3400 ≤ n && n ≤ 0x4dbf) || (0x4e00 ≤ n && n ≤ 0x9fff) || (0xf900 ≤ n && n ≤ 0xfaff) ||
    (0x20000 ≤ n && n ≤ 0x2a6df) || (0x2a700 ≤ n && n ≤ 0x2ebef) || (0x30000 ≤ n && n ≤ 0x3134f)

/-- `validate_group_name_length`. -/
def validateGroupNameLength (name : String) : AppResult Unit :=
  refuse (name.toList.countP isHanChar > groupNameMaxHanChars ∨
      Text.charCount name > groupNameMaxChars)
    (.invalidInput s!"分组名称不能超过 {groupNameMaxHanChars} 个汉字或 {groupNameMaxChars} 个字符")

/-- `custom_group_count`. -/
def customGroupCount (data : VaultData) : ℕ :=
  data.groups.countP fun group => some group.id ≠ data.defaultGroupId

/-- The check of a group's parent. -/
def validateParent (data : VaultData) (groupId : Option String) : Option String → AppResult Unit
  | none => .ok ()
  | some parentId => do
    refuse (some parentId = groupId) (.invalidInput "分组不能把自己设为上级")
    refuse (parentId ∉ data.groups.map SessionGroup.id) (.notFound s!"上级分组 {parentId}")

/-- `validate_group_input`. -/
def validateGroupInput (data : VaultData) (groupId : Option String) (input : GroupInput) :
    AppResult Unit := do
  refuse (groupId.any data.isDefaultGroupId = true) (.invalidInput "默认分组不允许重命名")
  refuse (Text.isBlank input.name = true) (.invalidInput "分组名称不能为空")
  validateGroupNameLength (Text.trim input.name)
  refuse (groupId = none ∧ customGroupCount data ≥ groupCustomMaxCount)
    (.invalidInput s!"自定义分组最多 {groupCustomMaxCount} 个")
  validateParent data groupId input.parentId

theorem validateGroupInput_ok {data : VaultData} {groupId : Option String} {input : GroupInput}
    (h : validateGroupInput data groupId input = .ok ()) :
    ∀ parentId ∈ input.parentId, parentId ∈ data.groups.map SessionGroup.id := by
  obtain ⟨_, _, h⟩ := bind_ok h
  obtain ⟨_, _, h⟩ := bind_ok h
  obtain ⟨_, _, h⟩ := bind_ok h
  obtain ⟨_, _, h⟩ := bind_ok h
  intro parentId hparent
  rw [Option.mem_def] at hparent
  rw [hparent, validateParent] at h
  obtain ⟨_, _, h⟩ := bind_ok h
  exact not_not.mp (refuse_ok h)

/-! ### Proxies -/

/-- `validate_proxy_fields`. -/
def validateProxyFields (enabled : Bool) (kind host : String) (port : UInt16) : AppResult Unit :=
  if !enabled then .ok ()
  else do
    refuse (kind ∉ ["socks5", "httpConnect"]) (.invalidInput "代理类型无效")
    refuse (Text.isBlank host = true) (.invalidInput "代理主机不能为空")
    refuse (port = 0) (.invalidInput "代理端口必须在 1-65535 之间")

/-- `validate_ssh_proxy`. -/
def validateSshProxy (proxy : SshProxyOptions) : AppResult Unit :=
  if proxy.kind = "direct" then .ok ()
  else validateProxyFields true proxy.kind proxy.host proxy.port

/-! ### Sessions -/

/-- The check of a session's group. -/
def validateGroup (data : VaultData) : Option String → AppResult Unit
  | none => .ok ()
  | some groupId =>
    refuse (groupId ∉ data.groups.map SessionGroup.id) (.notFound s!"分组 {groupId}")

/-- `validate_session_input`. -/
def validateSessionInput (data : VaultData) (sessionId : Option String) (input : SessionInput) :
    AppResult Unit := do
  refuse (Text.isBlank input.name = true) (.invalidInput "会话名称不能为空")
  refuse (Text.isBlank input.host = true) (.invalidInput "主机地址不能为空")
  refuse (input.port = 0) (.invalidInput "端口必须在 1-65535 之间")
  refuse (Text.isBlank input.username = true) (.invalidInput "用户名不能为空")
  validateGroup data input.groupId
  refuse (∃ session ∈ data.sessions, some session.id ≠ sessionId ∧
      session.name = Text.trim input.name) (.invalidInput "会话名称不能重复")
  input.ssh.proxy.elim (.ok ()) validateSshProxy

/-- The group of an accepted session exists, and no other session has its name. -/
theorem validateSessionInput_ok {data : VaultData} {sessionId : Option String}
    {input : SessionInput} (h : validateSessionInput data sessionId input = .ok ()) :
    (∀ groupId ∈ input.groupId, groupId ∈ data.groups.map SessionGroup.id) ∧
      ∀ session ∈ data.sessions, some session.id ≠ sessionId →
        session.name ≠ Text.trim input.name := by
  obtain ⟨_, _, h⟩ := bind_ok h
  obtain ⟨_, _, h⟩ := bind_ok h
  obtain ⟨_, _, h⟩ := bind_ok h
  obtain ⟨_, _, h⟩ := bind_ok h
  obtain ⟨_, hgroup, h⟩ := bind_ok h
  obtain ⟨_, hname, _⟩ := bind_ok h
  constructor
  · intro groupId hmem
    rw [Option.mem_def] at hmem
    rw [hmem, validateGroup] at hgroup
    exact not_not.mp (refuse_ok hgroup)
  · intro session hsession hid heq
    exact refuse_ok hname ⟨session, hsession, hid, heq⟩

/-! ### Tunnels -/

/-- `validate_tunnel_input`. -/
def validateTunnelInput (data : VaultData) (input : TunnelInput) : AppResult Unit := do
  refuse (Text.isBlank input.name = true) (.invalidInput "隧道名称不能为空")
  refuse (input.sessionId ∉ data.sessions.map SessionConfig.id) (.notFound s!"会话 {input.sessionId}")
  refuse (input.forwardType ∉ ["local", "remote", "dynamic"]) (.invalidInput "隧道类型无效")
  refuse (Text.isBlank input.bindHost = true) (.invalidInput "监听地址不能为空")
  refuse (input.forwardType ≠ "dynamic" ∧ Text.isBlank input.targetHost = true)
    (.invalidInput "目标地址不能为空")
  refuse (input.forwardType ≠ "dynamic" ∧ input.targetPort = 0)
    (.invalidInput "目标端口必须在 1-65535 之间")

theorem validateTunnelInput_ok {data : VaultData} {input : TunnelInput}
    (h : validateTunnelInput data input = .ok ()) :
    input.sessionId ∈ data.sessions.map SessionConfig.id := by
  obtain ⟨_, _, h⟩ := bind_ok h
  obtain ⟨_, hsession, _⟩ := bind_ok h
  exact not_not.mp (refuse_ok hsession)

/-! ### Settings -/

/-- `validate_collapsed_connection_section_ids`, on the ids behind those in `seen`. -/
def validateSectionIds (seen : List String) : List String → AppResult Unit
  | [] => .ok ()
  | sectionId :: rest => do
    let trimmed := Text.trim sectionId
    refuse (trimmed = "") (.invalidInput "连接分组标识不能为空")
    refuse (Text.charCount trimmed > connectionSectionIdMaxChars) (.invalidInput "连接分组标识过长")
    refuse (trimmed ∈ seen) (.invalidInput "连接分组折叠状态不能重复")
    validateSectionIds (seen ++ [trimmed]) rest

/-- `validate_collapsed_connection_section_ids`. -/
def validateCollapsedConnectionSectionIds (sectionIds : List String) : AppResult Unit := do
  refuse (sectionIds.length > collapsedConnectionSectionMaxCount)
    (.invalidInput s!"连接分组折叠状态最多保留 {collapsedConnectionSectionMaxCount} 项")
  validateSectionIds [] sectionIds

/-- `validate_quick_commands`, one by one. -/
def validateEachQuickCommand : List QuickCommand → AppResult Unit
  | [] => .ok ()
  | command :: rest => do
    refuse (Text.isBlank command.name = true) (.invalidInput "常用命令名称不能为空")
    refuse (Text.isBlank command.command = true) (.invalidInput "常用命令内容不能为空")
    validateEachQuickCommand rest

/-- `validate_quick_commands`. -/
def validateQuickCommands (commands : List QuickCommand) : AppResult Unit := do
  refuse (commands.length > 100) (.invalidInput "常用命令最多保留 100 条")
  validateEachQuickCommand commands

/-- The part of `validate_backup_settings` about the cloud. -/
def validateCloud (cloud : CloudBackupSettings) : AppResult Unit :=
  if cloud.kind = "webdav" then
    refuse (Text.isBlank cloud.webdav.endpoint = true) (.invalidInput "WebDAV 地址不能为空")
  else if cloud.kind = "s3" then
    refuse (Text.isBlank cloud.s3.endpoint = true ∨ Text.isBlank cloud.s3.region = true ∨
        Text.isBlank cloud.s3.bucket = true ∨ Text.isBlank cloud.s3.accessKeyId = true ∨
        Text.isBlank cloud.s3.secretAccessKey = true)
      (.invalidInput "S3 配置需要 endpoint、region、bucket、accessKeyId 和 secretAccessKey")
  else .error (.invalidInput "云端备份类型无效")

/-- `validate_backup_settings`. -/
def validateBackupSettings (settings : BackupSettings) : AppResult Unit := do
  refuse (settings.frequency ∉ ["manual", "hourly", "daily", "weekly"])
    (.invalidInput "自动备份频率无效")
  refuse (settings.retentionCount = 0) (.invalidInput "保留份数必须大于 0")
  refuse (settings.localDirectory.any Text.isBlank = true) (.invalidInput "本地备份目录不能为空")
  if !settings.cloud.enabled && !settings.cloud.autoEnabled then .ok ()
  else validateCloud settings.cloud

/-- The check of the application's proxy. -/
def validateAppProxy : Option AppProxyOptions → AppResult Unit
  | some proxy => validateProxyFields proxy.enabled proxy.kind proxy.host proxy.port
  | none => .ok ()

/-- `validate_settings`. -/
def validateSettings (settings : AppSettings) : AppResult Unit := do
  validateAppProxy settings.proxy
  validateBackupSettings settings.backup
  validateQuickCommands settings.quickCommands
  validateCollapsedConnectionSectionIds settings.collapsedConnectionSectionIds

theorem validateSettings_default : validateSettings {} = .ok () := by
  decide

theorem validateSettings_quickCommands {settings : AppSettings}
    (h : validateSettings settings = .ok ()) : settings.quickCommands.length ≤ 100 := by
  obtain ⟨_, _, h⟩ := bind_ok h
  obtain ⟨_, _, h⟩ := bind_ok h
  obtain ⟨_, hquick, _⟩ := bind_ok h
  obtain ⟨_, hlength, _⟩ := bind_ok hquick
  exact Nat.le_of_not_lt (refuse_ok hlength)

end Config
end HelmSsh
