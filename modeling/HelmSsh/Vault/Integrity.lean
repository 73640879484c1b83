/-
# The references of a workspace stay intact

A workspace refers to its own parts by id: tunnels to sessions, sessions and groups to
groups, the API settings to sessions, the folded sections of the connection list to
groups.  `Integrity` says that each of these references leads to something, that what
must be unique is unique, and that the bounds of the lists are kept.

`Consistent` is what the operations keep: `Integrity`, and that sessions have different
ids.  Here are the operations on settings and tunnels, in `HelmSsh.Vault.References` those
on sessions, known hosts and groups, and in `HelmSsh.Vault.Workspace` the runs.
-/

import HelmSsh.Vault.Operations

namespace HelmSsh
namespace Vault

open Config

/-! ### What is kept -/

/-- The groups that are named as parents exist. -/
def GroupsOk (groups : List SessionGroup) : Prop :=
  ∀ group ∈ groups, ∀ parentId ∈ group.parentId, parentId ∈ groups.map SessionGroup.id

/-- The sessions are in groups that exist, and their names are unique. -/
structure SessionsOk (groupIds : List String) (sessions : List SessionConfig) : Prop where
  groups : ∀ session ∈ sessions, ∀ groupId ∈ session.groupId, groupId ∈ groupIds
  names : (sessions.map SessionConfig.name).Nodup

/-- The tunnels lead through sessions that exist. -/
def TunnelsOk (sessionIds : List String) (tunnels : List TunnelConfig) : Prop :=
  ∀ tunnel ∈ tunnels, tunnel.sessionId ∈ sessionIds

/-- The sessions of the API are at most twenty different ones that exist, the field for
older builds is the first of them, and an automatic start has a session and a port. -/
structure ApiOk (sessionIds : List String) (settings : AppSettings) : Prop where
  distinct : settings.aiApiSessionIds.Nodup
  count : settings.aiApiSessionIds.length ≤ 20
  known : ∀ id ∈ settings.aiApiSessionIds, id ∈ sessionIds
  mirror : settings.aiApiSessionId = settings.aiApiSessionIds.head?
  autoStart : settings.aiApiAutoStart = true →
    settings.aiApiSessionIds ≠ [] ∧ ∃ port, settings.aiApiPort = some port ∧ 1024 ≤ port

/-- The folded sections are different ones that exist. -/
structure SectionsOk (groupIds sectionIds : List String) : Prop where
  distinct : sectionIds.Nodup
  known : ∀ id ∈ sectionIds, id ∈ allowedBuiltin ∨ id ∈ groupIds

/-- The quick commands are at most a hundred with different ids. -/
structure QuickCommandsOk (commands : List QuickCommand) : Prop where
  ids : (commands.map QuickCommand.id).Nodup
  count : commands.length ≤ 100

/-- The known hosts are unique by host and port. -/
def KnownHostsOk (knownHosts : List KnownHostEntry) : Prop :=
  (knownHosts.map fun known => (known.host, known.port)).Nodup

/-- **Referential integrity** of the data of a workspace. -/
structure Integrity (data : VaultData) : Prop where
  groups : GroupsOk data.groups
  sessions : SessionsOk (data.groups.map SessionGroup.id) data.sessions
  tunnels : TunnelsOk (data.sessions.map SessionConfig.id) data.tunnels
  api : ApiOk (data.sessions.map SessionConfig.id) data.settings
  sections : SectionsOk (data.groups.map SessionGroup.id)
    data.settings.collapsedConnectionSectionIds
  quickCommands : QuickCommandsOk data.settings.quickCommands
  knownHosts : KnownHostsOk data.knownHosts

/-- What the operations keep: beside the integrity, that the ids of the sessions are
different ones among those that were `issued`. -/
structure Consistent (issued : List String) (data : VaultData) : Prop extends Integrity data where
  sessionIds : (data.sessions.map SessionConfig.id).Nodup
  issuedIds : ∀ session ∈ data.sessions, session.id ∈ issued

variable {env : Env} {issued : List String} {data data' : VaultData}

theorem Consistent.mono {issued' : List String} (h : Consistent issued data)
    (hsub : ∀ id ∈ issued, id ∈ issued') : Consistent issued' data :=
  { h with issuedIds := fun session hsession => hsub _ (h.issuedIds session hsession) }

theorem Consistent.touch (h : Consistent issued data) (now : String) :
    Consistent issued (data.touch now) :=
  { h with }

/-- A workspace with nothing but its default group is consistent. -/
theorem consistent_withDefaultGroup (now id : String) :
    Consistent issued (VaultData.withDefaultGroup now id) where
  groups := by
    intro group hgroup parentId hparent
    have hroot : group.parentId = none := by
      rw [List.mem_singleton.mp hgroup, SessionGroup.new]
    rw [hroot] at hparent
    cases hparent
  sessions := ⟨fun _ h => absurd h List.not_mem_nil, List.nodup_nil⟩
  tunnels := fun _ h => absurd h List.not_mem_nil
  api := ⟨List.nodup_nil, Nat.zero_le _, fun _ h => absurd h List.not_mem_nil, rfl, nofun⟩
  sections := ⟨List.nodup_nil, fun _ h => absurd h List.not_mem_nil⟩
  quickCommands := ⟨List.nodup_nil, Nat.zero_le _⟩
  knownHosts := List.nodup_nil
  sessionIds := List.nodup_nil
  issuedIds := fun _ h => absurd h List.not_mem_nil

/-! ### Settings -/

/-- Settings that keep what the API and the list of sections refer to, and the bounds of
the quick commands, can take the place of the present ones. -/
theorem Consistent.withSettings (h : Consistent issued data) {settings : AppSettings}
    (hapi : ApiOk (data.sessions.map SessionConfig.id) settings)
    (hsections : SectionsOk (data.groups.map SessionGroup.id)
      settings.collapsedConnectionSectionIds)
    (hquick : QuickCommandsOk settings.quickCommands) :
    Consistent issued { data with settings := settings } :=
  { h with api := hapi, sections := hsections, quickCommands := hquick }

theorem ApiOk.congr {sessionIds : List String} {settings settings' : AppSettings}
    (h : ApiOk sessionIds settings) (hids : settings'.aiApiSessionIds = settings.aiApiSessionIds)
    (hid : settings'.aiApiSessionId = settings.aiApiSessionId)
    (hport : settings'.aiApiPort = settings.aiApiPort)
    (hstart : settings'.aiApiAutoStart = settings.aiApiAutoStart) : ApiOk sessionIds settings' where
  distinct := by rw [hids]; exact h.distinct
  count := by rw [hids]; exact h.count
  known := by rw [hids]; exact h.known
  mirror := by rw [hid, hids]; exact h.mirror
  autoStart := by rw [hstart, hids, hport]; exact h.autoStart

theorem Consistent.withRecords (h : Consistent issued data) (records : List BackupRecord) :
    Consistent issued { data with backupRecords := records } :=
  { h with }

/-- The accepted sessions of the API are different, at most twenty and known. -/
theorem acceptSessionIds_ok {accepted sessionIds ids : List String}
    (hdistinct : accepted.Nodup) (hcount : accepted.length ≤ 20)
    (hknown : ∀ id ∈ accepted, id ∈ data.sessions.map SessionConfig.id)
    (h : acceptSessionIds data accepted sessionIds = .ok ids) :
    ids.Nodup ∧ ids.length ≤ 20 ∧ ∀ id ∈ ids, id ∈ data.sessions.map SessionConfig.id := by
  induction sessionIds generalizing accepted with
  | nil =>
    obtain rfl := Except.ok.inj h
    exact ⟨hdistinct, hcount, hknown⟩
  | cons sessionId rest ih =>
    rw [acceptSessionIds] at h
    split_ifs at h with hskip
    · exact ih hdistinct hcount hknown h
    · obtain ⟨_, hroom, h⟩ := bind_ok h
      obtain ⟨_, hsession, h⟩ := bind_ok h
      have hnew : Text.trim sessionId ∉ accepted := fun hmem => hskip (.inr hmem)
      refine ih ?_ ?_ ?_ h
      · rw [List.nodup_append]
        refine ⟨hdistinct, List.nodup_singleton _, fun a ha b hb => ?_⟩
        obtain rfl := List.mem_singleton.mp hb
        exact fun heq => hnew (heq ▸ ha)
      · rw [List.length_append, List.length_singleton]
        have := refuse_ok hroom
        omega
      · intro id hid
        rcases List.mem_append.mp hid with hid | hid
        · exact hknown id hid
        · obtain rfl := List.mem_singleton.mp hid
          exact not_not.mp (refuse_ok hsession)

theorem settingsProxyUpdate_ok {proxy : Option AppProxyOptions} (h : Consistent issued data)
    (hok : settingsProxyUpdate proxy data = .ok data') : Consistent issued data' := by
  obtain ⟨_, _, hok⟩ := bind_ok hok
  obtain rfl := Except.ok.inj hok
  exact h.withSettings (h.api.congr rfl rfl rfl rfl) h.sections h.quickCommands

/-- `settings_backup_update` keeps the workspace consistent. -/
theorem settingsBackupUpdate_ok {backup : BackupSettings} (h : Consistent issued data)
    (hok : settingsBackupUpdate env backup data = .ok data') : Consistent issued data' := by
  obtain ⟨_, _, hok⟩ := bind_ok hok
  obtain rfl := Except.ok.inj hok
  have hset : Consistent issued { data with settings := { data.settings with backup := backup } } :=
    h.withSettings (h.api.congr rfl rfl rfl rfl) h.sections h.quickCommands
  exact hset.withRecords _

theorem upsertQuickCommand_ids {command : QuickCommand} {commands : List QuickCommand}
    (h : (commands.map QuickCommand.id).Nodup) :
    ((upsertQuickCommand command commands).map QuickCommand.id).Nodup := by
  rw [upsertQuickCommand]
  split
  · rename_i changed hmodify
    have hids : changed.map QuickCommand.id = commands.map QuickCommand.id := by
      refine FirstMatch.map_modify (fun existing hp => ?_) hmodify
      exact (of_decide_eq_true hp).symm
    rw [hids]
    exact h
  · rename_i hnone
    have hnew : ((commands ++ [command]).map QuickCommand.id).Nodup := by
      rw [List.map_append, List.nodup_append]
      refine ⟨h, List.nodup_singleton _, fun id hid id' hid' heq => ?_⟩
      obtain ⟨existing, hexisting, rfl⟩ := List.mem_map.mp hid
      obtain rfl := List.mem_singleton.mp hid'
      have := FirstMatch.modify_eq_none hnone existing hexisting
      rw [decide_eq_false_iff_not] at this
      exact this heq
    exact hnew.sublist ((List.drop_sublist _ _).map _)

theorem quickCommandUpsert_ok {command : QuickCommand} (h : Consistent issued data)
    (hok : quickCommandUpsert command data = .ok data') : Consistent issued data' := by
  obtain ⟨_, hvalid, hok⟩ := bind_ok hok
  obtain rfl := Except.ok.inj hok
  exact h.withSettings (h.api.congr rfl rfl rfl rfl) h.sections
    ⟨upsertQuickCommand_ids h.quickCommands.ids, validateSettings_quickCommands hvalid⟩

/-- `quick_command_delete` keeps the workspace consistent. -/
theorem quickCommandDelete_ok {commandId : String} (h : Consistent issued data)
    (hok : quickCommandDelete commandId data = .ok data') : Consistent issued data' := by
  obtain ⟨_, _, hok⟩ := bind_ok hok
  obtain ⟨_, _, hok⟩ := bind_ok hok
  obtain rfl := Except.ok.inj hok
  refine h.withSettings (h.api.congr rfl rfl rfl rfl) h.sections ⟨?_, ?_⟩
  · exact h.quickCommands.ids.sublist (List.filter_sublist.map _)
  · exact (List.length_filter_le _ _).trans h.quickCommands.count

/-- `settings_ai_api_update` keeps the workspace consistent. -/
theorem settingsAiApiUpdate_ok {settings : AiApiSettingsUpdate} (h : Consistent issued data)
    (hok : settingsAiApiUpdate settings data = .ok data') : Consistent issued data' := by
  obtain ⟨_, hport, hok⟩ := bind_ok hok
  obtain ⟨ids, hids, hok⟩ := bind_ok hok
  obtain ⟨_, hstart, hok⟩ := bind_ok hok
  obtain ⟨_, _, hok⟩ := bind_ok hok
  obtain rfl := Except.ok.inj hok
  obtain ⟨hdistinct, hcount, hknown⟩ :=
    acceptSessionIds_ok List.nodup_nil (Nat.zero_le _) (fun _ h => absurd h List.not_mem_nil) hids
  refine h.withSettings ⟨hdistinct, hcount, hknown, rfl, fun hauto => ?_⟩ h.sections
    h.quickCommands
  have hready := refuse_ok hstart
  obtain ⟨hne, port, hsome⟩ : ids ≠ [] ∧ ∃ port, settings.port = some port := by
    refine ⟨fun hnil => hready ⟨hauto, .inl hnil⟩, ?_⟩
    exact Option.ne_none_iff_exists'.mp fun hnone => hready ⟨hauto, .inr hnone⟩
  refine ⟨hne, port, hsome, ?_⟩
  have hbound := refuse_ok hport
  rw [hsome, Option.any_some, decide_eq_true_eq] at hbound
  exact UInt16.not_lt.mp hbound

theorem settingsAiApiKeyUpdate_ok {apiKey : Option String} (h : Consistent issued data)
    (hok : settingsAiApiKeyUpdate apiKey data = .ok data') : Consistent issued data' := by
  obtain ⟨_, _, hok⟩ := bind_ok hok
  obtain rfl := Except.ok.inj hok
  exact h.withSettings (h.api.congr rfl rfl rfl rfl) h.sections h.quickCommands

theorem settingsIgnoreUpdateVersion_ok {version : String} (h : Consistent issued data)
    (hok : settingsIgnoreUpdateVersion version data = .ok data') : Consistent issued data' := by
  obtain ⟨_, _, hok⟩ := bind_ok hok
  obtain rfl := Except.ok.inj hok
  exact h.withSettings (h.api.congr rfl rfl rfl rfl) h.sections h.quickCommands

/-- The sections that are kept are different ones that exist. -/
theorem normalizeSections_ok (sectionIds : List String) :
    SectionsOk (data.groups.map SessionGroup.id) (normalizeSections data sectionIds) := by
  refine List.foldlRecOn sectionIds _ ⟨List.nodup_nil, fun _ h => absurd h List.not_mem_nil⟩ ?_
  intro normalized hok sectionId _
  dsimp only
  split_ifs with hkeep
  · obtain ⟨hknown, hnew⟩ := hkeep
    constructor
    · rw [List.nodup_append]
      refine ⟨hok.distinct, List.nodup_singleton _, fun a ha b hb heq => ?_⟩
      obtain rfl := List.mem_singleton.mp hb
      exact hnew (heq ▸ ha)
    · intro id hid
      rcases List.mem_append.mp hid with hid | hid
      · exact hok.known id hid
      · obtain rfl := List.mem_singleton.mp hid
        exact hknown
  · exact hok

/-- `connection_section_state_update` keeps the workspace consistent. -/
theorem connectionSectionStateUpdate_ok {sectionIds : List String} (h : Consistent issued data)
    (hok : connectionSectionStateUpdate sectionIds data = .ok data') :
    Consistent issued data' := by
  obtain ⟨_, _, hok⟩ := bind_ok hok
  obtain rfl := Except.ok.inj hok
  exact h.withSettings (h.api.congr rfl rfl rfl rfl) (normalizeSections_ok sectionIds)
    h.quickCommands

/-! ### Tunnels -/

/-- A tunnel may change as long as its session is one that exists. -/
theorem updateTunnelById_ok {tunnelId : String} {f : TunnelConfig → TunnelConfig}
    (h : Consistent issued data) (hok : updateTunnelById tunnelId f data = .ok data')
    (hf : ∀ tunnel ∈ data.tunnels, (f tunnel).sessionId ∈ data.sessions.map SessionConfig.id) :
    Consistent issued data' := by
  rw [updateTunnelById] at hok
  split at hok
  · rename_i tunnels hmodify
    obtain rfl := Except.ok.inj hok
    refine { h with tunnels := fun tunnel htunnel => ?_ }
    rcases FirstMatch.mem_modify hmodify htunnel with hold | ⟨old, hold, -, rfl⟩
    · exact h.tunnels tunnel hold
    · exact hf old hold
  · cases hok

/-- `create_tunnel` keeps the workspace consistent. -/
theorem createTunnel_ok {input : TunnelInput} (h : Consistent issued data)
    (hok : createTunnel env input data = .ok data') : Consistent issued data' := by
  obtain ⟨_, hvalid, hok⟩ := bind_ok hok
  obtain rfl := Except.ok.inj hok
  refine { h with tunnels := fun tunnel htunnel => ?_ }
  rcases List.mem_append.mp htunnel with hold | hnew
  · exact h.tunnels tunnel hold
  · obtain rfl := List.mem_singleton.mp hnew
    exact validateTunnelInput_ok hvalid

theorem updateTunnel_ok {tunnelId : String} {input : TunnelInput} (h : Consistent issued data)
    (hok : updateTunnel env tunnelId input data = .ok data') : Consistent issued data' := by
  obtain ⟨_, hvalid, hok⟩ := bind_ok hok
  exact updateTunnelById_ok h hok fun _ _ => validateTunnelInput_ok hvalid

theorem deleteTunnel_ok {tunnelId : String} (h : Consistent issued data)
    (hok : deleteTunnel tunnelId data = .ok data') : Consistent issued data' := by
  obtain ⟨_, _, hok⟩ := bind_ok hok
  obtain rfl := Except.ok.inj hok
  exact { h with tunnels := fun tunnel htunnel => h.tunnels tunnel (List.mem_filter.mp htunnel).1 }

end Vault
end HelmSsh
