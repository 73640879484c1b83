/-
# What the migration of a workspace leaves alone

`migrate_vault_data` of `src-tauri/src/config.rs` brings a workspace of an older build up to date:
its version, the mirror of the API sessions and their automatic start.  It leaves `Normalized` data
and does nothing to such data (`normalized_migrateVaultData`, `Normalized.migrateVaultData_eq`), and
every operation of a workspace keeps them so (`Normalized.update`).  So the data of an unlocked
store are migrated when they are read, and not again when they are read back.
-/

import HelmSsh.Vault.Operations

namespace HelmSsh
namespace Vault

open Config

variable {env : Env} {data data' : VaultData}

/-- Data that `migrate_vault_data` has nothing to do on. -/
structure Normalized (data : VaultData) : Prop where
  version : ¬data.version < vaultDataVersion
  mirror : data.settings.aiApiSessionId = data.settings.aiApiSessionIds.head?
  autoStart : data.settings.aiApiSessionIds = [] → data.settings.aiApiAutoStart = false

/-- What the migration looks at is the same. -/
structure SameApi (data data' : VaultData) : Prop where
  version : data'.version = data.version
  sessionId : data'.settings.aiApiSessionId = data.settings.aiApiSessionId
  sessionIds : data'.settings.aiApiSessionIds = data.settings.aiApiSessionIds
  autoStart : data'.settings.aiApiAutoStart = data.settings.aiApiAutoStart

theorem version_current : ¬vaultDataVersion < vaultDataVersion := by decide

/-- Data stay normalized while what the migration looks at is the same. -/
theorem Normalized.congr (h : Normalized data) (hsame : SameApi data data') : Normalized data' where
  version := by
    rw [hsame.version]
    exact h.version
  mirror := by
    rw [hsame.sessionId, hsame.sessionIds]
    exact h.mirror
  autoStart := by
    rw [hsame.sessionIds, hsame.autoStart]
    exact h.autoStart

theorem Normalized.touch (h : Normalized data) (now : String) : Normalized (data.touch now) :=
  h.congr ⟨rfl, rfl, rfl, rfl⟩

theorem normalized_withDefaultGroup (now id : String) :
    Normalized (.withDefaultGroup now id) where
  version := version_current
  mirror := rfl
  autoStart := fun _ => rfl

/-! ### The migration -/

/-- The first part of the migration has set the version. -/
theorem version_migrateSessionIds (data : VaultData) :
    ¬(migrateSessionIds data).version < vaultDataVersion := by
  have hversion :
      ¬(if data.version < vaultDataVersion then { data with version := vaultDataVersion }
        else data).version < vaultDataVersion := by
    split_ifs with hold
    · exact version_current
    · exact hold
  rw [migrateSessionIds]
  generalize (if data.version < vaultDataVersion then { data with version := vaultDataVersion }
    else data) = data₁ at hversion ⊢
  dsimp only
  split_ifs
  · split
    · exact hversion
    · exact hversion
  · exact hversion

/-- **What was migrated is normalized.** -/
theorem normalized_migrateVaultData (now : String) (data : VaultData) :
    Normalized (migrateVaultData now data).1 := by
  have hmigrated : Normalized (migrateMirror (migrateSessionIds data)) :=
    { version := version_migrateSessionIds data
      mirror := rfl
      autoStart := fun hnil => by
        have hids : (migrateSessionIds data).settings.aiApiSessionIds = [] := hnil
        show (_ && !(migrateSessionIds data).settings.aiApiSessionIds.isEmpty) = false
        rw [hids, List.isEmpty_nil, Bool.not_true, Bool.and_false] }
  rw [migrateVaultData]
  split_ifs with hsame
  · rw [hsame] at hmigrated
    exact hmigrated
  · exact hmigrated.touch now

/-- The first part of the migration does nothing to normalized data. -/
theorem Normalized.migrateSessionIds_eq (h : Normalized data) : migrateSessionIds data = data := by
  rw [migrateSessionIds, if_neg h.version]
  dsimp only
  split_ifs with hnil
  · rw [h.mirror, hnil]
    rfl
  · rfl

/-- The second part of the migration does nothing to normalized data. -/
theorem Normalized.migrateMirror_eq (h : Normalized data) : migrateMirror data = data := by
  have hauto : (data.settings.aiApiAutoStart && !data.settings.aiApiSessionIds.isEmpty) =
      data.settings.aiApiAutoStart := by
    cases hids : data.settings.aiApiSessionIds with
    | nil => rw [h.autoStart hids, Bool.false_and]
    | cons id ids => rw [List.isEmpty_cons, Bool.not_false, Bool.and_true]
  rw [migrateMirror, hauto, ← h.mirror]

/-- **The migration does nothing to normalized data.** -/
theorem Normalized.migrateVaultData_eq (h : Normalized data) (now : String) :
    migrateVaultData now data = (data, false) := by
  rw [migrateVaultData, h.migrateSessionIds_eq, h.migrateMirror_eq, if_pos rfl]

/-! ### The operations -/

/-- A change of the first session with an id is not looked at. -/
theorem sameApi_updateSessionById {sessionId : String} {f : SessionConfig → SessionConfig}
    (hok : updateSessionById sessionId f data = .ok data') : SameApi data data' := by
  rw [updateSessionById] at hok
  split at hok
  · obtain rfl := Except.ok.inj hok
    exact ⟨rfl, rfl, rfl, rfl⟩
  · cases hok

/-- A change of the first tunnel with an id is not looked at. -/
theorem sameApi_updateTunnelById {tunnelId : String} {f : TunnelConfig → TunnelConfig}
    (hok : updateTunnelById tunnelId f data = .ok data') : SameApi data data' := by
  rw [updateTunnelById] at hok
  split at hok
  · obtain rfl := Except.ok.inj hok
    exact ⟨rfl, rfl, rfl, rfl⟩
  · cases hok

theorem sameApi_trustHostKey {sessionId host algorithm fingerprint : String} {port : UInt16}
    (hok : trustHostKey env sessionId host port algorithm fingerprint data = .ok data') :
    SameApi data data' := by
  rw [trustHostKey] at hok
  split at hok
  · cases hok
  · obtain ⟨_, _, hok⟩ := bind_ok hok
    obtain rfl := Except.ok.inj hok
    exact ⟨rfl, rfl, rfl, rfl⟩

theorem sameApi_updateGroup {groupId : String} {input : GroupInput}
    (hok : updateGroup env groupId input data = .ok data') : SameApi data data' := by
  obtain ⟨_, _, hok⟩ := bind_ok hok
  split at hok
  · obtain rfl := Except.ok.inj hok
    exact ⟨rfl, rfl, rfl, rfl⟩
  · cases hok

theorem Normalized.settingsAiApiUpdate (h : Normalized data) {settings : AiApiSettingsUpdate}
    (hok : settingsAiApiUpdate settings data = .ok data') : Normalized data' := by
  obtain ⟨_, _, hok⟩ := bind_ok hok
  obtain ⟨sessionIds, _, hok⟩ := bind_ok hok
  obtain ⟨_, hauto, hok⟩ := bind_ok hok
  obtain ⟨_, _, hok⟩ := bind_ok hok
  obtain rfl := Except.ok.inj hok
  refine ⟨h.version, rfl, fun hnil => ?_⟩
  have hrefused := refuse_ok hauto
  rw [not_and_or] at hrefused
  rcases hrefused with hoff | hsome
  · exact Bool.eq_false_iff.mpr hoff
  · exact absurd (.inl hnil) hsome

/-- Without a session, the API settings are normalized. -/
theorem Normalized.deleteSession (h : Normalized data) {sessionId : String}
    (hok : deleteSession sessionId data = .ok data') : Normalized data' := by
  obtain ⟨_, _, hok⟩ := bind_ok hok
  obtain rfl := Except.ok.inj hok
  refine ⟨h.version, rfl, fun hnil => ?_⟩
  rw [forgetApiSession] at hnil ⊢
  dsimp only at hnil ⊢
  rw [hnil, List.isEmpty_nil, Bool.not_true, Bool.and_false]

/-- **Every operation keeps the data normalized.** -/
theorem Normalized.update (h : Normalized data) (op : VaultOp)
    (hok : op.update env data = .ok data') : Normalized data' := by
  cases op with
  | settingsAiApiUpdate => exact h.settingsAiApiUpdate hok
  | deleteSession => exact h.deleteSession hok
  | trustHostKey => exact h.congr (sameApi_trustHostKey hok)
  | updateGroup => exact h.congr (sameApi_updateGroup hok)
  | setTunnelEnabled => exact h.congr (sameApi_updateTunnelById hok)
  | updateTunnel =>
    obtain ⟨_, _, hok⟩ := bind_ok hok
    exact h.congr (sameApi_updateTunnelById hok)
  | updateSession =>
    obtain ⟨_, _, hok⟩ := bind_ok hok
    exact h.congr (sameApi_updateSessionById hok)
  | setSessionFavorite | markSessionRecent | clearSessionRecent =>
    exact h.congr (sameApi_updateSessionById hok)
  | replaceBackupRecords =>
    obtain rfl := Except.ok.inj hok
    exact h.congr ⟨rfl, rfl, rfl, rfl⟩
  | deleteGroup | quickCommandDelete =>
    obtain ⟨_, _, hok⟩ := bind_ok hok
    obtain ⟨_, _, hok⟩ := bind_ok hok
    obtain rfl := Except.ok.inj hok
    exact h.congr ⟨rfl, rfl, rfl, rfl⟩
  | settingsProxyUpdate | settingsBackupUpdate | quickCommandUpsert | settingsAiApiKeyUpdate |
    settingsIgnoreUpdateVersion | connectionSectionStateUpdate | createTunnel | deleteTunnel |
    deleteBackupRecord | createGroup | createSession =>
    -- One check, and then a part that is not looked at.
    obtain ⟨_, _, hok⟩ := bind_ok hok
    obtain rfl := Except.ok.inj hok
    exact h.congr ⟨rfl, rfl, rfl, rfl⟩

end Vault
end HelmSsh
