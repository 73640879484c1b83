/-
# The backup settings over REST

`GET`, `PUT` and `PATCH` of `/api/backup/settings` (`src-tauri/src/api_server/handlers_admin.rs`).
What a client gets has no secrets; what it sends has its blank ones filled in from the stored
settings (`preserve_blank_backup_secrets`); and a patch is checked for unknown fields
(`validate_backup_settings_patch`) before it is merged with the JSON of the settings.  The locks,
the log and the files that retention deletes are left out, and so is the body of an answer that
changes the settings.

`BackupSettingsRest` says what the three do.  A patch that names only known fields may still be
refused, for a value of another type or for settings that do not pass their check, and then nothing
is stored; otherwise its changes are stored (`SettingsChange`), but for the secrets that it leaves
blank, by an empty text or by `null`.
-/

import HelmSsh.Config.BackupJson
import HelmSsh.Vault.BackupRecords

namespace HelmSsh
namespace Api
namespace BackupSettingsRest

open Config Vault JsonValue

/-! ### The secrets -/

/-- A blank secret stands for the stored one. -/
def keepBlank (incoming current : String) : String :=
  if incoming = "" then current else incoming

/-- `preserve_blank_backup_secrets`, of the part that has the secrets. -/
def preserveBlankCloudSecrets (incoming current : CloudBackupSettings) : CloudBackupSettings :=
  { incoming with
    webdav := { incoming.webdav with
      password := keepBlank incoming.webdav.password current.webdav.password }
    s3 := { incoming.s3 with
      secretAccessKey := keepBlank incoming.s3.secretAccessKey current.s3.secretAccessKey } }

/-- `preserve_blank_backup_secrets`. -/
def preserveBlankBackupSecrets (incoming current : BackupSettings) : BackupSettings :=
  { incoming with cloud := preserveBlankCloudSecrets incoming.cloud current.cloud }

/-- `redact_backup_settings`. -/
def redactBackupSettings (settings : BackupSettings) : BackupSettings :=
  { settings with
    cloud := { settings.cloud with
      webdav := { settings.cloud.webdav with password := "" }
      s3 := { settings.cloud.s3 with secretAccessKey := "" } } }

/-! ### The requests -/

/-- `validate_patch_keys`, with the keys in the order of the map. -/
def validatePatchKeys (members : Members) (allowed : List String) (path : String) :
    Except String Unit :=
  match (members.map Prod.fst).find? fun key => !allowed.contains key with
  | some key => .error (path ++ " 包含未知字段 " ++ key)
  | none => .ok ()

/-- The check of the part about the cloud. -/
def validateCloudPatch (cloud : Members) : Except String Unit := do
  validatePatchKeys cloud ["enabled", "autoEnabled", "kind", "webdav", "s3"] "backup.cloud"
  match cloud.lookup "webdav" with
  | some (.object webdav) =>
    validatePatchKeys webdav ["endpoint", "username", "password", "remotePath"]
      "backup.cloud.webdav"
  | _ => pure ()
  match cloud.lookup "s3" with
  | some (.object s3) =>
    validatePatchKeys s3 ["endpoint", "region", "bucket", "accessKeyId",
      "secretAccessKey", "prefix",
      "pathStyle"] "backup.cloud.s3"
  | _ => pure ()

/-- `validate_backup_settings_patch`. -/
def validateBackupSettingsPatch : JsonValue → Except String Unit
  | .object members => do
    if members.isEmpty then throw "备份设置 PATCH 至少需要一个字段"
    validatePatchKeys members ["localDirectory", "autoEnabled", "frequency", "retentionCount",
      "retentionDays", "cloud"] "backup"
    match members.lookup "cloud" with
    | some (.object cloud) => validateCloudPatch cloud
    | _ => pure ()
  | _ => throw "备份设置 PATCH 请求体必须是 JSON 对象"

/-- Why a request is refused: with `400` and a text, or by the store. -/
inductive Refusal where
  | badRequest (error : String)
  | store (error : AppError)
  deriving DecidableEq

/-- `serde_json::from_value` of a merge, with the text of its error. -/
def readMerged (describe : JsonValue → String) (merged : JsonValue) : AppResult BackupSettings :=
  match BackupSettings.fromValue merged with
  | some backup => .ok backup
  | none => .error (.invalidInput ("备份设置 PATCH 无效: " ++ describe merged))

/-- `mutate_backup_settings`, from what is to be stored. -/
def mutateBackupSettings (env : Env) (next : BackupSettings → AppResult BackupSettings)
    (data : VaultData) : Except Refusal VaultData :=
  (Executed.execute env (.update fun current => do
    let backup ← next current
    return preserveBlankBackupSecrets backup current) data).mapError .store

/-- `rest_backup_settings_patch`. -/
def restBackupSettingsPatch (env : Env) (describe : JsonValue → String) (patch : JsonValue)
    (data : VaultData) : Except Refusal VaultData :=
  match validateBackupSettingsPatch patch with
  | .error error => .error (.badRequest error)
  | .ok _ => mutateBackupSettings env
      (fun current => readMerged describe (mergePatch (some current.toValue) patch)) data

/-- `rest_backup_settings_update`, for the settings that are read from the body. -/
def restBackupSettingsUpdate (env : Env) (backup : BackupSettings) (data : VaultData) :
    Except Refusal VaultData :=
  mutateBackupSettings env (fun _ => .ok backup) data

/-- The body of `rest_backup_settings_get`. -/
def restBackupSettingsGet (data : VaultData) : JsonValue :=
  (redactBackupSettings data.settings.backup).toValue

/-! ### What they do -/

/-- The workspace with other backup settings. -/
def updated (env : Env) (backup : BackupSettings) (data : VaultData) : VaultData :=
  (pruneBackupRecords env { data with settings := { data.settings with backup := backup } }).touch
    env.now

/-- The changes of a patch that `incoming` has, with the stored secrets in the place of blank ones,
pass the check of the settings. -/
structure Accepts (patch : JsonValue) (settings : AppSettings) (incoming : BackupSettings) :
    Prop where
  known : validateBackupSettingsPatch patch = .ok ()
  changes : ∃ members, patch = .object members ∧ SettingsChange members settings.backup incoming
  valid : validateSettings
    { settings with backup := preserveBlankBackupSecrets incoming settings.backup } = .ok ()

/-- What the requests do to a workspace. -/
structure Serves (env : Env) (describe : JsonValue → String) (patch : JsonDocument)
    (data : VaultData) : Prop where
  patched : ∀ data', restBackupSettingsPatch env describe patch.value data = .ok data' ↔
    ∃ incoming, Accepts patch.value data.settings incoming ∧
      data' = updated env (preserveBlankBackupSecrets incoming data.settings.backup) data
  again : ∀ data', restBackupSettingsPatch env describe patch.value data = .ok data' →
    ∀ env' describe' later, restBackupSettingsPatch env' describe' patch.value data' = .ok later ↔
      later = updated env' data'.settings.backup data'
  secrets : ∀ data', restBackupSettingsPatch env describe patch.value data = .ok data' →
    (data'.settings.backup.cloud.webdav.password = "" →
      data.settings.backup.cloud.webdav.password = "") ∧
    (data'.settings.backup.cloud.s3.secretAccessKey = "" →
      data.settings.backup.cloud.s3.secretAccessKey = "")
  put : ∀ shown, BackupSettings.fromValue (restBackupSettingsGet data) = some shown → ∀ data',
    restBackupSettingsUpdate env shown data = .ok data' ↔
      validateSettings data.settings = .ok () ∧ data' = updated env data.settings.backup data

variable {env : Env} {describe : JsonValue → String} {data data' : VaultData}

theorem keepBlank_of_eq {incoming current : String} (h : incoming = current) :
    keepBlank incoming current = incoming := by
  rw [keepBlank, h, ite_self]

theorem eq_empty_of_keepBlank {incoming current : String} (h : keepBlank incoming current = "") :
    current = "" := by
  unfold keepBlank at h
  split_ifs at h with hblank
  · exact h
  · exact absurd h hblank

theorem preserve_again (incoming current : BackupSettings) :
    preserveBlankBackupSecrets incoming (preserveBlankBackupSecrets incoming current) =
      preserveBlankBackupSecrets incoming current := by
  have hkeep (x y : String) : keepBlank x (keepBlank x y) = keepBlank x y := by
    unfold keepBlank
    split_ifs <;> rfl
  simp only [preserveBlankBackupSecrets, preserveBlankCloudSecrets, hkeep]

theorem settingsChange_again {patch : Members} {x y : BackupSettings}
    (h : SettingsChange patch x y) :
    SettingsChange patch (preserveBlankBackupSecrets y x) y where
  localDirectory := h.localDirectory.again fun _ => rfl
  autoEnabled := h.autoEnabled.again fun _ => rfl
  frequency := h.frequency.again fun _ => rfl
  retentionCount := h.retentionCount.again fun _ => rfl
  retentionDays := h.retentionDays.again fun _ => rfl
  cloud := by
    have hwebdav (heq : y.cloud.webdav = x.cloud.webdav) :=
      keepBlank_of_eq (congrArg WebdavBackupConfig.password heq)
    have hs3 (heq : y.cloud.s3 = x.cloud.s3) :=
      keepBlank_of_eq (congrArg S3BackupConfig.secretAccessKey heq)
    refine h.cloud.again (fun heq => ?_) fun patch hc => ?_
    · simp only [preserveBlankBackupSecrets, preserveBlankCloudSecrets]
      rw [hwebdav (congrArg _ heq), hs3 (congrArg _ heq)]
    · refine ⟨hc.enabled.again fun _ => rfl, hc.autoEnabled.again fun _ => rfl,
        hc.kind.again fun _ => rfl, hc.webdav.again (fun heq => ?_) fun patch hw => ?_,
        hc.s3.again (fun heq => ?_) fun patch hs => ?_⟩
      · simp only [preserveBlankBackupSecrets, preserveBlankCloudSecrets]
        rw [hwebdav heq]
      · exact ⟨hw.endpoint.again fun _ => rfl, hw.username.again fun _ => rfl,
          hw.password.again keepBlank_of_eq, hw.remotePath.again fun _ => rfl⟩
      · simp only [preserveBlankBackupSecrets, preserveBlankCloudSecrets]
        rw [hs3 heq]
      · exact ⟨hs.endpoint.again fun _ => rfl, hs.region.again fun _ => rfl,
          hs.bucket.again fun _ => rfl, hs.accessKeyId.again fun _ => rfl,
          hs.secretAccessKey.again keepBlank_of_eq, hs.keyPrefix.again fun _ => rfl,
          hs.pathStyle.again fun _ => rfl⟩

theorem mutateBackupSettings_ok {next : BackupSettings → AppResult BackupSettings} :
    mutateBackupSettings env next data = .ok data' ↔
      ∃ backup, next data.settings.backup = .ok backup ∧
        validateSettings { data.settings with
          backup := preserveBlankBackupSecrets backup data.settings.backup } = .ok () ∧
        data' = updated env (preserveBlankBackupSecrets backup data.settings.backup) data := by
  rw [mutateBackupSettings, show Executed.execute env (.update _) data =
    backupSettingsMutated env _ data from rfl, backupSettingsMutated]
  cases hnext : next data.settings.backup with
  | error error =>
    constructor
    · intro h
      cases h
    · rintro ⟨_, h, _⟩
      cases h
  | ok backup =>
    change Except.mapError _ ((validateSettings { data.settings with
      backup := preserveBlankBackupSecrets backup data.settings.backup } >>= _) >>= _) = _ ↔ _
    cases hvalid : validateSettings { data.settings with
      backup := preserveBlankBackupSecrets backup data.settings.backup } with
    | error error =>
      constructor
      · intro h
        cases h
      · rintro ⟨_, heq, h, _⟩
        obtain rfl := Except.ok.inj heq
        rw [hvalid] at h
        cases h
    | ok _ =>
      constructor
      · intro h
        exact ⟨backup, rfl, hvalid, (Except.ok.inj h).symm⟩
      · rintro ⟨_, heq, _, rfl⟩
        obtain rfl := Except.ok.inj heq
        rfl

theorem patch_ok (patch : JsonDocument) :
    restBackupSettingsPatch env describe patch.value data = .ok data' ↔
      ∃ incoming, Accepts patch.value data.settings incoming ∧
        data' = updated env (preserveBlankBackupSecrets incoming data.settings.backup) data := by
  obtain ⟨value, hdistinct⟩ := patch
  dsimp only
  unfold restBackupSettingsPatch
  split
  case h_1 hrefused =>
    constructor
    · intro h
      cases h
    · rintro ⟨_, haccepts, _⟩
      rw [haccepts.known] at hrefused
      cases hrefused
  case h_2 hknown =>
    rw [mutateBackupSettings_ok]
    refine exists_congr fun incoming => ?_
    have hread : readMerged describe (mergePatch (some data.settings.backup.toValue) value) =
        .ok incoming ↔ ∃ members, value = .object members ∧
          SettingsChange members data.settings.backup incoming := by
      cases value with
      | object members =>
        have hchanges := BackupSettings.fromValue_mergePatch hdistinct data.settings.backup incoming
        simp only [object.injEq, exists_eq_left', ← hchanges, readMerged]
        split <;> simp_all
      | _ => cases hknown
    rw [hread]
    constructor
    · rintro ⟨hchanges, hvalid, heq⟩
      exact ⟨⟨hknown, hchanges, hvalid⟩, heq⟩
    · rintro ⟨haccepts, heq⟩
      exact ⟨haccepts.changes, haccepts.valid, heq⟩

/-- **The backup settings over REST.**  A patch is stored exactly when it names known fields, its
values are of the right types and the settings behind it pass their check; what is stored has its
changes and no others, but for the secrets that it leaves blank, which stay; the same patch changes
nothing more; and sending back what was shown leaves the settings as they are. -/
theorem backupSettings_served (env : Env) (describe : JsonValue → String) (patch : JsonDocument)
    (data : VaultData) : Serves env describe patch data where
  patched _ := patch_ok patch
  again data' h env' describe' later := by
    obtain ⟨incoming, haccepts, rfl⟩ := (patch_ok patch).mp h
    obtain ⟨members, hvalue, hchanges⟩ := haccepts.changes
    have hbackup : (updated env (preserveBlankBackupSecrets incoming data.settings.backup)
        data).settings = { data.settings with
          backup := preserveBlankBackupSecrets incoming data.settings.backup } := rfl
    have hsame := preserve_again incoming data.settings.backup
    have hagain : Accepts patch.value { data.settings with
        backup := preserveBlankBackupSecrets incoming data.settings.backup } incoming :=
      ⟨haccepts.known, ⟨members, hvalue, settingsChange_again hchanges⟩, by
        rw [hsame]; exact haccepts.valid⟩
    rw [patch_ok, hbackup]
    constructor
    · rintro ⟨other, hother, rfl⟩
      obtain ⟨_, hmembers, hchange⟩ := hother.changes
      obtain rfl := object.inj (hvalue.symm.trans hmembers)
      have hdistinct : (object members).keysDistinct = true := hvalue ▸ patch.keysDistinct
      have heq := (BackupSettings.fromValue_mergePatch hdistinct _ _).mpr hchange
      rw [(BackupSettings.fromValue_mergePatch hdistinct _ _).mpr
        (settingsChange_again hchanges)] at heq
      obtain rfl := Option.some.inj heq
      rw [hsame]
    · rintro rfl
      exact ⟨incoming, hagain, by rw [hsame]⟩
  secrets data' h := by
    obtain ⟨incoming, _, rfl⟩ := (patch_ok patch).mp h
    exact ⟨eq_empty_of_keepBlank, eq_empty_of_keepBlank⟩
  put shown hshown data' := by
    obtain rfl := Option.some.inj (hshown.symm.trans (BackupSettings.fromValue_toValue _))
    have hpreserved : preserveBlankBackupSecrets (redactBackupSettings data.settings.backup)
        data.settings.backup = data.settings.backup := rfl
    rw [restBackupSettingsUpdate, mutateBackupSettings_ok]
    constructor
    · rintro ⟨_, heq, hvalid, rfl⟩
      obtain rfl := Except.ok.inj heq
      exact ⟨hvalid, rfl⟩
    · rintro ⟨hvalid, rfl⟩
      exact ⟨_, rfl, hvalid, rfl⟩

/-- A patch that gives a text for a number. -/
def mistypedPatch : JsonDocument := ⟨.object [("retentionCount", .string "20")], by decide⟩

/-- **A patch that the check lets pass is not always stored.** -/
theorem mistyped_not_stored : ¬ ∀ env describe (patch : JsonDocument) data,
    validateBackupSettingsPatch patch.value = .ok () →
      ∃ data', restBackupSettingsPatch env describe patch.value data = .ok data' := by
  intro h
  obtain ⟨data', hdata'⟩ :=
    h ⟨"t", 0, "i", fun _ => none⟩ (fun _ => "") mistypedPatch (.empty "t") rfl
  obtain ⟨incoming, haccepts, _⟩ := (patch_ok mistypedPatch).mp hdata'
  obtain ⟨_, hmembers, hchange⟩ := haccepts.changes
  obtain rfl := object.inj hmembers
  cases hchange.retentionCount

end BackupSettingsRest
end Api
end HelmSsh
