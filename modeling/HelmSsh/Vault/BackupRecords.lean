/-
# The list of backup records, one operation at a time

What a backup run, a change of the backup settings, a deletion, a clearing and a restore make of
`backup_records` when nothing comes in between (`src-tauri/src/backup.rs`,
`src-tauri/src/commands/backup.rs`).  A run writes the packages, lists the files that are there,
and puts the list, with its own outcomes, in the place of the old one; what it writes and lists is
given from outside (`Written`, `listed`), and so is the workspace of a restore.

* `mem_execute` — a record is in the list after an operation only if it was there before, or the
  operation brings it (`Brings`);
* `execute_removes` — a record is gone after an operation only if that removes it (`Removes`);
* `run_records` — the outcomes of a run are recorded;
* `replay_brings`, `replay_removes` — the same of several operations, one after another;
* `sameBackups_update` — the other operations leave the list and the backup settings alone.
-/

import HelmSsh.Vault.Normalized

namespace HelmSsh
namespace Vault

open Config

variable {env : Env} {data data' : VaultData} {x : BackupRecord}

/-! ### A backup run -/

/-- `BackupRunPlan`, without the paths. -/
structure BackupRunPlan where
  settings : BackupSettings
  existingRecords : List BackupRecord
  deriving DecidableEq

/-- `prepare_backup_run`. -/
def prepareBackupRun (data : VaultData) : BackupRunPlan :=
  { settings := data.settings.backup, existingRecords := data.backupRecords }

/-- `configured_local_backup_directory`. -/
def configuredLocalBackupDirectory (settings : BackupSettings) : Option String :=
  (settings.localDirectory.map Text.trim).filter (· ≠ "")

/-- `configured_cloud_backup`. -/
def configuredCloudBackup (cloud : CloudBackupSettings) : Bool :=
  if cloud.kind = "webdav" then !Text.isBlank cloud.webdav.endpoint
  else if cloud.kind = "s3" then
    !Text.isBlank cloud.s3.endpoint && !Text.isBlank cloud.s3.region &&
      !Text.isBlank cloud.s3.bucket && !Text.isBlank cloud.s3.accessKeyId &&
        !Text.isBlank cloud.s3.secretAccessKey
  else false

/-- `target_selected`. -/
def targetSelected (targetKinds : Option (List String)) (targetKind : String) : Bool :=
  targetKinds.all fun kinds => kinds.contains targetKind

/-- What `write_local_backup` and `upload_cloud_backup` return. -/
structure Written where
  localBackup : BackupRecord
  cloudBackup : BackupRecord
  deriving DecidableEq

/-- `run_backup`, from the package on. -/
def runBackup (plan : BackupRunPlan) (targetKinds : Option (List String)) (automatic : Bool)
    (written : Written) : AppResult (List BackupRecord) := do
  let outcomes :=
    (if (!automatic || plan.settings.autoEnabled) && targetSelected targetKinds "local" &&
        (configuredLocalBackupDirectory plan.settings).isSome then [written.localBackup] else []) ++
    (if (!automatic || plan.settings.cloud.autoEnabled) &&
        targetSelected targetKinds plan.settings.cloud.kind &&
          configuredCloudBackup plan.settings.cloud then [written.cloudBackup] else [])
  refuse (outcomes = []) (.invalidInput "请先配置本地备份目录或云端备份")
  return outcomes

/-- The same target, with the same outcome. -/
def sameOutcome (record outcome : BackupRecord) : Bool :=
  record.targetKind = outcome.targetKind && record.targetPath = outcome.targetPath &&
    record.status = outcome.status

/-- The outcome is listed already. -/
def alreadyListed (records : List BackupRecord) (outcome : BackupRecord) : Bool :=
  records.any fun record => sameOutcome record outcome

/-- `merge_backup_outcomes`. -/
def mergeBackupOutcomes (records backupOutcomes : List BackupRecord) : List BackupRecord :=
  backupOutcomes.foldl
    (fun records outcome => if alreadyListed records outcome then records else records ++ [outcome])
    records

/-- `merge_configured_backup_records`, with what `list_configured_backup_records` returns. -/
def mergeConfiguredBackupRecords (plan : BackupRunPlan) (listed : AppResult (List BackupRecord))
    (backupOutcomes : List BackupRecord) : List BackupRecord :=
  match listed with
  | .ok records => mergeBackupOutcomes records backupOutcomes
  | .error _ => mergeBackupOutcomes plan.existingRecords backupOutcomes

/-! ### A restore -/

/-- The record of `backup_record_restore`. -/
def restorable (recordId : String) (data : VaultData) : AppResult BackupRecord :=
  match data.backupRecords.find? fun record => record.id = recordId with
  | none => .error (.notFound s!"备份记录 {recordId}")
  | some record => do
    refuse (record.status ≠ "success") (.invalidInput "失败的备份记录不能恢复")
    return record

/-! ### The operations -/

/-- An operation on the list or the backup settings. -/
def VaultOp.aboutBackups : VaultOp → Bool
  | .settingsBackupUpdate _ | .replaceBackupRecords _ | .deleteBackupRecord _ => true
  | _ => false

/-- An operation as a whole, with what comes from outside. -/
inductive Executed where
  | run (targetKinds : Option (List String)) (automatic : Bool) (written : Written)
    (listed : AppResult (List BackupRecord))
  /-- The next settings may depend on the current ones: `PATCH`, and blank secrets. -/
  | update (next : BackupSettings → AppResult BackupSettings)
  | delete (recordId : String)
  | clear
  | restore (recordId : String) (imported : VaultData)
  /-- An operation that is not about backups. -/
  | other (op : VaultOp) (hop : op.aboutBackups = false)

/-- What `mutate` makes of the workspace, when it can be written. -/
def mutated (env : Env) (op : VaultOp) (data : VaultData) : AppResult VaultData := do
  let data ← op.update env data
  return data.touch env.now

/-- `mutate_backup_settings`, and `settings_backup_update`. -/
def backupSettingsMutated (env : Env) (next : BackupSettings → AppResult BackupSettings)
    (data : VaultData) : AppResult VaultData := do
  let backup ← next data.settings.backup
  mutated env (.settingsBackupUpdate backup) data

/-- **The workspace after an operation** that nothing comes between. -/
def Executed.execute (env : Env) : Executed → VaultData → AppResult VaultData
  | .run targetKinds automatic written listed, data => do
    let outcomes ← runBackup (prepareBackupRun data) targetKinds automatic written
    mutated env (.replaceBackupRecords
      (mergeConfiguredBackupRecords (prepareBackupRun data) listed outcomes)) data
  | .update next, data => backupSettingsMutated env next data
  | .delete recordId, data => mutated env (.deleteBackupRecord recordId) data
  | .clear, data => mutated env (.replaceBackupRecords []) data
  | .restore recordId imported, data => do
    let _ ← restorable recordId data
    return imported
  | .other op _, data => mutated env op data

/-! ### What the other operations leave alone -/

/-- The list and the backup settings are the same. -/
structure SameBackups (data data' : VaultData) : Prop where
  backup : data'.settings.backup = data.settings.backup
  records : data'.backupRecords = data.backupRecords

theorem SameBackups.trans {data'' : VaultData} (h : SameBackups data data')
    (h' : SameBackups data' data'') : SameBackups data data'' :=
  ⟨h'.backup.trans h.backup, h'.records.trans h.records⟩

theorem sameBackups_updateSessionById {sessionId : String} {f : SessionConfig → SessionConfig}
    (hok : updateSessionById sessionId f data = .ok data') : SameBackups data data' := by
  rw [updateSessionById] at hok
  split at hok
  · obtain rfl := Except.ok.inj hok
    exact ⟨rfl, rfl⟩
  · cases hok

theorem sameBackups_updateTunnelById {tunnelId : String} {f : TunnelConfig → TunnelConfig}
    (hok : updateTunnelById tunnelId f data = .ok data') : SameBackups data data' := by
  rw [updateTunnelById] at hok
  split at hok
  · obtain rfl := Except.ok.inj hok
    exact ⟨rfl, rfl⟩
  · cases hok

/-- **The other operations leave the list alone.** -/
theorem sameBackups_update {op : VaultOp} (hop : op.aboutBackups = false)
    (hok : op.update env data = .ok data') : SameBackups data data' := by
  cases op with
  | settingsBackupUpdate | replaceBackupRecords | deleteBackupRecord => cases hop
  | settingsAiApiUpdate =>
    obtain ⟨_, _, hok⟩ := bind_ok hok
    obtain ⟨_, _, hok⟩ := bind_ok hok
    obtain ⟨_, _, hok⟩ := bind_ok hok
    obtain ⟨_, _, hok⟩ := bind_ok hok
    obtain rfl := Except.ok.inj hok
    exact ⟨rfl, rfl⟩
  | trustHostKey =>
    rw [VaultOp.update, trustHostKey] at hok
    split at hok
    · cases hok
    · obtain ⟨_, _, hok⟩ := bind_ok hok
      obtain rfl := Except.ok.inj hok
      exact ⟨rfl, rfl⟩
  | updateGroup =>
    obtain ⟨_, _, hok⟩ := bind_ok hok
    split at hok
    · obtain rfl := Except.ok.inj hok
      exact ⟨rfl, rfl⟩
    · cases hok
  | setTunnelEnabled => exact sameBackups_updateTunnelById hok
  | updateTunnel =>
    obtain ⟨_, _, hok⟩ := bind_ok hok
    exact sameBackups_updateTunnelById hok
  | updateSession =>
    obtain ⟨_, _, hok⟩ := bind_ok hok
    exact sameBackups_updateSessionById hok
  | setSessionFavorite | markSessionRecent | clearSessionRecent =>
    exact sameBackups_updateSessionById hok
  | deleteGroup | quickCommandDelete =>
    obtain ⟨_, _, hok⟩ := bind_ok hok
    obtain ⟨_, _, hok⟩ := bind_ok hok
    obtain rfl := Except.ok.inj hok
    exact ⟨rfl, rfl⟩
  | settingsProxyUpdate | quickCommandUpsert | settingsAiApiKeyUpdate |
    settingsIgnoreUpdateVersion | connectionSectionStateUpdate | createTunnel | deleteTunnel |
    createGroup | createSession | deleteSession =>
    obtain ⟨_, _, hok⟩ := bind_ok hok
    obtain rfl := Except.ok.inj hok
    exact ⟨rfl, rfl⟩

theorem sameBackups_mutated {op : VaultOp} (hop : op.aboutBackups = false)
    (hok : mutated env op data = .ok data') : SameBackups data data' := by
  obtain ⟨next, hnext, hok⟩ := bind_ok hok
  obtain rfl := Except.ok.inj hok
  exact ⟨(sameBackups_update hop hnext).1, (sameBackups_update hop hnext).2⟩

theorem prepareBackupRun_same (h : SameBackups data data') :
    prepareBackupRun data' = prepareBackupRun data := by
  rw [prepareBackupRun, prepareBackupRun, h.backup, h.records]

theorem restorable_same (h : SameBackups data data') (recordId : String) :
    restorable recordId data' = restorable recordId data := by
  rw [restorable, restorable, h.records]

/-! ### What an operation brings and what it removes -/

/-- Retention takes the record out of a list. -/
def Pruned (env : Env) (settings : BackupSettings) (records : List BackupRecord)
    (x : BackupRecord) : Prop :=
  x.id ∈ removeIds env settings []
    (records.insertionSort fun left right => right.createdAt ≤ left.createdAt)

theorem mem_prune : x ∈ (pruneBackupRecords env data).backupRecords ↔
    x ∈ data.backupRecords ∧ ¬ Pruned env data.settings.backup data.backupRecords x := by
  rw [pruneBackupRecords, List.mem_filter, List.mem_insertionSort, decide_eq_true_eq, Pruned]

theorem mem_merge_of_mem {records outcomes : List BackupRecord} (hx : x ∈ records) :
    x ∈ mergeBackupOutcomes records outcomes := by
  rw [mergeBackupOutcomes]
  induction outcomes generalizing records with
  | nil => exact hx
  | cons outcome outcomes ih =>
    rw [List.foldl_cons]
    split_ifs with hlisted
    · exact ih hx
    · exact ih (List.mem_append_left _ hx)

theorem mem_of_mem_merge {records outcomes : List BackupRecord}
    (hx : x ∈ mergeBackupOutcomes records outcomes) : x ∈ records ∨ x ∈ outcomes := by
  rw [mergeBackupOutcomes] at hx
  induction outcomes generalizing records with
  | nil => exact .inl hx
  | cons outcome outcomes ih =>
    rw [List.foldl_cons] at hx
    split_ifs at hx with hlisted
    · exact (ih hx).imp_right (List.mem_cons_of_mem outcome)
    · rcases ih hx with hx | hx
      · rcases List.mem_append.mp hx with hx | hx
        · exact .inl hx
        · exact .inr (List.mem_singleton.mp hx ▸ List.mem_cons_self)
      · exact .inr (List.mem_cons_of_mem outcome hx)

/-- **An outcome is recorded**, unless one of its target with its status is there already. -/
theorem exists_mem_merge {records outcomes : List BackupRecord} {outcome : BackupRecord}
    (h : outcome ∈ outcomes) :
    ∃ record ∈ mergeBackupOutcomes records outcomes, sameOutcome record outcome = true := by
  induction outcomes generalizing records with
  | nil => cases h
  | cons first outcomes ih =>
    rw [mergeBackupOutcomes, List.foldl_cons]
    rcases List.mem_cons.mp h with rfl | h
    · obtain ⟨record, hrecord, hsame⟩ : ∃ record ∈ (if alreadyListed records outcome then records
          else records ++ [outcome]), sameOutcome record outcome = true := by
        split_ifs with hlisted
        · exact List.any_eq_true.mp hlisted
        · exact ⟨outcome, List.mem_append_right _ List.mem_cons_self, by simp [sameOutcome]⟩
      exact ⟨record, mem_merge_of_mem hrecord, hsame⟩
    · exact ih h

theorem mem_of_runBackup {plan : BackupRunPlan} {targetKinds : Option (List String)}
    {automatic : Bool} {written : Written} {outcomes : List BackupRecord}
    (hok : runBackup plan targetKinds automatic written = .ok outcomes) (hx : x ∈ outcomes) :
    x = written.localBackup ∨ x = written.cloudBackup := by
  obtain ⟨_, _, hok⟩ := bind_ok hok
  obtain rfl := Except.ok.inj hok
  rcases List.mem_append.mp hx with hx | hx
  · split_ifs at hx
    · exact .inl (List.mem_singleton.mp hx)
    · cases hx
  · split_ifs at hx
    · exact .inr (List.mem_singleton.mp hx)
    · cases hx

theorem replace_records {records : List BackupRecord}
    (hok : mutated env (.replaceBackupRecords records) data = .ok data') :
    x ∈ data'.backupRecords ↔ x ∈ records ∧ ¬ Pruned env data.settings.backup records x := by
  obtain ⟨next, hnext, hok⟩ := bind_ok hok
  obtain rfl := Except.ok.inj hok
  obtain rfl := Except.ok.inj hnext
  exact mem_prune

theorem update_records {backup : BackupSettings}
    (hok : mutated env (.settingsBackupUpdate backup) data = .ok data') :
    x ∈ data'.backupRecords ↔
      x ∈ data.backupRecords ∧ ¬ Pruned env backup data.backupRecords x := by
  obtain ⟨next, hnext, hok⟩ := bind_ok hok
  obtain rfl := Except.ok.inj hok
  obtain ⟨_, _, hnext⟩ := bind_ok hnext
  obtain rfl := Except.ok.inj hnext
  exact mem_prune

theorem delete_records {recordId : String}
    (hok : mutated env (.deleteBackupRecord recordId) data = .ok data') :
    data'.backupRecords = data.backupRecords.eraseP fun record => record.id = recordId := by
  obtain ⟨next, hnext, hok⟩ := bind_ok hok
  obtain rfl := Except.ok.inj hok
  obtain ⟨_, _, hnext⟩ := bind_ok hnext
  obtain rfl := Except.ok.inj hnext
  rfl

/-- The operation brings this record: a run that has written it or lists it, or a restore. -/
def Executed.Brings (x : BackupRecord) : Executed → Prop
  | .run _ _ written listed => x = written.localBackup ∨ x = written.cloudBackup ∨
      ∃ records, listed = .ok records ∧ x ∈ records
  | .restore _ imported => x ∈ imported.backupRecords
  | _ => False

/-- **What is in the list after an operation** was there before, or the operation brings it. -/
theorem mem_execute {e : Executed} (hok : e.execute env data = .ok data')
    (hx : x ∈ data'.backupRecords) : x ∈ data.backupRecords ∨ e.Brings x := by
  cases e with
  | run targetKinds automatic written listed =>
    obtain ⟨outcomes, hrun, hok⟩ := bind_ok hok
    have hmerged := ((replace_records hok).mp hx).1
    cases listed with
    | ok records =>
      rcases mem_of_mem_merge hmerged with hrecord | houtcome
      · exact .inr (.inr (.inr ⟨records, rfl, hrecord⟩))
      · rcases mem_of_runBackup hrun houtcome with heq | heq
        · exact .inr (.inl heq)
        · exact .inr (.inr (.inl heq))
    | error error =>
      rcases mem_of_mem_merge hmerged with hrecord | houtcome
      · exact .inl hrecord
      · rcases mem_of_runBackup hrun houtcome with heq | heq
        · exact .inr (.inl heq)
        · exact .inr (.inr (.inl heq))
  | update next =>
    obtain ⟨backup, _, hok⟩ := bind_ok hok
    exact .inl ((update_records hok).mp hx).1
  | delete recordId =>
    rw [delete_records hok] at hx
    exact .inl (List.mem_of_mem_eraseP hx)
  | clear => cases ((replace_records hok).mp hx).1
  | restore recordId imported =>
    obtain ⟨_, _, hok⟩ := bind_ok hok
    obtain rfl := Except.ok.inj hok
    exact .inr hx
  | other op hop => exact .inl ((sameBackups_mutated hop hok).records ▸ hx)

/-- **The outcomes of a run are recorded**: each has its record, or one with the same target and
outcome, unless retention takes it out at once. -/
theorem run_records {targetKinds : Option (List String)} {automatic : Bool} {written : Written}
    {listed : AppResult (List BackupRecord)}
    (hok : (Executed.run targetKinds automatic written listed).execute env data = .ok data') :
    ∃ outcomes, runBackup (prepareBackupRun data) targetKinds automatic written = .ok outcomes ∧
      ∀ outcome ∈ outcomes, ∃ record, sameOutcome record outcome = true ∧
        (record ∈ data'.backupRecords ∨ Pruned env data.settings.backup
          (mergeConfiguredBackupRecords (prepareBackupRun data) listed outcomes) record) := by
  obtain ⟨outcomes, hrun, hok⟩ := bind_ok hok
  refine ⟨outcomes, hrun, fun outcome houtcome => ?_⟩
  obtain ⟨record, hrecord, hsame⟩ : ∃ record ∈ mergeConfiguredBackupRecords
      (prepareBackupRun data) listed outcomes, sameOutcome record outcome = true := by
    cases listed with
    | ok records => exact exists_mem_merge houtcome
    | error error => exact exists_mem_merge houtcome
  refine ⟨record, hsame, ?_⟩
  by_cases hpruned : Pruned env data.settings.backup
      (mergeConfiguredBackupRecords (prepareBackupRun data) listed outcomes) record
  · exact .inr hpruned
  · exact .inl ((replace_records hok).mpr ⟨hrecord, hpruned⟩)

/-- The operation takes this record out of the list: a run that does not list it, a deletion, a
clearing, a restore of a workspace without it, or retention. -/
def Executed.Removes (env : Env) (data : VaultData) (x : BackupRecord) : Executed → Prop
  | .run targetKinds automatic written listed =>
    (∃ records, listed = .ok records ∧ x ∉ records) ∨
      ∃ outcomes, runBackup (prepareBackupRun data) targetKinds automatic written = .ok outcomes ∧
        Pruned env data.settings.backup
          (mergeConfiguredBackupRecords (prepareBackupRun data) listed outcomes) x
  | .update next => ∃ backup, next data.settings.backup = .ok backup ∧
      Pruned env backup data.backupRecords x
  | .delete recordId => x.id = recordId
  | .clear => True
  | .restore _ imported => x ∉ imported.backupRecords
  | .other _ _ => False

/-- **What is gone after an operation**, the operation removes. -/
theorem execute_removes {e : Executed} (hok : e.execute env data = .ok data')
    (hx : x ∈ data.backupRecords) (hgone : x ∉ data'.backupRecords) : e.Removes env data x := by
  cases e with
  | run targetKinds automatic written listed =>
    obtain ⟨outcomes, hrun, hok⟩ := bind_ok hok
    by_cases hpruned : Pruned env data.settings.backup
        (mergeConfiguredBackupRecords (prepareBackupRun data) listed outcomes) x
    · exact .inr ⟨outcomes, hrun, hpruned⟩
    have hmerged : x ∉ mergeConfiguredBackupRecords (prepareBackupRun data) listed outcomes :=
      fun hin => hgone ((replace_records hok).mpr ⟨hin, hpruned⟩)
    cases listed with
    | ok records => exact .inl ⟨records, rfl, fun hin => hmerged (mem_merge_of_mem hin)⟩
    | error error => exact absurd (mem_merge_of_mem hx) hmerged
  | update next =>
    obtain ⟨backup, hbackup, hok⟩ := bind_ok hok
    refine ⟨backup, hbackup, ?_⟩
    by_contra hkept
    exact hgone ((update_records hok).mpr ⟨hx, hkept⟩)
  | delete recordId =>
    rw [delete_records hok] at hgone
    show x.id = recordId
    by_contra hother
    exact hgone ((List.mem_eraseP_of_neg (by simpa using hother)).mpr hx)
  | clear => trivial
  | restore recordId imported =>
    obtain ⟨_, _, hok⟩ := bind_ok hok
    obtain rfl := Except.ok.inj hok
    exact hgone
  | other op hop => exact hgone ((sameBackups_mutated hop hok).records ▸ hx)

/-! ### One operation after another -/

/-- An operation that has been executed, with what the environment was. -/
structure Commit where
  /-- The command, when it is one that is about backups. -/
  command : Option ℕ
  executed : Executed
  env : Env

/-- The operations, one after another. -/
def replay : List Commit → VaultData → AppResult VaultData
  | [], data => .ok data
  | commit :: log, data => do
    let data ← commit.executed.execute commit.env data
    replay log data

theorem replay_concat {log : List Commit} {commit : Commit} {first : VaultData}
    (h : replay log first = .ok data)
    (hok : commit.executed.execute commit.env data = .ok data') :
    replay (log ++ [commit]) first = .ok data' := by
  induction log generalizing first with
  | nil =>
    obtain rfl := Except.ok.inj h
    rw [List.nil_append, replay, hok]
    rfl
  | cons other log ih =>
    obtain ⟨next, hnext, hrest⟩ := bind_ok h
    rw [List.cons_append, replay, hnext]
    exact ih hrest

/-- The operations up to a point, and those behind it. -/
theorem replay_append {before after : List Commit}
    (hok : replay (before ++ after) data = .ok data') :
    ∃ middle, replay before data = .ok middle ∧ replay after middle = .ok data' := by
  induction before generalizing data with
  | nil => exact ⟨data, rfl, hok⟩
  | cons commit before ih =>
    obtain ⟨next, hnext, hrest⟩ := bind_ok hok
    obtain ⟨middle, hbefore, hafter⟩ := ih hrest
    refine ⟨middle, ?_, hafter⟩
    rw [replay, hnext]
    exact hbefore

/-- **A record comes into the list by an operation that brings it.** -/
theorem replay_brings {log : List Commit} (hok : replay log data = .ok data')
    (hx : x ∈ data'.backupRecords) (hnot : x ∉ data.backupRecords) :
    ∃ commit ∈ log, commit.executed.Brings x := by
  induction log generalizing data with
  | nil =>
    obtain rfl := Except.ok.inj hok
    exact absurd hx hnot
  | cons commit log ih =>
    obtain ⟨next, hnext, hrest⟩ := bind_ok hok
    by_cases hin : x ∈ next.backupRecords
    · exact ⟨commit, List.mem_cons_self, (mem_execute hnext hin).resolve_left hnot⟩
    · obtain ⟨other, hother, hbrings⟩ := ih hrest hin
      exact ⟨other, List.mem_cons_of_mem commit hother, hbrings⟩

/-- **A record goes out of the list by an operation that removes it.** -/
theorem replay_removes {log : List Commit} (hok : replay log data = .ok data')
    (hx : x ∈ data.backupRecords) (hgone : x ∉ data'.backupRecords) :
    ∃ before commit after current, log = before ++ commit :: after ∧
      replay before data = .ok current ∧ commit.executed.Removes commit.env current x := by
  induction log generalizing data with
  | nil =>
    obtain rfl := Except.ok.inj hok
    exact absurd hx hgone
  | cons commit log ih =>
    obtain ⟨next, hnext, hrest⟩ := bind_ok hok
    by_cases hin : x ∈ next.backupRecords
    · obtain ⟨before, other, after, current, rfl, hbefore, hremoves⟩ := ih hrest hin
      refine ⟨commit :: before, other, after, current, rfl, ?_, hremoves⟩
      rw [replay, hnext]
      exact hbefore
    · exact ⟨[], commit, log, data, rfl, rfl, execute_removes hnext hx hin⟩

end Vault
end HelmSsh
