/-
# Which backup records are kept

`prune_backup_records` of `src-tauri/src/vault.rs`, with the files that it hands out for cleanup.
The records are put in descending order of the text of their time, and of each kind of target the
successful ones and the others are counted apart; those beyond the count, which is at least one,
and those that are too old are removed, by their ids.

* `cleanupTargets_eq` — the files that are handed out are those of the records that the loop
  picks.
* `selected_filter_kind` — which records of a kind and an outcome are kept, when the ids are
  distinct.
* `selected_filter_success` — the successful ones that are kept do not depend on the others.
* `prune_retains` — all of this together, and what holds of records that share ids.
-/

import HelmSsh.FirstPerKey
import HelmSsh.Vault.BackupCleanup

namespace HelmSsh
namespace Vault
namespace Retention

open Config FirstPerKey BackupCleanup

/-- What a record is counted with: its outcome and the kind of its target. -/
def kind (record : BackupRecord) : Bool × String :=
  (record.status = "success", record.targetKind)

/-- The records that each kind may have. -/
def retentionCount (settings : BackupSettings) : ℕ :=
  max settings.retentionCount.toNat 1

/-- The file of a record that is removed, by the settings or by those before them. -/
def cleanupTarget (outside : Outside) (settings : BackupSettings) (previous : Option BackupSettings)
    (record : BackupRecord) : Option BackupCleanupTarget :=
  (backupCleanupTarget outside settings record).or
    (previous.bind fun settings => backupCleanupTarget outside settings record)

/-- The loop of `prune_backup_records` once more: the files that it hands out. -/
def cleanupTargets (outside : Outside) (env : Env) (settings : BackupSettings)
    (previous : Option BackupSettings) (seen : List BackupRecord) :
    List BackupRecord → List BackupCleanupTarget
  | [] => []
  | record :: rest =>
    let count := seen.countP fun r =>
      (r.status = "success" ↔ record.status = "success") ∧ r.targetKind = record.targetKind
    let rest := cleanupTargets outside env settings previous (record :: seen) rest
    if count + 1 > max settings.retentionCount.toNat 1 ∨ tooOld env settings record = true then
      (cleanupTarget outside settings previous record).toList ++ rest
    else rest

/-- The order in which the records are gone through. -/
def sorted (records : List BackupRecord) : List BackupRecord :=
  records.insertionSort fun left right => right.createdAt ≤ left.createdAt

/-- `prune_backup_records`, with what it returns. -/
def pruneWithTargets (outside : Outside) (env : Env) (previous : Option BackupSettings)
    (data : VaultData) : VaultData × List BackupCleanupTarget :=
  (pruneBackupRecords env data,
    cleanupTargets outside env data.settings.backup previous [] (sorted data.backupRecords))

/-! ### The loop -/

variable {outside : Outside} {env : Env} {settings : BackupSettings}
  {previous : Option BackupSettings} {data : VaultData}

/-- The record is removed, behind those of `seen`. -/
def removes (env : Env) (settings : BackupSettings) (seen : List BackupRecord)
    (record : BackupRecord) : Bool :=
  retentionCount settings ≤ (seen.countP fun r => kind r = kind record) ||
    tooOld env settings record

theorem removes_iff (seen : List BackupRecord) (record : BackupRecord) :
    removes env settings seen record = true ↔
      (seen.countP fun r => (r.status = "success" ↔ record.status = "success") ∧
          r.targetKind = record.targetKind) + 1 > max settings.retentionCount.toNat 1 ∨
        tooOld env settings record = true := by
  have hcount : (seen.countP fun r => kind r = kind record)
      = seen.countP fun r => (r.status = "success" ↔ record.status = "success") ∧
          r.targetKind = record.targetKind := by
    refine List.countP_congr fun r _ => ?_
    rw [decide_eq_true_iff, decide_eq_true_iff, kind, kind, Prod.mk.injEq, decide_eq_decide]
  rw [removes, Bool.or_eq_true, decide_eq_true_iff, hcount, retentionCount]
  exact or_congr_left Nat.lt_succ_iff.symm

/-- The ids that go are those of the records that the loop picks. -/
theorem removeIds_eq (seen records : List BackupRecord) :
    removeIds env settings seen records
      = (pick (removes env settings) seen records).map BackupRecord.id := by
  induction records generalizing seen with
  | nil => rfl
  | cons record rest ih =>
    rw [removeIds, pick, ih (record :: seen)]
    by_cases hremoves : removes env settings seen record = true
    · rw [if_pos hremoves, if_pos ((removes_iff seen record).mp hremoves)]
      rfl
    · rw [if_neg hremoves, if_neg fun h => hremoves ((removes_iff seen record).mpr h)]

/-- **The files that are handed out** are those of the records that the loop picks. -/
theorem cleanupTargets_eq (seen records : List BackupRecord) :
    cleanupTargets outside env settings previous seen records
      = (pick (removes env settings) seen records).filterMap
          (cleanupTarget outside settings previous) := by
  induction records generalizing seen with
  | nil => rfl
  | cons record rest ih =>
    rw [cleanupTargets, pick, ih (record :: seen)]
    by_cases hremoves : removes env settings seen record = true
    · rw [if_pos hremoves, if_pos ((removes_iff seen record).mp hremoves)]
      cases htarget : cleanupTarget outside settings previous record with
      | none => rw [List.filterMap_cons_none htarget]; rfl
      | some target => rw [List.filterMap_cons_some htarget]; rfl
    · rw [if_neg hremoves, if_neg fun h => hremoves ((removes_iff seen record).mpr h)]

/-- The others are the first of their kind, without those that are too old. -/
theorem pick_not_removes (seen records : List BackupRecord) :
    pick (fun seen record => !removes env settings seen record) seen records
      = (firstPerKey kind (retentionCount settings) seen records).filter
          fun record => !tooOld env settings record := by
  induction records generalizing seen with
  | nil => rfl
  | cons record rest ih =>
    rw [pick, firstPerKey, ih (record :: seen), removes]
    by_cases hroom : (seen.countP fun r => kind r = kind record) < retentionCount settings
    · rw [if_pos hroom, decide_eq_false (Nat.not_le.mpr hroom), Bool.false_or, List.filter_cons]
    · rw [if_neg hroom, decide_eq_true (Nat.not_lt.mp hroom), Bool.true_or, Bool.not_true,
        if_neg Bool.false_ne_true]

/-! ### The records that are kept -/

/-- The records that are kept. -/
def kept (env : Env) (data : VaultData) : List BackupRecord :=
  (pruneBackupRecords env data).backupRecords

theorem kept_eq_filter (env : Env) (data : VaultData) :
    kept env data = (sorted data.backupRecords).filter fun record => record.id ∉
      (pick (removes env data.settings.backup) [] (sorted data.backupRecords)).map
        BackupRecord.id := by
  rw [← removeIds_eq]
  rfl

/-- The first of their kind, without those that are too old. -/
def selected (env : Env) (settings : BackupSettings) (records : List BackupRecord) :
    List BackupRecord :=
  (firstPerKey kind (retentionCount settings) [] (sorted records)).filter
    fun record => !tooOld env settings record

theorem kept_sublist (env : Env) (data : VaultData) :
    (kept env data).Sublist (selected env data.settings.backup data.backupRecords) := by
  rw [kept_eq_filter, selected, ← pick_not_removes]
  exact filter_taken_sublist BackupRecord.id [] (sorted data.backupRecords)

/-- **With distinct ids, these are the records that are kept.** -/
theorem kept_eq (env : Env) {data : VaultData}
    (hids : (data.backupRecords.map BackupRecord.id).Nodup) :
    kept env data = selected env data.settings.backup data.backupRecords := by
  have hsorted : ((sorted data.backupRecords).map BackupRecord.id).Nodup :=
    ((List.perm_insertionSort _ data.backupRecords).map BackupRecord.id).nodup_iff.mpr hids
  rw [kept_eq_filter, selected, ← pick_not_removes]
  exact filter_taken BackupRecord.id hsorted []

/-- Of each kind and outcome, the records in the order of the loop, up to the count, without those
that are too old. -/
theorem selected_filter_kind (env : Env) (settings : BackupSettings) (records : List BackupRecord)
    (k : Bool × String) :
    (selected env settings records).filter (fun record => kind record = k)
      = (((sorted records).filter fun record => kind record = k).take
          (retentionCount settings)).filter fun record => !tooOld env settings record := by
  rw [selected, List.filter_comm, filter_firstPerKey]
  rfl

/-- **The selected records of one outcome** are those of the records of this outcome. -/
theorem selected_filter_success (env : Env) (settings : BackupSettings)
    (records : List BackupRecord) :
    (selected env settings records).filter (fun record => record.status = "success")
      = selected env settings (records.filter fun record => record.status = "success") := by
  have hkind := firstPerKey_filter kind (retentionCount settings) Prod.fst [] (sorted records)
  have hsorted := filter_insertionSort
    (fun left right : BackupRecord => right.createdAt ≤ left.createdAt)
    (fun record => record.status = "success") records
  rw [selected, selected, List.filter_comm]
  refine congrArg (List.filter _) (hkind.trans ?_)
  exact congrArg (firstPerKey kind (retentionCount settings) []) hsorted

/-! ### The rule of retention -/

/-- **What a pruning leaves, and what it hands out.** -/
structure Retains (outside : Outside) (env : Env) (previous : Option BackupSettings)
    (data : VaultData) (records : List BackupRecord)
      (targets : List BackupCleanupTarget) : Prop where
  /-- No more of a kind and an outcome than the count, which is at least one. -/
  count : ∀ k, (records.filter fun record => kind record = k).length
    ≤ max data.settings.backup.retentionCount.toNat 1
  /-- Nothing that is too old, of the records whose time can be read. -/
  age : ∀ record ∈ records, tooOld env data.settings.backup record = false
  /-- In descending order of the texts of the times. -/
  order : records.Pairwise fun left right => right.createdAt ≤ left.createdAt
  /-- Only files of records that are removed are handed out. -/
  removed : ∀ target ∈ targets, ∃ record ∈ data.backupRecords, record ∉ records ∧
    cleanupTarget outside data.settings.backup previous record = some target

/-- **What also holds when no two records share an id.** -/
structure RetainsNewest (outside : Outside) (env : Env) (previous : Option BackupSettings)
    (data : VaultData) (records : List BackupRecord)
      (targets : List BackupCleanupTarget) : Prop where
  /-- The newest of each kind and outcome are kept, but for those that are too old. -/
  newest : ∀ k, records.filter (fun record => kind record = k)
    = (((sorted data.backupRecords).filter fun record => kind record = k).take
        (max data.settings.backup.retentionCount.toNat 1)).filter
        fun record => !tooOld env data.settings.backup record
  /-- The successful records that are kept are those that would be kept without the others. -/
  successes : records.filter (fun record => record.status = "success")
    = kept env { data with backupRecords :=
        data.backupRecords.filter fun record => record.status = "success" }
  /-- The files of all removed records are handed out. -/
  removed : ∀ record ∈ data.backupRecords, record ∉ records → ∀ target,
    cleanupTarget outside data.settings.backup previous record = some target → target ∈ targets

/-- **The rule of retention.** -/
theorem prune_retains (outside : Outside) (env : Env) (previous : Option BackupSettings)
    (data : VaultData) :
    Retains outside env previous data (pruneWithTargets outside env previous data).1.backupRecords
        (pruneWithTargets outside env previous data).2 ∧
      ((data.backupRecords.map BackupRecord.id).Nodup →
        RetainsNewest outside env previous data
          (pruneWithTargets outside env previous data).1.backupRecords
          (pruneWithTargets outside env previous data).2) := by
  change Retains outside env previous data (kept env data) (cleanupTargets _ _ _ _ _ _) ∧
    (_ → RetainsNewest outside env previous data (kept env data) (cleanupTargets _ _ _ _ _ _))
  have hmem (record : BackupRecord) :
      record ∈ sorted data.backupRecords ↔ record ∈ data.backupRecords :=
    List.mem_insertionSort _
  rw [cleanupTargets_eq]
  refine ⟨⟨fun k => ?_, fun record hrecord => ?_, ?_, fun target htarget => ?_⟩, fun hids => ?_⟩
  · have hlength := ((kept_sublist env data).filter fun record => kind record = k).length_le
    refine Nat.le_trans hlength ?_
    rw [selected_filter_kind]
    exact Nat.le_trans (List.length_filter_le _ _) (List.length_take_le _ _)
  · have hselected := (List.mem_filter.mp ((kept_sublist env data).subset hrecord)).2
    rwa [Bool.not_eq_true'] at hselected
  · have hsorted := List.pairwise_insertionSort
      (fun left right : BackupRecord => right.createdAt ≤ left.createdAt) data.backupRecords
    exact hsorted.sublist List.filter_sublist
  · obtain ⟨record, hpicked, heq⟩ := List.mem_filterMap.mp htarget
    refine ⟨record, (hmem record).mp ((pick_sublist [] _).subset hpicked), ?_, heq⟩
    rw [kept_eq_filter, List.mem_filter, decide_eq_true_iff]
    exact fun h => h.2 (List.mem_map_of_mem hpicked)
  · refine ⟨fun k => ?_, ?_, fun record hrecord hremoved target heq => ?_⟩
    · rw [kept_eq env hids]
      exact selected_filter_kind env _ _ k
    · have hfilter := (List.filter_sublist (l := data.backupRecords)
        (p := fun record => record.status = "success")).map BackupRecord.id
      rw [kept_eq env hids, selected_filter_success, kept_eq env (hids.sublist hfilter)]
    · refine List.mem_filterMap.mpr ⟨record, ?_, heq⟩
      have hpicked : record ∈ pick (removes env data.settings.backup) [] _ ∨ _ :=
        mem_pick_or [] ((hmem record).mpr hrecord)
      refine hpicked.resolve_right fun hother => hremoved ?_
      rw [kept_eq env hids, selected, ← pick_not_removes]
      exact hother

/-! ### What does not hold -/

/-- A record of a local backup. -/
def localRecord (id status createdAt : String) : BackupRecord :=
  { id := id, fileName := "helm-backup-1.zip", targetKind := "local",
    targetPath := "/b/helm-backup-1.zip", size := 0, status := status, error := none,
    createdAt := createdAt }

/-- A workspace with these records, and with a count. -/
def withRecords (count : UInt16) (records : List BackupRecord) : VaultData :=
  { VaultData.empty "t" with
    settings := { backup := { retentionCount := count } }
    backupRecords := records }

/-- Two times of the first of January, in hours, one of them with an offset. -/
def hoursEnv : Env :=
  { now := "t", instant := 0, newId := "n",
    parseTime := fun text =>
      if text = "2026-01-01T20:00:00+00:00" then some 20
      else if text = "2026-01-02T00:00:00+10:00" then some 14 else none }

/-- **What does not hold of all records**: a count of zero keeps one record of each kind, a failed
record takes a successful one with it that shares its id, and of two times with different offsets
the earlier one may be kept. -/
theorem prune_not_as_stated :
    (¬ ∀ env data k, ((kept env data).filter fun record => kind record = k).length
        ≤ data.settings.backup.retentionCount.toNat) ∧
      (¬ ∀ env data, (kept env data).filter (fun record => record.status = "success")
        = kept env { data with backupRecords :=
            data.backupRecords.filter fun record => record.status = "success" }) ∧
      ¬ ∀ env data, ∀ x ∈ kept env data, ∀ y ∈ data.backupRecords, y ∉ kept env data →
        kind y = kind x → tooOld env data.settings.backup y = false →
          ∀ t ∈ env.parseTime x.createdAt, ∀ t' ∈ env.parseTime y.createdAt, t' ≤ t := by
  refine ⟨fun h => ?_, fun h => ?_, fun h => ?_⟩
  · have hcount := h hoursEnv (withRecords 0 [localRecord "a" "success" "1"]) (true, "local")
    exact absurd hcount (by decide)
  · have hsame := h hoursEnv (withRecords 1 [localRecord "a" "success" "1",
      localRecord "b" "failed" "3", localRecord "a" "failed" "2"])
    exact absurd hsame (by decide)
  · have hnewest := h hoursEnv
      (withRecords 1 [localRecord "a" "success" "2026-01-01T20:00:00+00:00",
        localRecord "b" "success" "2026-01-02T00:00:00+10:00"])
      (localRecord "b" "success" "2026-01-02T00:00:00+10:00") (by decide)
      (localRecord "a" "success" "2026-01-01T20:00:00+00:00") (by decide) (by decide) (by decide)
      (by decide) 14 (by decide) 20 (by decide)
    exact absurd hnewest (by decide)

end Retention
end Vault
end HelmSsh
