/-
# Backup operations, side by side

Everything that changes the backup records takes `backup_operation`: the manual, the automatic and
the REST run, the deletion of a record, the clearing, the change of the settings and the restore
(`src-tauri/src/commands/backup.rs`, `settings_backup_update` of `commands/vault.rs`,
`mutate_backup_settings`, `rest_backup_run` and `rest_backup_record_delete` of
`src-tauri/src/api_server/handlers_admin.rs`).  A command holds it from its first look at the
records to its end.  A REST handler gives its vault closure to `spawn_blocking`; when its request
is dropped there, it gives up the lock, and the closure is still going to run.

An operation can fail at every step before it is committed.  The ticket and the gate of
`ConfigMutationCoordinator`, which only refuse, are such failures here, and so are errors of files
and servers.  The operations that are not about backups go on in between.  `vault_migrate` and
`vault_skip_migration`, which come before anything else, are left out.

* `backup_records_serialised` — while no command takes the lock as long as the closure of a dropped
  request is to run, the records are those of the committed operations, one after another, in an
  order that agrees with that of the requests;
* `restored_record_reappears` — a restore brings back records that were deleted.
-/

import HelmSsh.Machine
import HelmSsh.Pool
import HelmSsh.Vault.BackupRecords

namespace HelmSsh
namespace Vault
namespace BackupRuns

open Config

/-! ### The commands -/

/-- Who calls the vault: `with_store`, or `vault_blocking` of a REST handler. -/
inductive Driver where
  | desktop
  | rest
  deriving DecidableEq

/-- What a command is asked to do. -/
inductive Request where
  /-- `backup_run_now` and `rest_backup_run` for all targets, `backup_run_auto` for some. -/
  | run (targetKinds : Option (List String)) (automatic : Bool)
  | update (next : BackupSettings → AppResult BackupSettings)
  | delete (recordId : String)
  | clear
  | restore (recordId : String)

/-- There is a REST handler for it. -/
def Request.overRest : Request → Bool
  | .run none false | .update _ | .delete _ => true
  | _ => false

/-- What a command has the vault do. -/
inductive Closure where
  | op (operation : VaultOp)
  | update (next : BackupSettings → AppResult BackupSettings)
  /-- `backup_import_bytes`, with the workspace of the bytes. -/
  | importBytes (imported : VaultData)

/-- The workspace that a closure leaves. -/
def Closure.apply (env : Env) : Closure → VaultData → AppResult VaultData
  | .op operation, data => mutated env operation data
  | .update next, data => backupSettingsMutated env next data
  | .importBytes imported, _ => .ok imported

/-- How a command came to its end. -/
inductive Ended where
  | ok
  | failed
  /-- Its request was dropped. -/
  | dropped
  deriving DecidableEq

/-- How far a command has come.  With a closure stands the operation as a whole. -/
inductive Phase where
  /-- It waits for `backup_operation`. -/
  | waiting
  | holding
  | planned (targetKinds : Option (List String)) (automatic : Bool) (plan : BackupRunPlan)
  | ran (targetKinds : Option (List String)) (automatic : Bool) (plan : BackupRunPlan)
    (written : Written) (outcomes : List BackupRecord)
  | selected (recordId : String)
  | ready (closure : Closure) (executed : Executed)
  | spawned (closure : Closure) (executed : Executed)
  /-- The request was dropped, and the lock given up; the closure will run. -/
  | orphaned (closure : Closure) (executed : Executed)
  /-- The vault is written; the files of removed records are being deleted. -/
  | written
  | ended (how : Ended)

namespace Phase

/-- The command holds `backup_operation`. -/
def holds : Phase → Bool
  | .waiting | .orphaned _ _ | .ended _ => false
  | _ => true

/-- Its closure will run though the request was dropped. -/
def isOrphaned : Phase → Bool
  | .orphaned _ _ => true
  | _ => false

/-- It holds the lock, or its closure will run. -/
def active (phase : Phase) : Bool :=
  phase.holds || phase.isOrphaned

/-- The vault may have been written. -/
def canBeCommitted : Phase → Bool
  | .written | .ended .ok | .ended .dropped => true
  | _ => false

end Phase

/-- A command. -/
structure Command where
  request : Request
  driver : Driver
  phase : Phase

/-- The workspace, the lock, the commands so far, and what was committed, in its order. -/
structure State where
  data : VaultData
  backupOperation : Option ℕ
  commands : List Command
  log : List Commit

/-- One step of a command. -/
inductive CommandEvent where
  | lock
  /-- The records are read. -/
  | prepare
  /-- The packages are written. -/
  | backup (written : Written)
  /-- The files are listed. -/
  | list (listed : AppResult (List BackupRecord))
  /-- The package of a restore is there, and can be decrypted. -/
  | fetch (imported : VaultData)
  | spawnBlocking
  /-- The closure runs. -/
  | commit (env : Env)
  | finish
  | fail
  | dropFuture

/-- One step. -/
inductive Event where
  | begin (request : Request) (driver : Driver)
  | command (i : ℕ) (e : CommandEvent)
  /-- An operation that is not about backups. -/
  | other (op : VaultOp) (hop : op.aboutBackups = false) (env : Env)

namespace State

/-- The command goes on. -/
def put (s : State) (i : ℕ) (c : Command) (phase : Phase) : State :=
  { s with commands := s.commands.set i { c with phase := phase } }

/-- The command gives up the lock. -/
def release (s : State) (i : ℕ) (c : Command) (phase : Phase) : State :=
  { s with commands := s.commands.set i { c with phase := phase }, backupOperation := none }

/-- What a command does once it holds the lock. -/
def prepare (s : State) (i : ℕ) (c : Command) : State :=
  match c.request with
  | .run targetKinds automatic =>
    s.put i c (.planned targetKinds automatic (prepareBackupRun s.data))
  | .update next => s.put i c (.ready (.update next) (.update next))
  | .delete recordId => s.put i c (.ready (.op (.deleteBackupRecord recordId)) (.delete recordId))
  | .clear => s.put i c (.ready (.op (.replaceBackupRecords [])) .clear)
  | .restore recordId =>
    match restorable recordId s.data with
    | .ok _ => s.put i c (.selected recordId)
    | .error _ => s.release i c (.ended .failed)

/-- The data are written, by this command. -/
def write (s : State) (i : ℕ) (executed : Executed) (env : Env) (data : VaultData) : State :=
  { s with data := data, log := s.log ++ [⟨some i, executed, env⟩] }

/-- One step of a command. -/
def commandStep (s : State) (i : ℕ) (c : Command) : CommandEvent → Option State
  | .lock =>
    match c.phase, s.backupOperation with
    | .waiting, none => some { s.put i c .holding with backupOperation := some i }
    | _, _ => none
  | .prepare =>
    match c.phase with
    | .holding => some (s.prepare i c)
    | _ => none
  | .backup written =>
    match c.phase with
    | .planned targetKinds automatic plan =>
      match runBackup plan targetKinds automatic written with
      | .ok outcomes => some (s.put i c (.ran targetKinds automatic plan written outcomes))
      | .error _ => some (s.release i c (.ended .failed))
    | _ => none
  | .list listed =>
    match c.phase with
    | .ran targetKinds automatic plan written outcomes =>
      some (s.put i c (.ready
        (.op (.replaceBackupRecords (mergeConfiguredBackupRecords plan listed outcomes)))
        (.run targetKinds automatic written listed)))
    | _ => none
  | .fetch imported =>
    match c.phase with
    | .selected recordId =>
      some (s.put i c (.ready (.importBytes imported) (.restore recordId imported)))
    | _ => none
  | .spawnBlocking =>
    match c.phase, c.driver with
    | .ready closure executed, .rest => some (s.put i c (.spawned closure executed))
    | _, _ => none
  | .commit env =>
    match c.phase, c.driver with
    | .ready closure executed, .desktop =>
      match closure.apply env s.data with
      | .ok data => some ((s.write i executed env data).put i c .written)
      | .error _ => some (s.release i c (.ended .failed))
    | .spawned closure executed, _ =>
      match closure.apply env s.data with
      | .ok data => some ((s.write i executed env data).put i c .written)
      | .error _ => some (s.release i c (.ended .failed))
    | .orphaned closure executed, _ =>
      match closure.apply env s.data with
      | .ok data => some ((s.write i executed env data).put i c (.ended .dropped))
      | .error _ => some (s.put i c (.ended .dropped))
    | _, _ => none
  | .finish =>
    match c.phase with
    | .written => some (s.release i c (.ended .ok))
    | _ => none
  | .fail =>
    match c.phase with
    | .holding | .planned _ _ _ | .ran _ _ _ _ _ | .selected _ | .ready _ _ | .spawned _ _ =>
      some (s.release i c (.ended .failed))
    | .orphaned _ _ => some (s.put i c (.ended .dropped))
    | _ => none
  | .dropFuture =>
    match c.phase, c.driver with
    | .waiting, .rest => some (s.put i c (.ended .dropped))
    | .holding, .rest | .planned _ _ _, .rest | .ran _ _ _ _ _, .rest | .ready _ _, .rest |
      .written, .rest => some (s.release i c (.ended .dropped))
    | .spawned closure executed, .rest => some (s.release i c (.orphaned closure executed))
    | _, _ => none

/-- One step. -/
def step (s : State) : Event → Option State
  | .begin request driver =>
    if driver = .rest → request.overRest = true then
      some { s with commands := s.commands ++ [⟨request, driver, .waiting⟩] }
    else none
  | .command i e => (s.commands[i]?).bind fun c => s.commandStep i c e
  | .other op hop env =>
    match mutated env op s.data with
    | .ok data => some { s with data := data, log := s.log ++ [⟨none, .other op hop, env⟩] }
    | .error _ => none

end State

/-- The commands at work on a workspace. -/
def machine (first : VaultData) : Machine State Event where
  init := { data := first, backupOperation := none, commands := [], log := [] }
  step := State.step

/-! ### The invariant -/

/-- The operation is what the command is asked for. -/
def Performs : Executed → Request → Prop
  | .run targetKinds automatic _ _, request => request = .run targetKinds automatic
  | .update next, request => request = .update next
  | .delete recordId, request => request = .delete recordId
  | .clear, request => request = .clear
  | .restore recordId _, request => request = .restore recordId
  | .other _ _, _ => False

/-- The closure does what the operation as a whole does, as long as the records and the backup
settings are as they are. -/
def Stands (data : VaultData) (closure : Closure) (executed : Executed) : Prop :=
  ∀ env data', SameBackups data data' → closure.apply env data' = executed.execute env data'

/-- **What a command knows is still so.** -/
def Fits (data : VaultData) (c : Command) : Prop :=
  match c.phase with
  | .planned targetKinds automatic plan =>
    c.request = .run targetKinds automatic ∧ plan = prepareBackupRun data
  | .ran targetKinds automatic plan written outcomes =>
    c.request = .run targetKinds automatic ∧ plan = prepareBackupRun data ∧
      runBackup plan targetKinds automatic written = .ok outcomes
  | .selected recordId =>
    c.request = .restore recordId ∧ ∃ record, restorable recordId data = .ok record
  | .ready closure executed | .spawned closure executed | .orphaned closure executed =>
    Performs executed c.request ∧ Stands data closure executed
  | _ => True

theorem Fits.same {data data' : VaultData} {c : Command} (h : Fits data c)
    (hsame : SameBackups data data') : Fits data' c := by
  unfold Fits at h ⊢
  split at h
  case h_1 => exact ⟨h.1, h.2.trans (prepareBackupRun_same hsame).symm⟩
  case h_2 => exact ⟨h.1, h.2.1.trans (prepareBackupRun_same hsame).symm, h.2.2⟩
  case h_3 => exact ⟨h.1, restorable_same hsame _ ▸ h.2⟩
  case h_4 | h_5 | h_6 => exact ⟨h.1, fun env next hnext => h.2 env next (hsame.trans hnext)⟩
  case h_7 => trivial

theorem fits_of_idle {data : VaultData} {c : Command} (h : c.phase.active = false) :
    Fits data c := by
  unfold Fits
  split
  case h_7 => trivial
  all_goals
    rename_i hphase
    rw [hphase] at h
    cases h

/-- **The invariant.** -/
structure Inv (first : VaultData) (s : State) : Prop where
  /-- Who holds the lock has it. -/
  lock : ∀ (i : ℕ) (c : Command), s.commands[i]? = some c → c.phase.holds = true →
    s.backupOperation = some i
  /-- One command at most is at work. -/
  alone : ∀ (i : ℕ) (c : Command) (j : ℕ) (d : Command), s.commands[i]? = some c →
    s.commands[j]? = some d → c.phase.active = true → d.phase.active = true → i = j
  fits : ∀ (i : ℕ) (c : Command), s.commands[i]? = some c → Fits s.data c
  replay : replay s.log first = .ok s.data
  once : (s.log.filterMap Commit.command).Nodup
  performed : ∀ commit ∈ s.log, ∀ i, commit.command = some i →
    ∃ c : Command, s.commands[i]? = some c ∧
    Performs commit.executed c.request ∧ c.phase.canBeCommitted = true
  succeeded : ∀ (i : ℕ) (c : Command), s.commands[i]? = some c → c.phase = .written ∨
    c.phase = .ended .ok →
    some i ∈ s.log.map Commit.command

variable {first : VaultData} {s s' : State} {i : ℕ} {c : Command}

/-- **A command goes on**, and the lock with it. -/
theorem Inv.move (h : Inv first s) (hc : s.commands[i]? = some c) {phase : Phase}
    {holder : Option ℕ} (hlock : phase.holds = true → holder = some i)
    (hothers : ∀ (j : ℕ) (d : Command), s.commands[j]? = some d → j ≠ i → d.phase.holds = true →
      holder = some j)
    (halone : phase.active = true → ∀ (j : ℕ) (d : Command), s.commands[j]? = some d →
      d.phase.active = true → i = j)
    (hfits : Fits s.data { c with phase := phase })
    (hcommitted : c.phase.canBeCommitted = true → phase.canBeCommitted = true)
    (hsucceeded : phase = .written ∨ phase = .ended .ok → c.phase = .written) :
    Inv first { s with
      commands := s.commands.set i { c with phase := phase }, backupOperation := holder } where
  lock := by
    intro j d hd hholds
    rcases Pool.getElem?_set hd with ⟨rfl, rfl⟩ | ⟨hne, hd⟩
    · exact hlock hholds
    · exact hothers j d hd hne hholds
  alone := by
    intro j d k e hd he hactive hactive'
    rcases Pool.getElem?_set hd with ⟨hj, rfl⟩ | ⟨-, hold⟩
    · rcases Pool.getElem?_set he with ⟨hk, -⟩ | ⟨-, hold'⟩
      · exact hj.trans hk.symm
      · exact hj.trans (halone hactive k e hold' hactive')
    · rcases Pool.getElem?_set he with ⟨hk, rfl⟩ | ⟨-, hold'⟩
      · exact (halone hactive' j d hold hactive).symm.trans hk.symm
      · exact h.alone j d k e hold hold' hactive hactive'
  fits := by
    intro j d hd
    rcases Pool.getElem?_set hd with ⟨rfl, rfl⟩ | ⟨hne, hd⟩
    · exact hfits
    · exact h.fits j d hd
  replay := h.replay
  once := h.once
  performed := by
    intro commit hcommit j hj
    obtain ⟨d, hd, hperforms, hcan⟩ := h.performed commit hcommit j hj
    by_cases hij : i = j
    · subst hij
      obtain rfl := Option.some.inj (hc.symm.trans hd)
      exact ⟨_, Pool.getElem?_set_self hc, hperforms, hcommitted hcan⟩
    · exact ⟨d, (List.getElem?_set_ne hij).trans hd, hperforms, hcan⟩
  succeeded := by
    intro j d hd hphase
    rcases Pool.getElem?_set hd with ⟨rfl, rfl⟩ | ⟨hne, hd⟩
    · exact h.succeeded j c hc (.inl (hsucceeded hphase))
    · exact h.succeeded j d hd hphase

theorem Inv.put (h : Inv first s) (hc : s.commands[i]? = some c) (hholds : c.phase.holds = true)
    (hnot : c.phase.canBeCommitted = false) {phase : Phase}
    (hfits : Fits s.data { c with phase := phase }) (hnot' : phase.canBeCommitted = false) :
    Inv first (s.put i c phase) := by
  have hactive : c.phase.active = true := by rw [Phase.active, hholds, Bool.true_or]
  have hlock := h.lock i c hc hholds
  refine h.move hc (fun _ => hlock) (fun j d hd _ => h.lock j d hd)
    (fun _ j d hd hd' => h.alone i c j d hc hd hactive hd') hfits (fun hcan => ?_) fun hended => ?_
  · rw [hnot] at hcan
    cases hcan
  · rcases hended with rfl | rfl <;> cases hnot'

theorem Inv.release (h : Inv first s) (hc : s.commands[i]? = some c)
    (hholds : c.phase.holds = true) {phase : Phase} (hnot : phase.holds = false)
    (hfits : Fits s.data { c with phase := phase })
    (hcommitted : c.phase.canBeCommitted = true → phase.canBeCommitted = true)
    (hsucceeded : phase = .written ∨ phase = .ended .ok → c.phase = .written) :
    Inv first (s.release i c phase) := by
  have hactive : c.phase.active = true := by rw [Phase.active, hholds, Bool.true_or]
  refine h.move hc (fun hphase => ?_) (fun j d hd hne hd' => ?_)
    (fun _ j d hd hd' => h.alone i c j d hc hd hactive hd') hfits hcommitted hsucceeded
  · rw [hnot] at hphase
    cases hphase
  · have hother : d.phase.active = true := by rw [Phase.active, hd', Bool.true_or]
    exact absurd (h.alone i c j d hc hd hactive hother).symm hne

/-- A command that is not committed is not in the log. -/
theorem Inv.notMem (h : Inv first s) (hc : s.commands[i]? = some c)
    (hnot : c.phase.canBeCommitted = false) : i ∉ s.log.filterMap Commit.command := by
  intro hi
  obtain ⟨commit, hcommit, hcommand⟩ := List.mem_filterMap.mp hi
  obtain ⟨d, hd, -, hcan⟩ := h.performed commit hcommit i hcommand
  obtain rfl := Option.some.inj (hc.symm.trans hd)
  rw [hnot] at hcan
  cases hcan

/-- **A command is committed.** -/
theorem Inv.write (h : Inv first s) (hc : s.commands[i]? = some c)
    (hactive : c.phase.active = true) (hnot : c.phase.canBeCommitted = false) {closure : Closure}
    {executed : Executed} (hperforms : Performs executed c.request)
    (hstands : Stands s.data closure executed) {env : Env} {data : VaultData}
    (hok : closure.apply env s.data = .ok data) {phase : Phase}
    (hcan : phase.canBeCommitted = true) (hholds : phase.holds = true → c.phase.holds = true) :
    Inv first ((s.write i executed env data).put i c phase) where
  lock := by
    intro j d hd hd'
    rcases Pool.getElem?_set hd with ⟨rfl, rfl⟩ | ⟨hne, hd⟩
    · exact h.lock j c hc (hholds hd')
    · exact h.lock j d hd hd'
  alone := by
    intro j d k e hd he hd' he'
    have hold : ∀ (j : ℕ) (d : Command), (s.commands.set i { c with phase := phase })[j]? = some d →
        d.phase.active = true → j = i := by
      intro j d hd hd'
      rcases Pool.getElem?_set hd with ⟨rfl, -⟩ | ⟨-, hd⟩
      · rfl
      · exact h.alone j d i c hd hc hd' hactive
    exact (hold j d hd hd').trans (hold k e he he').symm
  fits := by
    intro j d hd
    rcases Pool.getElem?_set hd with ⟨rfl, rfl⟩ | ⟨hne, hd⟩
    · cases phase with
      | written | ended => trivial
      | waiting | holding | planned | ran | selected | ready | spawned | orphaned => cases hcan
    · refine fits_of_idle (Bool.eq_false_iff.mpr fun hd' => hne ?_)
      exact h.alone j d i c hd hc hd' hactive
  replay := by
    rw [hstands env s.data ⟨rfl, rfl⟩] at hok
    exact replay_concat h.replay hok
  once := by
    show ((s.log ++ [_]).filterMap Commit.command).Nodup
    rw [List.filterMap_append]
    refine List.nodup_append.mpr ⟨h.once, by simp, ?_⟩
    rintro j hj _ hi rfl
    obtain rfl : j = i := by simpa using hi
    exact h.notMem hc hnot hj
  performed := by
    intro commit hcommit j hj
    rcases List.mem_append.mp hcommit with hcommit | hcommit
    · obtain ⟨d, hd, hperforms, hcan'⟩ := h.performed commit hcommit j hj
      have hij : i ≠ j := by
        rintro rfl
        exact h.notMem hc hnot (List.mem_filterMap.mpr ⟨commit, hcommit, hj⟩)
      exact ⟨d, (List.getElem?_set_ne hij).trans hd, hperforms, hcan'⟩
    · obtain rfl := List.mem_singleton.mp hcommit
      obtain rfl := Option.some.inj hj
      exact ⟨_, Pool.getElem?_set_self hc, hperforms, hcan⟩
  succeeded := by
    intro j d hd hphase
    show some j ∈ (s.log ++ [_]).map Commit.command
    rw [List.map_append]
    rcases Pool.getElem?_set hd with ⟨rfl, rfl⟩ | ⟨hne, hd⟩
    · exact List.mem_append_right _ List.mem_cons_self
    · exact List.mem_append_left _ (h.succeeded j d hd hphase)

theorem Inv.begin (h : Inv first s) (request : Request) (driver : Driver) :
    Inv first { s with commands := s.commands ++ [⟨request, driver, .waiting⟩] } where
  lock := by
    intro j d hd hd'
    rcases Pool.getElem?_add hd with ⟨-, rfl⟩ | hd
    · cases hd'
    · exact h.lock j d hd hd'
  alone := by
    intro j d k e hd he hd' he'
    rcases Pool.getElem?_add hd with ⟨-, rfl⟩ | hd
    · cases hd'
    · rcases Pool.getElem?_add he with ⟨-, rfl⟩ | he
      · cases he'
      · exact h.alone j d k e hd he hd' he'
  fits := by
    intro j d hd
    rcases Pool.getElem?_add hd with ⟨-, rfl⟩ | hd
    · trivial
    · exact h.fits j d hd
  replay := h.replay
  once := h.once
  performed := by
    intro commit hcommit j hj
    obtain ⟨d, hd, hrest⟩ := h.performed commit hcommit j hj
    exact ⟨d, Pool.getElem?_add_left hd, hrest⟩
  succeeded := by
    intro j d hd hphase
    rcases Pool.getElem?_add hd with ⟨-, rfl⟩ | hd
    · rcases hphase with hphase | hphase <;> cases hphase
    · exact h.succeeded j d hd hphase

theorem Inv.other (h : Inv first s) {op : VaultOp} (hop : op.aboutBackups = false) {env : Env}
    {data : VaultData} (hok : mutated env op s.data = .ok data) :
    Inv first { s with data := data, log := s.log ++ [⟨none, .other op hop, env⟩] } where
  lock := h.lock
  alone := h.alone
  fits i c hc := (h.fits i c hc).same (sameBackups_mutated hop hok)
  replay := replay_concat h.replay hok
  once := by
    show ((s.log ++ [_]).filterMap Commit.command).Nodup
    rw [List.filterMap_append]
    simpa using h.once
  performed := by
    intro commit hcommit j hj
    rcases List.mem_append.mp hcommit with hcommit | hcommit
    · exact h.performed commit hcommit j hj
    · obtain rfl := List.mem_singleton.mp hcommit
      cases hj
  succeeded := by
    intro j d hd hphase
    show some j ∈ (s.log ++ [_]).map Commit.command
    rw [List.map_append]
    exact List.mem_append_left _ (h.succeeded j d hd hphase)

/-! ### What a step preserves -/

/-- **The condition**: no command takes the lock while the closure of a dropped request is to
run. -/
def Settled (s : State) : Event → Prop
  | .command _ .lock => ∀ c ∈ s.commands, c.phase.isOrphaned = false
  | _ => True

instance decidableSettled (s : State) : (e : Event) → Decidable (Settled s e)
  | .command _ .lock => inferInstanceAs (Decidable (∀ c ∈ s.commands, c.phase.isOrphaned = false))
  | .command _ .prepare | .command _ (.backup _) | .command _ (.list _) | .command _ (.fetch _) |
    .command _ .spawnBlocking | .command _ (.commit _) | .command _ .finish | .command _ .fail |
    .command _ .dropFuture | .begin _ _ | .other _ _ _ => .isTrue trivial

theorem Inv.acquire (h : Inv first s) (hc : s.commands[i]? = some c) (hphase : c.phase = .waiting)
    (hfree : s.backupOperation = none)
    (hsettled : ∀ c ∈ s.commands, c.phase.isOrphaned = false) :
    Inv first { s.put i c .holding with backupOperation := some i } := by
  have hidle : ∀ (j : ℕ) (d : Command), s.commands[j]? = some d → d.phase.active = false := by
    intro j d hd
    rw [Phase.active, hsettled d (List.mem_of_getElem? hd), Bool.or_false, Bool.eq_false_iff]
    intro hholds
    rw [h.lock j d hd hholds] at hfree
    cases hfree
  refine h.move hc (fun _ => rfl) (fun j d hd _ hholds => ?_) (fun _ j d hd hactive => ?_) trivial
    (fun hcan => ?_) fun hended => ?_
  · rw [h.lock j d hd hholds] at hfree
    cases hfree
  · rw [hidle j d hd] at hactive
    cases hactive
  · rw [hphase] at hcan
    cases hcan
  · rcases hended with hended | hended <;> cases hended

/-- A command that fails, or whose request is dropped, gives up the lock. -/
theorem Inv.giveUp (h : Inv first s) (hc : s.commands[i]? = some c)
    (hholds : c.phase.holds = true) {phase : Phase} (hnot : phase.holds = false)
    (hfits : Fits s.data { c with phase := phase })
    (hcommitted : c.phase.canBeCommitted = true → phase.canBeCommitted = true)
    (hended : phase ≠ .ended .ok) : Inv first (s.release i c phase) :=
  h.release hc hholds hnot hfits hcommitted fun hphase => by
    rcases hphase with rfl | hok
    · cases hnot
    · exact absurd hok hended

theorem Inv.fail (h : Inv first s) (hc : s.commands[i]? = some c) (hholds : c.phase.holds = true)
    (hnot : c.phase.canBeCommitted = false) : Inv first (s.release i c (.ended .failed)) :=
  h.giveUp hc hholds rfl trivial (fun hcan => absurd (hnot.symm.trans hcan) (by decide)) (by simp)

theorem Inv.quit (h : Inv first s) (hc : s.commands[i]? = some c) :
    Inv first (s.put i c (.ended .dropped)) :=
  h.move hc (fun hholds => absurd hholds (by decide)) (fun j d hd _ => h.lock j d hd)
    (fun hactive => absurd hactive (by decide)) trivial (fun _ => rfl) (by simp)

theorem Inv.dropped (h : Inv first s) (hc : s.commands[i]? = some c)
    (hholds : c.phase.holds = true) : Inv first (s.release i c (.ended .dropped)) :=
  h.giveUp hc hholds rfl trivial (fun _ => rfl) (by simp)

theorem Inv.prepare (h : Inv first s) (hc : s.commands[i]? = some c)
    (hphase : c.phase = .holding) : Inv first (s.prepare i c) := by
  have hholds : c.phase.holds = true := by rw [hphase]; rfl
  have hnot : c.phase.canBeCommitted = false := by rw [hphase]; rfl
  unfold State.prepare
  split
  case h_1 targetKinds automatic hrequest => exact h.put hc hholds hnot ⟨hrequest, rfl⟩ rfl
  case h_2 next hrequest => exact h.put hc hholds hnot ⟨hrequest, fun _ _ _ => rfl⟩ rfl
  case h_3 recordId hrequest => exact h.put hc hholds hnot ⟨hrequest, fun _ _ _ => rfl⟩ rfl
  case h_4 hrequest => exact h.put hc hholds hnot ⟨hrequest, fun _ _ _ => rfl⟩ rfl
  case h_5 recordId hrequest =>
    split
    case h_1 record hrecord => exact h.put hc hholds hnot ⟨hrequest, record, hrecord⟩ rfl
    case h_2 => exact h.fail hc hholds hnot

/-- **The run of a command as a whole** is that of its steps. -/
theorem stands_run {data : VaultData} {targetKinds : Option (List String)} {automatic : Bool}
    {written : Written} {outcomes : List BackupRecord}
    (hrun : runBackup (prepareBackupRun data) targetKinds automatic written = .ok outcomes)
    (listed : AppResult (List BackupRecord)) :
    Stands data (.op (.replaceBackupRecords
      (mergeConfiguredBackupRecords (prepareBackupRun data) listed outcomes)))
      (.run targetKinds automatic written listed) := by
  intro env data' hsame
  rw [Executed.execute, prepareBackupRun_same hsame, hrun]
  rfl

theorem stands_restore {data : VaultData} {recordId : String} {record : BackupRecord}
    (hrecord : restorable recordId data = .ok record) (imported : VaultData) :
    Stands data (.importBytes imported) (.restore recordId imported) := by
  intro env data' hsame
  rw [Executed.execute, restorable_same hsame, hrecord]
  rfl

theorem Inv.committed (h : Inv first s) (hc : s.commands[i]? = some c)
    (hholds : c.phase.holds = true) (hnot : c.phase.canBeCommitted = false) {closure : Closure}
    {executed : Executed}
    (hfits : Performs executed c.request ∧ Stands s.data closure executed) {env : Env}
    (hstep : (match closure.apply env s.data with
      | .ok data => some ((s.write i executed env data).put i c .written)
      | .error _ => some (s.release i c (.ended .failed))) = some s') : Inv first s' := by
  split at hstep
  case h_1 data hdata =>
    obtain rfl := Option.some.inj hstep
    have hactive : c.phase.active = true := by rw [Phase.active, hholds, Bool.true_or]
    exact h.write hc hactive hnot hfits.1 hfits.2 hdata rfl fun _ => hholds
  case h_2 =>
    obtain rfl := Option.some.inj hstep
    exact h.fail hc hholds hnot

/-- **What a step of a command preserves.** -/
theorem Inv.commandStep (h : Inv first s) (hc : s.commands[i]? = some c) {e : CommandEvent}
    (hok : Settled s (.command i e)) (hstep : s.commandStep i c e = some s') : Inv first s' := by
  have hfits := h.fits i c hc
  cases e with
  | lock =>
    dsimp only [State.commandStep] at hstep
    split at hstep
    case h_1 hphase hfree =>
      obtain rfl := Option.some.inj hstep
      exact h.acquire hc hphase hfree hok
    case h_2 => cases hstep
  | prepare =>
    dsimp only [State.commandStep] at hstep
    split at hstep
    case h_1 hphase =>
      obtain rfl := Option.some.inj hstep
      exact h.prepare hc hphase
    case h_2 => cases hstep
  | backup written =>
    dsimp only [State.commandStep] at hstep
    split at hstep
    case h_1 targetKinds automatic plan hphase =>
      have hholds : c.phase.holds = true := by rw [hphase]; rfl
      have hnot : c.phase.canBeCommitted = false := by rw [hphase]; rfl
      rw [Fits, hphase] at hfits
      split at hstep
      case h_1 outcomes hrun =>
        obtain rfl := Option.some.inj hstep
        exact h.put hc hholds hnot ⟨hfits.1, hfits.2, hrun⟩ rfl
      case h_2 =>
        obtain rfl := Option.some.inj hstep
        exact h.fail hc hholds hnot
    case h_2 => cases hstep
  | list listed =>
    dsimp only [State.commandStep] at hstep
    split at hstep
    case h_1 targetKinds automatic plan written outcomes hphase =>
      obtain rfl := Option.some.inj hstep
      rw [Fits, hphase] at hfits
      obtain ⟨hrequest, rfl, hrun⟩ := hfits
      exact h.put hc (by rw [hphase]; rfl) (by rw [hphase]; rfl)
        ⟨hrequest, stands_run hrun listed⟩ rfl
    case h_2 => cases hstep
  | fetch imported =>
    dsimp only [State.commandStep] at hstep
    split at hstep
    case h_1 recordId hphase =>
      obtain rfl := Option.some.inj hstep
      rw [Fits, hphase] at hfits
      obtain ⟨hrequest, record, hrecord⟩ := hfits
      exact h.put hc (by rw [hphase]; rfl) (by rw [hphase]; rfl)
        ⟨hrequest, stands_restore hrecord imported⟩ rfl
    case h_2 => cases hstep
  | spawnBlocking =>
    dsimp only [State.commandStep] at hstep
    split at hstep
    case h_1 closure executed hphase hdriver =>
      obtain rfl := Option.some.inj hstep
      rw [Fits, hphase] at hfits
      exact h.put hc (by rw [hphase]; rfl) (by rw [hphase]; rfl) hfits rfl
    case h_2 => cases hstep
  | commit env =>
    dsimp only [State.commandStep] at hstep
    split at hstep
    case h_1 closure executed hphase hdriver | h_2 closure executed _ hphase =>
      rw [Fits, hphase] at hfits
      exact h.committed hc (by rw [hphase]; rfl) (by rw [hphase]; rfl) hfits hstep
    case h_3 closure executed _ hphase =>
      rw [Fits, hphase] at hfits
      split at hstep
      case h_1 data hdata =>
        obtain rfl := Option.some.inj hstep
        exact h.write hc (by rw [hphase]; rfl) (by rw [hphase]; rfl) hfits.1 hfits.2 hdata rfl
          fun hholds => absurd hholds (by decide)
      case h_2 =>
        obtain rfl := Option.some.inj hstep
        exact h.quit hc
    case h_4 => cases hstep
  | finish =>
    dsimp only [State.commandStep] at hstep
    split at hstep
    case h_1 hphase =>
      obtain rfl := Option.some.inj hstep
      exact h.release hc (by rw [hphase]; rfl) rfl trivial (fun _ => rfl) fun _ => hphase
    case h_2 => cases hstep
  | fail =>
    dsimp only [State.commandStep] at hstep
    split at hstep
    case h_7 closure executed hphase =>
      obtain rfl := Option.some.inj hstep
      exact h.quit hc
    case h_8 => cases hstep
    all_goals
      rename_i hphase
      obtain rfl := Option.some.inj hstep
      exact h.fail hc (by rw [hphase]; rfl) (by rw [hphase]; rfl)
  | dropFuture =>
    dsimp only [State.commandStep] at hstep
    split at hstep
    case h_1 hphase _ =>
      obtain rfl := Option.some.inj hstep
      exact h.quit hc
    case h_7 closure executed hphase _ =>
      obtain rfl := Option.some.inj hstep
      rw [Fits, hphase] at hfits
      exact h.giveUp hc (by rw [hphase]; rfl) rfl hfits
        (fun hcan => by rw [hphase] at hcan; cases hcan) (by simp)
    case h_8 => cases hstep
    all_goals
      rename_i hphase _
      obtain rfl := Option.some.inj hstep
      exact h.dropped hc (by rw [hphase]; rfl)

/-- **What one step preserves.** -/
theorem Inv.step (h : Inv first s) {e : Event} (hok : Settled s e) (hstep : s.step e = some s') :
    Inv first s' := by
  cases e with
  | begin request driver =>
    obtain ⟨-, rfl⟩ := Option.ite_some_none_eq_some.mp hstep
    exact h.begin request driver
  | command i e =>
    obtain ⟨c, hc, hstep⟩ := Option.bind_eq_some_iff.mp hstep
    exact h.commandStep hc hok hstep
  | other op hop env =>
    dsimp only [State.step] at hstep
    split at hstep
    case h_1 data hdata =>
      obtain rfl := Option.some.inj hstep
      exact h.other hop hdata
    case h_2 => cases hstep

theorem inv_of_run {events : List Event} (hok : (machine first).Meets Settled events)
    (hrun : (machine first).run events = some s) : Inv first s := by
  refine Machine.run_invariant_of ⟨?_, ?_, ?_, rfl, List.nodup_nil, ?_, ?_⟩
    (fun _ _ _ hinv hok hstep => hinv.step hok hstep) hok hrun
  · intro i c hc
    cases hc
  · intro i c j d hc
    cases hc
  · intro i c hc
    cases hc
  · intro commit hcommit
    cases hcommit
  · intro i c hc
    cases hc

/-! ### The order of the commits and that of the requests -/

theorem prepare_log (s : State) (i : ℕ) (c : Command) : (s.prepare i c).log = s.log := by
  unfold State.prepare
  split
  case h_5 => split <;> rfl
  all_goals rfl

theorem commandStep_log_mono {e : CommandEvent} (hstep : s.commandStep i c e = some s') :
    s.log <+: s'.log := by
  cases e with
  | prepare =>
    dsimp only [State.commandStep] at hstep
    split at hstep
    case h_1 =>
      obtain rfl := Option.some.inj hstep
      exact prepare_log s i c ▸ List.prefix_rfl
    case h_2 => cases hstep
  | backup written =>
    dsimp only [State.commandStep] at hstep
    split at hstep
    case h_1 =>
      split at hstep
      all_goals
        obtain rfl := Option.some.inj hstep
        exact List.prefix_rfl
    case h_2 => cases hstep
  | commit env =>
    dsimp only [State.commandStep] at hstep
    split at hstep
    case h_4 => cases hstep
    all_goals
      split at hstep
      · obtain rfl := Option.some.inj hstep
        exact List.prefix_append _ _
      · obtain rfl := Option.some.inj hstep
        exact List.prefix_rfl
  | lock | list listed | fetch imported | spawnBlocking | finish | fail | dropFuture =>
    dsimp only [State.commandStep] at hstep
    split at hstep
    all_goals
      first
      | cases hstep
        done
      | obtain rfl := Option.some.inj hstep
        exact List.prefix_rfl

theorem log_mono {e : Event} (hstep : s.step e = some s') : s.log <+: s'.log := by
  cases e with
  | begin request driver =>
    obtain ⟨-, rfl⟩ := Option.ite_some_none_eq_some.mp hstep
    exact List.prefix_rfl
  | other op hop env =>
    dsimp only [State.step] at hstep
    split at hstep
    case h_1 data hdata =>
      obtain rfl := Option.some.inj hstep
      exact List.prefix_append _ _
    case h_2 => cases hstep
  | command i e =>
    obtain ⟨c, hc, hstep⟩ := Option.bind_eq_some_iff.mp hstep
    exact commandStep_log_mono hstep

/-- **The records are serialised**: they are those of the log, one operation after another; every
command is in it at most once, with what it is asked for, and every one that succeeded is in it. -/
structure Serialised (first : VaultData) (s : State) : Prop where
  sequential : replay s.log first = .ok s.data
  once : (s.log.filterMap Commit.command).Nodup
  performed : ∀ commit ∈ s.log, ∀ i, commit.command = some i → ∃ c : Command,
    s.commands[i]? = some c ∧ Performs commit.executed c.request ∧ c.phase.canBeCommitted = true
  succeeded : ∀ (i : ℕ) (c : Command), s.commands[i]? = some c → c.phase = .ended .ok →
    some i ∈ s.log.map Commit.command
  /-- The outcomes of a run are recorded when it is committed. -/
  recorded : ∀ before commit after, s.log = before ++ commit :: after →
    ∀ targetKinds automatic written listed,
      commit.executed = .run targetKinds automatic written listed →
        ∃ data data' outcomes, replay before first = .ok data ∧
          replay (before ++ [commit]) first = .ok data' ∧
          runBackup (prepareBackupRun data) targetKinds automatic written = .ok outcomes ∧
          ∀ outcome ∈ outcomes, ∃ record, sameOutcome record outcome = true ∧
            (record ∈ data'.backupRecords ∨ Pruned commit.env data.settings.backup
              (mergeConfiguredBackupRecords (prepareBackupRun data) listed outcomes) record)
  /-- What is lost after a commit, a later one removes. -/
  lost : ∀ before after data x, s.log = before ++ after → replay before first = .ok data →
    x ∈ data.backupRecords → x ∉ s.data.backupRecords → ∃ between commit rest current,
      after = between ++ commit :: rest ∧ replay between data = .ok current ∧
        commit.executed.Removes commit.env current x
  /-- What comes back after a commit, a later one brings. -/
  reappears : ∀ before after data x, s.log = before ++ after → replay before first = .ok data →
    x ∉ data.backupRecords → x ∈ s.data.backupRecords → ∃ commit ∈ after, commit.executed.Brings x

theorem Inv.serialised (h : Inv first s) : Serialised first s where
  sequential := h.replay
  once := h.once
  performed := h.performed
  succeeded i c hc hphase := h.succeeded i c hc (.inr hphase)
  recorded := by
    intro before commit after hlog targetKinds automatic written listed hrun
    have hall := h.replay
    rw [hlog] at hall
    obtain ⟨data, hbefore, hafter⟩ := replay_append hall
    obtain ⟨data', hdata', -⟩ := bind_ok hafter
    have hok := hdata'
    rw [hrun] at hok
    obtain ⟨outcomes, houtcomes, hrecords⟩ := run_records hok
    exact ⟨data, data', outcomes, hbefore, replay_concat hbefore hdata', houtcomes, hrecords⟩
  lost := by
    intro before after data x hlog hbefore hx hgone
    have hall := h.replay
    rw [hlog] at hall
    obtain ⟨middle, hmiddle, hafter⟩ := replay_append hall
    obtain rfl := Except.ok.inj (hbefore.symm.trans hmiddle)
    exact replay_removes hafter hx hgone
  reappears := by
    intro before after data x hlog hbefore hnot hx
    have hall := h.replay
    rw [hlog] at hall
    obtain ⟨middle, hmiddle, hafter⟩ := replay_append hall
    obtain rfl := Except.ok.inj (hbefore.symm.trans hmiddle)
    exact replay_brings hafter hx hnot

/-- **The backup records are serialised.**  In a run in which no command takes the lock while the
closure of a dropped request is to run, they are those of the committed operations one after
another; and a command that has succeeded before another one begins comes before it. -/
theorem backup_records_serialised {events : List Event}
    (hok : (machine first).Meets Settled events) (hrun : (machine first).run events = some s) :
    Serialised first s ∧
    ∀ earlier later s₁ i j, ∀ c : Command, events = earlier ++ later →
      (machine first).run earlier = some s₁ → s₁.commands[i]? = some c → c.phase = .ended .ok →
        s₁.commands.length ≤ j → ∃ before after, s.log = before ++ after ∧
          some i ∈ before.map Commit.command ∧ some j ∉ before.map Commit.command := by
  refine ⟨(inv_of_run hok hrun).serialised, ?_⟩
  intro earlier later s₁ i j c hevents hearlier hc hphase hj
  subst hevents
  obtain ⟨t, ht, hlater⟩ := (machine first).runFrom_append_eq_some hrun
  obtain rfl := Option.some.inj (ht.symm.trans hearlier)
  have hinv := inv_of_run (Machine.meetsFrom_append hok ht).1 ht
  obtain ⟨after, hafter⟩ : t.log <+: s.log :=
    Machine.runFrom_invariant (I := fun s => t.log <+: s.log)
    (fun _ _ _ hI hstep => hI.trans (log_mono hstep)) List.prefix_rfl hlater
  refine ⟨t.log, after, hafter.symm, hinv.succeeded i c hc (.inr hphase), fun hmem => ?_⟩
  obtain ⟨commit, hcommit, hcommand⟩ := List.mem_map.mp hmem
  obtain ⟨d, hd, -⟩ := hinv.performed commit hcommit j hcommand
  exact absurd (List.getElem?_eq_some_iff.mp hd).1 (Nat.not_lt.mpr hj)

/-! ### Two runs -/

/-- A record of a local backup. -/
def localRecord (id : String) : BackupRecord :=
  { id := id, fileName := id, targetKind := "local", targetPath := id, size := 0,
    status := "success", error := none, createdAt := "" }

/-- A workspace with these records, and a directory for backups. -/
def workspace (records : List BackupRecord) : VaultData :=
  { version := vaultDataVersion, groups := [], sessions := [], knownHosts := []
    settings := { backup := { localDirectory := some "d" } }, tunnels := []
    backupRecords := records, updatedAt := "" }

/-- An environment. -/
def someEnv : Env :=
  { now := "", instant := 0, newId := "", parseTime := fun _ => none }

/-- The events of one command. -/
def Event.all (i : ℕ) (events : List CommandEvent) : List Event :=
  events.map (.command i)

/-- A record is deleted, and then the backup `b` is restored, which was made before. -/
def restoringRun : List Event :=
  .begin (.delete "a") .desktop :: Event.all 0 [.lock, .prepare, .commit someEnv, .finish] ++
  .begin (.restore "b") .desktop :: Event.all 1
    [.lock, .prepare, .fetch (workspace [localRecord "a", localRecord "b"]), .commit someEnv,
      .finish]

/-- The workspace at its start. -/
def beforeRestoring : VaultData := workspace [localRecord "a", localRecord "b"]

/-- The run is one of those. -/
theorem backup_records_serialised_restoring : ∃ s,
    (machine beforeRestoring).run restoringRun = some s ∧ Serialised beforeRestoring s := by
  have hsome : ((machine beforeRestoring).run restoringRun).isSome = true := by decide +kernel
  obtain ⟨s, hs⟩ := Option.isSome_iff_exists.mp hsome
  exact ⟨s, hs, (backup_records_serialised (by decide +kernel) hs).1⟩

/-- **A restore brings back a record that was deleted**, though no run lists it. -/
theorem restored_record_reappears : ¬ ∀ first events s, (machine first).run events = some s →
    (machine first).Meets Settled events → ∀ before after data x, s.log = before ++ after →
      replay before first = .ok data → x ∉ data.backupRecords → x ∈ s.data.backupRecords →
        ∃ commit ∈ after, ∃ targetKinds automatic written records,
          commit.executed = .run targetKinds automatic written (.ok records) ∧ x ∈ records := by
  intro h
  obtain ⟨s, hs, hlog, hdata⟩ : ∃ s, (machine beforeRestoring).run restoringRun = some s ∧
      s.log = [⟨some 0, .delete "a", someEnv⟩] ++
        [⟨some 1, .restore "b" beforeRestoring, someEnv⟩] ∧ s.data = beforeRestoring :=
    ⟨_, rfl, rfl, rfl⟩
  obtain ⟨commit, hcommit, targetKinds, automatic, written, records, hrun, -⟩ :=
    h beforeRestoring restoringRun s hs (by decide +kernel) _ _ (workspace [localRecord "b"])
      (localRecord "a") hlog rfl (by decide) (hdata ▸ by decide)
  obtain rfl := List.mem_singleton.mp hcommit
  cases hrun

end BackupRuns
end Vault
end HelmSsh
