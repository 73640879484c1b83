/-
# The table of transfers and their tasks

The records of `transfers` in `RemoteRuntime`, each with the task that was spawned for it,
and the calls of `src-tauri/src/remote/runtime_transfer.rs` on them: `start_transfer`,
`transfer_retry`, `transfer_pause`, `transfer_resume`, `cancel_transfer_in_place`,
`transfer_remove`, `prune_transfer_history`, and `clear_finished_transfer_history` and the
load of `transfer_history.rs`.  A record that was removed keeps its place in the list, since
its task and the calls on it may go on.

A call that waits is several events: `cancel_transfer_in_place` sets the status, joins the
task or aborts it, and cleans up after an abort; a removal takes the record out of the table
and `cleanup_transfer_record_staging` deletes its staging file later, unless another record
of the table has the same one.  A call that changes nothing is no event.

Of a task (`run_transfer` in `transfer.rs`), a `TaskPhase` says how far it is: it polls the
flags `cancel` and `paused` until its copy is done, checks the size of the staging file, and
replaces the target.
-/

import Mathlib.Data.List.Basic
import Mathlib.Logic.Function.Basic
import HelmSsh.Machine
import HelmSsh.Pool
import HelmSsh.Transfer.Parts

namespace HelmSsh
namespace Transfer
namespace Table

/-- `TaskStatus`. -/
inductive TaskStatus where
  | queued
  | running
  | paused
  | completed
  | failed
  | canceled
  deriving DecidableEq

/-- `accepts_transfer_activity`. -/
def acceptsTransferActivity : TaskStatus → Bool
  | .queued | .running | .paused => true
  | _ => false

/-- `is_retryable_transfer_state`. -/
def isRetryableTransferState : TaskStatus → Bool
  | .failed | .canceled => true
  | _ => false

/-- `is_removable_transfer_state`. -/
def isRemovableTransferState : TaskStatus → Bool
  | .completed | .failed | .canceled => true
  | _ => false

/-- `MAX_TRANSFER_HISTORY`. -/
def maxTransferHistory : ℕ := 100

/-- `MAX_PENDING_TRANSFERS_PER_SFTP`. -/
def maxPendingTransfersPerSftp : ℕ := 128

/-- How far the task of a transfer is. -/
inductive TaskPhase where
  /-- Before `start_transfer` has told it to start. -/
  | held
  /-- In `acquire_transfer_capacity`. -/
  | waiting
  /-- In `run_transfer`, before `mark_transfer_running`. -/
  | admitted
  /-- In `run_transfer`, until the last poll of `cancel`. -/
  | copying
  /-- Before the check of the size. -/
  | verifying
  /-- Before the replacement of the target. -/
  | committing
  /-- Before `mark_transfer_completed`. -/
  | replaced
  /-- Before `mark_transfer_failed`. -/
  | failed
  | ended
  deriving DecidableEq

/-- How far `cancel_transfer_in_place` is: it joins the task, and cleans up after a forced
abort. -/
inductive CancelCall where
  | none
  | joining
  | cleaning
  | returned
  deriving DecidableEq

/-- The path of a staging file, a number for each; `none` is the empty path of a record of an
old history. -/
abbrev StagingPath := Option ℕ

/-- What `start_transfer` works out before it takes the lock. -/
structure Request where
  sftpId : ℕ
  direction : Direction
  stagingPath : StagingPath
  workerParts : ℕ
  bytesTotal : ℕ
  deriving DecidableEq

/-- A download of four parts. -/
def exampleRequest : Request where
  sftpId := 0
  direction := .download
  stagingPath := some 0
  workerParts := 4
  bytesTotal := 7

/-- `TransferRecord`, its task and the calls on it. -/
structure TransferRecord where
  request : Request
  status : TaskStatus
  bytesDone : ℕ
  bytesTotal : ℕ
  started : Bool
  cancel : Bool
  paused : Bool
  /-- The record is in the table. -/
  listed : Bool
  /-- The record comes from the history of an earlier program. -/
  loaded : Bool
  task : TaskPhase
  /-- `start_transfer` has not told the task to start. -/
  starting : Bool
  canceling : CancelCall
  /-- The calls of `transfer_retry` that have started a new transfer in its place. -/
  retries : ℕ
  /-- `cleanup_transfer_record_staging` is about to run for the removed record. -/
  forgetting : Bool
  deriving DecidableEq

/-- The records in the order of their creation, the sizes of the staging files, the targets
that were replaced (by which transfer, with how many bytes), and the transfers whose staging
file was deleted under their task. -/
structure State where
  records : List TransferRecord
  files : StagingPath → Option ℕ
  replacements : List (ℕ × ℕ)
  trampled : List ℕ

/-- A step of the task of a transfer, or of a call on it. -/
inductive Action where
  | release
  | acquire
  | markRunning
  | progress (bytesDone : ℕ)
  | touch (size : Option ℕ)
  | lastPoll
  | verify
  | replace
  | fail
  | markCompleted
  | markFailed
  | pause
  | resume
  | cancel
  | join
  | abort
  | cancelCleanup
  | remove
  | retryRemove
  | cleanup
  deriving DecidableEq

/-- The steps of the table. -/
inductive Event where
  | start (request : Request)
  | retry (i : ℕ) (request : Request)
  | load (request : Request) (status : TaskStatus) (bytesDone bytesTotal : ℕ)
  | prune (oldest : List ℕ)
  | clear
  | act (i : ℕ) (action : Action)
  deriving DecidableEq

namespace TransferRecord

/-- The record that `start_transfer` inserts. -/
def new (request : Request) : TransferRecord where
  request := request
  status := .queued
  bytesDone := 0
  bytesTotal := request.bytesTotal
  started := false
  cancel := false
  paused := false
  listed := true
  loaded := false
  task := .held
  starting := true
  canceling := .none
  retries := 0
  forgetting := false

/-- A record of the history, which has no task. -/
def load (request : Request) (status : TaskStatus) (bytesDone bytesTotal : ℕ) :
    TransferRecord where
  request := request
  status := status
  bytesDone := bytesDone
  bytesTotal := bytesTotal
  started := false
  cancel := false
  paused := false
  listed := true
  loaded := true
  task := .ended
  starting := false
  canceling := .none
  retries := 0
  forgetting := false

/-- The record is taken out of the table, and its staging file is to be cleaned up. -/
def unlisted (r : TransferRecord) : TransferRecord :=
  { r with listed := false, forgetting := r.forgetting || r.listed }

/-- The record is in the table and counts for the queue of its SFTP session. -/
def active (r : TransferRecord) : Bool :=
  r.listed && acceptsTransferActivity r.status

/-- The record is updated by its task, unless it has been removed or accepts no activity. -/
def mark (r : TransferRecord) (status : TaskStatus) (started : Bool) (bytesDone bytesTotal : ℕ) :
    TransferRecord :=
  if r.active then
    { r with
      status := status
      started := started
      bytesDone := bytesDone
      bytesTotal := bytesTotal }
  else r

/-- The record is in the table and its transfer has ended. -/
def finished (r : TransferRecord) : Bool :=
  r.listed && isRemovableTransferState r.status

/-- The task is at work on its staging file. -/
def uses (r : TransferRecord) : Bool :=
  match r.task with
  | .copying | .verifying | .committing => true
  | _ => false

/-- The task has polled `cancel` for the last time and has not recorded its end. -/
def pastPoll (r : TransferRecord) : Bool :=
  match r.task with
  | .verifying | .committing | .replaced => true
  | _ => false

/-- `cleanup_transfer_staging` has a path, and for an upload a session (`cleanup_sftp`). -/
def cleansUp (r : TransferRecord) : Bool :=
  r.request.stagingPath ≠ none && (r.request.direction = .download || !r.loaded)

/-- When a step of the task or of a call is possible; `file` is the size of the staging file. -/
def Enabled (file : Option ℕ) (r : TransferRecord) : Action → Prop
  | .release => r.starting = true
  | .acquire => r.task = .waiting ∧ r.cancel = false ∧ r.paused = false
  | .markRunning => r.task = .admitted
  | .progress _ => r.task = .copying ∨ r.task = .verifying
  | .touch _ => r.task = .copying
  | .lastPoll => r.task = .copying ∧ r.cancel = false ∧ r.paused = false
  | .verify => r.task = .verifying
  | .replace => r.task = .committing ∧ file.isSome = true
  | .fail => r.task = .waiting ∨ r.task = .admitted ∨ r.uses = true
  | .markCompleted => r.task = .replaced
  | .markFailed => r.task = .failed
  | .pause => r.listed = true ∧ (r.status = .queued ∨ r.status = .running)
  | .resume => r.listed = true ∧ r.status = .paused
  | .cancel => r.active = true
  | .join => r.canceling = .joining ∧ r.task = .ended
  | .abort => r.canceling = .joining ∧ r.task ≠ .ended
  | .cancelCleanup => r.canceling = .cleaning
  | .remove => r.finished = true
  | .retryRemove => 0 < r.retries
  | .cleanup => r.forgetting = true

instance (file : Option ℕ) (r : TransferRecord) (action : Action) :
    Decidable (r.Enabled file action) := by
  cases action <;> unfold Enabled <;> infer_instance

/-- The record after a step of the task or of a call. -/
def next (file : Option ℕ) (r : TransferRecord) : Action → TransferRecord
  | .release =>
    -- The task has gone when it was aborted before: `start_transfer` takes the record back.
    if r.task = .held then { r with starting := false, task := .waiting }
    else { r.unlisted with starting := false }
  | .acquire => { r with task := .admitted }
  | .markRunning =>
    { r.mark (if r.paused then .paused else .running) true r.bytesDone r.bytesTotal with
      task := .copying }
  | .progress bytesDone =>
    r.mark (if r.paused then .paused else .running) r.started bytesDone r.bytesTotal
  | .touch _ => r
  | .lastPoll => { r with task := .verifying }
  | .verify =>
    { r with task := if file = some r.request.bytesTotal then .committing else .failed }
  | .replace => { r with task := .replaced }
  | .fail => { r with task := .failed }
  | .markCompleted =>
    { r.mark .completed r.started r.request.bytesTotal r.request.bytesTotal with task := .ended }
  | .markFailed => { r.mark .failed r.started r.bytesDone r.bytesTotal with task := .ended }
  | .pause => { r with paused := true, status := .paused }
  | .resume => { r with paused := false, status := if r.started then .running else .queued }
  | .cancel => { r with cancel := true, status := .canceled, canceling := .joining }
  | .join => { r with canceling := .returned }
  | .abort =>
    { r with
      task := .ended
      canceling := if 1 < r.request.workerParts then .cleaning else .returned }
  | .cancelCleanup => { r with canceling := .returned }
  | .remove => r.unlisted
  | .retryRemove => { r.unlisted with retries := r.retries - 1 }
  | .cleanup => { r with forgetting := false }

section Mark

variable (r : TransferRecord) (status : TaskStatus) (started : Bool) (bytesDone bytesTotal : ℕ)

@[simp] theorem mark_request :
    (r.mark status started bytesDone bytesTotal).request = r.request := by
  unfold mark
  split_ifs <;> rfl

@[simp] theorem mark_listed :
    (r.mark status started bytesDone bytesTotal).listed = r.listed := by
  unfold mark
  split_ifs <;> rfl

@[simp] theorem mark_loaded :
    (r.mark status started bytesDone bytesTotal).loaded = r.loaded := by
  unfold mark
  split_ifs <;> rfl

@[simp] theorem mark_cancel :
    (r.mark status started bytesDone bytesTotal).cancel = r.cancel := by
  unfold mark
  split_ifs <;> rfl

@[simp] theorem mark_task :
    (r.mark status started bytesDone bytesTotal).task = r.task := by
  unfold mark
  split_ifs <;> rfl

@[simp] theorem mark_canceling :
    (r.mark status started bytesDone bytesTotal).canceling = r.canceling := by
  unfold mark
  split_ifs <;> rfl

theorem mark_status :
    (r.mark status started bytesDone bytesTotal).status =
      if r.active then status else r.status := by
  unfold mark
  split_ifs <;> rfl

end Mark

/-! ### Records stay well formed -/

/-- The status of a record agrees with its task and with the calls on it. -/
structure Wf (r : TransferRecord) : Prop where
  listed : acceptsTransferActivity r.status = true → r.listed = true
  active : r.task ≠ .ended → r.cancel = false → acceptsTransferActivity r.status = true
  ended : r.task = .ended → acceptsTransferActivity r.status = false
  canceled : r.cancel = true → r.status = .canceled
  canceling : r.canceling ≠ .none → r.cancel = true
  cleaning : r.canceling = .cleaning → r.task = .ended
  retried : 0 < r.retries → acceptsTransferActivity r.status = false
  forgetting : r.forgetting = true → r.listed = false
  starting : r.starting = true → r.task = .held ∨ r.task = .ended

theorem status_of_paused (paused : Bool) :
    acceptsTransferActivity (if paused then .paused else .running) = true := by
  split_ifs <;> rfl

theorem not_accepts_of_removable {status : TaskStatus}
    (h : isRemovableTransferState status = true) :
    acceptsTransferActivity status = false := by
  cases status <;> first | rfl | cases h

theorem wf_new (request : Request) : (new request).Wf := by
  constructor <;> simp [new, acceptsTransferActivity]

theorem wf_load (request : Request) {status : TaskStatus} (bytesDone bytesTotal : ℕ)
    (h : isRemovableTransferState status = true) :
    (load request status bytesDone bytesTotal).Wf := by
  have hnot := not_accepts_of_removable h
  constructor <;> simp [load, hnot]

variable {r : TransferRecord}

theorem Wf.goOn (h : r.Wf) {task : TaskPhase} (hended : r.task ≠ .ended) (hheld : r.task ≠ .held)
    (htask : task ≠ .ended) : Wf { r with task := task } where
  listed := h.listed
  active _ := h.active hended
  ended heq := absurd heq htask
  canceled := h.canceled
  canceling := h.canceling
  cleaning heq := absurd (h.cleaning heq) hended
  retried := h.retried
  forgetting := h.forgetting
  starting heq := ((h.starting heq).elim hheld hended).elim

/-- A record that accepts activity is well formed after it got a status that does. -/
theorem Wf.setStatus (h : r.Wf) (hactive : acceptsTransferActivity r.status = true)
    {status : TaskStatus} (hstatus : acceptsTransferActivity status = true) (started paused : Bool)
    (bytesDone bytesTotal : ℕ) :
    Wf { r with
      status := status
      started := started
      paused := paused
      bytesDone := bytesDone
      bytesTotal := bytesTotal } where
  listed _ := h.listed hactive
  active _ _ := hstatus
  ended heq := absurd (h.ended heq) (by rw [hactive]; exact Bool.noConfusion)
  canceled heq := absurd (h.canceled heq) (fun hs => by rw [hs] at hactive; cases hactive)
  canceling := h.canceling
  cleaning := h.cleaning
  retried heq := absurd (h.retried heq) (by rw [hactive]; exact Bool.noConfusion)
  forgetting := h.forgetting
  starting := h.starting

/-- A task marks its record with a status that accepts activity. -/
theorem Wf.mark (h : r.Wf) {status : TaskStatus} (hstatus : acceptsTransferActivity status = true)
    (started : Bool) (bytesDone bytesTotal : ℕ) :
    (r.mark status started bytesDone bytesTotal).Wf := by
  unfold TransferRecord.mark
  split_ifs with hactive
  · exact h.setStatus (Bool.and_eq_true_iff.mp hactive).2 hstatus _ _ _ _
  · exact h

theorem Wf.finish (h : r.Wf) {status : TaskStatus} (started : Bool) (bytesDone bytesTotal : ℕ)
    (hstatus : acceptsTransferActivity status = false) :
    Wf { r.mark status started bytesDone bytesTotal with task := .ended } := by
  unfold TransferRecord.mark
  split_ifs with hactive
  · refine ⟨fun hs => ?_, fun hs => absurd rfl hs, fun _ => hstatus, fun hc => ?_, h.canceling,
      fun _ => rfl, fun _ => hstatus, h.forgetting, fun _ => .inr rfl⟩
    · exact absurd (hstatus.symm.trans hs) Bool.noConfusion
    · have hs := h.canceled hc
      rw [TransferRecord.active, hs] at hactive
      exact absurd (Bool.and_eq_true_iff.mp hactive).2 Bool.noConfusion
  · have hnot : acceptsTransferActivity r.status = false := by
      rw [Bool.eq_false_iff]
      exact fun hs => hactive (Bool.and_eq_true_iff.mpr ⟨h.listed hs, hs⟩)
    exact ⟨h.listed, fun hs => absurd rfl hs, fun _ => hnot, h.canceled, h.canceling, fun _ => rfl,
      h.retried, h.forgetting, fun _ => .inr rfl⟩

/-- A record that accepts no activity is taken out of the table. -/
theorem Wf.unlisted (h : r.Wf) (hnot : acceptsTransferActivity r.status = false) (starting : Bool)
    (hstarting : starting = true → r.starting = true) (retries : ℕ) :
    Wf { r.unlisted with starting := starting, retries := retries } where
  listed hs := absurd (hnot.symm.trans hs) Bool.noConfusion
  active := h.active
  ended := h.ended
  canceled := h.canceled
  canceling := h.canceling
  cleaning := h.cleaning
  retried _ := hnot
  forgetting _ := rfl
  starting hs := h.starting (hstarting hs)

theorem Wf.retry (h : r.Wf) (hretryable : isRetryableTransferState r.status = true) :
    Wf { r with retries := r.retries + 1 } := by
  refine { h with retried := fun _ => ?_ }
  cases hs : r.status <;> rw [hs] at hretryable <;> first | rfl | cases hretryable

/-- **A step of the task or of a call keeps a record well formed.** -/
theorem Wf.next (h : r.Wf) {file : Option ℕ} {action : Action} (henabled : r.Enabled file action) :
    (r.next file action).Wf := by
  have hbetween : ∀ {task : TaskPhase} (task' : TaskPhase), r.task = task → task ≠ .ended →
      task ≠ .held → task' ≠ .ended → Wf { r with task := task' } := by
    intro task task' htask hended hheld hnext
    exact h.goOn (htask ▸ hended) (htask ▸ hheld) hnext
  cases action with
  | release =>
    simp only [TransferRecord.next]
    split_ifs with hheld
    · exact ⟨h.listed, fun _ => h.active (by rw [hheld]; exact TaskPhase.noConfusion),
        fun hs => TaskPhase.noConfusion hs, h.canceled, h.canceling,
        fun hc => absurd (h.cleaning hc) (by rw [hheld]; exact TaskPhase.noConfusion),
        h.retried, h.forgetting, fun hs => Bool.noConfusion hs⟩
    · have hended := (h.starting henabled).resolve_left hheld
      exact h.unlisted (h.ended hended) false (fun hs => Bool.noConfusion hs) r.retries
  | acquire => exact hbetween .admitted henabled.1 (by simp) (by simp) (by simp)
  | markRunning =>
    have hrunning := h.mark (status_of_paused r.paused) true r.bytesDone r.bytesTotal
    refine hrunning.goOn ?_ ?_ (by simp)
    all_goals
      rw [mark_task, show r.task = .admitted from henabled]
      exact TaskPhase.noConfusion
  | progress bytesDone => exact h.mark (status_of_paused r.paused) _ _ _
  | touch size => exact h
  | lastPoll => exact hbetween .verifying henabled.1 (by simp) (by simp) (by simp)
  | verify =>
    refine hbetween _ henabled (by simp) (by simp) ?_
    split_ifs <;> simp
  | replace => exact hbetween .replaced henabled.1 (by simp) (by simp) (by simp)
  | fail =>
    rcases henabled with hwaiting | hadmitted | huses
    · exact hbetween .failed hwaiting (by simp) (by simp) (by simp)
    · exact hbetween .failed hadmitted (by simp) (by simp) (by simp)
    · refine h.goOn ?_ ?_ (by simp)
      all_goals
        intro heq
        rw [uses, heq] at huses
        cases huses
  | markCompleted => exact h.finish _ _ _ rfl
  | markFailed => exact h.finish _ _ _ rfl
  | pause =>
    refine h.setStatus ?_ rfl r.started true _ _
    rcases henabled.2 with hs | hs
    all_goals
      rw [hs]
      rfl
  | resume =>
    refine h.setStatus ?_ ?_ r.started false _ _
    · rw [henabled.2]
      rfl
    · split_ifs <;> rfl
  | cancel =>
    exact ⟨fun hs => Bool.noConfusion hs, fun _ hc => Bool.noConfusion hc, fun _ => rfl,
      fun _ => rfl, fun _ => rfl, fun hc => CancelCall.noConfusion hc, fun _ => rfl, h.forgetting,
      h.starting⟩
  | join =>
    have hcancel := h.canceling (by rw [henabled.1]; exact CancelCall.noConfusion)
    exact { h with canceling := fun _ => hcancel, cleaning := fun hc => CancelCall.noConfusion hc }
  | abort =>
    have hcancel := h.canceling (by rw [henabled.1]; exact CancelCall.noConfusion)
    have hnot : acceptsTransferActivity r.status = false := by
      rw [h.canceled hcancel]
      rfl
    exact { h with
      active := fun hs => absurd rfl hs
      ended := fun _ => hnot
      canceling := fun _ => hcancel
      cleaning := fun _ => rfl
      starting := fun _ => .inr rfl }
  | cancelCleanup =>
    have hcancel := h.canceling (by rw [henabled]; exact CancelCall.noConfusion)
    exact { h with canceling := fun _ => hcancel, cleaning := fun hc => CancelCall.noConfusion hc }
  | remove =>
    have hfinished := (Bool.and_eq_true_iff.mp henabled).2
    exact h.unlisted (not_accepts_of_removable hfinished) r.starting id r.retries
  | retryRemove => exact h.unlisted (h.retried henabled) r.starting id _
  | cleanup => exact { h with forgetting := fun hs => Bool.noConfusion hs }

@[simp] theorem next_request (file : Option ℕ) (r : TransferRecord) (action : Action) :
    (r.next file action).request = r.request := by
  cases action with
  | release =>
    simp only [next]
    split_ifs <;> rfl
  | markRunning => exact mark_request _ _ _ _ _
  | progress bytesDone => exact mark_request _ _ _ _ _
  | markCompleted => exact mark_request _ _ _ _ _
  | markFailed => exact mark_request _ _ _ _ _
  | _ => rfl

end TransferRecord

namespace State

/-- `start_transfer`, from the lock on: the queue of the session has room, and no record with
the same staging file is active. -/
def startTransfer (s : State) (request : Request) : Option State :=
  if (s.records.countP fun r => r.active && r.request.sftpId = request.sftpId) <
      maxPendingTransfersPerSftp ∧
      ∀ r ∈ s.records, r.request.stagingPath = request.stagingPath → r.active = false then
    some { s with records := s.records ++ [.new request] }
  else none

/-- The records that satisfy a condition are taken out of the table. -/
def unlist (s : State) (p : ℕ → TransferRecord → Bool) : State :=
  { s with records := s.records.mapIdx fun i r => if p i r then r.unlisted else r }

/-- Another record of the table has the same staging file. -/
def shared (s : State) (i : ℕ) (path : StagingPath) : Bool :=
  (List.range s.records.length).any fun j =>
    j ≠ i && (s.records[j]?).any fun r => r.listed && r.request.stagingPath = path

/-- The transfers whose task is at work on a staging file. -/
def users (s : State) (path : StagingPath) : List ℕ :=
  (List.range s.records.length).filter fun j =>
    (s.records[j]?).any fun r => r.uses && r.request.stagingPath = path

/-- The action deletes the staging file by its path: `cleanup_transfer_staging`, which
`cleanup_transfer_record_staging` does not call for a shared file. -/
def deletes (s : State) (i : ℕ) (r : TransferRecord) : Action → Bool
  | .cancelCleanup => r.cleansUp
  | .cleanup => r.cleansUp && !s.shared i r.request.stagingPath
  | _ => false

/-- The sizes of the staging files after an action on a record. -/
def filesAfter (s : State) (i : ℕ) (r : TransferRecord) : Action → StagingPath → Option ℕ
  | .touch size => Function.update s.files r.request.stagingPath size
  | .replace => Function.update s.files r.request.stagingPath none
  | action =>
    if s.deletes i r action then Function.update s.files r.request.stagingPath none else s.files

/-- The replaced targets after an action on a record. -/
def replacementsAfter (s : State) (i : ℕ) (r : TransferRecord) : Action → List (ℕ × ℕ)
  | .replace =>
    ((s.files r.request.stagingPath).map fun size => (i, size)).toList ++ s.replacements
  | _ => s.replacements

/-- The state after an action that makes a record another one. -/
def after (s : State) (i : ℕ) (r r' : TransferRecord) (action : Action) : State where
  records := s.records.set i r'
  files := s.filesAfter i r action
  replacements := s.replacementsAfter i r action
  trampled :=
    if s.deletes i r action then s.users r.request.stagingPath ++ s.trampled else s.trampled

end State

/-- The effect of an event. -/
def step (s : State) : Event → Option State
  | .start request => s.startTransfer request
  | .retry i request =>
    (s.records[i]?).bind fun r =>
      if isRetryableTransferState r.status then
        { s with records := s.records.set i { r with retries := r.retries + 1 }
          }.startTransfer request
      else none
  | .load request status bytesDone bytesTotal =>
    if isRemovableTransferState status then
      some { s with records := s.records ++ [.load request status bytesDone bytesTotal] }
    else none
  | .prune oldest =>
    -- The oldest by a wall clock: any of the finished ones.
    if oldest.Nodup ∧ oldest.length = s.records.countP TransferRecord.finished -
      maxTransferHistory ∧
        ∀ i ∈ oldest, (s.records[i]?).any TransferRecord.finished then
      some (s.unlist fun i _ => i ∈ oldest)
    else none
  | .clear => some (s.unlist fun _ r => r.finished)
  | .act i action =>
    (s.records[i]?).bind fun r =>
      let file := s.files r.request.stagingPath
      if r.Enabled file action then some (s.after i r (r.next file action) action) else none

/-- The table of transfers. -/
def table : Machine State Event where
  init := { records := [], files := fun _ => none, replacements := [], trampled := [] }
  step := step

/-! ### The records after a step -/

variable {s s' : State} {request : Request}

/-- A transfer that starts is appended, and no active record has its staging file. -/
theorem startTransfer_eq_some (h : s.startTransfer request = some s') :
    s' = { s with records := s.records ++ [.new request] } ∧
      ∀ r ∈ s.records, r.request.stagingPath = request.stagingPath → r.active = false := by
  unfold State.startTransfer at h
  split_ifs at h with hguard
  exact ⟨(Option.some.inj h).symm, hguard.2⟩

/-- A transfer that is retried starts after the call was noted. -/
theorem retry_eq_some {i : ℕ} (h : step s (.retry i request) = some s') :
    ∃ r, s.records[i]? = some r ∧ isRetryableTransferState r.status = true ∧
      { s with records := s.records.set i { r with retries := r.retries + 1 }
        }.startTransfer request = some s' := by
  obtain ⟨r, hr, h⟩ := Option.bind_eq_some_iff.mp h
  split_ifs at h with hretryable
  exact ⟨r, hr, hretryable, h⟩

/-- A step of a task or of a call is an enabled one of a record. -/
theorem act_eq_some {i : ℕ} {action : Action} (h : step s (.act i action) = some s') :
    ∃ r, s.records[i]? = some r ∧ r.Enabled (s.files r.request.stagingPath) action ∧
      s' = s.after i r (r.next (s.files r.request.stagingPath) action) action := by
  obtain ⟨r, hr, h⟩ := Option.bind_eq_some_iff.mp h
  simp only at h
  split_ifs at h with henabled
  exact ⟨r, hr, henabled, (Option.some.inj h).symm⟩

theorem getElem?_unlist {p : ℕ → TransferRecord → Bool} {i : ℕ} {r' : TransferRecord}
    (h : (s.unlist p).records[i]? = some r') :
    ∃ r, s.records[i]? = some r ∧ r' = if p i r then r.unlisted else r := by
  rw [State.unlist, List.getElem?_mapIdx] at h
  obtain ⟨r, hr, rfl⟩ := Option.map_eq_some_iff.mp h
  exact ⟨r, hr, rfl⟩

theorem prune_eq_some {oldest : List ℕ} (h : step s (.prune oldest) = some s') :
    s' = (s.unlist fun i _ => i ∈ oldest) ∧
      ∀ i ∈ oldest, ∀ r, s.records[i]? = some r → r.finished = true := by
  simp only [step] at h
  split_ifs at h with hguard
  refine ⟨(Option.some.inj h).symm, fun i hi r hr => ?_⟩
  have hfinished := hguard.2.2 i hi
  rwa [hr] at hfinished

/-- All records are well formed. -/
def State.Wf (s : State) : Prop :=
  ∀ (i : ℕ) (r : TransferRecord), s.records[i]? = some r → r.Wf

theorem State.Wf.append (h : s.Wf) {r : TransferRecord} (hr : r.Wf) :
    State.Wf { s with records := s.records ++ [r] } := by
  intro i u hu
  rcases Pool.getElem?_add hu with ⟨_, rfl⟩ | hold
  · exact hr
  · exact h i u hold

theorem State.Wf.set (h : s.Wf) {i : ℕ} {r : TransferRecord} (hr : r.Wf) :
    State.Wf { s with records := s.records.set i r } := by
  intro j u hu
  rcases Pool.getElem?_set hu with ⟨_, rfl⟩ | ⟨_, hold⟩
  · exact hr
  · exact h j u hold

theorem State.Wf.unlist (h : s.Wf) {p : ℕ → TransferRecord → Bool}
    (hp : ∀ i r, s.records[i]? = some r → p i r = true → r.finished = true) :
    (s.unlist p).Wf := by
  intro i r' hr'
  obtain ⟨r, hr, rfl⟩ := getElem?_unlist hr'
  split_ifs with hi
  · have hfinished := (Bool.and_eq_true_iff.mp (hp i r hr hi)).2
    exact (h i r hr).unlisted (TransferRecord.not_accepts_of_removable hfinished) _ id _
  · exact h i r hr

/-- **Records stay well formed.** -/
theorem step_wf {event : Event} (h : s.Wf) (hstep : step s event = some s') : s'.Wf := by
  cases event with
  | start request =>
    obtain ⟨rfl, _⟩ := startTransfer_eq_some hstep
    exact h.append (TransferRecord.wf_new request)
  | retry i request =>
    obtain ⟨r, hr, hretryable, hstart⟩ := retry_eq_some hstep
    obtain ⟨rfl, _⟩ := startTransfer_eq_some hstart
    exact State.Wf.append (h.set ((h i r hr).retry hretryable)) (TransferRecord.wf_new request)
  | load request status bytesDone bytesTotal =>
    obtain ⟨hremovable, rfl⟩ := Option.ite_some_none_eq_some.mp hstep
    exact h.append (TransferRecord.wf_load request bytesDone bytesTotal hremovable)
  | prune oldest =>
    obtain ⟨rfl, hfinished⟩ := prune_eq_some hstep
    exact h.unlist fun i r hr hi => hfinished i (of_decide_eq_true hi) r hr
  | clear =>
    obtain rfl := Option.some.inj hstep
    exact h.unlist fun _ _ _ hr => hr
  | act i action =>
    obtain ⟨r, hr, henabled, rfl⟩ := act_eq_some hstep
    intro j u hu
    rcases Pool.getElem?_set hu with ⟨_, rfl⟩ | ⟨_, hold⟩
    · exact (h i r hr).next henabled
    · exact h j u hold

theorem wf_init : table.init.Wf := by
  intro i r hr
  cases hr

end Table
end Transfer
end HelmSsh
