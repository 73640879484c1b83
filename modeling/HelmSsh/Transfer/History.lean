/-
# The history file of the transfers

`src-tauri/src/remote/transfer_history.rs` and the calls of `runtime_transfer.rs` that
change what it writes.  `persist_transfer_history` writes the whole file from the table in
memory, under `transfer_history_write_lock`; `ensure_transfer_history_loaded` reads it, under
`transfer_history_load_lock`, and adds its records to the table.  At the start of the program
`src-tauri/src/lib.rs` spawns the load beside the commands.

Both are several events here: a persist takes its view of the table and writes it later, a
load reads the file and takes the records over (or moves a file that does not parse aside)
later.  What the tasks of the transfers and the calls on them do to the table is in
`HelmSsh.Transfer.Table`; here they set the status, the error and the time of a record.

The file holds what was given to it; that `serde_json` reads back what it wrote is taken for
granted.  A record has what the history keeps of it, without the fields that no call here
looks at.
-/

import Mathlib.Data.String.Basic
import Mathlib.Data.Prod.Lex
import HelmSsh.Machine
import HelmSsh.Newest
import HelmSsh.Transfer.Table

namespace HelmSsh
namespace Transfer
namespace History

open Table (TaskStatus acceptsTransferActivity isRemovableTransferState maxTransferHistory)

/-- `TRANSFER_HISTORY_VERSION`. -/
def transferHistoryVersion : ℕ := 2

/-- `LEGACY_TRANSFER_HISTORY_VERSION`. -/
def legacyTransferHistoryVersion : ℕ := 1

/-- `TRANSFER_HISTORY_STOPPED_ERROR`. -/
def transferHistoryStoppedError : String := "程序已关闭，传输已停止"

/-- `TransferInfo`, as far as the history looks at it. -/
structure TransferInfo where
  transferId : String
  status : TaskStatus
  error : Option String
  createdAt : String
  updatedAt : String
  deriving DecidableEq

/-- `transfer_timestamp`. -/
def TransferInfo.transferTimestamp (info : TransferInfo) : String :=
  if info.updatedAt = "" then info.createdAt else info.updatedAt

/-- `PersistedTransferRecord`, and of a `TransferRecord` what is persisted. -/
structure TransferRecord where
  info : TransferInfo
  overwrite : Bool
  accelerated : Bool
  stagingPath : String
  workerParts : ℕ
  deriving DecidableEq

namespace TransferRecord

/-- The id of the transfer. -/
def id (r : TransferRecord) : String := r.info.transferId

/-- The transfer has come to an end: `Completed`, `Failed` or `Canceled`. -/
def finished (r : TransferRecord) : Bool := isRemovableTransferState r.info.status

/-- What the view of the table is sorted by: the time, and then the id. -/
def rank (r : TransferRecord) : String ×ₗ String :=
  toLex (r.info.transferTimestamp, r.id)

/-- `worker_parts.max(1)`, which both the view and the load apply. -/
def settled (r : TransferRecord) : TransferRecord :=
  { r with workerParts := max r.workerParts 1 }

/-- `normalize_loaded_transfer`, on the record: a transfer that was active when the program
ended is canceled. -/
def normalizeLoaded (now : String) (r : TransferRecord) : TransferRecord :=
  if acceptsTransferActivity r.info.status then
    { r with
      info := { r.info with
        status := .canceled, error := some transferHistoryStoppedError, updatedAt := now } }
  else
    r

/-- The writes of `mark_transfer_progress` and its like to an active record. -/
def mark (status : TaskStatus) (error : Option String) (now : String) (r : TransferRecord) :
    TransferRecord :=
  { r with
    info := { r.info with status := status, error := error <|> r.info.error, updatedAt := now } }

end TransferRecord

/-- `PersistedTransferHistorySnapshot`. -/
structure Snapshot where
  version : ℕ
  transfers : List TransferRecord
  deriving DecidableEq

/-- What is at the path of the history: nothing, bytes that do not parse, or a snapshot. -/
inductive HistoryFile where
  | absent
  | invalid
  | snapshot (snapshot : Snapshot)
  deriving DecidableEq

namespace HistoryFile

/-- The records of a file. -/
def transfers : HistoryFile → List TransferRecord
  | .snapshot s => s.transfers
  | _ => []

/-- The file is of a version that the load reads. -/
def known : HistoryFile → Bool
  | .snapshot s => s.version == transferHistoryVersion || s.version == legacyTransferHistoryVersion
  | _ => true

end HistoryFile

/-- How far `ensure_transfer_history_loaded` is, behind its lock. -/
inductive LoadPhase where
  | idle
  /-- Before `quarantine_invalid_transfer_history`. -/
  | quarantining
  /-- With the records of the file, before the lock of the table. -/
  | inserting (transfers : List TransferRecord)
  deriving DecidableEq

/-- The load has records to take over. -/
def LoadPhase.holds : LoadPhase → Bool
  | .inserting _ => true
  | _ => false

/-- The table, the file, and the load and the persist that are at work. -/
structure State where
  transfers : List TransferRecord
  file : HistoryFile
  /-- `transfer_history_loaded`. -/
  loaded : Bool
  load : LoadPhase
  /-- The view that a persist has taken and not yet written. -/
  writing : Option (List TransferRecord)
  /-- The transfers between their insertion and `start_sender.send`. -/
  starting : List String
  /-- The ids that the table has had since the program was started. -/
  seen : List String
  deriving DecidableEq

/-- The steps of the program that concern the history. -/
inductive Event where
  /-- `start_transfer` inserts its record. -/
  | start (record : TransferRecord)
  /-- `start_transfer` tells the task to go on. -/
  | started (id : String)
  /-- `start_transfer` finds the task gone and removes the record. -/
  | rollback (id : String)
  /-- A task or a call writes the status of an active record. -/
  | mark (id : String) (status : TaskStatus) (error : Option String) (now : String)
  /-- `transfer_remove`. -/
  | remove (id : String)
  /-- `transfer_retry` removes the record that it has started anew. -/
  | retryRemove (id : String)
  /-- `clear_finished_transfer_history`. -/
  | clear
  /-- `prune_transfer_history`, with the finished records in the order of its sort. -/
  | prune (order : List TransferRecord)
  /-- `persist_transfer_history` takes its view. -/
  | persistView
  /-- `persist_transfer_history` writes its view, or fails to. -/
  | persistWrite (ok : Bool)
  /-- `ensure_transfer_history_loaded` reads the file, or fails to. -/
  | loadRead (ok : Bool)
  /-- The load renames the file that does not parse, or fails to. -/
  | quarantine (ok : Bool)
  /-- The load takes the records over. -/
  | loadInsert (now : String)
  /-- The program ends and is started again. -/
  | restart
  deriving DecidableEq

/-- The ids of the records. -/
def ids (rs : List TransferRecord) : List String :=
  rs.map TransferRecord.id

/-- `transfers.remove(id)`. -/
def removeId (rs : List TransferRecord) (id : String) : List TransferRecord :=
  rs.filter fun r => r.id ≠ id

/-- `entry(id).or_insert_with(record)`. -/
def orInsert (rs : List TransferRecord) (r : TransferRecord) : List TransferRecord :=
  if r.id ∈ ids rs then rs else rs ++ [r]

/-- The loop of the load over the records of the file. -/
def insertLoaded (now : String) (rs loaded : List TransferRecord) : List TransferRecord :=
  loaded.foldl (fun rs r => orInsert rs (r.normalizeLoaded now).settled) rs

/-- `transfer_history_views_from_memory`: the newest records of the table. -/
def view (rs : List TransferRecord) : List TransferRecord :=
  (Newest.newest TransferRecord.rank maxTransferHistory rs).map TransferRecord.settled

/-- How many finished records `prune_transfer_history` removes. -/
def pruneCount (rs : List TransferRecord) : ℕ :=
  (rs.filter TransferRecord.finished).length - maxTransferHistory

namespace State

/-- At the start of the program nothing is loaded. -/
def fresh (file : HistoryFile) : State where
  transfers := []
  file := file
  loaded := false
  load := .idle
  writing := none
  starting := []
  seen := []

/-- The record of an id. -/
def find (s : State) (id : String) : Option TransferRecord :=
  s.transfers.find? fun r => r.id = id

/-- The events that are possible.  The id of a new transfer is a new UUID. -/
def Enabled (s : State) : Event → Prop
  | .start record =>
    record.info.status = .queued ∧ record.id ∉ s.seen ∧ record.id ∉ ids s.transfers ∧
      record.id ∉ ids s.file.transfers
  | .started id => id ∈ s.starting
  | .rollback id => id ∈ s.starting
  | .mark id _ _ _ => (s.find id).any fun r => acceptsTransferActivity r.info.status
  | .remove id => (s.find id).all TransferRecord.finished
  | .retryRemove id => (s.find id).all TransferRecord.finished
  | .clear => s.loaded = true
  | .prune order =>
    order.Perm (s.transfers.filter TransferRecord.finished) ∧
      order.Pairwise fun a b => a.info.updatedAt ≤ b.info.updatedAt
  | .persistView => s.writing = none
  | .persistWrite _ => s.writing.isSome
  | .loadRead _ => s.loaded = false ∧ s.load = .idle
  | .quarantine _ => s.load = .quarantining
  | .loadInsert _ => s.load.holds
  | .restart => True

instance (s : State) (e : Event) : Decidable (s.Enabled e) := by
  cases e <;> unfold Enabled <;> infer_instance

/-- What the load does with what it has read. -/
def read (s : State) : State :=
  match s.file with
  | .absent => { s with loaded := true }
  | .invalid => { s with load := .quarantining }
  | .snapshot snapshot =>
    if snapshot.version ≠ transferHistoryVersion ∧
        snapshot.version ≠ legacyTransferHistoryVersion then
      { s with loaded := true }
    else
      { s with load := .inserting snapshot.transfers }

/-- The load takes the records over that it has read. -/
def takeOver (s : State) (now : String) : State :=
  match s.load with
  | .inserting rs =>
    { s with
      transfers := insertLoaded now s.transfers rs
      seen := s.seen ++ ids rs
      load := .idle
      loaded := true }
  | _ => s

/-- The state after an event that is possible. -/
def next (s : State) : Event → State
  | .start record =>
    { s with
      transfers := s.transfers ++ [record]
      starting := s.starting ++ [record.id]
      seen := s.seen ++ [record.id] }
  | .started id => { s with starting := s.starting.filter (· ≠ id) }
  | .rollback id =>
    { s with transfers := removeId s.transfers id, starting := s.starting.filter (· ≠ id) }
  | .mark id status error now =>
    { s with
      transfers := s.transfers.map fun r => if r.id = id then r.mark status error now else r }
  | .remove id => { s with transfers := removeId s.transfers id }
  | .retryRemove id => { s with transfers := removeId s.transfers id }
  | .clear =>
    { s with transfers := s.transfers.filter fun r => acceptsTransferActivity r.info.status }
  | .prune order =>
    { s with
      transfers := s.transfers.filter fun r => r.id ∉ ids (order.take (pruneCount s.transfers)) }
  | .persistView => { s with writing := some (view s.transfers) }
  | .persistWrite ok =>
    { s with
      file := if ok then .snapshot ⟨transferHistoryVersion, s.writing.getD []⟩ else s.file
      writing := none }
  | .loadRead ok => if ok then s.read else s
  | .quarantine ok =>
    { s with file := if ok then .absent else s.file, load := .idle, loaded := true }
  | .loadInsert now => s.takeOver now
  | .restart => fresh s.file

end State

/-- The program with a history file. -/
def history (file : HistoryFile) : Machine State Event :=
  .guarded (.fresh file) State.Enabled State.next

end History
end Transfer
end HelmSsh
