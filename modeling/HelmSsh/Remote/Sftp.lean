/-
# SFTP sessions and their transfers

The table `sftp_sessions` of `RemoteRuntime`, and the calls on it: `open_sftp` and `close_sftp`
of `src-tauri/src/remote/runtime_sftp.rs`, and `start_transfer` of
`src-tauri/src/remote/runtime_transfer.rs` as far as it depends on its session (what happens to
the record afterwards is in `HelmSsh.Transfer.Table`).

The calls of `open_sftp` on one connection are serialized by a lock of the registry
`sftp_open_locks`, which is taken before the table is searched and held until the new record is
in the table.  An `open_sftp` is numbered, and its number stands for the fresh identifier of its
record.  The channel of a record is open until `SftpRecord::close`, or until a call that fails
drops it.
-/

import HelmSsh.Remote.Forwards

namespace HelmSsh
namespace Remote
namespace Sftp

/-- How far an `open_sftp` is. -/
inductive OpenPhase where
  /-- Before the lock of the connection. -/
  | begun
  | waiting
  /-- Before the search for a record of the connection. -/
  | finding
  /-- Before the connection is looked up. -/
  | looking
  /-- The channel is being opened. -/
  | opening
  /-- The channel is open, and the builder of the pool is installed. -/
  | opened
  /-- The record is in the table, and the builder is to be told. -/
  | published
  /-- `Ok` with the record, or `Err`. -/
  | returned (result : Option ℕ)
  | dropped
  deriving DecidableEq

/-- A call of `open_sftp`, its channel and its record. -/
structure Open where
  connectionId : ℕ
  phase : OpenPhase
  /-- The channel is open. -/
  channel : Bool
  /-- The record is in the table. -/
  listed : Bool
  /-- The flag `closed` of the record. -/
  closed : Bool
  /-- The task that builds the pool was not aborted. -/
  builder : Bool
  deriving DecidableEq

/-- How far a `close_sftp` is. -/
inductive ClosePhase where
  | begun
  /-- The record was removed, before `begin_close`. -/
  | removed
  /-- Before the transfers of the session are listed. -/
  | listing
  /-- In `cancel_transfers_for_sftp_ids`. -/
  | canceling (transfers : List ℕ)
  | returned (ok : Bool)
  deriving DecidableEq

/-- A call of `close_sftp`. -/
structure Close where
  sftpId : ℕ
  phase : ClosePhase
  deriving DecidableEq

/-- How far a `start_transfer` is. -/
inductive TransferPhase where
  /-- It looks at the source and the target, and holds the gate. -/
  | preparing
  /-- Before the table of the sessions is read again. -/
  | admitted
  /-- The record is in the table. -/
  | published
  | returned
  | dropped
  deriving DecidableEq

/-- A call of `start_transfer`, and whether its record accepts activity. -/
structure Transfer where
  sftpId : ℕ
  phase : TransferPhase
  active : Bool
  deriving DecidableEq

/-- The calls that wait for the lock of a connection: `open_sftp`, and the teardown of the
connection. -/
inductive Caller where
  | opener (i : ℕ)
  | teardown (connectionId : ℕ)
  deriving DecidableEq

/-- The calls and the locks `sftp_open_locks`. -/
structure State where
  opens : List Open
  closes : List Close
  transfers : List Transfer
  locks : KeyedLocks ℕ Caller

/-- A step of an `open_sftp`. -/
inductive OpenAction where
  | getLock
  | acquire
  | find
  | look
  /-- The channel was opened, or it was not, or the subsystem was refused on it. -/
  | open (ok : Bool)
  | insert
  | signal
  | dropCaller
  deriving DecidableEq

/-- A step of a `close_sftp`. -/
inductive CloseAction where
  | remove
  | beginClose
  | list
  | cancel (transfer : ℕ) (rest : List ℕ)
  | close
  deriving DecidableEq

/-- A step of a `start_transfer`, or of the transfer itself. -/
inductive TransferAction where
  | leaveGate
  /-- The record is inserted while the table of the sessions is read, or the call fails. -/
  | publish
  | refuse
  | finish
  | dropCaller
  /-- The transfer completes, fails or is canceled. -/
  | end
  deriving DecidableEq

/-- The steps of the calls. -/
inductive Event where
  | open (connectionId : ℕ)
  | close (sftpId : ℕ)
  | start (sftpId : ℕ)
  | openAct (i : ℕ) (action : OpenAction)
  | closeAct (j : ℕ) (action : CloseAction)
  | transferAct (k : ℕ) (action : TransferAction)
  deriving DecidableEq

namespace Open

/-- The record is one that `open_sftp` reuses. -/
def usable (o : Open) (connectionId : ℕ) : Bool :=
  o.listed && o.connectionId = connectionId && !o.closed

/-- The caller may be gone at the phases that wait. -/
def waits (o : Open) : Bool :=
  match o.phase with
  | .published | .returned _ | .dropped => false
  | _ => true

/-- The call holds the gate. -/
def inGate (o : Open) : Bool :=
  match o.phase with
  | .returned _ | .dropped => false
  | _ => true

end Open

namespace State

/-- An `open_sftp` is replaced. -/
def setOpen (s : State) (i : ℕ) (o : Open) : State :=
  { s with opens := s.opens.set i o }

/-- A `close_sftp` is replaced. -/
def setClose (s : State) (j : ℕ) (c : Close) : State :=
  { s with closes := s.closes.set j c }

/-- A transfer is replaced. -/
def setTransfer (s : State) (k : ℕ) (t : Transfer) : State :=
  { s with transfers := s.transfers.set k t }

/-- An `open_sftp` returns. -/
def finish (s : State) (i : ℕ) (o : Open) (result : Option ℕ) : State :=
  { s.setOpen i { o with phase := .returned result } with locks := s.locks.drop (.opener i) }

/-- The session is in the table and was not closed (`sftp_record`). -/
def live (s : State) (sftpId : ℕ) : Bool :=
  (s.opens[sftpId]?).any fun o => o.listed && !o.closed

/-- `record.begin_close`. -/
def beginClose (s : State) (i : ℕ) : State :=
  { s with opens := s.opens.modify i fun o => { o with closed := true } }

/-- The record is removed from the table. -/
def unlist (s : State) (i : ℕ) : State :=
  { s with opens := s.opens.modify i fun o => { o with listed := false } }

/-- `SftpRecord::close`. -/
def closeRecord (s : State) (i : ℕ) : State :=
  { s with
    opens := s.opens.modify i fun o =>
      { o with closed := true, builder := false, channel := false } }

/-- `cancel_transfer_in_place`. -/
def cancelTransfer (s : State) (k : ℕ) : State :=
  { s with transfers := s.transfers.modify k fun t => { t with active := false } }

/-- The active transfers of some sessions. -/
def transfersOf (s : State) (sftpIds : List ℕ) : List ℕ :=
  (List.range s.transfers.length).filter fun k =>
    (s.transfers[k]?).any fun t => t.active && sftpIds.contains t.sftpId

/-- The sessions of a connection that are in the table. -/
def sessionsOf (s : State) (connectionId : ℕ) : List ℕ :=
  (List.range s.opens.length).filter fun i =>
    (s.opens[i]?).any fun o => o.listed && o.connectionId = connectionId

end State

/-- When a step of an `open_sftp` is possible. -/
def Open.Enabled (s : State) (i : ℕ) (o : Open) : OpenAction → Prop
  | .getLock => o.phase = .begun
  | .acquire => o.phase = .waiting ∧ s.locks.Free (.opener i)
  | .find => o.phase = .finding
  | .look => o.phase = .looking
  | .open _ => o.phase = .opening
  | .insert => o.phase = .opened
  | .signal => o.phase = .published
  | .dropCaller => o.waits = true

instance (s : State) (i : ℕ) (o : Open) (action : OpenAction) :
    Decidable (o.Enabled s i action) := by
  cases action <;> unfold Open.Enabled <;> infer_instance

/-- The state after a step of an `open_sftp`. -/
def State.afterOpen (s : State) (env : Surroundings) (i : ℕ) (o : Open) : OpenAction → State
  | .getLock =>
    { s.setOpen i { o with phase := .waiting } with
      locks := s.locks.get (.opener i) o.connectionId }
  | .acquire =>
    { s.setOpen i { o with phase := .finding } with locks := s.locks.lock (.opener i) }
  | .find =>
    match s.opens.findIdx? fun p => p.usable o.connectionId with
    | some existing => s.finish i o (some existing)
    | none => s.setOpen i { o with phase := .looking }
  | .look =>
    match env.connections o.connectionId with
    | some _ => s.setOpen i { o with phase := .opening }
    | none => s.finish i o none
  | .open ok =>
    if ok then s.setOpen i { o with phase := .opened, channel := true, builder := true }
    else s.finish i o none
  | .insert => s.setOpen i { o with phase := .published, listed := true }
  | .signal =>
    if o.builder then s.finish i o (some i)
    else s.finish i { o with listed := false, closed := true, channel := false } none
  | .dropCaller =>
    { s.setOpen i { o with phase := .dropped, channel := false, builder := false } with
      locks := s.locks.drop (.opener i) }

/-- When a step of a `close_sftp` is possible. -/
def Close.Enabled (c : Close) : CloseAction → Prop
  | .remove => c.phase = .begun
  | .beginClose => c.phase = .removed
  | .list => c.phase = .listing
  | .cancel transfer rest => c.phase = .canceling (transfer :: rest)
  | .close => c.phase = .canceling []

instance (c : Close) (action : CloseAction) : Decidable (c.Enabled action) := by
  cases action <;> unfold Close.Enabled <;> infer_instance

/-- The state after a step of a `close_sftp`. -/
def State.afterClose (s : State) (j : ℕ) (c : Close) : CloseAction → State
  | .remove =>
    if (s.opens[c.sftpId]?).any (·.listed) then
      (s.unlist c.sftpId).setClose j { c with phase := .removed }
    else s.setClose j { c with phase := .returned false }
  | .beginClose => (s.beginClose c.sftpId).setClose j { c with phase := .listing }
  | .list => s.setClose j { c with phase := .canceling (s.transfersOf [c.sftpId]) }
  | .cancel transfer rest =>
    (s.cancelTransfer transfer).setClose j { c with phase := .canceling rest }
  | .close => (s.closeRecord c.sftpId).setClose j { c with phase := .returned true }

/-- The call may be left at the phases that wait, when a check fails or its caller is gone. -/
def Transfer.waits (t : Transfer) : Bool :=
  match t.phase with
  | .preparing | .admitted => true
  | _ => false

/-- When a step of a transfer is possible. -/
def Transfer.Enabled (s : State) (t : Transfer) : TransferAction → Prop
  | .leaveGate => t.phase = .preparing
  | .publish => t.phase = .admitted ∧ s.live t.sftpId = true
  | .refuse => t.waits = true
  | .finish => t.phase = .published
  | .dropCaller => t.waits = true ∨ t.phase = .published
  | .end => t.active = true

instance (s : State) (t : Transfer) (action : TransferAction) :
    Decidable (t.Enabled s action) := by
  cases action <;> unfold Transfer.Enabled <;> infer_instance

/-- A transfer after a step. -/
def Transfer.next (s : State) (t : Transfer) : TransferAction → Transfer
  | .leaveGate =>
    { t with
      phase := if (s.opens[t.sftpId]?).any (·.closed) then .returned else .admitted }
  | .publish => { t with phase := .published, active := true }
  | .refuse => { t with phase := .returned }
  | .finish => { t with phase := .returned }
  | .dropCaller => { t with phase := .dropped }
  | .end => { t with active := false }

/-- The effect of an event. -/
def step (env : Surroundings) (s : State) : Event → Option State
  | .open connectionId =>
    if env.gateOpen then
      some { s with opens := s.opens ++ [⟨connectionId, .begun, false, false, false, false⟩] }
    else none
  | .close sftpId => some { s with closes := s.closes ++ [⟨sftpId, .begun⟩] }
  | .start sftpId =>
    if env.gateOpen && s.live sftpId &&
        (s.opens[sftpId]?).any fun o => (env.connections o.connectionId).isSome then
      some { s with transfers := s.transfers ++ [⟨sftpId, .preparing, false⟩] }
    else none
  | .openAct i action =>
    (s.opens[i]?).bind fun o =>
      if o.Enabled s i action then some (s.afterOpen env i o action) else none
  | .closeAct j action =>
    (s.closes[j]?).bind fun c =>
      if c.Enabled action then some (s.afterClose j c action) else none
  | .transferAct k action =>
    (s.transfers[k]?).bind fun t =>
      if t.Enabled s action then some (s.setTransfer k (t.next s action)) else none

/-- No call was made. -/
def init : State where
  opens := []
  closes := []
  transfers := []
  locks := .empty

end Sftp
end Remote
end HelmSsh
