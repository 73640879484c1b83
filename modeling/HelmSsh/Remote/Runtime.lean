/-
# The registry of the connections and its children

`RemoteRuntime` with all its tables: the connections, the terminals and telemetry jobs
(`HelmSsh.Remote.Children`), the SFTP sessions with their transfers (`HelmSsh.Remote.Sftp`) and
the port forwards (`HelmSsh.Remote.Forwards`), and what closes a connection.

`disconnect`, the reaper of dead connections, the reader of a terminal that finds its connection
dead, and `shutdown_all` all take the connection out of the registry and then run
`close_children_for_connection` of `src-tauri/src/remote/runtime_registry.rs`, which drains one
table after the other.  The `Stage` of a connection says how far this is.  `shutdown_all` holds
the gate `lifecycle_gate` for writing, closes one connection after the other, and then drains
what is left in the tables (`close_all_orphans`).  The registry is not written while a stop of a
forward reads it (`Forward.State.registryFree`).

A teardown may be cut off at any wait: that of a request whose client disconnects, or that of a
terminal's reader when the terminal is closed.
-/

import HelmSsh.Machine
import HelmSsh.Remote.Children
import HelmSsh.Remote.Forwards
import HelmSsh.Remote.Sftp

namespace HelmSsh
namespace Remote

open Children (Child Kind)
open Forward (ForwardRecord)

/-- How far the teardown of a connection is. -/
inductive Stage where
  | registered
  | terminalsListing
  | terminalsRemoving (terminals : List ℕ)
  /-- In `remove_sftp_sessions_for_connection`. -/
  | sftpWaiting
  | sftpListing
  | sftpTaking (sessions : List ℕ)
  /-- In `cancel_transfers_for_sftp_ids`. -/
  | transfersListing (sessions : List ℕ)
  | transfersCanceling (sessions transfers : List ℕ)
  | sftpClosing (sessions : List ℕ)
  /-- In `cancel_telemetry_for_connection`. -/
  | telemetryTaking (jobs : List ℕ)
  /-- In `cancel_forwards_for_connection`. -/
  | forwardsListing
  | forwardsTaking (forwards : List ℕ)
  | forwardsCanceling (taken : List (ℕ × ForwardRecord))
  | finished
  /-- The teardown was cut off. -/
  | aborted
  /-- The connection was drained by `close_all_orphans`. -/
  | drained
  deriving DecidableEq

/-- A connection and its teardown. -/
structure ConnectionRecord where
  info : Connection
  stage : Stage
  deriving DecidableEq

/-- How far `shutdown_all` is. -/
inductive Shutdown where
  | idle
  | closing (connections : List ℕ)
  | awaiting (connection : ℕ) (connections : List ℕ)
  /-- In `close_all_orphans`. -/
  | sftpDraining
  | transfersListing (sessions : List ℕ)
  | transfersCanceling (sessions transfers : List ℕ)
  | sftpClosing (sessions : List ℕ)
  | forwardsDraining
  | forwardsCanceling (taken : List (ℕ × ForwardRecord))
  deriving DecidableEq

/-- The state of `RemoteRuntime`. -/
structure Runtime where
  connections : List ConnectionRecord
  shutdown : Shutdown
  children : List Child
  sftp : Sftp.State
  forwards : Forward.State

/-- A step of the teardown of a connection. -/
inductive TeardownAction where
  | listTerminals
  | removeTerminal (terminal : ℕ) (rest : List ℕ)
  | getSftpLock
  | acquireSftp
  | listSftp
  | takeSftp (sessions : List ℕ)
  | listTransfers (sessions : List ℕ)
  | cancelTransfer (sessions : List ℕ) (transfer : ℕ) (rest : List ℕ)
  | transfersCanceled (sessions : List ℕ)
  | closeSftp (session : ℕ) (rest : List ℕ)
  | listTelemetry
  | takeTelemetry (jobs : List ℕ)
  | listForwards
  | takeForwards (forwards : List ℕ)
  | cancelForward (forward : ℕ) (record : ForwardRecord) (rest : List (ℕ × ForwardRecord))
  | finish
  | abort
  deriving DecidableEq

/-- A step of `shutdown_all`. -/
inductive ShutdownAction where
  | begin
  | close (connection : ℕ) (rest : List ℕ)
  | resume (connection : ℕ) (rest : List ℕ)
  | drainTerminals
  | drainSftp
  | listTransfers (sessions : List ℕ)
  | cancelTransfer (sessions : List ℕ) (transfer : ℕ) (rest : List ℕ)
  | transfersCanceled (sessions : List ℕ)
  | closeSftp (session : ℕ) (rest : List ℕ)
  | drainTelemetry
  | drainForwards
  | cancelForward (forward : ℕ) (record : ForwardRecord) (rest : List (ℕ × ForwardRecord))
  | drainConnections
  deriving DecidableEq

/-- The steps of the runtime. -/
inductive Event where
  | connect (info : Connection)
  | disconnect (connection : ℕ)
  | teardown (connection : ℕ) (action : TeardownAction)
  | shutdown (action : ShutdownAction)
  | child (event : Children.Event)
  | sftp (event : Sftp.Event)
  | forward (event : Forward.Event)
  deriving DecidableEq

namespace Runtime

/-- A registered connection (`self.connection`). -/
def connection (s : Runtime) (c : ℕ) : Option Connection :=
  (s.connections[c]?).bind fun r => if r.stage = .registered then some r.info else none

/-- What the calls find. -/
def surroundings (s : Runtime) : Surroundings where
  connections := s.connection
  gateOpen := s.shutdown = .idle

/-- The teardown of a connection is at a stage. -/
def setStage (s : Runtime) (c : ℕ) (stage : Stage) : Runtime :=
  { s with connections := s.connections.modify c fun r => { r with stage := stage } }

/-- No call holds the gate. -/
def gateFree (s : Runtime) : Bool :=
  s.children.all (fun c => !c.inGate) && s.sftp.opens.all (fun o => !o.inGate) &&
    s.sftp.transfers.all (fun t => t.phase ≠ .preparing) &&
    s.forwards.starts.all (fun f => !f.inGate)

/-- The connections that are registered. -/
def registeredIds (s : Runtime) : List ℕ :=
  (List.range s.connections.length).filter fun c => (s.connection c).isSome

/-- The terminals, or the telemetry jobs, are removed from their table. -/
def unlistChildren (s : Runtime) (ids : List ℕ) : Runtime :=
  { s with children := Children.unlistAll s.children ids }

/-- Sessions are removed from their table and begin to close. -/
def takeSessions (s : Runtime) (ids : List ℕ) : Runtime :=
  { s with
    sftp := { s.sftp with
      opens := s.sftp.opens.mapIdx fun i o =>
        if ids.contains i && o.listed then { o with listed := false, closed := true } else o } }

/-- The sessions of a list that are in the table. -/
def presentSessions (s : Runtime) (ids : List ℕ) : List ℕ :=
  ids.filter fun i => (s.sftp.opens[i]?).any (·.listed)

/-- The forwards of a connection that are in the table. -/
def forwardsOf (s : Runtime) (c : ℕ) : List ℕ :=
  (List.range s.forwards.starts.length).filter fun i =>
    (s.forwards.starts[i]?).any fun f => f.record.isSome && f.request.connectionId = c

/-- Forwards are removed from their table. -/
def takeForwards (s : Runtime) (ids : List ℕ) : Runtime :=
  { s with
    forwards := { s.forwards with
      starts := s.forwards.starts.mapIdx fun i f =>
        if ids.contains i then { f with record := none } else f } }

/-- The forwards of a list that are in the table, with their records. -/
def presentForwards (s : Runtime) (ids : List ℕ) : List (ℕ × ForwardRecord) :=
  ids.filterMap fun i => (s.forwards.starts[i]?).bind fun f => f.record.map fun r => (i, r)

/-- A removed forward is canceled: its routing entry is removed, unless the connection was not
found, and its listener is closed.  Whether the server accepts the request does not matter. -/
def cancelForward (s : Runtime) (i : ℕ) (r : ForwardRecord) (found : Bool) : Runtime :=
  match s.forwards.starts[i]? with
  | some f =>
    if r.listenerStarted && f.request.forwardType = .remoteForward && found then
      { s with
        forwards :=
          (s.forwards.setRoute f.request.connectionId (f.key r.bindPort) none).closeListener i }
    else { s with forwards := s.forwards.closeListener i }
  | none => s

/-- The connection of a forward is registered. -/
def hasConnection (s : Runtime) (i : ℕ) : Bool :=
  (s.forwards.starts[i]?).any fun f => (s.connection f.request.connectionId).isSome

/-- All terminals, or all telemetry jobs. -/
def allChildren (s : Runtime) (kind : Kind) : List ℕ :=
  (List.range s.children.length).filter fun i =>
    (s.children[i]?).any fun c => c.listed && c.kind = kind

/-- The stage of a connection. -/
def stageOf (s : Runtime) (c : ℕ) : Option Stage :=
  (s.connections[c]?).map (·.stage)

/-- When a step of a teardown is possible. -/
def TeardownEnabled (s : Runtime) (c : ℕ) (stage : Stage) : TeardownAction → Prop
  | .listTerminals => stage = .terminalsListing
  | .removeTerminal terminal rest => stage = .terminalsRemoving (terminal :: rest)
  | .getSftpLock => stage = .terminalsRemoving []
  | .acquireSftp => stage = .sftpWaiting ∧ s.sftp.locks.Free (.teardown c)
  | .listSftp => stage = .sftpListing
  | .takeSftp sessions => stage = .sftpTaking sessions
  | .listTransfers sessions => stage = .transfersListing sessions
  | .cancelTransfer sessions transfer rest =>
    stage = .transfersCanceling sessions (transfer :: rest)
  | .transfersCanceled sessions => stage = .transfersCanceling sessions []
  | .closeSftp session rest => stage = .sftpClosing (session :: rest)
  | .listTelemetry => stage = .sftpClosing []
  | .takeTelemetry jobs => stage = .telemetryTaking jobs
  | .listForwards => stage = .forwardsListing
  | .takeForwards forwards => stage = .forwardsTaking forwards
  | .cancelForward forward record rest => stage = .forwardsCanceling ((forward, record) :: rest)
  | .finish => stage = .forwardsCanceling []
  | .abort =>
    stage ≠ .registered ∧ stage ≠ .finished ∧ stage ≠ .aborted ∧ stage ≠ .drained

instance (s : Runtime) (c : ℕ) (stage : Stage) (action : TeardownAction) :
    Decidable (s.TeardownEnabled c stage action) := by
  cases action <;> unfold TeardownEnabled <;> infer_instance

/-- The state after a step of a teardown. -/
def afterTeardown (s : Runtime) (c : ℕ) : TeardownAction → Runtime
  | .listTerminals =>
    s.setStage c (.terminalsRemoving (Children.childrenOf s.children .terminal c))
  | .removeTerminal terminal rest =>
    (s.unlistChildren [terminal]).setStage c (.terminalsRemoving rest)
  | .getSftpLock =>
    { s.setStage c .sftpWaiting with
      sftp := { s.sftp with locks := s.sftp.locks.get (.teardown c) c } }
  | .acquireSftp =>
    { s.setStage c .sftpListing with
      sftp := { s.sftp with locks := s.sftp.locks.lock (.teardown c) } }
  | .listSftp => s.setStage c (.sftpTaking (s.sftp.sessionsOf c))
  | .takeSftp sessions =>
    let s' := (s.takeSessions sessions).setStage c (.transfersListing (s.presentSessions sessions))
    { s' with sftp := { s'.sftp with locks := s'.sftp.locks.drop (.teardown c) } }
  | .listTransfers sessions =>
    s.setStage c (.transfersCanceling sessions (s.sftp.transfersOf sessions))
  | .cancelTransfer sessions transfer rest =>
    { s.setStage c (.transfersCanceling sessions rest) with
      sftp := s.sftp.cancelTransfer transfer }
  | .transfersCanceled sessions => s.setStage c (.sftpClosing sessions)
  | .closeSftp session rest =>
    { s.setStage c (.sftpClosing rest) with sftp := s.sftp.closeRecord session }
  | .listTelemetry =>
    s.setStage c (.telemetryTaking (Children.childrenOf s.children .telemetry c))
  | .takeTelemetry jobs => (s.unlistChildren jobs).setStage c .forwardsListing
  | .listForwards => s.setStage c (.forwardsTaking (s.forwardsOf c))
  | .takeForwards forwards =>
    (s.takeForwards forwards).setStage c (.forwardsCanceling (s.presentForwards forwards))
  | .cancelForward forward record rest =>
    (s.cancelForward forward record true).setStage c (.forwardsCanceling rest)
  | .finish => s.setStage c .finished
  | .abort =>
    { s.setStage c .aborted with
      sftp := { s.sftp with locks := s.sftp.locks.drop (.teardown c) } }

/-- When a step of `shutdown_all` is possible. -/
def ShutdownEnabled (s : Runtime) : ShutdownAction → Prop
  | .begin => s.shutdown = .idle ∧ s.gateFree = true
  | .close connection rest =>
    s.shutdown = .closing (connection :: rest) ∧ s.forwards.registryFree = true
  | .resume connection rest =>
    s.shutdown = .awaiting connection rest ∧ s.stageOf connection = some .finished
  | .drainTerminals => s.shutdown = .closing []
  | .drainSftp => s.shutdown = .sftpDraining
  | .listTransfers sessions => s.shutdown = .transfersListing sessions
  | .cancelTransfer sessions transfer rest =>
    s.shutdown = .transfersCanceling sessions (transfer :: rest)
  | .transfersCanceled sessions => s.shutdown = .transfersCanceling sessions []
  | .closeSftp session rest => s.shutdown = .sftpClosing (session :: rest)
  | .drainTelemetry => s.shutdown = .sftpClosing []
  | .drainForwards => s.shutdown = .forwardsDraining
  | .cancelForward forward record rest =>
    s.shutdown = .forwardsCanceling ((forward, record) :: rest)
  | .drainConnections =>
    s.shutdown = .forwardsCanceling [] ∧ s.forwards.registryFree = true

instance (s : Runtime) (action : ShutdownAction) : Decidable (s.ShutdownEnabled action) := by
  cases action <;> unfold ShutdownEnabled <;> infer_instance

/-- The state after a step of `shutdown_all`. -/
def afterShutdown (s : Runtime) : ShutdownAction → Runtime
  | .begin => { s with shutdown := .closing s.registeredIds }
  | .close connection rest =>
    if (s.connection connection).isSome then
      { s.setStage connection .terminalsListing with shutdown := .awaiting connection rest }
    else { s with shutdown := .closing rest }
  | .resume _ rest => { s with shutdown := .closing rest }
  | .drainTerminals =>
    { s.unlistChildren (s.allChildren .terminal) with shutdown := .sftpDraining }
  | .drainSftp =>
    let sessions := s.presentSessions (List.range s.sftp.opens.length)
    { s.takeSessions sessions with shutdown := .transfersListing sessions }
  | .listTransfers sessions =>
    -- All active transfers, of whatever session.
    { s with
      shutdown := .transfersCanceling sessions
        ((List.range s.sftp.transfers.length).filter fun k =>
          (s.sftp.transfers[k]?).any (·.active)) }
  | .cancelTransfer sessions transfer rest =>
    { s with
      shutdown := .transfersCanceling sessions rest
      sftp := s.sftp.cancelTransfer transfer }
  | .transfersCanceled sessions => { s with shutdown := .sftpClosing sessions }
  | .closeSftp session rest =>
    { s with shutdown := .sftpClosing rest, sftp := s.sftp.closeRecord session }
  | .drainTelemetry =>
    { s.unlistChildren (s.allChildren .telemetry) with shutdown := .forwardsDraining }
  | .drainForwards =>
    let forwards := List.range s.forwards.starts.length
    { s.takeForwards forwards with
      shutdown := .forwardsCanceling (s.presentForwards forwards) }
  | .cancelForward forward record rest =>
    { s.cancelForward forward record (s.hasConnection forward) with
      shutdown := .forwardsCanceling rest }
  | .drainConnections =>
    { s with
      shutdown := .idle
      connections := s.connections.map fun r =>
        if r.stage = .registered then { r with stage := .drained } else r }

/-- The effect of an event. -/
def step (s : Runtime) : Event → Option Runtime
  | .connect info =>
    -- `connect_inner` holds the gate.
    if s.shutdown = .idle ∧ s.forwards.registryFree = true then
      some { s with connections := s.connections ++ [⟨info, .registered⟩] }
    else none
  | .disconnect c =>
    if (s.connection c).isSome ∧ s.forwards.registryFree = true then
      some (s.setStage c .terminalsListing)
    else none
  | .teardown c action =>
    (s.stageOf c).bind fun stage =>
      if s.TeardownEnabled c stage action then some (s.afterTeardown c action) else none
  | .shutdown action =>
    if s.ShutdownEnabled action then some (s.afterShutdown action) else none
  | .child event =>
    (Children.step s.surroundings s.children event).map fun children =>
      { s with children := children }
  | .sftp event =>
    (Sftp.step s.surroundings s.sftp event).map fun sftp => { s with sftp := sftp }
  | .forward event =>
    (Forward.step s.surroundings s.forwards event).map fun forwards =>
      { s with forwards := forwards }

/-- The runtime. -/
def machine : Machine Runtime Event where
  init :=
    { connections := []
      shutdown := .idle
      children := []
      sftp := Sftp.init
      forwards := Forward.init }
  step := step

/-! ### Connections stay what they are -/

/-- A connection after a step is the one before, at some stage. -/
def SameInfo (r r' : ConnectionRecord) : Prop :=
  r'.info = r.info

theorem setStage_sameInfo (s : Runtime) (c : ℕ) (stage : Stage) :
    Pool.Related SameInfo s.connections (s.setStage c stage).connections :=
  Pool.related_modify (R := SameInfo) (f := fun r => { r with stage := stage }) (fun _ => rfl)
    (fun _ => rfl) c

@[simp] theorem cancelForward_connections (s : Runtime) (i : ℕ) (r : ForwardRecord) (found : Bool) :
    (s.cancelForward i r found).connections = s.connections := by
  unfold cancelForward
  split
  · split_ifs <;> rfl
  · rfl

/-- **A step keeps the connections that there are.** -/
theorem connections_of_step {s s' : Runtime} {event : Event}
    (h : machine.step s event = some s') {c : ℕ} {r : ConnectionRecord}
    (hr : s.connections[c]? = some r) : ∃ r', s'.connections[c]? = some r' ∧ r'.info = r.info := by
  have hrefl : Pool.Related SameInfo s.connections s.connections :=
    Pool.related_refl (R := SameInfo) fun _ => rfl
  cases event with
  | connect info =>
    obtain ⟨-, rfl⟩ := Option.ite_some_none_eq_some.mp h
    exact ⟨r, Pool.getElem?_add_left hr, rfl⟩
  | disconnect c' =>
    obtain ⟨-, rfl⟩ := Option.ite_some_none_eq_some.mp h
    exact (s.setStage_sameInfo c' _).forth hr
  | teardown c' action =>
    obtain ⟨stage, _, -, rfl⟩ := Pool.act_eq_some.mp h
    cases action with
    | cancelForward forward record rest =>
      refine Pool.Related.forth (R := SameInfo) ?_ hr
      have hsame := (s.cancelForward forward record true).setStage_sameInfo c'
        (.forwardsCanceling rest)
      rwa [cancelForward_connections] at hsame
    | _ => exact (s.setStage_sameInfo c' _).forth hr
  | shutdown action =>
    obtain ⟨-, rfl⟩ := Option.ite_some_none_eq_some.mp h
    cases action with
    | close connection rest =>
      simp only [afterShutdown]
      split_ifs
      · exact (s.setStage_sameInfo connection _).forth hr
      · exact hrefl.forth hr
    | cancelForward forward record rest =>
      refine ⟨r, ?_, rfl⟩
      simp only [afterShutdown, cancelForward_connections]
      exact hr
    | drainConnections =>
      refine Pool.Related.forth (R := SameInfo) (Pool.related_map fun r => ?_) hr
      split_ifs <;> rfl
    | _ => exact hrefl.forth hr
  | child event =>
    obtain ⟨children, _, rfl⟩ := Option.map_eq_some_iff.mp h
    exact hrefl.forth hr
  | sftp event =>
    obtain ⟨sftp, _, rfl⟩ := Option.map_eq_some_iff.mp h
    exact hrefl.forth hr
  | forward event =>
    obtain ⟨forwards, _, rfl⟩ := Option.map_eq_some_iff.mp h
    exact hrefl.forth hr

end Runtime
end Remote
end HelmSsh
