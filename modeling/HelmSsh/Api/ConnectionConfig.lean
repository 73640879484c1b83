/-
# Connections and the configuration they are opened with

A REST request that needs a session opens an automation connection or uses the one that is there
(`ensure_api_session_ready` of `src-tauri/src/api_server/handlers_remote.rs`, `rest_tunnels_start`
of `handlers_admin.rs`, `connect_inner` of `src-tauri/src/remote/runtime_connection.rs`), while
`session_update`, `session_delete` (`src-tauri/src/commands/sessions.rs`) and
`settings_proxy_update` (`commands/vault.rs`) change what a connection is to be opened with.

* A request reads the configuration of its session under `connection_config_gate` and gives the gate
  back; then it asks for the connection lock of the session, uses the connection that is there or
  dials with what it has read; then it compares that with the vault again, and disconnects the
  session when it has changed.  What it does with the session uses whatever connection the session
  has then.
* A command owns the gate from its write of the vault to the end of its sweep.  The sweep of a
  session owns the session's connection lock, that of `settings_proxy_update` (`shutdown_all`) the
  lifecycle gate, which `connect_inner` shares from its beginning to its end; it closes the
  connections that are registered, one after the other.
* The state remembers the changes of connection configurations (`changes`), a connection how many of
  them its configuration had seen when it was read (`readAt`), and a request the commands that had
  returned when it began.

Access checks may refuse a request at any of its awaits; other commands may store anything
(`store`), and a connection may die or be closed at any time.
-/

import HelmSsh.Machine
import HelmSsh.Pool
import HelmSsh.Vault.Connect
import HelmSsh.Vault.Workspace

namespace HelmSsh
namespace Api
namespace Dial

open Config Vault

/-! ### The parties -/

/-- The commands that change what a connection is opened with. -/
inductive Command where
  | sessionUpdate (sessionId : String) (input : SessionInput)
  | settingsProxyUpdate (proxy : Option AppProxyOptions)
  | sessionDelete (sessionId : String)

/-- The session whose connections a command closes, `none` when it closes all of them. -/
def Command.scope : Command → Option String
  | .sessionUpdate sessionId _ | .sessionDelete sessionId => some sessionId
  | .settingsProxyUpdate _ => none

/-- What a command does to the vault. -/
def Command.op : Command → VaultOp
  | .sessionUpdate sessionId input => .updateSession sessionId input
  | .settingsProxyUpdate proxy => .settingsProxyUpdate proxy
  | .sessionDelete sessionId => .deleteSession sessionId

/-- The session is in the scope. -/
def concerns (scope : Option String) (session : String) : Bool :=
  scope.all fun s => s = session

/-- A change of the connection configuration of a session, or of all of them, by a command. -/
structure Change where
  command : ℕ
  scope : Option String
  deriving DecidableEq

/-- An automation connection, with the configuration it was opened with. -/
structure Connection where
  id : ℕ
  session : String
  config : SessionConfig
  /-- The changes that the configuration had seen when it was read. -/
  readAt : ℕ
  closed : Bool
  deriving DecidableEq

/-- How far a request has come. -/
inductive RequestPhase where
  | accepted
  /-- The session is not connected. -/
  | reading
  /-- In `connect_inner`, before the connection lock. -/
  | connecting (config : SessionConfig) (readAt : ℕ)
  /-- With the connection lock. -/
  | dialing (config : SessionConfig) (readAt : ℕ)
  | connected (config : SessionConfig)
  /-- In `api_disconnect_session`, before the lookup. -/
  | disconnecting
  | removing (id : ℕ)
  | ready
  | done

/-- How far a command has come. -/
inductive CommandPhase where
  | begun
  /-- The vault is written, and the sweep has no lock yet. -/
  | written
  /-- Sweeping, with the connections that are still to be closed. -/
  | closing (ids : List ℕ)
  | done

/-- A request for a session, with the commands that had returned when it began; or a command. -/
inductive Task where
  | request (session : String) (before : List ℕ) (phase : RequestPhase)
  | command (command : Command) (phase : CommandPhase)

/-- The vault, the automation connections and the tasks; the changes so far, and which request has
used which connection. -/
structure State where
  data : VaultData
  changes : List Change
  connections : List Connection
  nextId : ℕ
  tasks : List Task
  uses : List (ℕ × Connection)

/-- A step of a request. -/
inductive RequestEvent where
  /-- An access check fails, or the request is dropped. -/
  | refuse
  /-- `api_session_status_for`. -/
  | status
  /-- `rest_tunnels_start` and `rest_connect` do not ask for the status. -/
  | skipStatus
  | read
  /-- The connection lock is granted, and `find_connection_by_session` returns. -/
  | acquire (found : Option ℕ)
  | dialed (succeeded : Bool)
  /-- `session_matches_current_connection_config`. -/
  | validate
  /-- The lookup of `api_disconnect_session`. -/
  | look (found : Option ℕ)
  | remove
  /-- A command, an SFTP session or a forward over the connection. -/
  | use (id : ℕ)

/-- A step of a command. -/
inductive CommandEvent where
  | write (env : Env) (accepted : Bool)
  /-- The sweep gets its lock and collects the connections. -/
  | collect
  | close
  | finish

/-- What can happen. -/
inductive Event where
  | beginRequest (session : String)
  | beginCommand (command : Command)
  | request (i : ℕ) (e : RequestEvent)
  | command (i : ℕ) (e : CommandEvent)
  /-- Another command writes the vault. -/
  | store (data : VaultData)
  | die (id : ℕ)
  | drop (id : ℕ)

/-! ### The steps -/

/-- `session_connection_config_changed`. -/
def sessionConnectionConfigChanged (previous current : SessionConfig) : Bool :=
  previous.host ≠ current.host || previous.port ≠ current.port ||
    previous.username ≠ current.username || previous.auth ≠ current.auth ||
    previous.ssh ≠ current.ssh

/-- The command closes connections once it has written the vault. -/
def Command.sweeps (old new : VaultData) : Command → Bool
  | .sessionUpdate sessionId _ =>
    match findSession old sessionId, findSession new sessionId with
    | some previous, some current => sessionConnectionConfigChanged previous current
    | _, _ => false
  | _ => true

namespace Task

/-- The task owns the connection lock of the session, or keeps `connect_inner` out. -/
def locks (session : String) : Task → Bool
  | .request own _ (.dialing ..) => own = session
  | .command c (.closing _) => concerns c.scope session
  | _ => false

/-- The task owns the gate for itself. -/
def ownsGate : Task → Bool
  | .command _ .written | .command _ (.closing _) => true
  | _ => false

/-- The task is a command that has returned. -/
def isReturned : Task → Bool
  | .command _ .done => true
  | _ => false

end Task

namespace State

/-- A vault without connections. -/
def init (data : VaultData) : State :=
  { data := data, changes := [], connections := [], nextId := 0, tasks := [], uses := [] }

/-- Nobody owns the connection lock of the session. -/
def lockFree (s : State) (session : String) : Bool :=
  s.tasks.all fun t => !t.locks session

/-- Nobody owns the gate for itself. -/
def gateFree (s : State) : Bool :=
  s.tasks.all fun t => !t.ownsGate

/-- The commands that have returned. -/
def returned (s : State) : List ℕ :=
  (List.range s.tasks.length).filter fun j => s.tasks[j]?.any Task.isReturned

/-- The connection of that id, when it is one of the session. -/
def find (s : State) (session : String) (id : ℕ) : Option Connection :=
  s.connections.find? fun c => c.id = id && c.session = session

/-- The session has a connection. -/
def connected (s : State) (session : String) : Bool :=
  s.connections.any fun c => c.session = session

/-- The session has a connection that is not closed. -/
def alive (s : State) (session : String) : Bool :=
  s.connections.any fun c => c.session = session && !c.closed

/-- The task at `i` is another one. -/
def put (s : State) (i : ℕ) (t : Task) : State :=
  { s with tasks := s.tasks.set i t }

/-- A connection is removed. -/
def remove (s : State) (id : ℕ) : State :=
  { s with connections := s.connections.filter fun c => c.id ≠ id }

/-- The effect of a step of a request. -/
def requestStep (s : State) (i : ℕ) (session : String) (before : List ℕ) (phase : RequestPhase) :
    RequestEvent → Option State
  | .refuse =>
    match phase with
    | .accepted | .reading | .connecting .. | .ready =>
      some (s.put i (.request session before .done))
    | .connected _ => some (s.put i (.request session before .disconnecting))
    | _ => none
  | .status =>
    match phase with
    | .accepted =>
      if s.alive session then some (s.put i (.request session before .ready))
      else some (s.put i (.request session before .reading))
    | _ => none
  | .skipStatus =>
    match phase with
    | .accepted => some (s.put i (.request session before .reading))
    | _ => none
  | .read =>
    match phase with
    | .reading =>
      if s.gateFree then
        match buildSessionForConnect s.data session with
        | .ok (config, _) =>
          some (s.put i (.request session before (.connecting config s.changes.length)))
        | .error _ => some (s.put i (.request session before .done))
      else none
    | _ => none
  | .acquire found =>
    match phase with
    | .connecting config readAt =>
      if s.lockFree session then
        match found with
        | none =>
          if s.connected session then none
          else some (s.put i (.request session before (.dialing config readAt)))
        | some id =>
          (s.find session id).map fun c =>
            if c.closed then (s.put i (.request session before (.dialing config readAt))).remove id
            else s.put i (.request session before (.connected config))
      else none
    | _ => none
  | .dialed succeeded =>
    match phase with
    | .dialing config readAt =>
      if succeeded then
        some { s.put i (.request session before (.connected config)) with
          connections := s.connections ++
            [{ id := s.nextId, session := session, config := config, readAt := readAt,
               closed := false }]
          nextId := s.nextId + 1 }
      else some (s.put i (.request session before .done))
    | _ => none
  | .validate =>
    match phase with
    | .connected config =>
      match sessionMatchesCurrentConnectionConfig s.data config with
      | .ok true => some (s.put i (.request session before .ready))
      | _ => some (s.put i (.request session before .disconnecting))
    | _ => none
  | .look found =>
    match phase with
    | .disconnecting =>
      match found with
      | none => some (s.put i (.request session before .done))
      | some id =>
        (s.find session id).map fun _ => s.put i (.request session before (.removing id))
    | _ => none
  | .remove =>
    match phase with
    | .removing id => some ((s.put i (.request session before .done)).remove id)
    | _ => none
  | .use id =>
    match phase with
    | .ready =>
      (s.find session id).bind fun c =>
        if c.closed then none else some { s with uses := s.uses ++ [(i, c)] }
    | _ => none

/-- The effect of a step of a command. -/
def commandStep (s : State) (i : ℕ) (c : Command) (phase : CommandPhase) :
    CommandEvent → Option State
  | .write env accepted =>
    match phase with
    | .begun =>
      if s.gateFree then
        match accepted, c.op.perform env s.data with
        | true, .ok data =>
          if c.sweeps s.data data then
            some { s.put i (.command c .written) with
              data := data
              changes := s.changes ++ [{ command := i, scope := c.scope }] }
          else some { s.put i (.command c .done) with data := data }
        | _, _ => some (s.put i (.command c .done))
      else none
    | _ => none
  | .collect =>
    match phase with
    | .written =>
      if s.tasks.all fun t => match t with
        | .request own _ (.dialing ..) => !concerns c.scope own
        | _ => true
      then
        some (s.put i (.command c (.closing
          ((s.connections.filter fun k => concerns c.scope k.session).map Connection.id))))
      else none
    | _ => none
  | .close =>
    match phase with
    | .closing (id :: ids) => some ((s.put i (.command c (.closing ids))).remove id)
    | _ => none
  | .finish =>
    match phase with
    | .closing [] => some (s.put i (.command c .done))
    | _ => none

/-- The effect of a step. -/
def step (s : State) : Event → Option State
  | .beginRequest session =>
    some { s with tasks := s.tasks ++ [.request session s.returned .accepted] }
  | .beginCommand c => some { s with tasks := s.tasks ++ [.command c .begun] }
  | .request i e =>
    match s.tasks[i]? with
    | some (.request session before phase) => s.requestStep i session before phase e
    | _ => none
  | .command i e =>
    match s.tasks[i]? with
    | some (.command c phase) => s.commandStep i c phase e
    | _ => none
  | .store data => some { s with data := data }
  | .die id =>
    some { s with connections := s.connections.map fun c =>
      if c.id = id then { c with closed := true } else c }
  | .drop id => some (s.remove id)

end State

/-- The requests and the commands at work. -/
def dial (data : VaultData) : Machine State Event where
  init := .init data
  step := State.step

end Dial
end Api
end HelmSsh
