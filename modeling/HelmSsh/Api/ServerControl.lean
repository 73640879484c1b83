/-
# The commands that control the API server

`api_server_configure_and_start`, `api_server_stop`, `api_server_status`,
`api_server_regenerate_key`, `spawn_api_server_autostart`, the stop and the restore of a replacement
of the configuration, and `reconcile_api_server_with_snapshot` (`src-tauri/src/commands/
api_server_cmd.rs`, `api_startup.rs`), with the commands that call them: `settings_ai_api_update`,
`session_delete`, `session_update`, `vault_backup_import`, `backup_record_restore`
(`commands/vault.rs`, `sessions.rs`, `backup.rs`).

A command begins with what it does before its first await: it cancels the autostart, where the code
does, and joins the line before `api_server_operation`, a fair mutex, of which the first of the line
is the owner.  From there it goes on one step at a time; a step ends where the command awaits or
looks at something that another task can change.  A step that gives the mutex back is merged with
the one before it.

* The vault is its data, `none` while it is locked; the operations of other commands come in
  between (`mutate`).  A refused ticket and a failed write are one: the command returns an error.
* The handle of the server carries the command that it goes back to (`origin`): a
  configure-and-start or the autostart; a regenerated key and a restore keep it.
* The server may end by itself (`serverEnds`); `request_shutdown` of `api_server_stop` is such an
  end.
* Whether an address can be bound is decided by the outside (`BindOutcome`).
-/

import HelmSsh.Machine
import HelmSsh.ServiceLine
import HelmSsh.Vault.AllowedSessions

namespace HelmSsh
namespace Api
namespace Control

open Config Vault

/-! ### The parties -/

/-- The handle of a running server, as far as these commands use it. -/
structure ServerHandle where
  port : UInt16
  apiKey : String
  allowedSessionIds : List String
  allowedSessionNames : List (String × String)
  /-- `is_finished`. -/
  finished : Bool
  /-- The command that it goes back to. -/
  origin : ℕ

/-- The commands; a regenerated key is drawn by the outside. -/
inductive Command where
  | settingsUpdate (settings : AiApiSettingsUpdate)
  | sessionDelete (sessionId : String)
  | sessionUpdate (sessionId : String) (input : SessionInput)
  | configureAndStart (port : UInt16) (allowedSessionIds : List String) (autoStart : Bool)
  | stop
  | status
  | regenerateKey (newKey : String)
  /-- The import of a backup, or the restore of a backup record. -/
  | replaceConfig
  | autostart

/-- How far a command has come. -/
inductive Phase where
  /-- `session_update` before its mutation, or the autostart between two attempts. -/
  | called
  /-- In the line for the first time. -/
  | waiting
  | locked
  /-- `api_server_configure_and_start` with the effective port. -/
  | configuring (port : UInt16)
  /-- The vault is written and the cache of the server not yet; what was authorized before, and the
  port on which the command goes on to start. -/
  | written (before : List String) (snapshot : VaultData) (port : Option UInt16)
  /-- The mutex is given back, before `reconcile_api_server_with_snapshot`. -/
  | applied
  /-- In the line for the reconciliation. -/
  | reconciling
  | relocked
  /-- The reconciliation with the latest snapshot. -/
  | latest (snapshot : VaultData)
  /-- The autostart has seen that it is not cancelled. -/
  | cleared
  /-- In `start_api_server_inner`. -/
  | starting (port : UInt16) (ids : List String) (origin : ℕ)
  /-- With the names of the sessions. -/
  | named (port : UInt16) (ids : List String) (names : List (String × String)) (origin : ℕ)
  /-- In `start_server`. -/
  | binding (port : UInt16) (apiKey : String) (ids : List String) (names : List (String × String))
      (origin : ℕ)
  /-- `api_server_regenerate_key` with the key written. -/
  | rekeyed
  /-- With the handle, which it shuts down and starts again. -/
  | taken (handle : ServerHandle)
  /-- The replacement has stopped the server; where it goes back to when it was running. -/
  | emptied (wasRunning : Option ℕ)
  /-- The guards are dropped, before `restore_api_server_after_config_replacement`. -/
  | replaced (wasRunning : Option ℕ)
  /-- The settings are read. -/
  | restoring (port : UInt16) (ids : List String) (origin : ℕ)
  /-- In the line for the restore. -/
  | restoreWaiting (port : UInt16) (ids : List String) (origin : ℕ)
  | done

/-- Where a command is, seen from `api_server_operation`. -/
def Phase.place : Phase → LinePlace
  | .called | .applied | .replaced _ | .restoring .. | .done => .outside
  | .waiting | .reconciling | .restoreWaiting .. => .waiting
  | _ => .inside

/-- A command at work. -/
structure Task where
  command : Command
  phase : Phase

/-- Where its task is. -/
def Task.place (t : Task) : LinePlace :=
  t.phase.place

/-- The vault, the server, the autostart's cancellation, the line and the commands. -/
structure State where
  data : Option VaultData
  server : Option ServerHandle
  cancelled : Bool
  line : List ℕ
  tasks : List Task

/-- The outcome of `start_server`. -/
inductive BindOutcome where
  | started
  /-- `ApiPortInUse`. -/
  | portInUse
  | failed
  deriving DecidableEq

/-- A step of a command. -/
inductive TaskEvent where
  /-- Asking for `api_server_operation`. -/
  | join
  /-- The first of the line goes in. -/
  | acquire
  /-- The look at the state that decides whether to go on. -/
  | check
  /-- The mutation of the vault; refused when not `accepted`. -/
  | write (env : Env) (accepted : Bool)
  /-- `sync_api_server_authorization_cache`. -/
  | sync
  /-- The read of the vault's snapshot. -/
  | read
  /-- `reconcile_api_server_with_snapshot_inner`. -/
  | reconcile
  /-- `allowed_session_names_for_ids`. -/
  | readNames
  /-- The look at the handle, and the key: read, or generated and written. -/
  | enter (env : Env) (newKey : String) (accepted : Bool)
  /-- `start_server`. -/
  | bind (outcome : BindOutcome)
  /-- The handle is taken and shut down. -/
  | take
  /-- `backup_import`; `none` when it fails. -/
  | replaceData (result : Option VaultData)
  /-- The autostart makes no further attempt. -/
  | giveUp

/-- What can happen. -/
inductive Event where
  | begin (command : Command)
  | task (i : ℕ) (e : TaskEvent)
  /-- Another command mutates the vault. -/
  | mutate (env : Env) (op : VaultOp)
  /-- The vault is opened. -/
  | openVault (data : VaultData)
  /-- `vault_migrate` or `vault_skip_migration` on an open vault. -/
  | reload (data : VaultData)
  /-- The server ends. -/
  | serverEnds

/-! ### The steps -/

namespace Command

/-- `state.api_startup.cancel()`. -/
def cancels : Command → Bool
  | .configureAndStart .. | .stop | .regenerateKey _ | .replaceConfig => true
  | _ => false

/-- Where a command is when it has begun. -/
def firstPhase : Command → Phase
  | .sessionUpdate .. | .autostart => .called
  | _ => .waiting

end Command

/-- The mutation that a command is about to make. -/
def Task.mutation (t : Task) : Option VaultOp :=
  match t.command, t.phase with
  | .settingsUpdate settings, .locked => some (.settingsAiApiUpdate settings)
  | .sessionDelete sessionId, .locked => some (.deleteSession sessionId)
  | .sessionUpdate sessionId input, .called => some (.updateSession sessionId input)
  | .configureAndStart _ ids autoStart, .configuring port =>
    some (.settingsAiApiUpdate
      { sessionIds := normalizeAllowedSessionIds ids none, port := some port,
        autoStart := autoStart })
  | .regenerateKey newKey, .locked => some (.settingsAiApiKeyUpdate (some newKey))
  | _, _ => none

/-- Where a command goes on once it has made its mutation. -/
def Task.afterMutation (t : Task) (before : List String) (data : VaultData) : Phase :=
  match t.command, t.phase with
  | .sessionUpdate .., _ => .applied
  | .regenerateKey _, _ => .rekeyed
  | _, .configuring port => .written before data (some port)
  | _, _ => .written before data none

namespace ServerHandle

/-- `replace_allowed_sessions_cache`, and `update_allowed_sessions`. -/
def allow (h : ServerHandle) (ids : List String) (names : List (String × String)) : ServerHandle :=
  { h with allowedSessionIds := ids, allowedSessionNames := names }

end ServerHandle

namespace State

/-- At the launch. -/
def init : State :=
  { data := none, server := none, cancelled := false, line := [], tasks := [] }

/-- The sessions that the configuration authorizes. -/
def configured (s : State) : List String :=
  s.data.elim [] configuredIds

/-- The handle of a server that runs. -/
def running (s : State) : Option ServerHandle :=
  s.server.filter fun h => !h.finished

/-- The server runs and lets requests for the session pass. -/
def Admits (s : State) (sessionId : String) : Prop :=
  ∃ h, s.running = some h ∧ sessionId ∈ h.allowedSessionIds

/-- The task at `i` goes on to a phase. -/
def put (s : State) (i : ℕ) (t : Task) (phase : Phase) : State :=
  { s with tasks := s.tasks.set i { t with phase := phase } }

/-- The task at `i` goes on to a phase and joins the line. -/
def join (s : State) (i : ℕ) (t : Task) (phase : Phase) : State :=
  { s.put i t phase with line := s.line ++ [i] }

/-- The task at `i` goes on to a phase and gives the mutex back. -/
def leave (s : State) (i : ℕ) (t : Task) (phase : Phase) : State :=
  { s.put i t phase with line := s.line.tail }

/-- The port of a server that runs, or else the one that was asked for. -/
def effectivePort (s : State) (port : UInt16) : UInt16 :=
  s.running.elim port ServerHandle.port

/-- `start_api_server_inner` fails; `api_server_configure_and_start` then stops the server. -/
def startFailed (s : State) (i : ℕ) (t : Task) : State :=
  match t.command with
  | .configureAndStart .. => { s.leave i t .done with server := none }
  | _ => s.leave i t .done

/-- Where the mutation of a command returns an error. -/
def refused (s : State) (i : ℕ) (t : Task) : State :=
  if t.place = .inside then s.leave i t .done else s.put i t .done

/-- The key of the vault. -/
def apiKey (data : VaultData) : Option String :=
  data.settings.aiApiKey.filter fun key => key ≠ ""

/-- The check behind the first lock. -/
def check (s : State) (i : ℕ) (t : Task) : Option State :=
  match t.command, t.phase with
  | .configureAndStart port ids _, .locked =>
    if s.data.isNone || (normalizeAllowedSessionIds ids none).isEmpty then
      some (s.leave i t .done)
    else some (s.put i t (.configuring (s.effectivePort port)))
  | .autostart, .locked =>
    if s.cancelled || s.data.isNone then some (s.leave i t .done)
    else some (s.put i t .cleared)
  | .status, .locked => some { s.leave i t .done with server := s.running }
  | _, _ => none

/-- The mutation of a command. -/
def write (s : State) (i : ℕ) (t : Task) (env : Env) (accepted : Bool) : Option State :=
  t.mutation.map fun op =>
    match s.data, accepted with
    | some data, true =>
      match op.perform env data with
      | .ok data' =>
        { s.put i t (t.afterMutation (configuredIds data) data') with data := some data' }
      | .error _ => s.refused i t
    | _, _ => s.refused i t

/-- The read of the vault's snapshot, by the autostart, a reconciliation or a restore. -/
def read (s : State) (i : ℕ) (t : Task) : Option State :=
  match t.phase, s.data with
  | .cleared, some data =>
    match data.settings.aiApiPort with
    | none => some (s.leave i t .done)
    | some port =>
      if !data.settings.aiApiAutoStart || (configuredIds data).isEmpty then
        some (s.leave i t .done)
      else some (s.put i t (.starting port (configuredIds data) i))
  | .cleared, none => some (s.leave i t .done)
  | .relocked, some data => some (s.put i t (.latest data))
  | .relocked, none => some { s.leave i t .done with server := none }
  | .replaced (some origin), some data =>
    match data.settings.aiApiPort with
    | none => some (s.put i t .done)
    | some port =>
      if (requestedIds data.settings).isEmpty then some (s.put i t .done)
      else some (s.put i t (.restoring port (requestedIds data.settings) origin))
  | .replaced _, _ => some (s.put i t .done)
  | _, _ => none

/-- `sync_api_server_authorization_cache`. -/
def syncCache (s : State) (snapshot : VaultData) : State :=
  let allowed := configuredAllowedSessions snapshot
  { s with server := s.server.map fun h => h.allow allowed.1 allowed.2 }

/-- The server after `reconcile_api_server_with_snapshot_inner`. -/
def reconciled (s : State) (snapshot : VaultData) : Option ServerHandle :=
  let allowed := configuredAllowedSessions snapshot
  if allowed.1.isEmpty then none else s.running.map fun h => h.allow allowed.1 allowed.2

/-- The beginning of `start_api_server_inner`, with the names. -/
def readNames (s : State) (i : ℕ) (t : Task) : Option State :=
  match t.phase with
  | .starting port ids origin =>
    match s.data with
    | none => some (s.startFailed i t)
    | some data =>
      let names := allowedSessionNamesForIds data ids
      if ids.isEmpty || names.length ≠ ids.length then some (s.startFailed i t)
      else some (s.put i t (.named port ids names origin))
  | _ => none

/-- A running server gets the sessions; otherwise the key is read, or generated and written. -/
def enter (s : State) (i : ℕ) (t : Task) (env : Env) (newKey : String) (accepted : Bool) :
    Option State :=
  match t.phase with
  | .named port ids names origin =>
    match s.running, s.data with
    | some h, _ => some { s.leave i t .done with server := some (h.allow ids names) }
    | none, none => some { s.startFailed i t with server := none }
    | none, some data =>
      match apiKey data with
      | some key => some { s.put i t (.binding port key ids names origin) with server := none }
      | none =>
        match accepted, (VaultOp.settingsAiApiKeyUpdate (some newKey)).perform env data with
        | true, .ok data' =>
          some { s.put i t (.binding port newKey ids names origin) with
            server := none, data := some data' }
        | _, _ => some { s.startFailed i t with server := none }
  | _ => none

/-- `start_server` returns. -/
def bind (s : State) (i : ℕ) (t : Task) (outcome : BindOutcome) : Option State :=
  match t.phase, outcome with
  | .binding port key ids names origin, .started =>
    some { s.leave i t .done with
      server := some
        { port := port, apiKey := key, allowedSessionIds := ids, allowedSessionNames := names,
          finished := false, origin := origin } }
  | .binding .., .portInUse =>
    match t.command with
    | .autostart => some (s.leave i t .called)
    | _ => some (s.startFailed i t)
  | .binding .., .failed => some (s.startFailed i t)
  | .taken h, .started =>
    match t.command with
    | .regenerateKey newKey =>
      some { s.leave i t .done with
        server := some { h with apiKey := newKey, finished := false } }
    | _ => none
  | .taken _, _ => some (s.leave i t .done)
  | _, _ => none

/-- The handle is taken. -/
def take (s : State) (i : ℕ) (t : Task) : Option State :=
  match t.command, t.phase with
  | .stop, .locked => some { s.leave i t .done with server := none }
  | .replaceConfig, .locked =>
    some { s.put i t (.emptied (s.running.map ServerHandle.origin)) with server := none }
  | .regenerateKey _, .rekeyed =>
    match s.server with
    | none => some (s.leave i t .done)
    | some h => some { s.put i t (.taken h) with server := none }
  | _, _ => none

/-- The effect of a step of the task `t` at `i`. -/
def taskStep (s : State) (i : ℕ) (t : Task) : TaskEvent → Option State
  | .join =>
    match t.command, t.phase with
    | .autostart, .called => some (s.join i t .waiting)
    | _, .applied => some (s.join i t .reconciling)
    | _, .restoring port ids origin => some (s.join i t (.restoreWaiting port ids origin))
    | _, _ => none
  | .acquire =>
    if s.line.head? = some i then
      match t.phase with
      | .waiting => some (s.put i t .locked)
      | .reconciling => some (s.put i t .relocked)
      | .restoreWaiting port ids origin => some (s.put i t (.starting port ids origin))
      | _ => none
    else none
  | .check => s.check i t
  | .write env accepted => s.write i t env accepted
  | .sync =>
    match t.phase with
    | .written _ snapshot port =>
      let s := s.syncCache snapshot
      match t.command, port with
      | .configureAndStart _ requested _, some port =>
        some (s.put i t (.starting port (normalizeAllowedSessionIds requested none) i))
      | _, _ => some (s.leave i t .applied)
    | _ => none
  | .read => s.read i t
  | .reconcile =>
    match t.phase with
    | .latest snapshot => some { s.leave i t .done with server := s.reconciled snapshot }
    | _ => none
  | .readNames => s.readNames i t
  | .enter env newKey accepted => s.enter i t env newKey accepted
  | .bind outcome => s.bind i t outcome
  | .take => s.take i t
  | .replaceData result =>
    match t.phase with
    | .emptied wasRunning =>
      some { s.leave i t (.replaced wasRunning) with data := result <|> s.data }
    | _ => none
  | .giveUp =>
    match t.command, t.phase with
    | .autostart, .called => some (s.put i t .done)
    | _, _ => none

/-- The effect of a step. -/
def step (s : State) : Event → Option State
  | .begin command =>
    let s := { s with cancelled := s.cancelled || command.cancels }
    match command.firstPhase with
    | .waiting =>
      some { s with
        line := s.line ++ [s.tasks.length]
        tasks := s.tasks ++ [{ command := command, phase := .waiting }] }
    | phase => some { s with tasks := s.tasks ++ [{ command := command, phase := phase }] }
  | .task i e => s.tasks[i]?.bind fun t => s.taskStep i t e
  | .mutate env op =>
    s.data.bind fun data =>
      if op.Authorizes ∨ ¬op.FreshId env data then none
      else match op.perform env data with
        | .ok data' => some { s with data := some data' }
        | .error _ => none
  | .openVault data => if s.data.isNone then some { s with data := some data } else none
  | .reload data => s.data.map fun _ => { s with data := some data }
  | .serverEnds => s.server.map fun h => { s with server := some { h with finished := true } }

end State

/-- The commands at work. -/
def control : Machine State Event where
  init := .init
  step := State.step

/-! ### Runs of one command -/

/-- A vault with two sessions. -/
def exampleVault : VaultData :=
  { VaultData.empty "t" with
    sessions := [SessionConfig.new "t" "s1" (exampleSession "g0"),
      SessionConfig.new "t" "s2" (exampleSession "g0")] }

/-- `api_server_configure_and_start` for the first session as the `i`-th command. -/
def startRun (i : ℕ) : List Event :=
  [.begin (.configureAndStart 8080 ["s1"] false), .task i .acquire, .task i .check,
    .task i (.write (exampleEnv "") true), .task i .sync, .task i .readNames,
    .task i (.enter (exampleEnv "") "key" true), .task i (.bind .started)]

/-- `settings_ai_api_update` to the second session as the `i`-th command. -/
def updateRun (i : ℕ) : List Event :=
  [.begin (.settingsUpdate ⟨["s2"], some 8080, false⟩), .task i .acquire,
    .task i (.write (exampleEnv "") true), .task i .sync, .task i .join, .task i .acquire,
    .task i .read, .task i .reconcile]

/-- The restore of a replacement as the `i`-th command, from its wait for the mutex on. -/
def restoreRun (i : ℕ) : List Event :=
  [.task i .join, .task i .acquire, .task i .readNames,
    .task i (.enter (exampleEnv "") "key" true), .task i (.bind .started)]

/-- The ids of the server that runs. -/
def State.served (s : State) : Option (List String) :=
  s.running.map ServerHandle.allowedSessionIds

example : ((control.run (.openVault exampleVault :: startRun 0)).bind State.served) =
    some ["s1"] := by decide +kernel

end Control
end Api
end HelmSsh
