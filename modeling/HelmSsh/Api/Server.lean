/-
# Requests and jobs of the API server

The tasks of the REST server, one step at a time: the request handlers
(`handlers_remote.rs`, `handlers_admin.rs`, `handlers_jobs.rs` under
`src-tauri/src/api_server`) and the job tasks (`execute_job`), with the parts of
the remote runtime they use (`connect_inner`, `shutdown_connection_with_reason`
and the forwards of `src-tauri/src/remote`).

A task is at one of the places where it awaits, or right behind a registration
(`registered`, `forwarded`), where the code goes on to re-check the access of its
session without awaiting anything.

* `ensure_api_session_ready`, `rest_connect` and `rest_tunnels_start` verify the
  session, take the session's connection lock, reuse a connection or dial one,
  insert its record, and verify again; when the session was revoked meanwhile, or
  its configuration changed, they look the session's connection up and shut it
  down (`disconnecting`, `removing`, `closing`).
* `rest_tunnels_start` then starts a forward on the connection, inserts its record
  if the connection is still there, verifies once more, and otherwise stops the
  tunnel's forwards and disconnects.
* `rest_jobs_create` inserts a job, spawns its task and attaches the task's handle;
  `rest_job_cancel` requests the cancel of a job.
* `execute_job` marks the job, gets the connection ready, verifies, waits for a
  permit, verifies, marks the job running, executes and finishes the job.  Until it
  runs, a cancel request makes its `select!` drop whatever it awaits.
* A request future may be dropped wherever it awaits (`drop`); a job task may be
  aborted there (`abort`).

The events of a task are enabled as far as the code can go; what the handlers do
with a ready connection changes nothing here.  A refused job (`createRefused`) and
a failed dial can happen at any time.
-/

import HelmSsh.Pool
import HelmSsh.Api.Jobs
import Mathlib.Data.List.Basic

namespace HelmSsh
namespace Api

/-- An automation connection in `RemoteRuntime::connections`. -/
structure Connection where
  id : ℕ
  session : String
  deriving DecidableEq

/-- A forward over an automation connection. -/
structure Forward where
  connection : ℕ
  session : String
  tunnel : String
  deriving DecidableEq

/-- Where a task is. -/
inductive TaskPhase where
  /-- A request before its access check, or a job task before `mark_connecting`. -/
  | accepted
  /-- A job task before its first access check. -/
  | marked
  /-- Past the access check. -/
  | verified
  /-- In `connect_inner`, with the connection lock of the session. -/
  | dialing
  /-- The connection is there and the access not verified again. -/
  | registered
  /-- In `api_disconnect_session`, before the lookup. -/
  | disconnecting
  /-- In `api_disconnect_session`, with the id it found. -/
  | removing (connection : ℕ)
  /-- The record is removed and its children are not closed; `redial` when
  `connect_inner` replaces a dead connection. -/
  | closing (connection : ℕ) (redial : Bool)
  /-- The connection is ready. -/
  | ready
  /-- Starting a forward on the connection. -/
  | forwarding (connection : ℕ) (tunnel : String)
  /-- The forward is there and the access not verified again. -/
  | forwarded (tunnel : String)
  /-- In `stop_forwards_for_tunnel_origin`. -/
  | unforwarding (tunnel : String)
  /-- The job is inserted and its task not spawned. -/
  | created (job : ℕ)
  /-- The job's task is spawned and its handle not attached. -/
  | spawned (job task : ℕ)
  /-- A job task waiting for an execution permit. -/
  | waitingPermit
  /-- A job task executing its command. -/
  | running
  | done
  deriving DecidableEq

namespace TaskPhase

/-- The task owns the connection lock of its session. -/
def holdsLock : TaskPhase → Bool
  | .dialing | .closing _ true => true
  | _ => false

/-- The task awaits something. -/
def awaits : TaskPhase → Bool
  | .registered | .forwarded _ | .done => false
  | _ => true

/-- The task of a job is inside a `select!` with the job's cancel signal. -/
def selectsCancel : TaskPhase → Bool
  | .marked | .verified | .dialing | .disconnecting | .removing _ | .closing _ _
  | .waitingPermit => true
  | _ => false

/-- The connection that the task has looked up and works on. -/
def uses : TaskPhase → Option ℕ
  | .forwarding id _ | .removing id => some id
  | _ => none

/-- A task in this phase has registered nothing that it still has to look after. -/
def isFree : TaskPhase → Bool
  | .registered | .disconnecting | .removing _ | .closing _ _ | .created _ | .done => false
  | _ => true

/-- A task may enter this phase at any time once it is past its access check. -/
def isPlain : TaskPhase → Bool
  | .accepted | .dialing | .removing _ | .closing _ true | .forwarding _ _ | .created _
  | .spawned _ _ | .done => false
  | _ => true

theorem holdsLock_of_isPlain {phase : TaskPhase} (h : phase.isPlain = true) :
    phase.holdsLock = false := by
  cases phase with
  | closing id redial => cases redial <;> first | rfl | cases h
  | dialing => cases h
  | _ => rfl

theorem uses_of_isPlain {phase : TaskPhase} (h : phase.isPlain = true) : phase.uses = none := by
  cases phase with
  | forwarding | removing => cases h
  | _ => rfl

/-- The request has created a job and not attached its handle. -/
def starts : TaskPhase → Bool
  | .created _ | .spawned _ _ => true
  | _ => false

theorem starts_of_isPlain {phase : TaskPhase} (h : phase.isPlain = true) :
    phase.starts = false := by
  cases phase with
  | created | spawned => cases h
  | _ => rfl

/-- The task may still dial for its session, or create a job. -/
def isEarly : TaskPhase → Bool
  | .accepted | .marked | .verified | .dialing | .closing _ true => true
  | _ => false

/-- The job that the task has created and not spawned. -/
def creates : TaskPhase → Option ℕ
  | .created j => some j
  | _ => none

end TaskPhase

/-- A request handler, or the task of a job. -/
structure Task where
  job : Option ℕ
  session : String
  /-- How many updates of the allowed sessions had returned when the request
  came in. -/
  generation : ℕ
  phase : TaskPhase
  deriving DecidableEq

/-- The server: the allowed sessions, the runtime's automation connections and
forwards, the jobs and the tasks. -/
structure ApiState where
  allowed : List String
  connections : List Connection
  nextConnection : ℕ
  forwards : List Forward
  jobs : List JobRecord
  tasks : List Task
  generation : ℕ
  deriving DecidableEq

/-- One step of a task. -/
inductive TaskEvent where
  | verify
  /-- The job task calls `mark_connecting`. -/
  | markConnecting
  /-- `connect_inner` has the lock; `dead` when the connection it finds is closed. -/
  | startConnect (dead : Bool)
  /-- `api_session_status_for` finds a connection. -/
  | alreadyConnected
  | dialFails
  | register
  /-- The access check behind the registration; `stillValid` when the session's
  configuration is the one that was dialed. -/
  | recheck (stillValid : Bool)
  /-- `rest_disconnect`. -/
  | disconnect
  | lookup
  | remove
  | closeChildren
  | startForward (tunnel : String)
  | registerForward
  /-- `forward_for_tunnel` finds the tunnel's forward. -/
  | reuseForward
  | recheckForward
  | stopForwards
  | createJob
  | createRefused
  /-- `rest_job_cancel`. -/
  | cancelJob (job : ℕ)
  | spawnJob
  | attachHandle
  /-- The job task verifies the access before it asks for a permit. -/
  | requestPermit
  /-- It gets the permit, or an error. -/
  | acquirePermit (granted : Bool)
  /-- `api_exec_stream` returns. -/
  | execDone (result : Option ExecResult)
  | finish
  /-- The request future is dropped. -/
  | drop
  /-- The job task sees the cancel request. -/
  | cancelSeen
  /-- The job task is aborted. -/
  | abort
  deriving DecidableEq

namespace ApiState

/-- A server with the allowed sessions `allowed` and nothing else. -/
def init (allowed : List String) : ApiState :=
  { allowed := allowed, connections := [], nextConnection := 0, forwards := [], jobs := [],
    tasks := [], generation := 0 }

/-- A request for `session` comes in. -/
def newRequest (s : ApiState) (session : String) : ApiState :=
  { s with tasks := s.tasks ++
    [{ job := none, session := session, generation := s.generation, phase := .accepted }] }

/-- The task `t` at `i` goes on to `phase`. -/
def goTo (s : ApiState) (i : ℕ) (t : Task) (phase : TaskPhase) : ApiState :=
  { s with tasks := s.tasks.set i { t with phase := phase } }

/-- The record of the job `j` changes. -/
def modifyJob (s : ApiState) (j : ℕ) (f : JobRecord → JobRecord) : ApiState :=
  { s with jobs := s.jobs.modify j f }

/-- The task `t` at `i` ends; a job task ends its job with `f`. -/
def endTask (s : ApiState) (i : ℕ) (t : Task) (f : JobRecord → JobRecord) : ApiState :=
  match t.job with
  | none => s.goTo i t .done
  | some j => (s.goTo i t .done).modifyJob j f

/-- `find_connection_by_session` for automation connections. -/
def connectionOf (s : ApiState) (session : String) : Option Connection :=
  s.connections.find? fun c => c.session = session

theorem connectionOf_eq_some {s : ApiState} {session : String} {c : Connection}
    (h : s.connectionOf session = some c) : c ∈ s.connections ∧ c.session = session :=
  ⟨List.mem_of_find?_eq_some h, by simpa using List.find?_some h⟩

theorem connectionOf_eq_none {s : ApiState} {session : String}
    (h : s.connectionOf session = none) : ∀ c ∈ s.connections, c.session ≠ session := by
  intro c hc
  simpa using List.find?_eq_none.mp h c hc

/-- The record of a new connection for `session` is inserted. -/
def addConnection (s : ApiState) (session : String) : ApiState :=
  { s with
    connections := s.connections ++ [{ id := s.nextConnection, session := session }]
    nextConnection := s.nextConnection + 1 }

/-- The record of the connection `id` is removed. -/
def removeConnection (s : ApiState) (id : ℕ) : ApiState :=
  { s with connections := s.connections.filter fun c => c.id ≠ id }

/-- The forwards over the connection `id` are canceled. -/
def cancelForwards (s : ApiState) (id : ℕ) : ApiState :=
  { s with forwards := s.forwards.filter fun f => f.connection ≠ id }

/-- No task owns the connection lock of `session`. -/
def LockFree (s : ApiState) (session : String) : Prop :=
  ∀ t ∈ s.tasks, t.session = session → t.phase.holdsLock = false

instance (s : ApiState) (session : String) : Decidable (s.LockFree session) :=
  inferInstanceAs (Decidable (∀ t ∈ s.tasks, _))

/-- `mark_connecting` or `mark_running` of the job task `t` at `i`: on to `phase`,
or the end of the task. -/
def markJob (s : ApiState) (i : ℕ) (t : Task) (j : ℕ) (mark : JobRecord → JobRecord × Bool)
    (phase : TaskPhase) : ApiState :=
  match s.jobs[j]? with
  | none => s.goTo i t .done
  | some r => (s.goTo i t (if (mark r).2 then phase else .done)).modifyJob j fun r => (mark r).1

/-- The effect of a step of the task `t` at `i`. -/
def taskStep (s : ApiState) (i : ℕ) (t : Task) : TaskEvent → Option ApiState
  | .verify =>
    if (t.phase = .accepted ∧ t.job = none) ∨ t.phase = .marked then
      if t.session ∈ s.allowed then some (s.goTo i t .verified)
      else some (s.endTask i t .finishError)
    else none
  | .markConnecting =>
    match t.job, t.phase with
    | some j, .accepted => some (s.markJob i t j JobRecord.markConnecting .marked)
    | _, _ => none
  | .startConnect dead =>
    if t.phase = .verified ∧ s.LockFree t.session then
      match s.connectionOf t.session with
      | none => some (s.goTo i t .dialing)
      | some c =>
        if dead then some ((s.removeConnection c.id).goTo i t (.closing c.id true))
        else some (s.goTo i t .registered)
    else none
  | .alreadyConnected =>
    if t.phase = .verified ∧ (s.connectionOf t.session).isSome then some (s.goTo i t .ready)
    else none
  | .dialFails => if t.phase = .dialing then some (s.endTask i t .finishError) else none
  | .register =>
    if t.phase = .dialing then some ((s.goTo i t .registered).addConnection t.session) else none
  | .recheck stillValid =>
    if t.phase = .registered then
      if t.session ∈ s.allowed ∧ stillValid then some (s.goTo i t .ready)
      else some (s.goTo i t .disconnecting)
    else none
  | .disconnect =>
    if t.phase = .verified ∧ t.job = none then some (s.goTo i t .disconnecting) else none
  | .lookup =>
    if t.phase = .disconnecting then
      match s.connectionOf t.session with
      | none => some (s.endTask i t .finishError)
      | some c => some (s.goTo i t (.removing c.id))
    else none
  | .remove =>
    match t.phase with
    | .removing id =>
      if id ∈ s.connections.map Connection.id then
        some ((s.removeConnection id).goTo i t (.closing id false))
      else some (s.endTask i t .finishError)
    | _ => none
  | .closeChildren =>
    match t.phase with
    | .closing id true => some ((s.cancelForwards id).goTo i t .dialing)
    | .closing id false => some ((s.cancelForwards id).endTask i t .finishError)
    | _ => none
  | .startForward tunnel =>
    if t.phase = .ready ∧ t.job = none then
      match s.connectionOf t.session with
      | none => some (s.goTo i t .done)
      | some c => some (s.goTo i t (.forwarding c.id tunnel))
    else none
  | .registerForward =>
    match t.phase with
    | .forwarding id tunnel =>
      if id ∈ s.connections.map Connection.id then
        some { s.goTo i t (.forwarded tunnel) with
          forwards := s.forwards ++ [{ connection := id, session := t.session, tunnel := tunnel }] }
      else some (s.endTask i t .finishError)
    | _ => none
  | .reuseForward =>
    match t.phase with
    | .forwarding _ tunnel =>
      if tunnel ∈ s.forwards.map Forward.tunnel then some (s.goTo i t (.forwarded tunnel))
      else none
    | _ => none
  | .recheckForward =>
    match t.phase with
    | .forwarded tunnel =>
      if t.session ∈ s.allowed then some (s.goTo i t .ready)
      else some (s.goTo i t (.unforwarding tunnel))
    | _ => none
  | .stopForwards =>
    match t.phase with
    | .unforwarding tunnel =>
      some { s.goTo i t .disconnecting with
        forwards := s.forwards.filter fun f => f.tunnel ≠ tunnel }
    | _ => none
  | .createJob =>
    if t.phase = .verified ∧ t.job = none then
      some { s.goTo i t (.created s.jobs.length) with jobs := s.jobs ++ [.new t.session] }
    else none
  | .createRefused =>
    if t.phase = .verified ∧ t.job = none then some (s.goTo i t .done) else none
  | .cancelJob j =>
    if t.phase = .verified ∧ t.job = none ∧ s.jobs[j]?.any (·.sessionId = t.session) = true then
      some ((s.modifyJob j fun r => r.requestCancel.1).goTo i t .done)
    else none
  | .spawnJob =>
    match t.phase with
    | .created j =>
      let task : Task :=
        { job := some j, session := t.session, generation := t.generation, phase := .accepted }
      some { s with
        tasks := s.tasks.set i { t with phase := .spawned j s.tasks.length } ++ [task] }
    | _ => none
  | .attachHandle =>
    match t.phase with
    | .spawned j k =>
      some ((s.goTo i t .ready).modifyJob j fun r => { r with handle := some k })
    | _ => none
  | .requestPermit =>
    if t.phase = .ready ∧ t.job ≠ none then
      if t.session ∈ s.allowed then some (s.goTo i t .waitingPermit)
      else some (s.endTask i t .finishError)
    else none
  | .acquirePermit granted =>
    match t.job, t.phase with
    | some j, .waitingPermit =>
      if granted ∧ t.session ∈ s.allowed then some (s.markJob i t j JobRecord.markRunning .running)
      else some (s.endTask i t .finishError)
    | _, _ => none
  | .execDone result =>
    if t.phase = .running then
      match result with
      | some result => some (s.endTask i t (.finishResult result))
      | none => some (s.endTask i t .finishError)
    else none
  | .finish => if t.phase = .ready ∧ t.job = none then some (s.goTo i t .done) else none
  | .drop =>
    if t.job = none ∧ t.phase.awaits = true then some (s.goTo i t .done) else none
  | .cancelSeen =>
    match t.job with
    | none => none
    | some j =>
      if t.phase.selectsCancel = true ∧ s.jobs[j]?.any JobRecord.canceled = true then
        some (s.endTask i t .finishCanceled)
      else none
  | .abort =>
    if t.job ≠ none ∧ t.phase.awaits = true then some (s.goTo i t .done) else none

end ApiState

end Api
end HelmSsh
