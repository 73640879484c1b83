/-
# Port forwards

The table `forwards` of `RemoteRuntime`, the routing tables `remote_forwards` of its
connections, and the calls on them in `src-tauri/src/remote/runtime_forward.rs`:
`forward_start_local`, `forward_start_dynamic` and `forward_start_remote`, `forward_stop` and
`stop_forwards_for_tunnel_inner` with `forward_stop_if_present`,
`record_tunnel_start_failure`, `refresh_finished_forward_records` and `mark_forward_failed`.

A call is a list of steps, one for what it does between two waits; in between the other calls
go on.  A start is numbered, and its number stands for the fresh identifier of its forward and
for the target that it puts into the routing table.  The caller of a call may be gone at any
wait (`dropCaller`), as the request of the API server is when its client disconnects.

The registry of the connections and the gate `lifecycle_gate` belong to `RemoteRuntime`, and a
step reads them (`Surroundings`).  What the server replies is up to the server.
-/

import Mathlib.Data.List.Basic
import HelmSsh.KeyedLocks
import HelmSsh.Pool
import HelmSsh.Transfer.Table

namespace HelmSsh
namespace Remote

open Transfer.Table (TaskStatus)

/-- `ConnectionOrigin`. -/
inductive ConnectionOrigin where
  | desktop
  | automation
  deriving DecidableEq

/-- What the calls read of a `ConnectionRecord`. -/
structure Connection where
  sessionId : ℕ
  origin : ConnectionOrigin
  deriving DecidableEq

/-- What a call finds outside its own tables: the registered connections, and whether the gate
`lifecycle_gate` is open. -/
structure Surroundings where
  connections : ℕ → Option Connection
  gateOpen : Bool

namespace Forward

/-- `ForwardType`. -/
inductive ForwardType where
  | localForward
  | remoteForward
  | dynamicForward
  deriving DecidableEq

/-- `forward_key`. -/
def forwardKey (host : List Char) (port : UInt16) : List Char :=
  host ++ ':' :: Nat.toDigits 10 port.toNat

theorem toDigits_port_injective {port port' : UInt16}
    (h : Nat.toDigits 10 port.toNat = Nat.toDigits 10 port'.toNat) : port = port' := by
  have hvalue := congrArg (fun digits => Nat.ofDigitChars 10 digits 0) h
  simp only [Nat.ofDigitChars_ten_toDigits] at hvalue
  exact UInt16.toNat_inj.mp hvalue

/-- A port has no colon, so the key tells the host and the port. -/
theorem forwardKey_injective {host host' : List Char} {port port' : UInt16}
    (h : forwardKey host port = forwardKey host' port') : host = host' ∧ port = port' := by
  -- What comes before the first colon from the right is the port.
  have hport : ∀ (host : List Char) (port : UInt16),
      (forwardKey host port).reverse.takeWhile (· ≠ ':') =
        (Nat.toDigits 10 port.toNat).reverse := by
    intro host port
    rw [forwardKey, List.reverse_append, List.reverse_cons, List.append_assoc,
      List.takeWhile_append_of_pos]
    · simp
    · intro c hc
      have hdigit := Nat.isDigit_of_mem_toDigits (by decide) (by decide) (List.mem_reverse.mp hc)
      refine decide_eq_true ?_
      rintro rfl
      exact absurd hdigit (by decide)
  have hdigits := hport host port
  rw [h, hport host' port'] at hdigits
  obtain rfl := toDigits_port_injective (List.reverse_injective hdigits)
  exact ⟨List.append_cancel_right h, rfl⟩

/-- `normalize_remote_forward_port`. -/
def normalizeRemoteForwardPort (requested : UInt16) (returned : UInt32) : Option UInt16 :=
  if returned = 0 then if requested = 0 then none else some requested
  else if returned.toNat < 65536 then some returned.toUInt16 else none

/-- `normalize_forwarded_channel_port`. -/
def normalizeForwardedChannelPort (port : UInt32) : Option UInt16 :=
  if port.toNat < 65536 ∧ port ≠ 0 then some port.toUInt16 else none

/-- `is_active_forward_status`. -/
def isActiveForwardStatus : TaskStatus → Bool
  | .queued | .running => true
  | _ => false

/-- `ForwardLocalOptions`, `ForwardRemoteOptions` and the parameters of
`forward_start_dynamic`. -/
structure Request where
  forwardType : ForwardType
  tunnelId : Option ℕ
  sessionId : ℕ
  connectionId : ℕ
  bindHost : List Char
  bindPort : UInt16
  deriving DecidableEq

/-- What changes of a `ForwardRecord`; the rest is in the call that made it. -/
structure ForwardRecord where
  bindPort : UInt16
  status : TaskStatus
  listenerStarted : Bool
  deriving DecidableEq

/-- How far a start is. -/
inductive StartPhase where
  /-- Before the lock of its tunnel. -/
  | begun
  | waitingTunnel
  /-- In `forward_for_tunnel`. -/
  | refreshing
  | finding
  /-- Before `forward_start_local_unlocked` and the like take the gate. -/
  | admitted
  | binding
  /-- The listener has a port, and its task waits for the start. -/
  | bound (port : UInt16)
  /-- Before the listener's task is aborted, when the connection was gone. -/
  | rollingBack
  /-- The record of the listener is in the table, and the task is to be told. -/
  | published
  /-- Before the lock of the remote address. -/
  | addressing
  | waitingAddress
  /-- Before `has_active_remote_forward`. -/
  | comparing
  | routing
  /-- In `request_remote_forward`. -/
  | requesting
  /-- The server accepted, and the routing entry gets the assigned port. -/
  | assigned (port : UInt16)
  | routed (port : UInt16)
  /-- Before the entry of a refused request is removed; then a port is to be canceled. -/
  | refusing (cancel : Bool)
  | withdrawing
  /-- The connection was gone: the server is asked to cancel, and the entry is removed. -/
  | orphaned (port : UInt16)
  | unrouting (port : UInt16)
  /-- `Ok` with the forward, or `Err`. -/
  | returned (result : Option ℕ)
  /-- The caller is gone. -/
  | dropped
  /-- No call, but a record of `record_tunnel_start_failure`. -/
  | failure
  deriving DecidableEq

/-- A start, its record in the table and its bound listener. -/
structure Start where
  request : Request
  origin : ConnectionOrigin
  phase : StartPhase
  record : Option ForwardRecord
  listener : Bool
  deriving DecidableEq

/-- Which forwards a stop is for: `forward_stop`, or `stop_forwards_for_tunnel_inner`. -/
inductive StopRequest where
  | one (forward : ℕ)
  | tunnel (tunnelId : ℕ) (origin : Option ConnectionOrigin)
  deriving DecidableEq

/-- The record that `forward_stop_if_present` has removed, and the forwards that come after. -/
structure Taken where
  forward : ℕ
  record : ForwardRecord
  rest : List ℕ
  deriving DecidableEq

/-- How far a stop is. -/
inductive StopPhase where
  /-- Before `forward_stop` reads the tunnel of the forward. -/
  | begun
  | locking (tunnelId : ℕ)
  | waitingTunnel (tunnelId : ℕ)
  | listing (tunnelId : ℕ)
  /-- Before `forward_stop_if_present` of each. -/
  | taking (forwards : List ℕ)
  /-- Before the lock of the remote address. -/
  | taken (t : Taken)
  | waitingAddress (t : Taken)
  | looking (t : Taken)
  /-- In `cancel_remote_forward`. -/
  | canceling (t : Taken)
  | unrouting (t : Taken)
  | restoring (t : Taken)
  /-- In `cancel_forward_record`. -/
  | aborting (forward : ℕ) (rest : List ℕ)
  | returned (ok : Bool)
  | dropped
  deriving DecidableEq

/-- What a stop is about that has found the connection of its forward: it keeps the registry of
the connections read (`connections.read()`) until the server has replied and the record is put
back or the routing entry removed. -/
def StopPhase.reading : StopPhase → Option Taken
  | .canceling x | .unrouting x | .restoring x => some x
  | _ => none

/-- A stop. -/
structure Stop where
  request : StopRequest
  phase : StopPhase
  deriving DecidableEq

/-- The calls that wait for locks. -/
inductive Caller where
  | start (i : ℕ)
  | stop (j : ℕ)
  deriving DecidableEq

/-- The tables, the calls and the locks.  `routes c` is the table `remote_forwards` of a
connection, with the start that an entry belongs to. -/
structure State where
  starts : List Start
  stops : List Stop
  routes : ℕ → List Char → Option ℕ
  tunnelLocks : KeyedLocks ℕ Caller
  addressLocks : KeyedLocks (ℕ × List Char) Caller

/-- A step of a start. -/
inductive StartAction where
  | getTunnelLock (tunnelId : ℕ)
  | acquireTunnel
  | refresh
  | find (tunnelId : ℕ)
  | enter
  | bind (port : Option UInt16)
  | register (port : UInt16)
  | rollBack
  | signal
  | getAddressLock
  | acquireAddress
  | compare
  | insertRoute
  | reply (returned : Option UInt32)
  | refuse (cancel : Bool)
  | withdraw
  | assign (port : UInt16)
  | registerRemote (port : UInt16)
  | cancelReply (port : UInt16)
  | unroute (port : UInt16)
  | dropCaller
  | markFailed
  | endTask
  deriving DecidableEq

/-- A step of a stop. -/
inductive StopAction where
  | readTunnel (forward : ℕ)
  | getTunnelLock (tunnelId : ℕ)
  | acquireTunnel (tunnelId : ℕ)
  | list (tunnelId : ℕ)
  | take (forward : ℕ) (rest : List ℕ)
  | finish
  | getAddressLock (t : Taken)
  | acquireAddress (t : Taken)
  | look (t : Taken)
  | cancelReply (t : Taken) (ok : Bool)
  | unroute (t : Taken)
  | restore (t : Taken)
  | abort (forward : ℕ) (rest : List ℕ)
  | dropCaller
  deriving DecidableEq

/-- The steps of the calls. -/
inductive Event where
  | start (request : Request)
  | recordFailure (request : Request)
  | stop (request : StopRequest)
  | refresh
  | startAct (i : ℕ) (action : StartAction)
  | stopAct (j : ℕ) (action : StopAction)
  deriving DecidableEq

namespace Start

/-- The key of the forward in the routing table, with a port. -/
def key (f : Start) (port : UInt16) : List Char :=
  forwardKey f.request.bindHost port

/-- The lock of the remote address that was asked for. -/
def requestedLock (f : Start) : ℕ × List Char :=
  (f.request.connectionId, f.key f.request.bindPort)

/-- `refresh_finished_forward_records`, on one record: an active one whose task has finished. -/
def refreshed (f : Start) : Start :=
  { f with
    record := f.record.map fun r =>
      if isActiveForwardStatus r.status && f.request.forwardType ≠ .remoteForward &&
        !f.listener then
        { r with status := .failed }
      else r }

/-- `mark_forward_failed`. -/
def marked (f : Start) : Start :=
  { f with
    record := f.record.map fun r =>
      if isActiveForwardStatus r.status then { r with status := .failed } else r }

/-- The record counts for its tunnel (`find_forward_for_tunnel`). -/
def activeFor (f : Start) (tunnelId : ℕ) (origin : ConnectionOrigin) : Bool :=
  f.request.tunnelId = some tunnelId && f.origin = origin &&
    f.record.any fun r => isActiveForwardStatus r.status

/-- The record is a remote forward at an address (`has_active_remote_forward`). -/
def holdsAddress (f : Start) (request : Request) : Bool :=
  f.request.connectionId = request.connectionId && f.request.forwardType = .remoteForward &&
    f.request.bindHost = request.bindHost &&
    f.record.any fun r => r.listenerStarted && r.bindPort = request.bindPort &&
      (r.status ≠ .canceled && r.status ≠ .completed)

/-- The caller may be gone at the phases that wait.  Between the insertion of a listener's
record and the signal to its task there is no wait. -/
def waits (f : Start) : Bool :=
  match f.phase with
  | .published | .returned _ | .dropped | .failure => false
  | _ => true

/-- The start holds the gate. -/
def inGate (f : Start) : Bool :=
  match f.phase with
  | .begun | .waitingTunnel | .refreshing | .finding | .admitted | .returned _ | .dropped
  | .failure => false
  | _ => true

end Start

namespace State

/-- No stop keeps the registry of the connections read, so a call can write it. -/
def registryFree (s : State) : Bool :=
  s.stops.all fun t => t.phase.reading.isNone

/-- A start is replaced. -/
def setStart (s : State) (i : ℕ) (f : Start) : State :=
  { s with starts := s.starts.set i f }

/-- A stop is replaced. -/
def setStop (s : State) (j : ℕ) (t : Stop) : State :=
  { s with stops := s.stops.set j t }

/-- A call drops its locks. -/
def release (s : State) (caller : Caller) : State :=
  { s with
    tunnelLocks := s.tunnelLocks.drop caller
    addressLocks := s.addressLocks.drop caller }

/-- An entry of the routing table of a connection is written or removed. -/
def setRoute (s : State) (c : ℕ) (key : List Char) (entry : Option ℕ) : State :=
  { s with routes := Function.update s.routes c (Function.update (s.routes c) key entry) }

/-- A start returns. -/
def finish (s : State) (i : ℕ) (f : Start) (result : Option ℕ) : State :=
  (s.setStart i { f with phase := .returned result }).release (.start i)

/-- `find_forward_for_tunnel`, after the refresh. -/
def findForwardForTunnel (s : State) (tunnelId : ℕ) (origin : ConnectionOrigin) : Option ℕ :=
  s.starts.findIdx? fun f => f.activeFor tunnelId origin

/-- `matching_forward_ids`. -/
def matchingForwardIds (s : State) (tunnelId : ℕ) (origin : Option ConnectionOrigin) : List ℕ :=
  (List.range s.starts.length).filter fun i =>
    (s.starts[i]?).any fun f =>
      f.record.isSome && f.request.tunnelId = some tunnelId &&
        origin.all fun o => f.origin = o

end State

/-- When a step of a start is possible. -/
def Start.Enabled (env : Surroundings) (s : State) (i : ℕ) (f : Start) : StartAction → Prop
  | .getTunnelLock tunnelId => f.phase = .begun ∧ f.request.tunnelId = some tunnelId
  | .acquireTunnel => f.phase = .waitingTunnel ∧ s.tunnelLocks.Free (.start i)
  | .refresh => f.phase = .refreshing
  | .find tunnelId => f.phase = .finding ∧ f.request.tunnelId = some tunnelId
  | .enter => f.phase = .admitted ∧ env.gateOpen = true
  | .bind _ => f.phase = .binding
  | .register port => f.phase = .bound port
  | .rollBack => f.phase = .rollingBack
  | .signal => f.phase = .published
  | .getAddressLock => f.phase = .addressing
  | .acquireAddress => f.phase = .waitingAddress ∧ s.addressLocks.Free (.start i)
  | .compare => f.phase = .comparing
  | .insertRoute => f.phase = .routing
  | .reply _ => f.phase = .requesting
  | .refuse cancel => f.phase = .refusing cancel
  | .withdraw => f.phase = .withdrawing
  | .assign port => f.phase = .assigned port
  | .registerRemote port => f.phase = .routed port
  | .cancelReply port => f.phase = .orphaned port
  | .unroute port => f.phase = .unrouting port
  | .dropCaller => f.waits = true
  | .markFailed => f.phase = .returned (some i) ∧ f.listener = true
  | .endTask => f.phase = .returned (some i) ∧ f.listener = true

instance (env : Surroundings) (s : State) (i : ℕ) (f : Start) (action : StartAction) :
    Decidable (f.Enabled env s i action) := by
  cases action <;> unfold Start.Enabled <;> infer_instance

namespace State

/-- The record of a forward whose listener has been opened. -/
def running (port : UInt16) : ForwardRecord :=
  { bindPort := port, status := .running, listenerStarted := true }

/-- The state after a step of a start. -/
def afterStart (s : State) (env : Surroundings) (i : ℕ) (f : Start) : StartAction → State
  | .getTunnelLock tunnelId =>
    { s.setStart i { f with phase := .waitingTunnel } with
      tunnelLocks := s.tunnelLocks.get (.start i) tunnelId }
  | .acquireTunnel =>
    { s.setStart i { f with phase := .refreshing } with
      tunnelLocks := s.tunnelLocks.lock (.start i) }
  | .refresh =>
    { s with starts := (s.starts.map Start.refreshed).set i { f.refreshed with phase := .finding } }
  | .find tunnelId =>
    match s.findForwardForTunnel tunnelId f.origin with
    | some existing => s.finish i f (some existing)
    | none => s.setStart i { f with phase := .admitted }
  | .enter =>
    match env.connections f.request.connectionId with
    | some connection =>
      if connection.sessionId = f.request.sessionId then
        s.setStart i
          { f with
            origin := connection.origin
            phase := if f.request.forwardType = .remoteForward then .addressing else .binding }
      else s.finish i f none
    | none => s.finish i f none
  | .bind port =>
    match port with
    | some port => s.setStart i { f with phase := .bound port, listener := true }
    | none => s.finish i f none
  | .register port =>
    -- The record is inserted while the registry of the connections is read.
    if (env.connections f.request.connectionId).isSome then
      s.setStart i { f with phase := .published, record := some (running port) }
    else s.setStart i { f with phase := .rollingBack }
  | .rollBack => s.finish i { f with listener := false } none
  | .signal =>
    if f.listener then s.finish i f (some i) else s.finish i { f with record := none } none
  | .getAddressLock =>
    { s.setStart i { f with phase := .waitingAddress } with
      addressLocks := s.addressLocks.get (.start i) f.requestedLock }
  | .acquireAddress =>
    { s.setStart i { f with phase := .comparing } with
      addressLocks := s.addressLocks.lock (.start i) }
  | .compare =>
    if s.starts.any fun g => g.holdsAddress f.request then s.finish i f none
    else s.setStart i { f with phase := .routing }
  | .insertRoute =>
    (s.setStart i { f with phase := .requesting }).setRoute f.request.connectionId
      (f.key f.request.bindPort) (some i)
  | .reply returned =>
    match returned with
    | some port =>
      match normalizeRemoteForwardPort f.request.bindPort port with
      | some assigned => s.setStart i { f with phase := .assigned assigned }
      | none => s.setStart i { f with phase := .refusing (port ≠ 0) }
    | none => s.setStart i { f with phase := .refusing false }
  | .refuse cancel =>
    let s' := s.setRoute f.request.connectionId (f.key f.request.bindPort) none
    if cancel then s'.setStart i { f with phase := .withdrawing } else s'.finish i f none
  | .withdraw => s.finish i f none
  | .assign port =>
    let s' := s.setStart i { f with phase := .routed port }
    if port = f.request.bindPort then s'
    else
      (s'.setRoute f.request.connectionId (f.key f.request.bindPort) none).setRoute
        f.request.connectionId (f.key port) (some i)
  | .registerRemote port =>
    if (env.connections f.request.connectionId).isSome then
      s.finish i { f with record := some (running port) } (some i)
    else s.setStart i { f with phase := .orphaned port }
  | .cancelReply port => s.setStart i { f with phase := .unrouting port }
  | .unroute port => (s.setRoute f.request.connectionId (f.key port) none).finish i f none
  | .dropCaller =>
    -- The task of a listener that was not told to start ends with its caller.
    (s.setStart i { f with phase := .dropped, listener := false }).release (.start i)
  | .markFailed => s.setStart i f.marked
  | .endTask => s.setStart i { f with listener := false }

end State

/-- The caller may be gone at the phases that wait. -/
def Stop.waits (t : Stop) : Bool :=
  match t.phase with
  | .returned _ | .dropped => false
  | _ => true

/-- When a step of a stop is possible. -/
def Stop.Enabled (s : State) (j : ℕ) (t : Stop) : StopAction → Prop
  | .readTunnel forward => t.phase = .begun ∧ t.request = .one forward
  | .getTunnelLock tunnelId => t.phase = .locking tunnelId
  | .acquireTunnel tunnelId => t.phase = .waitingTunnel tunnelId ∧ s.tunnelLocks.Free (.stop j)
  | .list tunnelId => t.phase = .listing tunnelId
  | .take forward rest => t.phase = .taking (forward :: rest)
  | .finish => t.phase = .taking []
  | .getAddressLock x => t.phase = .taken x
  | .acquireAddress x => t.phase = .waitingAddress x ∧ s.addressLocks.Free (.stop j)
  | .look x => t.phase = .looking x
  | .cancelReply x _ => t.phase = .canceling x
  | .unroute x => t.phase = .unrouting x
  | .restore x => t.phase = .restoring x
  | .abort forward rest => t.phase = .aborting forward rest
  | .dropCaller => t.waits = true

instance (s : State) (j : ℕ) (t : Stop) (action : StopAction) :
    Decidable (t.Enabled s j action) := by
  cases action <;> unfold Stop.Enabled <;> infer_instance

/-- The origin that a stop is restricted to. -/
def Stop.expectedOrigin (t : Stop) : Option ConnectionOrigin :=
  match t.request with
  | .one _ => none
  | .tunnel _ origin => origin

namespace State

/-- A stop returns. -/
def finishStop (s : State) (j : ℕ) (t : Stop) (ok : Bool) : State :=
  (s.setStop j { t with phase := .returned ok }).release (.stop j)

/-- The listener of a forward is closed. -/
def closeListener (s : State) (i : ℕ) : State :=
  { s with starts := s.starts.modify i fun f => { f with listener := false } }

/-- The record of a forward is put into the table or taken out of it. -/
def setRecord (s : State) (i : ℕ) (record : Option ForwardRecord) : State :=
  { s with starts := s.starts.modify i fun f => { f with record := record } }

/-- The record that a stop may take (`forward_stop_if_present`). -/
def matching (s : State) (i : ℕ) (origin : Option ConnectionOrigin) :
    Option (Start × ForwardRecord) :=
  (s.starts[i]?).bind fun f =>
    if origin.all fun o => f.origin = o then f.record.map fun r => (f, r) else none

/-- The address of a forward whose record was taken. -/
def addressOf (s : State) (x : Taken) : Option (ℕ × List Char) :=
  (s.starts[x.forward]?).map fun f => (f.request.connectionId, f.key x.record.bindPort)

/-- The state after a step of a stop. -/
def afterStop (s : State) (env : Surroundings) (j : ℕ) (t : Stop) : StopAction → State
  | .readTunnel forward =>
    match (s.matching forward none).bind fun x => x.1.request.tunnelId with
    | some tunnelId => s.setStop j { t with phase := .locking tunnelId }
    | none => s.setStop j { t with phase := .taking [forward] }
  | .getTunnelLock tunnelId =>
    { s.setStop j { t with phase := .waitingTunnel tunnelId } with
      tunnelLocks := s.tunnelLocks.get (.stop j) tunnelId }
  | .acquireTunnel tunnelId =>
    { s.setStop j
        { t with
          phase :=
            match t.request with
            | .one forward => .taking [forward]
            | .tunnel _ _ => .listing tunnelId } with
      tunnelLocks := s.tunnelLocks.lock (.stop j) }
  | .list tunnelId =>
    s.setStop j { t with phase := .taking (s.matchingForwardIds tunnelId t.expectedOrigin) }
  | .take forward rest =>
    match s.matching forward t.expectedOrigin with
    | some (f, r) =>
      (s.setRecord forward none).setStop j
        { t with
          phase :=
            if r.listenerStarted && f.request.forwardType = .remoteForward then
              .taken ⟨forward, r, rest⟩
            else .aborting forward rest }
    | none =>
      match t.request with
      | .one _ => s.finishStop j t false
      | .tunnel _ _ => s.setStop j { t with phase := .taking rest }
  | .finish => s.finishStop j t true
  | .getAddressLock x =>
    match s.addressOf x with
    | some address =>
      { s.setStop j { t with phase := .waitingAddress x } with
        addressLocks := s.addressLocks.get (.stop j) address }
    | none => s
  | .acquireAddress x =>
    { s.setStop j { t with phase := .looking x } with
      addressLocks := s.addressLocks.lock (.stop j) }
  | .look x =>
    match (s.starts[x.forward]?).bind fun f => env.connections f.request.connectionId with
    | some _ => s.setStop j { t with phase := .canceling x }
    | none =>
      { s.setStop j { t with phase := .aborting x.forward x.rest } with
        addressLocks := s.addressLocks.drop (.stop j) }
  | .cancelReply x ok =>
    s.setStop j { t with phase := if ok then .unrouting x else .restoring x }
  | .unroute x =>
    match s.addressOf x with
    | some (c, key) =>
      { (s.setStop j { t with phase := .aborting x.forward x.rest }).setRoute c key none with
        addressLocks := s.addressLocks.drop (.stop j) }
    | none => s
  | .restore x =>
    (s.setRecord x.forward (some { x.record with status := .failed })).finishStop j t false
  | .abort forward rest =>
    (s.closeListener forward).setStop j { t with phase := .taking rest }
  | .dropCaller =>
    -- The task of a listener is told to stop before the first wait for it.
    let s' :=
      match t.phase with
      | .aborting forward _ => s.closeListener forward
      | _ => s
    (s'.setStop j { t with phase := .dropped }).release (.stop j)

end State

/-- The call that starts a forward. -/
def Start.new (request : Request) (origin : ConnectionOrigin) : Start where
  request := request
  origin := origin
  phase := if request.tunnelId.isSome then .begun else .admitted
  record := none
  listener := false

/-- The record of `record_tunnel_start_failure`. -/
def Start.failed (request : Request) (origin : ConnectionOrigin) : Start where
  request := request
  origin := origin
  phase := .failure
  record := some { bindPort := request.bindPort, status := .failed, listenerStarted := false }
  listener := false

/-- The call that stops forwards. -/
def Stop.new (request : StopRequest) : Stop where
  request := request
  phase :=
    match request with
    | .one _ => .begun
    | .tunnel tunnelId _ => .locking tunnelId

/-- The effect of an event. -/
def step (env : Surroundings) (s : State) : Event → Option State
  | .start request =>
    (env.connections request.connectionId).bind fun connection =>
      if connection.sessionId = request.sessionId then
        some { s with starts := s.starts ++ [Start.new request connection.origin] }
      else none
  | .recordFailure request =>
    (env.connections request.connectionId).bind fun connection =>
      if env.gateOpen && request.tunnelId.isSome then
        some { s with starts := s.starts ++ [Start.failed request connection.origin] }
      else none
  | .stop request => some { s with stops := s.stops ++ [Stop.new request] }
  | .refresh => some { s with starts := s.starts.map Start.refreshed }
  | .startAct i action =>
    (s.starts[i]?).bind fun f =>
      if f.Enabled env s i action then some (s.afterStart env i f action) else none
  | .stopAct j action =>
    (s.stops[j]?).bind fun t =>
      if t.Enabled s j action then some (s.afterStop env j t action) else none

/-- No call was made. -/
def init : State where
  starts := []
  stops := []
  routes _ _ := none
  tunnelLocks := .empty
  addressLocks := .empty

end Forward
end Remote
end HelmSsh
