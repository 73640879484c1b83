/-
# Terminals and telemetry jobs

The tables `terminals` and `telemetry_jobs` of `RemoteRuntime`, and the calls that put records
into them: `open_terminal` of `src-tauri/src/remote/runtime_terminal.rs` and `telemetry_start` of
`src-tauri/src/remote/runtime_telemetry.rs`.  Both look the connection up, spawn a task that
waits for a signal, insert the record while they read the registry of the connections, and tell
the task.

A record leaves its table by `close_terminal`, `telemetry_stop` and
`telemetry_stop_by_session`, when its task ends, or by the teardown of its connection.
-/

import HelmSsh.Remote.Forwards

namespace HelmSsh
namespace Remote
namespace Children

/-- The two tables. -/
inductive Kind where
  | terminal
  | telemetry
  deriving DecidableEq

/-- How far an opening call is. -/
inductive Phase where
  /-- It waits for the remote end, or for jobs that it stops. -/
  | opening
  /-- Its record is in the table, and the task is to be told. -/
  | published
  | returned
  | dropped
  deriving DecidableEq

/-- An opening call and its record. -/
structure Child where
  kind : Kind
  connectionId : ℕ
  phase : Phase
  listed : Bool
  deriving DecidableEq

/-- A step of an opening call, or of its record. -/
inductive Action where
  | insert
  | fail
  | signal (ok : Bool)
  | dropCaller
  /-- The record is removed from its table. -/
  | remove
  deriving DecidableEq

/-- The steps of the calls. -/
inductive Event where
  | open (kind : Kind) (connectionId : ℕ)
  | act (i : ℕ) (action : Action)
  deriving DecidableEq

namespace Child

/-- When a step is possible. -/
def Enabled (c : Child) : Action → Prop
  | .insert => c.phase = .opening
  | .fail => c.phase = .opening
  | .signal _ => c.phase = .published
  | .dropCaller => c.phase = .opening
  | .remove => c.listed = true

instance (c : Child) (action : Action) : Decidable (c.Enabled action) := by
  cases action <;> unfold Enabled <;> infer_instance

/-- A call and its record after a step. -/
def next (env : Surroundings) (c : Child) : Action → Child
  | .insert =>
    if (env.connections c.connectionId).isSome then
      { c with phase := .published, listed := true }
    else { c with phase := .returned }
  | .fail => { c with phase := .returned }
  | .signal ok => { c with phase := .returned, listed := c.listed && ok }
  | .dropCaller => { c with phase := .dropped }
  | .remove => { c with listed := false }

/-- The call holds the gate. -/
def inGate (c : Child) : Bool :=
  c.phase = .opening || c.phase = .published

end Child

/-- The effect of an event. -/
def step (env : Surroundings) (children : List Child) : Event → Option (List Child)
  | .open kind connectionId =>
    if env.gateOpen && (env.connections connectionId).isSome then
      some (children ++ [⟨kind, connectionId, .opening, false⟩])
    else none
  | .act i action =>
    (children[i]?).bind fun c =>
      if c.Enabled action then some (children.set i (c.next env action)) else none

/-- The records of a connection in a table. -/
def childrenOf (children : List Child) (kind : Kind) (connectionId : ℕ) : List ℕ :=
  (List.range children.length).filter fun i =>
    (children[i]?).any fun c => c.listed && c.kind = kind && c.connectionId = connectionId

/-- Some records are removed from their table. -/
def unlistAll (children : List Child) (ids : List ℕ) : List Child :=
  children.mapIdx fun i c => if ids.contains i then { c with listed := false } else c

end Children
end Remote
end HelmSsh
