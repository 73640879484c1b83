/-
# The serial queue of asynchronous tasks

`createAsyncQueue` of `src/lib/asyncQueue.ts`.  Each call of `enqueue` waits for the tail of the
queue with `tail.then(run, run)`, and the tail is then the promise that the result of this call
has settled, whichever way.  A `run` compares the two generations with those of its call and
throws if one of them has changed; otherwise it calls its task.  The generations are natural
numbers, where the source's numbers stop counting at `2 ^ 53`.

The machine has the promises of the queue and their jobs (`Realm`).  Its events are the calls of
`enqueue`, `invalidate` and `invalidateAsyncQueues`, each possible at any time, also from within a
task; the next job; that a task that was called returns its promise, or throws; and that the
promise of a task is settled, in whichever order the environment chooses.

* `machine` — the queue, as a machine.
* `Serial` — the calls and the ends of the tasks alternate, in the order of the queue.
* `Serial.running_unique` — at most one task is running then.
-/

import HelmSsh.Machine
import HelmSsh.Promises
import Mathlib.Order.Nat
import Mathlib.Data.List.Pairwise
import Mathlib.Data.List.Basic
import Mathlib.Tactic.Common

namespace HelmSsh
namespace Frontend
namespace AsyncQueue

/-! ### The queue -/

/-- The promises of a queue: the tail after some number of tasks, and, of the task with some
number, the promise that `enqueue` returns and the one that the task itself returns. -/
inductive Name where
  | tail (tasks : ℕ)
  | result (task : ℕ)
  | task (task : ℕ)
  deriving DecidableEq

/-- The functions that are given to `then`: `run` with what it captures, and `() => undefined`. -/
inductive Handler where
  | run (task submittedGeneration submittedGlobalGeneration : ℕ)
  | ignore
  deriving DecidableEq

/-- Why the promise of a call is rejected. -/
inductive Failure (E : Type*) where
  | task (error : E)
  | asyncQueueInvalidatedError
  deriving DecidableEq

/-- What is seen of a task: it is called, and it throws or its promise is settled. -/
inductive Call where
  | called (task : ℕ)
  | ended (task : ℕ)
  deriving DecidableEq

/-- How the promises of the queue are settled; `none` is `undefined`. -/
abbrev Outcome (V E : Type*) := Settlement (Option V) (Failure E)

/-- A promise of the queue. -/
abbrev QueuePromise (V E : Type*) := Promise Name Handler (Option V) (Failure E)

/-- A job of the queue. -/
abbrev QueueJob (V E : Type*) := Job Name Handler (Option V) (Failure E)

/-- The promises and the jobs of the queue. -/
abbrev QueueRealm (V E : Type*) := Realm Name Handler (Option V) (Failure E)

/-- A queue, with the generation that all queues share. -/
structure State (V E : Type*) where
  realm : QueueRealm V E
  tail : Name
  generation : ℕ
  globalGeneration : ℕ
  /-- What each call of `enqueue` found the generations to be. -/
  submitted : List (ℕ × ℕ)
  /-- The task that is being called, and the promise that `then` has made for its `run`. -/
  executing : Option (ℕ × Name)
  /-- What was seen of the tasks so far. -/
  calls : List Call

/-- What happens to a queue. -/
inductive Event (V E : Type*) where
  | enqueue
  | invalidate
  | invalidateAsyncQueues
  | job
  | returns
  | throws (error : E)
  | settles (task : ℕ) (outcome : Settlement V E)

variable {V E : Type*}

/-- The outcome of the promise of a task, as that of the call. -/
def outcomeOf : Settlement V E → Outcome V E
  | .fulfilled value => .fulfilled (some value)
  | .rejected error => .rejected (.task error)

/-- `createAsyncQueue`: the tail is `Promise.resolve()`. -/
def createAsyncQueue (globalGeneration : ℕ) : State V E where
  realm := Realm.fresh.set (.tail 0) (.settled (.fulfilled none))
  tail := .tail 0
  generation := 0
  globalGeneration := globalGeneration
  submitted := []
  executing := none
  calls := []

/-- `enqueue`. -/
def enqueue (s : State V E) : State V E :=
  let task := s.submitted.length
  let run := Handler.run task s.generation s.globalGeneration
  let realm := s.realm.register s.tail (.handle run (.result task))
  { s with
    realm := realm.register (.result task) (.handle .ignore (.tail (task + 1)))
    tail := .tail (task + 1)
    submitted := s.submitted ++ [(s.generation, s.globalGeneration)] }

/-- `run`: it throws, or it calls the task. -/
def run (s : State V E) (task submittedGeneration submittedGlobalGeneration : ℕ) (derived : Name) :
    State V E :=
  if submittedGeneration ≠ s.generation ∨ submittedGlobalGeneration ≠ s.globalGeneration then
    { s with realm := s.realm.settle derived (.rejected .asyncQueueInvalidatedError) }
  else
    { s with executing := some (task, derived), calls := s.calls ++ [.called task] }

/-- A job that was taken from the queue of jobs. -/
def perform (s : State V E) : QueueJob V E → State V E
  | .react (.handle (.run task generation globalGeneration) derived) _ =>
    run s task generation globalGeneration derived
  | .react (.handle .ignore derived) _ =>
    { s with realm := s.realm.settle derived (.fulfilled none) }
  | .react (.adopt derived) settlement => { s with realm := s.realm.settle derived settlement }
  | .follow promise thenable => { s with realm := s.realm.register thenable (.adopt promise) }

/-- A task has been called and has not come to its end. -/
def Running (calls : List Call) (task : ℕ) : Prop :=
  .called task ∈ calls ∧ .ended task ∉ calls

instance (calls : List Call) (task : ℕ) : Decidable (Running calls task) :=
  inferInstanceAs (Decidable (_ ∧ _))

/-- One event of a queue.  A job needs that no task is being called, since a call runs to its end.
-/
def step (s : State V E) : Event V E → Option (State V E)
  | .enqueue => some (enqueue s)
  | .invalidate => some { s with generation := s.generation + 1 }
  | .invalidateAsyncQueues => some { s with globalGeneration := s.globalGeneration + 1 }
  | .job =>
    match s.executing with
    | some _ => none
    | none => s.realm.takeJob.map fun taken => perform { s with realm := taken.2 } taken.1
  | .returns =>
    s.executing.map fun executing =>
      { s with executing := none, realm := s.realm.follow executing.2 (.task executing.1) }
  | .throws error =>
    s.executing.bind fun executing =>
      if Running s.calls executing.1 then
        some { s with
          executing := none
          realm := s.realm.settle executing.2 (.rejected (.task error))
          calls := s.calls ++ [.ended executing.1] }
      else none
  | .settles task outcome =>
    if Running s.calls task then
      some { s with
        realm := s.realm.settle (.task task) (outcomeOf outcome)
        calls := s.calls ++ [.ended task] }
    else none

/-- The queue, from a generation of all queues on. -/
def machine (globalGeneration : ℕ) : Machine (State V E) (Event V E) where
  init := createAsyncQueue globalGeneration
  step := step

/-! ### The calls, in order -/

/-- Tasks that were called and came to their end, one after the other. -/
def callsOf (tasks : List ℕ) : List Call :=
  tasks.flatMap fun task => [.called task, .ended task]

/-- The calls of some tasks before `f`, in order, all at their end. -/
def Closed (calls : List Call) (f : ℕ) : Prop :=
  ∃ tasks, tasks.Pairwise (· < ·) ∧ (∀ task ∈ tasks, task < f) ∧ calls = callsOf tasks

/-- Behind the calls of some tasks before `f`, that of `f`, which has not come to its end. -/
def Open (calls : List Call) (f : ℕ) : Prop :=
  ∃ before, Closed before f ∧ calls = before ++ [.called f]

/-- **One task at a time, in the order of the queue**: the calls of some tasks, in order and each
at its end before the next one, and at most one call more. -/
def Serial (calls : List Call) : Prop :=
  ∃ f, Closed calls f ∨ Open calls f

theorem mem_callsOf {tasks : List ℕ} {task : ℕ} :
    (.called task ∈ callsOf tasks ↔ task ∈ tasks) ∧
      (.ended task ∈ callsOf tasks ↔ task ∈ tasks) := by
  simp [callsOf]

variable {calls : List Call}

theorem Closed.lt {f task : ℕ} (h : Closed calls f)
    (hcalled : .called task ∈ calls) : task < f := by
  obtain ⟨tasks, -, hlt, rfl⟩ := h
  exact hlt task (mem_callsOf.1.mp hcalled)

theorem Closed.ended_lt {f task : ℕ} (h : Closed calls f)
    (hended : .ended task ∈ calls) : task < f := by
  obtain ⟨tasks, -, hlt, rfl⟩ := h
  exact hlt task (mem_callsOf.2.mp hended)

theorem Closed.mono {f g : ℕ} (h : Closed calls f) (hle : f ≤ g) :
    Closed calls g := by
  obtain ⟨tasks, hsorted, hlt, heq⟩ := h
  exact ⟨tasks, hsorted, fun task htask => (hlt task htask).trans_le hle, heq⟩

theorem Closed.not_running {f task : ℕ} (h : Closed calls f) :
    ¬ Running calls task := by
  obtain ⟨tasks, -, -, rfl⟩ := h
  exact fun hrunning => hrunning.2 (mem_callsOf.2.mpr (mem_callsOf.1.mp hrunning.1))

/-- The one that runs is the last one that was called. -/
theorem Open.running_iff {f task : ℕ} (h : Open calls f) :
    Running calls task ↔ task = f := by
  obtain ⟨before, hbefore, rfl⟩ := h
  constructor
  · rintro ⟨hcalled, hended⟩
    rcases List.mem_append.mp hcalled with hin | hlast
    · exact absurd ⟨hin, fun h => hended (List.mem_append_left _ h)⟩ hbefore.not_running
    · exact Call.called.inj (List.mem_singleton.mp hlast)
  · rintro rfl
    refine ⟨List.mem_append_right _ (List.mem_singleton.mpr rfl), fun hended => ?_⟩
    rcases List.mem_append.mp hended with hin | hlast
    · exact (hbefore.ended_lt hin).false
    · exact Call.noConfusion (List.mem_singleton.mp hlast)

theorem Closed.called {f : ℕ} (h : Closed calls f) :
    Open (calls ++ [.called f]) f :=
  ⟨calls, h, rfl⟩

theorem Open.ended {f : ℕ} (h : Open calls f) :
    Closed (calls ++ [.ended f]) (f + 1) ∧ .called f ∈ calls ++ [.ended f] := by
  obtain ⟨_, ⟨tasks, hsorted, hlt, rfl⟩, rfl⟩ := h
  refine ⟨⟨tasks ++ [f], ?_, ?_, ?_⟩, ?_⟩
  · rw [List.pairwise_append]
    exact ⟨hsorted, List.pairwise_singleton _ _,
      fun task htask g hg => List.mem_singleton.mp hg ▸ hlt task htask⟩
  · intro task htask
    rcases List.mem_append.mp htask with hin | hlast
    · exact Nat.lt_succ_of_lt (hlt task hin)
    · exact List.mem_singleton.mp hlast ▸ Nat.lt_succ_self f
  · simp [callsOf]
  · simp

theorem Serial.running_unique (h : Serial calls) {i j : ℕ}
    (hi : Running calls i) (hj : Running calls j) : i = j := by
  obtain ⟨f, hclosed | hopen⟩ := h
  · exact absurd hi hclosed.not_running
  · rw [hopen.running_iff.mp hi, hopen.running_iff.mp hj]

end AsyncQueue
end Frontend
end HelmSsh
