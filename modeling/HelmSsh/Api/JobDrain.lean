/-
# Draining the job registry

`JobRegistry::shutdown` and `attach_handle` (`src-tauri/src/api_server/jobs.rs`) with
the task of each job, `execute_job` (`handlers_jobs.rs`), over the records of
`HelmSsh.Api.JobCalls`.  The task marks the job as connecting, later as running, and
ends it with one of the `finish_*` operations; it can panic at any point, and the
registry aborts it when the deadline passes.  The shutdown takes one snapshot of the
records, calls `request_cancel` on each, takes the handle of each or calls
`finish_canceled` where there is none, and waits for the tasks of the handles.

The normal end of a task leaves its job with a terminal status
(`ShutdownJob.Wf.ended`), and so does the `finish_canceled` of the registry.  But
nobody ends the job of a task that panicked or was aborted
(`drained_fails`): such a job stays `Canceling`.  `drained_of_run` is the result for
the runs in which no task with an attached handle dies over an unfinished job
(`DrainState.Finishing`).

Records that are evicted or pruned have ended and are not modelled; the deadline can
pass at any moment of the wait.
-/

import HelmSsh.Api.JobCalls

namespace HelmSsh
namespace Api

/-! ### Calls that end the job -/

namespace JobOp

/-- `finish_result`, `finish_error` and `finish_canceled`. -/
def finishes : JobOp → Bool
  | .finishCanceled | .update (.finishResult _) | .update .finishError => true
  | _ => false

/-- `mark_connecting` and `mark_running`. -/
def marks : JobOp → Bool
  | .update .markConnecting | .update .markRunning => true
  | _ => false

/-- The operation is called by others than the job's task: the cancel of a client and the
output of the command. -/
def isExternal : JobOp → Bool
  | .requestCancel | .update (.appendStdout _) | .update (.appendStderr _) => true
  | _ => false

end JobOp

namespace Call

/-- The operation of a call. -/
def op : Call → JobOp
  | .checking u => .update u
  | .updating u => .update u
  | .requesting => .requestCancel
  | .finishing op => op
  | .signaling _ => .requestCancel
  | .broadcasting _ => .requestCancel
  | .returned op _ => op

@[simp] theorem start_op (op : JobOp) : (start op).op = op := by
  cases op with
  | update u =>
    cases u with
    | appendStdout n => cases n <;> rfl
    | appendStderr n => cases n <;> rfl
    | _ => rfl
  | _ => rfl

@[simp] theorem next_op (stamp : Stamp) (r : Record) (c : Call) :
    (c.next stamp r).2.op = c.op := by
  cases c <;> simp only [next] <;> (try split_ifs) <;> rfl

/-- The call has returned and says that the job has ended: a `finish_*`, or a mark that
was turned away. -/
def Ends : Call → Prop
  | .returned op result => op.finishes = true ∨ (op.marks = true ∧ result = false)
  | _ => False

/-- **A call that says so leaves the job ended.** -/
theorem terminal_of_ends {stamp : Stamp} {r : Record} {c : Call} (hc : c.isReturned = false)
    (h : (c.next stamp r).2.Ends) : (c.next stamp r).1.state.status.isTerminal = true := by
  cases c with
  | checking u =>
    simp only [next] at h
    split_ifs at h <;> exact h.elim
  | updating u =>
    simp only [next] at h ⊢
    split_ifs at h ⊢ with hcancel hterminal
    · exact h.elim
    · exact hterminal
    · rcases h with hfinishes | ⟨-, hfalse⟩
      · cases u with
        | finishResult result => exact JobRecord.resultStatus_terminal result
        | finishError => rfl
        | _ => cases hfinishes
      · cases hfalse
  | requesting =>
    simp only [next] at h
    split_ifs at h
    · rcases h with hfinishes | ⟨hmarks, -⟩
      · cases hfinishes
      · cases hmarks
    · exact h.elim
  | finishing op =>
    simp only [next]
    split_ifs with hterminal
    · exact hterminal
    · rfl
  | signaling event => exact h.elim
  | broadcasting event =>
    rcases h with hfinishes | ⟨hmarks, -⟩
    · cases hfinishes
    · cases hmarks
  | returned op result => cases hc

/-- A new call does not say so: only the output of nothing returns at once. -/
theorem not_ends_start (op : JobOp) : ¬(start op).Ends := by
  cases op with
  | update u =>
    cases u with
    | appendStdout n => cases n <;> simp [start, Ends, JobOp.finishes, JobOp.marks]
    | appendStderr n => cases n <;> simp [start, Ends, JobOp.finishes, JobOp.marks]
    | _ => exact id
  | _ => exact id

end Call

theorem System.terminal_of_step {s s' : System} {a : RecordEvent} (hstep : s.step a = some s')
    (h : s.record.state.status.isTerminal = true) :
    s'.record.state.status.isTerminal = true := by
  cases move_of_step hstep with
  | quiet _ _ hstatus => rwa [hstatus]
  | commit e _ hactive => rw [hactive] at h; cases h
  | request e _ hactive => rw [hactive] at h; cases h
  | broadcast e _ _ _ hstatus => rwa [hstatus]

/-! ### A job and its task -/

/-- Where the handle of a job's task is. -/
inductive HandleState where
  /-- Not attached to the record yet. -/
  | detached
  | attached
  /-- Taken by the shutdown. -/
  | taken
  deriving DecidableEq

/-- Where the task of a job is in `execute_job`. -/
inductive ExecPhase where
  | unspawned
  | ready
  /-- In `mark_connecting`, or with `running` in `mark_running`, as the given call. -/
  | marking (running : Bool) (call : ℕ)
  /-- Connecting or waiting for a permit; with `running` executing the command. -/
  | working (running : Bool)
  /-- In the operation that ends the job. -/
  | ending (call : ℕ)
  | ended
  /-- Panicked or aborted, with the call that it leaves behind. -/
  | dead (call : Option ℕ)
  deriving DecidableEq

namespace ExecPhase

/-- The call that the task waits for. -/
def call : ExecPhase → Option ℕ
  | .marking _ i => some i
  | .ending i => some i
  | .dead i => i
  | _ => none

/-- The task is at work. -/
def isLive : ExecPhase → Bool
  | .ready | .marking _ _ | .working _ | .ending _ => true
  | _ => false

end ExecPhase

/-- A job: its record with the calls on it, its handle and its task. -/
structure ShutdownJob where
  system : System
  handle : HandleState
  task : ExecPhase
  deriving DecidableEq

/-- A step of a job. -/
inductive JobTaskEvent where
  | spawn
  | attach
  /-- A client cancels the job, or its command writes output. -/
  | external (op : JobOp)
  /-- A call runs its next section. -/
  | run (i : ℕ) (stamp : Stamp)
  /-- The task calls `mark_connecting` or `mark_running`. -/
  | mark
  | marked
  /-- The task calls the operation that ends the job. -/
  | finish (op : JobOp)
  | finished
  | panic
  deriving DecidableEq

namespace ShutdownJob

/-- `JobRegistry::create`. -/
def new (initialBytes : ℕ) : ShutdownJob :=
  { system := .new initialBytes, handle := .detached, task := .unspawned }

/-- The job has ended. -/
def Ended (job : ShutdownJob) : Prop :=
  job.system.record.state.status.isTerminal = true

instance (job : ShutdownJob) : Decidable job.Ended :=
  inferInstanceAs (Decidable (_ = _))

/-- What the `i`-th call has returned. -/
def result (job : ShutdownJob) (i : ℕ) : Option Bool :=
  match job.system.calls[i]? with
  | some (.returned _ result) => some result
  | _ => none

/-- A new call on the record. -/
def startCall (op : JobOp) (job : ShutdownJob) : ShutdownJob :=
  { job with system := { job.system with calls := job.system.calls ++ [.start op] } }

/-- The operations that end a job before and after its command runs. -/
def mayFinish (running : Bool) : JobOp → Bool
  | .finishCanceled => !running
  | .update .finishError => true
  | .update (.finishResult _) => running
  | _ => false

/-- The step is possible.  The call of a dead task goes no further. -/
def Enabled (job : ShutdownJob) : JobTaskEvent → Prop
  | .spawn => job.task = .unspawned
  | .attach => job.task ≠ .unspawned ∧ job.handle = .detached
  | .external op => op.isExternal = true
  | .run i stamp => job.task ≠ .dead (some i) ∧ (job.system.step (.step i stamp)).isSome = true
  | .mark => job.task = .ready ∨ job.task = .working false
  | .marked =>
    match job.task with
    | .marking _ i => (job.result i).isSome = true
    | _ => False
  | .finish op =>
    match job.task with
    | .working running => mayFinish running op = true
    | _ => False
  | .finished =>
    match job.task with
    | .ending i => (job.result i).isSome = true
    | _ => False
  | .panic => job.task.isLive = true

instance (job : ShutdownJob) (e : JobTaskEvent) : Decidable (job.Enabled e) := by
  cases e <;> simp only [Enabled] <;> (try split) <;> infer_instance

/-- The task dies. -/
def kill (job : ShutdownJob) : ShutdownJob :=
  { job with task := .dead job.task.call }

/-- The effect of a step. -/
def next (job : ShutdownJob) : JobTaskEvent → ShutdownJob
  | .spawn => { job with task := .ready }
  | .attach => { job with handle := .attached }
  | .external op => job.startCall op
  | .run i stamp => { job with system := (job.system.step (.step i stamp)).getD job.system }
  | .mark =>
    if job.task = .ready then
      { job.startCall (.update .markConnecting) with
        task := .marking false job.system.calls.length }
    else
      { job.startCall (.update .markRunning) with
        task := .marking true job.system.calls.length }
  | .marked =>
    match job.task with
    | .marking running i =>
      { job with task := if job.result i = some true then .working running else .ended }
    | _ => job
  | .finish op => { job.startCall op with task := .ending job.system.calls.length }
  | .finished => { job with task := .ended }
  | .panic => job.kill

end ShutdownJob

/-! ### The registry -/

/-- Where `JobRegistry::shutdown` is, with the records it has still to visit. -/
inductive DrainStage where
  | working
  | canceling (pending : List ℕ)
  | collecting (pending : List ℕ)
  | joining
  | aborting
  | returned
  deriving DecidableEq

/-- The jobs and the shutdown. -/
structure DrainState where
  jobs : List ShutdownJob
  stage : DrainStage
  /-- The snapshot of the records. -/
  records : List ℕ
  /-- The job and the call that the shutdown waits for. -/
  call : Option (ℕ × ℕ)
  /-- The jobs whose handles were taken. -/
  handles : List ℕ
  deriving DecidableEq

/-- A step of a job or of the shutdown. -/
inductive DrainEvent where
  | create (initialBytes : ℕ)
  | job (j : ℕ) (e : JobTaskEvent)
  | snapshot
  /-- `request_cancel` is called on the next record. -/
  | requestCancel
  /-- The next record gives its handle, or `finish_canceled` is called on it. -/
  | takeHandle
  /-- The call on a record has returned. -/
  | callReturned
  | takeHandles
  | join
  | deadline
  /-- The task of a handle is aborted. -/
  | abort (j : ℕ)
  | finish
  deriving DecidableEq

namespace DrainState

/-- No job yet. -/
def init : DrainState :=
  { jobs := [], stage := .working, records := [], call := none, handles := [] }

/-- The task of the job has ended, one way or another. -/
def TaskOver (s : DrainState) (j : ℕ) : Prop :=
  s.jobs[j]?.any (fun job => !job.task.isLive) = true

instance (s : DrainState) (j : ℕ) : Decidable (s.TaskOver j) :=
  inferInstanceAs (Decidable (_ = _))

/-- The call that the shutdown waits for has returned. -/
def CallOver (s : DrainState) : Prop :=
  match s.call with
  | none => False
  | some (j, i) => (s.jobs[j]?.bind fun job => job.result i).isSome = true

instance (s : DrainState) : Decidable s.CallOver := by
  unfold CallOver
  split <;> infer_instance

/-- The step is possible. -/
def Enabled (s : DrainState) : DrainEvent → Prop
  | .create initialBytes => initialBytes ≤ maxJobEventBytes
  | .job j e => s.jobs[j]?.any (fun job => decide (job.Enabled e)) = true
  | .snapshot => s.stage = .working
  | .requestCancel =>
    match s.stage with
    | .canceling (_ :: _) => s.call = none
    | _ => False
  | .takeHandles => s.stage = .canceling [] ∧ s.call = none
  | .takeHandle =>
    match s.stage with
    | .collecting (_ :: _) => s.call = none
    | _ => False
  | .callReturned => s.CallOver
  | .join => s.stage = .collecting [] ∧ s.call = none
  | .deadline => s.stage = .joining
  | .abort j => s.stage = .aborting ∧ j ∈ s.handles ∧
      s.jobs[j]?.any (fun job => job.task.isLive) = true
  | .finish => (s.stage = .joining ∨ s.stage = .aborting) ∧ ∀ j ∈ s.handles, s.TaskOver j

instance (s : DrainState) (a : DrainEvent) : Decidable (s.Enabled a) := by
  cases a <;> simp only [Enabled] <;> (try split) <;> infer_instance

/-- The `j`-th job changes. -/
def modifyJob (s : DrainState) (j : ℕ) (f : ShutdownJob → ShutdownJob) : DrainState :=
  { s with jobs := s.jobs.modify j f }

/-- The shutdown calls an operation on the record `j`, and waits for it. -/
def startCall (s : DrainState) (j : ℕ) (op : JobOp) : DrainState :=
  { s.modifyJob j (ShutdownJob.startCall op) with
    call := s.jobs[j]?.map fun job => (j, job.system.calls.length) }

/-- The effect of a step. -/
def next (s : DrainState) : DrainEvent → DrainState
  | .create initialBytes => { s with jobs := s.jobs ++ [.new initialBytes] }
  | .job j e => s.modifyJob j fun job => job.next e
  | .snapshot =>
    { s with
      stage := .canceling (List.range s.jobs.length)
      records := List.range s.jobs.length }
  | .requestCancel =>
    match s.stage with
    | .canceling (j :: pending) =>
      { s.startCall j .requestCancel with stage := .canceling pending }
    | _ => s
  | .takeHandles => { s with stage := .collecting s.records }
  | .takeHandle =>
    match s.stage with
    | .collecting (j :: pending) =>
      if (s.jobs[j]?.map ShutdownJob.handle) = some .attached then
        { s.modifyJob j (fun job => { job with handle := .taken }) with
          stage := .collecting pending
          handles := j :: s.handles }
      else { s.startCall j .finishCanceled with stage := .collecting pending }
    | _ => s
  | .callReturned => { s with call := none }
  | .join => { s with stage := .joining }
  | .deadline => { s with stage := .aborting }
  | .abort j => s.modifyJob j ShutdownJob.kill
  | .finish => { s with stage := .returned }

end DrainState

/-- The jobs of a registry and its shutdown. -/
def jobDrain : Machine DrainState DrainEvent :=
  Machine.guarded .init DrainState.Enabled DrainState.next

/-! ### What a job keeps -/

/-- The calls on a record stay where they are, each of its own operation. -/
theorem System.call_of_step {s s' : System} {a : RecordEvent} (hstep : s.step a = some s')
    {k : ℕ} {c : Call} (hc : s.calls[k]? = some c) :
    ∃ c', s'.calls[k]? = some c' ∧ c'.op = c.op := by
  obtain ⟨op, rfl, rfl⟩ | ⟨i, stamp, d, rfl, hd, -, rfl⟩ := step_cases hstep
  · exact ⟨c, Pool.getElem?_add_left hc, rfl⟩
  · by_cases hik : i = k
    · subst hik
      rw [hd] at hc
      obtain rfl := Option.some.inj hc
      exact ⟨_, Pool.getElem?_set_self hd, Call.next_op stamp s.record d⟩
    · exact ⟨c, by rw [List.getElem?_set_ne hik]; exact hc, rfl⟩

namespace ShutdownJob

/-- A job later on: ended if it was, its handle taken if it was, with the same calls. -/
structure Later (job job' : ShutdownJob) : Prop where
  ended : job.Ended → job'.Ended
  taken : job.handle = .taken → job'.handle = .taken
  calls : ∀ (i : ℕ) (c : Call), job.system.calls[i]? = some c →
    ∃ c', job'.system.calls[i]? = some c' ∧ c'.op = c.op

theorem Later.refl (job : ShutdownJob) : job.Later job :=
  ⟨id, id, fun _ c hc => ⟨c, hc, rfl⟩⟩

theorem later_startCall (op : JobOp) (job : ShutdownJob) : job.Later (job.startCall op) :=
  ⟨id, id, fun _ c hc => ⟨c, Pool.getElem?_add_left hc, rfl⟩⟩

theorem later_next {job : ShutdownJob} {e : JobTaskEvent} (h : job.Enabled e) :
    job.Later (job.next e) := by
  cases e with
  | attach =>
    obtain ⟨-, hdetached⟩ := h
    refine ⟨id, fun htaken => ?_, fun _ c hc => ⟨c, hc, rfl⟩⟩
    rw [htaken] at hdetached
    cases hdetached
  | external op => exact job.later_startCall op
  | run i stamp =>
    obtain ⟨system, hsystem⟩ := Option.isSome_iff_exists.mp h.2
    simp only [next, hsystem, Option.getD_some]
    exact ⟨System.terminal_of_step hsystem, id, fun _ _ hc => System.call_of_step hsystem hc⟩
  | mark =>
    simp only [next]
    split_ifs
    · exact ⟨id, id, (job.later_startCall _).calls⟩
    · exact ⟨id, id, (job.later_startCall _).calls⟩
  | marked =>
    simp only [next]
    split
    · exact ⟨id, id, fun _ c hc => ⟨c, hc, rfl⟩⟩
    · exact .refl job
  | finish op => exact ⟨id, id, (job.later_startCall op).calls⟩
  | _ => exact ⟨id, id, fun _ c hc => ⟨c, hc, rfl⟩⟩

/-- What holds of every job. -/
structure Wf (job : ShutdownJob) : Prop where
  system : job.system.Wf
  ends : ∀ (i : ℕ) (c : Call), job.system.calls[i]? = some c → c.Ends → job.Ended
  marking : ∀ running i, job.task = .marking running i →
    ∃ c, job.system.calls[i]? = some c ∧ c.op.marks = true
  ending : ∀ i, job.task = .ending i →
    ∃ c, job.system.calls[i]? = some c ∧ c.op.finishes = true
  /-- A task that ran to its end has ended its job. -/
  ended : job.task = .ended → job.Ended
  spawned : job.handle ≠ .detached → job.task ≠ .unspawned

/-- A task that died with its handle attached had ended its job. -/
def Clean (job : ShutdownJob) : Prop :=
  ∀ i, job.task = .dead i → job.handle ≠ .detached → job.Ended

theorem wf_new {initialBytes : ℕ} (h : initialBytes ≤ maxJobEventBytes) :
    (new initialBytes).Wf :=
  ⟨System.wf_new h, fun i c hc => (by cases hc), nofun, nofun, nofun, fun h => absurd rfl h⟩

theorem returned_of_result {job : ShutdownJob} {i : ℕ} {c : Call} {result : Bool}
    (hc : job.system.calls[i]? = some c) (h : job.result i = some result) :
    c = .returned c.op result := by
  simp only [ShutdownJob.result, hc] at h
  split at h
  · rename_i op value heq
    obtain rfl := Option.some.inj heq
    obtain rfl := Option.some.inj h
    rfl
  · cases h

namespace Wf

variable {job : ShutdownJob} (h : job.Wf)
include h

theorem ended_of_finished {i : ℕ} {c : Call} (hc : job.system.calls[i]? = some c)
    (hop : c.op.finishes = true) (hresult : (job.result i).isSome = true) : job.Ended := by
  obtain ⟨result, hresult⟩ := Option.isSome_iff_exists.mp hresult
  refine h.ends i c hc ?_
  rw [returned_of_result hc hresult]
  exact .inl hop

theorem setTask {task : ExecPhase}
    (hmarking : ∀ running i, task = .marking running i →
      ∃ c, job.system.calls[i]? = some c ∧ c.op.marks = true)
    (hending : ∀ i, task = .ending i →
      ∃ c, job.system.calls[i]? = some c ∧ c.op.finishes = true)
    (hended : task = .ended → job.Ended) (hspawned : task ≠ .unspawned) :
    Wf { job with task := task } :=
  ⟨h.system, h.ends, hmarking, hending, hended, fun _ => hspawned⟩

theorem startCall (op : JobOp) : (job.startCall op).Wf := by
  have hlater := (job.later_startCall op).calls
  refine ⟨h.system.call op, fun i c hc hends => ?_, fun running i htask => ?_, fun i htask => ?_,
    h.ended, h.spawned⟩
  · rcases Pool.getElem?_add hc with ⟨-, rfl⟩ | hold
    · exact absurd hends (Call.not_ends_start op)
    · exact h.ends i c hold hends
  · obtain ⟨c, hc, hop⟩ := h.marking running i htask
    obtain ⟨c', hc', hop'⟩ := hlater i c hc
    exact ⟨c', hc', hop' ▸ hop⟩
  · obtain ⟨c, hc, hop⟩ := h.ending i htask
    obtain ⟨c', hc', hop'⟩ := hlater i c hc
    exact ⟨c', hc', hop' ▸ hop⟩

theorem run {i : ℕ} {stamp : Stamp} {system : System}
    (hstep : job.system.step (.step i stamp) = some system) :
    Wf { job with system := system } := by
  have hterminal := System.terminal_of_step hstep
  refine ⟨h.system.step hstep, fun k c hc hends => ?_, fun running k htask => ?_,
    fun k htask => ?_, fun htask => hterminal (h.ended htask), h.spawned⟩
  · obtain ⟨_, hcall, -⟩ | ⟨_, _, d, hcall, hd, hreturned, rfl⟩ := System.step_cases hstep
    · cases hcall
    · obtain ⟨rfl, rfl⟩ := RecordEvent.step.inj hcall
      rcases Pool.getElem?_set hc with ⟨-, rfl⟩ | ⟨-, hold⟩
      · exact Call.terminal_of_ends hreturned hends
      · exact hterminal (h.ends k c hold hends)
  · obtain ⟨c, hc, hop⟩ := h.marking running k htask
    obtain ⟨c', hc', hop'⟩ := System.call_of_step hstep hc
    exact ⟨c', hc', hop' ▸ hop⟩
  · obtain ⟨c, hc, hop⟩ := h.ending k htask
    obtain ⟨c', hc', hop'⟩ := System.call_of_step hstep hc
    exact ⟨c', hc', hop' ▸ hop⟩

/-- **Every step keeps a job well formed.** -/
theorem next {e : JobTaskEvent} (henabled : job.Enabled e) : (job.next e).Wf := by
  have hnew : ∀ op : JobOp, (job.startCall op).system.calls[job.system.calls.length]? =
      some (.start op) := fun op => List.getElem?_concat_length
  cases e with
  | spawn => exact h.setTask nofun nofun nofun nofun
  | attach => exact ⟨h.system, h.ends, h.marking, h.ending, h.ended, fun _ => henabled.1⟩
  | external op => exact h.startCall op
  | run i stamp =>
    obtain ⟨system, hsystem⟩ := Option.isSome_iff_exists.mp henabled.2
    simp only [ShutdownJob.next, hsystem, Option.getD_some]
    exact h.run hsystem
  | mark =>
    simp only [ShutdownJob.next]
    split_ifs
    · refine (h.startCall (.update .markConnecting)).setTask (fun running i htask => ?_) nofun
        nofun nofun
      obtain ⟨-, rfl⟩ := ExecPhase.marking.inj htask
      exact ⟨_, hnew _, rfl⟩
    · refine (h.startCall (.update .markRunning)).setTask (fun running i htask => ?_) nofun nofun
        nofun
      obtain ⟨-, rfl⟩ := ExecPhase.marking.inj htask
      exact ⟨_, hnew _, rfl⟩
  | marked =>
    simp only [ShutdownJob.Enabled] at henabled
    simp only [ShutdownJob.next]
    split
    · rename_i running i htask
      simp only [htask] at henabled
      obtain ⟨result, hresult⟩ := Option.isSome_iff_exists.mp henabled
      obtain ⟨c, hc, hmarks⟩ := h.marking running i htask
      split_ifs with htrue
      · exact h.setTask nofun nofun nofun nofun
      · refine h.setTask nofun nofun (fun _ => h.ends i c hc ?_) nofun
        rw [returned_of_result hc hresult]
        refine .inr ⟨hmarks, ?_⟩
        rw [hresult, Option.some.injEq, Bool.not_eq_true] at htrue
        exact htrue
    · exact h
  | finish op =>
    simp only [ShutdownJob.Enabled] at henabled
    split at henabled
    · refine (h.startCall op).setTask nofun (fun i htask => ?_) nofun nofun
      obtain rfl := ExecPhase.ending.inj htask
      refine ⟨_, hnew op, ?_⟩
      rw [Call.start_op]
      cases op with
      | update u => cases u <;> first | rfl | exact henabled.elim | cases henabled
      | requestCancel => cases henabled
      | finishCanceled => rfl
    · exact henabled.elim
  | finished =>
    simp only [ShutdownJob.Enabled] at henabled
    split at henabled
    · rename_i i htask
      obtain ⟨c, hc, hop⟩ := h.ending i htask
      exact h.setTask nofun nofun (fun _ => h.ended_of_finished hc hop henabled) nofun
    · exact henabled.elim
  | panic => exact h.setTask nofun nofun nofun nofun

end Wf

end ShutdownJob

/-! ### The condition, and what it gives -/

namespace DrainState

/-- A task whose handle is attached dies only when its job has ended, and a dead task's
handle is attached only then. -/
def Finishing (s : DrainState) : DrainEvent → Prop
  | .job j .panic =>
    s.jobs[j]?.all (fun job => decide (job.handle = .detached ∨ job.Ended)) = true
  | .job j .attach =>
    s.jobs[j]?.all (fun job => decide (job.task.isLive = true ∨ job.Ended)) = true
  | .abort j => s.jobs[j]?.all (fun job => decide job.Ended) = true
  | _ => True

instance (s : DrainState) (a : DrainEvent) : Decidable (s.Finishing a) := by
  unfold Finishing
  split <;> infer_instance

/-- The job has a terminal status, and its last event says so. -/
def JobOver (s : DrainState) (j : ℕ) : Prop :=
  ∃ job, s.jobs[j]? = some job ∧ job.Ended ∧
    ∃ e ∈ job.system.record.state.appended, e.event.isTerminal = true

/-- The job has ended. -/
def Ended (s : DrainState) (j : ℕ) : Prop :=
  ∃ job, s.jobs[j]? = some job ∧ job.Ended

/-- The shutdown waits for its `finish_canceled` of the job. -/
def FinishesNow (s : DrainState) (j : ℕ) : Prop :=
  ∃ i job c, s.call = some (j, i) ∧ s.jobs[j]? = some job ∧
    job.system.calls[i]? = some c ∧ c.op = .finishCanceled

/-- How far the shutdown is with the records of its snapshot. -/
def Progress (s : DrainState) : Prop :=
  match s.stage with
  | .working | .canceling _ => True
  | .collecting pending =>
    ∀ j ∈ s.records, j ∈ pending ∨ j ∈ s.handles ∨ s.Ended j ∨ s.FinishesNow j
  | .joining | .aborting => ∀ j ∈ s.records, j ∈ s.handles ∨ s.Ended j
  | .returned => ∀ j ∈ s.records, s.Ended j

/-- The invariant of a shutdown over jobs that finish. -/
structure Inv (s : DrainState) : Prop where
  jobs : ∀ (j : ℕ) (job : ShutdownJob), s.jobs[j]? = some job → job.Wf ∧ job.Clean
  handles : ∀ j ∈ s.handles, ∃ job, s.jobs[j]? = some job ∧ job.handle = .taken
  records : ∀ j ∈ s.records, j < s.jobs.length
  progress : s.Progress

/-- Every job of the first state is still there, later. -/
def JobsLater (s s' : DrainState) : Prop :=
  ∀ (j : ℕ) (job : ShutdownJob), s.jobs[j]? = some job →
    ∃ job', s'.jobs[j]? = some job' ∧ job.Later job'

variable {s s' : DrainState}

theorem jobsLater_modify {j : ℕ} {f : ShutdownJob → ShutdownJob}
    (hf : ∀ job, s.jobs[j]? = some job → job.Later (f job)) (hjobs : s'.jobs = s.jobs.modify j f) :
    s.JobsLater s' := by
  intro k job hk
  rw [hjobs, List.getElem?_modify, hk]
  by_cases hjk : j = k
  · subst hjk
    exact ⟨f job, by simp, hf job hk⟩
  · exact ⟨job, by simp [hjk], .refl job⟩

theorem Ended.later {j : ℕ} (h : s.Ended j) (hlater : s.JobsLater s') : s'.Ended j := by
  obtain ⟨job, hj, hended⟩ := h
  obtain ⟨job', hj', hle⟩ := hlater j job hj
  exact ⟨job', hj', hle.ended hended⟩

theorem FinishesNow.later {j : ℕ} (h : s.FinishesNow j) (hlater : s.JobsLater s')
    (hcall : s'.call = s.call) : s'.FinishesNow j := by
  obtain ⟨i, job, c, hwait, hj, hc, hop⟩ := h
  obtain ⟨job', hj', hle⟩ := hlater j job hj
  obtain ⟨c', hc', hop'⟩ := hle.calls i c hc
  exact ⟨i, job', c', hcall.trans hwait, hj', hc', hop'.trans hop⟩

/-- A step of the jobs leaves the shutdown where it is. -/
theorem Inv.later (h : s.Inv) (hlater : s.JobsLater s') (hstage : s'.stage = s.stage)
    (hrecords : s'.records = s.records) (hcall : s'.call = s.call)
    (hhandles : s'.handles = s.handles) (hlength : s.jobs.length ≤ s'.jobs.length)
    (hjobs : ∀ (j : ℕ) (job : ShutdownJob), s'.jobs[j]? = some job → job.Wf ∧ job.Clean) :
    s'.Inv := by
  refine ⟨hjobs, fun j hj => ?_, fun j hj => ?_, ?_⟩
  · rw [hhandles] at hj
    obtain ⟨job, hget, htaken⟩ := h.handles j hj
    obtain ⟨job', hget', hle⟩ := hlater j job hget
    exact ⟨job', hget', hle.taken htaken⟩
  · rw [hrecords] at hj
    exact (h.records j hj).trans_le hlength
  · have hprogress := h.progress
    unfold Progress at hprogress ⊢
    rw [hstage, hrecords, hhandles]
    split
    · trivial
    · trivial
    · rename_i pending heq
      rw [heq] at hprogress
      intro j hj
      exact (hprogress j hj).imp_right fun hrest => hrest.imp_right fun hrest' =>
        hrest'.imp (fun hended => hended.later hlater) fun hnow => hnow.later hlater hcall
    · rename_i heq
      rw [heq] at hprogress
      exact fun j hj => (hprogress j hj).imp_right fun hended => hended.later hlater
    · rename_i heq
      rw [heq] at hprogress
      exact fun j hj => (hprogress j hj).imp_right fun hended => hended.later hlater
    · rename_i heq
      rw [heq] at hprogress
      exact fun j hj => (hprogress j hj).later hlater

/-! ### The steps of the jobs -/

theorem Inv.modifyJob (h : s.Inv) {j : ℕ} {f : ShutdownJob → ShutdownJob}
    (hf : ∀ job, s.jobs[j]? = some job → job.Later (f job) ∧ (f job).Wf ∧ (f job).Clean) :
    (s.modifyJob j f).Inv := by
  refine h.later (jobsLater_modify (fun job hj => (hf job hj).1) rfl) rfl rfl rfl rfl
    (List.length_modify ..).ge fun k job hk => ?_
  simp only [DrainState.modifyJob, List.getElem?_modify] at hk
  obtain ⟨old, hold, hjob⟩ := Option.map_eq_some_iff.mp hk
  by_cases hjk : j = k
  · subst hjk
    rw [if_pos rfl] at hjob
    exact hjob ▸ (hf old hold).2
  · rw [if_neg hjk] at hjob
    exact hjob ▸ h.jobs k old hold

/-- A job that is created before or after the snapshot. -/
theorem Inv.create (h : s.Inv) {initialBytes : ℕ} (hinitial : initialBytes ≤ maxJobEventBytes) :
    Inv { s with jobs := s.jobs ++ [.new initialBytes] } := by
  refine h.later (fun j job hj => ⟨job, Pool.getElem?_add_left hj, .refl job⟩) rfl rfl rfl rfl
    ?_ fun j job hj => ?_
  · simp
  · rcases Pool.getElem?_add hj with ⟨-, rfl⟩ | hold
    · exact ⟨ShutdownJob.wf_new hinitial, nofun⟩
    · exact h.jobs j job hold

theorem clean_next {job : ShutdownJob} {j : ℕ} {e : JobTaskEvent} (hj : s.jobs[j]? = some job)
    (hclean : job.Clean) (henabled : job.Enabled e) (hok : s.Finishing (.job j e)) :
    (job.next e).Clean := by
  intro i hdead hattached
  have hended := (ShutdownJob.later_next henabled).ended
  cases e with
  | spawn => cases hdead
  | attach =>
    simp only [Finishing, hj, Option.all_some, decide_eq_true_eq] at hok
    refine hended (hok.resolve_left fun hlive => ?_)
    rw [show job.task = .dead i from hdead] at hlive
    cases hlive
  | external op => exact hended (hclean i hdead hattached)
  | run k stamp => exact hended (hclean i hdead hattached)
  | mark =>
    simp only [ShutdownJob.next] at hdead
    split_ifs at hdead
  | marked =>
    simp only [ShutdownJob.Enabled] at henabled
    split at henabled
    · rename_i running k htask
      simp only [ShutdownJob.next, htask] at hdead
      split_ifs at hdead
    · exact henabled.elim
  | finish op => cases hdead
  | finished => cases hdead
  | panic =>
    simp only [Finishing, hj, Option.all_some, decide_eq_true_eq] at hok
    exact hended (hok.resolve_left hattached)

theorem Inv.abort (h : s.Inv) {j : ℕ} (hok : s.Finishing (.abort j)) :
    (s.modifyJob j ShutdownJob.kill).Inv := by
  refine h.modifyJob fun job hj => ?_
  simp only [Finishing, hj, Option.all_some, decide_eq_true_eq] at hok
  exact ⟨⟨id, id, fun _ c hc => ⟨c, hc, rfl⟩⟩, (h.jobs j job hj).1.setTask nofun nofun nofun nofun,
    fun _ _ _ => hok⟩

/-! ### The steps of the shutdown -/

theorem Inv.startCall (h : s.Inv) {j : ℕ} (op : JobOp) :
    (s.modifyJob j (ShutdownJob.startCall op)).Inv := by
  refine h.modifyJob fun job hj => ?_
  obtain ⟨hwf, hclean⟩ := h.jobs j job hj
  exact ⟨job.later_startCall op, hwf.startCall op, hclean⟩

theorem Inv.take (h : s.Inv) {j : ℕ} {job : ShutdownJob} (hj : s.jobs[j]? = some job)
    (hattached : job.handle = .attached) :
    (s.modifyJob j fun job => { job with handle := .taken }).Inv := by
  refine h.modifyJob fun job' hj' => ?_
  obtain rfl := Option.some.inj (hj.symm.trans hj')
  obtain ⟨hwf, hclean⟩ := h.jobs j job hj
  have hnot : job.handle ≠ .detached := by rw [hattached]; exact nofun
  exact ⟨⟨id, fun _ => rfl, fun _ c hc => ⟨c, hc, rfl⟩⟩,
    ⟨hwf.system, hwf.ends, hwf.marking, hwf.ending, hwf.ended, fun _ => hwf.spawned hnot⟩,
    fun i hdead _ => hclean i hdead hnot⟩

theorem Inv.setStage (h : s.Inv) {stage : DrainStage}
    (hprogress : Progress { s with stage := stage }) : Inv { s with stage := stage } :=
  ⟨h.jobs, h.handles, h.records, hprogress⟩

/-- A task that is over, its handle taken, has ended its job. -/
theorem Inv.ended_of_over (h : s.Inv) {j : ℕ} (hj : j ∈ s.handles) (hover : s.TaskOver j) :
    s.Ended j := by
  obtain ⟨job, hget, htaken⟩ := h.handles j hj
  obtain ⟨hwf, hclean⟩ := h.jobs j job hget
  have hattached : job.handle ≠ .detached := by rw [htaken]; exact nofun
  have hlive : job.task.isLive = false := by simpa [TaskOver, hget] using hover
  refine ⟨job, hget, ?_⟩
  cases htask : job.task with
  | unspawned => exact absurd htask (hwf.spawned hattached)
  | ended => exact hwf.ended htask
  | dead i => exact hclean i htask hattached
  | _ => rw [htask] at hlive; cases hlive

/-- **Every step over jobs that finish keeps the invariant.** -/
theorem Inv.next (h : s.Inv) {a : DrainEvent} (henabled : s.Enabled a) (hok : s.Finishing a) :
    (s.next a).Inv := by
  have hprogress := h.progress
  cases a with
  | create initialBytes => exact h.create henabled
  | job j e =>
    refine h.modifyJob fun job hj => ?_
    simp only [Enabled, hj, Option.any_some, decide_eq_true_eq] at henabled
    obtain ⟨hwf, hclean⟩ := h.jobs j job hj
    exact ⟨ShutdownJob.later_next henabled, hwf.next henabled,
      clean_next hj hclean henabled hok⟩
  | snapshot => exact ⟨h.jobs, h.handles, fun j hj => List.mem_range.mp hj, trivial⟩
  | requestCancel =>
    simp only [DrainState.next]
    split
    · rename_i j pending hstage
      have hstart := h.startCall (j := j) .requestCancel
      exact ⟨hstart.jobs, hstart.handles, hstart.records, trivial⟩
    · exact h
  | takeHandles => exact h.setStage fun j hj => .inl hj
  | takeHandle =>
    simp only [Enabled] at henabled
    split at henabled
    · rename_i j pending hstage
      simp only [Progress, hstage] at hprogress
      have hwaits : ∀ k, ¬s.FinishesNow k := by
        rintro k ⟨i, job, c, hcall, -⟩
        rw [henabled] at hcall
        cases hcall
      simp only [DrainState.next, hstage]
      split_ifs with hattached
      · obtain ⟨job, hj, hhandle⟩ := Option.map_eq_some_iff.mp hattached
        have htake := h.take hj hhandle
        have hlater : s.JobsLater (s.modifyJob j fun job => { job with handle := .taken }) :=
          jobsLater_modify (f := fun job => { job with handle := .taken })
            (fun job _ => ⟨id, fun _ => rfl, fun _ c hc => ⟨c, hc, rfl⟩⟩) rfl
        refine ⟨htake.jobs, fun k hk => ?_, htake.records, fun k hk => ?_⟩
        · rcases List.mem_cons.mp hk with rfl | hk
          · exact ⟨{ job with handle := .taken }, by simp [DrainState.modifyJob, hj], rfl⟩
          · exact htake.handles k hk
        · rcases hprogress k hk with hpending | hhandles | hended | hnow
          · rcases List.mem_cons.mp hpending with rfl | hpending
            · exact .inr (.inl List.mem_cons_self)
            · exact .inl hpending
          · exact .inr (.inl (List.mem_cons_of_mem j hhandles))
          · exact .inr (.inr (.inl (hended.later hlater)))
          · exact absurd hnow (hwaits k)
      · have hstart := h.startCall (j := j) .finishCanceled
        have hlater : s.JobsLater (s.modifyJob j (ShutdownJob.startCall .finishCanceled)) :=
          jobsLater_modify (fun job _ => job.later_startCall .finishCanceled) rfl
        refine ⟨hstart.jobs, hstart.handles, hstart.records, fun k hk => ?_⟩
        rcases hprogress k hk with hpending | hhandles | hended | hnow
        · rcases List.mem_cons.mp hpending with rfl | hpending
          · obtain ⟨job, hj⟩ : ∃ job, s.jobs[k]? = some job :=
              ⟨_, List.getElem?_eq_getElem (h.records k hk)⟩
            refine .inr (.inr (.inr ⟨job.system.calls.length, job.startCall .finishCanceled,
              .start .finishCanceled, ?_, ?_, ?_, rfl⟩))
            · simp [DrainState.startCall, hj]
            · simp [DrainState.startCall, DrainState.modifyJob, hj]
            · exact List.getElem?_concat_length
          · exact .inl hpending
        · exact .inr (.inl hhandles)
        · exact .inr (.inr (.inl (hended.later hlater)))
        · exact absurd hnow (hwaits k)
    · exact henabled.elim
  | callReturned =>
    have hnow : ∀ j, s.FinishesNow j → s.Ended j := by
      rintro j ⟨i, job, c, hcall, hj, hc, hop⟩
      simp only [Enabled, CallOver, hcall, hj, Option.bind_some] at henabled
      exact ⟨job, hj, (h.jobs j job hj).1.ended_of_finished hc (by rw [hop]; rfl) henabled⟩
    refine ⟨h.jobs, h.handles, h.records, ?_⟩
    unfold Progress at hprogress ⊢
    simp only [DrainState.next]
    split at hprogress
    · simp [*]
    · simp [*]
    · rename_i pending hstage
      simp only [hstage]
      intro j hj
      exact (hprogress j hj).imp_right fun hrest => hrest.imp_right fun hrest' =>
        .inl (hrest'.elim id (hnow j))
    · rename_i hstage
      simp only [hstage]
      exact hprogress
    · rename_i hstage
      simp only [hstage]
      exact hprogress
    · rename_i hstage
      simp only [hstage]
      exact hprogress
  | join =>
    obtain ⟨hstage, hcall⟩ := henabled
    simp only [Progress, hstage] at hprogress
    refine h.setStage fun j hj => ?_
    rcases hprogress j hj with hpending | hhandles | hended | ⟨i, job, c, hwait, -⟩
    · cases hpending
    · exact .inl hhandles
    · exact .inr hended
    · rw [hcall] at hwait
      cases hwait
  | deadline =>
    have hstage : s.stage = .joining := henabled
    simp only [Progress, hstage] at hprogress
    exact h.setStage hprogress
  | abort j => exact h.abort hok
  | finish =>
    obtain ⟨hstage, hover⟩ := henabled
    refine h.setStage fun j hj => ?_
    have hjoined : j ∈ s.handles ∨ s.Ended j := by
      rcases hstage with hstage | hstage <;> simp only [Progress, hstage] at hprogress <;>
        exact hprogress j hj
    exact hjoined.elim (fun hmem => h.ended_of_over hmem (hover j hmem)) id

theorem inv_init : init.Inv :=
  ⟨fun j job hj => (by cases hj), fun j hj => absurd hj List.not_mem_nil,
    fun j hj => absurd hj List.not_mem_nil, trivial⟩

end DrainState

/-- **The shutdown of the registry leaves no running job**, in every run in which no task
with an attached handle dies over an unfinished job: when it has returned, every job that
was registered when it started has a terminal status and a terminal event. -/
theorem drained_of_run {as : List DrainEvent} {s : DrainState}
    (hok : jobDrain.Meets DrainState.Finishing as) (h : jobDrain.run as = some s)
    (hreturned : s.stage = .returned) : ∀ j ∈ s.records, s.JobOver j := by
  have hinv : s.Inv := by
    refine Machine.run_invariant_of DrainState.inv_init (fun t a t' ht hmeets hstep => ?_) hok h
    obtain ⟨henabled, rfl⟩ := Machine.guarded_step.mp hstep
    exact ht.next henabled hmeets
  intro j hj
  have hprogress := hinv.progress
  simp only [DrainState.Progress, hreturned] at hprogress
  obtain ⟨job, hget, hended⟩ := hprogress j hj
  obtain ⟨before, last, hsplit, -, hlast⟩ := (hinv.jobs j job hget).1.system.state.outcome
  refine ⟨job, hget, hended, last, by rw [hsplit]; simp, ?_⟩
  rw [hlast]
  exact hended

/-- A job whose task ends it when it is canceled, and a job without a handle. -/
def drainedRun : List DrainEvent :=
  [.create 400, .create 400, .job 0 .spawn, .job 0 .attach, .job 0 .mark,
    .job 0 (.run 0 ⟨1, 35, 400⟩),
    .job 0 (.run 0 ⟨1, 35, 400⟩), .job 0 .marked, .snapshot, .requestCancel,
    .job 0 (.run 1 ⟨2, 35, 400⟩), .job 0 (.run 1 ⟨2, 35, 400⟩), .job 0 (.run 1 ⟨2, 35, 400⟩),
    .callReturned, .requestCancel, .job 1 (.run 0 ⟨3, 35, 400⟩), .job 1 (.run 0 ⟨3, 35, 400⟩),
    .job 1 (.run 0 ⟨3, 35, 400⟩), .callReturned, .takeHandles, .takeHandle, .takeHandle,
    .job 1 (.run 1 ⟨4, 35, 400⟩), .callReturned, .join, .job 0 (.finish .finishCanceled),
    .job 0 (.run 2 ⟨5, 35, 400⟩), .job 0 .finished, .finish]

/-- Both have ended. -/
theorem drained_of_run_drainedRun : ∃ s, jobDrain.run drainedRun = some s ∧
    s.records = [0, 1] ∧ ∀ j ∈ s.records, s.JobOver j := by
  have hok : jobDrain.Meets DrainState.Finishing drainedRun := by decide +kernel
  have hview : (jobDrain.run drainedRun).map (fun s => (s.stage, s.records)) =
      some (.returned, [0, 1]) := by decide +kernel
  obtain ⟨s, hs, hfields⟩ := Option.map_eq_some_iff.mp hview
  obtain ⟨hstage, hrecords⟩ := Prod.mk.inj hfields
  exact ⟨s, hs, hrecords, drained_of_run hok hs hstage⟩

/-- A job whose task is still connecting at the deadline. -/
def abortedRun : List DrainEvent :=
  [.create 400, .job 0 .spawn, .job 0 .attach, .job 0 .mark, .job 0 (.run 0 ⟨1, 35, 400⟩),
    .job 0 (.run 0 ⟨1, 35, 400⟩), .job 0 .marked, .snapshot, .requestCancel,
    .job 0 (.run 1 ⟨2, 35, 400⟩), .job 0 (.run 1 ⟨2, 35, 400⟩), .job 0 (.run 1 ⟨2, 35, 400⟩),
    .callReturned, .takeHandles, .takeHandle, .join, .deadline, .abort 0, .finish]

/-- It stays canceling, without a terminal event. -/
theorem drained_fails : ¬ ∀ (as : List DrainEvent) (s : DrainState), jobDrain.run as = some s →
    s.stage = .returned → ∀ j ∈ s.records, s.JobOver j := by
  intro hclaim
  have hview : (jobDrain.run abortedRun).map (fun s => (s.stage, s.records,
      s.jobs.map fun job => job.system.record.state.status)) =
      some (.returned, [0], [.canceling]) := by decide +kernel
  obtain ⟨s, hs, hfields⟩ := Option.map_eq_some_iff.mp hview
  obtain ⟨hstage, hrecords, hstatus⟩ : s.stage = .returned ∧ s.records = [0] ∧
      s.jobs.map (fun job => job.system.record.state.status) = [.canceling] := by
    simpa using hfields
  obtain ⟨job, hj, hended, -⟩ := hclaim abortedRun s hs hstage 0
    (by rw [hrecords]; exact List.mem_cons_self)
  have hget : (s.jobs.map fun job => job.system.record.state.status)[0]? =
      some job.system.record.state.status := by rw [List.getElem?_map, hj]; rfl
  rw [hstatus] at hget
  rw [ShutdownJob.Ended, ← Option.some.inj hget] at hended
  cases hended

end Api
end HelmSsh
