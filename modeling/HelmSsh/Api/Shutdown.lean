/-
# Shutting the API server down

`ApiServerHandle::shutdown` (`src-tauri/src/api_server/mod.rs`) signals the HTTP
server, and then lets `JobRegistry::shutdown` (`jobs.rs`) and the drain of the
server run side by side, each with a deadline of three seconds, before it disconnects
the automation connections that are left.

* The registry takes one snapshot of the records.  It requests the cancel of each,
  takes the handle of each (or finishes the record when it has none), waits for the
  taken handles, and aborts those that are left at the deadline.
* The server task ends when every request has ended, or is aborted at the deadline;
  the requests themselves run on tasks of their own and go on.

The machine interleaves the two with the tasks of `HelmSsh.Api.Server`.  A request
that a connection is still reading when the signal comes is a task at its start.
The log task changes nothing here.

A record that has ended may leave the registry at any time here, by `prune_expired` or
`evict_oldest_terminal`.  Its task may still be at work, since `append_output` finishes
a record whose cancel was requested.

* `Final` — what the shutdown is for; `shutdown_final` — it holds from the return of
  the shutdown on in every run in which no job is created behind the snapshot, no
  handle is missing and no record leaves the registry when the job's task is at work,
  and no deadline passes over a task that has to be waited for
  (`ShutdownState.Orderly`).
* `created_behind_snapshot_survives` — what a job created behind the snapshot does.
-/

import HelmSsh.Machine
import HelmSsh.Api.JobTasks

namespace HelmSsh
namespace Api

/-- Where `JobRegistry::shutdown` is. -/
inductive RegistryStage where
  | working
  /-- Requesting the cancel of the records of the snapshot. -/
  | canceling (pending records : List ℕ)
  /-- Taking the handles. -/
  | collecting (pending handles : List ℕ)
  /-- Waiting for the tasks of the handles. -/
  | joining (handles : List ℕ)
  /-- Waiting for the tasks of the handles, which are aborted. -/
  | aborting (handles : List ℕ)
  | drained
  deriving DecidableEq

/-- The registry has aborted the task `i`. -/
def RegistryStage.aborts (i : ℕ) : RegistryStage → Bool
  | .aborting handles => i ∈ handles
  | _ => false

/-- Where the server task is. -/
inductive ServerStage where
  | serving
  /-- The signal is sent and the listener dropped. -/
  | stopping
  | stopped
  deriving DecidableEq

/-- Where the last part of `shutdown` is. -/
inductive FinalSweep where
  | waiting
  | disconnecting (pending : List ℕ)
  | closing (connection : ℕ) (pending : List ℕ)
  | returned
  deriving DecidableEq

/-- The server with its shutdown. -/
structure ShutdownState where
  api : ApiState
  /-- The jobs whose records have left the registry. -/
  gone : List ℕ
  /-- The tasks that `attach_handle` has aborted. -/
  aborted : List ℕ
  registry : RegistryStage
  server : ServerStage
  sweep : FinalSweep
  deriving DecidableEq

/-- One step of a task or of the shutdown. -/
inductive ShutdownEvent where
  | newRequest (session : String)
  | task (i : ℕ) (e : TaskEvent)
  /-- A chunk of the output of the job task `i` reaches `append_output`. -/
  | output (i : ℕ)
  /-- `prune_expired` or `evict_oldest_terminal` removes the record of the job. -/
  | forget (job : ℕ)
  /-- `request_shutdown`. -/
  | requestShutdown
  | snapshot
  | requestCancel
  | takeHandles
  /-- The next record gives its handle, or is finished. -/
  | takeHandle
  | startJoin
  | joined
  /-- The deadline of the registry. -/
  | deadline
  | serverDrained
  /-- The deadline of the server task. -/
  | serverAborted
  | listConnections
  | disconnectNext
  | closeNext
  | finish
  deriving DecidableEq

namespace ShutdownState

/-- A server that was just started with the sessions `allowed`. -/
def init (allowed : List String) : ShutdownState :=
  { api := .init allowed, gone := [], aborted := [], registry := .working, server := .serving,
    sweep := .waiting }

/-- Every task of `handles` has ended. -/
def AllDone (s : ShutdownState) (handles : List ℕ) : Prop :=
  ∀ k ∈ handles, s.api.tasks[k]?.any (·.phase = .done) = true

instance (s : ShutdownState) (handles : List ℕ) : Decidable (s.AllDone handles) :=
  inferInstanceAs (Decidable (∀ k ∈ handles, _))

/-- Every request has ended. -/
def RequestsDone (s : ShutdownState) : Prop :=
  ∀ t ∈ s.api.tasks, t.job = none → t.phase = .done

instance (s : ShutdownState) : Decidable s.RequestsDone :=
  inferInstanceAs (Decidable (∀ t ∈ s.api.tasks, _))

/-- The record of the job `j` gives its handle, or is finished. -/
def takeHandle (s : ShutdownState) (j : ℕ) (pending handles : List ℕ) : ShutdownState :=
  match s.api.jobs[j]?.bind JobRecord.handle with
  | some k =>
    { s with
      api := s.api.modifyJob j fun r => { r with handle := none }
      registry := .collecting pending (k :: handles) }
  | none =>
    { s with
      api := s.api.modifyJob j JobRecord.finishCanceled
      registry := .collecting pending handles }

/-- The effect of a step of the task `t` at `i`.  `attach_handle` aborts the task of a job
whose record is gone, and `cancel` does not find it, so that the request is refused. -/
def taskStep (s : ShutdownState) (i : ℕ) (t : Task) : TaskEvent → Option ShutdownState
  | .abort =>
    if s.registry.aborts i = true ∨ i ∈ s.aborted then
      (s.api.taskStep i t .abort).map fun api => { s with api := api }
    else none
  | .cancelJob j =>
    if j ∈ s.gone then none
    else (s.api.taskStep i t (.cancelJob j)).map fun api => { s with api := api }
  | .attachHandle =>
    match t.phase with
    | .spawned j k =>
      if j ∈ s.gone then
        some { s with api := s.api.goTo i t .ready, aborted := k :: s.aborted }
      else (s.api.taskStep i t .attachHandle).map fun api => { s with api := api }
    | _ => none
  | e => (s.api.taskStep i t e).map fun api => { s with api := api }

/-- The effect of a step. -/
def step (s : ShutdownState) : ShutdownEvent → Option ShutdownState
  | .newRequest session =>
    if s.server = .serving then some { s with api := s.api.newRequest session } else none
  | .task i e =>
    match s.api.tasks[i]? with
    | none => none
    | some t => s.taskStep i t e
  | .output i =>
    match s.api.tasks[i]? with
    | none => none
    | some t =>
      match t.job with
      | none => none
      | some j =>
        if t.phase = .running ∨ t.phase = .done then
          some { s with api := s.api.modifyJob j JobRecord.appendOutput }
        else none
  | .forget j =>
    if s.api.jobs[j]?.any (·.status.isTerminal) = true then some { s with gone := j :: s.gone }
    else none
  | .requestShutdown =>
    if s.server = .serving then some { s with server := .stopping } else none
  | .snapshot =>
    if s.registry = .working ∧ s.server ≠ .serving then
      let records := (List.range s.api.jobs.length).filter (· ∉ s.gone)
      some { s with registry := .canceling records records }
    else none
  | .requestCancel =>
    match s.registry with
    | .canceling (j :: pending) records =>
      some
        { s with
          api := s.api.modifyJob j fun r => r.requestCancel.1
          registry := .canceling pending records }
    | _ => none
  | .takeHandles =>
    match s.registry with
    | .canceling [] records => some { s with registry := .collecting records [] }
    | _ => none
  | .takeHandle =>
    match s.registry with
    | .collecting (j :: pending) handles => some (s.takeHandle j pending handles)
    | _ => none
  | .startJoin =>
    match s.registry with
    | .collecting [] handles => some { s with registry := .joining handles }
    | _ => none
  | .joined =>
    match s.registry with
    | .joining handles | .aborting handles =>
      if s.AllDone handles then some { s with registry := .drained } else none
    | _ => none
  | .deadline =>
    match s.registry with
    | .joining handles => some { s with registry := .aborting handles }
    | _ => none
  | .serverDrained =>
    if s.server = .stopping ∧ s.RequestsDone then some { s with server := .stopped } else none
  | .serverAborted =>
    if s.server = .stopping then some { s with server := .stopped } else none
  | .listConnections =>
    if s.sweep = .waiting ∧ s.registry = .drained ∧ s.server = .stopped then
      some { s with sweep := .disconnecting (s.api.connections.map Connection.id) }
    else none
  | .disconnectNext =>
    match s.sweep with
    | .disconnecting (id :: pending) =>
      if id ∈ s.api.connections.map Connection.id then
        some { s with api := s.api.removeConnection id, sweep := .closing id pending }
      else some { s with sweep := .disconnecting pending }
    | _ => none
  | .closeNext =>
    match s.sweep with
    | .closing id pending =>
      some { s with api := s.api.cancelForwards id, sweep := .disconnecting pending }
    | _ => none
  | .finish => if s.sweep = .disconnecting [] then some { s with sweep := .returned } else none

end ShutdownState

/-- The server at work with its shutdown. -/
def shutdownMachine (allowed : List String) : Machine ShutdownState ShutdownEvent where
  init := .init allowed
  step := ShutdownState.step

namespace ShutdownState

/-- No task of the job is past `mark_connecting` and at work. -/
def Idle (s : ShutdownState) (j : ℕ) : Prop :=
  ∀ t ∈ s.api.tasks, t.job = some j → t.phase = .accepted ∨ t.phase = .done

instance (s : ShutdownState) (j : ℕ) : Decidable (s.Idle j) :=
  inferInstanceAs (Decidable (∀ t ∈ s.api.tasks, _))

/-- No job is created behind the snapshot; a record without handle, or one that leaves
the registry, has no task at work; the deadlines pass over no job task, and over no
request that may still dial or create a job. -/
def Orderly (s : ShutdownState) : ShutdownEvent → Prop
  | .task _ .createJob => s.registry = .working
  | .forget j => s.Idle j
  | .takeHandle =>
    match s.registry with
    | .collecting (j :: _) _ => s.api.jobs[j]?.bind JobRecord.handle = none → s.Idle j
    | _ => True
  | .deadline =>
    match s.registry with
    | .joining handles => s.AllDone handles
    | _ => True
  | .serverAborted => ∀ t ∈ s.api.tasks, t.job = none → t.phase.isEarly = false
  | _ => True

instance (s : ShutdownState) (e : ShutdownEvent) : Decidable (s.Orderly e) := by
  unfold Orderly
  split
  · infer_instance
  · infer_instance
  · split <;> infer_instance
  · split <;> infer_instance
  · infer_instance
  · infer_instance

/-- Every job has ended, and no task runs one; a task that has not begun finds its
job ended. -/
structure Final (s : ShutdownState) : Prop where
  jobs_terminal : ∀ r ∈ s.api.jobs, r.status.isTerminal = true
  none_running : ∀ t ∈ s.api.tasks, t.job ≠ none → t.phase = .accepted ∨ t.phase = .done

/-! ### The invariant -/

/-- The job `j` is left to a handle, or has ended. -/
def Settled (s : ShutdownState) (handles : List ℕ) (j : ℕ) : Prop :=
  (∃ k ∈ handles, ∃ u : Task, s.api.tasks[k]? = some u ∧ u.job = some j) ∨
    JobEnded s.api.jobs s.api.tasks j

/-- How far the registry is with the jobs. -/
def Progress (s : ShutdownState) : Prop :=
  match s.registry with
  | .working => True
  | .canceling _ records => ∀ j < s.api.jobs.length, j ∈ records ∨ j ∈ s.gone
  | .collecting pending handles => ∀ j < s.api.jobs.length, j ∈ pending ∨ s.Settled handles j
  | .joining handles => ∀ j < s.api.jobs.length, s.Settled handles j
  | .aborting handles => (∀ j < s.api.jobs.length, s.Settled handles j) ∧ s.AllDone handles
  | .drained => ∀ j < s.api.jobs.length, JobEnded s.api.jobs s.api.tasks j

/-- No request may dial or create a job any more. -/
def RequestsLate (s : ShutdownState) : Prop :=
  ∀ t ∈ s.api.tasks, t.job = none → t.phase.isEarly = false

/-- What holds of an orderly shutdown. -/
structure Inv (s : ShutdownState) : Prop where
  links : JobTasks s.api.jobs s.api.tasks
  gone : ∀ j ∈ s.gone, JobEnded s.api.jobs s.api.tasks j
  /-- A task that `attach_handle` has aborted is that of a job that is gone. -/
  aborted : ∀ k ∈ s.aborted, ∃ u : Task, s.api.tasks[k]? = some u ∧ ∃ j ∈ s.gone, u.job = some j
  working_before : s.server = .serving → s.registry = .working
  progress : s.Progress
  late : s.server = .stopped → s.RequestsLate
  sweep_after : s.sweep ≠ .waiting → s.registry = .drained ∧ s.server = .stopped

/-! ### A step of a task -/

variable {s s' : ShutdownState}

/-- **A step of a task** is one of the server, or aborts the task of a job that is gone. -/
theorem taskStep_cases {i : ℕ} {t : Task} {e : TaskEvent} (h : s.taskStep i t e = some s') :
    (∃ api, s.api.taskStep i t e = some api ∧ s' = { s with api := api } ∧
        (e = .abort → s.registry.aborts i = true ∨ i ∈ s.aborted)) ∨
      ∃ j k, e = .attachHandle ∧ t.phase = .spawned j k ∧ j ∈ s.gone ∧
        s' = { s with api := s.api.goTo i t .ready, aborted := k :: s.aborted } := by
  have hserver : ∀ {e : TaskEvent},
      (s.api.taskStep i t e).map (fun api => { s with api := api }) = some s' →
      (e = .abort → s.registry.aborts i = true ∨ i ∈ s.aborted) →
      ∃ api, s.api.taskStep i t e = some api ∧ s' = { s with api := api } ∧
        (e = .abort → s.registry.aborts i = true ∨ i ∈ s.aborted) := by
    intro e h habort
    obtain ⟨api, hapi, rfl⟩ := Option.map_eq_some_iff.mp h
    exact ⟨api, hapi, rfl, habort⟩
  cases e with
  | abort =>
    rw [ShutdownState.taskStep] at h
    split_ifs at h with habort
    exact .inl (hserver h fun _ => habort)
  | cancelJob j =>
    rw [ShutdownState.taskStep] at h
    split_ifs at h
    exact .inl (hserver h nofun)
  | attachHandle =>
    simp only [ShutdownState.taskStep] at h
    split at h
    next j k hphase =>
      split_ifs at h with hgone
      · exact .inr ⟨j, k, rfl, hphase, hgone, (Option.some.inj h).symm⟩
      · exact .inl (hserver h nofun)
    · cases h
  | _ => exact .inl (hserver h nofun)

/-- A step that keeps the tasks and the jobs that have ended. -/
structure Kept (api api' : ApiState) : Prop where
  tasks : ∀ (k : ℕ) (u : Task), api.tasks[k]? = some u →
    ∃ u' : Task, api'.tasks[k]? = some u' ∧ u'.job = u.job ∧ (u.phase = .done → u' = u)
  ended : ∀ j, JobEnded api.jobs api.tasks j → JobEnded api'.jobs api'.tasks j

theorem Kept.of_taskStep {a b : ApiState} {i : ℕ} {t : Task} {e : TaskEvent}
    (ht : a.tasks[i]? = some t) (hstep : a.taskStep i t e = some b) : Kept a b where
  tasks _ _ hu := ApiState.taskStep_keeps ht hstep hu
  ended _ hended := hended.taskStep ht hstep

theorem Kept.of_modify (a : ApiState) (j : ℕ) {f : JobRecord → JobRecord}
    (hterminal : ∀ r, r.status.isTerminal = true → (f r).status = r.status) :
    Kept a (a.modifyJob j f) where
  tasks _ u hu := ⟨u, hu, rfl, fun _ => rfl⟩
  ended _ hended := hended.modify j hterminal

theorem Kept.of_spawned {a : ApiState} {i j k : ℕ} {t : Task} (ht : a.tasks[i]? = some t)
    (hphase : t.phase = .spawned j k) : Kept a (a.goTo i t .ready) where
  tasks l u hu := by
    by_cases hl : l = i
    · subst hl
      obtain rfl := Option.some.inj (ht.symm.trans hu)
      refine ⟨_, Pool.getElem?_set_self ht, rfl, fun hdone => ?_⟩
      rw [hphase] at hdone
      cases hdone
    · exact ⟨u, (List.getElem?_set_ne fun heq => hl heq.symm).trans hu, rfl, fun _ => rfl⟩
  ended _ hended := by
    refine hended.setPhase .ready fun hjob => ?_
    rcases hended.tasks_over i t ht hjob with hover | hover <;> rw [hphase] at hover <;>
      cases hover

theorem Settled.kept {handles handles' : List ℕ} {j : ℕ} (h : s.Settled handles j)
    (hkept : Kept s.api s'.api) (hsub : ∀ k ∈ handles, k ∈ handles') : s'.Settled handles' j := by
  rcases h with ⟨k, hk, u, hu, hjob⟩ | hended
  · obtain ⟨u', hu', hjob', -⟩ := hkept.tasks k u hu
    exact .inl ⟨k, hsub k hk, u', hu', hjob'.trans hjob⟩
  · exact .inr (hkept.ended j hended)

theorem AllDone.kept {handles : List ℕ} (h : s.AllDone handles) (hkept : Kept s.api s'.api) :
    s'.AllDone handles := by
  intro k hk
  obtain ⟨u, hu, hdone⟩ := (Option.any_eq_true _ _).mp (h k hk)
  obtain ⟨u', hu', -, heq⟩ := hkept.tasks k u hu
  rw [decide_eq_true_eq] at hdone
  obtain rfl := heq hdone
  exact (Option.any_eq_true _ _).mpr ⟨u', hu', decide_eq_true hdone⟩

theorem RequestsLate.goTo (h : s.RequestsLate) {i : ℕ} {t : Task} {phase : TaskPhase}
    (hphase : t.job = none → phase.isEarly = false) :
    ∀ u ∈ s.api.tasks.set i { t with phase := phase }, u.job = none → u.phase.isEarly = false := by
  intro u hu hjob
  rcases List.mem_or_eq_of_mem_set hu with hu | rfl
  · exact h u hu hjob
  · exact hphase hjob

theorem RequestsLate.taskStep (h : s.RequestsLate) {i : ℕ} {t : Task} {e : TaskEvent}
    {api : ApiState} (ht : s.api.tasks[i]? = some t) (hstep : s.api.taskStep i t e = some api) :
    RequestsLate { s with api := api } := by
  have hlate : t.job = none → t.phase.isEarly = false := h t (List.mem_of_getElem? ht)
  have hset : ∀ phase : TaskPhase, (t.job = none → phase.isEarly = false) →
      ∀ u ∈ s.api.tasks.set i { t with phase := phase }, u.job = none →
        u.phase.isEarly = false := fun _ => h.goTo
  have hends : ∀ (a : ApiState) f, a.tasks = s.api.tasks →
      ∀ u ∈ (a.endTask i t f).tasks, u.job = none → u.phase.isEarly = false := by
    intro a f ha
    obtain ⟨jobs, heq⟩ := a.endTask_eq i t f
    rw [heq, ApiState.goTo, ha]
    exact hset .done fun _ => rfl
  have hnever : ∀ {phase : TaskPhase}, t.phase = phase → phase.isEarly = true → t.job ≠ none := by
    rintro phase rfl hearly hjob
    rw [hlate hjob] at hearly
    cases hearly
  cases ApiState.taskMove_of_step hstep with
  | go _ _ hearly =>
    refine hset _ fun hjob => ?_
    by_contra hphase
    rw [Bool.not_eq_false] at hphase
    rw [hlate hjob] at hearly
    cases hearly hphase
  | fail | lookupNone | removeNone | drop | cancelSeen => exact hends s.api _ rfl
  | closeAndEnd => exact hends (s.api.cancelForwards _) _ rfl
  | mark _ hjob =>
    obtain ⟨phase', jobs, heq⟩ := s.api.markJob_eq i t _ (JobRecord.mark _) _
    rw [heq]
    exact hset phase' fun hnone => by rw [hjob] at hnone; cases hnone
  | dial hphase | replaceDead hphase | register hphase | closeAndRedial hphase =>
    exact hset _ fun hjob => (hnever hphase rfl hjob).elim
  | createJob hphase hjob => exact (hnever hphase rfl hjob).elim
  | recheck => exact hset _ fun _ => by split_ifs <;> rfl
  | spawnJob =>
    intro u hu hjob
    rcases List.mem_append.mp hu with hu | hu
    · exact hset (.spawned _ _) (fun _ => rfl) u hu hjob
    · rw [List.mem_singleton.mp hu] at hjob
      cases hjob
  | _ => exact hset _ fun _ => rfl

theorem Progress.kept (h : s.Progress) {api : ApiState} (hkept : Kept s.api api)
    (hlength : s.registry ≠ .working → api.jobs.length = s.api.jobs.length) :
    Progress { s with api := api } := by
  have hsettled : ∀ {handles : List ℕ} {j : ℕ}, s.Settled handles j →
      Settled { s with api := api } handles j := fun h => h.kept hkept fun _ => id
  cases hstage : s.registry with
  | working => trivial
  | canceling pending records =>
    simp only [Progress, hstage, hlength (by simp [hstage])] at h ⊢
    exact h
  | collecting pending handles =>
    simp only [Progress, hstage, hlength (by simp [hstage])] at h ⊢
    exact fun j hj => (h j hj).imp_right hsettled
  | joining handles =>
    simp only [Progress, hstage, hlength (by simp [hstage])] at h ⊢
    exact fun j hj => hsettled (h j hj)
  | aborting handles =>
    simp only [Progress, hstage, hlength (by simp [hstage])] at h ⊢
    exact ⟨fun j hj => hsettled (h.1 j hj), h.2.kept hkept⟩
  | drained =>
    simp only [Progress, hstage, hlength (by simp [hstage])] at h ⊢
    exact fun j hj => hkept.ended j (h j hj)

/-- A step of the jobs and tasks keeps the rest of the invariant with what it keeps of them. -/
theorem Inv.kept (h : s.Inv) {api : ApiState} (hkept : Kept s.api api)
    (hlinks : JobTasks api.jobs api.tasks)
    (hlength : s.registry ≠ .working → api.jobs.length = s.api.jobs.length)
    (hlate : s.RequestsLate → RequestsLate { s with api := api }) : Inv { s with api := api } where
  links := hlinks
  gone j hj := hkept.ended j (h.gone j hj)
  aborted k hk := by
    obtain ⟨u, hu, j, hj, hjob⟩ := h.aborted k hk
    obtain ⟨u', hu', hjob', -⟩ := hkept.tasks k u hu
    exact ⟨u', hu', j, hj, hjob'.trans hjob⟩
  working_before := h.working_before
  progress := h.progress.kept hkept hlength
  late hstopped := hlate (h.late hstopped)
  sweep_after := h.sweep_after

/-- An aborted task has ended its job: at the deadline of the registry it had ended itself. -/
theorem Inv.abort (h : s.Inv) {i : ℕ} {t : Task} {api : ApiState} (ht : s.api.tasks[i]? = some t)
    (hstep : s.api.taskStep i t .abort = some api)
    (haborts : s.registry.aborts i = true ∨ i ∈ s.aborted) : JobTasks api.jobs api.tasks := by
  rcases haborts with haborts | haborted
  · cases hstage : s.registry with
    | aborting handles =>
      rw [hstage, RegistryStage.aborts, decide_eq_true_eq] at haborts
      have hprogress := h.progress
      simp only [Progress, hstage] at hprogress
      have hdone := hprogress.2 i haborts
      rw [ht, Option.any_some, decide_eq_true_eq] at hdone
      exact (ApiState.alive_of_taskStep hstep hdone).elim
    | _ =>
      rw [hstage] at haborts
      cases haborts
  · obtain ⟨u, hu, j, hgone, hjob⟩ := h.aborted i haborted
    obtain rfl := Option.some.inj (ht.symm.trans hu)
    obtain ⟨-, rfl⟩ := Option.ite_some_none_eq_some.mp hstep
    refine h.links.setPhase ht .done rfl fun _ j' hj' r hr => ?_
    obtain rfl := Option.some.inj (hjob.symm.trans hj')
    obtain ⟨r', hr', hterminal⟩ := (h.gone j hgone).terminal
    obtain rfl := Option.some.inj (hr.symm.trans hr')
    exact hterminal

/-- A step of a task keeps the invariant. -/
theorem Inv.task (h : s.Inv) {i : ℕ} {t : Task} {e : TaskEvent} (ht : s.api.tasks[i]? = some t)
    (hstep : s.taskStep i t e = some s') (hok : s.Orderly (.task i e)) : s'.Inv := by
  rcases taskStep_cases hstep with ⟨api, hapi, rfl, habort⟩ | ⟨j, k, -, hphase, hgone, rfl⟩
  · refine h.kept (.of_taskStep ht hapi) ?_ (fun hopen => ?_) fun hlate => hlate.taskStep ht hapi
    · by_cases he : e = .abort
      · subst he
        exact h.abort ht hapi (habort rfl)
      · exact h.links.taskStep ht hapi he
    · refine ApiState.taskStep_length hapi ?_
      rintro rfl
      exact hopen hok
  · -- the handle of a record that is gone: its task is to be aborted
    have hinv := h.kept (.of_spawned ht hphase) (h.links.setPhase ht .ready rfl nofun)
      (fun _ => rfl) fun hlate => hlate.goTo fun _ => rfl
    refine { hinv with aborted := fun l hl => ?_ }
    rcases List.mem_cons.mp hl with rfl | hl
    · obtain ⟨u, hu, hjob⟩ := JobTasks.exists_set ht .ready (h.links.spawned i t j l ht hphase)
      exact ⟨u, hu, j, hgone, hjob⟩
    · exact hinv.aborted l hl

/-! ### A step of the registry -/

/-- A record changes, but for its handle. -/
theorem Inv.extend (h : s.Inv) (j : ℕ) {f : JobRecord → JobRecord}
    (hf : ∀ r : JobRecord, r.Extends (f r)) : Inv { s with api := s.api.modifyJob j f } :=
  h.kept (.of_modify s.api j fun r => (hf r).terminal) (h.links.extend j hf)
    (fun _ => List.length_modify ..) id

/-- A record that has ended leaves the registry, and its task has ended or not begun. -/
theorem Inv.forget (h : s.Inv) {j : ℕ} (hterminal : s.api.jobs[j]?.any (·.status.isTerminal) = true)
    (hidle : s.Idle j) : Inv { s with gone := j :: s.gone } where
  links := h.links
  gone k hk := by
    rcases List.mem_cons.mp hk with rfl | hk
    · obtain ⟨r, hr, hended⟩ := (Option.any_eq_true _ _).mp hterminal
      exact ⟨⟨r, hr, hended⟩, fun i t ht => hidle t (List.mem_of_getElem? ht)⟩
    · exact h.gone k hk
  aborted k hk := by
    obtain ⟨u, hu, l, hl, hjob⟩ := h.aborted k hk
    exact ⟨u, hu, l, List.mem_cons_of_mem j hl, hjob⟩
  working_before := h.working_before
  progress := by
    have hprogress := h.progress
    cases hstage : s.registry with
    | working => trivial
    | canceling pending records =>
      simp only [Progress, hstage] at hprogress ⊢
      exact fun k hk => (hprogress k hk).imp_right (List.mem_cons_of_mem j)
    | _ =>
      simp only [Progress, hstage] at hprogress ⊢
      exact hprogress
  late := h.late
  sweep_after := h.sweep_after

/-- The registry goes on to a stage that its progress allows. -/
theorem Inv.setRegistry (h : s.Inv) (registry : RegistryStage) (hserver : s.server ≠ .serving)
    (hprogress : Progress { s with registry := registry })
    (hdrained : s.registry ≠ .drained) : Inv { s with registry := registry } where
  links := h.links
  gone := h.gone
  aborted := h.aborted
  working_before hserving := (hserver hserving).elim
  progress := hprogress
  late := h.late
  sweep_after hsweep := (hdrained (h.sweep_after hsweep).1).elim

/-- The registry goes on between its snapshot and its end. -/
theorem Inv.goOn (h : s.Inv) {stage registry : RegistryStage} (hstage : s.registry = stage)
    (hworking : stage ≠ .working) (hdrained : stage ≠ .drained)
    (hprogress : Progress { s with registry := registry }) : Inv { s with registry := registry } :=
  h.setRegistry registry
    (fun hserving => hworking (hstage.symm.trans (h.working_before hserving))) hprogress
    (hstage ▸ hdrained)

theorem Inv.requestCancel (h : s.Inv) {j : ℕ} {pending records : List ℕ}
    (hstage : s.registry = .canceling (j :: pending) records) :
    Inv { s with api := s.api.modifyJob j fun r => r.requestCancel.1,
                 registry := .canceling pending records } := by
  have hinv := h.extend j JobRecord.extends_requestCancel
  have hprogress := hinv.progress
  simp only [Progress, hstage] at hprogress
  exact hinv.goOn hstage nofun nofun hprogress

/-- The registry takes a handle, or finishes a record without one. -/
theorem Inv.takeHandle (h : s.Inv) {j : ℕ} {pending handles : List ℕ}
    (hstage : s.registry = .collecting (j :: pending) handles)
    (hok : s.api.jobs[j]?.bind JobRecord.handle = none → s.Idle j) :
    Inv (s.takeHandle j pending handles) := by
  cases hhandle : s.api.jobs[j]?.bind JobRecord.handle with
  | some k =>
    rw [ShutdownState.takeHandle, hhandle]
    obtain ⟨r, hr, hk⟩ := Option.bind_eq_some_iff.mp hhandle
    have hinv : Inv { s with api := s.api.modifyJob j fun r => { r with handle := none } } :=
      h.kept (.of_modify s.api j fun _ _ => rfl)
        (h.links.modify j (fun _ _ => rfl) fun _ _ hnone => by cases hnone)
        (fun _ => List.length_modify ..) id
    have hprogress := hinv.progress
    simp only [Progress, hstage] at hprogress
    refine hinv.goOn hstage nofun nofun fun l hl => ?_
    rcases hprogress l hl with hmem | hsettled
    · rcases List.mem_cons.mp hmem with rfl | hmem
      · exact .inr (.inl ⟨k, List.mem_cons_self, h.links.handle l r k hr hk⟩)
      · exact .inl hmem
    · exact .inr (hsettled.imp_left fun ⟨k', hk', hu⟩ => ⟨k', List.mem_cons_of_mem k hk', hu⟩)
  | none =>
    rw [ShutdownState.takeHandle, hhandle]
    have hinv := h.extend j JobRecord.extends_finishCanceled
    have hprogress := hinv.progress
    simp only [Progress, hstage] at hprogress
    refine hinv.goOn hstage nofun nofun fun l hl => ?_
    rcases hprogress l hl with hmem | hsettled
    · rcases List.mem_cons.mp hmem with rfl | hmem
      · refine .inr (.inr ⟨?_, fun i t ht => hok hhandle t (List.mem_of_getElem? ht)⟩)
        simp only [ApiState.modifyJob, List.length_modify] at hl
        refine ⟨(s.api.jobs[l]).finishCanceled, ?_, JobRecord.finishCanceled_terminal _⟩
        simp [ApiState.modifyJob, hl]
      · exact .inl hmem
    · exact .inr hsettled

/-- Once the tasks of the handles have ended, every settled job has ended. -/
theorem Settled.ended (h : s.Inv) {handles : List ℕ} {j : ℕ} (hj : j < s.api.jobs.length)
    (hsettled : s.Settled handles j) (hdone : s.AllDone handles) :
    JobEnded s.api.jobs s.api.tasks j := by
  rcases hsettled with ⟨k, hk, u, hu, hjob⟩ | hended
  · have hphase := hdone k hk
    rw [hu, Option.any_some, decide_eq_true_eq] at hphase
    constructor
    · exact ⟨s.api.jobs[j], List.getElem?_eq_getElem hj,
        h.links.ended k u j hu hjob hphase _ (List.getElem?_eq_getElem hj)⟩
    · intro i t ht hjob'
      obtain rfl := h.links.unique i k t u j ht hu (.inl hjob') (.inl hjob)
      obtain rfl := Option.some.inj (ht.symm.trans hu)
      exact .inr hphase
  · exact hended

/-- A request comes in, before the registry or the server is asked to end. -/
theorem Inv.newRequest (h : s.Inv) (session : String) (hserving : s.server = .serving) :
    Inv { s with api := s.api.newRequest session } where
  links := h.links.addRequest rfl rfl
  gone j hj := (h.gone j hj).addTask rfl
  aborted k hk := by
    obtain ⟨u, hu, hjob⟩ := h.aborted k hk
    exact ⟨u, Pool.getElem?_add_left hu, hjob⟩
  working_before := h.working_before
  progress := by simp [Progress, h.working_before hserving]
  late hstopped := by
    rw [hserving] at hstopped
    cases hstopped
  sweep_after := h.sweep_after

/-- The server task ends once no request may dial or create a job any more. -/
theorem Inv.stop (h : s.Inv) (hstopping : s.server = .stopping) (hlate : s.RequestsLate) :
    Inv { s with server := .stopped } where
  links := h.links
  gone := h.gone
  aborted := h.aborted
  working_before hserving := by cases hserving
  progress := h.progress
  late _ := hlate
  sweep_after hsweep := by
    have hstopped := (h.sweep_after hsweep).2
    rw [hstopping] at hstopped
    cases hstopped

/-- **Each orderly step keeps the invariant.** -/
theorem Inv.step (h : s.Inv) {e : ShutdownEvent} (hok : s.Orderly e) (hstep : s.step e = some s') :
    s'.Inv := by
  have hprogress := h.progress
  cases e with
  | newRequest session =>
    obtain ⟨hserving, rfl⟩ := Option.ite_some_none_eq_some.mp hstep
    exact h.newRequest session hserving
  | task i e =>
    simp only [ShutdownState.step] at hstep
    split at hstep
    · cases hstep
    next t ht => exact h.task ht hstep hok
  | output i =>
    simp only [ShutdownState.step] at hstep
    split at hstep
    · cases hstep
    · split at hstep
      · cases hstep
      · obtain ⟨-, rfl⟩ := Option.ite_some_none_eq_some.mp hstep
        exact h.extend _ JobRecord.extends_appendOutput
  | forget j =>
    obtain ⟨hterminal, rfl⟩ := Option.ite_some_none_eq_some.mp hstep
    exact h.forget hterminal hok
  | requestShutdown =>
    obtain ⟨hserving, rfl⟩ := Option.ite_some_none_eq_some.mp hstep
    refine ⟨h.links, h.gone, h.aborted, nofun, h.progress, nofun, fun hsweep => ?_⟩
    have hstopped := (h.sweep_after hsweep).2
    rw [hserving] at hstopped
    cases hstopped
  | snapshot =>
    obtain ⟨hcond, rfl⟩ := Option.ite_some_none_eq_some.mp hstep
    refine h.setRegistry _ hcond.2 ?_ (by simp [hcond.1])
    intro j hj
    by_cases hgone : j ∈ s.gone
    · exact .inr hgone
    · exact .inl (List.mem_filter.mpr ⟨List.mem_range.mpr hj, decide_eq_true hgone⟩)
  | requestCancel =>
    simp only [ShutdownState.step] at hstep
    split at hstep
    next j pending records hstage =>
      obtain rfl := Option.some.inj hstep
      exact h.requestCancel hstage
    · cases hstep
  | takeHandles =>
    simp only [ShutdownState.step] at hstep
    split at hstep
    next records hstage =>
      obtain rfl := Option.some.inj hstep
      simp only [Progress, hstage] at hprogress
      refine h.goOn hstage nofun nofun ?_
      exact fun j hj => (hprogress j hj).imp_right fun hgone => .inr (h.gone j hgone)
    · cases hstep
  | takeHandle =>
    simp only [ShutdownState.step] at hstep
    split at hstep
    next j pending handles hstage =>
      obtain rfl := Option.some.inj hstep
      simp only [Orderly, hstage] at hok
      exact h.takeHandle hstage hok
    · cases hstep
  | startJoin =>
    simp only [ShutdownState.step] at hstep
    split at hstep
    next handles hstage =>
      obtain rfl := Option.some.inj hstep
      simp only [Progress, hstage] at hprogress
      refine h.goOn hstage nofun nofun ?_
      exact fun j hj => (hprogress j hj).resolve_left List.not_mem_nil
    · cases hstep
  | joined =>
    simp only [ShutdownState.step] at hstep
    split at hstep
    next handles hstage =>
      split_ifs at hstep with hdone
      obtain rfl := Option.some.inj hstep
      simp only [Progress, hstage] at hprogress
      refine h.goOn hstage nofun nofun ?_
      exact fun j hj => Settled.ended h hj (hprogress j hj) hdone
    next handles hstage =>
      split_ifs at hstep with hdone
      obtain rfl := Option.some.inj hstep
      simp only [Progress, hstage] at hprogress
      refine h.goOn hstage nofun nofun ?_
      exact fun j hj => Settled.ended h hj (hprogress.1 j hj) hdone
    · cases hstep
  | deadline =>
    simp only [ShutdownState.step] at hstep
    split at hstep
    next handles hstage =>
      obtain rfl := Option.some.inj hstep
      simp only [Progress, hstage] at hprogress
      simp only [Orderly, hstage] at hok
      exact h.goOn hstage nofun nofun ⟨hprogress, hok⟩
    · cases hstep
  | serverDrained =>
    obtain ⟨hcond, rfl⟩ := Option.ite_some_none_eq_some.mp hstep
    exact h.stop hcond.1 fun t ht hjob => by rw [hcond.2 t ht hjob]; rfl
  | serverAborted =>
    obtain ⟨hstopping, rfl⟩ := Option.ite_some_none_eq_some.mp hstep
    exact h.stop hstopping hok
  | listConnections =>
    obtain ⟨hcond, rfl⟩ := Option.ite_some_none_eq_some.mp hstep
    exact ⟨h.links, h.gone, h.aborted, h.working_before, h.progress, h.late, fun _ => hcond.2⟩
  | disconnectNext =>
    simp only [ShutdownState.step] at hstep
    split at hstep
    next id pending hsweep =>
      have hafter := h.sweep_after (by simp [hsweep])
      split_ifs at hstep <;> obtain rfl := Option.some.inj hstep <;>
        exact ⟨h.links, h.gone, h.aborted, h.working_before, h.progress, h.late, fun _ => hafter⟩
    · cases hstep
  | closeNext =>
    simp only [ShutdownState.step] at hstep
    split at hstep
    next id pending hsweep =>
      obtain rfl := Option.some.inj hstep
      exact ⟨h.links, h.gone, h.aborted, h.working_before, h.progress, h.late,
        fun _ => h.sweep_after (by simp [hsweep])⟩
    · cases hstep
  | finish =>
    obtain ⟨hsweep, rfl⟩ := Option.ite_some_none_eq_some.mp hstep
    exact ⟨h.links, h.gone, h.aborted, h.working_before, h.progress, h.late,
      fun _ => h.sweep_after (by simp [hsweep])⟩

/-! ### After the return -/

theorem Inv.final (h : s.Inv) (hsweep : s.sweep ≠ .waiting) : s.Final := by
  have hprogress := h.progress
  simp only [Progress, (h.sweep_after hsweep).1] at hprogress
  constructor
  · intro r hr
    obtain ⟨j, hj⟩ := List.mem_iff_getElem?.mp hr
    obtain ⟨r', hr', hterm⟩ := (hprogress j (List.getElem?_eq_some_iff.mp hj).1).terminal
    obtain rfl := Option.some.inj (hj.symm.trans hr')
    exact hterm
  · intro t ht hjob
    obtain ⟨i, hi⟩ := List.mem_iff_getElem?.mp ht
    obtain ⟨j, hj⟩ := Option.ne_none_iff_exists'.mp hjob
    exact (hprogress j (h.links.bound i t j hi (.inl hj))).tasks_over i t hi hj

theorem Inv.no_register (h : s.Inv) (hsweep : s.sweep ≠ .waiting) (i : ℕ) :
    s.step (.task i .register) = none := by
  cases ht : s.api.tasks[i]? with
  | none => simp [ShutdownState.step, ht]
  | some t =>
    have hmem := List.mem_of_getElem? ht
    have hphase : t.phase ≠ .dialing := by
      intro hdialing
      by_cases hjob : t.job = none
      · have hlate := h.late (h.sweep_after hsweep).2 t hmem hjob
        rw [hdialing] at hlate
        cases hlate
      · rcases (h.final hsweep).none_running t hmem hjob with hover | hover <;>
          rw [hdialing] at hover <;> cases hover
    simp [ShutdownState.step, ShutdownState.taskStep, ht, ApiState.taskStep, hphase]

theorem sweep_forward {e : ShutdownEvent} (hsweep : s.sweep ≠ .waiting)
    (hstep : s.step e = some s') : s'.sweep ≠ .waiting := by
  cases e with
  | task i e =>
    simp only [ShutdownState.step] at hstep
    split at hstep
    · cases hstep
    · rcases taskStep_cases hstep with ⟨api, -, rfl, -⟩ | ⟨j, k, -, -, -, rfl⟩ <;> exact hsweep
  | takeHandle =>
    simp only [ShutdownState.step, ShutdownState.takeHandle] at hstep
    repeat' split at hstep
    all_goals cases hstep <;> exact hsweep
  | _ =>
    simp only [ShutdownState.step] at hstep
    repeat' split at hstep
    all_goals cases hstep <;> first | exact hsweep | simp

theorem inv_init (allowed : List String) : (init allowed).Inv := by
  refine ⟨?_, nofun, nofun, fun _ => rfl, trivial, nofun, fun hsweep => (hsweep rfl).elim⟩
  constructor <;> simp [init, ApiState.init]

end ShutdownState

/-- **API shutdown is final** in every orderly run: from the return of the shutdown
on, every job that was ever created has a terminal status, no task runs a job, and no
handler or job registers a connection. -/
theorem shutdown_final {allowed : List String} {before after : List ShutdownEvent}
    {s s' : ShutdownState}
    (hok : (shutdownMachine allowed).Meets ShutdownState.Orderly (before ++ after))
    (hreturns : (shutdownMachine allowed).run before = some s) (hreturned : s.sweep = .returned)
    (hrun : (shutdownMachine allowed).runFrom s after = some s') :
    s'.Final ∧ ∀ i, ShutdownEvent.task i .register ∉ after := by
  obtain ⟨hokBefore, hokAfter⟩ := Machine.meetsFrom_append hok hreturns
  have hinv : s.Inv := by
    refine Machine.run_invariant_of (ShutdownState.inv_init allowed) ?_ hokBefore hreturns
    intro t e t' hinv hok hstep
    exact hinv.step hok hstep
  have hkept : ∀ (as : List ShutdownEvent) (m : ShutdownState),
      (shutdownMachine allowed).MeetsFrom ShutdownState.Orderly s as →
      (shutdownMachine allowed).runFrom s as = some m → m.Inv ∧ m.sweep ≠ .waiting := by
    intro as m hokm hm
    refine Machine.runFrom_invariant_of (I := fun m => m.Inv ∧ m.sweep ≠ .waiting) ?_
      ⟨hinv, by simp [hreturned]⟩ hokm hm
    intro t e t' ht hok hstep
    exact ⟨ht.1.step hok hstep, ShutdownState.sweep_forward ht.2 hstep⟩
  obtain ⟨hinv', hsweep'⟩ := hkept after s' hokAfter hrun
  refine ⟨hinv'.final hsweep', fun i hmem => ?_⟩
  obtain ⟨as, bs, rfl⟩ := List.append_of_mem hmem
  obtain ⟨m, hm, hrest⟩ := (shutdownMachine allowed).runFrom_append_eq_some hrun
  obtain ⟨m', hstep, -⟩ := (shutdownMachine allowed).runFrom_cons_eq_some hrest
  obtain ⟨hinvm, hsweepm⟩ := hkept as m (Machine.meetsFrom_append hokAfter hm).1 hm
  have hnone := hinvm.no_register hsweepm i
  exact absurd (hstep.symm.trans hnone) (by simp)

/-! ### Runs -/

/-- The server drains, and the registry finds the jobs ended. -/
def orderlyShutdown : List ShutdownEvent :=
  [.newRequest "a", .task 0 .verify, .task 0 .createJob, .task 0 .spawnJob, .task 0 .attachHandle,
    .task 0 .finish, .task 1 .markConnecting, .requestShutdown, .snapshot, .requestCancel,
    .takeHandles, .takeHandle, .startJoin, .task 1 .cancelSeen, .joined, .serverDrained,
    .listConnections, .finish]

/-- The law at that run. -/
theorem shutdown_final_orderly :
    ∃ s, (shutdownMachine ["a"]).run orderlyShutdown = some s ∧
      s.api.jobs.map JobRecord.status = [.canceled] ∧ s.Final := by
  have hok : (shutdownMachine ["a"]).Meets ShutdownState.Orderly
    (orderlyShutdown ++ []) := by decide
  exact ⟨_, rfl, rfl, (shutdown_final hok rfl rfl rfl).1⟩

/-- A request that was verified before the signal creates its job behind the
snapshot, while the server drains. -/
def createdBehindSnapshot : List ShutdownEvent :=
  [.newRequest "a", .task 0 .verify, .requestShutdown, .snapshot, .takeHandles, .startJoin, .joined,
    .task 0 .createJob, .task 0 .spawnJob, .task 0 .attachHandle, .task 0 .finish, .serverDrained,
    .listConnections, .finish]

/-- **A job that is created behind the snapshot outlives the shutdown**: it is queued
when the shutdown has returned, and its task goes on to register a connection. -/
theorem created_behind_snapshot_survives :
    ∃ s s', (shutdownMachine ["a"]).run createdBehindSnapshot = some s ∧ s.sweep = .returned ∧
      s.api.jobs.map JobRecord.status = [.queued] ∧ ¬s.Final ∧
      (shutdownMachine ["a"]).runFrom s [.task 1 .markConnecting, .task 1 .verify,
        .task 1 (.startConnect false), .task 1 .register] = some s' ∧
      s'.api.connections = [{ id := 0, session := "a" }] := by
  refine ⟨_, _, rfl, rfl, rfl, fun hfinal => ?_, rfl, rfl⟩
  exact absurd (hfinal.jobs_terminal _ List.mem_cons_self) (by decide)

end Api
end HelmSsh
