/-
# The life of a job

The lifecycle of one `JobRecord` (`src-tauri/src/api_server/jobs.rs`) under any
interleaving of its operations (`HelmSsh.Api.jobRecord`).

* `jobStep_of_step` — the status goes through the operations of
  `HelmSsh.Api.JobRecord`, the record that the rest of the server is modelled with,
  one at a time; so what those never undo is never undone here;
* `lifecycle_of_run` — the lifecycle of a job in every reachable state, and
  `lifecycle_saturates`, the state in which the counter of the ids has reached
  `u64::MAX`.
-/

import HelmSsh.Api.JobCalls

namespace HelmSsh
namespace Api

/-! ### The status, seen as a record of `HelmSsh.Api.Jobs` -/

/-- One operation of `HelmSsh.Api.JobRecord`. -/
inductive JobStep : JobRecord → JobRecord → Prop
  | markConnecting (r : JobRecord) : JobStep r r.markConnecting.1
  | markRunning (r : JobRecord) : JobStep r r.markRunning.1
  | finishResult (result : ExecResult) (r : JobRecord) : JobStep r (r.finishResult result)
  | finishError (r : JobRecord) : JobStep r r.finishError
  | requestCancel (r : JobRecord) : JobStep r r.requestCancel.1
  | finishCanceled (r : JobRecord) : JobStep r r.finishCanceled

theorem JobStep.extends {r r' : JobRecord} (h : JobStep r r') : r.Extends r' := by
  cases h with
  | markConnecting => exact JobRecord.extends_mark .connecting r
  | markRunning => exact JobRecord.extends_mark .running r
  | finishResult result => exact JobRecord.extends_finishResult result r
  | finishError => exact JobRecord.extends_finishError r
  | requestCancel => exact JobRecord.extends_requestCancel r
  | finishCanceled => exact JobRecord.extends_finishCanceled r

theorem extends_of_jobSteps {r r' : JobRecord} (h : Relation.ReflTransGen JobStep r r') :
    r.Extends r' := by
  induction h with
  | refl => exact .refl r
  | tail _ hstep ih => exact ih.trans hstep.extends

/-- The record as the other parts of the server see it: its cancel counts as requested
from the push of its event on. -/
def Record.asJob (sessionId : String) (handle : Option ℕ) (r : Record) : JobRecord where
  sessionId := sessionId
  status := r.state.status
  cancelRequested := r.state.appended.any fun e => e.event = .canceling
  handle := handle

/-- While nothing says that a cancel was requested, the other parts see none. -/
theorem System.Wf.asJob_canceled {s : System} (h : s.Wf)
    (hactive : s.record.state.status.isTerminal = false)
    (hcancel : s.record.state.status ≠ .canceling) (sessionId : String) (handle : Option ℕ) :
    (s.record.asJob sessionId handle).canceled = false := by
  have hnone : s.record.state.appended.any (fun e => e.event = .canceling) = false := by
    rw [List.any_eq_false]
    intro e he
    simpa using h.not_canceling hactive hcancel he
  simp [JobRecord.canceled, Record.asJob, hnone, hcancel]

/-- **A section is an operation of `JobRecord`, or none.** -/
theorem jobStep_of_section {s : System} (h : s.Wf) {stamp : Stamp} {c c' : Call} {r : Record}
    (hsection : Call.Section stamp s.record c r c') (sessionId : String) (handle : Option ℕ) :
    Relation.ReflTransGen JobStep (s.record.asJob sessionId handle)
      (r.asJob sessionId handle) := by
  cases hsection with
  | quiet => exact .refl
  | signal => exact .refl
  | broadcast => exact .refl
  | @update u hcancel hactive =>
    obtain ⟨_, hstatus⟩ : s.record.cancelTx = false ∧ s.record.state.status ≠ .canceling := by
      simpa [Record.canceled] using hcancel
    obtain ⟨hint, hwrite⟩ := u.write_eq stamp s.record.state
    have hseen := h.asJob_canceled hactive hstatus sessionId handle
    have hview : (s.record.commit (u.write stamp)).asJob sessionId handle =
        { s.record.asJob sessionId handle with status := u.status s.record.state } := by
      simp [Record.asJob, Record.commit, hwrite, u.event_ne_canceling]
    have hactive' : (s.record.asJob sessionId handle).status.isTerminal = false := hactive
    have hfinish : ∀ status : JobStatus, (s.record.asJob sessionId handle).finishWith status =
        { s.record.asJob sessionId handle with status := status } := by
      intro status
      simp [JobRecord.finishWith, hseen, hactive']
    have hmark : ∀ status : JobStatus, ((s.record.asJob sessionId handle).mark status).1 =
        { s.record.asJob sessionId handle with status := status } := by
      intro status
      simp [JobRecord.mark, hseen, hactive']
    rw [hview]
    cases u with
    | markConnecting => exact .single (hmark .connecting ▸ .markConnecting _)
    | markRunning => exact .single (hmark .running ▸ .markRunning _)
    | appendStdout n => exact .refl
    | appendStderr n => exact .refl
    | finishResult result => exact .single (hfinish _ ▸ .finishResult result _)
    | finishError => exact .single (hfinish .failed ▸ .finishError _)
  | request hactive hcancel =>
    refine .single ?_
    have hview : ({ s.record with state := (s.record.state.beginCancel stamp).1 } :
        Record).asJob sessionId handle = (s.record.asJob sessionId handle).requestCancel.1 := by
      have hactive' : (s.record.asJob sessionId handle).status.isTerminal = false := hactive
      have hcancel' : (s.record.asJob sessionId handle).status ≠ .canceling := hcancel
      rw [JobRecord.requestCancel, if_neg (not_or.mpr ⟨by simp [hactive'], hcancel'⟩)]
      simp [Record.asJob, JobState.beginCancel]
    rw [hview]
    exact .requestCancel _
  | finish hactive =>
    refine .single ?_
    have hview : (s.record.commit (JobState.finishCanceled stamp)).asJob sessionId handle =
        (s.record.asJob sessionId handle).finishCanceled := by
      have hactive' : (s.record.asJob sessionId handle).status.isTerminal = false := hactive
      rw [JobRecord.finishCanceled, if_neg (by simp [hactive'])]
      simp [Record.asJob, Record.commit, JobState.finishCanceled]
    rw [hview]
    exact .finishCanceled _

/-- **The status goes through the operations of `JobRecord`.** -/
theorem jobStep_of_step {s s' : System} {e : RecordEvent} (h : s.Wf) (hstep : s.step e = some s')
    (sessionId : String) (handle : Option ℕ) :
    Relation.ReflTransGen JobStep (s.record.asJob sessionId handle)
      (s'.record.asJob sessionId handle) := by
  obtain ⟨op, -, rfl⟩ | ⟨i, stamp, c, -, hc, hreturned, rfl⟩ := System.step_cases hstep
  · exact .refl
  · exact jobStep_of_section h (Call.next_section stamp s.record hreturned) sessionId handle

/-- A job that has ended keeps its status whatever is called on it. -/
theorem status_eq_of_runFrom {initialBytes : ℕ} {s s' : System} {as : List RecordEvent}
    (h : s.Wf) (hterminal : s.record.state.status.isTerminal = true)
    (hrun : (jobRecord initialBytes).runFrom s as = some s') :
    s'.record.state.status = s.record.state.status := by
  have hkept : s'.Wf ∧ (s.record.asJob "" none).Extends (s'.record.asJob "" none) := by
    refine Machine.runFrom_invariant
      (I := fun t : System => t.Wf ∧ (s.record.asJob "" none).Extends (t.record.asJob "" none))
      (fun t e t' ht hstep => ?_) ⟨h, .refl _⟩ hrun
    exact ⟨ht.1.step hstep, ht.2.trans (extends_of_jobSteps (jobStep_of_step ht.1 hstep "" none))⟩
  exact hkept.2.terminal hterminal

/-! ### The lifecycle -/

/-- What a job promises in a state, besides the numbers of its events. -/
structure System.Lifecycle (s : System) : Prop where
  /-- After `request_cancel` returned true. -/
  canceled : ∀ i : ℕ, s.calls[i]? = some (.returned .requestCancel true) →
    s.record.state.status = .canceling ∨ s.record.state.status = .canceled
  /-- An ended job has one terminal event, the last one. -/
  outcome : s.record.state.status.isTerminal = true → ∃ before last,
    s.record.state.appended = before ++ [last] ∧ last.event.isTerminal = true ∧
      ∀ e ∈ before, e.event.isTerminal = false
  completed : s.record.state.completedAt.isSome = true ↔
    s.record.state.status.isTerminal = true
  bytes : s.record.state.eventBytes = (s.record.state.events.map StoredJobEvent.bytes).sum
  length_le : s.record.state.events.length ≤ maxJobEvents
  bytes_le : s.record.state.eventBytes ≤ maxJobEventBytes

/-- The kept ids are contiguous and end at `next_event_id - 1 = last_event_id`. -/
def JobState.Numbered (s : JobState) : Prop :=
  s.events.map (fun stored => stored.event.id) =
      List.range' (s.nextEventId - s.events.length) s.events.length ∧
    s.nextEventId - 1 = s.lastEventId

theorem System.Wf.lifecycle {s : System} (h : s.Wf) : s.Lifecycle where
  canceled := by
    intro i hi
    obtain ⟨e, he, hevent⟩ := h.accepted i hi
    exact h.canceling e he hevent
  outcome := by
    intro hterminal
    obtain ⟨before, last, hsplit, hbefore, hlast⟩ := h.state.outcome
    exact ⟨before, last, hsplit, hlast.trans hterminal, hbefore⟩
  completed := by rw [h.state.completedAt_isSome]
  bytes := h.state.bounded.count_eq
  length_le := h.state.bounded.length_le
  bytes_le := h.state.bounded.cost_le

/-- **The lifecycle of a job.**  Whatever is called on a record from any tasks: an ended job
keeps its status, an accepted cancel stays visible, an ended job has one terminal event and
it is the last, the time of completion is set exactly when the job has ended, the counted
bytes are those of the kept events, and these are within their bounds.  As long as the ids
have not reached `u64::MAX` the kept ones are contiguous and end with the last one; from
there on both counters stay at `u64::MAX`. -/
theorem lifecycle_of_run {initialBytes : ℕ} (hinitial : initialBytes ≤ maxJobEventBytes)
    {s : System} {as : List RecordEvent} (h : (jobRecord initialBytes).run as = some s) :
    s.Lifecycle ∧
      (s.record.state.status.isTerminal = true → ∀ bs s',
        (jobRecord initialBytes).runFrom s bs = some s' →
          s'.record.state.status = s.record.state.status) ∧
      (s.record.state.lastEventId < u64Max → s.record.state.Numbered) ∧
      (u64Max ≤ s.record.state.lastEventId →
        s.record.state.lastEventId = u64Max ∧ s.record.state.nextEventId = u64Max) := by
  have hwf := wf_of_run hinitial h
  have hlast := hwf.state.lastEventId_eq
  have hnext := hwf.state.nextEventId_eq
  refine ⟨hwf.lifecycle, fun hterminal bs s' hrun => status_eq_of_runFrom hwf hterminal hrun,
    fun hsmall => hwf.state.kept_ids hsmall, fun hlarge => ⟨by omega, by omega⟩⟩

/-- A job that is canceled, whose task finds that out when it marks it as running. -/
def canceledJob : List RecordEvent :=
  [.call .requestCancel, .step 0 ⟨1, 35, 400⟩, .step 0 ⟨1, 35, 400⟩, .step 0 ⟨1, 35, 400⟩,
    .call (.update .markRunning), .step 1 ⟨2, 35, 400⟩, .step 1 ⟨2, 35, 400⟩]

/-- The canceled job has ended, with its three events numbered. -/
theorem lifecycle_of_run_canceledJob : ∃ s, (jobRecord 400).run canceledJob = some s ∧
    s.record.state.status = .canceled ∧ s.Lifecycle ∧ s.record.state.Numbered := by
  refine ⟨_, rfl, rfl, ?_⟩
  obtain ⟨hlifecycle, -, hnumbered, -⟩ := lifecycle_of_run
    (by decide : 400 ≤ maxJobEventBytes) (rfl : (jobRecord 400).run canceledJob = some _)
  exact ⟨hlifecycle, hnumbered (by decide)⟩

/-- Output can go on for as many events as the counter has ids. -/
theorem exists_run_appended (n : ℕ) : ∃ as s, (jobRecord 400).run as = some s ∧
    s.record.canceled = false ∧ s.record.state.status.isTerminal = false ∧
    s.record.state.events ≠ [] ∧ n < s.record.state.appended.length := by
  induction n with
  | zero => exact ⟨[], .new 400, rfl, rfl, rfl, List.cons_ne_nil _ _, Nat.one_pos⟩
  | succ n ih =>
    obtain ⟨as, s, hrun, hcancel, hactive, -, hlength⟩ := ih
    have hwf := wf_of_run (by decide) hrun
    have hcall : (s.calls ++ [Call.updating (.appendStdout 1)])[s.calls.length]? =
        some (.updating (.appendStdout 1)) := by simp
    refine ⟨as ++ [.call (.update (.appendStdout 1)), .step s.calls.length ⟨0, 35, 0⟩],
      { record := s.record.commit ((Update.appendStdout 1).write ⟨0, 35, 0⟩)
        calls := (s.calls ++ [Call.updating (.appendStdout 1)]).set s.calls.length
          (.returned (.update (.appendStdout 1)) true) }, ?_, hcancel, hactive, ?_, ?_⟩
    · rw [Machine.run, Machine.runFrom_append, ← Machine.run, hrun]
      simp [jobRecord, System.step, Call.start, Call.next, Call.isReturned, hcancel, hactive]
    · exact hwf.state.write_kept (by decide)
    · simp only [Record.commit, Update.write, JobState.appendOutput, JobState.write_appended,
        List.length_append, List.length_singleton]
      omega

/-- The numbers of the events run out: a job that has pushed `u64::MAX` events keeps events,
and its last id is not `next_event_id - 1`. -/
theorem lifecycle_saturates : ¬ ∀ (initialBytes : ℕ) (as : List RecordEvent) (s : System),
    initialBytes ≤ maxJobEventBytes → (jobRecord initialBytes).run as = some s →
    s.record.state.events ≠ [] → s.record.state.Numbered := by
  intro hclaim
  obtain ⟨as, s, hrun, -, -, hkept, hlength⟩ := exists_run_appended u64Max
  have hwf := wf_of_run (by decide) hrun
  obtain ⟨-, hlast⟩ := hclaim 400 as s (by decide) hrun hkept
  rw [hwf.state.lastEventId_eq, hwf.state.nextEventId_eq] at hlast
  simp only [u64Max] at hlast hlength
  omega

end Api
end HelmSsh
