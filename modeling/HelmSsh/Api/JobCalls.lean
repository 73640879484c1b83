/-
# Calls on a job record

`JobRecord` of `src-tauri/src/api_server/jobs.rs` with all the calls that tasks make
on it.  A call runs in sections: the check of the cancel signal before the lock, the
locked section, and for a call that found a cancel requested the locked section of
`finish_canceled`.  `request_cancel` pushes its event in its locked section, sets the
signal after it released the lock and sends the event last; every other operation
sends its event before it releases the lock.  An event of the machine is a new call
or the next section of a call, so its runs are all interleavings of all operations
called from any tasks.

* `System.Wf` — the history is well formed (`HelmSsh.Api.JobState.Wf`), a cancel
  that was accepted stays visible in the status, and the events are sent in the order
  of their ids, except that the event of a `request_cancel` can be overtaken by the
  canceled event (`System.Sent`); `wf_of_run` is the invariant of every run;
* `Call.next_section`, `System.move_of_step` — what one section can do, and what one
  step does to the histories of pushed and of sent events.
-/

import HelmSsh.Api.JobEvents
import HelmSsh.Machine

namespace HelmSsh
namespace Api

/-- An operation that writes unless a cancel was requested or the job has ended. -/
inductive Update where
  | markConnecting
  | markRunning
  | appendStdout (textBytes : ℕ)
  | appendStderr (textBytes : ℕ)
  | finishResult (result : ExecResult)
  | finishError
  deriving DecidableEq

/-- The operations of a record. -/
inductive JobOp where
  | update (u : Update)
  | requestCancel
  | finishCanceled
  deriving DecidableEq

/-- The locked write of an update, past its checks. -/
def Update.write (stamp : Stamp) : Update → JobState → JobState × JobEvent
  | .markConnecting => JobState.markConnecting stamp
  | .markRunning => JobState.markRunning stamp
  | .appendStdout textBytes => JobState.appendOutput .stdout textBytes stamp
  | .appendStderr textBytes => JobState.appendOutput .stderr textBytes stamp
  | .finishResult result => JobState.finishResult result stamp
  | .finishError => JobState.finishError stamp

/-- `JobRecord`: the state behind its lock, the cancel signal, and what `event_tx` has
sent so far. -/
structure Record where
  state : JobState
  cancelTx : Bool
  sent : List JobEvent
  deriving DecidableEq

namespace Record

/-- `JobRecord::new`. -/
def new (initialBytes : ℕ) : Record :=
  { state := .new initialBytes, cancelTx := false, sent := [] }

/-- A cancel was requested, as the locked sections check it. -/
def canceled (r : Record) : Bool :=
  r.cancelTx || r.state.status = .canceling

/-- A locked section that pushes an event and sends it before it releases the lock. -/
def commit (write : JobState → JobState × JobEvent) (r : Record) : Record :=
  { r with state := (write r.state).1, sent := r.sent ++ [(write r.state).2] }

end Record

/-- A call of an operation, by the section it runs next. -/
inductive Call where
  /-- The check of the signal before the lock. -/
  | checking (u : Update)
  /-- The locked section of an update. -/
  | updating (u : Update)
  /-- The locked section of `request_cancel`. -/
  | requesting
  /-- The locked section of `finish_canceled`, called by `op`. -/
  | finishing (op : JobOp)
  /-- `request_cancel` before it sets the signal. -/
  | signaling (event : JobEvent)
  /-- `request_cancel` before it sends its event. -/
  | broadcasting (event : JobEvent)
  /-- The call is over: what `mark_*` and `request_cancel` return, for the others
  whether they wrote themselves. -/
  | returned (op : JobOp) (result : Bool)
  deriving DecidableEq

namespace Call

/-- A new call.  `append_output` returns at once for an empty text, and it does not
look at the signal before it takes the lock. -/
def start : JobOp → Call
  | .update (.appendStdout 0) => .returned (.update (.appendStdout 0)) false
  | .update (.appendStderr 0) => .returned (.update (.appendStderr 0)) false
  | .update (.appendStdout n) => .updating (.appendStdout n)
  | .update (.appendStderr n) => .updating (.appendStderr n)
  | .update u => .checking u
  | .requestCancel => .requesting
  | .finishCanceled => .finishing .finishCanceled

/-- The event of a `request_cancel` that is pushed and not sent. -/
def pending : Call → Option JobEvent
  | .signaling event => some event
  | .broadcasting event => some event
  | _ => none

/-- The next section of a call pushes an event. -/
def Appends (r : Record) : Call → Prop
  | .updating _ => r.canceled = false ∧ r.state.status.isTerminal = false
  | .requesting => r.state.status.isTerminal = false ∧ r.state.status ≠ .canceling
  | .finishing _ => r.state.status.isTerminal = false
  | _ => False

instance (r : Record) (c : Call) : Decidable (c.Appends r) := by
  cases c <;> simp only [Appends] <;> infer_instance

/-- The next section of a call: what it makes of the record and of the call. -/
def next (stamp : Stamp) (r : Record) : Call → Record × Call
  | .checking u => (r, if r.cancelTx then .finishing (.update u) else .updating u)
  | .updating u =>
    if r.canceled then (r, .finishing (.update u))
    else if r.state.status.isTerminal then (r, .returned (.update u) false)
    else (r.commit (u.write stamp), .returned (.update u) true)
  | .requesting =>
    if r.state.status.isTerminal ∨ r.state.status = .canceling then
      (r, .returned .requestCancel false)
    else
      ({ r with state := (r.state.beginCancel stamp).1 },
        .signaling (r.state.beginCancel stamp).2)
  | .finishing op =>
    if r.state.status.isTerminal then (r, .returned op false)
    else (r.commit (JobState.finishCanceled stamp), .returned op (op = .finishCanceled))
  | .signaling event => ({ r with cancelTx := true }, .broadcasting event)
  | .broadcasting event =>
    ({ r with sent := r.sent ++ [event] }, .returned .requestCancel true)
  | .returned op result => (r, .returned op result)

/-- The call is over. -/
def isReturned : Call → Bool
  | .returned _ _ => true
  | _ => false

end Call

/-- A record and the calls on it. -/
structure System where
  record : Record
  calls : List Call
  deriving DecidableEq

/-- An event of the record. -/
inductive RecordEvent where
  /-- A task calls an operation. -/
  | call (op : JobOp)
  /-- The `i`-th call runs its next section. -/
  | step (i : ℕ) (stamp : Stamp)
  deriving DecidableEq

namespace System

/-- A fresh record. -/
def new (initialBytes : ℕ) : System :=
  { record := .new initialBytes, calls := [] }

/-- The effect of an event. -/
def step (s : System) : RecordEvent → Option System
  | .call op => some { s with calls := s.calls ++ [.start op] }
  | .step i stamp =>
    match s.calls[i]? with
    | none => none
    | some c =>
      if c.isReturned then none
      else some
        { record := (c.next stamp s.record).1, calls := s.calls.set i (c.next stamp s.record).2 }

/-- The events that a `request_cancel` has pushed and not sent. -/
def pending (s : System) : List JobEvent :=
  s.calls.filterMap Call.pending

theorem step_cases {s s' : System} {e : RecordEvent} (h : s.step e = some s') :
    (∃ op, e = .call op ∧ s' = { s with calls := s.calls ++ [.start op] }) ∨
    (∃ i stamp c, e = .step i stamp ∧ s.calls[i]? = some c ∧ c.isReturned = false ∧
      s' = { record := (c.next stamp s.record).1
             calls := s.calls.set i (c.next stamp s.record).2 }) := by
  cases e with
  | call op => exact .inl ⟨op, rfl, (Option.some.inj h).symm⟩
  | step i stamp =>
    simp only [step] at h
    split at h
    · cases h
    · rename_i c hc
      split at h
      · cases h
      · rename_i hreturned
        exact .inr ⟨i, stamp, c, rfl, hc, by simpa using hreturned, (Option.some.inj h).symm⟩

end System

/-- The record of a job, from its creation with a first event of `initialBytes` bytes. -/
def jobRecord (initialBytes : ℕ) : Machine System RecordEvent where
  init := .new initialBytes
  step := System.step

/-! ### What one section does -/

namespace Update

/-- The status that an update writes. -/
def status (s : JobState) : Update → JobStatus
  | .markConnecting => .connecting
  | .markRunning => .running
  | .appendStdout _ => s.status
  | .appendStderr _ => s.status
  | .finishResult result => JobRecord.resultStatus result
  | .finishError => .failed

/-- The event that an update pushes. -/
def event : Update → EventKind
  | .markConnecting => .connecting
  | .markRunning => .running
  | .appendStdout _ => .stdout
  | .appendStderr _ => .stderr
  | .finishResult result => JobState.resultEvent result
  | .finishError => .failed

theorem write_eq (u : Update) (stamp : Stamp) (s : JobState) :
    ∃ hint, u.write stamp s = s.write (u.status s) u.event stamp hint := by
  cases u <;> exact ⟨_, rfl⟩

theorem event_terminal (u : Update) {s : JobState} (hactive : s.status.isTerminal = false) :
    u.event.isTerminal = (u.status s).isTerminal := by
  cases u with
  | markConnecting => rfl
  | markRunning => rfl
  | appendStdout n => exact hactive.symm
  | appendStderr n => exact hactive.symm
  | finishResult result =>
    exact (JobState.resultEvent_terminal result).trans
      (JobRecord.resultStatus_terminal result).symm
  | finishError => rfl

theorem event_ne_canceling (u : Update) : u.event ≠ .canceling := by
  cases u with
  | finishResult result =>
    simp only [event, JobState.resultEvent]
    split_ifs <;> decide
  | _ => simp [event]

/-- No update makes the status say that a cancel was requested. -/
theorem status_canceling {u : Update} {s : JobState} (h : u.status s = .canceling) :
    s.status = .canceling := by
  cases u with
  | appendStdout n => exact h
  | appendStderr n => exact h
  | finishResult result =>
    have hterminal := JobRecord.resultStatus_terminal result
    rw [show JobRecord.resultStatus result = .canceling from h] at hterminal
    cases hterminal
  | _ => cases h

end Update

namespace Call

/-- The sections of a call, by what they do to the record. -/
inductive Section (stamp : Stamp) (r : Record) : Call → Record → Call → Prop
  /-- The record is only read. -/
  | quiet {c c' : Call} (hc : c.pending = none) (hc' : c'.pending = none)
      (hrejected : c' ≠ .returned .requestCancel true) : Section stamp r c r c'
  | update {u : Update} (hcancel : r.canceled = false)
      (hactive : r.state.status.isTerminal = false) :
      Section stamp r (.updating u) (r.commit (u.write stamp)) (.returned (.update u) true)
  | request (hactive : r.state.status.isTerminal = false)
      (hcancel : r.state.status ≠ .canceling) :
      Section stamp r .requesting { r with state := (r.state.beginCancel stamp).1 }
        (.signaling (r.state.beginCancel stamp).2)
  | finish {op : JobOp} (hactive : r.state.status.isTerminal = false) :
      Section stamp r (.finishing op) (r.commit (JobState.finishCanceled stamp))
        (.returned op (op = .finishCanceled))
  | signal {event : JobEvent} :
      Section stamp r (.signaling event) { r with cancelTx := true } (.broadcasting event)
  | broadcast {event : JobEvent} :
      Section stamp r (.broadcasting event) { r with sent := r.sent ++ [event] }
        (.returned .requestCancel true)

/-- **The spec lemma of a section.** -/
theorem next_section (stamp : Stamp) (r : Record) {c : Call} (hc : c.isReturned = false) :
    Section stamp r c (c.next stamp r).1 (c.next stamp r).2 := by
  cases c with
  | checking u =>
    simp only [next]
    split_ifs <;> exact .quiet rfl rfl nofun
  | updating u =>
    simp only [next]
    split_ifs with hcancel hterminal
    · exact .quiet rfl rfl nofun
    · exact .quiet rfl rfl nofun
    · exact .update (Bool.eq_false_iff.mpr hcancel) (Bool.eq_false_iff.mpr hterminal)
  | requesting =>
    simp only [next]
    split_ifs with h
    · exact .quiet rfl rfl nofun
    · rw [not_or] at h
      exact .request (Bool.eq_false_iff.mpr h.1) h.2
  | finishing op =>
    simp only [next]
    split_ifs with hterminal
    · exact .quiet rfl rfl nofun
    · exact .finish (Bool.eq_false_iff.mpr hterminal)
  | signaling event => exact .signal
  | broadcasting event => exact .broadcast
  | returned op result => cases hc

end Call

/-! ### What holds in every reachable state -/

namespace System

/-- How the events that were sent relate to the events that were pushed, all but the
queued one, which nobody could have subscribed to. -/
inductive Sent (s : System) : Prop
  | inOrder (hpending : s.pending = []) (hsent : s.record.sent = s.record.state.appended.tail)
  /-- A `request_cancel` has its event still to send. -/
  | behind (e : JobEvent) (he : e.event = .canceling) (hpending : s.pending = [e])
      (hsent : s.record.sent ++ [e] = s.record.state.appended.tail)
  /-- The canceled event was pushed and sent before it. -/
  | overtaken (before : List JobEvent) (e c : JobEvent) (he : e.event = .canceling)
      (hc : c.event = .canceled) (hpending : s.pending = [e])
      (happended : s.record.state.appended.tail = before ++ [e, c])
      (hsent : s.record.sent = before ++ [c])
  /-- And both are sent. -/
  | swapped (before : List JobEvent) (e c : JobEvent) (he : e.event = .canceling)
      (hc : c.event = .canceled) (hpending : s.pending = [])
      (happended : s.record.state.appended.tail = before ++ [e, c])
      (hsent : s.record.sent = before ++ [c, e])

/-- The relation speaks of the pending event and the two histories only. -/
theorem Sent.congr {s s' : System} (h : s.Sent) (hpending : s'.pending = s.pending)
    (hsent : s'.record.sent = s.record.sent)
    (happended : s'.record.state.appended = s.record.state.appended) : s'.Sent := by
  rcases h with ⟨hp, hs⟩ | ⟨e, he, hp, hs⟩ | ⟨before, e, c, he, hc, hp, ha, hs⟩ |
    ⟨before, e, c, he, hc, hp, ha, hs⟩
  · exact .inOrder (hpending.trans hp) (by rw [hsent, happended, hs])
  · exact .behind e he (hpending.trans hp) (by rw [hsent, happended, hs])
  · exact .overtaken before e c he hc (hpending.trans hp) (by rw [happended, ha])
      (hsent.trans hs)
  · exact .swapped before e c he hc (hpending.trans hp) (by rw [happended, ha]) (hsent.trans hs)

/-- A record and its calls are well formed. -/
structure Wf (s : System) : Prop where
  state : s.record.state.Wf
  canceling : ∀ e ∈ s.record.state.appended, e.event = .canceling →
    s.record.state.status = .canceling ∨ s.record.state.status = .canceled
  status_canceling : s.record.state.status = .canceling →
    ∃ e ∈ s.record.state.appended, e.event = .canceling
  signaled : s.record.cancelTx = true → ∃ e ∈ s.record.state.appended, e.event = .canceling
  accepted : ∀ i : ℕ, s.calls[i]? = some (.returned .requestCancel true) →
    ∃ e ∈ s.record.state.appended, e.event = .canceling
  pending_mem : ∀ e ∈ s.pending, e ∈ s.record.state.appended ∧ e.event = .canceling
  sent : s.Sent

theorem wf_new {initialBytes : ℕ} (h : initialBytes ≤ maxJobEventBytes) :
    (new initialBytes).Wf :=
  { state := JobState.wf_new h
    canceling := by simp [new, Record.new, JobState.new]
    status_canceling := nofun
    signaled := nofun
    accepted := fun i hi => by cases hi
    pending_mem := fun e he => absurd he List.not_mem_nil
    sent := .inOrder rfl rfl }

/-! ### The pending broadcast -/

section Pending

variable {s : System} {i : ℕ} {c d : Call} {r : Record} (hc : s.calls[i]? = some c)
include hc

theorem pending_keep (h : d.pending = c.pending) :
    (System.mk r (s.calls.set i d)).pending = s.pending := by
  obtain ⟨front, back, hold, hnew⟩ := Pool.filterMap_set Call.pending hc d
  simp only [pending, hold, hnew, h]

theorem pending_add (h : c.pending = none) {e : JobEvent} (h' : d.pending = some e)
    (hnone : s.pending = []) : (System.mk r (s.calls.set i d)).pending = [e] := by
  obtain ⟨front, back, hold, hnew⟩ := Pool.filterMap_set Call.pending hc d
  rw [pending, hold, h, Option.toList_none, List.append_nil, List.append_eq_nil_iff] at hnone
  rw [pending, hnew, hnone.1, hnone.2, h']
  rfl

/-- A call with a pending event had the only one, and gives it up. -/
theorem pending_drop {e : JobEvent} (h : c.pending = some e) (h' : d.pending = none)
    {f : JobEvent} (hone : s.pending = [f]) :
    e = f ∧ (System.mk r (s.calls.set i d)).pending = [] := by
  obtain ⟨front, back, hold, hnew⟩ := Pool.filterMap_set Call.pending hc d
  rw [pending, hold, h, Option.toList_some, List.append_assoc] at hone
  obtain ⟨rfl, hrest⟩ : front = [] ∧ [e] ++ back = [f] := by
    rcases List.append_eq_singleton_iff.mp hone with ⟨hfront, hrest⟩ | ⟨-, hrest⟩
    · exact ⟨hfront, hrest⟩
    · cases hrest
  obtain ⟨rfl, rfl⟩ := List.cons.inj hrest
  refine ⟨rfl, ?_⟩
  rw [pending, hnew, h']
  rfl

theorem pending_of_call {e : JobEvent} (h : c.pending = some e) : e ∈ s.pending :=
  List.mem_filterMap.mpr ⟨c, List.mem_of_getElem? hc, h⟩

end Pending

/-- While nothing says that a cancel was requested, no event of one was pushed. -/
theorem Wf.not_canceling {s : System} (h : s.Wf)
    (hactive : s.record.state.status.isTerminal = false)
    (hcancel : s.record.state.status ≠ .canceling) {e : JobEvent}
    (he : e ∈ s.record.state.appended) : e.event ≠ .canceling := by
  intro hevent
  rcases h.canceling e he hevent with hstatus | hstatus
  · exact hcancel hstatus
  · rw [hstatus] at hactive
    cases hactive

/-- And the events that were sent are the events that were pushed. -/
theorem Wf.inOrder {s : System} (h : s.Wf) (hactive : s.record.state.status.isTerminal = false)
    (hcancel : s.record.state.status ≠ .canceling) :
    s.pending = [] ∧ s.record.sent = s.record.state.appended.tail := by
  have hnone : s.pending = [] := by
    refine List.eq_nil_iff_forall_not_mem.mpr fun e he => ?_
    obtain ⟨hmem, hevent⟩ := h.pending_mem e he
    exact h.not_canceling hactive hcancel hmem hevent
  rcases h.sent with ⟨_, hsent⟩ | ⟨e, he, hpending, _⟩ | ⟨before, e, c, he, _, hpending, _, _⟩ |
    ⟨before, e, c, he, _, _, happended, _⟩
  · exact ⟨hnone, hsent⟩
  · rw [hnone] at hpending
    cases hpending
  · rw [hnone] at hpending
    cases hpending
  · refine absurd he (h.not_canceling hactive hcancel (List.mem_of_mem_tail ?_))
    rw [happended]
    simp

/-- What is required of a call that accepted a cancel is kept by a section that only adds
events. -/
theorem Wf.accepted_set {s : System} (h : s.Wf) {i : ℕ} {c' : Call} {r : Record}
    (hmono : ∀ e ∈ s.record.state.appended, e ∈ r.state.appended)
    (haccept : c' = .returned .requestCancel true →
      ∃ e ∈ r.state.appended, e.event = .canceling) :
    ∀ j : ℕ, (s.calls.set i c')[j]? = some (.returned .requestCancel true) →
      ∃ e ∈ r.state.appended, e.event = .canceling := by
  intro j hj
  rcases Pool.getElem?_set hj with ⟨_, hnew⟩ | ⟨_, hold⟩
  · exact haccept hnew.symm
  · obtain ⟨e, he, hevent⟩ := h.accepted j hold
    exact ⟨e, hmono e he, hevent⟩

theorem Wf.tail_append {s : System} (h : s.Wf) (e : JobEvent) :
    (s.record.state.appended ++ [e]).tail = s.record.state.appended.tail ++ [e] :=
  List.tail_append_of_ne_nil (List.length_pos_iff.mp h.state.appended_pos)

theorem Wf.update {s : System} (h : s.Wf) {i : ℕ} {u : Update} {stamp : Stamp}
    (hc : s.calls[i]? = some (.updating u)) (hcancel : s.record.canceled = false)
    (hactive : s.record.state.status.isTerminal = false) :
    (System.mk (s.record.commit (u.write stamp))
      (s.calls.set i (.returned (.update u) true))).Wf := by
  obtain ⟨hint, hwrite⟩ := u.write_eq stamp s.record.state
  obtain ⟨hsignal, hstatus⟩ : s.record.cancelTx = false ∧ s.record.state.status ≠ .canceling := by
    simpa [Record.canceled] using hcancel
  obtain ⟨hnone, hsent⟩ := h.inOrder hactive hstatus
  have hpending := pending_keep (r := s.record.commit (u.write stamp))
    (d := .returned (.update u) true) hc rfl
  refine ⟨?_, ?_, ?_, ?_, ?_, ?_, ?_⟩
  · simp only [Record.commit, hwrite]
    exact h.state.write hactive (u.event_terminal hactive) stamp hint
  · intro e he hevent
    simp only [Record.commit, hwrite, JobState.write_appended, List.mem_append,
      List.mem_singleton] at he
    rcases he with he | rfl
    · exact absurd hevent (h.not_canceling hactive hstatus he)
    · exact absurd hevent u.event_ne_canceling
  · intro hcanceling
    simp only [Record.commit, hwrite, JobState.write_status] at hcanceling
    exact absurd (Update.status_canceling hcanceling) hstatus
  · intro hsignaled
    exact absurd hsignaled (Bool.eq_false_iff.mp hsignal)
  · refine h.accepted_set (fun e he => ?_) nofun
    simp only [Record.commit, hwrite, JobState.write_appended]
    exact List.mem_append_left _ he
  · rw [hpending, hnone]
    exact fun e he => absurd he List.not_mem_nil
  · refine .inOrder (hpending.trans hnone) ?_
    simp only [Record.commit, hwrite, JobState.write_appended, JobState.write_event, hsent]
    exact (h.tail_append _).symm

/-- An accepted cancel keeps a record well formed, and its event is pending. -/
theorem Wf.request {s : System} (h : s.Wf) {i : ℕ} {stamp : Stamp}
    (hc : s.calls[i]? = some .requesting)
    (hactive : s.record.state.status.isTerminal = false)
    (hcancel : s.record.state.status ≠ .canceling) :
    (System.mk { s.record with state := (s.record.state.beginCancel stamp).1 }
      (s.calls.set i (.signaling (s.record.state.beginCancel stamp).2))).Wf := by
  obtain ⟨hnone, hsent⟩ := h.inOrder hactive hcancel
  have hpending :=
    pending_add (r := { s.record with state := (s.record.state.beginCancel stamp).1 })
    (d := .signaling (s.record.state.beginCancel stamp).2) hc rfl rfl hnone
  have hnew : ∃ e ∈ (s.record.state.beginCancel stamp).1.appended, e.event = .canceling :=
    ⟨_, List.mem_append_right _ List.mem_cons_self, rfl⟩
  refine ⟨h.state.write hactive rfl stamp none, fun _ _ _ => .inl rfl, fun _ => hnew,
    fun _ => hnew, h.accepted_set (fun e he => List.mem_append_left _ he) nofun, ?_, ?_⟩
  · intro e he
    rw [hpending, List.mem_singleton] at he
    rw [he]
    exact ⟨List.mem_append_right _ List.mem_cons_self, rfl⟩
  · refine .behind _ rfl hpending ?_
    simp only [JobState.beginCancel, JobState.write_appended, JobState.write_event, hsent]
    exact (h.tail_append _).symm

/-- The end of a canceled job keeps a record well formed; it may overtake the event of
the cancel. -/
theorem Wf.finish {s : System} (h : s.Wf) {i : ℕ} {op : JobOp} {stamp : Stamp}
    (hc : s.calls[i]? = some (.finishing op))
    (hactive : s.record.state.status.isTerminal = false) :
    (System.mk (s.record.commit (JobState.finishCanceled stamp))
      (s.calls.set i (.returned op (op = .finishCanceled)))).Wf := by
  have hpending := pending_keep (r := s.record.commit (JobState.finishCanceled stamp))
    (d := .returned op (op = .finishCanceled)) hc rfl
  have hmono : ∀ e ∈ s.record.state.appended,
      e ∈ (s.record.commit (JobState.finishCanceled stamp)).state.appended :=
    fun e he => List.mem_append_left _ he
  refine ⟨h.state.write hactive rfl stamp none, fun _ _ _ => .inr rfl, nofun,
    fun hsignaled => ?_, h.accepted_set hmono fun hop => ?_, fun e he => ?_, ?_⟩
  · obtain ⟨e, he, hevent⟩ := h.signaled hsignaled
    exact ⟨e, hmono e he, hevent⟩
  · injection hop with hop htrue
    rw [hop] at htrue
    cases htrue
  · rw [hpending] at he
    obtain ⟨hmem, hevent⟩ := h.pending_mem e he
    exact ⟨hmono e hmem, hevent⟩
  · rcases h.sent with ⟨hnone, hsent⟩ | ⟨e, he, hone, hsent⟩ |
      ⟨before, e, c, _, hcanceled, _, happended, _⟩ | ⟨before, e, c, _, hcanceled, _, happended, _⟩
    · refine .inOrder (hpending.trans hnone) ?_
      simp only [Record.commit, JobState.finishCanceled, JobState.write_appended,
        JobState.write_event, hsent]
      exact (h.tail_append _).symm
    · refine .overtaken s.record.sent e ⟨s.record.state.nextEventId, .canceled⟩ he rfl
        (hpending.trans hone) ?_ rfl
      simp only [Record.commit, JobState.finishCanceled, JobState.write_appended]
      rw [h.tail_append, ← hsent, List.append_assoc]
      rfl
    all_goals
      have hmem : c ∈ s.record.state.appended :=
        List.mem_of_mem_tail (by rw [happended]; simp)
      have hterminal := h.state.not_terminal hactive hmem
      rw [hcanceled] at hterminal
      cases hterminal

/-- Sending the event of a cancel keeps a record well formed. -/
theorem Wf.broadcast {s : System} (h : s.Wf) {i : ℕ} {event : JobEvent}
    (hc : s.calls[i]? = some (.broadcasting event)) :
    (System.mk { s.record with sent := s.record.sent ++ [event] }
      (s.calls.set i (.returned .requestCancel true))).Wf := by
  obtain ⟨hmem, hcanceling⟩ := h.pending_mem event (pending_of_call hc rfl)
  have hdrop := fun {f : JobEvent} (hone : s.pending = [f]) =>
    pending_drop (r := { s.record with sent := s.record.sent ++ [event] })
      (d := .returned .requestCancel true) hc rfl rfl hone
  have hsome : s.pending ≠ [] := List.ne_nil_of_mem (pending_of_call hc rfl)
  have hsent : (System.mk { s.record with sent := s.record.sent ++ [event] }
      (s.calls.set i (.returned .requestCancel true))).Sent := by
    rcases h.sent with ⟨hnone, _⟩ | ⟨e, _, hone, hsent⟩ |
      ⟨before, e, c, he, hcanceled, hone, happended, hsent⟩ | ⟨_, _, _, _, _, hnone, _, _⟩
    · exact absurd hnone hsome
    · obtain ⟨rfl, hnil⟩ := hdrop hone
      exact .inOrder hnil hsent
    · obtain ⟨rfl, hnil⟩ := hdrop hone
      refine .swapped before event c he hcanceled hnil happended ?_
      simp only [hsent, List.append_assoc, List.singleton_append]
    · exact absurd hnone hsome
  refine ⟨h.state, h.canceling, h.status_canceling, h.signaled,
    h.accepted_set (fun e he => he) (fun _ => ⟨event, hmem, hcanceling⟩), ?_, hsent⟩
  intro e he
  obtain ⟨front, back, hold, hnew⟩ := Pool.filterMap_set Call.pending hc
    (.returned .requestCancel true)
  refine h.pending_mem e ?_
  rw [pending, hold]
  rw [pending, hnew] at he
  simp only [List.mem_append] at he ⊢
  rcases he with (he | he) | he
  · exact .inl (.inl he)
  · exact absurd he List.not_mem_nil
  · exact .inr he

/-- A section that at most sets the signal keeps a record well formed. -/
theorem Wf.keep {s : System} (h : s.Wf) {i : ℕ} {c c' : Call} (hc : s.calls[i]? = some c)
    (hpending : c'.pending = c.pending) (hrejected : c' ≠ .returned .requestCancel true)
    {signal : Bool} (hsignal : signal = true →
      ∃ e ∈ s.record.state.appended, e.event = .canceling) :
    (System.mk { s.record with cancelTx := signal } (s.calls.set i c')).Wf := by
  have hkeep := pending_keep (r := { s.record with cancelTx := signal }) hc hpending
  refine ⟨h.state, h.canceling, h.status_canceling, hsignal,
    h.accepted_set (fun e he => he) fun hop => absurd hop hrejected, ?_, ?_⟩
  · rw [hkeep]
    exact h.pending_mem
  · exact h.sent.congr hkeep rfl rfl

/-- **Every section keeps a record well formed.** -/
theorem Wf.section {s : System} (h : s.Wf) {i : ℕ} {stamp : Stamp} {c c' : Call} {r : Record}
    (hc : s.calls[i]? = some c) (hsection : Call.Section stamp s.record c r c') :
    (System.mk r (s.calls.set i c')).Wf := by
  cases hsection with
  | quiet hpending hpending' hrejected =>
    exact h.keep hc (hpending'.trans hpending.symm) hrejected h.signaled
  | update hcancel hactive => exact h.update hc hcancel hactive
  | request hactive hcancel => exact h.request hc hactive hcancel
  | finish hactive => exact h.finish hc hactive
  | signal =>
    exact h.keep hc (by rfl) (by nofun) fun _ => ⟨_, h.pending_mem _ (pending_of_call hc rfl)⟩
  | broadcast => exact h.broadcast hc

/-- A new call neither sends nor has accepted anything. -/
theorem start_pending (op : JobOp) :
    (Call.start op).pending = none ∧ Call.start op ≠ .returned .requestCancel true := by
  cases op with
  | update u =>
    cases u with
    | appendStdout n => cases n <;> exact ⟨rfl, nofun⟩
    | appendStderr n => cases n <;> exact ⟨rfl, nofun⟩
    | _ => exact ⟨rfl, nofun⟩
  | _ => exact ⟨rfl, nofun⟩

theorem Wf.call {s : System} (h : s.Wf) (op : JobOp) :
    (System.mk s.record (s.calls ++ [.start op])).Wf := by
  have hkeep : (System.mk s.record (s.calls ++ [.start op])).pending = s.pending :=
    Pool.filterMap_add (start_pending op).1
  refine ⟨h.state, h.canceling, h.status_canceling, h.signaled, fun j hj => ?_, ?_, ?_⟩
  · rcases Pool.getElem?_add hj with ⟨_, hnew⟩ | hold
    · exact absurd hnew.symm (start_pending op).2
    · exact h.accepted j hold
  · rw [hkeep]
    exact h.pending_mem
  · exact h.sent.congr hkeep rfl rfl

/-- **Every step keeps a record well formed.** -/
theorem Wf.step {s s' : System} {e : RecordEvent} (h : s.Wf) (hstep : s.step e = some s') :
    s'.Wf := by
  obtain ⟨op, -, rfl⟩ | ⟨i, stamp, c, -, hc, hreturned, rfl⟩ := step_cases hstep
  · exact h.call op
  · exact h.section hc (Call.next_section stamp s.record hreturned)

end System

/-! ### One step, as those who listen see it -/

namespace System

/-- The event makes a call push an event. -/
def Appends (s : System) : RecordEvent → Prop
  | .call _ => False
  | .step i _ =>
    match s.calls[i]? with
    | none => False
    | some c => c.Appends s.record

instance (s : System) (e : RecordEvent) : Decidable (s.Appends e) := by
  cases e with
  | call op => exact isFalse id
  | step i stamp =>
    simp only [Appends]
    split <;> infer_instance

/-- What a step does to the two histories. -/
inductive Move (s : System) (a : RecordEvent) (s' : System) : Prop
  | quiet (happended : s'.record.state.appended = s.record.state.appended)
      (hsent : s'.record.sent = s.record.sent)
      (hstatus : s'.record.state.status = s.record.state.status)
  /-- An event is pushed and sent. -/
  | commit (e : JobEvent) (happends : s.Appends a)
      (hactive : s.record.state.status.isTerminal = false)
      (happended : s'.record.state.appended = s.record.state.appended ++ [e])
      (hsent : s'.record.sent = s.record.sent ++ [e])
      (hevent : e.event.isTerminal = s'.record.state.status.isTerminal)
  /-- A cancel is accepted: its event is pushed only. -/
  | request (e : JobEvent) (happends : s.Appends a)
      (hactive : s.record.state.status.isTerminal = false)
      (happended : s'.record.state.appended = s.record.state.appended ++ [e])
      (hsent : s'.record.sent = s.record.sent)
      (hactive' : s'.record.state.status.isTerminal = false)
  /-- The event of an accepted cancel is sent. -/
  | broadcast (e : JobEvent) (hpending : e ∈ s.pending)
      (happended : s'.record.state.appended = s.record.state.appended)
      (hsent : s'.record.sent = s.record.sent ++ [e])
      (hstatus : s'.record.state.status = s.record.state.status)

/-- **The spec lemma of a step.** -/
theorem move_of_step {s s' : System} {a : RecordEvent} (hstep : s.step a = some s') :
    s.Move a s' := by
  obtain ⟨op, rfl, rfl⟩ | ⟨i, stamp, c, rfl, hc, hreturned, rfl⟩ := step_cases hstep
  · exact .quiet rfl rfl rfl
  · have hsection := Call.next_section stamp s.record hreturned
    generalize (c.next stamp s.record).1 = r at hsection ⊢
    generalize (c.next stamp s.record).2 = c' at hsection ⊢
    cases hsection with
    | quiet => exact .quiet rfl rfl rfl
    | signal => exact .quiet rfl rfl rfl
    | @update u hcancel hactive =>
      obtain ⟨hint, hwrite⟩ := u.write_eq stamp s.record.state
      refine .commit ⟨s.record.state.nextEventId, u.event⟩ ?_ hactive ?_ ?_ ?_
      · simp only [Appends, hc]
        exact ⟨hcancel, hactive⟩
      · simp [Record.commit, hwrite]
      · simp [Record.commit, hwrite]
      · simpa [Record.commit, hwrite] using u.event_terminal hactive
    | request hactive hcancel =>
      refine .request ⟨s.record.state.nextEventId, .canceling⟩ ?_ hactive rfl rfl rfl
      simp only [Appends, hc]
      exact ⟨hactive, hcancel⟩
    | finish hactive =>
      refine .commit ⟨s.record.state.nextEventId, .canceled⟩ ?_ hactive rfl rfl rfl
      simp only [Appends, hc]
      exact hactive
    | broadcast => exact .broadcast _ (pending_of_call hc rfl) rfl rfl rfl

theorem sent_of_step {s s' : System} {a : RecordEvent} (hstep : s.step a = some s') :
    ∃ rest, s'.record.sent = s.record.sent ++ rest := by
  cases move_of_step hstep with
  | quiet _ hsent => exact ⟨[], by rw [hsent, List.append_nil]⟩
  | commit e _ _ _ hsent => exact ⟨[e], hsent⟩
  | request e _ _ _ hsent => exact ⟨[], by rw [hsent, List.append_nil]⟩
  | broadcast e _ _ hsent => exact ⟨[e], hsent⟩

/-! ### What was sent -/

namespace Wf

variable {s : System} (h : s.Wf)
include h

/-- Only pushed events are sent, and at most as many as were pushed since the start. -/
theorem sent_perm : (s.record.sent ++ s.pending).Perm s.record.state.appended.tail := by
  rcases h.sent with ⟨hp, hs⟩ | ⟨e, _, hp, hs⟩ | ⟨before, e, c, _, _, hp, ha, hs⟩ |
    ⟨before, e, c, _, _, hp, ha, hs⟩
  · rw [hp, hs, List.append_nil]
  · rw [hp, hs]
  · rw [hp, hs, ha, List.append_assoc]
    exact (List.Perm.swap e c []).append_left before
  · rw [hp, hs, ha, List.append_nil]
    exact (List.Perm.swap e c []).append_left before

theorem mem_of_sent {e : JobEvent} (he : e ∈ s.record.sent) : e ∈ s.record.state.appended :=
  List.mem_of_mem_tail (h.sent_perm.subset (List.mem_append_left _ he))

theorem sent_length :
    s.record.sent.length + s.pending.length + 1 = s.record.state.appended.length := by
  have hpos := h.state.appended_pos
  have hlength := h.sent_perm.length_eq
  rw [List.length_append, List.length_tail] at hlength
  omega

end Wf

end System

/-- **The invariant of a record.**  After every run the record is well formed. -/
theorem wf_of_run {initialBytes : ℕ} (hinitial : initialBytes ≤ maxJobEventBytes) {s : System}
    {as : List RecordEvent} (h : (jobRecord initialBytes).run as = some s) : s.Wf :=
  Machine.run_invariant (System.wf_new hinitial) (fun _ _ _ hs hstep => hs.step hstep) h

end Api
end HelmSsh
