/-
# The event history of a job

`JobState` and `push_event` of `src-tauri/src/api_server/jobs.rs`: the status of a
job, the events that are kept for replay and the counters that number them.  Every
operation writes through one locked section that sets the status and pushes one
event (`JobState.write`), so the module has one spec lemma for all of them.

`push_event` numbers the events from 1 with a counter that saturates at `u64::MAX`,
and drops the oldest ones while more than 1024 are kept or more than 4 MiB
(`HelmSsh.BoundedQueue`).  The ghost `appended` lists every event ever pushed.

`JobState.Wf` says what holds in every reachable state: the ids count the events,
the kept events are a suffix of all of them with their exact number of bytes, the
completion time is set exactly when the job has ended, and an ended job has one
terminal event, its last.  `JobState.Wf.write` carries it through a locked section.

Of a job's snapshot only what these functions read is modelled; the sizes of the
strings that `estimate_event_bytes` measures are given from outside (`Stamp`).
-/

import Mathlib.Algebra.GroupWithZero.Nat
import HelmSsh.Api.Jobs
import HelmSsh.BoundedQueue
import HelmSsh.Pool
import Mathlib.Order.Nat

namespace HelmSsh
namespace Api

/-- `u64::MAX`, where the ids saturate. -/
def u64Max : ℕ := 2 ^ 64 - 1

/-- `usize::MAX`, where the byte counters saturate. -/
def usizeMax : ℕ := 2 ^ 64 - 1

/-- `MAX_JOB_EVENTS`. -/
def maxJobEvents : ℕ := 1024

/-- `MAX_JOB_EVENT_BYTES`. -/
def maxJobEventBytes : ℕ := 4 * 1024 * 1024

/-- The names of the events. -/
inductive EventKind where
  | queued
  | connecting
  | running
  | stdout
  | stderr
  | canceling
  | completed
  | failed
  | timedOut
  | canceled
  deriving DecidableEq

namespace EventKind

/-- The name on the wire. -/
def name : EventKind → String
  | .queued => "queued"
  | .connecting => "connecting"
  | .running => "running"
  | .stdout => "stdout"
  | .stderr => "stderr"
  | .canceling => "canceling"
  | .completed => "completed"
  | .failed => "failed"
  | .timedOut => "timedOut"
  | .canceled => "canceled"

/-- `is_terminal_event` of `handlers_jobs.rs`. -/
def isTerminal : EventKind → Bool
  | .completed | .failed | .canceled | .timedOut => true
  | _ => false

end EventKind

/-- `JobEvent`, without its time and payload. -/
structure JobEvent where
  id : ℕ
  event : EventKind
  deriving DecidableEq

/-- `StoredJobEvent`. -/
structure StoredJobEvent where
  event : JobEvent
  bytes : ℕ
  deriving DecidableEq

/-- What a push takes from outside the record: the time, and the lengths of the
timestamp and of the serialized summary. -/
structure Stamp where
  now : ℕ
  timestampBytes : ℕ
  summaryBytes : ℕ
  deriving DecidableEq

/-- `estimate_event_bytes`. -/
def estimateEventBytes (event : EventKind) (stamp : Stamp) (dataBytesHint : Option ℕ) : ℕ :=
  saturatingAdd usizeMax
    (saturatingAdd usizeMax
      (saturatingAdd usizeMax event.name.utf8ByteSize stamp.timestampBytes)
      (dataBytesHint.getD stamp.summaryBytes))
    64

/-- `JobState`, with the events ever appended. -/
structure JobState where
  status : JobStatus
  events : List StoredJobEvent
  eventBytes : ℕ
  nextEventId : ℕ
  /-- `snapshot.last_event_id`. -/
  lastEventId : ℕ
  /-- `completed_at`, set together with `completed_at_instant`. -/
  completedAt : Option ℕ
  /-- Every event so far, the dropped ones too. -/
  appended : List JobEvent
  deriving DecidableEq

namespace JobState

/-- The state of `JobRecord::new`, with the queued event of `initialBytes` bytes.  Its
summary holds a preview of at most 120 characters and the id of a configured session, so
the callers keep it far below the bound that `push_event` applies to the later ones. -/
def new (initialBytes : ℕ) : JobState where
  status := .queued
  events := [⟨⟨1, .queued⟩, initialBytes⟩]
  eventBytes := initialBytes
  nextEventId := 2
  lastEventId := 1
  completedAt := none
  appended := [⟨1, .queued⟩]

/-- `push_event`. -/
def pushEvent (event : EventKind) (stamp : Stamp) (dataBytesHint : Option ℕ) (s : JobState) :
    JobState × JobEvent :=
  let pushed : JobEvent := ⟨s.nextEventId, event⟩
  let kept := BoundedQueue.push StoredJobEvent.bytes maxJobEvents maxJobEventBytes usizeMax
    (s.events, s.eventBytes) ⟨pushed, estimateEventBytes event stamp dataBytesHint⟩
  ({ s with
      nextEventId := saturatingAdd u64Max s.nextEventId 1
      lastEventId := s.nextEventId
      events := kept.1
      eventBytes := kept.2
      appended := s.appended ++ [pushed] },
    pushed)

/-- The locked section of an operation that writes: the status, the time of completion
if the job ends, and one event. -/
def write (status : JobStatus) (event : EventKind) (stamp : Stamp) (dataBytesHint : Option ℕ)
    (s : JobState) : JobState × JobEvent :=
  pushEvent event stamp dataBytesHint
    { s with
      status := status
      completedAt := if status.isTerminal then some stamp.now else s.completedAt }

/-- `mark_connecting`, past its checks. -/
def markConnecting (stamp : Stamp) : JobState → JobState × JobEvent :=
  write .connecting .connecting stamp none

/-- `mark_running`, past its checks. -/
def markRunning (stamp : Stamp) : JobState → JobState × JobEvent :=
  write .running .running stamp none

/-- `append_output`, past its checks. -/
def appendOutput (kind : EventKind) (textBytes : ℕ) (stamp : Stamp) (s : JobState) :
    JobState × JobEvent :=
  s.write s.status kind stamp
    (some (saturatingAdd usizeMax (min (textBytes * 7) usizeMax) 128))

/-- The event name of a result. -/
def resultEvent (result : ExecResult) : EventKind :=
  if result.timedOut then .timedOut
  else if result.exitStatus = some 0 then .completed
  else .failed

/-- `finish_result`, past its checks. -/
def finishResult (result : ExecResult) (stamp : Stamp) : JobState → JobState × JobEvent :=
  write (JobRecord.resultStatus result) (resultEvent result) stamp none

/-- `finish_error`, past its checks. -/
def finishError (stamp : Stamp) : JobState → JobState × JobEvent :=
  write .failed .failed stamp none

/-- `request_cancel`, past its check and up to the release of the lock. -/
def beginCancel (stamp : Stamp) : JobState → JobState × JobEvent :=
  write .canceling .canceling stamp none

/-- `finish_canceled`, past its check. -/
def finishCanceled (stamp : Stamp) : JobState → JobState × JobEvent :=
  write .canceled .canceled stamp none

/-! ### What a locked section does -/

section Write

variable (status : JobStatus) (event : EventKind) (stamp : Stamp) (hint : Option ℕ) (s : JobState)

@[simp] theorem write_status : (s.write status event stamp hint).1.status = status := rfl

@[simp] theorem write_event : (s.write status event stamp hint).2 = ⟨s.nextEventId, event⟩ := rfl

@[simp] theorem write_lastEventId :
    (s.write status event stamp hint).1.lastEventId = s.nextEventId := rfl

@[simp] theorem write_nextEventId :
    (s.write status event stamp hint).1.nextEventId = saturatingAdd u64Max s.nextEventId 1 := rfl

@[simp] theorem write_appended :
    (s.write status event stamp hint).1.appended = s.appended ++ [⟨s.nextEventId, event⟩] := rfl

@[simp] theorem write_completedAt : (s.write status event stamp hint).1.completedAt =
    if status.isTerminal then some stamp.now else s.completedAt := rfl

end Write

theorem resultEvent_terminal (result : ExecResult) :
    (resultEvent result).isTerminal = true := by
  unfold resultEvent
  split_ifs <;> rfl

/-! ### What holds in every reachable state -/

/-- The history of a job is well formed. -/
structure Wf (s : JobState) : Prop where
  /-- The events are numbered from 1. -/
  ids : ∀ (k : ℕ) (e : JobEvent), s.appended[k]? = some e → e.id = min (k + 1) u64Max
  nextEventId_eq : s.nextEventId = min (s.appended.length + 1) u64Max
  lastEventId_eq : s.lastEventId = min s.appended.length u64Max
  /-- What is kept for replay is the newest part. -/
  kept : s.events.map StoredJobEvent.event <:+ s.appended
  bounded : BoundedQueue.Bounded StoredJobEvent.bytes maxJobEvents maxJobEventBytes
    (s.events, s.eventBytes)
  completedAt_isSome : s.completedAt.isSome = s.status.isTerminal
  /-- Only the last event can be terminal, and it is when the job has ended. -/
  outcome : ∃ before last, s.appended = before ++ [last] ∧
    (∀ e ∈ before, e.event.isTerminal = false) ∧ last.event.isTerminal = s.status.isTerminal

theorem wf_new {initialBytes : ℕ} (h : initialBytes ≤ maxJobEventBytes) :
    (new initialBytes).Wf := by
  refine ⟨fun k e he => ?_, rfl, rfl, List.suffix_rfl, ⟨?_, ?_, h⟩, rfl,
    [], ⟨1, .queued⟩, rfl, fun e he => absurd he List.not_mem_nil, rfl⟩
  · cases k with
    | zero =>
      obtain rfl := Option.some.inj he
      rfl
    | succ k => cases he
  · simp [new]
  · simp [new, maxJobEvents]

namespace Wf

variable {s : JobState} (h : s.Wf)
include h

theorem appended_pos : 0 < s.appended.length := by
  obtain ⟨before, last, hlast, -, -⟩ := h.outcome
  rw [hlast, List.length_append, List.length_singleton]
  omega

theorem not_terminal (hactive : s.status.isTerminal = false) {e : JobEvent}
    (he : e ∈ s.appended) : e.event.isTerminal = false := by
  obtain ⟨before, last, hsplit, hbefore, hlast⟩ := h.outcome
  rw [hsplit, List.mem_append, List.mem_singleton] at he
  rcases he with he | rfl
  · exact hbefore e he
  · rw [hlast, hactive]

theorem id_eq (hsize : s.appended.length ≤ u64Max) {k : ℕ} {e : JobEvent}
    (he : s.appended[k]? = some e) : e.id = k + 1 := by
  obtain ⟨hlt, -⟩ := List.getElem?_eq_some_iff.mp he
  rw [h.ids k e he]
  omega

theorem length_eq (hlast : s.lastEventId < u64Max) : s.appended.length = s.lastEventId := by
  have heq := h.lastEventId_eq
  omega

/-- **The kept ids are contiguous and end with the last one.** -/
theorem kept_ids (hlast : s.lastEventId < u64Max) :
    s.events.map (fun stored => stored.event.id) =
        List.range' (s.nextEventId - s.events.length) s.events.length ∧
      s.nextEventId - 1 = s.lastEventId := by
  have hlength := h.length_eq hlast
  have hnext := h.nextEventId_eq
  obtain ⟨front, hfront⟩ := h.kept
  have hcount := congrArg List.length hfront
  rw [List.length_append, List.length_map] at hcount
  refine ⟨List.ext_getElem? fun k => ?_, by omega⟩
  rw [List.getElem?_map]
  cases hk : s.events[k]? with
  | none =>
    rw [List.getElem?_eq_none_iff] at hk
    simpa using hk
  | some stored =>
    obtain ⟨hlt, -⟩ := List.getElem?_eq_some_iff.mp hk
    have hget : s.appended[front.length + k]? = some stored.event := by
      rw [← hfront, List.getElem?_append_right (by omega)]
      simp [hk]
    rw [Option.map_some, List.getElem?_range' hlt, h.id_eq (by omega) hget]
    congr 1
    omega

theorem id_le {e : JobEvent} (he : e ∈ s.appended) : e.id ≤ s.lastEventId := by
  obtain ⟨k, hk⟩ := List.mem_iff_getElem?.mp he
  obtain ⟨hlt, -⟩ := List.getElem?_eq_some_iff.mp hk
  rw [h.ids k e hk, h.lastEventId_eq]
  omega

/-- **The spec of a locked section.**  Writing a status and the event that goes with it
keeps the history of a job that has not ended well formed. -/
theorem write (hactive : s.status.isTerminal = false) {status : JobStatus} {event : EventKind}
    (hevent : event.isTerminal = status.isTerminal) (stamp : Stamp) (hint : Option ℕ) :
    (s.write status event stamp hint).1.Wf := by
  refine ⟨fun k e he => ?_, ?_, ?_, ?_, ?_, ?_, ?_⟩
  · rw [write_appended] at he
    rcases Pool.getElem?_add he with ⟨rfl, rfl⟩ | he
    · exact h.nextEventId_eq
    · exact h.ids k e he
  · rw [write_nextEventId, write_appended, h.nextEventId_eq, saturatingAdd, List.length_append,
      List.length_singleton]
    omega
  · rw [write_lastEventId, write_appended, h.nextEventId_eq, List.length_append,
      List.length_singleton]
  · have hsuffix := (@BoundedQueue.push_suffix _ StoredJobEvent.bytes maxJobEvents
      maxJobEventBytes usizeMax (s.events, s.eventBytes)
      ⟨⟨s.nextEventId, event⟩, estimateEventBytes event stamp hint⟩).map StoredJobEvent.event
    rw [List.map_append] at hsuffix
    obtain ⟨front, hfront⟩ := h.kept
    refine hsuffix.trans ⟨front, ?_⟩
    rw [write_appended, ← hfront, List.append_assoc]
    rfl
  · exact h.bounded.push (by decide) _
  · rw [write_completedAt, write_status]
    split_ifs with hterminal
    · exact hterminal.symm
    · rw [h.completedAt_isSome, hactive]
      exact (Bool.eq_false_iff.mpr hterminal).symm
  · exact ⟨s.appended, ⟨s.nextEventId, event⟩, rfl, fun e => h.not_terminal hactive, hevent⟩

end Wf

theorem Wf.write_kept {s : JobState} (h : s.Wf) {status : JobStatus} {event : EventKind}
    {stamp : Stamp} {hint : Option ℕ}
    (hsize : estimateEventBytes event stamp hint ≤ maxJobEventBytes) :
    (s.write status event stamp hint).1.events ≠ [] :=
  h.bounded.push_ne_nil (by decide) (by decide) hsize

end JobState

end Api
end HelmSsh
