/-
# Job records of the API server

`JobRecord` and `JobStatus` of `src-tauri/src/api_server/jobs.rs`: the status of
one API job, its cancel signal and the handle of its task.  Each operation takes
the record's state lock once and is one function here; `request_cancel` sets the
cancel signal right after it released the lock, which no operation can tell from
setting it before, since all of them read the status `Canceling` as a request too.

A job has ended when its status is terminal.  Ended jobs stay as they are
(`requestCancel_of_terminal` and its companions), and each operation that ends a
job's task leaves a terminal status (`finishResult_terminal` and companions).
-/

import Mathlib.Tactic.Common

namespace HelmSsh
namespace Api

/-- `JobStatus`. -/
inductive JobStatus where
  | queued
  | connecting
  | running
  | canceling
  | completed
  | failed
  | canceled
  | timedOut
  deriving DecidableEq

namespace JobStatus

/-- `JobStatus::is_terminal`. -/
def isTerminal : JobStatus → Bool
  | .completed | .failed | .canceled | .timedOut => true
  | _ => false

/-- `JobStatus::is_active`. -/
def isActive (status : JobStatus) : Bool :=
  !status.isTerminal

end JobStatus

/-- What `finish_result` reads of an `ExecResult`. -/
structure ExecResult where
  exitStatus : Option ℕ
  timedOut : Bool
  deriving DecidableEq

/-- `JobRecord`: the job's session and status, its cancel signal, and the task
whose handle is attached to it. -/
structure JobRecord where
  sessionId : String
  status : JobStatus
  cancelRequested : Bool
  handle : Option ℕ
  deriving DecidableEq

namespace JobRecord

/-- `JobRecord::new`. -/
def new (sessionId : String) : JobRecord :=
  { sessionId := sessionId, status := .queued, cancelRequested := false, handle := none }

/-- A cancel was requested, by the signal or by the status. -/
def canceled (r : JobRecord) : Bool :=
  r.cancelRequested || r.status = .canceling

/-- `request_cancel`, with the value it returns. -/
def requestCancel (r : JobRecord) : JobRecord × Bool :=
  if r.status.isTerminal ∨ r.status = .canceling then (r, false)
  else ({ r with status := .canceling, cancelRequested := true }, true)

/-- `finish_canceled`. -/
def finishCanceled (r : JobRecord) : JobRecord :=
  if r.status.isTerminal then r else { r with status := .canceled }

/-- The common part of `mark_connecting` and `mark_running`. -/
def mark (status : JobStatus) (r : JobRecord) : JobRecord × Bool :=
  if r.canceled then (r.finishCanceled, false)
  else if r.status.isTerminal then (r, false)
  else ({ r with status := status }, true)

/-- `mark_connecting`. -/
def markConnecting : JobRecord → JobRecord × Bool :=
  mark .connecting

/-- `mark_running`. -/
def markRunning : JobRecord → JobRecord × Bool :=
  mark .running

/-- The common part of `finish_result` and `finish_error`. -/
def finishWith (status : JobStatus) (r : JobRecord) : JobRecord :=
  if r.canceled then r.finishCanceled
  else if r.status.isTerminal then r
  else { r with status := status }

/-- The status of a result. -/
def resultStatus (result : ExecResult) : JobStatus :=
  if result.timedOut then .timedOut
  else if result.exitStatus = some 0 then .completed
  else .failed

/-- `finish_result`. -/
def finishResult (result : ExecResult) : JobRecord → JobRecord :=
  finishWith (resultStatus result)

/-- `finish_error`. -/
def finishError : JobRecord → JobRecord :=
  finishWith .failed

/-- `append_output` of a text that is not empty; the output itself is left out. -/
def appendOutput (r : JobRecord) : JobRecord :=
  if r.canceled then r.finishCanceled else r

/-! ### Ending a job -/

theorem finishCanceled_terminal (r : JobRecord) : r.finishCanceled.status.isTerminal = true := by
  unfold finishCanceled
  split_ifs with h
  · exact h
  · rfl

/-- `finish_result` and `finish_error` end the job, whatever was requested. -/
theorem finishWith_terminal {status : JobStatus} (hstatus : status.isTerminal = true)
    (r : JobRecord) : (r.finishWith status).status.isTerminal = true := by
  unfold finishWith
  split_ifs with hcancel hterm
  · exact r.finishCanceled_terminal
  · exact hterm
  · exact hstatus

theorem resultStatus_terminal (result : ExecResult) :
    (resultStatus result).isTerminal = true := by
  unfold resultStatus
  split_ifs <;> rfl

theorem finishResult_terminal (result : ExecResult) (r : JobRecord) :
    (r.finishResult result).status.isTerminal = true :=
  finishWith_terminal (resultStatus_terminal result) r

theorem finishError_terminal (r : JobRecord) : r.finishError.status.isTerminal = true :=
  finishWith_terminal rfl r

theorem mark_false_terminal {status : JobStatus} {r : JobRecord}
    (h : (r.mark status).2 = false) : (r.mark status).1.status.isTerminal = true := by
  unfold mark at h ⊢
  split_ifs at h ⊢ with hcancel hterm
  · exact r.finishCanceled_terminal
  · exact hterm

theorem mark_false_of_canceled {status : JobStatus} {r : JobRecord}
    (h : r.canceled = true ∨ r.status.isTerminal = true) : (r.mark status).2 = false := by
  unfold mark
  rcases h with h | h
  · rw [if_pos h]
  · split_ifs <;> rfl

/-! ### What no operation undoes -/

/-- A record after some operations: the same session and handle, ended if it was
ended, and with the cancel request it had. -/
structure Extends (r r' : JobRecord) : Prop where
  sessionId_eq : r'.sessionId = r.sessionId
  handle_eq : r'.handle = r.handle
  terminal : r.status.isTerminal = true → r'.status = r.status
  canceled : r.canceled = true → r'.canceled = true ∨ r'.status.isTerminal = true

theorem Extends.refl (r : JobRecord) : r.Extends r :=
  ⟨rfl, rfl, fun _ => rfl, .inl⟩

theorem Extends.trans {r r' r'' : JobRecord} (h : r.Extends r') (h' : r'.Extends r'') :
    r.Extends r'' := by
  refine ⟨h'.sessionId_eq.trans h.sessionId_eq, h'.handle_eq.trans h.handle_eq,
    fun hterminal => ?_, fun hcanceled => ?_⟩
  · have hsame := h.terminal hterminal
    exact (h'.terminal (by rwa [hsame])).trans hsame
  · rcases h.canceled hcanceled with hstill | hended
    · exact h'.canceled hstill
    · exact .inr (by rwa [h'.terminal hended])

theorem extends_finishCanceled (r : JobRecord) : r.Extends r.finishCanceled := by
  refine ⟨?_, ?_, fun h => ?_, fun _ => .inr r.finishCanceled_terminal⟩
  · unfold finishCanceled
    split_ifs <;> rfl
  · unfold finishCanceled
    split_ifs <;> rfl
  · unfold finishCanceled
    rw [if_pos h]

theorem extends_finishWith {status : JobStatus} (hstatus : status.isTerminal = true)
    (r : JobRecord) : r.Extends (r.finishWith status) := by
  refine ⟨?_, ?_, fun h => ?_, fun _ => .inr (finishWith_terminal hstatus r)⟩
  · unfold finishWith
    split_ifs
    · exact r.extends_finishCanceled.sessionId_eq
    · rfl
    · rfl
  · unfold finishWith
    split_ifs
    · exact r.extends_finishCanceled.handle_eq
    · rfl
    · rfl
  · unfold finishWith
    split_ifs
    · exact r.extends_finishCanceled.terminal h
    · rfl

theorem extends_finishResult (result : ExecResult) (r : JobRecord) :
    r.Extends (r.finishResult result) :=
  extends_finishWith (resultStatus_terminal result) r

theorem extends_finishError (r : JobRecord) : r.Extends r.finishError :=
  extends_finishWith rfl r

theorem extends_mark (status : JobStatus) (r : JobRecord) : r.Extends (r.mark status).1 := by
  unfold mark
  split_ifs with hcancel hterm
  · exact r.extends_finishCanceled
  · exact .refl r
  · exact ⟨rfl, rfl, fun h => (hterm h).elim, fun h => (hcancel h).elim⟩

theorem extends_appendOutput (r : JobRecord) : r.Extends r.appendOutput := by
  unfold appendOutput
  split_ifs
  · exact r.extends_finishCanceled
  · exact .refl r

theorem extends_requestCancel (r : JobRecord) : r.Extends r.requestCancel.1 := by
  unfold requestCancel
  split_ifs with h
  · exact .refl r
  · rw [not_or] at h
    exact ⟨rfl, rfl, fun hterm => (h.1 hterm).elim, fun _ => .inl rfl⟩

end JobRecord

end Api
end HelmSsh
