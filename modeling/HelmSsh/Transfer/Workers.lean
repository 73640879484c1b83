/-
# The workers of a parallel transfer

`run_parallel_upload` and `run_parallel_download` of `src-tauri/src/remote/transfer.rs`, with the
loop of `copy_n_async_inner` that each worker runs on its part.  The destination is opened and
emptied (a download gives it its full length); then the workers run, and stop at the awaits of
their loops in any order; the first error by the index of the part is returned, after the file
has been cut to `contiguous_parallel_prefix`.

A write is issued by `write_all` and counted then; it takes effect later, whole or in pieces, or
is lost.  The end of an upload worker waits for all its writes (`shutdown`), and so does the
flush of a download worker.  The progress of the transfer and its log are left out.

* `Inv.step` — each step keeps what is counted reached: it is in the file, or a write has it.
* `parallel_transfer_identity` — the ranges of the parts follow one another over the whole file, and
  when every worker returns `Ok` the destination is the source.
-/

import HelmSsh.ByteFile
import HelmSsh.Errors
import HelmSsh.Machine
import HelmSsh.Pool
import HelmSsh.Transfer.Parts

namespace HelmSsh
namespace Transfer
namespace Workers

open ByteFile

/-- The bytes of a file. -/
abbrev Bytes := List UInt8

/-- Why a worker ends early: an error that it met itself, or the cancel flag. -/
inductive PartError where
  | met (error : AppError)
  | canceled
  deriving DecidableEq

/-- The error that is returned for it. -/
def PartError.error : PartError → AppError
  | .met error => error
  | .canceled => .remote "传输已取消"

/-- What a worker does before it copies. -/
inductive Setup where
  | openSource
  | seekSource
  | setReadLimit
  | openDestination
  | seekDestination
  deriving DecidableEq

/-- The steps before the copy: a part at the start of the file is not sought. -/
def setup (direction : Direction) (start : ℕ) : List Setup :=
  let seek (step : Setup) : List Setup := if 0 < start then [step] else []
  match direction with
  | .upload => .openSource :: (seek .seekSource ++ .openDestination :: seek .seekDestination)
  | .download =>
    .openSource :: (seek .seekSource ++ .setReadLimit :: .openDestination :: seek .seekDestination)

/-- Where a worker is. -/
inductive WorkerPhase where
  | preparing (todo : List Setup)
  /-- At the head of the loop. -/
  | checking
  /-- In `wait_while_paused`, before the read or, with the bytes, before the write. -/
  | pausing (data : Option Bytes) (slept : Bool)
  | reading
  | writing (data : Bytes)
  | flushing
  | closing
  | ended (result : Except PartError Unit)
  deriving DecidableEq

/-- A worker with its part. -/
structure Worker where
  part : Part
  phase : WorkerPhase
  deriving DecidableEq

/-- `remaining`. -/
def Worker.remaining (w : Worker) : ℕ :=
  w.part.len - w.part.counted

/-- What a worker does next: it looks at the flags, its operation is done, a read brings bytes or
the end of the file, or its operation fails, a write after some of its bytes were issued. -/
inductive Move where
  | look
  | done
  | read (bytes : ℕ)
  | eof
  | fail (error : AppError) (issued : ℕ)
  deriving DecidableEq

/-- A write that was issued. -/
structure Write where
  worker : ℕ
  offset : ℕ
  data : Bytes
  deriving DecidableEq

/-- The error that the transfer returns: that of a part, or one of its own steps before or after
the workers. -/
inductive Failure where
  | part (index : ℕ) (error : PartError)
  | own (error : AppError)
  deriving DecidableEq

/-- The error that is returned. -/
def Failure.error : Failure → AppError
  | .part _ error => error.error
  | .own error => error

/-- Where the transfer is. -/
inductive Phase where
  | opening
  | copying
  | truncating (index : ℕ) (error : PartError)
  | removing (index : ℕ) (error : PartError)
  | syncing
  | verifying
  | returned (result : Except Failure Unit)
  deriving DecidableEq

/-- The transfer. -/
structure State where
  cancel : Bool
  paused : Bool
  file : Option Bytes
  workers : List Worker
  pending : List Write
  lost : List Write
  phase : Phase
  /-- The length to which the file was cut. -/
  truncated : Option ℕ
  deriving DecidableEq

/-- The steps of the transfer, and what happens around it. -/
inductive Event where
  | opened
  | openFails (error : AppError)
  | worker (i : ℕ) (move : Move)
  | cancel
  | pause (paused : Bool)
  | perform (j : ℕ)
  | lose (j : ℕ)
  | split (j bytes : ℕ)
  | join
  | truncate
  | truncateFails
  | remove (removed : Bool)
  | sync
  | verify
  | finalFails (error : AppError)
  deriving DecidableEq

namespace State

/-- The `i`-th worker goes on. -/
def goTo (s : State) (i : ℕ) (w : Worker) (phase : WorkerPhase) : State :=
  { s with workers := s.workers.set i { w with phase } }

/-- The `i`-th worker ends with an error and sets the cancel flag. -/
def failWorker (s : State) (i : ℕ) (w : Worker) (error : PartError) : State :=
  { s.goTo i w (.ended (.error error)) with cancel := true }

/-- A worker issues a write, if there is something to write. -/
def issue (s : State) (i : ℕ) (w : Worker) (data : Bytes) : State :=
  { s with
    pending := s.pending ++
      if data = [] then [] else [⟨i, w.part.start + w.part.counted, data⟩] }

/-- A worker counts the bytes of a write. -/
def count (s : State) (i : ℕ) (w : Worker) (bytes : ℕ) : State :=
  { s with
    workers := s.workers.set i
      { part := { w.part with
          position := w.part.position + bytes
          counted := w.part.counted + bytes }
        phase := .checking } }

/-- All writes of a worker have taken effect. -/
def Flushed (s : State) (i : ℕ) : Prop :=
  ∀ write ∈ s.pending ++ s.lost, write.worker ≠ i

instance (s : State) (i : ℕ) : Decidable (s.Flushed i) :=
  inferInstanceAs (Decidable (∀ write ∈ s.pending ++ s.lost, write.worker ≠ i))

end State

section Machine

variable (direction : Direction) (source : Bytes) (bufferSize : ℕ)

/-- A step of a worker. -/
def workerStep (s : State) (i : ℕ) (w : Worker) (move : Move) : Option State :=
  match w.phase, move with
  | .preparing [_], .done => some (s.goTo i w .checking)
  | .preparing (_ :: todo), .done => some (s.goTo i w (.preparing todo))
  | .preparing _, .fail error _ => some (s.failWorker i w (.met error))
  | .checking, .look =>
    if w.remaining = 0 then
      some (s.goTo i w (match direction with | .upload => .closing | .download => .flushing))
    else if s.cancel then some (s.failWorker i w .canceled)
    else some (s.goTo i w (.pausing none false))
  | .pausing data slept, .look =>
    if slept && s.cancel then some (s.failWorker i w .canceled)
    else if s.paused then some (s.goTo i w (.pausing data true))
    else some (s.goTo i w (data.elim .reading .writing))
  | .reading, .read bytes =>
    if 0 < bytes ∧ bytes ≤ min w.remaining bufferSize then
      some (s.goTo i w (.pausing
        (some ((source.drop (w.part.start + w.part.counted)).take bytes)) false))
    else none
  | .reading, .eof =>
    some (s.failWorker i w (.met (.remote s!"远端文件提前结束：还差 {w.remaining} 字节")))
  | .reading, .fail error _ => some (s.failWorker i w (.met error))
  | .writing data, .done => some ((s.issue i w data).count i w data.length)
  | .writing data, .fail error issued =>
    some ((s.issue i w (data.take issued)).failWorker i w (.met error))
  | .flushing, .done => if s.Flushed i then some (s.goTo i w .closing) else none
  | .flushing, .fail error _ => some (s.failWorker i w (.met error))
  | .closing, .done =>
    if direction = .download ∨ s.Flushed i then some (s.goTo i w (.ended (.ok ()))) else none
  | .closing, .fail error _ => some (s.failWorker i w (.met error))
  | _, _ => none

/-- The empty destination: a download gives it its length. -/
def emptied : Bytes :=
  match direction with
  | .upload => []
  | .download => setLen 0 [] source.length

/-- The workers have returned. -/
def joined (s : State) : Bool :=
  s.workers.all fun w => match w.phase with
    | .ended _ => true
    | _ => false

/-- The error of a worker. -/
def Worker.failed (w : Worker) : Option PartError :=
  match w.phase with
  | .ended (.error error) => some error
  | _ => none

/-- `first_error`: the first in the order of the parts. -/
def firstError (workers : List Worker) : Option (ℕ × PartError) :=
  workers.zipIdx.findSome? fun entry => entry.1.failed.map fun error => (entry.2, error)

/-- `contiguous_parallel_prefix` of the counters. -/
def resumablePrefix (s : State) : ℕ :=
  contiguousParallelPrefix (s.workers.map Worker.part)

/-- A step of the transfer itself. -/
def mainStep (s : State) : Phase → Event → Option State
  | .opening, .opened => some { s with file := some (emptied direction source), phase := .copying }
  | .opening, .openFails error => some { s with phase := .returned (.error (.own error)) }
  | .copying, .worker i move => s.workers[i]?.bind fun w =>
    workerStep direction source bufferSize s i w move
  | .copying, .join =>
    if joined s then
      some { s with phase := match firstError s.workers with
        | some (index, error) => .truncating index error
        | none => match direction with
          | .upload => .syncing
          | .download => .returned (.ok ()) }
    else none
  | .truncating index error, .truncate =>
    some { s with
      file := s.file.map fun file => setLen 0 file (resumablePrefix s)
      truncated := some (resumablePrefix s)
      phase := .returned (.error (.part index error)) }
  | .truncating index error, .truncateFails => some { s with phase := .removing index error }
  | .removing index error, .remove removed =>
    some { s with
      file := if removed then none else s.file
      phase := .returned (.error (.part index error)) }
  | .syncing, .sync => some { s with phase := .verifying }
  | .syncing, .finalFails error => some { s with phase := .returned (.error (.own error)) }
  | .verifying, .verify => s.file.map fun file =>
    if file.length = source.length then { s with phase := .returned (.ok ()) }
    else { s with phase := .returned (.error (.own (.remote
      s!"并行上传校验失败：远端大小 {file.length} 字节，本地大小 {source.length} 字节"))) }
  | .verifying, .finalFails error => some { s with phase := .returned (.error (.own error)) }
  | _, _ => none

/-- The effect of an event. -/
def step (s : State) : Event → Option State
  | .cancel => some { s with cancel := true }
  | .pause paused => some { s with paused }
  | .perform j => s.pending[j]?.map fun write =>
    { s with
      file := s.file.map fun file => writeAt 0 file write.offset write.data
      pending := s.pending.eraseIdx j }
  | .lose j => s.pending[j]?.map fun write =>
    { s with pending := s.pending.eraseIdx j, lost := write :: s.lost }
  | .split j bytes => s.pending[j]?.bind fun write =>
    if 0 < bytes ∧ bytes < write.data.length then
      some { s with
        pending := s.pending.set j { write with data := write.data.take bytes } ++
          [{ write with offset := write.offset + bytes, data := write.data.drop bytes }] }
    else none
  | event => mainStep direction source bufferSize s s.phase event

/-- The workers before they start. -/
def newWorkers (parts : ℕ) : List Worker :=
  (parallelParts source.length parts).map fun part =>
    { part, phase := .preparing (setup direction part.start) }

/-- A parallel transfer. -/
def transfer (parts : ℕ) : Machine State Event where
  init :=
    { cancel := false, paused := false, file := none
      workers := newWorkers direction source parts
      pending := [], lost := [], phase := .opening, truncated := none }
  step := step direction source bufferSize

/-! ### What a worker does in one step -/

/-- The bytes that a worker has read and not yet written. -/
def Worker.held (w : Worker) : Option Bytes :=
  match w.phase with
  | .pausing data _ => data
  | .writing data => some data
  | _ => none

/-- The loop of a worker is over. -/
def Worker.Finished (w : Worker) : Prop :=
  w.phase = .flushing ∨ w.phase = .closing ∨ w.phase = .ended (.ok ())

/-- A worker counts at most its part, holds a piece of the source that comes next, and ends its
loop when it has counted its part. -/
structure WorkerOk (w : Worker) : Prop where
  counted_le : w.part.counted ≤ w.part.len
  held : ∀ data, w.held = some data →
    Piece source (w.part.start + w.part.counted) data ∧
      w.part.counted + data.length ≤ w.part.len
  finished : w.Finished → w.part.counted = w.part.len

/-- The writes of such a worker have all taken effect. -/
def Quiet (w : Worker) : Prop :=
  w.phase = .ended (.ok ()) ∨ direction = .download ∧ w.phase = .closing

/-- The writes that a worker issues in one step: none, or one that covers what it counts. -/
def Issues (i : ℕ) (w w' : Worker) (issued : List Write) : Prop :=
  (issued = [] ∧ w'.part.counted = w.part.counted) ∨
    ∃ data, issued = [⟨i, w.part.start + w.part.counted, data⟩] ∧
      Piece source (w.part.start + w.part.counted) data ∧
      (w'.part.counted = w.part.counted ∨ w'.part.counted = w.part.counted + data.length)

/-- What a worker can have become after one step, with the writes that it issued. -/
structure Moved (s : State) (i : ℕ) (w w' : Worker) (issued : List Write) (cancel : Bool) :
    Prop where
  running : ∀ result, w.phase ≠ .ended result
  start_eq : w'.part.start = w.part.start
  len_eq : w'.part.len = w.part.len
  ok : WorkerOk source w'
  issues : Issues source i w w' issued
  quiet : Quiet direction w' → s.Flushed i ∧ issued = []
  cancels : cancel = s.cancel ∨ ∃ error, w'.phase = .ended (.error error)
  canceled : w'.phase = .ended (.error .canceled) → s.cancel = true

variable {direction source bufferSize}

variable {s s' : State} {event : Event}

/-- The part of a worker stays when only its phase changes. -/
theorem moved_goTo {i : ℕ} {w : Worker} {phase : WorkerPhase} {cancel : Bool}
    (hok : WorkerOk source w) (hrunning : ∀ result, w.phase ≠ .ended result)
    (hheld : ∀ data, Worker.held { w with phase } = some data →
      Piece source (w.part.start + w.part.counted) data ∧
        w.part.counted + data.length ≤ w.part.len)
    (hfinished : Worker.Finished { w with phase } → w.part.counted = w.part.len)
    (hquiet : Quiet direction { w with phase } → s.Flushed i)
    (hcancel : cancel = s.cancel ∨ ∃ error, phase = .ended (.error error))
    (hcanceled : phase = .ended (.error .canceled) → s.cancel = true) :
    Moved direction source s i w { w with phase } [] cancel where
  running := hrunning
  start_eq := rfl
  len_eq := rfl
  ok := ⟨hok.counted_le, hheld, hfinished⟩
  issues := .inl ⟨rfl, rfl⟩
  quiet := fun h => ⟨hquiet h, rfl⟩
  cancels := hcancel
  canceled := hcanceled

theorem moved_fail {i : ℕ} {w : Worker} {error : PartError}
    (hok : WorkerOk source w) (hrunning : ∀ result, w.phase ≠ .ended result)
    (hcanceled : error = .canceled → s.cancel = true) :
    Moved direction source s i w { w with phase := .ended (.error error) } [] true := by
  refine moved_goTo hok hrunning ?_ ?_ ?_ (.inr ⟨error, rfl⟩) ?_
  · intro data hdata
    cases hdata
  · rintro (h | h | h) <;> cases h
  · rintro (h | ⟨-, h⟩) <;> cases h
  · intro h
    cases h
    exact hcanceled rfl

/-- A worker that goes on to a phase in which it holds nothing and its loop is not over. -/
theorem moved_on {i : ℕ} {w : Worker} {phase : WorkerPhase}
    (hok : WorkerOk source w) (hrunning : ∀ result, w.phase ≠ .ended result)
    (hphase : (∃ todo, phase = .preparing todo) ∨ phase = .checking ∨ phase = .reading ∨
      ∃ slept, phase = .pausing none slept) :
    Moved direction source s i w { w with phase } [] s.cancel := by
  refine moved_goTo hok hrunning ?_ ?_ ?_ (.inl rfl) ?_
  · intro data hdata
    rcases hphase with ⟨todo, rfl⟩ | rfl | rfl | ⟨slept, rfl⟩ <;> cases hdata
  · rintro (h | h | h) <;> rcases hphase with ⟨todo, rfl⟩ | rfl | rfl | ⟨slept, rfl⟩ <;> cases h
  · rintro (h | ⟨-, h⟩) <;> rcases hphase with ⟨todo, rfl⟩ | rfl | rfl | ⟨slept, rfl⟩ <;> cases h
  · intro h
    rcases hphase with ⟨todo, rfl⟩ | rfl | rfl | ⟨slept, rfl⟩ <;> cases h


theorem issues_of {i : ℕ} {w w' : Worker} {data : Bytes}
    (hpiece : Piece source (w.part.start + w.part.counted) data)
    (hcounted : w'.part.counted = w.part.counted ∨
      w'.part.counted = w.part.counted + data.length)
    (hempty : data = [] → w'.part.counted = w.part.counted) :
    Issues source i w w'
      (if data = [] then [] else [⟨i, w.part.start + w.part.counted, data⟩]) := by
  by_cases hdata : data = []
  · rw [if_pos hdata]
    exact .inl ⟨rfl, hempty hdata⟩
  · rw [if_neg hdata]
    exact .inr ⟨data, rfl, hpiece, hcounted⟩

/-- **A step of a worker** changes the worker, the writes that it issued and the flag. -/
theorem workerStep_spec {i : ℕ} {w : Worker} {move : Move}
    (hok : WorkerOk source w) (hlen : w.part.start + w.part.len ≤ source.length)
    (hquiet : Quiet direction w → s.Flushed i)
    (h : workerStep direction source bufferSize s i w move = some s') :
    ∃ w' issued cancel,
      s' = { s with cancel, workers := s.workers.set i w', pending := s.pending ++ issued } ∧
      Moved direction source s i w w' issued cancel := by
  have hgo : ∀ phase, s' = s.goTo i w phase →
      Moved direction source s i w { w with phase } [] s.cancel →
      ∃ w' issued cancel,
        s' = { s with cancel, workers := s.workers.set i w', pending := s.pending ++ issued } ∧
        Moved direction source s i w w' issued cancel := by
    intro phase heq hmoved
    refine ⟨_, [], s.cancel, ?_, hmoved⟩
    rw [heq, State.goTo, List.append_nil]
  have hfail : ∀ error, s' = s.failWorker i w error → (∀ result, w.phase ≠ .ended result) →
      (error = .canceled → s.cancel = true) →
      ∃ w' issued cancel,
        s' = { s with cancel, workers := s.workers.set i w', pending := s.pending ++ issued } ∧
        Moved direction source s i w w' issued cancel := by
    intro error heq hrunning hcanceled
    refine ⟨_, [], true, ?_, moved_fail hok hrunning hcanceled⟩
    rw [heq, State.failWorker, State.goTo, List.append_nil]
  unfold workerStep at h
  split at h
  case h_1 hphase =>
    refine hgo .checking (Option.some.inj h).symm (moved_on hok (by simp [hphase]) ?_)
    exact .inr (.inl rfl)
  case h_2 hphase =>
    refine hgo _ (Option.some.inj h).symm (moved_on hok (by simp [hphase]) ?_)
    exact .inl ⟨_, rfl⟩
  case h_3 error _ hphase | h_8 error _ hphase | h_12 error _ hphase | h_14 error _ hphase =>
    exact hfail (.met error) (Option.some.inj h).symm (by simp [hphase]) nofun
  case h_4 hphase =>
    have hrunning : ∀ result, w.phase ≠ .ended result := by simp [hphase]
    split at h
    case isTrue hremaining =>
      have hcounted : w.part.counted = w.part.len := by
        have := hok.counted_le
        rw [Worker.remaining] at hremaining
        omega
      cases direction with
      | upload =>
        refine hgo .closing (Option.some.inj h).symm ?_
        refine moved_goTo hok hrunning nofun (fun _ => hcounted) ?_ (.inl rfl) nofun
        rintro (hend | ⟨hdown, -⟩)
        · cases hend
        · cases hdown
      | download =>
        refine hgo .flushing (Option.some.inj h).symm ?_
        refine moved_goTo hok hrunning nofun (fun _ => hcounted) ?_ (.inl rfl) nofun
        rintro (hend | ⟨-, hclosing⟩)
        · cases hend
        · cases hclosing
    case isFalse =>
      split at h
      case isTrue hcancel =>
        exact hfail .canceled (Option.some.inj h).symm hrunning fun _ => hcancel
      case isFalse =>
        refine hgo (.pausing none false) (Option.some.inj h).symm (moved_on hok hrunning ?_)
        exact .inr (.inr (.inr ⟨false, rfl⟩))
  case h_5 data slept hphase =>
    have hrunning : ∀ result, w.phase ≠ .ended result := by simp [hphase]
    have hdata : w.held = data := by simp [Worker.held, hphase]
    split at h
    case isTrue hcancel =>
      rw [Bool.and_eq_true] at hcancel
      exact hfail .canceled (Option.some.inj h).symm hrunning fun _ => hcancel.2
    case isFalse =>
      split at h
      case isTrue =>
        refine hgo (.pausing data true) (Option.some.inj h).symm ?_
        refine moved_goTo hok hrunning ?_ (by rintro (h | h | h) <;> cases h)
          (by rintro (h | ⟨-, h⟩) <;> cases h) (.inl rfl) nofun
        exact fun piece hpiece => hok.held piece (hdata.trans hpiece)
      case isFalse =>
        cases data with
        | none =>
          refine hgo .reading (Option.some.inj h).symm (moved_on hok hrunning ?_)
          exact .inr (.inr (.inl rfl))
        | some data =>
          refine hgo (.writing data) (Option.some.inj h).symm ?_
          refine moved_goTo hok hrunning ?_ (by rintro (h | h | h) <;> cases h)
            (by rintro (h | ⟨-, h⟩) <;> cases h) (.inl rfl) nofun
          exact fun piece hpiece => hok.held piece (hdata.trans hpiece)
  case h_6 bytes hphase =>
    have hrunning : ∀ result, w.phase ≠ .ended result := by simp [hphase]
    split at h
    case isTrue hbytes =>
      have hmin : bytes ≤ w.part.len - w.part.counted := hbytes.2.trans (Nat.min_le_left _ _)
      have hcounted := hok.counted_le
      refine hgo _ (Option.some.inj h).symm ?_
      refine moved_goTo hok hrunning ?_ (by rintro (h | h | h) <;> cases h)
        (by rintro (h | ⟨-, h⟩) <;> cases h) (.inl rfl) nofun
      intro data hdata
      obtain rfl := Option.some.inj hdata
      refine ⟨piece_take_drop (by omega), ?_⟩
      rw [List.length_take, List.length_drop]
      omega
    case isFalse => cases h
  case h_7 hphase => exact hfail _ (Option.some.inj h).symm (by simp [hphase]) nofun
  case h_9 data hphase =>
    obtain ⟨hpiece, hfits⟩ := hok.held data (by simp [Worker.held, hphase])
    refine ⟨_, _, s.cancel, (Option.some.inj h).symm, ?_⟩
    exact
      { running := by simp [hphase]
        start_eq := rfl
        len_eq := rfl
        ok := ⟨hfits, nofun, by rintro (h | h | h) <;> cases h⟩
        issues := issues_of hpiece (.inr rfl) fun hempty => by rw [hempty]; rfl
        quiet := by rintro (h | ⟨-, h⟩) <;> cases h
        cancels := .inl rfl
        canceled := nofun }
  case h_10 data error issued hphase =>
    obtain ⟨hpiece, hfits⟩ := hok.held data (by simp [Worker.held, hphase])
    refine ⟨{ w with phase := .ended (.error (.met error)) }, _, true, (Option.some.inj h).symm, ?_⟩
    exact
      { running := by simp [hphase]
        start_eq := rfl
        len_eq := rfl
        ok := ⟨hok.counted_le, nofun, by rintro (h | h | h) <;> cases h⟩
        issues := issues_of (hpiece.take issued) (.inl rfl) fun _ => rfl
        quiet := by rintro (h | ⟨-, h⟩) <;> cases h
        cancels := .inr ⟨_, rfl⟩
        canceled := nofun }
  case h_11 hphase =>
    split at h
    case isTrue hflushed =>
      refine hgo .closing (Option.some.inj h).symm ?_
      exact moved_goTo hok (by simp [hphase]) nofun (fun _ => hok.finished (.inl hphase))
        (fun _ => hflushed) (.inl rfl) nofun
    case isFalse => cases h
  case h_13 hphase =>
    split at h
    case isTrue hflushed =>
      refine hgo (.ended (.ok ())) (Option.some.inj h).symm ?_
      refine moved_goTo hok (by simp [hphase]) nofun (fun _ => hok.finished (.inr (.inl hphase)))
        (fun _ => ?_) (.inl rfl) nofun
      rcases hflushed with hdown | hflushed
      · exact hquiet (.inr ⟨hdown, hphase⟩)
      · exact hflushed
    case isFalse => cases h
  case h_15 => cases h

/-! ### The invariant -/

/-- The file was neither cut nor given up after a part failed. -/
def Uncut : Phase → Prop
  | .removing _ _ => False
  | .returned (.error (.part _ _)) => False
  | _ => True

/-- A byte that the `i`-th worker has counted is in the file, or a write of it has it. -/
def Reached (source : Bytes) (s : State) (i k : ℕ) : Prop :=
  (∃ file, s.file = some file ∧ Copied source file k) ∨
    ∃ write ∈ s.pending ++ s.lost, write.worker = i ∧
      write.offset ≤ k ∧ k < write.offset + write.data.length

/-- A worker that has not begun to copy. -/
def Worker.Fresh (w : Worker) : Prop :=
  w.part.counted = 0 ∧ ∃ todo, w.phase = .preparing todo

/-- Some worker ended with an error. -/
def SomeFailed (s : State) : Prop :=
  ∃ w ∈ s.workers, ∃ error, w.failed = some error

/-- The invariant of a parallel transfer. -/
structure Inv (direction : Direction) (source : Bytes) (s : State) : Prop where
  pieces : ∀ write ∈ s.pending, Piece source write.offset write.data
  length_le : ∀ file, s.file = some file → file.length ≤ source.length
  nonempty : s.workers ≠ []
  chained : Chained 0 source.length (s.workers.map Worker.part)
  workers : ∀ (i : ℕ) (w : Worker), s.workers[i]? = some w → WorkerOk source w
  quiet : ∀ (i : ℕ) (w : Worker), s.workers[i]? = some w → Quiet direction w → s.Flushed i
  unopened : Uncut s.phase → s.file = none →
    s.pending = [] ∧ s.phase ≠ .copying ∧ ∀ w ∈ s.workers, w.Fresh
  opening : s.phase = .opening → s.file = none
  reached : Uncut s.phase → ∀ (i : ℕ) (w : Worker), s.workers[i]? = some w →
    ∀ k, w.part.start ≤ k → k < w.part.start + w.part.counted → Reached source s i k
  failed : (∃ index error, s.phase = .truncating index error) ∨ ¬ Uncut s.phase → SomeFailed s

theorem Inv.part_le (hinv : Inv direction source s) {i : ℕ} {w : Worker}
    (hw : s.workers[i]? = some w) : w.part.start + w.part.len ≤ source.length :=
  hinv.chained.part_le (List.mem_map_of_mem (List.mem_of_getElem? hw))

theorem Inv.worker {i : ℕ} {w w' : Worker} {issued : List Write} {cancel : Bool}
    (hinv : Inv direction source s) (hphase : s.phase = .copying) (hw : s.workers[i]? = some w)
    (hmoved : Moved direction source s i w w' issued cancel) :
    Inv direction source
      { s with cancel, workers := s.workers.set i w', pending := s.pending ++ issued } where
  pieces := by
    intro write hwrite
    rcases List.mem_append.mp hwrite with hold | hnew
    · exact hinv.pieces write hold
    · rcases hmoved.issues with ⟨rfl, -⟩ | ⟨data, rfl, hpiece, -⟩
      · cases hnew
      · obtain rfl := List.mem_singleton.mp hnew
        exact hpiece
  length_le := hinv.length_le
  nonempty := by
    intro hnil
    have hlen := congrArg List.length hnil
    rw [List.length_set] at hlen
    exact hinv.nonempty (List.eq_nil_of_length_eq_zero hlen)
  chained := by
    rw [List.map_set]
    have hpart : (s.workers.map Worker.part)[i]? = some w.part := by
      rw [List.getElem?_map, hw, Option.map_some]
    exact hinv.chained.set hpart hmoved.start_eq hmoved.len_eq
  workers := by
    intro j v hv
    rcases Pool.getElem?_set hv with ⟨rfl, rfl⟩ | ⟨-, hold⟩
    · exact hmoved.ok
    · exact hinv.workers j v hold
  quiet := by
    intro j v hv hquiet
    rcases Pool.getElem?_set hv with ⟨rfl, rfl⟩ | ⟨hne, hold⟩
    · obtain ⟨hflushed, rfl⟩ := hmoved.quiet hquiet
      show ∀ write ∈ (s.pending ++ []) ++ s.lost, write.worker ≠ j
      rw [List.append_nil]
      exact hflushed
    · have hflushed := hinv.quiet j v hold hquiet
      show ∀ write ∈ (s.pending ++ issued) ++ s.lost, write.worker ≠ j
      intro write hwrite
      rcases List.mem_append.mp hwrite with hpending | hlost
      · rcases List.mem_append.mp hpending with hpending | hnew
        · exact hflushed write (List.mem_append_left _ hpending)
        · rcases hmoved.issues with ⟨rfl, -⟩ | ⟨data, rfl, -, -⟩
          · cases hnew
          · obtain rfl := List.mem_singleton.mp hnew
            exact fun h => hne h.symm
      · exact hflushed write (List.mem_append_right _ hlost)
  unopened := fun huncut hfile => absurd hphase (hinv.unopened huncut hfile).2.1
  opening := hinv.opening
  reached := by
    intro huncut j v hv k hlo hhi
    have hkeep : Reached source s j k → Reached source
        { s with cancel, workers := s.workers.set i w', pending := s.pending ++ issued } j k := by
      rintro (hfile | ⟨write, hwrite, hcover⟩)
      · exact .inl hfile
      · refine .inr ⟨write, ?_, hcover⟩
        rcases List.mem_append.mp hwrite with hpending | hlost
        · exact List.mem_append_left _ (List.mem_append_left _ hpending)
        · exact List.mem_append_right _ hlost
    rcases Pool.getElem?_set hv with ⟨rfl, rfl⟩ | ⟨-, hold⟩
    · rw [hmoved.start_eq] at hlo hhi
      by_cases hcounted : k < w.part.start + w.part.counted
      · exact hkeep (hinv.reached huncut j w hw k hlo hcounted)
      · rcases hmoved.issues with ⟨-, hsame⟩ | ⟨data, rfl, -, hcount⟩
        · omega
        · refine .inr ⟨⟨j, w.part.start + w.part.counted, data⟩, ?_, rfl, ?_, ?_⟩
          · exact List.mem_append_left _ (List.mem_append_right _ (List.mem_singleton_self _))
          · show w.part.start + w.part.counted ≤ k
            omega
          · show k < w.part.start + w.part.counted + data.length
            omega
    · exact hkeep (hinv.reached huncut j v hold k hlo hhi)
  failed := by
    rintro (⟨index, error, hfailure⟩ | huncut)
    · rw [hphase] at hfailure
      cases hfailure
    · exact absurd (show Uncut s.phase by rw [hphase]; trivial) huncut


/-- A change of the file and of the writes keeps the invariant when what was reached stays
reached. -/
theorem Inv.writes {file : Option Bytes} {pending lost : List Write}
    (hinv : Inv direction source s) (hsome : s.pending ≠ []) (hfile : file = none → s.file = none)
    (hpieces : ∀ write ∈ pending, Piece source write.offset write.data)
    (hlength : ∀ bytes, file = some bytes → bytes.length ≤ source.length)
    (hworkers : ∀ write ∈ pending ++ lost, ∃ old ∈ s.pending ++ s.lost, old.worker = write.worker)
    (hreached : s.file ≠ none → ∀ i k, Reached source s i k →
      Reached source { s with file, pending, lost } i k) :
    Inv direction source { s with file, pending, lost } where
  pieces := hpieces
  length_le := hlength
  nonempty := hinv.nonempty
  chained := hinv.chained
  workers := hinv.workers
  quiet := by
    intro i w hw hquiet write hwrite heq
    obtain ⟨old, hold, hsame⟩ := hworkers write hwrite
    exact hinv.quiet i w hw hquiet old hold (hsame.trans heq)
  unopened := fun huncut hnone => absurd (hinv.unopened huncut (hfile hnone)).1 hsome
  opening := by
    intro hopening
    have hnone := hinv.opening hopening
    have huncut : Uncut s.phase := by
      rw [show s.phase = .opening from hopening]
      trivial
    exact absurd (hinv.unopened huncut hnone).1 hsome
  reached := by
    intro huncut i w hw k hlo hhi
    have hopened : s.file ≠ none := fun hnone => hsome (hinv.unopened huncut hnone).1
    exact hreached hopened i k (hinv.reached huncut i w hw k hlo hhi)
  failed := hinv.failed

theorem Inv.perform {j : ℕ} {write : Write} (hinv : Inv direction source s)
    (hwrite : s.pending[j]? = some write) :
    Inv direction source
      { s with
        file := s.file.map fun file => writeAt 0 file write.offset write.data
        pending := s.pending.eraseIdx j } := by
  have hmem := List.mem_of_getElem? hwrite
  have hpiece := hinv.pieces write hmem
  refine hinv.writes (List.ne_nil_of_mem hmem) ?_ ?_ ?_ ?_ ?_
  · intro hnone
    exact Option.map_eq_none_iff.mp hnone
  · exact fun other hother => hinv.pieces other (List.mem_of_mem_eraseIdx hother)
  · intro bytes hbytes
    obtain ⟨file, hfile, rfl⟩ := Option.map_eq_some_iff.mp hbytes
    rw [length_writeAt]
    exact Nat.max_le.mpr ⟨hinv.length_le file hfile, hpiece.fits⟩
  · intro other hother
    refine ⟨other, ?_, rfl⟩
    rcases List.mem_append.mp hother with hpending | hlost
    · exact List.mem_append_left _ (List.mem_of_mem_eraseIdx hpending)
    · exact List.mem_append_right _ hlost
  · intro hopened i k hreached
    obtain ⟨file, hfile⟩ := Option.ne_none_iff_exists'.mp hopened
    have hnew : (s.file.map fun file => writeAt 0 file write.offset write.data) =
        some (writeAt 0 file write.offset write.data) := by
      rw [hfile, Option.map_some]
    rcases hreached with ⟨bytes, hbytes, hcopied⟩ | ⟨other, hother, hworker, hcover⟩
    · obtain rfl := Option.some.inj (hfile.symm.trans hbytes)
      exact .inl ⟨_, hnew, copied_writeAt hpiece (.inr hcopied)⟩
    · by_cases hsame : other = write
      · rw [hsame] at hcover
        exact .inl ⟨_, hnew, copied_writeAt hpiece (.inl hcover)⟩
      · refine .inr ⟨other, ?_, hworker, hcover⟩
        rcases List.mem_append.mp hother with hpending | hlost
        · exact List.mem_append_left _ (Pool.mem_eraseIdx_of_ne hwrite hpending hsame)
        · exact List.mem_append_right _ hlost

theorem Inv.lose {j : ℕ} {write : Write} (hinv : Inv direction source s)
    (hwrite : s.pending[j]? = some write) :
    Inv direction source
      { s with pending := s.pending.eraseIdx j, lost := write :: s.lost } := by
  have hmem := List.mem_of_getElem? hwrite
  refine hinv.writes (List.ne_nil_of_mem hmem) id ?_ hinv.length_le ?_ ?_
  · exact fun other hother => hinv.pieces other (List.mem_of_mem_eraseIdx hother)
  · intro other hother
    refine ⟨other, ?_, rfl⟩
    rcases List.mem_append.mp hother with hpending | hlost
    · exact List.mem_append_left _ (List.mem_of_mem_eraseIdx hpending)
    · rcases List.mem_cons.mp hlost with rfl | hlost
      · exact List.mem_append_left _ hmem
      · exact List.mem_append_right _ hlost
  · rintro - i k (hfile | ⟨other, hother, hcover⟩)
    · exact .inl hfile
    · refine .inr ⟨other, ?_, hcover⟩
      rcases List.mem_append.mp hother with hpending | hlost
      · by_cases hsame : other = write
        · rw [hsame]
          exact List.mem_append_right _ List.mem_cons_self
        · exact List.mem_append_left _ (Pool.mem_eraseIdx_of_ne hwrite hpending hsame)
      · exact List.mem_append_right _ (List.mem_cons_of_mem _ hlost)

/-- A write that goes in two pieces keeps the invariant. -/
theorem Inv.split {j bytes : ℕ} {write : Write} (hinv : Inv direction source s)
    (hwrite : s.pending[j]? = some write) (hbytes : bytes < write.data.length) :
    Inv direction source
      { s with
        pending := s.pending.set j { write with data := write.data.take bytes } ++
          [{ write with offset := write.offset + bytes, data := write.data.drop bytes }] } := by
  have hmem := List.mem_of_getElem? hwrite
  have hpiece := hinv.pieces write hmem
  refine hinv.writes (List.ne_nil_of_mem hmem) id ?_ hinv.length_le ?_ ?_
  · intro other hother
    rcases List.mem_append.mp hother with hset | hnew
    · rcases List.mem_or_eq_of_mem_set hset with hold | rfl
      · exact hinv.pieces other hold
      · exact hpiece.take bytes
    · obtain rfl := List.mem_singleton.mp hnew
      exact hpiece.drop (Nat.le_of_lt hbytes)
  · intro other hother
    rcases List.mem_append.mp hother with hpending | hlost
    · rcases List.mem_append.mp hpending with hset | hnew
      · rcases List.mem_or_eq_of_mem_set hset with hold | rfl
        · exact ⟨other, List.mem_append_left _ hold, rfl⟩
        · exact ⟨write, List.mem_append_left _ hmem, rfl⟩
      · obtain rfl := List.mem_singleton.mp hnew
        exact ⟨write, List.mem_append_left _ hmem, rfl⟩
    · exact ⟨other, List.mem_append_right _ hlost, rfl⟩
  · rintro - i k (hfile | ⟨other, hother, hworker, hlo, hhi⟩)
    · exact .inl hfile
    · rcases List.mem_append.mp hother with hpending | hlost
      · by_cases hsame : other = write
        · rw [hsame] at hworker hlo hhi
          by_cases hfront : k < write.offset + bytes
          · refine .inr ⟨{ write with data := write.data.take bytes }, ?_, hworker, hlo, ?_⟩
            · refine List.mem_append_left _ (List.mem_append_left _ ?_)
              exact List.mem_of_getElem? (Pool.getElem?_set_self hwrite)
            · show k < write.offset + (write.data.take bytes).length
              rw [List.length_take]
              omega
          · refine .inr ⟨{ write with
              offset := write.offset + bytes, data := write.data.drop bytes }, ?_, hworker, ?_, ?_⟩
            · exact List.mem_append_left _
                (List.mem_append_right _ (List.mem_singleton_self _))
            · show write.offset + bytes ≤ k
              omega
            · show k < write.offset + bytes + (write.data.drop bytes).length
              rw [List.length_drop]
              omega
        · refine .inr ⟨other, ?_, hworker, hlo, hhi⟩
          refine List.mem_append_left _ (List.mem_append_left _ ?_)
          exact Pool.mem_set_of_ne hwrite hpending hsame
      · exact .inr ⟨other, List.mem_append_right _ hlost, hworker, hlo, hhi⟩

/-- A later phase in which the file is whole keeps the invariant. -/
theorem Inv.goOn {phase : Phase} (hinv : Inv direction source s) (huncut : Uncut s.phase)
    (hphase : phase ≠ .opening ∧ phase ≠ .copying)
    (hfailed : (∃ index error, phase = .truncating index error) ∨ ¬ Uncut phase →
      SomeFailed s) :
    Inv direction source { s with phase } where
  pieces := hinv.pieces
  length_le := hinv.length_le
  nonempty := hinv.nonempty
  chained := hinv.chained
  workers := hinv.workers
  quiet := hinv.quiet
  unopened := by
    intro _ hnone
    obtain ⟨hpending, -, hfresh⟩ := hinv.unopened huncut hnone
    exact ⟨hpending, hphase.2, hfresh⟩
  opening := fun hopening => absurd hopening hphase.1
  reached := fun _ => hinv.reached huncut
  failed := hfailed

/-- A step after a part failed keeps the invariant, whatever becomes of the file. -/
theorem Inv.cut {file : Option Bytes} {truncated : Option ℕ} {phase : Phase}
    (hinv : Inv direction source s)
    (hlength : ∀ bytes, file = some bytes → bytes.length ≤ source.length)
    (hphase : ¬ Uncut phase) (hfailed : SomeFailed s) :
    Inv direction source { s with file, truncated, phase } where
  pieces := hinv.pieces
  length_le := hlength
  nonempty := hinv.nonempty
  chained := hinv.chained
  workers := hinv.workers
  quiet := hinv.quiet
  unopened := fun huncut => absurd huncut hphase
  opening := by
    rintro rfl
    exact absurd trivial hphase
  reached := fun huncut => absurd huncut hphase
  failed := fun _ => hfailed

theorem Inv.prefix_le (hinv : Inv direction source s) :
    resumablePrefix s ≤ source.length := by
  have := Transfer.prefix_le hinv.chained
  rw [Nat.zero_add] at this
  exact this

theorem firstError_eq_some {workers : List Worker} {index : ℕ} {error : PartError}
    (h : firstError workers = some (index, error)) :
    ∃ w, workers[index]? = some w ∧ w.failed = some error := by
  obtain ⟨entry, hentry, hfound⟩ := List.exists_of_findSome?_eq_some h
  obtain ⟨failed, hfailed, heq⟩ := Option.map_eq_some_iff.mp hfound
  obtain ⟨rfl, rfl⟩ := Prod.mk.inj heq
  exact ⟨entry.1, List.mem_zipIdx_iff_getElem?.mp hentry, hfailed⟩

theorem length_emptied_le : (emptied direction source).length ≤ source.length := by
  cases direction with
  | upload => exact Nat.zero_le _
  | download => exact Nat.le_of_eq (length_setLen _)

theorem no_failure {phase : Phase}
    (hphase : ∀ index error, phase ≠ .truncating index error) (huncut : Uncut phase) :
    (∃ index error, phase = .truncating index error) ∨ ¬ Uncut phase → SomeFailed s := by
  rintro (⟨index, error, hfailure⟩ | hcut)
  · exact absurd hfailure (hphase index error)
  · exact absurd huncut hcut

/-- A step of the transfer itself keeps the invariant. -/
theorem Inv.main (hinv : Inv direction source s)
    (h : mainStep direction source bufferSize s s.phase event = some s') :
    Inv direction source s' := by
  unfold mainStep at h
  split at h
  case h_1 hphase =>
    obtain rfl := Option.some.inj h
    have huncut : Uncut s.phase := by
      rw [hphase]
      trivial
    obtain ⟨hpending, -, hfresh⟩ := hinv.unopened huncut (hinv.opening hphase)
    refine { hinv with
      length_le := ?_
      unopened := nofun
      opening := nofun
      reached := ?_
      failed := ?_ }
    · intro file hfile
      obtain rfl := Option.some.inj hfile
      exact length_emptied_le
    · intro _ i w hw k hlo hhi
      have := (hfresh w (List.mem_of_getElem? hw)).1
      omega
    · exact no_failure nofun trivial
  case h_2 error hphase | h_8 hphase | h_9 error hphase | h_11 error hphase =>
    obtain rfl := Option.some.inj h
    refine hinv.goOn (by rw [hphase]; trivial) ⟨nofun, nofun⟩ ?_
    exact no_failure nofun trivial
  case h_3 i move hphase =>
    obtain ⟨w, hw, hstep⟩ := Option.bind_eq_some_iff.mp h
    obtain ⟨w', issued, cancel, rfl, hmoved⟩ := workerStep_spec (hinv.workers i w hw)
      (hinv.part_le hw) (hinv.quiet i w hw) hstep
    exact hinv.worker hphase hw hmoved
  case h_4 hphase =>
    have huncut : Uncut s.phase := by
      rw [hphase]
      trivial
    split at h
    case isTrue =>
      obtain rfl := Option.some.inj h
      cases hfirst : firstError s.workers with
      | none =>
        cases direction with
        | upload | download =>
          refine hinv.goOn huncut ⟨nofun, nofun⟩ ?_
          exact no_failure nofun trivial
      | some found =>
        obtain ⟨index, error⟩ := found
        obtain ⟨w, hw, hfailed⟩ := firstError_eq_some hfirst
        refine hinv.goOn huncut ⟨nofun, nofun⟩ fun _ => ?_
        exact ⟨w, List.mem_of_getElem? hw, error, hfailed⟩
    case isFalse => cases h
  case h_5 index error hphase =>
    obtain rfl := Option.some.inj h
    refine hinv.cut ?_ id (hinv.failed (.inl ⟨index, error, hphase⟩))
    intro bytes hbytes
    obtain ⟨file, -, rfl⟩ := Option.map_eq_some_iff.mp hbytes
    rw [length_setLen]
    exact hinv.prefix_le
  case h_6 index error hphase =>
    obtain rfl := Option.some.inj h
    exact hinv.cut hinv.length_le id (hinv.failed (.inl ⟨index, error, hphase⟩))
  case h_7 index error removed hphase =>
    obtain rfl := Option.some.inj h
    refine hinv.cut ?_ id (hinv.failed (.inr (by rw [hphase]; exact id)))
    intro bytes hbytes
    cases removed with
    | true => cases hbytes
    | false => exact hinv.length_le bytes hbytes
  case h_10 hphase =>
    obtain ⟨file, -, rfl⟩ := Option.map_eq_some_iff.mp h
    have huncut : Uncut s.phase := by
      rw [hphase]
      trivial
    split_ifs
    · exact hinv.goOn huncut ⟨nofun, nofun⟩ (no_failure nofun trivial)
    · exact hinv.goOn huncut ⟨nofun, nofun⟩ (no_failure nofun trivial)
  case h_12 => cases h

/-- **Each step keeps what is counted reached.** -/
theorem Inv.step (hinv : Inv direction source s)
    (h : step direction source bufferSize s event = some s') : Inv direction source s' := by
  unfold Workers.step at h
  split at h
  case h_1 =>
    obtain rfl := Option.some.inj h
    exact { hinv with }
  case h_2 paused =>
    obtain rfl := Option.some.inj h
    exact { hinv with }
  case h_3 j =>
    obtain ⟨write, hwrite, rfl⟩ := Option.map_eq_some_iff.mp h
    exact hinv.perform hwrite
  case h_4 j =>
    obtain ⟨write, hwrite, rfl⟩ := Option.map_eq_some_iff.mp h
    exact hinv.lose hwrite
  case h_5 j bytes =>
    obtain ⟨write, hwrite, hsplit⟩ := Option.bind_eq_some_iff.mp h
    split at hsplit
    case isTrue hbytes =>
      obtain rfl := Option.some.inj hsplit
      exact hinv.split hwrite hbytes.2
    case isFalse => cases hsplit
  case h_6 => exact hinv.main h

/-- A step is one of the transfer itself, or leaves its workers and its phase. -/
theorem step_cases (h : step direction source bufferSize s event = some s') :
    mainStep direction source bufferSize s s.phase event = some s' ∨
      (event ≠ .join ∧ event ≠ .truncate) ∧ ∃ cancel paused file pending lost,
        s' = { s with cancel, paused, file, pending, lost } ∧
          (event = .cancel ∨ cancel = s.cancel) := by
  unfold Workers.step at h
  split at h
  case h_1 =>
    obtain rfl := Option.some.inj h
    exact .inr ⟨⟨nofun, nofun⟩, true, s.paused, s.file, s.pending, s.lost, rfl, .inl rfl⟩
  case h_2 paused =>
    obtain rfl := Option.some.inj h
    exact .inr ⟨⟨nofun, nofun⟩, s.cancel, paused, s.file, s.pending, s.lost, rfl, .inr rfl⟩
  case h_3 j =>
    obtain ⟨write, -, rfl⟩ := Option.map_eq_some_iff.mp h
    exact .inr ⟨⟨nofun, nofun⟩, s.cancel, s.paused, _, _, s.lost, rfl, .inr rfl⟩
  case h_4 j =>
    obtain ⟨write, -, rfl⟩ := Option.map_eq_some_iff.mp h
    exact .inr ⟨⟨nofun, nofun⟩, s.cancel, s.paused, s.file, _, _, rfl, .inr rfl⟩
  case h_5 j bytes =>
    obtain ⟨write, -, hsplit⟩ := Option.bind_eq_some_iff.mp h
    split at hsplit
    · obtain rfl := Option.some.inj hsplit
      exact .inr ⟨⟨nofun, nofun⟩, s.cancel, s.paused, s.file, _, s.lost, rfl, .inr rfl⟩
    · cases hsplit
  case h_6 => exact .inl h

/-- The workers start with parts from which nothing has been copied. -/
theorem inv_init {parts : ℕ} (hparts : 0 < parts) :
    Inv direction source (transfer direction source bufferSize parts).init := by
  have hfresh : ∀ w ∈ newWorkers direction source parts, w.Fresh := by
    intro w hw
    obtain ⟨part, hpart, rfl⟩ := List.mem_map.mp hw
    obtain ⟨index, -, rfl⟩ := List.mem_map.mp hpart
    exact ⟨rfl, _, rfl⟩
  have hparts' : (newWorkers direction source parts).map Worker.part =
      parallelParts source.length parts := by
    rw [newWorkers, List.map_map]
    exact List.map_id _
  exact
    { pieces := nofun
      length_le := nofun
      nonempty := by
        intro hnil
        have := congrArg List.length hnil
        simp only [transfer, newWorkers, parallelParts, List.length_map, List.length_range,
          List.length_nil] at this
        omega
      chained := by
        show Chained 0 source.length ((newWorkers direction source parts).map Worker.part)
        rw [hparts']
        exact chained_parallelParts hparts
      workers := by
        intro i w hw
        obtain ⟨hcounted, todo, hphase⟩ := hfresh w (List.mem_of_getElem? hw)
        refine ⟨by omega, ?_, ?_⟩
        · intro data hdata
          rw [Worker.held, hphase] at hdata
          cases hdata
        · rintro (h | h | h) <;> rw [hphase] at h <;> cases h
      quiet := by
        intro i w hw hquiet write hwrite
        cases hwrite
      unopened := fun _ _ => ⟨rfl, nofun, hfresh⟩
      opening := fun _ => rfl
      reached := by
        intro _ i w hw k hlo hhi
        have := (hfresh w (List.mem_of_getElem? hw)).1
        omega
      failed := no_failure nofun trivial }

/-- **What holds in every run of a parallel transfer.** -/
theorem inv_run {parts : ℕ} (hparts : 0 < parts) {events : List Event}
    (hrun : (transfer direction source bufferSize parts).run events = some s) :
    Inv direction source s :=
  Machine.run_invariant (inv_init hparts) (fun _ _ _ hinv hstep => Inv.step hinv hstep) hrun

/-- The destination is the source when every worker has returned `Ok`. -/
theorem Inv.file_eq (hinv : Inv direction source s)
    (hok : ∀ w ∈ s.workers, w.phase = .ended (.ok ())) : s.file = some source := by
  have huncut : Uncut s.phase := by
    by_contra hcut
    obtain ⟨w, hw, error, herror⟩ := hinv.failed (.inr hcut)
    rw [Worker.failed, hok w hw] at herror
    cases herror
  have hopened : s.file ≠ none := by
    intro hnone
    obtain ⟨w, hw⟩ := List.exists_mem_of_ne_nil _ hinv.nonempty
    obtain ⟨-, todo, hphase⟩ := (hinv.unopened huncut hnone).2.2 w hw
    rw [hok w hw] at hphase
    cases hphase
  obtain ⟨file, hfile⟩ := Option.ne_none_iff_exists'.mp hopened
  rw [hfile, eq_of_copied (hinv.length_le file hfile)]
  intro k hk
  obtain ⟨part, hpart, hlo, hhi⟩ := exists_part hinv.chained (Nat.zero_le k) hk
  obtain ⟨w, hw, rfl⟩ := List.mem_map.mp hpart
  obtain ⟨i, hi⟩ := List.mem_iff_getElem?.mp hw
  have hend := hok w hw
  have hcounted := (hinv.workers i w hi).finished (.inr (.inr hend))
  rcases hinv.reached huncut i w hi k hlo (by omega) with
    ⟨bytes, hbytes, hcopied⟩ | ⟨write, hwrite, hworker, -⟩
  · obtain rfl := Option.some.inj (hfile.symm.trans hbytes)
    exact hcopied
  · exact absurd hworker (hinv.quiet i w hi (.inl hend) write hwrite)

end Machine

/-! ### The ranges of the parts -/

/-- A product of two `u64`. -/
def checkedMul (a b : ℕ) : Option ℕ :=
  if a * b < UInt64.size then some (a * b) else none

/-- A difference of two `u64`. -/
def checkedSub (a b : ℕ) : Option ℕ :=
  if b ≤ a then some (a - b) else none

/-- `parallel_part_range` with each of its operations checked. -/
def checkedPartRange (totalSize parts index : ℕ) : Option (ℕ × ℕ) := do
  let chunkSize ← if parts = 0 then none else some (totalSize / parts)
  let start ← checkedMul index chunkSize
  let last ← checkedSub parts 1
  let len ← if index = last then checkedSub totalSize start else some chunkSize
  return (start, len)

theorem start_le {totalSize parts index : ℕ} (h : index < parts) :
    index * (totalSize / parts) ≤ totalSize :=
  (Nat.mul_le_mul_right _ (Nat.le_of_lt h)).trans (Nat.mul_div_le totalSize parts)

/-- No operation of `parallel_part_range` overflows. -/
theorem checkedPartRange_eq {totalSize parts index : ℕ} (htotal : totalSize < UInt64.size)
    (h : index < parts) :
    checkedPartRange totalSize parts index = some (parallelPartRange totalSize parts index) := by
  have hstart : index * (totalSize / parts) ≤ totalSize := start_le h
  have hmul : checkedMul index (totalSize / parts) = some (index * (totalSize / parts)) :=
    if_pos (Nat.lt_of_le_of_lt hstart htotal)
  have hlast : checkedSub parts 1 = some (parts - 1) := if_pos (by omega)
  have hsub : checkedSub totalSize (index * (totalSize / parts)) =
      some (totalSize - index * (totalSize / parts)) := if_pos hstart
  simp only [checkedPartRange, parallelPartRange, if_neg (show parts ≠ 0 by omega),
    Option.bind_eq_bind, Option.bind_some, hmul, hlast]
  split_ifs
  · rw [hsub]
    rfl
  · rfl

theorem parts_in_order {totalSize parts i j : ℕ} (hij : i < j) (hj : j < parts) :
    (parallelPartRange totalSize parts i).1 + (parallelPartRange totalSize parts i).2 ≤
      (parallelPartRange totalSize parts j).1 := by
  have hlast : i ≠ parts - 1 := by omega
  have hmul : (i + 1) * (totalSize / parts) ≤ j * (totalSize / parts) :=
    Nat.mul_le_mul_right _ hij
  rw [Nat.add_mul, Nat.one_mul] at hmul
  simp only [parallelPartRange, if_neg hlast]
  exact hmul

/-- The parts cover the positions of the file, and no others. -/
theorem parts_cover {totalSize parts : ℕ} (hparts : 0 < parts) (k : ℕ) :
    k < totalSize ↔ ∃ index < parts,
      (parallelPartRange totalSize parts index).1 ≤ k ∧
      k < (parallelPartRange totalSize parts index).1 +
        (parallelPartRange totalSize parts index).2 := by
  have hchain : Chained 0 totalSize (parallelParts totalSize parts) := chained_parallelParts hparts
  constructor
  · intro hk
    obtain ⟨part, hpart, hin⟩ := exists_part hchain (Nat.zero_le k) hk
    obtain ⟨index, hindex, rfl⟩ := List.mem_map.mp hpart
    exact ⟨index, List.mem_range.mp hindex, hin⟩
  · rintro ⟨index, hindex, -, hhi⟩
    have hmem : Part.new (parallelPartRange totalSize parts index) ∈
        parallelParts totalSize parts :=
      List.mem_map_of_mem (List.mem_range.mpr hindex)
    exact Nat.lt_of_lt_of_le hhi (hchain.part_le hmem)

/-- **A parallel transfer is the identity.**  The ranges of the parts are computed without an
overflow, follow one another and cover the file; and in every run, when all the workers have
returned `Ok`, the destination is the source. -/
theorem parallel_transfer_identity (parts : ℕ) (hparts : 0 < parts) :
    (∀ totalSize index, totalSize < UInt64.size → index < parts →
      checkedPartRange totalSize parts index =
        some (parallelPartRange totalSize parts index)) ∧
    (∀ totalSize i j, i < j → j < parts →
      (parallelPartRange totalSize parts i).1 + (parallelPartRange totalSize parts i).2 ≤
        (parallelPartRange totalSize parts j).1) ∧
    (∀ totalSize k, k < totalSize ↔ ∃ index < parts,
      (parallelPartRange totalSize parts index).1 ≤ k ∧
      k < (parallelPartRange totalSize parts index).1 +
        (parallelPartRange totalSize parts index).2) ∧
    ∀ direction source bufferSize events s,
      (transfer direction source bufferSize parts).run events = some s →
      (∀ w ∈ s.workers, w.phase = .ended (.ok ())) → s.file = some source := by
  refine ⟨?_, ?_, ?_, ?_⟩
  · exact fun totalSize index htotal h => checkedPartRange_eq htotal h
  · exact fun totalSize i j hij hj => parts_in_order hij hj
  · exact fun totalSize k => parts_cover hparts k
  · exact fun direction source bufferSize events s hrun hok => (inv_run hparts hrun).file_eq hok

/-- Two parts of one byte each, of which the second is written first. -/
theorem parallel_transfer_identity_two : ∃ s,
    (transfer .upload [7, 9] 4 2).run
      [.opened, .worker 0 .done, .worker 0 .done, .worker 1 .done, .worker 1 .done, .worker 1 .done,
        .worker 1 .done, .worker 1 .look, .worker 1 .look, .worker 0 .look, .worker 0 .look,
        .worker 1 (.read 1), .worker 0 (.read 1), .worker 1 .look, .worker 1 .done,
        .worker 0 .look, .worker 0 .done, .perform 0, .perform 0, .worker 0 .look,
        .worker 1 .look, .worker 1 .done, .worker 0 .done] = some s ∧
      s.file = some [7, 9] := by
  refine (Option.isSome_iff_exists.mp (by decide)).imp fun s hs => ⟨hs, ?_⟩
  refine (parallel_transfer_identity 2 (by decide)).2.2.2 .upload [7, 9] 4 _ s hs ?_
  obtain rfl := Option.some.inj (show some _ = some s from hs)
  decide

end Workers
end Transfer
end HelmSsh
