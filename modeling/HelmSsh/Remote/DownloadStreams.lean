/-
# Downloads of a range, by one handle and by several

`SftpDownloadStream` and `parallel_download_stream` with `OrderedChunkStream` of
`src-tauri/src/remote/runtime_api.rs`: the body of an HTTP download is the bytes of a range of a
remote file.  The first reads them in order.  The second gives each of some workers a part of the
range and a bounded channel, and empties the channels one after the other.

A reader of either may only see bytes of the range, in order, before the first error; and without
an error, the whole range (`Faithful`).  The end of a worker's channel is all that the second
stream looks at, so that the worker must have sent its part or an error before.

* `sequential_faithful` — one handle;
* `parallel_faithful` — several, when no worker panics before it has sent its part;
* `panic_skips_part` — the part of a worker that panics is left out.
-/

import HelmSsh.Machine
import HelmSsh.Pool
import Mathlib.Algebra.GroupWithZero.Nat
import Mathlib.Data.List.Infix

namespace HelmSsh
namespace Remote
namespace DownloadStreams

/-- Why a stream yields an error. -/
inductive ReadError
  | openFailed
  | seekFailed
  | limitFailed
  /-- The SFTP session is closed. -/
  | closed
  | unexpectedEof (missing : ℕ)
  /-- More than was asked for. -/
  | invalidData
  | readFailed
  | closeFailed
  deriving DecidableEq

/-- `io::Result<Bytes>`. -/
inductive Item
  | ok (bytes : List UInt8)
  | err (error : ReadError)
  deriving DecidableEq

namespace Item

/-- There is no error. -/
def isOk : Item → Bool
  | ok _ => true
  | err _ => false

/-- The bytes of a chunk. -/
def bytes : Item → List UInt8
  | ok bytes => bytes
  | err _ => []

end Item

/-- The bytes of some chunks. -/
def bytesOf (items : List Item) : List UInt8 :=
  items.flatMap Item.bytes

/-- **What a download may yield.** -/
structure Faithful (file : List UInt8) (start len : ℕ) (output : List Item) (finished : Bool) :
    Prop where
  before : bytesOf (output.takeWhile Item.isOk) <+: (file.drop start).take len
  whole : finished = true → (∀ item ∈ output, item.isOk = true) →
    bytesOf output = (file.drop start).take len ∧ (bytesOf output).length = len

/-! ### Bytes and chunks -/

theorem bytesOf_append (xs ys : List Item) : bytesOf (xs ++ ys) = bytesOf xs ++ bytesOf ys :=
  List.flatMap_append

theorem bytesOf_map_ok (chunks : List (List UInt8)) :
    bytesOf (chunks.map .ok) = chunks.flatten := by
  induction chunks with
  | nil => rfl
  | cons chunk chunks ih =>
    rw [List.map_cons, List.flatten_cons, ← ih]
    rfl

theorem takeWhile_of_ok {items : List Item} (h : ∀ item ∈ items, item.isOk = true)
    (rest : List Item) :
    (items ++ rest).takeWhile Item.isOk = items ++ rest.takeWhile Item.isOk :=
  List.takeWhile_append_of_pos h

theorem isOk_of_mem_map {chunks : List (List UInt8)} {item : Item} (h : item ∈ chunks.map .ok) :
    item.isOk = true := by
  obtain ⟨chunk, -, rfl⟩ := List.mem_map.mp h
  rfl

theorem takeWhile_mono {xs ys : List Item} (h : xs <+: ys) :
    xs.takeWhile Item.isOk <+: ys.takeWhile Item.isOk := by
  obtain ⟨rest, rfl⟩ := h
  induction xs with
  | nil => exact List.nil_prefix
  | cons x xs ih =>
    rw [List.cons_append, List.takeWhile_cons, List.takeWhile_cons]
    split_ifs
    · exact List.cons_prefix_cons.mpr ⟨rfl, ih⟩
    · exact List.prefix_refl _

theorem take_add_drop (file : List UInt8) (start a b : ℕ) :
    (file.drop start).take (a + b) = (file.drop start).take a ++
      (file.drop (start + a)).take b := by
  rw [List.take_add, List.drop_drop]

/-! ### One handle -/

/-- What the `ReaderStream` over the limited file yields. -/
inductive Inner
  | chunk (n : ℕ)
  | done
  | failed
  deriving DecidableEq

/-- `SftpDownloadStream`. -/
structure SftpDownloadStream where
  /-- The position of the file. -/
  position : ℕ
  remaining : ℕ
  stopped : Bool
  output : List Item
  finished : Bool
  deriving DecidableEq

namespace SftpDownloadStream

/-- `poll_next`, with what `closed` and `inner` are then. -/
def pollNext (file : List UInt8) (s : SftpDownloadStream) (closed : Bool) (inner : Inner) :
    SftpDownloadStream :=
  if s.stopped then { s with finished := true }
  else if s.remaining = 0 then { s with stopped := true, finished := true }
  else if closed then { s with stopped := true, output := s.output ++ [.err .closed] }
  else
    match inner with
    | .chunk n =>
      let bytes := (file.drop s.position).take n
      if s.remaining < bytes.length then
        { s with stopped := true, output := s.output ++ [.err .invalidData] }
      else
        { s with
          position := s.position + bytes.length
          remaining := s.remaining - bytes.length
          output := s.output ++ [.ok bytes] }
    | .failed => { s with stopped := true, output := s.output ++ [.err .readFailed] }
    | .done =>
      { s with
        remaining := 0
        stopped := true
        output := s.output ++ [.err (.unexpectedEof s.remaining)] }

end SftpDownloadStream

/-- A stream of a range that is polled. -/
def sequential (file : List UInt8) (start len : ℕ) : Machine SftpDownloadStream (Bool × Inner) where
  init := { position := start, remaining := len, stopped := false, output := [], finished := false }
  step s poll := some (s.pollNext file poll.1 poll.2)

/-- **The invariant of the stream**: some chunks that are the range so far, and an error or the
end. -/
structure SftpDownloadStream.Inv (file : List UInt8) (start len : ℕ) (s : SftpDownloadStream) :
    Prop where
  remaining_le : s.remaining ≤ len
  chunks : ∃ (chunks : List (List UInt8)) (tail : List Item),
    s.output = chunks.map .ok ++ tail ∧
      (tail = [] ∧ chunks.flatten.length = len - s.remaining ∧
          s.position = start + chunks.flatten.length ∧ (s.stopped = true → s.remaining = 0) ∨
        s.stopped = true ∧ ∃ error, tail = [.err error]) ∧
      chunks.flatten = (file.drop start).take chunks.flatten.length ∧ chunks.flatten.length ≤ len
  finished : s.finished = true → s.stopped = true

namespace SftpDownloadStream

variable {file : List UInt8} {start len : ℕ} {s : SftpDownloadStream}

theorem Inv.fail (h : Inv file start len s) (hrunning : s.stopped = false) {remaining : ℕ}
    (hremaining : remaining ≤ len) (error : ReadError) :
    Inv file start len
      { s with remaining, stopped := true, output := s.output ++ [.err error] } := by
  obtain ⟨chunks, tail, houtput, hcases, hbytes, hlength⟩ := h.chunks
  rcases hcases with ⟨rfl, -⟩ | ⟨hstopped, -⟩
  · refine ⟨hremaining, ⟨chunks, [.err error], ?_, .inr ⟨rfl, error, rfl⟩, hbytes, hlength⟩,
      fun _ => rfl⟩
    show s.output ++ [.err error] = chunks.map .ok ++ [.err error]
    rw [houtput, List.append_nil]
  · rw [hrunning] at hstopped
    cases hstopped

/-- **A chunk that is not too long** goes on with the range. -/
theorem Inv.chunk (h : Inv file start len s) (hrunning : s.stopped = false) {n : ℕ}
    (hfits : ((file.drop s.position).take n).length ≤ s.remaining) :
    Inv file start len
      { s with
        position := s.position + ((file.drop s.position).take n).length
        remaining := s.remaining - ((file.drop s.position).take n).length
        output := s.output ++ [.ok ((file.drop s.position).take n)] } := by
  obtain ⟨chunks, tail, houtput, hcases, hbytes, hlength⟩ := h.chunks
  have hle := h.remaining_le
  rcases hcases with ⟨rfl, hcount, hposition, hdone⟩ | ⟨hstopped, -⟩
  · generalize hchunk : (file.drop s.position).take n = chunk at hfits
    have hprefix : chunk = (file.drop s.position).take chunk.length :=
      List.prefix_iff_eq_take.mp (hchunk ▸ List.take_prefix n _)
    have hflatten : (chunks ++ [chunk]).flatten = chunks.flatten ++ chunk := by
      rw [List.flatten_append, List.flatten_singleton]
    refine ⟨Nat.le_trans (Nat.sub_le _ _) hle, ⟨chunks ++ [chunk], [], ?_, .inl ⟨rfl, ?_, ?_, ?_⟩,
      ?_, ?_⟩, h.finished⟩
    · show s.output ++ [.ok chunk] = _
      rw [houtput, List.append_nil, List.append_nil, List.map_append]
      rfl
    · rw [hflatten, List.length_append]
      dsimp only
      omega
    · rw [hflatten, List.length_append]
      dsimp only
      omega
    · intro hstopped
      rw [hrunning] at hstopped
      cases hstopped
    · rw [hflatten, List.length_append, take_add_drop, ← hbytes, ← hposition, ← hprefix]
    · rw [hflatten, List.length_append]
      omega
  · rw [hrunning] at hstopped
    cases hstopped

/-- **What a poll preserves.** -/
theorem Inv.pollNext (h : Inv file start len s) (closed : Bool) (inner : Inner) :
    Inv file start len (s.pollNext file closed inner) := by
  unfold SftpDownloadStream.pollNext
  split_ifs with hstopped hremaining hclosed
  · exact ⟨h.remaining_le, h.chunks, fun _ => hstopped⟩
  · obtain ⟨chunks, tail, houtput, hcases, hbytes, hlength⟩ := h.chunks
    refine ⟨h.remaining_le, ⟨chunks, tail, houtput, ?_, hbytes, hlength⟩, fun _ => rfl⟩
    rcases hcases with ⟨rfl, hcount, hposition, -⟩ | ⟨-, herror⟩
    · exact .inl ⟨rfl, hcount, hposition, fun _ => hremaining⟩
    · exact .inr ⟨rfl, herror⟩
  · exact h.fail (Bool.not_eq_true _ ▸ hstopped) h.remaining_le .closed
  · have hrunning : s.stopped = false := Bool.not_eq_true _ ▸ hstopped
    cases inner with
    | chunk n =>
      dsimp only
      split_ifs with hlong
      · exact h.fail hrunning h.remaining_le .invalidData
      · exact h.chunk hrunning (Nat.le_of_not_lt hlong)
    | done => exact h.fail hrunning (Nat.zero_le len) (.unexpectedEof s.remaining)
    | failed => exact h.fail hrunning h.remaining_le .readFailed

theorem Inv.init : Inv file start len (sequential file start len).init :=
  ⟨Nat.le_refl len, ⟨[], [], rfl, .inl ⟨rfl, (Nat.sub_self len).symm, rfl,
    fun hfalse => (by cases hfalse)⟩, rfl, Nat.zero_le len⟩, fun hfalse => (by cases hfalse)⟩

/-- **One handle is faithful**: before an error the chunks are the first bytes of the range, and
without one the range. -/
theorem sequential_faithful {polls : List (Bool × Inner)} {s : SftpDownloadStream}
    (h : (sequential file start len).run polls = some s) :
    Faithful file start len s.output s.finished := by
  have hinv : Inv file start len s := by
    refine Machine.run_invariant Inv.init (fun s poll s' hinv hstep => ?_) h
    obtain rfl := Option.some.inj hstep
    exact hinv.pollNext poll.1 poll.2
  obtain ⟨chunks, tail, houtput, hcases, hbytes, hlength⟩ := hinv.chunks
  have hok : ∀ item ∈ chunks.map Item.ok, item.isOk = true := fun _ => isOk_of_mem_map
  refine ⟨?_, fun hfinished hall => ?_⟩
  · have htail : tail.takeWhile Item.isOk = [] := by
      rcases hcases with ⟨rfl, -⟩ | ⟨-, error, rfl⟩
      · rfl
      · rfl
    rw [houtput, takeWhile_of_ok hok, htail, List.append_nil, bytesOf_map_ok, hbytes]
    exact List.take_prefix_take_left hlength
  · rcases hcases with ⟨rfl, hcount, -, hdone⟩ | ⟨-, error, rfl⟩
    · have hzero := hdone (hinv.finished hfinished)
      rw [hzero, Nat.sub_zero] at hcount
      rw [houtput, List.append_nil, bytesOf_map_ok]
      exact ⟨hcount ▸ hbytes, hcount⟩
    · have herror := hall (.err error) (by
        rw [houtput]
        exact List.mem_append_right _ (List.mem_singleton_self _))
      cases herror

theorem sequential_faithful_chunks : Faithful [1, 2, 3, 4] 1 3 [.ok [2, 3], .ok [4]] true :=
  @sequential_faithful [1, 2, 3, 4] 1 3
    [(false, .chunk 2), (false, .chunk 9), (false, .done)] _ rfl

end SftpDownloadStream

/-! ### Several handles -/

/-- `PER_WORKER_QUEUE_DEPTH`. -/
def perWorkerQueueDepth : ℕ := 4

/-- How far a worker is. -/
inductive Stage
  /-- Opens the file, seeks, and sets the limit of its reads. -/
  | opening
  /-- At the head of its loop. -/
  | reading
  /-- In `tx.send`. -/
  | sending (item : Item)
  /-- In `file.shutdown`. -/
  | closing
  | ended
  deriving DecidableEq

/-- A worker with its channel. -/
structure Worker where
  /-- `chunk_start`. -/
  start : ℕ
  /-- `chunk_len`. -/
  len : ℕ
  /-- The bytes that it has sent: `chunk_len - remaining`. -/
  sent : ℕ
  stage : Stage
  /-- The items in its channel. -/
  queue : List Item
  /-- The items that the stream has taken out of it. -/
  taken : List Item
  deriving DecidableEq

/-- A step of a worker. -/
inductive Move
  | openFails
  | seekFails
  | limitFails
  | opened
  /-- `task_closed` is set. -/
  | isClosed
  /-- `file.read` yields this many bytes. -/
  | read (n : ℕ)
  /-- It yields none. -/
  | eof
  | readFails
  | send
  | shut
  | shutFails
  | panic
  /-- The task is aborted, or finds that the receiver is gone. -/
  | hangUp
  deriving DecidableEq

namespace Worker

/-- A spawned worker. -/
def new (range : ℕ × ℕ) : Worker :=
  { start := range.1, len := range.2, sent := 0, stage := .opening, queue := [], taken := [] }

/-- The condition of the loop: something remains. -/
def loop (w : Worker) : Worker :=
  { w with stage := if w.sent < w.len then .reading else .closing }

/-- `send_download_worker_error`, up to the channel. -/
def report (w : Worker) (error : ReadError) : Worker :=
  { w with stage := .sending (.err error) }

/-- One step; whether the receivers are dropped. -/
def move (file : List UInt8) (bufferSize : ℕ) (dropped : Bool) (w : Worker) :
    Move → Option Worker
  | .openFails => if w.stage = .opening then some (w.report .openFailed) else none
  | .seekFails =>
    if w.stage = .opening ∧ 0 < w.start then some (w.report .seekFailed) else none
  | .limitFails => if w.stage = .opening then some (w.report .limitFailed) else none
  | .opened => if w.stage = .opening then some w.loop else none
  | .isClosed => if w.stage = .reading then some (w.report .closed) else none
  | .read n =>
    if w.stage = .reading ∧ 0 < n ∧ n ≤ min (w.len - w.sent) bufferSize ∧
        w.start + w.sent + n ≤ file.length then
      some { w with stage := .sending (.ok ((file.drop (w.start + w.sent)).take n)) }
    else none
  | .eof =>
    if w.stage = .reading then some (w.report (.unexpectedEof (w.len - w.sent))) else none
  | .readFails => if w.stage = .reading then some (w.report .readFailed) else none
  | .send =>
    match w.stage with
    | .sending item =>
      if w.queue.length < perWorkerQueueDepth ∧ dropped = false then
        match item with
        | .ok bytes =>
          some { w with sent := w.sent + bytes.length, queue := w.queue ++ [item] }.loop
        | .err _ => some { w with stage := .ended, queue := w.queue ++ [item] }
      else none
    | _ => none
  | .shut => if w.stage = .closing then some { w with stage := .ended } else none
  | .shutFails => if w.stage = .closing then some (w.report .closeFailed) else none
  | .panic => if w.stage ≠ .ended then some { w with stage := .ended } else none
  | .hangUp =>
    if w.stage ≠ .ended ∧ dropped = true then some { w with stage := .ended } else none

end Worker

/-- A download: the file, and the arguments of `parallel_download_stream` with the number of the
transfer sessions. -/
structure Download where
  file : List UInt8
  startOffset : ℕ
  totalLen : ℕ
  parts : ℕ
  availableSessions : ℕ
  bufferSize : ℕ
  /-- The size of the file and the offset are `u64`. -/
  file_lt : file.length < 2 ^ 64
  start_lt : startOffset < 2 ^ 64

namespace Download

/-- The number of the workers. -/
def workerCount (d : Download) : ℕ :=
  min (min (max d.parts 1) (max d.availableSessions 1)) (max d.totalLen 1)

/-- `chunk_start` and `chunk_len` of a worker, in wrapping arithmetic. -/
def chunkRange (d : Download) (i : ℕ) : ℕ × ℕ :=
  let chunkSize := d.totalLen / d.workerCount
  ((d.startOffset + i * chunkSize) % 2 ^ 64,
    if i = d.workerCount - 1 then d.totalLen - i * chunkSize else chunkSize)

/-- The spawned workers. -/
def workers (d : Download) : List Worker :=
  if d.totalLen = 0 then []
  else (List.range d.workerCount).map fun i => .new (d.chunkRange i)

end Download

/-- `OrderedChunkStream`, with its workers and what it has yielded. -/
structure State where
  workers : List Worker
  /-- The worker whose receiver is at the front of `receivers`. -/
  front : ℕ
  output : List Item
  finished : Bool
  dropped : Bool
  deriving DecidableEq

/-- What happens. -/
inductive Event
  | worker (i : ℕ) (move : Move)
  /-- One round of the loop of `poll_next`. -/
  | poll
  | drop
  deriving DecidableEq

namespace State

/-- One round of the loop of `poll_next`. -/
def pollNext (s : State) : Option State :=
  match s.workers[s.front]? with
  | none => some { s with finished := true }
  | some w =>
    match w.queue with
    | item :: queue =>
      some { s with
        workers := s.workers.set s.front { w with queue, taken := w.taken ++ [item] }
        output := s.output ++ [item] }
    | [] => if w.stage = .ended then some { s with front := s.front + 1 } else none

/-- One step. -/
def step (d : Download) (s : State) : Event → Option State
  | .worker i move =>
    s.workers[i]?.bind fun w => (w.move d.file d.bufferSize s.dropped move).map fun w' =>
      { s with workers := s.workers.set i w' }
  | .poll => if s.dropped then none else s.pollNext
  | .drop => some { s with dropped := true }

end State

/-- The stream of a download. -/
def parallel (d : Download) : Machine State Event where
  init := { workers := d.workers, front := 0, output := [], finished := false, dropped := false }
  step := State.step d

/-- A worker panics when it has not sent its part. -/
def State.loses (s : State) : Event → Bool
  | .worker i .panic => s.workers[i]?.any fun w => w.sent ≠ w.len
  | _ => false

/-- **No part is lost.** -/
def LosesNothing (s : State) (a : Event) : Prop :=
  s.loses a = false

instance (s : State) (a : Event) : Decidable (LosesNothing s a) :=
  inferInstanceAs (Decidable (s.loses a = false))

/-! ### What a worker sends -/

namespace Worker

variable {file : List UInt8} {w w' : Worker}

/-- The items that the worker has sent. -/
def log (w : Worker) : List Item :=
  w.taken ++ w.queue

/-- **The invariant of a worker**: it sends the chunks of its part, and at most one error, after
which it is at its end. -/
structure Fair (file : List UInt8) (w : Worker) : Prop where
  sent_le : w.sent ≤ w.len
  log : ∃ (chunks : List (List UInt8)) (tail : List Item), w.log = chunks.map .ok ++ tail ∧
    chunks.flatten = (file.drop w.start).take w.sent ∧ chunks.flatten.length = w.sent ∧
      (tail = [] ∨ w.stage = .ended ∧ ∃ error, tail = [.err error])
  sending : ∀ bytes, w.stage = .sending (.ok bytes) →
    bytes = (file.drop (w.start + w.sent)).take bytes.length ∧ w.sent + bytes.length ≤ w.len
  closing : w.stage = .closing → w.sent = w.len

/-- It has sent all of its part, or an error. -/
def Settled (w : Worker) : Prop :=
  w.sent = w.len ∨ ∃ error, .err error ∈ w.log

theorem fair_new (file : List UInt8) (range : ℕ × ℕ) : Fair file (new range) :=
  ⟨Nat.zero_le _, ⟨[], [], rfl, rfl, rfl, .inl rfl⟩, fun _ hstage => (by cases hstage),
    fun hstage => (by cases hstage)⟩

theorem Fair.stage (h : Fair file w) (hrunning : w.stage ≠ .ended) {stage : Stage}
    (hsending : ∀ bytes, stage = .sending (.ok bytes) →
      bytes = (file.drop (w.start + w.sent)).take bytes.length ∧ w.sent + bytes.length ≤ w.len)
    (hclosing : stage = .closing → w.sent = w.len) : Fair file { w with stage } := by
  obtain ⟨chunks, tail, hlog, hbytes, hlength, htail⟩ := h.log
  have hnil : tail = [] := htail.resolve_right fun hended => hrunning hended.1
  exact ⟨h.sent_le, ⟨chunks, tail, hlog, hbytes, hlength, .inl hnil⟩, hsending, hclosing⟩

theorem Fair.report (h : Fair file w) (hrunning : w.stage ≠ .ended) (error : ReadError) :
    Fair file (w.report error) :=
  h.stage hrunning (fun _ hstage => (by cases hstage)) fun hstage => (by cases hstage)

theorem Fair.stop (h : Fair file w) (hrunning : w.stage ≠ .ended) :
    Fair file { w with stage := .ended } :=
  h.stage hrunning (fun _ hstage => (by cases hstage)) fun hstage => (by cases hstage)

theorem Fair.loop (h : Fair file w) (hrunning : w.stage ≠ .ended) : Fair file w.loop := by
  have hle := h.sent_le
  refine h.stage hrunning (fun bytes hstage => ?_) fun hstage => ?_
  · split_ifs at hstage
  · split_ifs at hstage with hless
    omega

/-- **A chunk is sent.** -/
theorem Fair.send (h : Fair file w) {bytes : List UInt8} (hstage : w.stage = .sending (.ok bytes)) :
    Fair file
      { w with
        sent := w.sent + bytes.length
        queue := w.queue ++ [Item.ok bytes] }.loop := by
  obtain ⟨chunks, tail, hlog, hbytes, hlength, htail⟩ := h.log
  obtain ⟨hchunk, hle⟩ := h.sending bytes hstage
  have hnil : tail = [] := htail.resolve_right fun hended => by
    rw [hstage] at hended
    cases hended.1
  subst hnil
  refine ⟨hle, ⟨chunks ++ [bytes], [], ?_, ?_, ?_, .inl rfl⟩, fun other hother => ?_,
    fun hclosing => ?_⟩
  · show w.taken ++ (w.queue ++ [.ok bytes]) = _
    rw [← List.append_assoc, ← Worker.log, hlog, List.append_nil, List.append_nil, List.map_append]
    rfl
  · show _ = (file.drop w.start).take (w.sent + bytes.length)
    rw [List.flatten_append, List.flatten_singleton, take_add_drop, ← hbytes, ← hchunk]
  · show _ = w.sent + bytes.length
    rw [List.flatten_append, List.flatten_singleton, List.length_append, hlength]
  · dsimp only [Worker.loop] at hother
    split_ifs at hother
  · dsimp only [Worker.loop] at hclosing ⊢
    split_ifs at hclosing with hless
    omega

/-- **An error is sent**, and the worker is settled. -/
theorem Fair.sendError (h : Fair file w) {error : ReadError}
    (hstage : w.stage = .sending (.err error)) :
    Fair file { w with stage := .ended, queue := w.queue ++ [Item.err error] } ∧
      Settled { w with stage := .ended, queue := w.queue ++ [Item.err error] } := by
  obtain ⟨chunks, tail, hlog, hbytes, hlength, htail⟩ := h.log
  have hnil : tail = [] := htail.resolve_right fun hended => by
    rw [hstage] at hended
    cases hended.1
  subst hnil
  have hnext : Worker.log { w with stage := .ended, queue := w.queue ++ [Item.err error] } =
      chunks.map .ok ++ [.err error] := by
    show w.taken ++ (w.queue ++ [.err error]) = _
    rw [← List.append_assoc, ← Worker.log, hlog, List.append_nil]
  refine ⟨⟨h.sent_le, ⟨chunks, _, hnext, hbytes, hlength, .inr ⟨rfl, error, rfl⟩⟩,
    fun _ hother => (by cases hother), fun hother => (by cases hother)⟩, .inr ⟨error, ?_⟩⟩
  rw [hnext]
  exact List.mem_append_right _ (List.mem_singleton_self _)

theorem Fair.reported (h : Fair file w) (hrunning : w.stage ≠ .ended) (error : ReadError)
    {P : Prop} : Fair file (w.report error) ∧ (w.report error).start = w.start ∧
      (w.report error).len = w.len ∧ (w.report error).taken = w.taken ∧ w.stage ≠ .ended ∧
      ((w.report error).stage = .ended → P) :=
  ⟨h.report hrunning _, rfl, rfl, rfl, hrunning, fun hended => (by cases hended)⟩

/-- **What a step of a worker preserves**; and if it ends, it is settled unless it panics or its
receiver is gone. -/
theorem Fair.move {bufferSize : ℕ} {dropped : Bool} {m : Move} (h : Fair file w)
    (hmove : w.move file bufferSize dropped m = some w') :
    Fair file w' ∧ w'.start = w.start ∧ w'.len = w.len ∧ w'.taken = w.taken ∧
      w.stage ≠ .ended ∧
      (w'.stage = .ended → Settled w' ∨ m = .panic ∧ w'.sent = w.sent ∨ dropped = true) := by
  cases m with
  | openFails | limitFails | isClosed | eof | readFails | shutFails =>
    obtain ⟨hstage, rfl⟩ := Option.ite_some_none_eq_some.mp hmove
    exact h.reported (by rw [hstage]; simp) _
  | seekFails =>
    obtain ⟨hstage, rfl⟩ := Option.ite_some_none_eq_some.mp hmove
    exact h.reported (by rw [hstage.1]; simp) _
  | opened =>
    obtain ⟨hstage, rfl⟩ := Option.ite_some_none_eq_some.mp hmove
    have hrunning : w.stage ≠ .ended := by rw [hstage]; simp
    refine ⟨h.loop hrunning, rfl, rfl, rfl, hrunning, fun hended => ?_⟩
    dsimp only [Worker.loop] at hended
    split_ifs at hended
  | read n =>
    dsimp only [Worker.move] at hmove
    split_ifs at hmove with hread
    obtain ⟨hstage, hpos, hle, hin⟩ := hread
    obtain rfl := Option.some.inj hmove
    have hrunning : w.stage ≠ .ended := by rw [hstage]; simp
    refine ⟨h.stage hrunning (fun bytes hbytes => ?_) fun hother => (by cases hother), rfl, rfl,
      rfl, hrunning, fun hended => (by cases hended)⟩
    obtain rfl := Item.ok.inj (Stage.sending.inj hbytes)
    have hlength : ((file.drop (w.start + w.sent)).take n).length ≤ n := List.length_take_le _ _
    have hsent := h.sent_le
    have hremaining := Nat.le_trans hle (Nat.min_le_left _ _)
    exact ⟨List.prefix_iff_eq_take.mp (List.take_prefix _ _), by omega⟩
  | send =>
    dsimp only [Worker.move] at hmove
    split at hmove
    case h_1 item hstage =>
      split_ifs at hmove
      have hrunning : w.stage ≠ .ended := by rw [hstage]; simp
      cases item with
      | ok bytes =>
        obtain rfl := Option.some.inj hmove
        refine ⟨h.send hstage, rfl, rfl, rfl, hrunning, fun hended => ?_⟩
        dsimp only [Worker.loop] at hended
        split_ifs at hended
      | err error =>
        obtain rfl := Option.some.inj hmove
        obtain ⟨hfair, hsettled⟩ := h.sendError hstage
        exact ⟨hfair, rfl, rfl, rfl, hrunning, fun _ => .inl hsettled⟩
    case h_2 => cases hmove
  | shut =>
    obtain ⟨hstage, rfl⟩ := Option.ite_some_none_eq_some.mp hmove
    have hrunning : w.stage ≠ .ended := by rw [hstage]; simp
    exact ⟨h.stop hrunning, rfl, rfl, rfl, hrunning, fun _ => .inl (.inl (h.closing hstage))⟩
  | panic =>
    obtain ⟨hrunning, rfl⟩ := Option.ite_some_none_eq_some.mp hmove
    exact ⟨h.stop hrunning, rfl, rfl, rfl, hrunning, fun _ => .inr (.inl ⟨rfl, rfl⟩)⟩
  | hangUp =>
    obtain ⟨hgone, rfl⟩ := Option.ite_some_none_eq_some.mp hmove
    exact ⟨h.stop hgone.1, rfl, rfl, rfl, hgone.1, fun _ => .inr (.inr hgone.2)⟩

theorem log_take {item : Item} {queue : List Item} (hqueue : w.queue = item :: queue) :
    Worker.log { w with queue, taken := w.taken ++ [item] } = w.log := by
  rw [Worker.log, Worker.log, hqueue, List.append_assoc]
  rfl

/-- **The stream takes an item.** -/
theorem Fair.take (h : Fair file w) {item : Item} {queue : List Item}
    (hqueue : w.queue = item :: queue) :
    Fair file { w with queue, taken := w.taken ++ [item] } := by
  obtain ⟨hle, hitems, hsending, hclosing⟩ := h
  exact ⟨hle, (log_take hqueue).symm ▸ hitems, hsending, hclosing⟩

theorem Settled.take (h : Settled w) {item : Item} {queue : List Item}
    (hqueue : w.queue = item :: queue) :
    Settled { w with queue, taken := w.taken ++ [item] } :=
  h.imp id fun herror => (log_take hqueue).symm ▸ herror

end Worker

/-! ### The stream -/

/-- The ranges follow one another, in wrapping arithmetic. -/
def Consecutive : ℕ → ℕ → List (ℕ × ℕ) → Prop
  | _, total, [] => total = 0
  | start, total, range :: ranges =>
    range.1 = start ∧ range.2 ≤ total ∧
      Consecutive ((start + range.2) % 2 ^ 64) (total - range.2) ranges

theorem Download.consecutive_range' (d : Download) (m k : ℕ) (hk : k + m = d.workerCount)
    (hm : 0 < m) :
    Consecutive ((d.startOffset + k * (d.totalLen / d.workerCount)) % 2 ^ 64)
      (d.totalLen - k * (d.totalLen / d.workerCount)) ((List.range' k m).map d.chunkRange) := by
  induction m generalizing k with
  | zero => omega
  | succ m ih =>
    rw [List.range'_succ, List.map_cons, Consecutive]
    have hnext : (k + 1) * (d.totalLen / d.workerCount) ≤ d.totalLen :=
      (Nat.mul_le_mul_right _ (by omega)).trans (Nat.mul_div_le d.totalLen d.workerCount)
    rw [Nat.add_mul, Nat.one_mul] at hnext
    refine ⟨rfl, ?_, ?_⟩
    · rw [Download.chunkRange]
      dsimp only
      split_ifs
      · exact Nat.le_refl _
      · omega
    · rw [Download.chunkRange]
      dsimp only
      by_cases hlast : m = 0
      · rw [if_pos (by omega), hlast, List.range'_zero, List.map_nil, Consecutive]
        exact Nat.sub_self _
      · have htail := ih (k + 1) (by omega) (by omega)
        rw [Nat.add_mul, Nat.one_mul, ← Nat.add_assoc] at htail
        rw [if_neg (by omega), Nat.mod_add_mod, Nat.sub_sub]
        exact htail

/-- **The parts of a download follow one another.** -/
theorem Download.consecutive (d : Download) :
    Consecutive d.startOffset d.totalLen (d.workers.map fun w => (w.start, w.len)) := by
  rw [Download.workers]
  split_ifs with hzero
  · exact hzero
  · have hpos : 0 < d.workerCount := by
      rw [Download.workerCount]
      omega
    have hall := d.consecutive_range' d.workerCount 0 (Nat.zero_add _) hpos
    rw [Nat.zero_mul, Nat.add_zero, Nat.sub_zero, Nat.mod_eq_of_lt d.start_lt] at hall
    rw [List.map_map, List.range_eq_range']
    exact hall

/-- What an error-free worker has sent, and what may come before the error of another. -/
theorem Worker.Fair.taken_cases {file : List UInt8} {w : Worker} (h : Worker.Fair file w) :
    bytesOf (w.taken.takeWhile Item.isOk) <+: (file.drop w.start).take w.len ∧
      ∀ rest, w.queue = [] → w.Settled →
        (∃ item ∈ w.taken, item.isOk = false) ∧
            bytesOf ((w.taken ++ rest).takeWhile Item.isOk) =
              bytesOf (w.taken.takeWhile Item.isOk) ∨
          (bytesOf w.taken).length = w.len ∧ bytesOf w.taken = (file.drop w.start).take w.len ∧
            (w.taken ++ rest).takeWhile Item.isOk = w.taken ++ rest.takeWhile Item.isOk := by
  obtain ⟨chunks, tail, hlog, hbytes, hlength, htail⟩ := h.log
  have hok : ∀ item ∈ chunks.map Item.ok, item.isOk = true := fun _ => isOk_of_mem_map
  have hend : tail.takeWhile Item.isOk = [] := by
    rcases htail with rfl | ⟨-, error, rfl⟩
    · rfl
    · rfl
  refine ⟨?_, fun rest hqueue hsettled => ?_⟩
  · have htaken : w.taken <+: chunks.map .ok ++ tail := hlog ▸ List.prefix_append _ _
    have hbefore := (takeWhile_mono htaken).flatMap Item.bytes
    rw [takeWhile_of_ok hok, hend, List.append_nil] at hbefore
    refine hbefore.trans ?_
    rw [← bytesOf, bytesOf_map_ok, hbytes]
    exact List.take_prefix_take_left h.sent_le
  · have htaken : w.taken = chunks.map .ok ++ tail := by
      rw [← hlog, Worker.log, hqueue, List.append_nil]
    rcases htail with rfl | ⟨-, error, rfl⟩
    · rw [List.append_nil] at htaken
      rcases hsettled with hall | ⟨error, herror⟩
      · refine .inr ⟨?_, ?_, ?_⟩
        · rw [htaken, bytesOf_map_ok, hlength, hall]
        · rw [htaken, bytesOf_map_ok, hbytes, hall]
        · rw [htaken]
          exact takeWhile_of_ok hok rest
      · rw [hlog, List.append_nil] at herror
        cases hok _ herror
    · refine .inl ⟨⟨.err error, ?_, rfl⟩, ?_⟩
      · rw [htaken]
        exact List.mem_append_right _ (List.mem_singleton_self _)
      · rw [htaken, List.append_assoc, takeWhile_of_ok hok, takeWhile_of_ok hok]
        rfl

/-- **The parts make up the range**: the items of some workers that follow one another, of which
those before the front are through and those behind it have not begun. -/
theorem faithful_parts {file : List UInt8} (hfile : file.length < 2 ^ 64) {ws : List Worker}
    {start total front : ℕ} (hstart : start < 2 ^ 64)
    (hranges : Consecutive start total (ws.map fun w => (w.start, w.len)))
    (hfair : ∀ w ∈ ws, w.Fair file)
    (hpassed : ∀ (i : ℕ) (w : Worker), ws[i]? = some w → i < front → w.queue = [] ∧ w.Settled)
    (hlater : ∀ (i : ℕ) (w : Worker), ws[i]? = some w → front < i → w.taken = []) :
    Faithful file start total (ws.flatMap Worker.taken) (ws.length ≤ front) := by
  induction ws generalizing start total front with
  | nil =>
    obtain rfl : total = 0 := hranges
    exact ⟨List.nil_prefix, fun _ _ => ⟨rfl, rfl⟩⟩
  | cons w ws ih =>
    obtain ⟨hw, hle, hrest⟩ := hranges
    dsimp only at hw hle hrest
    subst hw
    obtain ⟨hbefore, hthrough⟩ := (hfair w List.mem_cons_self).taken_cases
    have hpart : (file.drop w.start).take w.len <+: (file.drop w.start).take total :=
      List.take_prefix_take_left hle
    rw [List.flatMap_cons]
    cases front with
    | zero =>
      have hnone : ws.flatMap Worker.taken = [] := by
        refine List.flatMap_eq_nil_iff.mpr fun v hv => ?_
        obtain ⟨i, hi⟩ := List.mem_iff_getElem?.mp hv
        exact hlater (i + 1) v hi (Nat.succ_pos i)
      rw [hnone, List.append_nil]
      refine ⟨hbefore.trans hpart, fun hlength => ?_⟩
      exact absurd (of_decide_eq_true hlength) (Nat.not_succ_le_zero _)
    | succ front =>
      obtain ⟨hqueue, hsettled⟩ := hpassed 0 w rfl (Nat.succ_pos front)
      rcases hthrough (ws.flatMap Worker.taken) hqueue hsettled with
        ⟨⟨item, hitem, herror⟩, hsame⟩ | ⟨hlength, hbytes, hsplit⟩
      · refine ⟨hsame ▸ hbefore.trans hpart, fun _ hall => ?_⟩
        rw [hall item (List.mem_append_left _ hitem)] at herror
        cases herror
      · have hin : w.start + w.len < 2 ^ 64 := by
          rw [hbytes, List.length_take, List.length_drop] at hlength
          omega
        rw [Nat.mod_eq_of_lt hin] at hrest
        obtain ⟨hnext, hwhole⟩ := ih hin hrest
          (fun v hv => hfair v (List.mem_cons_of_mem w hv))
          (fun i v hv hlt => hpassed (i + 1) v hv (Nat.succ_lt_succ hlt))
          (fun i v hv hlt => hlater (i + 1) v hv (Nat.succ_lt_succ hlt))
        have hrange : (file.drop w.start).take total = bytesOf w.taken ++
            (file.drop (w.start + w.len)).take (total - w.len) := by
          rw [hbytes, ← take_add_drop, Nat.add_sub_cancel' hle]
        refine ⟨?_, fun hdone hall => ?_⟩
        · rw [hsplit, bytesOf_append, hrange]
          exact (List.prefix_append_right_inj _).mpr hnext
        · obtain ⟨heq, htotal⟩ := hwhole
            (decide_eq_true (Nat.le_of_succ_le_succ (of_decide_eq_true hdone)))
            fun item hitem => hall item (List.mem_append_right _ hitem)
          rw [bytesOf_append, hrange, heq, List.length_append, hlength, ← heq, htotal]
          exact ⟨rfl, Nat.add_sub_cancel' hle⟩

/-- **The invariant of the stream.** -/
structure Inv (d : Download) (s : State) : Prop where
  ranges : Consecutive d.startOffset d.totalLen (s.workers.map fun w => (w.start, w.len))
  fair : ∀ (i : ℕ) (w : Worker), s.workers[i]? = some w → w.Fair d.file
  output : s.output = s.workers.flatMap Worker.taken
  passed : ∀ (i : ℕ) (w : Worker), s.workers[i]? = some w → i < s.front →
    w.stage = .ended ∧ w.queue = [] ∧ w.Settled
  later : ∀ (i : ℕ) (w : Worker), s.workers[i]? = some w → s.front < i → w.taken = []
  settled : s.dropped = false → ∀ (i : ℕ) (w : Worker), s.workers[i]? = some w →
    w.stage = .ended → w.Settled
  finished : s.finished = true → s.workers.length ≤ s.front

/-- A worker that is replaced keeps its range and what was taken from it. -/
theorem map_set_same {β : Type} (f : Worker → β) {ws : List Worker} {i : ℕ} {w : Worker}
    (hw : ws[i]? = some w) (w' : Worker) (hsame : f w' = f w) : (ws.set i w').map f = ws.map f := by
  obtain ⟨hlt, hget⟩ := List.getElem?_eq_some_iff.mp hw
  rw [List.map_set, hsame, ← hget]
  refine List.ext_getElem? fun j => ?_
  rw [List.getElem?_set]
  split_ifs with hj hlt'
  · rw [← hj, List.getElem?_map, List.getElem?_eq_getElem hlt]
    rfl
  · rw [List.length_map] at hlt'
    exact absurd hlt hlt'
  · rfl

/-- What is taken from the worker at the front comes last. -/
theorem flatMap_set_front {ws : List Worker} {i : ℕ} {w w' : Worker} {items : List Item}
    (hw : ws[i]? = some w) (hlater : ∀ (j : ℕ) (v : Worker), ws[j]? = some v → i < j → v.taken = [])
    (htaken : w'.taken = w.taken ++ items) :
    (ws.set i w').flatMap Worker.taken = ws.flatMap Worker.taken ++ items := by
  induction ws generalizing i with
  | nil => cases hw
  | cons v ws ih =>
    cases i with
    | zero =>
      obtain rfl := Option.some.inj hw
      have hnone : ws.flatMap Worker.taken = [] := by
        refine List.flatMap_eq_nil_iff.mpr fun x hx => ?_
        obtain ⟨j, hj⟩ := List.mem_iff_getElem?.mp hx
        exact hlater (j + 1) x hj (Nat.succ_pos j)
      rw [List.set_cons_zero, List.flatMap_cons, List.flatMap_cons, hnone, htaken, List.append_nil,
        List.append_nil]
    | succ i =>
      rw [List.set_cons_succ, List.flatMap_cons, List.flatMap_cons, List.append_assoc]
      exact congrArg _ (ih hw fun j x hx hlt => hlater (j + 1) x hx (Nat.succ_lt_succ hlt))

/-- **What one step preserves**, if no part is lost. -/
theorem Inv.step {d : Download} {s s' : State} {a : Event} (h : Inv d s) (hok : LosesNothing s a)
    (hstep : s.step d a = some s') : Inv d s' := by
  cases a with
  | worker i m =>
    obtain ⟨w, hw, hmap⟩ := Option.bind_eq_some_iff.mp hstep
    obtain ⟨w', hmove, rfl⟩ := Option.map_eq_some_iff.mp hmap
    obtain ⟨hfair, hstart, hlen, htaken, hrunning, hended⟩ := (h.fair i w hw).move hmove
    have hout : ¬ i < s.front := fun hlt => hrunning (h.passed i w hw hlt).1
    refine ⟨?_, fun j v hv => ?_, ?_, fun j v hv hlt => ?_, fun j v hv hlt => ?_,
      fun hdropped j v hv hstage => ?_, fun hfinished => ?_⟩
    · show Consecutive _ _ ((s.workers.set i w').map fun w => (w.start, w.len))
      rw [map_set_same _ hw w' (by rw [hstart, hlen])]
      exact h.ranges
    · rcases Pool.getElem?_set hv with ⟨-, rfl⟩ | ⟨-, hv⟩
      · exact hfair
      · exact h.fair j v hv
    · show s.output = (s.workers.set i w').flatMap Worker.taken
      rw [h.output, List.flatMap_def, List.flatMap_def, map_set_same Worker.taken hw w' htaken]
    · rcases Pool.getElem?_set hv with ⟨rfl, rfl⟩ | ⟨-, hv⟩
      · exact absurd hlt hout
      · exact h.passed j v hv hlt
    · rcases Pool.getElem?_set hv with ⟨rfl, rfl⟩ | ⟨-, hv⟩
      · rw [htaken]
        exact h.later _ w hw hlt
      · exact h.later j v hv hlt
    · rcases Pool.getElem?_set hv with ⟨-, rfl⟩ | ⟨-, hv⟩
      · rcases hended hstage with hsettled | ⟨rfl, hsent⟩ | hgone
        · exact hsettled
        · have hall : w.sent = w.len := by
            rw [LosesNothing, State.loses, hw, Option.any_some] at hok
            exact not_not.mp (of_decide_eq_false hok)
          exact .inl (by rw [hsent, hlen, hall])
        · rw [hdropped] at hgone
          cases hgone
      · exact h.settled hdropped j v hv hstage
    · show (s.workers.set i w').length ≤ s.front
      rw [List.length_set]
      exact h.finished hfinished
  | poll =>
    dsimp only [State.step] at hstep
    split_ifs at hstep with hdropped
    have hopen : s.dropped = false := Bool.not_eq_true _ ▸ hdropped
    unfold State.pollNext at hstep
    split at hstep
    case h_1 hfront =>
      obtain rfl := Option.some.inj hstep
      exact ⟨h.ranges, h.fair, h.output, h.passed, h.later, h.settled,
        fun _ => List.getElem?_eq_none_iff.mp hfront⟩
    case h_2 w hfront =>
      split at hstep
      case h_1 item queue hqueue =>
        obtain rfl := Option.some.inj hstep
        have hlater := h.later
        refine ⟨?_, fun j v hv => ?_, ?_, fun j v hv hlt => ?_, fun j v hv hlt => ?_,
          fun _ j v hv hstage => ?_, fun hfinished => ?_⟩
        · show Consecutive _ _ ((s.workers.set s.front _).map fun w => (w.start, w.len))
          rw [map_set_same _ hfront { w with queue, taken := w.taken ++ [item] } rfl]
          exact h.ranges
        · rcases Pool.getElem?_set hv with ⟨-, rfl⟩ | ⟨-, hv⟩
          · exact (h.fair s.front w hfront).take hqueue
          · exact h.fair j v hv
        · show s.output ++ [item] = (s.workers.set s.front _).flatMap Worker.taken
          rw [flatMap_set_front hfront (fun j v hv hlt => hlater j v hv hlt) rfl, h.output]
        · rcases Pool.getElem?_set hv with ⟨rfl, -⟩ | ⟨-, hv⟩
          · exact absurd hlt (Nat.lt_irrefl _)
          · exact h.passed j v hv hlt
        · rcases Pool.getElem?_set hv with ⟨rfl, -⟩ | ⟨-, hv⟩
          · exact absurd hlt (Nat.lt_irrefl _)
          · exact h.later j v hv hlt
        · rcases Pool.getElem?_set hv with ⟨-, rfl⟩ | ⟨-, hv⟩
          · exact (h.settled hopen s.front w hfront hstage).take hqueue
          · exact h.settled hopen j v hv hstage
        · show (s.workers.set s.front _).length ≤ s.front
          rw [List.length_set]
          exact h.finished hfinished
      case h_2 hqueue =>
        split_ifs at hstep with hstage
        obtain rfl := Option.some.inj hstep
        refine ⟨h.ranges, h.fair, h.output, fun j v hv hlt => ?_,
          fun j v hv hlt => h.later j v hv (Nat.lt_of_succ_lt hlt), h.settled,
          fun hfinished => Nat.le_succ_of_le (h.finished hfinished)⟩
        rcases Nat.lt_or_eq_of_le (Nat.le_of_lt_succ hlt) with hlt | rfl
        · exact h.passed j v hv hlt
        · obtain rfl := Option.some.inj (hfront.symm.trans hv)
          exact ⟨hstage, hqueue, h.settled hopen s.front w hfront hstage⟩
  | drop =>
    obtain rfl := Option.some.inj hstep
    exact ⟨h.ranges, h.fair, h.output, h.passed, h.later, fun hfalse => (by cases hfalse),
      h.finished⟩

theorem Inv.init (d : Download) : Inv d (parallel d).init := by
  have hnew : ∀ (i : ℕ) (w : Worker), d.workers[i]? = some w → ∃ range, w = .new range := by
    intro i w hw
    have hin := List.mem_of_getElem? hw
    rw [Download.workers] at hin
    split_ifs at hin
    · cases hin
    · obtain ⟨k, -, rfl⟩ := List.mem_map.mp hin
      exact ⟨d.chunkRange k, rfl⟩
  have htaken : ∀ (i : ℕ) (w : Worker), d.workers[i]? = some w → w.taken = [] := by
    intro i w hw
    obtain ⟨range, rfl⟩ := hnew i w hw
    rfl
  refine ⟨d.consecutive, fun i w hw => ?_, ?_, fun _ _ _ hlt => absurd hlt (Nat.not_lt_zero _),
    fun i w hw _ => htaken i w hw, fun _ i w hw hstage => ?_, fun hfalse => (by cases hfalse)⟩
  · obtain ⟨range, rfl⟩ := hnew i w hw
    exact Worker.fair_new d.file range
  · refine (List.flatMap_eq_nil_iff.mpr fun w hw => ?_).symm
    obtain ⟨i, hi⟩ := List.mem_iff_getElem?.mp hw
    exact htaken i w hi
  · obtain ⟨range, rfl⟩ := hnew i w hw
    cases hstage

/-- **Several handles are faithful**, as one is: in a run in which no worker panics before it has
sent its part, the chunks before the first error are the first bytes of the range, and without
an error the range. -/
theorem parallel_faithful (d : Download) {events : List Event} {s : State}
    (h : (parallel d).run events = some s) (hok : (parallel d).Meets LosesNothing events) :
    Faithful d.file d.startOffset d.totalLen s.output s.finished := by
  have hinv : Inv d s := Machine.run_invariant_of (Inv.init d)
    (fun _ _ _ hinv hok hstep => hinv.step hok hstep) hok h
  have hfaithful := faithful_parts d.file_lt d.start_lt hinv.ranges
    (fun w hw => by
      obtain ⟨i, hi⟩ := List.mem_iff_getElem?.mp hw
      exact hinv.fair i w hi)
    (fun i w hw hlt => (hinv.passed i w hw hlt).2) hinv.later
  rw [← hinv.output] at hfaithful
  exact ⟨hfaithful.before, fun hfinished hall =>
    hfaithful.whole (decide_eq_true (hinv.finished hfinished)) hall⟩

/-- Two bytes, on two handles. -/
def twoBytes : Download :=
  { file := [7, 8], startOffset := 0, totalLen := 2, parts := 2, availableSessions := 2,
    bufferSize := 16, file_lt := by decide, start_lt := by decide }

/-- The workers send their parts, the second one first. -/
def bothParts : List Event :=
  [.worker 1 .opened, .worker 1 (.read 1), .worker 1 .send, .worker 1 .shut, .worker 0 .opened,
    .worker 0 (.read 1), .worker 0 .send, .worker 0 .shut, .poll, .poll, .poll, .poll, .poll]

/-- The first worker panics. -/
def panicking : List Event :=
  [.worker 0 .panic, .worker 1 .opened, .worker 1 (.read 1), .worker 1 .send, .worker 1 .shut,
    .poll, .poll, .poll, .poll]

/-- Both parts arrive. -/
theorem parallel_faithful_bothParts : ∃ s, (parallel twoBytes).run bothParts = some s ∧
    s.finished = true ∧ bytesOf s.output = [7, 8] ∧
      Faithful twoBytes.file 0 2 s.output s.finished := by
  have hrun : (((parallel twoBytes).run bothParts).any fun s =>
      s.finished = true ∧ bytesOf s.output = [7, 8]) = true := by decide +kernel
  obtain ⟨s, hs, hdone⟩ := Option.any_eq_true _ _ |>.mp hrun
  obtain ⟨hfinished, hbytes⟩ := of_decide_eq_true hdone
  exact ⟨s, hs, hfinished, hbytes, parallel_faithful twoBytes hs (by decide +kernel)⟩

/-- The part of a worker that panics is left out, without an error. -/
theorem panic_skips_part : ¬ ∀ (d : Download) (events : List Event) (s : State),
    (parallel d).run events = some s →
      Faithful d.file d.startOffset d.totalLen s.output s.finished := by
  intro h
  have hrun : (((parallel twoBytes).run panicking).any fun s =>
      s.finished = true ∧ s.output = [.ok [8]]) = true := by decide +kernel
  obtain ⟨s, hs, hdone⟩ := Option.any_eq_true _ _ |>.mp hrun
  obtain ⟨hfinished, houtput⟩ := of_decide_eq_true hdone
  have hwhole := (h twoBytes panicking s hs).whole hfinished
  rw [houtput] at hwhole
  exact absurd (hwhole (by decide)).2 (by decide)

end DownloadStreams
end Remote
end HelmSsh
