/-
# A remote command whose output is streamed

The loop of `exec_stream_with_channel_inner` of `src-tauri/src/remote/ssh.rs`: the messages of the
channel, the ticks of the flush interval, and how the loop ends.  The output of each kind has its
own decoder; the texts are gathered in one pending chunk, which is sent when the other kind comes,
when it is long enough, on a tick, and at the end.  `sent` are the chunks given to the sender,
which are those that an open receiver gets.  The time that a command took is left out.

* `queueStreamOutput_eq` — queueing adds the text at the end of what was sent and is pending, and
  the branch that the source calls unreachable is.
* `execStream_loses_nothing` — the chunks of a run that returns are, byte by byte and with their
  kinds, the texts in the order in which the bytes that arrived made them decodable (`emerged`),
  and for each kind the repaired text of its bytes.
-/

import HelmSsh.Errors
import HelmSsh.Remote.ExecOutput

namespace HelmSsh
namespace Remote

open Utf8

/-- The two outputs of a command. -/
inductive OutputKind where
  | stdout
  | stderr
  deriving DecidableEq

/-- `ExecStreamChunk`: the variant and its text. -/
structure ExecStreamChunk where
  kind : OutputKind
  text : Str

/-- `EXEC_STREAM_CHUNK_BYTES`. -/
def execStreamChunkBytes : ℕ := 16 * 1024

/-- The sender, with the chunks that were given to it, and the pending chunk. -/
structure StreamOutput where
  pending : Option ExecStreamChunk
  sent : List ExecStreamChunk

/-- `flush_stream_output`. -/
def flushStreamOutput (o : StreamOutput) : StreamOutput :=
  match o.pending with
  | some chunk => { pending := none, sent := o.sent ++ [chunk] }
  | none => o

/-- `stream_chunk_len` of the pending chunk. -/
def pendingLen (o : StreamOutput) : ℕ :=
  match o.pending with
  | some chunk => chunk.text.len
  | none => 0

/-- `queue_stream_output`, or nothing where it is `unreachable!`. -/
def queueStreamOutput (o : StreamOutput) (next : ExecStreamChunk) : Option StreamOutput :=
  let sameStream := o.pending.any fun current => current.kind = next.kind
  let o := if sameStream then o else flushStreamOutput o
  let queued :=
    match o.pending with
    | some current =>
      if current.kind = next.kind then
        some { o with pending := some { next with text := current.text ++ next.text } }
      else none
    | none => some { o with pending := some next }
  queued.map fun o => if execStreamChunkBytes ≤ pendingLen o then flushStreamOutput o else o

/-- What is queued only when it is not empty. -/
def queueText (o : StreamOutput) (kind : OutputKind) (text : Str) : Option StreamOutput :=
  if text.isEmpty then some o else queueStreamOutput o ⟨kind, text⟩

/-- `ChannelMsg`, as far as the loop looks at it. -/
inductive ChannelMsg where
  | data (data : List UInt8)
  | extendedData (ext : UInt32) (data : List UInt8)
  | exitStatus (exitStatus : UInt32)
  /-- The end of the input, a window adjustment and so on. -/
  | other
  deriving DecidableEq

/-- What the `select!` of the loop goes on with. -/
inductive StreamEvent where
  | tick
  | message (msg : ChannelMsg)
  deriving DecidableEq

/-- `StreamExit`. -/
inductive StreamExit where
  | completed
  | timedOut
  | canceled
  deriving DecidableEq

/-- The state of the loop. -/
structure ExecStream where
  stdout : BoundedOutput
  stderr : BoundedOutput
  stdoutDecoder : Utf8StreamDecoder
  stderrDecoder : Utf8StreamDecoder
  output : StreamOutput
  exitStatus : Option UInt32

namespace ExecStream

/-- The state before the loop. -/
def start (maxOutputBytes : UInt64) : ExecStream where
  stdout := .new maxOutputBytes
  stderr := .new maxOutputBytes
  stdoutDecoder := .default
  stderrDecoder := .default
  output := { pending := none, sent := [] }
  exitStatus := none

/-- One turn of the loop. -/
def step (s : ExecStream) : StreamEvent → Option ExecStream
  | .tick => some { s with output := flushStreamOutput s.output }
  | .message (.data data) =>
    let stdout := s.stdout.push data
    let (text, stdoutDecoder) := s.stdoutDecoder.push data
    (queueText s.output .stdout text).map fun output => { s with stdout, stdoutDecoder, output }
  | .message (.extendedData _ data) =>
    let stderr := s.stderr.push data
    let (text, stderrDecoder) := s.stderrDecoder.push data
    (queueText s.output .stderr text).map fun output => { s with stderr, stderrDecoder, output }
  | .message (.exitStatus code) => some { s with exitStatus := some code }
  | .message .other => some s

/-- The loop. -/
def loop : ExecStream → List StreamEvent → Option ExecStream
  | s, [] => some s
  | s, event :: events => (s.step event).bind fun s => loop s events

end ExecStream

/-- `ExecResult`, but for the times. -/
structure ExecResult where
  stdout : Str
  stderr : Str
  stdoutBytes : ℕ
  stderrBytes : ℕ
  outputTruncated : Bool
  exitStatus : Option UInt32
  timedOut : Bool

/-- `build_exec_result`. -/
def buildExecResult (stdout stderr : BoundedOutput) (exitStatus : Option UInt32)
    (timedOut : Bool) : Option ExecResult :=
  stdout.intoParts.bind fun (stdout, stdoutBytes, stdoutTruncated) =>
    stderr.intoParts.map fun (stderr, stderrBytes, stderrTruncated) =>
      { stdout, stderr, stdoutBytes, stderrBytes, exitStatus, timedOut
        outputTruncated := stdoutTruncated || stderrTruncated }

/-- The notice of a timeout. -/
def timeoutText : Str := .ofString "命令执行超时"

namespace ExecStream

/-- What follows the loop: the chunks that were sent, and the result. -/
def finish (s : ExecStream) (exit : StreamExit) :
    Option (List ExecStreamChunk × AppResult ExecResult) :=
  (queueText s.output .stdout s.stdoutDecoder.finish.1).bind fun output =>
    (queueText output .stderr s.stderrDecoder.finish.1).bind fun output =>
      match exit with
      | .completed =>
        let output := flushStreamOutput output
        (buildExecResult s.stdout s.stderr s.exitStatus false).map fun result =>
          (output.sent, .ok result)
      | .timedOut =>
        let stderr := s.stderr.pushLine timeoutText
        (queueStreamOutput output ⟨.stderr, timeoutText⟩).bind fun output =>
          let output := flushStreamOutput output
          (buildExecResult s.stdout stderr (some 124) true).map fun result =>
            (output.sent, .ok result)
      | .canceled => some (output.sent, .error (.remote "命令执行已取消"))

end ExecStream

/-- `exec_stream_with_channel_inner` once the command was started: the chunks that were sent, and
the result; or nothing when it panics. -/
def execStream (maxOutputBytes : UInt64) (events : List StreamEvent) (exit : StreamExit) :
    Option (List ExecStreamChunk × AppResult ExecResult) :=
  ((ExecStream.start maxOutputBytes).loop events).bind fun s => s.finish exit

/-! ### What the chunks should be -/

/-- The bytes of an output that a turn of the loop brings. -/
def StreamEvent.received (kind : OutputKind) : StreamEvent → List UInt8
  | .message (.data data) => if kind = .stdout then data else []
  | .message (.extendedData _ data) => if kind = .stderr then data else []
  | .message (.exitStatus _) => []
  | .message .other => []
  | .tick => []

/-- The bytes of an output that the loop received. -/
def received (kind : OutputKind) (events : List StreamEvent) : List UInt8 :=
  events.flatMap (StreamEvent.received kind)

/-- Bytes with the output that they belong to. -/
def tag (kind : OutputKind) (bytes : List UInt8) : List (OutputKind × UInt8) :=
  bytes.map fun b => (kind, b)

/-- The text that further bytes of an output make decodable. -/
def fresh (before more : List UInt8) : List UInt8 :=
  (decoder.decode (before ++ more)).1.drop (decoder.decode before).1.length

/-- The texts of both outputs, in the order in which the bytes that arrived made them decodable. -/
def emerged : List UInt8 → List UInt8 → List StreamEvent → List (OutputKind × UInt8)
  | _, _, [] => []
  | out, err, event :: events =>
    tag .stdout (fresh out (event.received .stdout))
      ++ tag .stderr (fresh err (event.received .stderr))
      ++ emerged (out ++ event.received .stdout) (err ++ event.received .stderr) events

/-- The texts that the end of the outputs makes decodable, and the notice of a timeout. -/
def emergedAtEnd (events : List StreamEvent) (exit : StreamExit) : List (OutputKind × UInt8) :=
  tag .stdout (cutOff (decoder.decode (received .stdout events)).2)
    ++ tag .stderr (cutOff (decoder.decode (received .stderr events)).2)
    ++ if exit = .timedOut then tag .stderr timeoutText.bytes else []

/-- The bytes of a chunk, with its kind. -/
def ExecStreamChunk.tagged (chunk : ExecStreamChunk) : List (OutputKind × UInt8) :=
  tag chunk.kind chunk.text.bytes

/-- The bytes of chunks, with their kinds. -/
def tagged (chunks : List ExecStreamChunk) : List (OutputKind × UInt8) :=
  chunks.flatMap ExecStreamChunk.tagged

/-- The bytes of one kind. -/
def ofKind (kind : OutputKind) (bytes : List (OutputKind × UInt8)) : List UInt8 :=
  (bytes.filter fun b => b.1 = kind).map Prod.snd

/-! ### The pending chunk -/

section Tags

variable {kind : OutputKind}

theorem tag_append (kind : OutputKind) (first second : List UInt8) :
    tag kind (first ++ second) = tag kind first ++ tag kind second :=
  List.map_append

theorem tagged_append (first second : List ExecStreamChunk) :
    tagged (first ++ second) = tagged first ++ tagged second :=
  List.flatMap_append

theorem tagged_singleton (chunk : ExecStreamChunk) : tagged [chunk] = chunk.tagged :=
  List.flatMap_singleton _ _

theorem ofKind_append (first second : List (OutputKind × UInt8)) :
    ofKind kind (first ++ second) = ofKind kind first ++ ofKind kind second := by
  rw [ofKind, List.filter_append, List.map_append, ofKind, ofKind]

theorem ofKind_tag (kind' : OutputKind) (bytes : List UInt8) :
    ofKind kind (tag kind' bytes) = if kind' = kind then bytes else [] := by
  induction bytes with
  | nil => split_ifs <;> rfl
  | cons b bytes ih =>
    have hcons : tag kind' (b :: bytes) = (kind', b) :: tag kind' bytes := rfl
    rw [hcons, ofKind]
    by_cases hkind : kind' = kind
    · rw [if_pos hkind] at ih ⊢
      rw [List.filter_cons_of_pos (by simp [hkind]), List.map_cons]
      exact congrArg (b :: ·) ih
    · rw [if_neg hkind] at ih ⊢
      rw [List.filter_cons_of_neg (by simp [hkind])]
      exact ih

end Tags

namespace StreamOutput

/-- The chunks, with the pending one at the end. -/
def chunks (o : StreamOutput) : List ExecStreamChunk :=
  o.sent ++ o.pending.toList

/-- No chunk is empty. -/
def Sound (o : StreamOutput) : Prop :=
  ∀ chunk ∈ o.chunks, chunk.text.bytes ≠ []

end StreamOutput

@[simp] theorem chunks_flush (o : StreamOutput) : (flushStreamOutput o).chunks = o.chunks := by
  unfold flushStreamOutput
  cases hpending : o.pending with
  | none => rfl
  | some chunk =>
    rw [StreamOutput.chunks, StreamOutput.chunks, hpending]
    exact List.append_nil _

@[simp] theorem pending_flush (o : StreamOutput) : (flushStreamOutput o).pending = none := by
  unfold flushStreamOutput
  cases hpending : o.pending with
  | none => exact hpending
  | some chunk => rfl

theorem sent_flush (o : StreamOutput) : (flushStreamOutput o).sent = o.chunks := by
  rw [← chunks_flush, StreamOutput.chunks, pending_flush]
  exact (List.append_nil _).symm

/-- **Queueing adds the text at the end**; what the source calls unreachable is. -/
theorem queueStreamOutput_eq (o : StreamOutput) (next : ExecStreamChunk) :
    ∃ o', queueStreamOutput o next = some o' ∧
      tagged o'.chunks = tagged o.chunks ++ next.tagged ∧
      (o.Sound → next.text.bytes ≠ [] → o'.Sound) := by
  -- before the text may be sent at once for its length
  obtain ⟨queued, hqueued, htagged, hsound⟩ : ∃ queued : StreamOutput,
      queueStreamOutput o next = some
        (if execStreamChunkBytes ≤ pendingLen queued then flushStreamOutput queued else queued) ∧
      tagged queued.chunks = tagged o.chunks ++ next.tagged ∧
      (o.Sound → next.text.bytes ≠ [] → queued.Sound) := by
    unfold queueStreamOutput
    by_cases hsame : o.pending.any (fun current => current.kind = next.kind) = true
    · obtain ⟨current, hcurrent, hkind⟩ := (Option.any_eq_true _ _).mp hsame
      rw [decide_eq_true_iff] at hkind
      dsimp only
      rw [if_pos hsame, hcurrent]
      dsimp only
      rw [if_pos hkind]
      refine ⟨_, rfl, ?_, fun ho hnext => ?_⟩
      · rw [StreamOutput.chunks, StreamOutput.chunks, hcurrent, tagged_append, tagged_append]
        refine (congrArg (tagged o.sent ++ ·) ?_).trans (List.append_assoc _ _ _).symm
        rw [Option.toList_some, Option.toList_some, tagged_singleton, tagged_singleton,
          ExecStreamChunk.tagged, ExecStreamChunk.tagged, ExecStreamChunk.tagged, hkind,
          ← tag_append]
        rfl
      · rintro chunk hchunk
        rcases List.mem_append.mp hchunk with hsent | hnew
        · exact ho chunk (List.mem_append_left _ hsent)
        · obtain rfl := List.mem_singleton.mp hnew
          rw [Str.append_bytes]
          exact List.append_ne_nil_of_right_ne_nil _ hnext
    · dsimp only
      rw [if_neg hsame, pending_flush]
      dsimp only
      refine ⟨_, rfl, ?_, fun ho hnext => ?_⟩
      · rw [StreamOutput.chunks, sent_flush, tagged_append, Option.toList_some, tagged_singleton]
      · rintro chunk hchunk
        rw [StreamOutput.chunks, sent_flush] at hchunk
        rcases List.mem_append.mp hchunk with hold | hnew
        · exact ho chunk hold
        · obtain rfl := List.mem_singleton.mp hnew
          exact hnext
  refine ⟨_, hqueued, ?_, fun ho hnext => ?_⟩
  · split_ifs
    · rw [chunks_flush, htagged]
    · exact htagged
  · have := hsound ho hnext
    split_ifs
    · rw [StreamOutput.Sound, chunks_flush]
      exact this
    · exact this

theorem queueText_eq (o : StreamOutput) (kind : OutputKind) (text : Str) :
    ∃ o', queueText o kind text = some o' ∧
      tagged o'.chunks = tagged o.chunks ++ tag kind text.bytes ∧ (o.Sound → o'.Sound) := by
  unfold queueText
  split_ifs with hempty
  · have hnil : text.bytes = [] := List.isEmpty_iff.mp hempty
    refine ⟨o, rfl, ?_, id⟩
    rw [hnil]
    exact (List.append_nil _).symm
  · obtain ⟨o', hqueue, htagged, hsound⟩ := queueStreamOutput_eq o ⟨kind, text⟩
    exact ⟨o', hqueue, htagged, fun ho => hsound ho fun hnil => hempty (List.isEmpty_iff.mpr hnil)⟩

/-! ### The loop -/

theorem decode_fresh (before more : List UInt8) :
    (decoder.decode (before ++ more)).1 = (decoder.decode before).1 ++ fresh before more := by
  rw [fresh, decoder.decode_append]
  dsimp only
  rw [List.drop_left]

@[simp] theorem fresh_nil (before : List UInt8) : fresh before [] = [] := by
  rw [fresh, List.append_nil, List.drop_length]

theorem push_fresh {d : Utf8StreamDecoder} {input : List UInt8} (bytes : List UInt8)
    (h : d.pending = (decoder.decode input).2) :
    (d.push bytes).1.bytes = fresh input bytes ∧
      (d.push bytes).2.pending = (decoder.decode (input ++ bytes)).2 := by
  obtain ⟨hout, hheld⟩ := d.push_after bytes h
  rw [decode_fresh, List.append_right_inj] at hout
  exact ⟨hout, hheld⟩

/-- Where the loop is after the bytes of both outputs. -/
structure ExecStream.At (out err : List UInt8) (s : ExecStream) : Prop where
  stdout_held : s.stdoutDecoder.pending = (decoder.decode out).2
  stderr_held : s.stderrDecoder.pending = (decoder.decode err).2
  sound : s.output.Sound
  stdout_room : 1 ≤ s.stdout.maxBytes
  stderr_room : 1 ≤ s.stderr.maxBytes

namespace ExecStream

variable {s : ExecStream} {out err : List UInt8}

theorem At.quiet {s' : ExecStream} {event : StreamEvent} (h : s'.At out err)
    (hquiet : ∀ kind, event.received kind = []) (hchunks : s'.output.chunks = s.output.chunks) :
    s'.At (out ++ event.received .stdout) (err ++ event.received .stderr) ∧
      tagged s'.output.chunks = tagged s.output.chunks
        ++ (tag .stdout (fresh out (event.received .stdout))
          ++ tag .stderr (fresh err (event.received .stderr))) := by
  rw [hquiet, hquiet, fresh_nil, fresh_nil, List.append_nil, List.append_nil, hchunks]
  exact ⟨h, (List.append_nil _).symm⟩

/-- **What a turn of the loop adds**: the text that its bytes make decodable. -/
theorem At.step (h : s.At out err) (event : StreamEvent) :
    ∃ s', s.step event = some s' ∧
      s'.At (out ++ event.received .stdout) (err ++ event.received .stderr) ∧
      tagged s'.output.chunks = tagged s.output.chunks
        ++ (tag .stdout (fresh out (event.received .stdout))
          ++ tag .stderr (fresh err (event.received .stderr))) := by
  cases event with
  | tick =>
    have hsound : (flushStreamOutput s.output).Sound := by
      rw [StreamOutput.Sound, chunks_flush]
      exact h.sound
    exact ⟨_, rfl, At.quiet ⟨h.stdout_held, h.stderr_held, hsound, h.stdout_room, h.stderr_room⟩
      (fun _ => rfl) (chunks_flush _)⟩
  | message msg =>
    cases msg with
    | data data =>
      obtain ⟨htext, hheld⟩ := push_fresh data h.stdout_held
      obtain ⟨o', hqueue, htagged, hsound⟩ :=
        queueText_eq s.output .stdout (s.stdoutDecoder.push data).1
      refine ⟨_, by rw [ExecStream.step]; dsimp only; rw [hqueue]; rfl, ?_, ?_⟩
      · exact ⟨hheld, (List.append_nil err).symm ▸ h.stderr_held, hsound h.sound,
          (BoundedOutput.maxBytes_push _ _).symm ▸ h.stdout_room, h.stderr_room⟩
      · dsimp only
        rw [htagged, htext, StreamEvent.received, StreamEvent.received, if_pos rfl,
          if_neg (by decide), fresh_nil]
        exact congrArg (_ ++ ·) (List.append_nil _).symm
    | extendedData ext data =>
      obtain ⟨htext, hheld⟩ := push_fresh data h.stderr_held
      obtain ⟨o', hqueue, htagged, hsound⟩ :=
        queueText_eq s.output .stderr (s.stderrDecoder.push data).1
      refine ⟨_, by rw [ExecStream.step]; dsimp only; rw [hqueue]; rfl, ?_, ?_⟩
      · exact ⟨(List.append_nil out).symm ▸ h.stdout_held, hheld, hsound h.sound, h.stdout_room,
          (BoundedOutput.maxBytes_push _ _).symm ▸ h.stderr_room⟩
      · dsimp only
        rw [htagged, htext, StreamEvent.received, StreamEvent.received, if_pos rfl,
          if_neg (by decide), fresh_nil]
        rfl
    | exitStatus code =>
      exact ⟨_, rfl, At.quiet ⟨h.stdout_held, h.stderr_held, h.sound, h.stdout_room, h.stderr_room⟩
        (fun _ => rfl) rfl⟩
    | other => exact ⟨_, rfl, At.quiet h (fun _ => rfl) rfl⟩

/-- **What the loop adds**: the texts in the order in which they became decodable. -/
theorem At.loop (h : s.At out err) (events : List StreamEvent) :
    ∃ s', s.loop events = some s' ∧
      s'.At (out ++ received .stdout events) (err ++ received .stderr events) ∧
      tagged s'.output.chunks = tagged s.output.chunks ++ emerged out err events := by
  induction events generalizing s out err with
  | nil =>
    refine ⟨s, rfl, ?_, (List.append_nil _).symm⟩
    rw [received, received, List.flatMap_nil, List.flatMap_nil, List.append_nil, List.append_nil]
    exact h
  | cons event events ih =>
    obtain ⟨s', hstep, hat, htagged⟩ := h.step event
    obtain ⟨s'', hloop, hat', htagged'⟩ := ih hat
    refine ⟨s'', by rw [ExecStream.loop, hstep]; exact hloop, ?_, ?_⟩
    · rw [List.append_assoc, List.append_assoc] at hat'
      exact hat'
    · rw [htagged', htagged, emerged, List.append_assoc, List.append_assoc]

theorem at_start (maxOutputBytes : UInt64) : (start maxOutputBytes).At [] [] where
  stdout_held := rfl
  stderr_held := rfl
  sound := by
    intro chunk hchunk
    cases hchunk
  stdout_room := Nat.le_max_right _ _
  stderr_room := Nat.le_max_right _ _

end ExecStream

/-! ### The end -/

theorem buildExecResult_isSome (stdout stderr : BoundedOutput) (exitStatus : Option UInt32)
    (timedOut : Bool) (hstdout : 1 ≤ stdout.maxBytes) (hstderr : 1 ≤ stderr.maxBytes) :
    ∃ result, buildExecResult stdout stderr exitStatus timedOut = some result := by
  obtain ⟨text, truncated, hout, -⟩ := stdout.intoParts_eq hstdout
  obtain ⟨text', truncated', herr, -⟩ := stderr.intoParts_eq hstderr
  exact ⟨_, by rw [buildExecResult, hout, herr]; rfl⟩

theorem timeoutText_ne_nil : timeoutText.bytes ≠ [] := by
  decide

/-- What is sent at the end of a run that is not canceled. -/
theorem ExecStream.At.finish {s : ExecStream} {out err : List UInt8} (h : s.At out err)
    {exit : StreamExit} (hexit : exit ≠ .canceled) :
    ∃ sent result, s.finish exit = some (sent, .ok result) ∧
      tagged sent = tagged s.output.chunks ++ (tag .stdout (cutOff (decoder.decode out).2)
        ++ tag .stderr (cutOff (decoder.decode err).2)
        ++ if exit = .timedOut then tag .stderr timeoutText.bytes else []) ∧
      ∀ chunk ∈ sent, chunk.text.bytes ≠ [] := by
  obtain ⟨o, hout, houtTagged, houtSound⟩ :=
    queueText_eq s.output .stdout s.stdoutDecoder.finish.1
  obtain ⟨o', herr, herrTagged, herrSound⟩ := queueText_eq o .stderr s.stderrDecoder.finish.1
  have hsound := herrSound (houtSound h.sound)
  rw [Utf8StreamDecoder.finish_eq h.stdout_held] at houtTagged
  rw [Utf8StreamDecoder.finish_eq h.stderr_held, houtTagged] at herrTagged
  cases exit with
  | canceled => exact absurd rfl hexit
  | completed =>
    obtain ⟨result, hresult⟩ := buildExecResult_isSome s.stdout s.stderr s.exitStatus false
      h.stdout_room h.stderr_room
    refine ⟨o'.chunks, result, ?_, ?_, hsound⟩
    · rw [ExecStream.finish, hout, Option.bind_some, herr, Option.bind_some]
      dsimp only
      rw [hresult, sent_flush]
      rfl
    · rw [herrTagged, if_neg (by decide), List.append_nil, List.append_assoc]
  | timedOut =>
    have hroom : 1 ≤ (s.stderr.pushLine timeoutText).maxBytes := by
      rw [BoundedOutput.maxBytes_pushLine]
      exact h.stderr_room
    obtain ⟨result, hresult⟩ := buildExecResult_isSome s.stdout
      (s.stderr.pushLine timeoutText) (some 124) true h.stdout_room hroom
    obtain ⟨o'', hqueue, hqueueTagged, hqueueSound⟩ :=
      queueStreamOutput_eq o' ⟨.stderr, timeoutText⟩
    refine ⟨o''.chunks, result, ?_, ?_, hqueueSound hsound timeoutText_ne_nil⟩
    · rw [ExecStream.finish, hout, Option.bind_some, herr, Option.bind_some]
      dsimp only
      rw [hqueue, Option.bind_some, hresult, sent_flush]
      rfl
    · rw [hqueueTagged, herrTagged, if_pos rfl, List.append_assoc, List.append_assoc,
        List.append_assoc]
      rfl

theorem ExecStream.finish_canceled (s : ExecStream) :
    ∃ sent, s.finish .canceled = some (sent, .error (.remote "命令执行已取消")) := by
  obtain ⟨o, hout, -⟩ := queueText_eq s.output .stdout s.stdoutDecoder.finish.1
  obtain ⟨o', herr, -⟩ := queueText_eq o .stderr s.stderrDecoder.finish.1
  exact ⟨o'.sent, by rw [ExecStream.finish, hout, Option.bind_some, herr, Option.bind_some]⟩

/-- What emerged of a kind is what its bytes decode to. -/
theorem ofKind_emerged (kind : OutputKind) (before : OutputKind → List UInt8)
    (events : List StreamEvent) :
    (decoder.decode (before kind)).1 ++ ofKind kind
      (emerged (before .stdout) (before .stderr) events)
      = (decoder.decode (before kind ++ received kind events)).1 := by
  induction events generalizing before with
  | nil =>
    rw [received, List.flatMap_nil, List.append_nil]
    exact List.append_nil _
  | cons event events ih =>
    have := ih fun kind => before kind ++ event.received kind
    rw [emerged, received, List.flatMap_cons, ← List.append_assoc (before kind), ← received, ← this,
      ofKind_append, ofKind_append, ofKind_tag, ofKind_tag, decode_fresh, List.append_assoc]
    cases kind with
    | stdout =>
      rw [if_pos rfl, if_neg (by decide), List.nil_append, List.append_assoc]
    | stderr =>
      rw [if_pos rfl, if_neg (by decide), List.nil_append, List.append_assoc]

/-- **Streaming loses nothing.**  Every run returns; it returns a result unless it is canceled, and
then the chunks that were sent are, byte by byte and with their kinds, the texts in the order in
which they became decodable.  So the chunks of a kind are the repaired text of all its bytes, with
the notice of a timeout at the end of the errors, and no chunk is empty. -/
theorem execStream_loses_nothing (maxOutputBytes : UInt64) (events : List StreamEvent)
    (exit : StreamExit) :
    ∃ sent outcome, execStream maxOutputBytes events exit = some (sent, outcome) ∧
      ((∃ result, outcome = .ok result) ↔ exit ≠ .canceled) ∧
      ((∃ result, outcome = .ok result) →
        tagged sent = emerged [] [] events ++ emergedAtEnd events exit ∧
        ofKind .stdout (tagged sent) = (fromUtf8Lossy (received .stdout events)).bytes ∧
        ofKind .stderr (tagged sent) = (fromUtf8Lossy (received .stderr events)).bytes
          ++ (if exit = .timedOut then timeoutText.bytes else []) ∧
        ∀ chunk ∈ sent, chunk.text.bytes ≠ []) := by
  obtain ⟨s, hloop, hat, htagged⟩ := (ExecStream.at_start maxOutputBytes).loop events
  rw [List.nil_append, List.nil_append] at hat
  by_cases hexit : exit = .canceled
  · subst hexit
    obtain ⟨sent, hfinish⟩ := s.finish_canceled
    refine ⟨sent, _, by rw [execStream, hloop]; exact hfinish, ?_, ?_⟩
    · refine ⟨?_, fun h => absurd rfl h⟩
      rintro ⟨result, hresult⟩
      cases hresult
    · rintro ⟨result, hresult⟩
      cases hresult
  · obtain ⟨sent, result, hfinish, hsent, hsound⟩ := hat.finish hexit
    refine ⟨sent, .ok result, by rw [execStream, hloop]; exact hfinish,
      ⟨fun _ => hexit, fun _ => ⟨result, rfl⟩⟩, fun _ => ?_⟩
    have hall : tagged sent = emerged [] [] events ++ emergedAtEnd events exit := by
      rw [hsent, htagged]
      rfl
    have hkind := fun kind => ofKind_emerged kind (fun _ => []) events
    refine ⟨hall, ?_, ?_, hsound⟩
    · rw [hall, fromUtf8Lossy_bytes, ofKind_append, emergedAtEnd, ofKind_append, ofKind_append,
        ofKind_tag, ofKind_tag, if_pos rfl, if_neg (by decide), List.append_nil]
      have hnotice : ofKind .stdout
          (if exit = .timedOut then tag .stderr timeoutText.bytes else []) = [] := by
        split_ifs
        · rw [ofKind_tag, if_neg (by decide)]
        · rfl
      rw [hnotice, List.append_nil]
      exact congrArg (· ++ _) (hkind .stdout)
    · have hnotice : ofKind .stderr
          (if exit = .timedOut then tag .stderr timeoutText.bytes else [])
            = if exit = .timedOut then timeoutText.bytes else [] := by
        split_ifs
        · rw [ofKind_tag, if_pos rfl]
        · rfl
      rw [hall, fromUtf8Lossy_bytes, ofKind_append, emergedAtEnd, ofKind_append, ofKind_append,
        ofKind_tag, ofKind_tag, if_pos rfl, if_neg (by decide), List.nil_append, hnotice,
        ← List.append_assoc]
      exact congrArg (· ++ _ ++ _) (hkind .stderr)

/-- A character in two pieces with an error between them, and a timeout. -/
example : ((execStream 8 [.message (.data [0xE8, 0xBE]), .message (.extendedData 1 [0x21]), .tick,
    .message (.data [0x93])] .completed).map fun run => run.1.map fun c => (c.kind, c.text.bytes))
      = some [(.stderr, [0x21]), (.stdout, [0xE8, 0xBE, 0x93])] := by
  decide

end Remote
end HelmSsh
