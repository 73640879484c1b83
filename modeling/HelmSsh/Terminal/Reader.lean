/-
# The terminal reader and the start of the stream

The reader task of `open_terminal` and `terminal_start`
(`src-tauri/src/remote/runtime_terminal.rs`), interleaved.  The reader takes one
channel message at a time, passes the outputs that its batch makes ready to
`emit_or_buffer_terminal_output` one by one, each under the gate's lock, flushes
its batch on a tick, and after the end of the channel flushes what is left,
removes the terminal's record and emits the closed event.  `terminal_start` looks
the record up, takes the gate's lock, and sends the buffered outputs before it
releases it.

The events are these operations, so that a start can fall between any two of
them: between the record lookup and the lock, between two outputs of one batch,
or after the record is gone.  The runs are those in which the terminal is not
closed locally and the channel takes every frame that `send_frame` gives it; how
long `send_frame` waits for credit (`HelmSsh.Terminal.FlowControl`) only decides
when its event happens.

The results are about the tagged bytes of `received`, the channel's bytes with
the notice of each exit status in its place:

* `terminal_output_lossless` — the payloads of the frames are a contiguous part
  of them, a suffix once the reader is done, and all of them when a start was
  accepted after at most 4 MiB of output; no frame is refused for its size;
* `start_after_close_refused` — a start that looks up the record after the reader
  removed it is refused, and the output before it reaches nobody.  The front end
  knows such a terminal by the closed event only.
-/

import HelmSsh.Terminal.Output
import Mathlib.Data.List.TakeWhile

namespace HelmSsh
namespace Terminal

/-- The text `进程退出，状态码 ` in UTF-8. -/
def exitNoticePrefix : List UInt8 :=
  [232, 191, 155, 231, 168, 139, 233, 128, 128, 229, 135, 186, 239, 188, 140, 231, 138, 182, 230,
    128, 129, 231, 160, 129, 32]

/-- The system notice for an exit status, `进程退出，状态码 {exit_status}`. -/
def exitNotice (exitStatus : UInt32) : PendingOutput :=
  { kind := .system
    payload := exitNoticePrefix ++
      (Nat.toDigits 10 exitStatus.toNat).map fun c => UInt8.ofNat c.toNat }

example : "进程退出，状态码 ".toUTF8 = ⟨⟨exitNoticePrefix⟩⟩ := by decide

/-- The notice fits into a frame: an exit status has at most ten digits. -/
theorem exitNotice_sendable (exitStatus : UInt32) : (exitNotice exitStatus).Sendable := by
  have hdigits : (Nat.toDigits 10 exitStatus.toNat).length ≤ 10 := by
    rw [Nat.length_toDigits_le_iff (by decide) (by decide)]
    have := exitStatus.toNat_lt
    omega
  have hfront : exitNoticePrefix.length = 25 := rfl
  simp only [PendingOutput.Sendable, exitNotice, terminalFrameBytes, List.length_append,
    List.length_map, hfront]
  omega

/-- How far the reader task has come. -/
inductive ReaderPhase where
  /-- In the read loop. -/
  | reading
  /-- Past the loop, with the last outputs to emit. -/
  | draining
  /-- The record is removed. -/
  | removed
  /-- The closed event is out. -/
  | closed
  deriving DecidableEq

/-- One terminal: its reader, its gate and its `terminal_start` calls. -/
structure Stream where
  reader : ReaderPhase
  batch : OutputBatch
  /-- Outputs that the reader still has to emit, in order. -/
  queue : List PendingOutput
  /-- `TerminalFlowControl::urgent`. -/
  urgent : Bool
  gate : OutputGate
  /-- The `terminal_start` that holds the gate's lock, with the outputs it still
  has to send. -/
  replay : Option (List PendingOutput)
  /-- The terminal's record is in the registry. -/
  registered : Bool
  /-- `terminal_start` calls that found the record and wait for the lock. -/
  starters : ℕ
  /-- `terminal_start` calls that ended with `missing_terminal`. -/
  refused : ℕ
  /-- Frames handed to the channel, oldest first. -/
  frames : List Frame
  /-- The closed frame was sent on the channel. -/
  closedFrame : Bool
  /-- Some `send_frame` ended with an error. -/
  sendRejected : Bool

/-- One operation of the reader, of a `terminal_start` or of `terminal_write`. -/
inductive StreamEvent where
  /-- `ChannelMsg::Data`, or `ExtendedData`; `idle` when the last data is 8 ms old. -/
  | data (extended : Bool) (bytes : List UInt8) (idle : Bool)
  | exitStatus (status : UInt32)
  /-- Any other channel message. -/
  | otherMessage
  | flushTick
  /-- The channel ended. -/
  | channelEnd
  /-- `emit_or_buffer_terminal_output` of the next output. -/
  | emit
  | removeRecord
  | emitClosed
  /-- `terminal_write` marks the next output urgent. -/
  | write
  | startLookup
  | startLock
  | startSend
  | startReturn
  deriving DecidableEq

namespace Stream

/-- A terminal whose reader was just let go. -/
def init : Stream :=
  { reader := .reading, batch := none, queue := [], urgent := true,
    gate := .new maxTerminalStartupOutputBytes, replay := none, registered := true, starters := 0,
    refused := 0, frames := [], closedFrame := false, sendRejected := false }

/-- `send_frame` up to the channel: the frame, if its length is valid. -/
def sendFrame (o : PendingOutput) : Option Frame :=
  match h : FlowControl.checkFrame o.frameLen with
  | .ok _ => some ⟨o, PendingOutput.checkFrame_ok.mp h⟩
  | .error _ => none

/-- The end of the read loop: the batch is the last output. -/
def leaveLoop (s : Stream) : Stream :=
  { s with reader := .draining, queue := s.batch.toList, batch := none }

/-- `emit_or_buffer_terminal_output` of `o`, with `rest` to emit after it. -/
def emitOutput (s : Stream) (o : PendingOutput) (rest : List PendingOutput) : Stream :=
  if s.gate.channel then
    match sendFrame o with
    | some f => { s with frames := s.frames ++ [f], queue := rest }
    | none =>
      let s := { s with sendRejected := true, queue := rest }
      if s.reader = .reading then s.leaveLoop else s
  else if ¬ s.gate.streaming then { s with gate := s.gate.pushPending o, queue := rest }
  else { s with queue := rest }

/-- The message of a data event is an urgent one. -/
def isUrgent (s : Stream) (idle : Bool) : Bool :=
  s.urgent || idle

/-- The kind of the data of a channel message. -/
def dataKind (extended : Bool) : OutputKind :=
  if extended then .error else .output

/-- The reader waits for a message or a tick. -/
def Waiting (s : Stream) : Prop :=
  s.reader = .reading ∧ s.queue = []

instance (s : Stream) : Decidable s.Waiting :=
  inferInstanceAs (Decidable (_ ∧ _))

/-- The effect of one operation. -/
def step (s : Stream) : StreamEvent → Option Stream
  | .data extended bytes idle =>
    if s.Waiting then
      let r := s.batch.push (dataKind extended) bytes
      if s.isUrgent idle then
        some { s with urgent := false, batch := none, queue := r.2 ++ r.1.toList }
      else some { s with urgent := false, batch := r.1, queue := r.2 }
    else none
  | .exitStatus status =>
    if s.Waiting then
      some { s with batch := none, queue := s.batch.toList ++ [exitNotice status] }
    else none
  | .otherMessage => if s.Waiting then some s else none
  | .flushTick =>
    if s.Waiting ∧ s.batch.isSome then
      some { s with batch := none, queue := s.batch.toList }
    else none
  | .channelEnd => if s.Waiting then some s.leaveLoop else none
  | .emit =>
    match s.queue, s.replay with
    | o :: rest, none => some (s.emitOutput o rest)
    | _, _ => none
  | .removeRecord =>
    if s.reader = .draining ∧ s.queue = [] then
      some { s with reader := .removed, registered := false }
    else none
  | .emitClosed =>
    if s.reader = .removed ∧ s.replay = none then
      some { s with
        reader := .closed
        closedFrame := s.closedFrame || s.gate.channel
        gate := { s.gate with channel := false } }
    else none
  | .write => some { s with urgent := true }
  | .startLookup =>
    if s.registered then some { s with starters := s.starters + 1 }
    else some { s with refused := s.refused + 1 }
  | .startLock =>
    if 0 < s.starters ∧ s.replay = none then
      if s.gate.streaming then some { s with starters := s.starters - 1 }
      else
        some { s with
          starters := s.starters - 1
          gate := { s.gate.start.1 with channel := true }
          replay := some s.gate.start.2 }
    else none
  | .startSend =>
    match s.replay with
    | some (o :: rest) =>
      match sendFrame o with
      | some f => some { s with frames := s.frames ++ [f], replay := some rest }
      | none => some { s with sendRejected := true, replay := none }
    | _ => none
  | .startReturn => if s.replay = some [] then some { s with replay := none } else none

end Stream

/-- The terminal, from the start of its reader. -/
def streamMachine : Machine Stream StreamEvent where
  init := .init
  step := Stream.step

/-! ### Received bytes and bytes on their way -/

/-- The tagged bytes that an event brings to the reader. -/
def receivedBy : StreamEvent → List (OutputKind × UInt8)
  | .data extended bytes _ => tag (Stream.dataKind extended) bytes
  | .exitStatus status => (exitNotice status).tagged
  | _ => []

/-- The tagged bytes of a history: the channel's data and the exit notices, in
the order of their events. -/
def received (trace : List StreamEvent) : List (OutputKind × UInt8) :=
  trace.flatMap receivedBy

/-- The history before the first start. -/
def beforeStart (trace : List StreamEvent) : List StreamEvent :=
  trace.takeWhile fun e => e ≠ .startLock

theorem received_append (as bs : List StreamEvent) :
    received (as ++ bs) = received as ++ received bs :=
  List.flatMap_append

theorem received_concat (trace : List StreamEvent) (e : StreamEvent) :
    received (trace ++ [e]) = received trace ++ receivedBy e := by
  rw [received_append]
  exact congrArg _ (List.flatMap_singleton receivedBy e)

theorem beforeStart_eq_self {trace : List StreamEvent} (h : StreamEvent.startLock ∉ trace) :
    beforeStart trace = trace := by
  refine List.takeWhile_eq_self_iff.mpr fun e he => ?_
  simp only [ne_eq, decide_eq_true_eq]
  rintro rfl
  exact h he

/-- A longer history has no fewer bytes before its start. -/
theorem length_received_beforeStart_le (trace : List StreamEvent) (e : StreamEvent) :
    (received (beforeStart trace)).length ≤ (received (beforeStart (trace ++ [e]))).length := by
  have hfront : beforeStart trace <+: beforeStart (trace ++ [e]) := by
    unfold beforeStart
    rw [List.takeWhile_append]
    split_ifs
    · exact (List.takeWhile_prefix _).trans (List.prefix_append _ _)
    · exact List.prefix_rfl
  obtain ⟨rest, hrest⟩ := hfront
  rw [← hrest, received_append, List.length_append]
  omega

namespace Stream

/-- The tagged bytes put into frames. -/
def sentTagged (s : Stream) : List (OutputKind × UInt8) :=
  taggedAll (s.frames.map Subtype.val)

/-- The tagged bytes between the channel and the frames, oldest first. -/
def inFlight (s : Stream) : List (OutputKind × UInt8) :=
  taggedAll (s.replay.getD []) ++ taggedAll s.gate.pending ++ taggedAll s.queue ++ s.batch.tagged

/-- What every reachable terminal satisfies. -/
structure Shape (s : Stream) : Prop where
  batch_open : s.batch.Open
  queue_sendable : ∀ o ∈ s.queue, o.Sendable
  pending_sendable : ∀ o ∈ s.gate.pending, o.Sendable
  replay_sendable : ∀ o ∈ s.replay.getD [], o.Sendable
  counted : s.gate.Counted
  capacity : s.gate.maxPendingBytes = maxTerminalStartupOutputBytes
  /-- Before the start nothing is sent or being sent. -/
  unstarted : s.gate.streaming = false → s.frames = [] ∧ s.replay = none
  /-- After the start the buffer stays empty. -/
  started : s.gate.streaming = true → s.gate.pending = []
  /-- The channel is attached by the start and detached by the closed event. -/
  attached : s.reader ≠ .closed → s.gate.channel = s.gate.streaming
  /-- Past the loop there is no batch. -/
  drained : s.reader ≠ .reading → s.batch = none
  /-- The record is removed after the last output. -/
  emptied : s.reader = .removed ∨ s.reader = .closed → s.queue = []
  accepted : s.sendRejected = false

theorem shape_init : init.Shape where
  batch_open := OutputBatch.open_none
  queue_sendable := fun _ ho => (List.not_mem_nil ho).elim
  pending_sendable := fun _ ho => (List.not_mem_nil ho).elim
  replay_sendable := fun _ ho => (List.not_mem_nil ho).elim
  counted := OutputGate.counted_new maxTerminalStartupOutputBytes
  capacity := rfl
  unstarted := fun _ => ⟨rfl, rfl⟩
  started := fun _ => rfl
  attached := fun _ => rfl
  drained := fun _ => rfl
  emptied := fun _ => rfl
  accepted := rfl

theorem sendFrame_of_sendable {o : PendingOutput} (h : o.Sendable) :
    sendFrame o = some ⟨o, h⟩ := by
  unfold sendFrame
  split
  · rfl
  · next hc =>
    rw [PendingOutput.checkFrame_ok.mpr h] at hc
    cases hc

theorem Shape.leaveLoop {s : Stream} (h : s.Shape) (hwait : s.Waiting) : s.leaveLoop.Shape where
  batch_open := OutputBatch.open_none
  queue_sendable := h.batch_open.sendable
  pending_sendable := h.pending_sendable
  replay_sendable := h.replay_sendable
  counted := h.counted
  capacity := h.capacity
  unstarted := h.unstarted
  started := h.started
  attached := fun _ => h.attached (by rw [hwait.1]; decide)
  drained := fun _ => rfl
  emptied := fun hphase => by rcases hphase with hphase | hphase <;> cases hphase
  accepted := h.accepted

/-- Emitting the next output keeps the shape: it is sent, or buffered before the
start. -/
theorem Shape.emitOutput {s : Stream} (h : s.Shape) {o : PendingOutput}
    {rest : List PendingOutput} (hqueue : s.queue = o :: rest) : (s.emitOutput o rest).Shape := by
  have ho : o.Sendable := h.queue_sendable o (by rw [hqueue]; exact List.mem_cons_self)
  have hrest : ∀ p ∈ rest, p.Sendable := fun p hp =>
    h.queue_sendable p (by rw [hqueue]; exact List.mem_cons_of_mem o hp)
  have hopen : s.reader ≠ .removed ∧ s.reader ≠ .closed := by
    refine ⟨fun hr => ?_, fun hr => ?_⟩
    · simp [h.emptied (.inl hr)] at hqueue
    · simp [h.emptied (.inr hr)] at hqueue
  have hemptied : s.reader = .removed ∨ s.reader = .closed → rest = [] := fun hr =>
    (hr.elim hopen.1 hopen.2).elim
  have hattached := h.attached hopen.2
  unfold Stream.emitOutput
  split_ifs with hchannel hstream
  · rw [sendFrame_of_sendable ho]
    refine { h with
      queue_sendable := hrest, unstarted := fun hu => ?_, emptied := hemptied }
    rw [← hattached, hchannel] at hu
    cases hu
  · exact { h with queue_sendable := hrest, emptied := hemptied }
  · have hfit : o.payload.length ≤ s.gate.maxPendingBytes := by
      rw [h.capacity]
      exact ho.2.trans (by decide)
    refine { h with
      queue_sendable := hrest
      pending_sendable := fun p hp => ?_
      counted := h.counted.pushPending o
      capacity := by rw [OutputGate.pushPending_maxPendingBytes]; exact h.capacity
      unstarted := fun hu => h.unstarted (by rwa [OutputGate.pushPending_streaming] at hu)
      started := fun hs => ?_
      attached := fun hr => by
        rw [OutputGate.pushPending_channel, OutputGate.pushPending_streaming]
        exact h.attached hr
      emptied := hemptied }
    · rcases OutputGate.mem_pushPending h.counted hfit hp with hp | rfl
      · exact h.pending_sendable p hp
      · exact ho
    · rw [OutputGate.pushPending_streaming] at hs
      exact (hstream hs).elim

/-- **One operation keeps the shape.** -/
theorem Shape.step {s s' : Stream} {e : StreamEvent} (h : s.Shape)
    (hstep : s.step e = some s') : s'.Shape := by
  cases e with
  | data extended bytes idle =>
    simp only [Stream.step, Option.ite_none_right_eq_some] at hstep
    obtain ⟨hwait, hstep⟩ := hstep
    have hopen := OutputBatch.push_open (dataKind extended) bytes h.batch_open
    have hready := OutputBatch.push_sendable (dataKind extended) bytes h.batch_open
    have hreading : ∀ {P : Prop}, s.reader ≠ .reading → P := fun hr => (hr hwait.1).elim
    have hlooping : ∀ {P : Prop}, s.reader = .removed ∨ s.reader = .closed → P := fun hr => by
      rcases hr with hr | hr <;> rw [hwait.1] at hr <;> cases hr
    split_ifs at hstep <;> obtain rfl := Option.some.inj hstep
    · refine { h with
        batch_open := OutputBatch.open_none, queue_sendable := fun o ho => ?_,
        drained := fun _ => rfl, emptied := fun hr => hlooping hr }
      rcases List.mem_append.mp ho with ho | ho
      · exact hready o ho
      · exact hopen.sendable o ho
    · exact { h with
        batch_open := hopen, queue_sendable := hready, drained := fun hr => hreading hr,
        emptied := fun hr => hlooping hr }
  | exitStatus status =>
    obtain ⟨hwait, rfl⟩ := Option.ite_some_none_eq_some.mp hstep
    refine { h with
      batch_open := OutputBatch.open_none, queue_sendable := fun o ho => ?_,
      drained := fun _ => rfl, emptied := fun hr => ?_ }
    · rcases List.mem_append.mp ho with ho | ho
      · exact h.batch_open.sendable o ho
      · obtain rfl := List.mem_singleton.mp ho
        exact exitNotice_sendable status
    · simp [hwait.1] at hr
  | otherMessage =>
    obtain ⟨-, rfl⟩ := Option.ite_some_none_eq_some.mp hstep
    exact h
  | flushTick =>
    simp only [Stream.step, Option.ite_none_right_eq_some, Option.some.injEq] at hstep
    obtain ⟨⟨hwait, -⟩, rfl⟩ := hstep
    refine { h with
      batch_open := OutputBatch.open_none, queue_sendable := h.batch_open.sendable,
      drained := fun _ => rfl, emptied := fun hr => ?_ }
    simp [hwait.1] at hr
  | channelEnd =>
    obtain ⟨hwait, rfl⟩ := Option.ite_some_none_eq_some.mp hstep
    exact h.leaveLoop hwait
  | emit =>
    simp only [Stream.step] at hstep
    split at hstep
    · next o rest hqueue _ =>
      obtain rfl := Option.some.inj hstep
      exact h.emitOutput hqueue
    · cases hstep
  | removeRecord =>
    simp only [Stream.step, Option.ite_none_right_eq_some, Option.some.injEq] at hstep
    obtain ⟨⟨hdraining, hqueue⟩, rfl⟩ := hstep
    refine { h with
      attached := fun _ => h.attached (by rw [hdraining]; decide),
      drained := fun _ => h.drained (by rw [hdraining]; decide), emptied := fun _ => hqueue }
  | emitClosed =>
    simp only [Stream.step, Option.ite_none_right_eq_some, Option.some.injEq] at hstep
    obtain ⟨⟨hremoved, -⟩, rfl⟩ := hstep
    refine { h with
      counted := ⟨h.counted.bytes_eq, h.counted.bytes_le⟩,
      attached := fun hr => (hr rfl).elim,
      drained := fun _ => h.drained (by rw [hremoved]; decide)
      emptied := fun _ => h.emptied (.inl hremoved) }
  | write =>
    obtain rfl := Option.some.inj hstep
    exact { h with }
  | startLookup =>
    simp only [Stream.step] at hstep
    split_ifs at hstep <;> obtain rfl := Option.some.inj hstep <;> exact { h with }
  | startLock =>
    simp only [Stream.step, Option.ite_none_right_eq_some] at hstep
    obtain ⟨⟨-, hlock⟩, hstep⟩ := hstep
    split_ifs at hstep with hstream <;> obtain rfl := Option.some.inj hstep
    · exact { h with }
    · rw [OutputGate.start_of_not_streaming (Bool.eq_false_iff.mpr hstream)]
      exact { h with
        pending_sendable := fun _ ho => (List.not_mem_nil ho).elim
        replay_sendable := h.pending_sendable
        counted := ⟨rfl, Nat.zero_le _⟩
        unstarted := fun hu => by cases hu
        started := fun _ => rfl
        attached := fun _ => rfl }
  | startSend =>
    simp only [Stream.step] at hstep
    split at hstep
    · next o rest hreplay =>
      have hmem : ∀ p ∈ o :: rest, p.Sendable := by
        have hsend := h.replay_sendable
        rwa [hreplay] at hsend
      rw [sendFrame_of_sendable (hmem o List.mem_cons_self)] at hstep
      obtain rfl := Option.some.inj hstep
      refine { h with
        replay_sendable := fun p hp => hmem p (List.mem_cons_of_mem o hp)
        unstarted := fun hu => ?_ }
      simp [(h.unstarted hu).2] at hreplay
    · cases hstep
  | startReturn =>
    obtain ⟨-, rfl⟩ := Option.ite_some_none_eq_some.mp hstep
    exact { h with
      replay_sendable := fun _ ho => (List.not_mem_nil ho).elim
      unstarted := fun hu => ⟨(h.unstarted hu).1, rfl⟩ }

/-- Nothing is lost between `s` and `s'`, or only bytes at the front of a full
buffer before the start. -/
def Keeps (s s' : Stream) (bytes : List (OutputKind × UInt8)) : Prop :=
  ∃ dropped, s.sentTagged ++ s.inFlight ++ bytes = dropped ++ (s'.sentTagged ++ s'.inFlight) ∧
    (dropped ≠ [] → s.gate.streaming = false ∧
      maxTerminalStartupOutputBytes < (s.sentTagged ++ s.inFlight).length)

theorem Keeps.of_eq {s s' : Stream} {bytes : List (OutputKind × UInt8)}
    (h : s.sentTagged ++ s.inFlight ++ bytes = s'.sentTagged ++ s'.inFlight) : s.Keeps s' bytes :=
  ⟨[], h, fun hne => (hne rfl).elim⟩

@[simp] theorem taggedAll_toList (pending : OutputBatch) :
    taggedAll pending.toList = pending.tagged := rfl

/-- Emitting moves the first output of the queue into a frame or the buffer. -/
theorem keeps_emitOutput {s : Stream} (h : s.Shape) {o : PendingOutput}
    {rest : List PendingOutput} (hqueue : s.queue = o :: rest) (hlock : s.replay = none) :
    s.Keeps (s.emitOutput o rest) [] := by
  have ho : o.Sendable := h.queue_sendable o (by rw [hqueue]; exact List.mem_cons_self)
  have hclosed : s.reader ≠ .closed := fun hr => by simp [h.emptied (.inr hr)] at hqueue
  have hattached := h.attached hclosed
  unfold Stream.emitOutput
  split_ifs with hchannel hstream
  · have hempty := h.started (by rw [← hattached]; exact hchannel)
    rw [sendFrame_of_sendable ho]
    refine .of_eq ?_
    simp [sentTagged, inFlight, hlock, hempty, hqueue]
  · rw [hattached] at hchannel
    exact (hchannel hstream).elim
  · have hstream : s.gate.streaming = false := Bool.eq_false_iff.mpr hstream
    obtain ⟨dropped, hdropped, hfull⟩ := OutputGate.pushPending_tagged h.counted o
    obtain ⟨hframes, -⟩ := h.unstarted hstream
    refine ⟨dropped, ?_, fun hne => ⟨hstream, ?_⟩⟩
    · simp only [sentTagged, inFlight, hlock, hframes, hqueue, Option.getD_none, List.map_nil,
        taggedAll_nil, taggedAll_cons, List.nil_append, List.append_nil, ← List.append_assoc]
      rw [hdropped]
    · have hfull := hfull hne
      rw [h.capacity, List.length_append] at hfull
      simp only [inFlight, hqueue, taggedAll_cons, List.length_append]
      omega

/-- **One operation moves tagged bytes onward in order.** -/
theorem keeps_step {s s' : Stream} {e : StreamEvent} (h : s.Shape)
    (hstep : s.step e = some s') : s.Keeps s' (receivedBy e) := by
  cases e with
  | data extended bytes idle =>
    simp only [Stream.step, Option.ite_none_right_eq_some] at hstep
    obtain ⟨⟨-, hqueue⟩, hstep⟩ := hstep
    have htag := OutputBatch.push_tagged (dataKind extended) bytes h.batch_open
    split_ifs at hstep <;> obtain rfl := Option.some.inj hstep <;> refine .of_eq ?_
    · simp [sentTagged, inFlight, hqueue, receivedBy, ← htag]
    · simp [sentTagged, inFlight, hqueue, receivedBy, ← htag]
  | exitStatus status =>
    simp only [Stream.step, Option.ite_none_right_eq_some, Option.some.injEq] at hstep
    obtain ⟨⟨-, hqueue⟩, rfl⟩ := hstep
    exact .of_eq (by simp [sentTagged, inFlight, hqueue, receivedBy])
  | otherMessage | removeRecord | emitClosed =>
    obtain ⟨-, rfl⟩ := Option.ite_some_none_eq_some.mp hstep
    exact .of_eq (List.append_nil _)
  | flushTick =>
    simp only [Stream.step, Option.ite_none_right_eq_some, Option.some.injEq] at hstep
    obtain ⟨⟨⟨-, hqueue⟩, -⟩, rfl⟩ := hstep
    exact .of_eq (by simp [sentTagged, inFlight, hqueue, receivedBy])
  | channelEnd =>
    simp only [Stream.step, Option.ite_none_right_eq_some, Option.some.injEq] at hstep
    obtain ⟨⟨-, hqueue⟩, rfl⟩ := hstep
    exact .of_eq (by simp [sentTagged, inFlight, hqueue, receivedBy, Stream.leaveLoop])
  | emit =>
    simp only [Stream.step] at hstep
    split at hstep
    · next o rest hqueue hlock =>
      obtain rfl := Option.some.inj hstep
      exact keeps_emitOutput h hqueue hlock
    · cases hstep
  | write =>
    obtain rfl := Option.some.inj hstep
    exact .of_eq (List.append_nil _)
  | startLookup =>
    simp only [Stream.step] at hstep
    split_ifs at hstep <;> obtain rfl := Option.some.inj hstep <;>
      exact .of_eq (List.append_nil _)
  | startLock =>
    simp only [Stream.step, Option.ite_none_right_eq_some] at hstep
    obtain ⟨⟨-, hlock⟩, hstep⟩ := hstep
    split_ifs at hstep with hstream <;> obtain rfl := Option.some.inj hstep
    · exact .of_eq (List.append_nil _)
    · rw [OutputGate.start_of_not_streaming (Bool.eq_false_iff.mpr hstream)]
      exact .of_eq (by simp [sentTagged, inFlight, hlock, receivedBy])
  | startSend =>
    simp only [Stream.step] at hstep
    split at hstep
    · next o rest hreplay =>
      have ho : o.Sendable := h.replay_sendable o (by rw [hreplay]; exact List.mem_cons_self)
      rw [sendFrame_of_sendable ho] at hstep
      obtain rfl := Option.some.inj hstep
      exact .of_eq (by simp [sentTagged, inFlight, hreplay, receivedBy])
    · cases hstep
  | startReturn =>
    obtain ⟨hreplay, rfl⟩ := Option.ite_some_none_eq_some.mp hstep
    exact .of_eq (by simp [sentTagged, inFlight, hreplay, receivedBy])

theorem emitOutput_streaming (s : Stream) (o : PendingOutput) (rest : List PendingOutput) :
    (s.emitOutput o rest).gate.streaming = s.gate.streaming := by
  unfold Stream.emitOutput
  split_ifs
  · split
    · rfl
    · dsimp only
      split_ifs <;> rfl
  · rfl
  · exact OutputGate.pushPending_streaming s.gate o

theorem streaming_step {s s' : Stream} {e : StreamEvent} (hstep : s.step e = some s') :
    s'.gate.streaming = true ↔ s.gate.streaming = true ∨ e = .startLock := by
  cases e with
  | startLock =>
    simp only [Stream.step, Option.ite_none_right_eq_some] at hstep
    obtain ⟨-, hstep⟩ := hstep
    split_ifs at hstep with hstream <;> obtain rfl := Option.some.inj hstep
    · simp [hstream]
    · rw [OutputGate.start_of_not_streaming (Bool.eq_false_iff.mpr hstream)]
      simp
  | emit =>
    simp only [Stream.step] at hstep
    split at hstep
    · obtain rfl := Option.some.inj hstep
      simp [emitOutput_streaming]
    · cases hstep
  | data extended bytes idle =>
    simp only [Stream.step, Option.ite_none_right_eq_some] at hstep
    obtain ⟨-, hstep⟩ := hstep
    split_ifs at hstep <;> obtain rfl := Option.some.inj hstep <;> simp
  | startLookup =>
    simp only [Stream.step] at hstep
    split_ifs at hstep <;> obtain rfl := Option.some.inj hstep <;> simp
  | startSend =>
    simp only [Stream.step] at hstep
    split at hstep
    · split at hstep <;> obtain rfl := Option.some.inj hstep <;> simp
    · cases hstep
  | write =>
    obtain rfl := Option.some.inj hstep
    simp
  | exitStatus _ | otherMessage | flushTick | channelEnd | removeRecord | emitClosed
  | startReturn =>
    obtain ⟨-, rfl⟩ := Option.ite_some_none_eq_some.mp hstep
    simp [Stream.leaveLoop]

/-- The reader is done and no `terminal_start` is sending. -/
def Quiescent (s : Stream) : Prop :=
  s.reader = .closed ∧ s.replay = none

theorem inFlight_of_quiescent {s : Stream} (h : s.Shape) (hq : s.Quiescent)
    (hstream : s.gate.streaming = true) : s.inFlight = [] := by
  have hbatch : s.batch = none := h.drained (by rw [hq.1]; decide)
  have hqueue : s.queue = [] := h.emptied (.inr hq.1)
  simp [inFlight, hq.2, h.started hstream, hqueue, hbatch]

end Stream

/-! ### Whole runs -/

/-- What relates a terminal to its history. -/
structure StreamInv (trace : List StreamEvent) (s : Stream) : Prop where
  shape : s.Shape
  /-- The stream was started exactly when the history has a start. -/
  started : s.gate.streaming = true ↔ StreamEvent.startLock ∈ trace
  /-- What was received is what was dropped, sent and is on its way, in this
  order, and something was dropped only after more than 4 MiB before the start. -/
  flow : ∃ dropped, received trace = dropped ++ (s.sentTagged ++ s.inFlight) ∧
    (dropped ≠ [] → maxTerminalStartupOutputBytes < (received (beforeStart trace)).length)

theorem StreamInv.step {trace : List StreamEvent} {s s' : Stream} {e : StreamEvent}
    (h : StreamInv trace s) (hstep : s.step e = some s') : StreamInv (trace ++ [e]) s' := by
  obtain ⟨hshape, hstarted, dropped, hflow, hdropped⟩ := h
  refine ⟨hshape.step hstep, ?_, ?_⟩
  · rw [Stream.streaming_step hstep, hstarted, List.mem_append, List.mem_singleton]
    exact or_congr_right eq_comm
  · obtain ⟨more, hmore, hfull⟩ := Stream.keeps_step hshape hstep
    refine ⟨dropped ++ more, ?_, fun hne => ?_⟩
    · calc received (trace ++ [e])
          = dropped ++ (s.sentTagged ++ s.inFlight ++ receivedBy e) := by
            rw [received_concat, hflow, List.append_assoc]
        _ = dropped ++ more ++ (s'.sentTagged ++ s'.inFlight) := by
            rw [hmore, List.append_assoc]
    · have hmono := length_received_beforeStart_le trace e
      by_cases hold : dropped = []
      · have hnew : more ≠ [] := fun hnil => hne (by rw [hold, hnil]; rfl)
        obtain ⟨hstream, hlong⟩ := hfull hnew
        have hnostart : StreamEvent.startLock ∉ trace := fun hmem => by
          rw [hstarted.mpr hmem] at hstream
          cases hstream
        rw [beforeStart_eq_self hnostart, hflow, List.length_append] at hmono
        omega
      · exact (hdropped hold).trans_le hmono

theorem stream_inv {trace : List StreamEvent} {s : Stream}
    (h : streamMachine.run trace = some s) : StreamInv trace s := by
  refine streamMachine.run_history_invariant ?_ (fun _ _ _ _ hJ hstep => hJ.step hstep) h
  exact ⟨Stream.shape_init, by simp [streamMachine, Stream.init, OutputGate.new],
    [], rfl, fun hne => (hne rfl).elim⟩

/-- The output law of a terminal with the history `trace`. -/
structure OutputDelivered (trace : List StreamEvent) (s : Stream) : Prop where
  /-- What was sent is a contiguous part of what was received. -/
  contiguous : ∃ dropped waiting, received trace = dropped ++ s.sentTagged ++ waiting
  /-- Once the reader is done it is a suffix. -/
  suffix : s.Quiescent → s.sentTagged <:+ received trace
  /-- After a start within the first 4 MiB nothing is missing at the front. -/
  prefix_of_early_start : StreamEvent.startLock ∈ trace →
    (received (beforeStart trace)).length ≤ maxTerminalStartupOutputBytes →
    s.sentTagged <+: received trace
  /-- And nothing is missing at all once the reader is done. -/
  whole : s.Quiescent → StreamEvent.startLock ∈ trace →
    (received (beforeStart trace)).length ≤ maxTerminalStartupOutputBytes →
    s.sentTagged = received trace
  /-- Each frame has between 1 byte and 64 KiB of payload. -/
  frame_sizes : ∀ f ∈ s.frames,
    1 ≤ f.val.payload.length ∧ f.val.payload.length ≤ terminalFrameBytes
  /-- `send_frame` refused none for its size. -/
  not_rejected : s.sendRejected = false

/-- **Terminal output is lossless and ordered**, for every order of channel
messages, ticks, urgent flushes, emissions and starts. -/
theorem terminal_output_lossless {trace : List StreamEvent} {s : Stream}
    (h : streamMachine.run trace = some s) : OutputDelivered trace s := by
  obtain ⟨hshape, hstarted, dropped, hflow, hdropped⟩ := stream_inv h
  have hearly : (received (beforeStart trace)).length ≤ maxTerminalStartupOutputBytes →
      received trace = s.sentTagged ++ s.inFlight := fun hle => by
    have hnil : dropped = [] := by
      by_contra hne
      have := hdropped hne
      omega
    rw [hflow, hnil, List.nil_append]
  refine
    { contiguous := ⟨dropped, s.inFlight, by rw [hflow, List.append_assoc]⟩
      suffix := fun hq => ?_
      prefix_of_early_start := fun _ hle => ⟨s.inFlight, (hearly hle).symm⟩
      whole := fun hq hmem hle => ?_
      frame_sizes := fun f _ => f.property
      not_rejected := hshape.accepted }
  · cases hstream : s.gate.streaming with
    | false =>
      have hnone : s.sentTagged = [] := by simp [Stream.sentTagged, (hshape.unstarted hstream).1]
      rw [hnone]
      exact List.nil_suffix
    | true =>
      rw [hflow, Stream.inFlight_of_quiescent hshape hq hstream, List.append_nil]
      exact List.suffix_append dropped s.sentTagged
  · have hempty := Stream.inFlight_of_quiescent hshape hq (hstarted.mpr hmem)
    rw [hearly hle, hempty, List.append_nil]

/-- A terminal that is started after its first byte, and then ends. -/
def startedTrace : List StreamEvent :=
  [.data false [97] false, .emit, .startLookup, .startLock, .startSend, .startReturn,
    .data true [98, 99] false, .flushTick, .emit, .exitStatus 0, .emit, .channelEnd,
    .removeRecord, .emitClosed]

/-- The output law at that run: all bytes and the exit notice are in the frames. -/
theorem terminal_output_lossless_started :
    ∃ s, streamMachine.run startedTrace = some s ∧ s.sentTagged = received startedTrace :=
  ⟨_, rfl, (terminal_output_lossless rfl).whole ⟨rfl, rfl⟩ (by decide) (by decide)⟩

/-- A terminal that ends before the front end starts it. -/
def lateStartTrace : List StreamEvent :=
  [.data false [97] false, .emit, .channelEnd, .removeRecord, .emitClosed, .startLookup]

/-- **A start after the record is gone is refused.**  One byte was received, far
less than the gate keeps, and the start that comes after the reader's end gets
none of it. -/
theorem start_after_close_refused :
    ∃ s, streamMachine.run lateStartTrace = some s ∧ s.Quiescent ∧ s.refused = 1 ∧
      (received lateStartTrace).length ≤ maxTerminalStartupOutputBytes ∧
      s.sentTagged ≠ received lateStartTrace :=
  ⟨_, rfl, ⟨rfl, rfl⟩, rfl, by decide, by decide⟩

end Terminal
end HelmSsh
