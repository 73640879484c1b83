/-
# A telemetry sample and its request

`TelemetryStream` of `src-tauri/src/remote/runtime_telemetry.rs`: one SSH channel on which the
remote loop (`TELEMETRY_LOOP_COMMAND`) answers each tag line with one frame.  A reader task
passes the frames into a bounded channel; `sample` throws away what is there, writes its tag, and
takes the next frame before its timeout.

How the reader task cuts the frames out of the octets of the channel is in
`HelmSsh.Remote.TelemetryFraming`.  A frame carries nothing but its tag and its body.  Here each
line that is written has a number, and a frame (`Reply`) the line that it answers, which the code
does not look at.  A sample that times out leaves its frame behind; when that arrives after the next
sample has emptied the channel, it is taken for the reply of this one.

* `received_of_run` — a sample that was written when no earlier frame was missing gets its own
  frame, and one that was written before gets another's, however the frames arrive;
* `late_reply_confused` — a reply of an earlier request with the same tag is returned.
-/

import HelmSsh.Machine
import Mathlib.Data.Nat.Notation

namespace HelmSsh
namespace Remote
namespace TelemetryStream

/-- `TELEMETRY_FRAME_CHANNEL_CAPACITY`. -/
def telemetryFrameChannelCapacity : ℕ := 4

/-- The tags that the collector samples. -/
inductive Tag
  | base
  | process
  | disk
  | ip
  deriving DecidableEq

/-- A tag line that was written. -/
structure Request where
  number : ℕ
  tag : Tag
  deriving DecidableEq

/-- `TelemetryFrame`, with the line that it answers. -/
structure Reply where
  request : Request
  body : String
  deriving DecidableEq

/-- The `tag` of the frame: the loop prints the line that it has read. -/
def Reply.tag (frame : Reply) : Tag :=
  frame.request.tag

/-- How far a call of `sample` is. -/
inductive Phase
  | idle
  /-- Throws away the frames that are there. -/
  | draining (tag : Tag)
  | writing (tag : Tag)
  /-- Has written its line; whether a frame of an earlier line was missing then. -/
  | waiting (request : Request) (behind : Bool)
  deriving DecidableEq

/-- What `sample` returns for a frame. -/
inductive Outcome
  | ok (body : String)
  /-- The frame has another tag. -/
  | mismatched
  deriving DecidableEq

/-- A sample that took a frame. -/
structure Received where
  request : Request
  behind : Bool
  frame : Reply
  outcome : Outcome
  deriving DecidableEq

/-- The stream, with the remote loop. -/
structure State where
  closed : Bool
  phase : Phase
  /-- The lines that the loop has not answered. -/
  lines : List Request
  /-- The frames on their way to the reader task, or in its buffer. -/
  inFlight : List Reply
  /-- The frames in the channel of `rx`. -/
  channel : List Reply
  /-- The reader task is there. -/
  reading : Bool
  /-- How many lines were written. -/
  written : ℕ
  received : List Received
  deriving DecidableEq

/-- The steps of a caller, of the reader task and of the remote loop. -/
inductive Event
  /-- `sample` is called. -/
  | call (tag : Tag)
  /-- `rx.try_recv()`. -/
  | tryRecv
  | write
  /-- `write_all` or `flush` fails; whether the line reaches the loop. -/
  | writeFails (reached : Bool)
  | recv
  | timeout
  /-- `shutdown`, which may drop a call of `sample`. -/
  | shutdown
  /-- The loop answers the next line. -/
  | answer (body : String)
  /-- The reader task passes a frame on. -/
  | deliver
  /-- The reader task ends. -/
  | readerEnds
  deriving DecidableEq

namespace State

/-- The lines whose frames were not taken out of the channel, in their order. -/
def outstanding (s : State) : List Request :=
  s.channel.map Reply.request ++ s.inFlight.map Reply.request ++ s.lines

/-- The line is written. -/
def writeLine (s : State) (tag : Tag) : State :=
  { s with
    phase := .waiting ⟨s.written, tag⟩ (s.outstanding ≠ [])
    lines := s.lines ++ [⟨s.written, tag⟩]
    written := s.written + 1 }

/-- The match on the frame that `recv` yields. -/
def take (s : State) (request : Request) (behind : Bool) (frame : Reply) : State :=
  let outcome := if frame.tag = request.tag then .ok frame.body else .mismatched
  { s with phase := .idle, received := s.received ++ [⟨request, behind, frame, outcome⟩] }

/-- One step. -/
def step (s : State) : Event → Option State
  | .call tag =>
    if s.phase = .idle then
      if s.closed then some s else some { s with phase := .draining tag }
    else none
  | .tryRecv =>
    match s.phase, s.channel with
    | .draining tag, [] => some { s with phase := .writing tag }
    | .draining _, _ :: channel => some { s with channel }
    | _, _ => none
  | .write =>
    match s.phase with
    | .writing tag => some (s.writeLine tag)
    | _ => none
  | .writeFails reached =>
    match s.phase with
    | .writing tag =>
      some { (if reached then s.writeLine tag else s) with phase := .idle, closed := true }
    | _ => none
  | .recv =>
    match s.phase, s.channel with
    | .waiting request behind, frame :: channel =>
      some ({ s with channel }.take request behind frame)
    | .waiting _ _, [] =>
      if s.reading then none else some { s with phase := .idle, closed := true }
    | _, _ => none
  | .timeout =>
    match s.phase with
    | .waiting _ _ => some { s with phase := .idle }
    | _ => none
  | .shutdown => some { s with phase := .idle, closed := true }
  | .answer body =>
    match s.lines with
    | request :: lines => some { s with lines, inFlight := s.inFlight ++ [⟨request, body⟩] }
    | [] => none
  | .deliver =>
    match s.inFlight with
    | frame :: inFlight =>
      if s.reading ∧ s.channel.length < telemetryFrameChannelCapacity then
        some { s with inFlight, channel := s.channel ++ [frame] }
      else none
    | [] => none
  | .readerEnds => some { s with reading := false }

end State

/-- The stream from its start. -/
def stream : Machine State Event where
  init :=
    { closed := false, phase := .idle, lines := [], inFlight := [], channel := []
      reading := true, written := 0, received := [] }
  step := State.step

/-- What holds of a sample that took a frame. -/
structure Received.Right (r : Received) : Prop where
  own : r.behind = false → r.frame.request = r.request ∧ r.outcome = .ok r.frame.body
  other : r.behind = true → r.frame.request ≠ r.request

/-- **The invariant.**  The lines have different numbers; the line of a sample that waits is the
last one outstanding, and the first if no frame was missing when it was written. -/
structure Inv (s : State) : Prop where
  numbers : ∀ request ∈ s.outstanding, request.number < s.written
  waiting : ∀ request behind, s.phase = .waiting request behind →
    ∃ old, s.outstanding = old ++ [request] ∧ (behind = true ↔ old ≠ []) ∧
      ∀ other ∈ old, other ≠ request
  received : ∀ r ∈ s.received, r.Right

/-- A step that leaves the outstanding lines, the waiting sample and the received frames. -/
theorem Inv.same {s s' : State} (h : Inv s) (houtstanding : s'.outstanding = s.outstanding)
    (hwritten : s'.written = s.written) (hreceived : s'.received = s.received)
    (hphase : ∀ request behind, s'.phase = .waiting request behind → s'.phase = s.phase) :
    Inv s' := by
  refine ⟨?_, fun request behind hwait => ?_, hreceived ▸ h.received⟩
  · rw [houtstanding, hwritten]
    exact h.numbers
  · rw [houtstanding]
    exact h.waiting request behind (hphase request behind hwait ▸ hwait)

theorem outstanding_writeLine (s : State) (tag : Tag) :
    (s.writeLine tag).outstanding = s.outstanding ++ [⟨s.written, tag⟩] :=
  (List.append_assoc _ _ _).symm

/-- **A line is written.** -/
theorem Inv.writeLine {s : State} (h : Inv s) (tag : Tag) : Inv (s.writeLine tag) := by
  refine ⟨fun request hrequest => ?_, fun request behind hwait => ?_, h.received⟩
  · rw [outstanding_writeLine] at hrequest
    rcases List.mem_append.mp hrequest with hrequest | hrequest
    · exact Nat.lt_succ_of_lt (h.numbers request hrequest)
    · rw [List.mem_singleton.mp hrequest]
      exact Nat.lt_succ_self s.written
  · obtain ⟨rfl, rfl⟩ := Phase.waiting.inj hwait
    refine ⟨s.outstanding, outstanding_writeLine s tag, decide_eq_true_iff, ?_⟩
    rintro other hother rfl
    exact Nat.lt_irrefl _ (h.numbers _ hother)

/-- **A frame is taken.** -/
theorem Inv.take {s : State} {request : Request} {behind : Bool} {frame : Reply}
    {channel : List Reply} (h : Inv s) (hphase : s.phase = .waiting request behind)
    (hchannel : s.channel = frame :: channel) :
    Inv ({ s with channel }.take request behind frame) := by
  have hrest : s.outstanding =
      frame.request :: ({ s with channel }.take request behind frame).outstanding := by
    rw [State.outstanding, hchannel]
    rfl
  obtain ⟨old, hold, hbehind, hother⟩ := h.waiting request behind hphase
  refine ⟨fun other hin => ?_, fun _ _ hwait => (by cases hwait), fun r hr => ?_⟩
  · exact h.numbers other (hrest ▸ List.mem_cons_of_mem _ hin)
  · rcases List.mem_append.mp hr with hr | hr
    · exact h.received r hr
    · obtain rfl := List.mem_singleton.mp hr
      rw [hrest] at hold
      cases old with
      | nil =>
        obtain ⟨hown, -⟩ := List.cons.inj hold
        refine ⟨fun _ => ⟨hown, if_pos (congrArg Request.tag hown)⟩, fun hlate => ?_⟩
        exact absurd rfl (hbehind.mp hlate)
      | cons first old =>
        obtain ⟨hfirst, -⟩ := List.cons.inj hold
        refine ⟨fun hearly => ?_, fun _ => ?_⟩
        · rw [hbehind.mpr (List.cons_ne_nil first old)] at hearly
          cases hearly
        · show frame.request ≠ request
          rw [hfirst]
          exact hother first List.mem_cons_self

/-- **What one step preserves.** -/
theorem Inv.step {s s' : State} {a : Event} (h : Inv s) (hstep : s.step a = some s') :
    Inv s' := by
  cases a with
  | call tag =>
    dsimp only [State.step] at hstep
    split_ifs at hstep
    · obtain rfl := Option.some.inj hstep
      exact h
    · obtain rfl := Option.some.inj hstep
      exact h.same rfl rfl rfl fun _ _ hwait => by cases hwait
  | tryRecv =>
    dsimp only [State.step] at hstep
    split at hstep
    case h_1 tag hphase hchannel =>
      obtain rfl := Option.some.inj hstep
      exact h.same rfl rfl rfl fun _ _ hwait => by cases hwait
    case h_2 tag frame channel hphase hchannel =>
      obtain rfl := Option.some.inj hstep
      refine ⟨fun request hrequest => h.numbers request ?_, fun request behind hwait => ?_,
        h.received⟩
      · rw [State.outstanding, hchannel]
        exact List.mem_cons_of_mem _ hrequest
      · exact absurd (hphase.symm.trans hwait) (by simp)
    case h_3 => cases hstep
  | write =>
    dsimp only [State.step] at hstep
    split at hstep
    case h_1 tag hphase =>
      obtain rfl := Option.some.inj hstep
      exact h.writeLine tag
    case h_2 => cases hstep
  | writeFails reached =>
    dsimp only [State.step] at hstep
    split at hstep
    case h_1 tag hphase =>
      obtain rfl := Option.some.inj hstep
      have hline : Inv (if reached then s.writeLine tag else s) := by
        split_ifs
        · exact h.writeLine tag
        · exact h
      exact hline.same rfl rfl rfl fun _ _ hwait => by cases hwait
    case h_2 => cases hstep
  | recv =>
    dsimp only [State.step] at hstep
    split at hstep
    case h_1 request behind frame channel hphase hchannel =>
      obtain rfl := Option.some.inj hstep
      exact h.take hphase hchannel
    case h_2 request behind hphase hchannel =>
      split_ifs at hstep
      obtain rfl := Option.some.inj hstep
      exact h.same rfl rfl rfl fun _ _ hwait => by cases hwait
    case h_3 => cases hstep
  | timeout =>
    dsimp only [State.step] at hstep
    split at hstep
    case h_1 request behind hphase =>
      obtain rfl := Option.some.inj hstep
      exact h.same rfl rfl rfl fun _ _ hwait => by cases hwait
    case h_2 => cases hstep
  | shutdown =>
    obtain rfl := Option.some.inj hstep
    exact h.same rfl rfl rfl fun _ _ hwait => by cases hwait
  | answer body =>
    dsimp only [State.step] at hstep
    split at hstep
    case h_1 request lines hlines =>
      obtain rfl := Option.some.inj hstep
      refine h.same ?_ rfl rfl fun _ _ _ => rfl
      rw [State.outstanding, State.outstanding, hlines, List.map_append]
      simp only [List.map_cons, List.map_nil, List.append_assoc, List.singleton_append]
    case h_2 => cases hstep
  | deliver =>
    dsimp only [State.step] at hstep
    split at hstep
    case h_1 frame inFlight hinFlight =>
      split_ifs at hstep
      obtain rfl := Option.some.inj hstep
      refine h.same ?_ rfl rfl fun _ _ _ => rfl
      rw [State.outstanding, State.outstanding, hinFlight, List.map_append, List.append_assoc,
        List.append_assoc, List.append_assoc]
      rfl
    case h_2 => cases hstep
  | readerEnds =>
    obtain rfl := Option.some.inj hstep
    exact h.same rfl rfl rfl fun _ _ _ => rfl

/-- **What a run preserves.** -/
theorem inv_of_run {events : List Event} {s : State} (h : stream.run events = some s) : Inv s :=
  Machine.run_invariant
    ⟨fun _ hin => absurd hin List.not_mem_nil, fun _ _ hwait => (by cases hwait),
      fun _ hin => absurd hin List.not_mem_nil⟩
    (fun _ _ _ hinv hstep => hinv.step hstep) h

/-- No frame of an earlier line is missing when a line is written. -/
def CaughtUp (s : State) (a : Event) : Prop :=
  a = .write → s.outstanding = []

instance (s : State) (a : Event) : Decidable (CaughtUp s a) :=
  inferInstanceAs (Decidable (a = .write → s.outstanding = []))

/-- No sample was written when an earlier frame was missing. -/
structure OnTime (s : State) : Prop where
  waiting : ∀ request behind, s.phase = .waiting request behind → behind = false
  received : ∀ r ∈ s.received, r.behind = false

theorem OnTime.same {s s' : State} (h : OnTime s) (hreceived : s'.received = s.received)
    (hphase : ∀ request behind, s'.phase = .waiting request behind → s'.phase = s.phase) :
    OnTime s' :=
  ⟨fun request behind hwait =>
    h.waiting request behind (hphase request behind hwait ▸ hwait), hreceived ▸ h.received⟩

/-- **What one step preserves**, if no frame is missing when a line is written. -/
theorem OnTime.step {s s' : State} {a : Event} (h : OnTime s) (hok : CaughtUp s a)
    (hstep : s.step a = some s') : OnTime s' := by
  cases a with
  | call tag =>
    dsimp only [State.step] at hstep
    split_ifs at hstep
    · obtain rfl := Option.some.inj hstep
      exact h
    · obtain rfl := Option.some.inj hstep
      exact h.same rfl fun _ _ hwait => by cases hwait
  | tryRecv =>
    dsimp only [State.step] at hstep
    split at hstep
    case h_1 tag hphase hchannel =>
      obtain rfl := Option.some.inj hstep
      exact h.same rfl fun _ _ hwait => by cases hwait
    case h_2 tag frame channel hphase hchannel =>
      obtain rfl := Option.some.inj hstep
      exact h.same rfl fun _ _ _ => rfl
    case h_3 => cases hstep
  | write =>
    dsimp only [State.step] at hstep
    split at hstep
    case h_1 tag hphase =>
      obtain rfl := Option.some.inj hstep
      refine ⟨fun request behind hwait => ?_, h.received⟩
      obtain ⟨-, rfl⟩ := Phase.waiting.inj hwait
      exact decide_eq_false (not_not_intro (hok rfl))
    case h_2 => cases hstep
  | writeFails reached =>
    dsimp only [State.step] at hstep
    split at hstep
    case h_1 tag hphase =>
      obtain rfl := Option.some.inj hstep
      refine h.same ?_ fun _ _ hwait => (by cases hwait)
      cases reached with
      | true => rfl
      | false => rfl
    case h_2 => cases hstep
  | recv =>
    dsimp only [State.step] at hstep
    split at hstep
    case h_1 request behind frame channel hphase hchannel =>
      obtain rfl := Option.some.inj hstep
      refine ⟨fun _ _ hwait => (by cases hwait), fun r hr => ?_⟩
      rcases List.mem_append.mp hr with hr | hr
      · exact h.received r hr
      · obtain rfl := List.mem_singleton.mp hr
        exact h.waiting request behind hphase
    case h_2 request behind hphase hchannel =>
      split_ifs at hstep
      obtain rfl := Option.some.inj hstep
      exact h.same rfl fun _ _ hwait => by cases hwait
    case h_3 => cases hstep
  | timeout =>
    dsimp only [State.step] at hstep
    split at hstep
    case h_1 request behind hphase =>
      obtain rfl := Option.some.inj hstep
      exact h.same rfl fun _ _ hwait => by cases hwait
    case h_2 => cases hstep
  | shutdown =>
    obtain rfl := Option.some.inj hstep
    exact h.same rfl fun _ _ hwait => by cases hwait
  | answer body =>
    dsimp only [State.step] at hstep
    split at hstep
    case h_1 request lines hlines =>
      obtain rfl := Option.some.inj hstep
      exact h.same rfl fun _ _ _ => rfl
    case h_2 => cases hstep
  | deliver =>
    dsimp only [State.step] at hstep
    split at hstep
    case h_1 frame inFlight hinFlight =>
      split_ifs at hstep
      obtain rfl := Option.some.inj hstep
      exact h.same rfl fun _ _ _ => rfl
    case h_2 => cases hstep
  | readerEnds =>
    obtain rfl := Option.some.inj hstep
    exact h.same rfl fun _ _ _ => rfl

/-- **Which frame a sample gets.**  In every run, a sample that was written when no frame of an
earlier line was missing gets its own frame and returns its body, and any other that gets a frame
gets that of an earlier line.  So in a run in which no frame is missing when a line is written,
each sample that gets a frame returns what the loop has answered to its own line. -/
theorem received_of_run {events : List Event} {s : State} (h : stream.run events = some s) :
    (∀ r ∈ s.received, r.Right) ∧
      (stream.Meets CaughtUp events → ∀ r ∈ s.received,
        r.frame.request = r.request ∧ r.outcome = .ok r.frame.body) := by
  have hinv := inv_of_run h
  refine ⟨hinv.received, fun hmeets r hr => ?_⟩
  have htime : OnTime s := Machine.run_invariant_of
    ⟨fun _ _ hwait => (by cases hwait), fun _ hin => absurd hin List.not_mem_nil⟩
    (fun _ _ _ htime hok hstep => htime.step hok hstep) hmeets h
  exact (hinv.received r hr).own (htime.received r hr)

/-- A sample of `base` times out, and the next is written before the frame arrives. -/
def lateReply : List Event :=
  [.call .base, .tryRecv, .write, .timeout, .call .base, .tryRecv, .write, .answer "old", .deliver,
    .recv]

/-- A sample of `base` times out, and its frame is there when the next throws away what is. -/
def drainedReply : List Event :=
  [.call .base, .tryRecv, .write, .timeout, .answer "old", .deliver, .call .base,
    .tryRecv, .tryRecv, .write, .answer "new", .deliver, .recv]

/-- The next sample gets its own frame. -/
theorem received_of_run_waiting : ∃ s, stream.run drainedReply = some s ∧
      s.received.length = 1 ∧ ∀ r ∈ s.received, r.frame.request = r.request ∧
        r.outcome = .ok r.frame.body := by
  have hrun : ((stream.run drainedReply).any fun s => s.received.length = 1) = true := by decide
  obtain ⟨s, hs, hone⟩ := Option.any_eq_true _ _ |>.mp hrun
  exact ⟨s, hs, of_decide_eq_true hone, (received_of_run hs).2 (by decide)⟩

/-- A late reply is returned for the next request with its tag. -/
theorem late_reply_confused : ¬ ∀ (events : List Event) (s : State),
    stream.run events = some s → ∀ r ∈ s.received, r.outcome = .ok r.frame.body →
      r.frame.request = r.request := by
  intro h
  have hrun : ((stream.run lateReply).any fun s =>
      s.received = [⟨⟨1, .base⟩, true, ⟨⟨0, .base⟩, "old"⟩, .ok "old"⟩]) = true := by decide
  obtain ⟨s, hs, hreceived⟩ := Option.any_eq_true _ _ |>.mp hrun
  have hr : (⟨⟨1, .base⟩, true, ⟨⟨0, .base⟩, "old"⟩, .ok "old"⟩ : Received) ∈ s.received := by
    rw [of_decide_eq_true hreceived]
    exact List.mem_singleton_self _
  exact absurd (h lateReply s hs _ hr rfl) (by decide)

end TelemetryStream
end Remote
end HelmSsh
