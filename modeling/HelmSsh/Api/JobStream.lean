/-
# The event stream of a job

`JobRecord::subscribe` and `snapshot_event` (`src-tauri/src/api_server/jobs.rs`) and
the response stream of `rest_job_events` (`handlers_jobs.rs`), beside the calls on the
record.  A subscriber takes its receiver first and reads the state afterwards; what it
read is delivered before the receiver is polled.  The receiver of `event_tx` keeps the
last 256 messages: a receiver that is further behind is told so once, goes on at the
oldest message that is left, and the stream delivers a snapshot.  A message whose id is
not above the last one is skipped, and the stream ends after a terminal event or a
snapshot of an ended job.

The stream shares the record with the machine of `HelmSsh.Api.jobRecord`; `Feed` is the
two of them.  The receiver never sees a closed channel: the stream holds the record,
and with it the sender.

* `Stream.toDo_lt` — every step of a stream brings it closer to its end or to waiting
  for the next message;
* `Stream.waiting_of_stuck` — a stream that cannot go on has ended, or has received
  everything that was sent.
-/

import HelmSsh.Api.JobCalls

namespace HelmSsh
namespace Api

/-- The capacity of `event_tx`. -/
def broadcastCapacity : ℕ := 256

/-- What a stream puts on the wire. -/
inductive Delivery where
  | event (e : JobEvent)
  /-- A snapshot, by its id and by whether the job had ended. -/
  | snapshot (id : ℕ) (terminal : Bool)
  deriving DecidableEq

/-- The id on the wire. -/
def Delivery.id : Delivery → ℕ
  | .event e => e.id
  | .snapshot id _ => id

/-- How far a stream has come. -/
inductive StreamPhase where
  | unsubscribed
  /-- The receiver is there, the state is not read yet. -/
  | subscribed
  | live
  /-- The receiver was told that it lagged, the snapshot is not taken yet. -/
  | lagged
  | ended
  deriving DecidableEq

/-- The stream of one client. -/
structure Stream where
  phase : StreamPhase
  /-- The client's `after` or `Last-Event-ID`. -/
  after : ℕ
  /-- How many messages the receiver is past. -/
  position : ℕ
  /-- What is left of `JobSubscription::initial`. -/
  initial : List JobEvent
  done : Bool
  lastId : ℕ
  delivered : List Delivery
  /-- The ids after `after` that were dropped before the stream read the state, and those
  that the receiver lagged over. -/
  missed : List ℕ
  deriving DecidableEq

/-- A step of the stream. -/
inductive StreamEvent where
  | subscribe (after : ℕ)
  /-- `subscribe` reads the state. -/
  | read
  /-- The next event of `initial`. -/
  | replay
  /-- `receiver.recv()` yields a message. -/
  | receive
  /-- `receiver.recv()` says that it lagged. -/
  | lag
  /-- `snapshot_event`. -/
  | snapshot
  | finish
  deriving DecidableEq

/-- The events that were dropped from the history. -/
def JobState.dropped (s : JobState) : List JobEvent :=
  s.appended.take (s.appended.length - s.events.length)

namespace Stream

/-- No client yet. -/
def new : Stream where
  phase := .unsubscribed
  after := 0
  position := 0
  initial := []
  done := false
  lastId := 0
  delivered := []
  missed := []

/-- The step is possible. -/
def Enabled (r : Record) (st : Stream) : StreamEvent → Prop
  | .subscribe _ => st.phase = .unsubscribed
  | .read => st.phase = .subscribed
  | .replay => st.phase = .live ∧ st.initial ≠ []
  | .receive => st.phase = .live ∧ st.initial = [] ∧ st.done = false ∧
      st.position < r.sent.length ∧ r.sent.length ≤ st.position + broadcastCapacity
  | .lag => st.phase = .live ∧ st.initial = [] ∧ st.done = false ∧
      st.position + broadcastCapacity < r.sent.length
  | .snapshot => st.phase = .lagged
  | .finish => st.phase = .live ∧ st.initial = [] ∧ st.done = true

instance (r : Record) (st : Stream) (a : StreamEvent) : Decidable (st.Enabled r a) := by
  cases a <;> simp only [Enabled] <;> infer_instance

/-- What the stream does with a message. -/
def accept (e : JobEvent) (st : Stream) : Stream :=
  if e.id ≤ st.lastId then { st with position := st.position + 1 }
  else
    { st with
      position := st.position + 1
      lastId := e.id
      done := e.event.isTerminal
      delivered := st.delivered ++ [.event e] }

/-- The messages that a lagging receiver skips. -/
def skipped (r : Record) (st : Stream) : List JobEvent :=
  (r.sent.take (r.sent.length - broadcastCapacity)).drop st.position

/-- The effect of a step. -/
def next (r : Record) (st : Stream) : StreamEvent → Stream
  | .subscribe after =>
    { st with phase := .subscribed, after := after, position := r.sent.length }
  | .read =>
    { st with
      phase := .live
      initial := (r.state.events.map StoredJobEvent.event).filter fun e => st.after < e.id
      done := r.state.status.isTerminal
      lastId := max r.state.lastEventId st.after
      missed := (r.state.dropped.filter fun e => st.after < e.id).map JobEvent.id }
  | .replay =>
    { st with
      initial := st.initial.tail
      delivered := st.delivered ++ (st.initial.take 1).map .event }
  | .receive =>
    match r.sent[st.position]? with
    | none => st
    | some e => st.accept e
  | .lag =>
    { st with
      phase := .lagged
      position := r.sent.length - broadcastCapacity
      missed := st.missed ++
        ((st.skipped r).filter fun e => st.lastId < e.id).map JobEvent.id }
  | .snapshot =>
    { st with
      phase := .live
      done := r.state.status.isTerminal
      lastId := r.state.lastEventId
      delivered := st.delivered ++
        [.snapshot r.state.lastEventId r.state.status.isTerminal] }
  | .finish => { st with phase := .ended }

/-- The stream has read the state of the job. -/
def hasRead (st : Stream) : Bool :=
  st.phase = .live || st.phase = .lagged || st.phase = .ended

end Stream

/-- A record and a stream of its events. -/
structure Feed where
  system : System
  stream : Stream
  deriving DecidableEq

/-- An event of the two. -/
inductive FeedEvent where
  | record (a : RecordEvent)
  | stream (a : StreamEvent)
  deriving DecidableEq

namespace Feed

/-- The effect of an event. -/
def step (s : Feed) : FeedEvent → Option Feed
  | .record a => (s.system.step a).map fun system => { s with system := system }
  | .stream a =>
    if s.stream.Enabled s.system.record a then
      some { s with stream := s.stream.next s.system.record a }
    else none

theorem step_cases {s s' : Feed} {a : FeedEvent} (h : s.step a = some s') :
    (∃ b system, a = .record b ∧ s.system.step b = some system ∧
      s' = { s with system := system }) ∨
    (∃ b, a = .stream b ∧ s.stream.Enabled s.system.record b ∧
      s' = { s with stream := s.stream.next s.system.record b }) := by
  cases a with
  | record b =>
    obtain ⟨system, hsystem, hs'⟩ := Option.map_eq_some_iff.mp h
    exact .inl ⟨b, system, rfl, hsystem, hs'.symm⟩
  | stream b =>
    simp only [step] at h
    split_ifs at h with henabled
    exact .inr ⟨b, rfl, henabled, (Option.some.inj h).symm⟩

end Feed

/-- A job and a client that may subscribe to its events at any time. -/
def jobFeed (initialBytes : ℕ) : Machine Feed FeedEvent where
  init := { system := .new initialBytes, stream := .new }
  step := Feed.step

/-! ### The stream goes on until it waits or ends -/

namespace Stream

/-- How many steps a stream has left before it waits for the next message or has ended:
what it must replay, two for each message, and one for each of its own phases. -/
def toDo (r : Record) (st : Stream) : ℕ :=
  match st.phase with
  | .unsubscribed => r.state.events.length + 4
  | .subscribed => r.state.events.length + 2 * (r.sent.length - st.position) + 3
  | .live => st.initial.length + 2 * (r.sent.length - st.position) + 1
  | .lagged => st.initial.length + 2 * (r.sent.length - st.position) + 2
  | .ended => 0

/-- **Every step of a stream leaves it less to do.** -/
theorem toDo_lt {r : Record} {st : Stream} {a : StreamEvent} (h : st.Enabled r a) :
    (st.next r a).toDo r < st.toDo r := by
  cases a with
  | subscribe after =>
    simp only [Enabled] at h
    simp [toDo, next, h]
  | read =>
    simp only [Enabled] at h
    have hlength := List.length_filter_le (fun e : JobEvent => decide (st.after < e.id))
      (r.state.events.map StoredJobEvent.event)
    rw [List.length_map] at hlength
    simp only [toDo, next, h]
    omega
  | replay =>
    obtain ⟨hlive, hinitial⟩ := h
    have hpos := List.length_pos_iff.mpr hinitial
    simp only [toDo, next, hlive, List.length_tail]
    omega
  | receive =>
    obtain ⟨hlive, hinitial, hdone, hlt, hle⟩ := h
    have haccept : ∀ e, (st.accept e).phase = .live ∧ (st.accept e).initial = st.initial ∧
        (st.accept e).position = st.position + 1 := by
      intro e
      unfold accept
      split_ifs <;> exact ⟨hlive, rfl, rfl⟩
    obtain ⟨hphase, hsame, hposition⟩ := haccept r.sent[st.position]
    simp only [next, List.getElem?_eq_getElem hlt, toDo, hphase, hsame, hposition, hlive]
    omega
  | lag =>
    obtain ⟨hlive, hinitial, hdone, hlt⟩ := h
    simp only [toDo, next, hlive]
    omega
  | snapshot =>
    simp only [Enabled] at h
    simp [toDo, next, h]
  | finish =>
    obtain ⟨hlive, -, -⟩ := h
    simp only [toDo, next, hlive]
    omega

/-- No step of the stream is possible. -/
def Stuck (r : Record) (st : Stream) : Prop :=
  ∀ a, ¬st.Enabled r a

/-- **A stream that cannot go on has ended, or waits for the next message.** -/
theorem waiting_of_stuck {r : Record} {st : Stream} (h : st.Stuck r) :
    st.phase = .ended ∨
      (st.phase = .live ∧ st.initial = [] ∧ st.done = false ∧
        r.sent.length ≤ st.position) := by
  cases hphase : st.phase with
  | unsubscribed => exact absurd hphase (h (.subscribe 0))
  | subscribed => exact absurd hphase (h .read)
  | lagged => exact absurd hphase (h .snapshot)
  | ended => exact .inl rfl
  | live =>
    refine .inr ⟨rfl, ?_⟩
    have hinitial : st.initial = [] := by
      by_contra hne
      exact h .replay ⟨hphase, hne⟩
    have hdone : st.done = false := by
      by_contra htrue
      exact h .finish ⟨hphase, hinitial, by simpa using htrue⟩
    refine ⟨hinitial, hdone, ?_⟩
    by_contra hlt
    rw [Nat.not_le] at hlt
    rcases Nat.lt_or_ge (st.position + broadcastCapacity) r.sent.length with hlag | hle
    · exact h .lag ⟨hphase, hinitial, hdone, hlag⟩
    · exact h .receive ⟨hphase, hinitial, hdone, hlt, hle⟩

end Stream

/-- **A stream that is left alone comes to its end.**  While nothing is called on the
record, the stream takes no more steps than it has to do. -/
theorem length_le_toDo {initialBytes : ℕ} {s s' : Feed} {as : List StreamEvent}
    (h : (jobFeed initialBytes).runFrom s (as.map .stream) = some s') :
    as.length ≤ s.stream.toDo s.system.record := by
  induction as generalizing s with
  | nil => exact Nat.zero_le _
  | cons a as ih =>
    obtain ⟨m, hm, hrest⟩ := Machine.runFrom_cons_eq_some _ h
    have hstep : s.step (.stream a) = some m := hm
    obtain ⟨_, _, ha, _⟩ | ⟨b, hb, henabled, rfl⟩ := Feed.step_cases hstep
    · cases ha
    · injection hb with hb
      subst hb
      have hlt := Stream.toDo_lt henabled
      have hle := ih hrest
      rw [List.length_cons]
      simp only at hle
      omega

/-! ### Numbered histories -/

/-- In a history that is numbered from `b + 1`, the events after an id are the ones
from its position on. -/
theorem filter_after {events : List JobEvent} {b : ℕ}
    (h : ∀ (k : ℕ) (e : JobEvent), events[k]? = some e → e.id = b + k + 1) (after : ℕ) :
    events.filter (fun e => after < e.id) = events.drop (after - b) := by
  induction events generalizing b with
  | nil => simp
  | cons e events ih =>
    have hid : e.id = b + 1 := by simpa using h 0 e rfl
    have hrest := ih (b := b + 1) fun k f hf => by
      have := h (k + 1) f (by simpa using hf)
      omega
    rw [List.filter_cons, hrest]
    by_cases hafter : after < e.id
    · rw [if_pos (by simpa using hafter), show after - b = 0 by omega,
        show after - (b + 1) = 0 by omega, List.drop_zero, List.drop_zero]
    · rw [if_neg (by simpa using hafter), show after - b = (after - (b + 1)) + 1 by omega,
        List.drop_succ_cons]

theorem pairwise_ids {events : List JobEvent} {b : ℕ}
    (h : ∀ (k : ℕ) (e : JobEvent), events[k]? = some e → e.id = b + k + 1) :
    (events.map JobEvent.id).Pairwise (· < ·) := by
  induction events generalizing b with
  | nil => exact List.Pairwise.nil
  | cons e events ih =>
    have hid : e.id = b + 1 := by simpa using h 0 e rfl
    have hrest : ∀ (k : ℕ) (f : JobEvent), events[k]? = some f → f.id = (b + 1) + k + 1 := by
      intro k f hf
      have := h (k + 1) f (by simpa using hf)
      omega
    rw [List.map_cons]
    refine List.pairwise_cons.mpr ⟨?_, ih hrest⟩
    intro id hmem
    obtain ⟨f, hf, rfl⟩ := List.mem_map.mp hmem
    obtain ⟨k, hk⟩ := List.mem_iff_getElem?.mp hf
    have := hrest k f hk
    omega

namespace JobState.Wf

variable {s : JobState} (h : s.Wf) (hsize : s.appended.length ≤ u64Max)
include h hsize

theorem lastEventId_length : s.lastEventId = s.appended.length := by
  rw [h.lastEventId_eq, Nat.min_eq_left hsize]

theorem getElem?_of_id {e : JobEvent} (he : e ∈ s.appended) :
    s.appended[e.id - 1]? = some e := by
  obtain ⟨k, hk⟩ := List.mem_iff_getElem?.mp he
  rw [h.id_eq hsize hk, Nat.add_sub_cancel]
  exact hk

theorem filter_appended (after : ℕ) :
    s.appended.filter (fun e => after < e.id) = s.appended.drop after :=
  filter_after (b := 0) (fun k e hk => by rw [h.id_eq hsize hk]; omega) after

/-- When nothing after an id was dropped, the kept events after it are all of them. -/
theorem filter_events {after : ℕ} (hkept : ∀ e ∈ s.dropped, e.id ≤ after) :
    (s.events.map StoredJobEvent.event).filter (fun e => after < e.id) =
      s.appended.drop after := by
  obtain ⟨front, hfront⟩ := h.kept
  have hcount := congrArg List.length hfront
  rw [List.length_append, List.length_map] at hcount
  have hdropped : s.dropped = front := by
    rw [JobState.dropped, ← hfront, List.take_left' (by simp)]
  have hnone : front.filter (fun e => after < e.id) = [] := by
    rw [List.filter_eq_nil_iff]
    intro e he
    simpa using hkept e (hdropped ▸ he)
  rw [← h.filter_appended hsize after, ← hfront, List.filter_append, hnone, List.nil_append]

end JobState.Wf

/-- The last event of an ended job is the only terminal one. -/
theorem JobState.Wf.terminal_iff {s : JobState} (h : s.Wf) (hsize : s.appended.length ≤ u64Max)
    {e : JobEvent} (he : e ∈ s.appended) :
    e.event.isTerminal = true ↔ s.status.isTerminal = true ∧ e.id = s.lastEventId := by
  obtain ⟨before, last, hsplit, hbefore, hlast⟩ := h.outcome
  have hget : s.appended[before.length]? = some last := by simp [hsplit]
  have hid := h.id_eq hsize hget
  have hlength : s.lastEventId = before.length + 1 := by
    rw [h.lastEventId_length hsize, hsplit, List.length_append, List.length_singleton]
  constructor
  · intro hterminal
    have he' := he
    rw [hsplit, List.mem_append, List.mem_singleton] at he'
    rcases he' with hmem | rfl
    · rw [hbefore e hmem] at hterminal
      cases hterminal
    · exact ⟨by rw [← hlast, hterminal], by omega⟩
  · rintro ⟨hterminal, heq⟩
    have hat := h.getElem?_of_id hsize he
    rw [show e.id - 1 = before.length by omega, hget] at hat
    obtain rfl := Option.some.inj hat
    rw [hlast, hterminal]

/-- A step that has an id left for its event leaves all ids apart. -/
theorem System.size_of_step {s s' : System} {a : RecordEvent} (hstep : s.step a = some s')
    (hwf : s.Wf) (hsize : s.record.state.appended.length ≤ u64Max)
    (hok : s.Appends a → s.record.state.lastEventId < u64Max) :
    s'.record.state.appended.length ≤ u64Max := by
  have hlast := hwf.state.lastEventId_length hsize
  have hroom : ∀ (e : JobEvent), s.Appends a →
      (s.record.state.appended ++ [e]).length ≤ u64Max := by
    intro e happends
    have hsmall := hok happends
    rw [List.length_append, List.length_singleton]
    omega
  cases move_of_step hstep with
  | quiet happended => rwa [happended]
  | commit e happends _ happended => rw [happended]; exact hroom e happends
  | request e happends _ happended => rw [happended]; exact hroom e happends
  | broadcast e _ happended => rwa [happended]

theorem System.Wf.tail_id {s : System} (h : s.Wf)
    (hsize : s.record.state.appended.length ≤ u64Max) {k : ℕ} {e : JobEvent}
    (hk : s.record.state.appended.tail[k]? = some e) : e.id = k + 2 := by
  rw [List.getElem?_tail] at hk
  exact h.state.id_eq hsize hk

/-- At most the event of an overtaken cancel is sent after the terminal event. -/
theorem System.Wf.length_le_of_terminal {s : System} (h : s.Wf)
    (hsize : s.record.state.appended.length ≤ u64Max) {k : ℕ} {e : JobEvent}
    (hk : s.record.sent[k]? = some e) (he : e.event.isTerminal = true) :
    s.record.sent.length ≤ k + 2 := by
  have hid : e.id = s.record.state.appended.length := by
    rw [← h.state.lastEventId_length hsize]
    exact ((h.state.terminal_iff hsize (h.mem_of_sent (List.mem_of_getElem? hk))).mp he).2
  have hlength := h.sent_length
  have hearly : ∀ before rest : List JobEvent, s.record.state.appended.tail = before ++ rest →
      s.record.sent.take before.length = before → k < before.length → e.id = k + 2 := by
    intro before rest happended htake hlt
    have hget : before[k]? = some e := by
      rw [← htake, List.getElem?_take_of_lt hlt]
      exact hk
    exact h.tail_id hsize (by rw [happended, List.getElem?_append_left hlt]; exact hget)
  obtain ⟨hlt, -⟩ := List.getElem?_eq_some_iff.mp hk
  rcases h.sent with ⟨hp, hs⟩ | ⟨p, _, hp, hs⟩ | ⟨before, p, c, _, _, hp, ha, hs⟩ |
    ⟨before, p, c, _, _, hp, ha, hs⟩
  · rw [hp, List.length_nil] at hlength
    have := h.tail_id hsize (hs ▸ hk)
    omega
  · rw [hp, List.length_singleton] at hlength
    have := h.tail_id hsize (hs ▸ Pool.getElem?_add_left hk)
    omega
  · have hn := congrArg List.length hs
    rw [List.length_append, List.length_singleton] at hn
    rw [hp, List.length_singleton] at hlength
    rcases Nat.lt_or_ge k before.length with hbefore | hafter
    · have := hearly before [p, c] ha (by rw [hs, List.take_left]) hbefore
      omega
    · omega
  · have hn := congrArg List.length hs
    rw [List.length_append, List.length_cons, List.length_singleton] at hn
    rw [hp, List.length_nil] at hlength
    rcases Nat.lt_or_ge k before.length with hbefore | hafter
    · have := hearly before [p, c] ha (by rw [hs, List.take_left]) hbefore
      omega
    · omega

end Api
end HelmSsh
