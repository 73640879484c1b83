/-
# Replay joins the live events without a gap

When a client subscribes with an `after` that the job has reached, when nothing after it
was dropped yet and the receiver never lags, the events on its stream should be the
consecutive ones after `after`.  They are (`gapless_of_run`) as long as the events are
sent in the order of their ids.  Only `request_cancel`
(`src-tauri/src/api_server/jobs.rs`) sends its event after it released the lock that
numbered it, so `finish_canceled` can send the canceled event first: a stream that read
the state before takes the canceled event, skips the canceling one and ends
(`gapless_fails`).  The condition under which this does not happen is `Feed.Ordered`: no
event is pushed while the event of a cancel that the stream does not know of is still to
be sent.  It also asks that the ids are not used up.
-/

import HelmSsh.Api.JobStream

namespace HelmSsh
namespace Api

/-- The events are sent in the order of their ids. -/
def System.InOrder (s : System) : Prop :=
  ∀ (k : ℕ) (e : JobEvent), s.record.sent[k]? = some e → e.id = k + 2

/-- Events are sent out of order only when the canceled event was sent. -/
theorem System.Wf.inOrder_or_terminal {s : System} (h : s.Wf)
    (hsize : s.record.state.appended.length ≤ u64Max) :
    s.InOrder ∨ s.record.state.status.isTerminal = true := by
  have hcanceled : ∀ before e c, s.record.state.appended.tail = before ++ [e, c] →
      c.event = .canceled → s.record.state.status.isTerminal = true := by
    intro before e c happended hc
    have hmem : c ∈ s.record.state.appended :=
      List.mem_of_mem_tail (by rw [happended]; simp)
    exact ((h.state.terminal_iff hsize hmem).mp (by rw [hc]; rfl)).1
  rcases h.sent with ⟨_, hs⟩ | ⟨e, _, _, hs⟩ | ⟨before, e, c, _, hc, _, ha, _⟩ |
    ⟨before, e, c, _, hc, _, ha, _⟩
  · exact .inl fun k f hf => h.tail_id hsize (hs ▸ hf)
  · exact .inl fun k f hf => h.tail_id hsize (hs ▸ Pool.getElem?_add_left hf)
  · exact .inr (hcanceled before e c ha hc)
  · exact .inr (hcanceled before e c ha hc)

/-- While the job has not ended, an event that is still to be sent is the last one. -/
theorem System.Wf.pending_id {s : System} (h : s.Wf)
    (hsize : s.record.state.appended.length ≤ u64Max)
    (hactive : s.record.state.status.isTerminal = false) {p : JobEvent} (hp : p ∈ s.pending) :
    p.id = s.record.state.appended.length := by
  have hlength := h.sent_length
  have hnot : ∀ before e c, s.record.state.appended.tail = before ++ [e, c] →
      c.event ≠ .canceled := by
    intro before e c happended hc
    have hmem : c ∈ s.record.state.appended :=
      List.mem_of_mem_tail (by rw [happended]; simp)
    have hterminal := ((h.state.terminal_iff hsize hmem).mp (by rw [hc]; rfl)).1
    rw [hactive] at hterminal
    cases hterminal
  rcases h.sent with ⟨hnone, _⟩ | ⟨q, _, hone, hs⟩ | ⟨before, e, c, _, hc, _, ha, _⟩ |
    ⟨before, e, c, _, hc, _, ha, _⟩
  · rw [hnone] at hp
    cases hp
  · rw [hone, List.mem_singleton] at hp
    subst hp
    rw [h.tail_id hsize (hs ▸ List.getElem?_concat_length)]
    rw [hone, List.length_singleton] at hlength
    omega
  · exact absurd hc (hnot before e c ha)
  · exact absurd hc (hnot before e c ha)

/-- An event that is pushed and sent while nothing else is to be sent is sent in order. -/
theorem System.Wf.inOrder_commit {s s' : System} (h : s.Wf) (h' : s'.Wf)
    (hsize : s'.record.state.appended.length ≤ u64Max) {e : JobEvent}
    (happended : s'.record.state.appended = s.record.state.appended ++ [e])
    (hsent : s'.record.sent = s.record.sent ++ [e]) (hpending : s.pending = [])
    (horder : s.InOrder) : s'.InOrder := by
  intro k f hf
  rw [hsent] at hf
  rcases Pool.getElem?_add hf with ⟨rfl, rfl⟩ | hold
  · have hget : s'.record.state.appended[s.record.state.appended.length]? = some f := by
      rw [happended]
      exact List.getElem?_concat_length
    have hlength := h.sent_length
    rw [hpending, List.length_nil] at hlength
    rw [h'.state.id_eq hsize hget]
    omega
  · exact horder k f hold

/-- The event of a cancel is sent in order unless it was overtaken. -/
theorem System.Wf.inOrder_broadcast {s s' : System} (h : s.Wf)
    (hsize : s.record.state.appended.length ≤ u64Max) {e : JobEvent} (he : e ∈ s.pending)
    (hsent : s'.record.sent = s.record.sent ++ [e]) (horder : s.InOrder) :
    s'.InOrder := by
  have hnew : e.id = s.record.sent.length + 2 := by
    rcases h.sent with ⟨hnone, _⟩ | ⟨q, _, hone, hs⟩ | ⟨before, q, c, _, hc, hone, ha, hs⟩ |
      ⟨_, _, _, _, _, hnone, _, _⟩
    · rw [hnone] at he
      cases he
    · rw [hone, List.mem_singleton] at he
      subst he
      exact h.tail_id hsize (hs ▸ List.getElem?_concat_length)
    · -- The canceled event would have to be sent at its own place and one before it.
      have hearly : c.id = before.length + 2 :=
        horder before.length c (by rw [hs]; exact List.getElem?_concat_length)
      have hlate : c.id = before.length + 1 + 2 :=
        h.tail_id hsize (by rw [ha]; simp)
      omega
    · rw [hnone] at he
      cases he
  intro k f hf
  rw [hsent] at hf
  rcases Pool.getElem?_add hf with ⟨rfl, rfl⟩ | hold
  · exact hnew
  · exact horder k f hold

namespace Feed

/-- What the client must do for its stream to be gapless: subscribe after an event that the
job has reached, before any later one is dropped, and keep up with the channel. -/
def KeepsUp (s : Feed) : FeedEvent → Prop
  | .stream .read => s.stream.after ≤ s.system.record.state.lastEventId ∧
      ∀ e ∈ s.system.record.state.dropped, e.id ≤ s.stream.after
  | .stream .lag => False
  | _ => True

/-- An event is pushed only while there are ids left and no event of a cancel that came
after the stream's reading of the state is still to be sent. -/
def Ordered (s : Feed) : FeedEvent → Prop
  | .record a => s.system.Appends a → s.system.record.state.lastEventId < u64Max ∧
      (s.stream.hasRead = true → ∀ e ∈ s.system.pending, e.id ≤ s.stream.lastId)
  | .stream _ => True

instance (s : Feed) (a : FeedEvent) : Decidable (s.KeepsUp a) := by
  induction a using FeedEvent.casesOn with
  | record a => exact isTrue trivial
  | stream a => induction a using StreamEvent.casesOn <;> dsimp only [KeepsUp] <;> infer_instance

instance (s : Feed) (a : FeedEvent) : Decidable (s.Ordered a) := by
  induction a using FeedEvent.casesOn <;> dsimp only [Ordered] <;> infer_instance

/-- What a gapless stream is in a state: the ids on the wire are the consecutive ones after
`after`, when the stream has ended they go up to the terminal event, and a stream that
cannot go on, with nothing left to be sent to it, has put every event on the wire and has
ended if the job has. -/
structure Gapless (s : Feed) : Prop where
  consecutive : s.stream.delivered.map Delivery.id =
    List.range' (s.stream.after + 1) s.stream.delivered.length
  events : s.stream.delivered =
    ((s.system.record.state.appended.drop s.stream.after).take s.stream.delivered.length).map
      Delivery.event
  ended : s.stream.phase = .ended → s.system.record.state.status.isTerminal = true ∧
    s.stream.after + s.stream.delivered.length = s.system.record.state.lastEventId
  complete : s.stream.Stuck s.system.record → s.system.pending = [] →
    s.stream.after + s.stream.delivered.length = s.system.record.state.lastEventId ∧
      (s.system.record.state.status.isTerminal = true → s.stream.phase = .ended)

end Feed

/-- How a stream that has read the state stands to the two histories: it has taken the events
between `after` and `lastId`, and it is done when it has taken the last event of an ended job. -/
structure Reading (appended sent : List JobEvent) (terminal : Bool) (st : Stream) : Prop where
  after_le : st.after ≤ st.lastId
  lastId_pos : 0 < st.lastId
  lastId_le : st.lastId ≤ appended.length
  taken : st.delivered ++ st.initial.map .event =
    ((appended.take st.lastId).drop st.after).map .event
  order : (∀ (k : ℕ) (e : JobEvent), sent[k]? = some e → e.id = k + 2) ∨
    appended.length ≤ st.lastId + 1
  done_iff : st.done = true ↔ terminal = true ∧ st.lastId = appended.length

/-- A stream stands the same to longer histories, if it does not have to learn of their
order. -/
theorem Reading.push {appended sent sent' : List JobEvent} {terminal terminal' : Bool}
    {st : Stream} (h : Reading appended sent terminal st) (hactive : terminal = false)
    (e : JobEvent) (horder : (∀ (k : ℕ) (f : JobEvent), sent'[k]? = some f → f.id = k + 2) ∨
      appended.length ≤ st.lastId) : Reading (appended ++ [e]) sent' terminal' st := by
  have hle := h.lastId_le
  have hdone : ¬st.done = true := by
    intro hdone
    rw [(h.done_iff.mp hdone).1] at hactive
    cases hactive
  refine ⟨h.after_le, h.lastId_pos, ?_, ?_, ?_, ?_⟩
  · rw [List.length_append]
    omega
  · rw [List.take_append_of_le_length hle]
    exact h.taken
  · rw [List.length_append, List.length_singleton]
    exact horder.imp_right fun hknown => by omega
  · rw [List.length_append, List.length_singleton]
    exact ⟨fun htrue => absurd htrue hdone, fun hlong => by omega⟩

/-- The invariant of a feed whose client keeps up. -/
structure Feed.Following (s : Feed) : Prop where
  wf : s.system.Wf
  size : s.system.record.state.appended.length ≤ u64Max
  position_le : s.stream.position ≤ s.system.record.sent.length
  fresh : s.stream.hasRead = false → s.stream.delivered = [] ∧ s.stream.initial = []
  reading : s.stream.hasRead = true →
    Reading s.system.record.state.appended s.system.record.sent
      s.system.record.state.status.isTerminal s.stream
  /-- It is past no message with a later id. -/
  past : s.stream.hasRead = true → ∀ (k : ℕ) (e : JobEvent), k < s.stream.position →
    s.system.record.sent[k]? = some e → e.id ≤ s.stream.lastId
  not_lagged : s.stream.phase ≠ .lagged
  ended : s.stream.phase = .ended → s.stream.done = true ∧ s.stream.initial = []

namespace Feed.Following

variable {s : Feed} (h : s.Following)
include h

theorem lastEventId_eq :
    s.system.record.state.lastEventId = s.system.record.state.appended.length :=
  h.wf.state.lastEventId_length h.size

/-- A step of the record keeps a stream that has read the state where it is. -/
theorem reading_record {a : RecordEvent} {system : System}
    (hstep : s.system.step a = some system)
    (hsize : system.record.state.appended.length ≤ u64Max) (hok : s.Ordered (.record a))
    (hread : s.stream.hasRead = true) :
    Reading system.record.state.appended system.record.sent
      system.record.state.status.isTerminal s.stream := by
  have hr := h.reading hread
  have hwf' := h.wf.step hstep
  cases System.move_of_step hstep with
  | quiet happended hsent hstatus =>
    rw [happended, hsent, hstatus]
    exact hr
  | commit e happends hactive happended hsent hevent =>
    rw [happended]
    refine hr.push hactive e ?_
    cases hpending : s.system.pending with
    | nil =>
      have horder := (h.wf.inOrder_or_terminal h.size).resolve_right
        (Bool.eq_false_iff.mp hactive)
      exact .inl (h.wf.inOrder_commit hwf' hsize happended hsent hpending horder)
    | cons p rest =>
      have hp : p ∈ s.system.pending := by rw [hpending]; exact List.mem_cons_self
      rw [← h.wf.pending_id h.size hactive hp]
      exact .inr ((hok happends).2 hread p hp)
  | request e happends hactive happended hsent hactive' =>
    rw [happended, hsent]
    exact hr.push hactive e (.inl ((h.wf.inOrder_or_terminal h.size).resolve_right
      (Bool.eq_false_iff.mp hactive)))
  | broadcast e hpending happended hsent hstatus =>
    rw [happended, hstatus]
    refine ⟨hr.after_le, hr.lastId_pos, hr.lastId_le, hr.taken, ?_, hr.done_iff⟩
    rcases hr.order with horder | hknown
    · exact .inl (h.wf.inOrder_broadcast h.size hpending hsent horder)
    · exact .inr hknown

theorem step_record {a : RecordEvent} {system : System} (hstep : s.system.step a = some system)
    (hok : s.Ordered (.record a)) : Feed.Following { s with system := system } := by
  have hsize := System.size_of_step hstep h.wf h.size fun happends => (hok happends).1
  have hle := h.position_le
  obtain ⟨rest, hsent⟩ := System.sent_of_step hstep
  refine ⟨h.wf.step hstep, hsize, ?_, h.fresh,
    fun hread => h.reading_record hstep hsize hok hread, fun hread k e hk he => ?_,
    h.not_lagged, h.ended⟩
  · simp only [hsent, List.length_append]
    omega
  · simp only at hk he
    rw [hsent, List.getElem?_append_left (by omega)] at he
    exact h.past hread k e hk he

/-- Reading the state starts the stream at the end of the history. -/
theorem reading_read (hphase : s.stream.phase = .subscribed)
    (hok : s.KeepsUp (.stream .read)) :
    Reading s.system.record.state.appended s.system.record.sent
      s.system.record.state.status.isTerminal (s.stream.next s.system.record .read) := by
  obtain ⟨hreached, hkept⟩ := hok
  have hlast := h.lastEventId_eq
  have hpos := h.wf.state.appended_pos
  obtain ⟨hdelivered, -⟩ := h.fresh (by simp [Stream.hasRead, hphase])
  have hmax : max s.system.record.state.lastEventId s.stream.after =
      s.system.record.state.appended.length := by omega
  refine ⟨Nat.le_max_right _ _, ?_, hmax.le, ?_, .inr ?_, ?_⟩
  · simp only [Stream.next]
    omega
  · simp only [Stream.next, hdelivered, List.nil_append]
    rw [h.wf.state.filter_events h.size hkept, hmax, List.take_length]
  · simp only [Stream.next]
    omega
  · simp only [Stream.next]
    exact ⟨fun hdone => ⟨hdone, hmax⟩, fun hdone => hdone.1⟩

/-- The next message is one that the stream has taken, or the next event. -/
theorem id_le_of_message {e : JobEvent} (hread : s.stream.hasRead = true)
    (he : s.system.record.sent[s.stream.position]? = some e) :
    e.id ≤ s.stream.lastId + 1 := by
  have hr := h.reading hread
  rcases hr.order with horder | hknown
  · have hid := horder s.stream.position e he
    have hpos := hr.lastId_pos
    cases hposition : s.stream.position with
    | zero => omega
    | succ k =>
      obtain ⟨hlt, -⟩ := List.getElem?_eq_some_iff.mp he
      have hget : s.system.record.sent[k]? = some s.system.record.sent[k] :=
        List.getElem?_eq_getElem (by omega)
      have hbefore := h.past hread k _ (by omega) hget
      have hid' := horder k _ hget
      omega
  · have hid := h.wf.state.id_le (h.wf.mem_of_sent (List.mem_of_getElem? he))
    have hlast := h.lastEventId_eq
    omega

/-- Taking a message keeps the stream where it should be. -/
theorem reading_accept {e : JobEvent} (hread : s.stream.hasRead = true)
    (hinitial : s.stream.initial = [])
    (he : s.system.record.sent[s.stream.position]? = some e) :
    Reading s.system.record.state.appended s.system.record.sent
      s.system.record.state.status.isTerminal (s.stream.accept e) := by
  have hr := h.reading hread
  have hle := h.id_le_of_message hread he
  have hmem := h.wf.mem_of_sent (List.mem_of_getElem? he)
  have hlast := h.lastEventId_eq
  unfold Stream.accept
  split_ifs with hold
  · exact ⟨hr.after_le, hr.lastId_pos, hr.lastId_le, hr.taken, hr.order, hr.done_iff⟩
  · have hid : e.id = s.stream.lastId + 1 := by omega
    have hget := h.wf.state.getElem?_of_id h.size hmem
    rw [hid, Nat.add_sub_cancel] at hget
    obtain ⟨hlt, -⟩ := List.getElem?_eq_some_iff.mp hget
    have hafter := hr.after_le
    refine ⟨?_, ?_, ?_, ?_, ?_, ?_⟩
    · simp only
      omega
    · simp only
      omega
    · simp only [hid]
      exact hlt
    · have htaken := hr.taken
      rw [hinitial, List.map_nil, List.append_nil] at htaken
      have hwithin : s.stream.after ≤
          (s.system.record.state.appended.take s.stream.lastId).length := by
        rw [List.length_take]
        omega
      simp only [hinitial, hid, List.map_nil, List.append_nil]
      rw [htaken, List.take_add_one, hget, Option.toList_some,
        List.drop_append_of_le_length hwithin, List.map_append]
      rfl
    · refine hr.order.imp_right fun hknown => ?_
      simp only
      omega
    · simp only [h.wf.state.terminal_iff h.size hmem, ← hlast]

/-- The stream is past a message once it has taken it. -/
theorem past_accept {e : JobEvent} (hread : s.stream.hasRead = true)
    (he : s.system.record.sent[s.stream.position]? = some e) (k : ℕ) (f : JobEvent)
    (hk : k < (s.stream.accept e).position) (hf : s.system.record.sent[k]? = some f) :
    f.id ≤ (s.stream.accept e).lastId := by
  have hbefore : k < s.stream.position → f.id ≤ s.stream.lastId :=
    fun hlt => h.past hread k f hlt hf
  have hnow : k = s.stream.position → f = e := by
    rintro rfl
    exact Option.some.inj (hf.symm.trans he)
  unfold Stream.accept at hk ⊢
  split_ifs at hk ⊢ with hold
  · simp only at hk ⊢
    rcases Nat.lt_succ_iff_lt_or_eq.mp hk with hlt | heq
    · exact hbefore hlt
    · rw [hnow heq]
      exact hold
  · simp only at hk ⊢
    rcases Nat.lt_succ_iff_lt_or_eq.mp hk with hlt | heq
    · have := hbefore hlt
      omega
    · rw [hnow heq]

theorem step_stream {a : StreamEvent} (henabled : s.stream.Enabled s.system.record a)
    (hok : s.KeepsUp (.stream a)) :
    Feed.Following { s with stream := s.stream.next s.system.record a } := by
  cases a with
  | subscribe after =>
    simp only [Stream.Enabled] at henabled
    refine ⟨h.wf, h.size, le_rfl, fun _ => h.fresh (by simp [Stream.hasRead, henabled]),
      (by rintro ⟨⟩), (by rintro ⟨⟩), (by rintro ⟨⟩), (by rintro ⟨⟩)⟩
  | read =>
    simp only [Stream.Enabled] at henabled
    have hr := h.reading_read henabled hok
    refine ⟨h.wf, h.size, h.position_le, (by rintro ⟨⟩), fun _ => hr,
      fun _ k e _ he => ?_, (by rintro ⟨⟩), (by rintro ⟨⟩)⟩
    have hid := h.wf.state.id_le (h.wf.mem_of_sent (List.mem_of_getElem? he))
    simp only [Stream.next]
    omega
  | replay =>
    obtain ⟨hlive, hinitial⟩ := henabled
    have hread : s.stream.hasRead = true := by simp [Stream.hasRead, hlive]
    have hr := h.reading hread
    refine ⟨h.wf, h.size, h.position_le, fun hunread => ?_, fun _ => ?_, fun _ => h.past hread,
      h.not_lagged, fun hended => ?_⟩
    · exact absurd hread (Bool.eq_false_iff.mp hunread)
    · refine ⟨hr.after_le, hr.lastId_pos, hr.lastId_le, ?_, hr.order, hr.done_iff⟩
      simp only [Stream.next]
      rw [List.append_assoc, ← List.map_append, ← List.drop_one, List.take_append_drop]
      exact hr.taken
    · simp only [Stream.next, hlive] at hended
      cases hended
  | receive =>
    obtain ⟨hlive, hinitial, -, hlt, -⟩ := henabled
    have hread : s.stream.hasRead = true := by simp [Stream.hasRead, hlive]
    have he : s.system.record.sent[s.stream.position]? =
        some s.system.record.sent[s.stream.position] := List.getElem?_eq_getElem hlt
    have hnext : s.stream.next s.system.record .receive =
        s.stream.accept s.system.record.sent[s.stream.position] := by
      simp only [Stream.next, he]
    have hphase : (s.stream.accept s.system.record.sent[s.stream.position]).phase = .live := by
      unfold Stream.accept
      split_ifs <;> exact hlive
    rw [hnext]
    refine ⟨h.wf, h.size, ?_, fun hunread => ?_, fun _ => h.reading_accept hread hinitial he,
      fun _ => h.past_accept hread he, ?_, ?_⟩
    · unfold Stream.accept
      split_ifs <;> exact hlt
    · simp [Stream.hasRead, hphase] at hunread
    · rw [hphase]
      rintro ⟨⟩
    · rw [hphase]
      rintro ⟨⟩
  | lag => exact absurd hok id
  | snapshot => exact absurd henabled h.not_lagged
  | finish =>
    obtain ⟨hlive, hinitial, hdone⟩ := henabled
    have hread : s.stream.hasRead = true := by simp [Stream.hasRead, hlive]
    have hr := h.reading hread
    refine ⟨h.wf, h.size, h.position_le, fun hunread => ?_, fun _ => ?_, fun _ => h.past hread,
      (by rintro ⟨⟩), fun _ => ⟨hdone, hinitial⟩⟩
    · simp [Stream.hasRead, Stream.next] at hunread
    · exact ⟨hr.after_le, hr.lastId_pos, hr.lastId_le, hr.taken, hr.order, hr.done_iff⟩

/-- The events on the wire are the ones after `after`. -/
theorem delivered_eq : s.stream.delivered =
    ((s.system.record.state.appended.drop s.stream.after).take
      s.stream.delivered.length).map Delivery.event := by
  cases hread : s.stream.hasRead with
  | false => simp [(h.fresh hread).1]
  | true =>
    have hr := h.reading hread
    have htaken := congrArg (List.take s.stream.delivered.length) hr.taken
    rw [List.take_left, ← List.map_take, List.drop_take, List.take_take] at htaken
    have hshort := congrArg List.length hr.taken
    simp only [List.length_append, List.length_map, List.length_drop, List.length_take] at hshort
    rw [Nat.min_eq_left (by omega)] at htaken
    exact htaken

/-- A stream that has nothing left to replay has taken the events up to its last id. -/
theorem delivered_length (hread : s.stream.hasRead = true) (hinitial : s.stream.initial = []) :
    s.stream.after + s.stream.delivered.length = s.stream.lastId := by
  have hr := h.reading hread
  have hcount := congrArg List.length hr.taken
  have hafter := hr.after_le
  have hle := hr.lastId_le
  simp only [hinitial, List.map_nil, List.append_nil, List.length_map, List.length_drop,
    List.length_take] at hcount
  omega

theorem consecutive : s.stream.delivered.map Delivery.id =
    List.range' (s.stream.after + 1) s.stream.delivered.length := by
  have hevents := h.delivered_eq
  have hcount := congrArg List.length hevents
  simp only [List.length_map, List.length_take, List.length_drop] at hcount
  refine List.ext_getElem? fun k => ?_
  rcases Nat.lt_or_ge k s.stream.delivered.length with hlt | hge
  · have hbound : s.stream.after + k < s.system.record.state.appended.length := by
      omega
    have hget := List.getElem?_eq_getElem hbound
    have hid := h.wf.state.id_eq h.size hget
    rw [List.getElem?_range' hlt, hevents, List.map_map, List.getElem?_map,
      List.getElem?_take_of_lt hlt, List.getElem?_drop, hget]
    simp only [Option.map_some, Function.comp_apply, Delivery.id, hid]
    congr 1
    omega
  · rw [List.getElem?_eq_none (by simpa using hge), List.getElem?_eq_none (by simpa using hge)]

/-- A stream that is past every message, with none still to be sent, has taken every
event. -/
theorem lastId_eq (hread : s.stream.hasRead = true) (hpending : s.system.pending = [])
    (hpast : s.system.record.sent.length ≤ s.stream.position) :
    s.stream.lastId = s.system.record.state.appended.length := by
  have hr := h.reading hread
  have hpos := hr.lastId_pos
  have hle := hr.lastId_le
  refine Nat.le_antisymm hle ?_
  rcases Nat.lt_or_ge s.system.record.state.appended.length 2 with hone | htwo
  · omega
  · obtain ⟨e, hget⟩ : ∃ e, s.system.record.state.appended.tail[
        s.system.record.state.appended.length - 2]? = some e := by
      rw [List.getElem?_tail]
      exact ⟨_, List.getElem?_eq_getElem (by omega)⟩
    have hid := h.wf.tail_id h.size hget
    have hsent : e ∈ s.system.record.sent := by
      have hmem := h.wf.sent_perm.symm.subset (List.mem_of_getElem? hget)
      rwa [hpending, List.append_nil] at hmem
    obtain ⟨k, hk⟩ := List.mem_iff_getElem?.mp hsent
    obtain ⟨hlt, -⟩ := List.getElem?_eq_some_iff.mp hk
    have hbound := h.past hread k _ (by omega) hk
    omega

/-- **A stream whose client keeps up is gapless.** -/
theorem gapless : s.Gapless := by
  have hlast := h.lastEventId_eq
  have hended : s.stream.phase = .ended → s.system.record.state.status.isTerminal = true ∧
      s.stream.after + s.stream.delivered.length = s.system.record.state.lastEventId := by
    intro hphase
    have hread : s.stream.hasRead = true := by simp [Stream.hasRead, hphase]
    obtain ⟨hdone, hinitial⟩ := h.ended hphase
    obtain ⟨hterminal, hall⟩ := (h.reading hread).done_iff.mp hdone
    exact ⟨hterminal, by rw [h.delivered_length hread hinitial, hall, hlast]⟩
  refine ⟨h.consecutive, h.delivered_eq, hended, fun hstuck hpending => ?_⟩
  rcases Stream.waiting_of_stuck hstuck with hphase | ⟨hlive, hinitial, hdone, hpast⟩
  · exact ⟨(hended hphase).2, fun _ => hphase⟩
  · have hread : s.stream.hasRead = true := by simp [Stream.hasRead, hlive]
    have hall := h.lastId_eq hread hpending hpast
    refine ⟨by rw [h.delivered_length hread hinitial, hall, hlast], fun hterminal => ?_⟩
    have htrue := (h.reading hread).done_iff.mpr ⟨hterminal, hall⟩
    rw [hdone] at htrue
    cases htrue

end Feed.Following

theorem Feed.following_init {initialBytes : ℕ} (h : initialBytes ≤ maxJobEventBytes) :
    (jobFeed initialBytes).init.Following where
  wf := System.wf_new h
  size := by
    change 1 ≤ u64Max
    decide
  position_le := le_rfl
  fresh := fun _ => ⟨rfl, rfl⟩
  reading := nofun
  past := nofun
  not_lagged := nofun
  ended := nofun

/-- **Streams of clients that keep up are gapless.**  In every run in which the client
keeps up and the events are pushed in order, the ids on its stream are the consecutive ones
after `after` in every state, they go up to the terminal event when the stream has ended,
and when the stream cannot go on it has put everything on the wire.  The stream by itself
takes only so many steps. -/
theorem gapless_of_run {initialBytes : ℕ} (hinitial : initialBytes ≤ maxJobEventBytes)
    {as : List FeedEvent} {s : Feed}
    (hok : (jobFeed initialBytes).Meets (fun s a => s.KeepsUp a ∧ s.Ordered a) as)
    (h : (jobFeed initialBytes).run as = some s) :
    s.Gapless ∧ ∀ (bs : List StreamEvent) (s' : Feed),
      (jobFeed initialBytes).runFrom s (bs.map .stream) = some s' →
        bs.length ≤ s.stream.toDo s.system.record := by
  have hfollowing : s.Following := by
    refine Machine.run_invariant_of (Feed.following_init hinitial) ?_ hok h
    intro t a t' ht hmeets hstep
    obtain ⟨b, system, rfl, hsystem, rfl⟩ | ⟨b, rfl, henabled, rfl⟩ := Feed.step_cases hstep
    · exact ht.step_record hsystem hmeets.2
    · exact ht.step_stream henabled hmeets.1
  exact ⟨hfollowing.gapless, fun bs s' hrun => length_le_toDo hrun⟩

/-- A job that is canceled in order, and its stream. -/
def canceledFeed : List FeedEvent :=
  [.stream (.subscribe 1), .stream .read, .record (.call .requestCancel),
    .record (.step 0 ⟨1, 35, 400⟩), .record (.step 0 ⟨1, 35, 400⟩),
    .record (.step 0 ⟨1, 35, 400⟩), .record (.call .finishCanceled),
    .record (.step 1 ⟨2, 35, 400⟩), .stream .receive, .stream .receive, .stream .finish]

/-- Its stream has the canceling and the canceled event and has ended. -/
theorem gapless_of_run_canceledFeed : ∃ s, (jobFeed 400).run canceledFeed = some s ∧
    s.stream.delivered = [.event ⟨2, .canceling⟩, .event ⟨3, .canceled⟩] ∧
    s.stream.phase = .ended ∧ s.Gapless := by
  refine ⟨_, rfl, rfl, rfl, ?_⟩
  exact (gapless_of_run (by decide : 400 ≤ maxJobEventBytes)
    (by decide +kernel : (jobFeed 400).Meets (fun s a => s.KeepsUp a ∧ s.Ordered a) canceledFeed)
    rfl).1

/-- The same job, with the canceled event pushed and sent before the canceling one is
sent. -/
def overtakenFeed : List FeedEvent :=
  [.stream (.subscribe 1), .stream .read, .record (.call .requestCancel),
    .record (.step 0 ⟨1, 35, 400⟩), .record (.step 0 ⟨1, 35, 400⟩),
    .record (.call .finishCanceled), .record (.step 1 ⟨2, 35, 400⟩),
    .record (.step 0 ⟨1, 35, 400⟩), .stream .receive, .stream .finish]

/-- The client keeps up, and its stream ends without the canceling event. -/
theorem gapless_fails : ¬ ∀ (initialBytes : ℕ) (as : List FeedEvent) (s : Feed),
    initialBytes ≤ maxJobEventBytes → (jobFeed initialBytes).Meets Feed.KeepsUp as →
    (jobFeed initialBytes).run as = some s → s.Gapless := by
  intro hclaim
  have hgapless := hclaim 400 overtakenFeed _ (by decide) (by decide +kernel) rfl
  have hids := hgapless.consecutive
  revert hids
  decide +kernel

end Api
end HelmSsh
