/-
# Every stream ends with the outcome

For any `after` of the client and any lag of its receiver, the ids on a stream of job
events should strictly increase, what the client missed should be covered by a snapshot,
and the stream should end with the outcome.  `rest_job_events`
(`src-tauri/src/api_server/handlers_jobs.rs`) falls short of this in two ways:

* the events that `push_event` dropped before the client subscribed are covered by
  nothing: the stream goes on with the first event that is left, and when the job has
  ended it just ends (`outcome_fails`);
* the snapshot after a lag takes the job's last id, also when the client has that event
  already, because the receiver was behind the state that was read.

`outcome_of_run` is what holds in every run in which neither happens (`Feed.Caught`) and
the ids are not used up: whatever `after` was, whatever the receiver lags over and in
whatever order the events of a cancel are sent.
-/

import HelmSsh.Api.JobStream

namespace HelmSsh
namespace Api

namespace Feed

/-- The stream reads the state before any event after `after` is dropped, and takes a
snapshot only when there is something new; the ids are not used up. -/
def Caught (s : Feed) : FeedEvent → Prop
  | .record a => s.system.Appends a → s.system.record.state.lastEventId < u64Max
  | .stream .read => ∀ e ∈ s.system.record.state.dropped, e.id ≤ s.stream.after
  | .stream .snapshot =>
    ∀ d ∈ s.stream.delivered, d.id < s.system.record.state.lastEventId
  | .stream _ => True

instance (s : Feed) (a : FeedEvent) : Decidable (s.Caught a) := by
  induction a using FeedEvent.casesOn with
  | record a => dsimp only [Caught]; infer_instance
  | stream a => induction a using StreamEvent.casesOn <;> dsimp only [Caught] <;> infer_instance

/-- The client has learned of the outcome: it had it already, or the terminal event or a
snapshot of the ended job is on the wire. -/
def Informed (s : Feed) : Prop :=
  s.system.record.state.lastEventId ≤ s.stream.after ∨
    (∃ e, .event e ∈ s.stream.delivered ∧ e.event.isTerminal = true) ∨
    ∃ id, .snapshot id true ∈ s.stream.delivered

/-- What a stream promises in a state. -/
structure Outcome (s : Feed) : Prop where
  increasing : (s.stream.delivered.map Delivery.id).Pairwise (· < ·)
  /-- What was dropped or lagged over is covered once the stream goes on. -/
  covered : s.stream.phase ≠ .lagged → ∀ id ∈ s.stream.missed,
    ∃ d terminal, .snapshot d terminal ∈ s.stream.delivered ∧ id ≤ d
  ended : s.stream.phase = .ended → s.system.record.state.status.isTerminal = true ∧ s.Informed
  /-- A stream of an ended job that cannot go on has ended, or the client had the outcome. -/
  complete : s.stream.Stuck s.system.record →
    s.system.record.state.status.isTerminal = true →
      s.stream.phase = .ended ∨ s.system.record.state.lastEventId ≤ s.stream.after

end Feed

/-- The message with the terminal event is still ahead of the receiver. -/
def Ahead (r : Record) (position : ℕ) : Prop :=
  ∃ (k : ℕ) (e : JobEvent), position ≤ k ∧ r.sent[k]? = some e ∧ e.event.isTerminal = true

/-- The invariant of a feed whose stream is caught up by its snapshots. -/
structure Feed.Covering (s : Feed) : Prop where
  wf : s.system.Wf
  size : s.system.record.state.appended.length ≤ u64Max
  position_le : s.stream.position ≤ s.system.record.sent.length
  fresh : s.stream.hasRead = false → s.stream.delivered = [] ∧ s.stream.initial = [] ∧
    s.stream.missed = [] ∧ s.stream.done = false
  /-- The ids on the wire and those to be replayed. -/
  increasing : (s.stream.delivered.map Delivery.id ++
    s.stream.initial.map JobEvent.id).Pairwise (· < ·)
  bound : s.stream.hasRead = true → ∀ id ∈ s.stream.delivered.map Delivery.id ++
    s.stream.initial.map JobEvent.id, id ≤ s.stream.lastId
  covered : ∀ id ∈ s.stream.missed,
    (s.stream.phase = .lagged ∧ id ≤ s.system.record.state.lastEventId) ∨
      ∃ d terminal, .snapshot d terminal ∈ s.stream.delivered ∧ id ≤ d
  /-- A stream that is done has the outcome on the wire or to be replayed. -/
  done : s.stream.done = true → s.system.record.state.status.isTerminal = true ∧
    (s.Informed ∨ ∃ e ∈ s.stream.initial, e.event.isTerminal = true)
  /-- A stream that is not done is not past the outcome. -/
  notDone : s.stream.hasRead = true → s.stream.done = false →
    if s.system.record.state.status.isTerminal then
      s.system.record.state.lastEventId ≤ s.stream.after ∨
        (s.stream.lastId < s.system.record.state.lastEventId ∧
          Ahead s.system.record s.stream.position)
    else s.stream.lastId ≤ s.system.record.state.lastEventId ∨ s.stream.lastId ≤ s.stream.after
  lagged : s.stream.phase = .lagged → s.stream.initial = [] ∧ s.stream.done = false
  ended : s.stream.phase = .ended → s.stream.initial = [] ∧ s.stream.done = true

namespace Feed.Covering

variable {s : Feed} (h : s.Covering)
include h

theorem lastEventId_eq :
    s.system.record.state.lastEventId = s.system.record.state.appended.length :=
  h.wf.state.lastEventId_length h.size

theorem step_record {a : RecordEvent} {system : System} (hstep : s.system.step a = some system)
    (hok : s.Caught (.record a)) : Feed.Covering { s with system := system } := by
  have hsize := System.size_of_step hstep h.wf h.size hok
  have hwf := h.wf.step hstep
  have hlast := h.lastEventId_eq
  have hlast' := hwf.state.lastEventId_length hsize
  have hle := h.position_le
  obtain ⟨rest, hsent⟩ := System.sent_of_step hstep
  have hmono : s.system.record.state.lastEventId ≤ system.record.state.lastEventId := by
    cases System.move_of_step hstep with
    | quiet happended => rw [hlast, hlast', happended]
    | commit e _ _ happended => rw [hlast, hlast', happended, List.length_append]; omega
    | request e _ _ happended => rw [hlast, hlast', happended, List.length_append]; omega
    | broadcast e _ happended => rw [hlast, hlast', happended]
  refine ⟨hwf, hsize, ?_, h.fresh, h.increasing, h.bound, fun id hid => ?_, fun hdone => ?_,
    fun hread hdone => ?_, h.lagged, h.ended⟩
  · simp only [hsent, List.length_append]
    omega
  · exact (h.covered id hid).imp_left fun hlag => ⟨hlag.1, hlag.2.trans hmono⟩
  · obtain ⟨hterminal, houtcome⟩ := h.done hdone
    have hsame : system.record.state.status.isTerminal = true ∧
        system.record.state.lastEventId = s.system.record.state.lastEventId := by
      cases System.move_of_step hstep with
      | quiet happended _ hstatus =>
        exact ⟨by rw [hstatus, hterminal], by rw [hlast, hlast', happended]⟩
      | commit e _ hactive => rw [hactive] at hterminal; cases hterminal
      | request e _ hactive => rw [hactive] at hterminal; cases hterminal
      | broadcast e _ happended _ hstatus =>
        exact ⟨by rw [hstatus, hterminal], by rw [hlast, hlast', happended]⟩
    refine ⟨hsame.1, houtcome.imp_left fun hinformed => ?_⟩
    simp only [Informed, hsame.2]
    exact hinformed
  · have hold := h.notDone hread hdone
    cases System.move_of_step hstep with
    | quiet happended hsent hstatus =>
      simp only [Ahead, hstatus, hsent, show system.record.state.lastEventId =
        s.system.record.state.lastEventId by rw [hlast, hlast', happended]]
      exact hold
    | commit e _ hactive happended hsent hevent =>
      rw [if_neg (by simp [hactive])] at hold
      have hgrown : system.record.state.lastEventId =
          s.system.record.state.lastEventId + 1 := by
        rw [hlast, hlast', happended, List.length_append, List.length_singleton]
      simp only
      split_ifs with hterminal
      · have hahead : Ahead system.record s.stream.position :=
          ⟨s.system.record.sent.length, e, hle, by rw [hsent]; exact List.getElem?_concat_length,
            hevent.trans hterminal⟩
        rcases Nat.lt_or_ge s.stream.after system.record.state.lastEventId with hlt | hge
        · exact .inr ⟨by omega, hahead⟩
        · exact .inl hge
      · omega
    | request e _ hactive happended hsent hactive' =>
      rw [if_neg (by simp [hactive])] at hold
      have hgrown : system.record.state.lastEventId =
          s.system.record.state.lastEventId + 1 := by
        rw [hlast, hlast', happended, List.length_append, List.length_singleton]
      simp only
      rw [if_neg (by simp [hactive'])]
      omega
    | broadcast e _ happended hsent hstatus =>
      simp only [hstatus, show system.record.state.lastEventId =
        s.system.record.state.lastEventId by rw [hlast, hlast', happended]]
      split_ifs at hold ⊢ with hterminal
      · refine hold.imp_right fun hbehind => ⟨hbehind.1, ?_⟩
        obtain ⟨k, f, hk, hf, hfterminal⟩ := hbehind.2
        exact ⟨k, f, hk, by rw [hsent]; exact Pool.getElem?_add_left hf, hfterminal⟩
      · exact hold

/-- Reading the state keeps the invariant, when nothing after `after` was dropped. -/
theorem step_read (hphase : s.stream.phase = .subscribed)
    (hok : ∀ e ∈ s.system.record.state.dropped, e.id ≤ s.stream.after) :
    Feed.Covering { s with stream := s.stream.next s.system.record .read } := by
  obtain ⟨hdelivered, -, -, -⟩ := h.fresh (by simp [Stream.hasRead, hphase])
  have hinitial : (s.stream.next s.system.record .read).initial =
      s.system.record.state.appended.drop s.stream.after :=
    h.wf.state.filter_events h.size hok
  have hmissed : (s.stream.next s.system.record .read).missed = [] := by
    simp only [Stream.next, List.map_eq_nil_iff, List.filter_eq_nil_iff]
    intro e he
    simpa using hok e he
  have hids : ((s.stream.next s.system.record .read).delivered.map Delivery.id ++
      (s.stream.next s.system.record .read).initial.map JobEvent.id) =
      (s.system.record.state.appended.drop s.stream.after).map JobEvent.id := by
    rw [hinitial]
    simp only [Stream.next, hdelivered, List.map_nil, List.nil_append]
  have hlast := h.lastEventId_eq
  refine ⟨h.wf, h.size, h.position_le, (by rintro ⟨⟩), ?_, fun _ => ?_, ?_, fun hdone => ?_,
    fun _ hdone => ?_, (by rintro ⟨⟩), (by rintro ⟨⟩)⟩
  · rw [hids]
    exact (pairwise_ids (b := 0) fun k e hk => by
      rw [h.wf.state.id_eq h.size hk]; omega).sublist ((List.drop_sublist _ _).map _)
  · rw [hids]
    intro id hid
    obtain ⟨e, he, rfl⟩ := List.mem_map.mp hid
    exact (h.wf.state.id_le (List.mem_of_mem_drop he)).trans (Nat.le_max_left _ _)
  · rw [hmissed]
    exact fun id hid => absurd hid List.not_mem_nil
  · refine ⟨hdone, ?_⟩
    obtain ⟨before, last, hsplit, -, hevent⟩ := h.wf.state.outcome
    have hmem : last ∈ s.system.record.state.appended := by rw [hsplit]; simp
    have hterminal := hevent.trans hdone
    have hid := ((h.wf.state.terminal_iff h.size hmem).mp hterminal).2
    rcases Nat.lt_or_ge s.stream.after s.system.record.state.lastEventId with hlt | hge
    · refine .inr ⟨last, ?_, hterminal⟩
      rw [hinitial, ← h.wf.state.filter_appended h.size, List.mem_filter]
      exact ⟨hmem, by simpa [hid] using hlt⟩
    · exact .inl (.inl hge)
  · have hactive : s.system.record.state.status.isTerminal = false := hdone
    simp only [hactive, Stream.next]
    rw [if_neg (by rintro ⟨⟩)]
    omega

theorem step_replay (hlive : s.stream.phase = .live) (hinitial : s.stream.initial ≠ []) :
    Feed.Covering { s with stream := s.stream.next s.system.record .replay } := by
  obtain ⟨e, rest, hsplit⟩ := List.exists_cons_of_ne_nil hinitial
  have hread : s.stream.hasRead = true := by simp [Stream.hasRead, hlive]
  have hnext : s.stream.next s.system.record .replay =
      { s.stream with initial := rest, delivered := s.stream.delivered ++ [.event e] } := by
    simp [Stream.next, hsplit]
  have hids : (s.stream.delivered ++ [Delivery.event e]).map Delivery.id ++
      rest.map JobEvent.id =
      s.stream.delivered.map Delivery.id ++ s.stream.initial.map JobEvent.id := by
    rw [hsplit, List.map_append, List.append_assoc]
    rfl
  rw [hnext]
  refine ⟨h.wf, h.size, h.position_le, fun hunread => ?_, ?_, fun _ => ?_, fun id hid => ?_,
    fun hdone => ?_, fun _ => h.notDone hread, ?_, ?_⟩
  · exact absurd hread (Bool.eq_false_iff.mp hunread)
  · simpa only [hids] using h.increasing
  · simpa only [hids] using h.bound hread
  · refine (h.covered id hid).imp_right fun hcovered => ?_
    obtain ⟨d, terminal, hd, hle⟩ := hcovered
    exact ⟨d, terminal, List.mem_append_left _ hd, hle⟩
  · obtain ⟨hterminal, hinformed | ⟨f, hf, hfterminal⟩⟩ := h.done hdone
    · refine ⟨hterminal, .inl ?_⟩
      rcases hinformed with hafter | ⟨f, hf, hfterminal⟩ | ⟨d, hd⟩
      · exact .inl hafter
      · exact .inr (.inl ⟨f, List.mem_append_left _ hf, hfterminal⟩)
      · exact .inr (.inr ⟨d, List.mem_append_left _ hd⟩)
    · refine ⟨hterminal, ?_⟩
      rw [hsplit, List.mem_cons] at hf
      rcases hf with rfl | hf
      · exact .inl (.inr (.inl ⟨f, List.mem_append_right _ List.mem_cons_self, hfterminal⟩))
      · exact .inr ⟨f, hf, hfterminal⟩
  · intro hlagged
    rw [show s.stream.phase = .lagged from hlagged] at hlive
    cases hlive
  · intro hended
    rw [show s.stream.phase = .ended from hended] at hlive
    cases hlive

/-- A message that the stream has or is covered for is skipped. -/
theorem step_skip {e : JobEvent} (hlive : s.stream.phase = .live)
    (hdone : s.stream.done = false)
    (he : s.system.record.sent[s.stream.position]? = some e) (hold : e.id ≤ s.stream.lastId) :
    Feed.Covering { s with stream := { s.stream with position := s.stream.position + 1 } } := by
  have hread : s.stream.hasRead = true := by simp [Stream.hasRead, hlive]
  obtain ⟨hlt, -⟩ := List.getElem?_eq_some_iff.mp he
  refine ⟨h.wf, h.size, hlt, h.fresh, h.increasing, h.bound, h.covered, h.done,
    fun _ _ => ?_, h.lagged, h.ended⟩
  have hnot := h.notDone hread hdone
  simp only
  split_ifs at hnot ⊢ with hterminal
  · refine hnot.imp_right fun hbehind => ⟨hbehind.1, ?_⟩
    obtain ⟨k, f, hk, hf, hfterminal⟩ := hbehind.2
    refine ⟨k, f, ?_, hf, hfterminal⟩
    rcases Nat.lt_or_eq_of_le hk with hahead | rfl
    · exact hahead
    · -- The next message would be the terminal event, which the stream has not taken.
      obtain rfl := Option.some.inj (hf.symm.trans he)
      have hmem := h.wf.mem_of_sent (List.mem_of_getElem? hf)
      have hid := ((h.wf.state.terminal_iff h.size hmem).mp hfterminal).2
      have hlater := hbehind.1
      omega
  · exact hnot

theorem step_deliver {e : JobEvent} (hlive : s.stream.phase = .live)
    (hinitial : s.stream.initial = []) (hdone : s.stream.done = false)
    (he : s.system.record.sent[s.stream.position]? = some e) (hnew : s.stream.lastId < e.id) :
    Feed.Covering { s with stream := { s.stream with
      position := s.stream.position + 1
      lastId := e.id
      done := e.event.isTerminal
      delivered := s.stream.delivered ++ [.event e] } } := by
  have hread : s.stream.hasRead = true := by simp [Stream.hasRead, hlive]
  obtain ⟨hlt, -⟩ := List.getElem?_eq_some_iff.mp he
  have hmem := h.wf.mem_of_sent (List.mem_of_getElem? he)
  have hterminal_iff := h.wf.state.terminal_iff h.size hmem
  have hbound := h.bound hread
  have hincreasing := h.increasing
  rw [hinitial, List.map_nil, List.append_nil] at hbound hincreasing
  have hids : (s.stream.delivered ++ [Delivery.event e]).map Delivery.id ++
      s.stream.initial.map JobEvent.id = s.stream.delivered.map Delivery.id ++ [e.id] := by
    rw [hinitial, List.map_append]
    exact List.append_nil _
  refine ⟨h.wf, h.size, hlt, fun hunread => ?_, ?_, fun _ => ?_, fun id hid => ?_,
    fun hterminal => ?_, fun _ hgoes => ?_, fun hlagged => ?_, fun hended => ?_⟩
  · exact absurd hread (Bool.eq_false_iff.mp hunread)
  · simp only [hids]
    refine List.pairwise_append.mpr ⟨hincreasing, List.pairwise_singleton _ _, ?_⟩
    intro d hd id hid
    rw [List.mem_singleton] at hid
    have := hbound d hd
    omega
  · simp only [hids]
    intro id hid
    rcases List.mem_append.mp hid with hd | hd
    · have := hbound id hd
      omega
    · rw [List.mem_singleton.mp hd]
  · refine (h.covered id hid).imp_right fun hcovered => ?_
    obtain ⟨d, terminal, hd, hle⟩ := hcovered
    exact ⟨d, terminal, List.mem_append_left _ hd, hle⟩
  · exact ⟨(hterminal_iff.mp hterminal).1,
      .inl (.inr (.inl ⟨e, List.mem_append_right _ List.mem_cons_self, hterminal⟩))⟩
  · have hnot := h.notDone hread hdone
    have hle := h.wf.state.id_le hmem
    have hother : ¬e.event.isTerminal = true := by
      rw [show e.event.isTerminal = false from hgoes]
      exact nofun
    simp only
    split_ifs at hnot ⊢ with hterminal
    · refine hnot.imp_right fun hbehind => ⟨?_, ?_⟩
      · rcases Nat.lt_or_eq_of_le hle with hearlier | hlast
        · exact hearlier
        · exact absurd (hterminal_iff.mpr ⟨hterminal, hlast⟩) hother
      · obtain ⟨k, f, hk, hf, hfterminal⟩ := hbehind.2
        refine ⟨k, f, ?_, hf, hfterminal⟩
        rcases Nat.lt_or_eq_of_le hk with hahead | rfl
        · exact hahead
        · obtain rfl := Option.some.inj (hf.symm.trans he)
          exact absurd hfterminal hother
    · exact .inl hle
  · rw [show s.stream.phase = .lagged from hlagged] at hlive
    cases hlive
  · rw [show s.stream.phase = .ended from hended] at hlive
    cases hlive

/-- A lag keeps the invariant: the terminal event is among the messages that are left. -/
theorem step_lag (hlive : s.stream.phase = .live) (hinitial : s.stream.initial = [])
    (hdone : s.stream.done = false) :
    Feed.Covering { s with stream := s.stream.next s.system.record .lag } := by
  have hread : s.stream.hasRead = true := by simp [Stream.hasRead, hlive]
  refine ⟨h.wf, h.size, Nat.sub_le _ _, nofun, h.increasing, fun _ => h.bound hread,
    fun id hid => ?_, h.done, fun _ _ => ?_, fun _ => ⟨hinitial, hdone⟩, nofun⟩
  · simp only [Stream.next, List.mem_append] at hid
    rcases hid with hold | hnew
    · rcases h.covered id hold with ⟨hlagged, -⟩ | hcovered
      · rw [hlagged] at hlive
        cases hlive
      · exact .inr hcovered
    · obtain ⟨e, he, rfl⟩ := List.mem_map.mp hnew
      have hsent : e ∈ s.system.record.sent :=
        List.mem_of_mem_take (List.mem_of_mem_drop (List.mem_filter.mp he).1)
      exact .inl ⟨rfl, h.wf.state.id_le (h.wf.mem_of_sent hsent)⟩
  · have hnot := h.notDone hread hdone
    simp only [Stream.next]
    split_ifs at hnot ⊢ with hterminal
    · refine hnot.imp_right fun hbehind => ⟨hbehind.1, ?_⟩
      obtain ⟨k, f, _, hf, hfterminal⟩ := hbehind.2
      have hrecent := h.wf.length_le_of_terminal h.size hf hfterminal
      refine ⟨k, f, ?_, hf, hfterminal⟩
      rw [broadcastCapacity]
      omega
    · exact hnot

/-- A snapshot of something new covers what the receiver lagged over. -/
theorem step_snapshot (hlagged : s.stream.phase = .lagged)
    (hok : ∀ d ∈ s.stream.delivered, d.id < s.system.record.state.lastEventId) :
    Feed.Covering { s with stream := s.stream.next s.system.record .snapshot } := by
  obtain ⟨hinitial, hdone⟩ := h.lagged hlagged
  have hincreasing := h.increasing
  rw [hinitial, List.map_nil, List.append_nil] at hincreasing
  have hids : (s.stream.next s.system.record .snapshot).delivered.map Delivery.id ++
      (s.stream.next s.system.record .snapshot).initial.map JobEvent.id =
      s.stream.delivered.map Delivery.id ++ [s.system.record.state.lastEventId] := by
    simp only [Stream.next, hinitial, List.map_append, List.map_nil, List.append_nil]
    rfl
  have hnewest : ∀ id ∈ s.stream.delivered.map Delivery.id,
      id < s.system.record.state.lastEventId := by
    intro id hid
    obtain ⟨d, hd, rfl⟩ := List.mem_map.mp hid
    exact hok d hd
  refine ⟨h.wf, h.size, h.position_le, (by rintro ⟨⟩), ?_, fun _ => ?_, fun id hid => ?_,
    fun hterminal => ?_, fun _ hgoes => ?_, (by rintro ⟨⟩), (by rintro ⟨⟩)⟩
  · rw [hids]
    refine List.pairwise_append.mpr ⟨hincreasing, List.pairwise_singleton _ _, ?_⟩
    intro d hd id hid
    rw [List.mem_singleton.mp hid]
    exact hnewest d hd
  · rw [hids]
    intro id hid
    rcases List.mem_append.mp hid with hd | hd
    · exact (hnewest id hd).le
    · exact (List.mem_singleton.mp hd).le
  · refine .inr ?_
    rcases h.covered id hid with ⟨-, hle⟩ | ⟨d, terminal, hd, hle⟩
    · exact ⟨s.system.record.state.lastEventId, s.system.record.state.status.isTerminal,
        List.mem_append_right _ List.mem_cons_self, hle⟩
    · exact ⟨d, terminal, List.mem_append_left _ hd, hle⟩
  · have hended : s.system.record.state.status.isTerminal = true := hterminal
    refine ⟨hended, .inl (.inr (.inr ⟨s.system.record.state.lastEventId, ?_⟩))⟩
    simp only [Stream.next, hended]
    exact List.mem_append_right _ List.mem_cons_self
  · have hactive : s.system.record.state.status.isTerminal = false := hgoes
    simp only [hactive, Stream.next]
    rw [if_neg (by rintro ⟨⟩)]
    exact .inl le_rfl

theorem step_stream {a : StreamEvent} (henabled : s.stream.Enabled s.system.record a)
    (hok : s.Caught (.stream a)) :
    Feed.Covering { s with stream := s.stream.next s.system.record a } := by
  cases a with
  | subscribe after =>
    simp only [Stream.Enabled] at henabled
    obtain ⟨hdelivered, hinitial, hmissed, hdone⟩ := h.fresh (by simp [Stream.hasRead, henabled])
    refine ⟨h.wf, h.size, le_rfl, fun _ => ⟨hdelivered, hinitial, hmissed, hdone⟩, h.increasing,
      (by rintro ⟨⟩), ?_, fun htrue => ?_, (by rintro ⟨⟩), (by rintro ⟨⟩), (by rintro ⟨⟩)⟩
    · simp only [Stream.next, hmissed]
      exact fun id hid => absurd hid List.not_mem_nil
    · rw [show s.stream.done = true from htrue] at hdone
      cases hdone
  | read => exact h.step_read henabled hok
  | replay => exact h.step_replay henabled.1 henabled.2
  | receive =>
    obtain ⟨hlive, hinitial, hdone, hlt, -⟩ := henabled
    have he : s.system.record.sent[s.stream.position]? =
        some s.system.record.sent[s.stream.position] := List.getElem?_eq_getElem hlt
    simp only [Stream.next, he, Stream.accept]
    split_ifs with hold
    · exact h.step_skip hlive hdone he hold
    · exact h.step_deliver hlive hinitial hdone he (by omega)
  | lag =>
    obtain ⟨hlive, hinitial, hdone, -⟩ := henabled
    exact h.step_lag hlive hinitial hdone
  | snapshot => exact h.step_snapshot henabled hok
  | finish =>
    obtain ⟨hlive, hinitial, hdone⟩ := henabled
    have hread : s.stream.hasRead = true := by simp [Stream.hasRead, hlive]
    refine ⟨h.wf, h.size, h.position_le, (by rintro ⟨⟩), h.increasing, fun _ => h.bound hread,
      fun id hid => ?_, h.done, fun _ => h.notDone hread, (by rintro ⟨⟩), fun _ =>
        ⟨hinitial, hdone⟩⟩
    rcases h.covered id hid with ⟨hlagged, -⟩ | hcovered
    · rw [hlagged] at hlive
      cases hlive
    · exact .inr hcovered

/-- **A stream that is caught up by its snapshots keeps its promise.** -/
theorem outcome : s.Outcome := by
  refine ⟨(List.pairwise_append.mp h.increasing).1, fun hphase id hid => ?_, fun hended => ?_,
    fun hstuck hterminal => ?_⟩
  · exact (h.covered id hid).resolve_left fun hlagged => hphase hlagged.1
  · obtain ⟨hinitial, hdone⟩ := h.ended hended
    obtain ⟨hterminal, houtcome⟩ := h.done hdone
    refine ⟨hterminal, houtcome.resolve_right ?_⟩
    rintro ⟨e, he, -⟩
    rw [hinitial] at he
    cases he
  · rcases Stream.waiting_of_stuck hstuck with hended | ⟨hlive, -, hdone, hpast⟩
    · exact .inl hended
    · have hnot := h.notDone (by simp [Stream.hasRead, hlive]) hdone
      rw [if_pos hterminal] at hnot
      refine .inr (hnot.resolve_right ?_)
      rintro ⟨-, k, e, hk, he, -⟩
      obtain ⟨hlt, -⟩ := List.getElem?_eq_some_iff.mp he
      omega

end Feed.Covering

theorem Feed.covering_init {initialBytes : ℕ} (h : initialBytes ≤ maxJobEventBytes) :
    (jobFeed initialBytes).init.Covering where
  wf := System.wf_new h
  size := by
    change 1 ≤ u64Max
    decide
  position_le := le_rfl
  fresh := fun _ => ⟨rfl, rfl, rfl, rfl⟩
  increasing := List.Pairwise.nil
  bound := nofun
  covered := fun id hid => absurd hid List.not_mem_nil
  done := nofun
  notDone := nofun
  lagged := nofun
  ended := nofun

/-- **Every stream ends with the outcome.**  In every run in which the stream reads the
state before an event after `after` is dropped and takes its snapshots of something new,
whatever `after` is and however its receiver lags: in every state the ids on the wire
strictly increase, what the receiver lagged over is covered by a snapshot, and a stream that
has ended has delivered the outcome unless the client had it.  When the job has ended, a
stream that cannot go on has ended, or the client had the outcome; and the stream by itself
takes only so many steps. -/
theorem outcome_of_run {initialBytes : ℕ} (hinitial : initialBytes ≤ maxJobEventBytes)
    {as : List FeedEvent} {s : Feed} (hok : (jobFeed initialBytes).Meets Feed.Caught as)
    (h : (jobFeed initialBytes).run as = some s) :
    s.Outcome ∧ ∀ (bs : List StreamEvent) (s' : Feed),
      (jobFeed initialBytes).runFrom s (bs.map .stream) = some s' →
        bs.length ≤ s.stream.toDo s.system.record := by
  have hcovering : s.Covering := by
    refine Machine.run_invariant_of (Feed.covering_init hinitial) ?_ hok h
    intro t a t' ht hmeets hstep
    obtain ⟨b, system, rfl, hsystem, rfl⟩ | ⟨b, rfl, henabled, rfl⟩ := Feed.step_cases hstep
    · exact ht.step_record hsystem hmeets
    · exact ht.step_stream henabled hmeets
  exact ⟨hcovering.outcome, fun bs s' hrun => length_le_toDo hrun⟩

/-- A client that subscribes to all events of a job that has written something and then fails. -/
def failedFeed : List FeedEvent :=
  [.record (.call (.update (.appendStdout 5))), .record (.step 0 ⟨1, 35, 400⟩),
    .stream (.subscribe 0), .stream .read, .stream .replay, .stream .replay,
    .record (.call (.update .finishError)), .record (.step 1 ⟨2, 35, 400⟩),
    .record (.step 1 ⟨2, 35, 400⟩), .stream .receive, .stream .finish]

/-- It gets two events from the history and the outcome from the channel. -/
theorem outcome_of_run_failedFeed : ∃ s, (jobFeed 400).run failedFeed = some s ∧
    s.stream.delivered = [.event ⟨1, .queued⟩, .event ⟨2, .stdout⟩, .event ⟨3, .failed⟩] ∧
    s.stream.phase = .ended ∧ s.Outcome := by
  refine ⟨_, rfl, rfl, rfl, ?_⟩
  exact (outcome_of_run (by decide : 400 ≤ maxJobEventBytes)
    (by decide +kernel : (jobFeed 400).Meets Feed.Caught failedFeed) rfl).1

/-- A job with ten chunks of 64 KiB, which do not all fit into the history, and a client
that subscribes to all its events. -/
def droppedFeed : List FeedEvent :=
  (List.range 10).flatMap (fun i =>
      [.record (.call (.update (.appendStdout 65536))), .record (.step i ⟨1, 35, 400⟩)]) ++
    [.stream (.subscribe 0), .stream .read]

/-- No snapshot covers what was dropped. -/
theorem outcome_fails : ¬ ∀ (initialBytes : ℕ) (as : List FeedEvent) (s : Feed),
    initialBytes ≤ maxJobEventBytes → (jobFeed initialBytes).run as = some s → s.Outcome := by
  intro hclaim
  have hrun : ((jobFeed 400).run droppedFeed).map (fun s =>
      (s.stream.phase, s.stream.missed, s.stream.delivered)) = some (.live, [1, 2], []) := by
    decide +kernel
  obtain ⟨s, hs, hview⟩ := Option.map_eq_some_iff.mp hrun
  obtain ⟨hphase, hmissed, hdelivered⟩ : s.stream.phase = .live ∧ s.stream.missed = [1, 2] ∧
      s.stream.delivered = [] := by simpa using hview
  obtain ⟨d, terminal, hd, -⟩ := (hclaim 400 droppedFeed s (by decide) hs).covered
    (by rw [hphase]; exact nofun) 1 (by rw [hmissed]; exact List.mem_cons_self)
  rw [hdelivered] at hd
  cases hd

end Api
end HelmSsh
