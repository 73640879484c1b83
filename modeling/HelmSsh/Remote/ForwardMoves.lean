/-
# What a step does to the forwards

The steps of the runtime, seen from the table of the forwards: a step of a call on it, or one of
a teardown, which takes records out of the table and cancels them (`forwardMove_of_step`).  Most
of them only let a forward fade: its record fails or is removed and its listener is closed
(`Start.Fades`), and what is said of active records and of open listeners is kept.

`State.Wf` says where a record and a listener can be: only `forward_start_local` and the like
insert an active record, after the call has done all that may fail, and a record that
`forward_stop_if_present` has removed and may put back is that of a remote forward whose start
has returned (`wf_of_run`).
-/

import HelmSsh.Remote.Stages

namespace HelmSsh
namespace Remote
namespace Forward

/-- The record that a stop has removed and not yet given up. -/
def StopPhase.holding : StopPhase → Option Taken
  | .taken x | .waitingAddress x | .looking x | .canceling x | .unrouting x | .restoring x => some x
  | _ => none

theorem holding_of_reading {phase : StopPhase} {x : Taken} (h : phase.reading = some x) :
    phase.holding = some x := by
  cases phase <;> first | exact h | cases h

/-- The phases in which a start has or opens a listener. -/
def StartPhase.opensListener : StartPhase → Bool
  | .binding | .bound _ | .rollingBack | .published => true
  | _ => false

namespace Start

/-- A forward after its record has failed or has been removed, or its listener was closed. -/
structure Fades (f f' : Start) : Prop where
  request : f'.request = f.request
  origin : f'.origin = f.origin
  phase : f'.phase = f.phase
  record : ∀ r', f'.record = some r' → ∃ r, f.record = some r ∧ r'.bindPort = r.bindPort ∧
    r'.listenerStarted = r.listenerStarted ∧ (r'.status = .failed ∨ r'.status = r.status)
  listener : f'.listener = true → f.listener = true

theorem Fades.refl (f : Start) : f.Fades f where
  request := rfl
  origin := rfl
  phase := rfl
  record r' h := ⟨r', h, rfl, rfl, .inr rfl⟩
  listener h := h

/-- A record whose status was set to `failed` under a condition. -/
theorem fades_mapFailed (f : Start) (p : ForwardRecord → Bool) :
    f.Fades
      { f with
        record := f.record.map fun r => if p r then { r with status := .failed } else r } where
  request := rfl
  origin := rfl
  phase := rfl
  record r' h := by
    obtain ⟨r, hr, rfl⟩ := Option.map_eq_some_iff.mp h
    refine ⟨r, hr, ?_⟩
    split_ifs
    · exact ⟨rfl, rfl, .inl rfl⟩
    · exact ⟨rfl, rfl, .inr rfl⟩
  listener h := h

theorem fades_refreshed (f : Start) : f.Fades f.refreshed :=
  f.fades_mapFailed _

theorem fades_marked (f : Start) : f.Fades f.marked :=
  f.fades_mapFailed _

theorem fades_unrecorded (f : Start) : f.Fades { f with record := none } where
  request := rfl
  origin := rfl
  phase := rfl
  record r' h := by cases h
  listener h := h

theorem fades_unbound (f : Start) : f.Fades { f with listener := false } where
  request := rfl
  origin := rfl
  phase := rfl
  record r' h := ⟨r', h, rfl, rfl, .inr rfl⟩
  listener h := by cases h

theorem Fades.recorded {f f' : Start} (h : f.Fades f') (hsome : f'.record.isSome = true) :
    f.record.isSome = true := by
  obtain ⟨r', hr'⟩ := Option.isSome_iff_exists.mp hsome
  obtain ⟨r, hr, _⟩ := h.record r' hr'
  rw [hr]
  rfl

/-- A forward that counts for its tunnel after it has faded did before. -/
theorem Fades.activeFor {f f' : Start} (h : f.Fades f') {t : ℕ} {o : ConnectionOrigin}
    (hactive : f'.activeFor t o = true) : f.activeFor t o = true := by
  simp only [Start.activeFor, h.request, h.origin, Bool.and_eq_true, Option.any_eq_true]
    at hactive ⊢
  obtain ⟨hwhich, r', hr', hstatus⟩ := hactive
  obtain ⟨r, hr, _, _, hfailed | hsame⟩ := h.record r' hr'
  · rw [hfailed] at hstatus
    cases hstatus
  · exact ⟨hwhich, r, hr, by rwa [← hsame]⟩

end Start

/-! ### The steps of the runtime -/

/-- What a step of the runtime may do to the forwards. -/
inductive Moved (s : Runtime) (e : Remote.Event) : State → Prop where
  | same : Moved s e s.forwards
  | call (event : Event) (s' : State) (he : e = .forward event)
    (h : step s.surroundings s.forwards event = some s') : Moved s e s'
  | take (ids : List ℕ)
    (h : (∃ (c : ℕ) (q : ConnectionRecord), s.connections[c]? = some q ∧
      q.stage = .forwardsTaking ids) ∨ s.shutdown = .forwardsDraining) :
    Moved s e (s.takeForwards ids).forwards
  | cancel (i : ℕ) (r : ForwardRecord) (found : Bool)
    (h : (∃ (c : ℕ) (q : ConnectionRecord) (rest : List (ℕ × ForwardRecord)),
      s.connections[c]? = some q ∧ q.stage = .forwardsCanceling ((i, r) :: rest)) ∨
        ∃ rest, s.shutdown = .forwardsCanceling ((i, r) :: rest)) :
    Moved s e (s.cancelForward i r found).forwards

/-- **A step of the runtime is a step of a call on the forwards, or one of a teardown.** -/
theorem moved_of_step {s s' : Runtime} {event : Remote.Event}
    (h : Runtime.machine.step s event = some s') : Moved s event s'.forwards := by
  cases event with
  | connect info =>
    obtain ⟨-, rfl⟩ := Option.ite_some_none_eq_some.mp h
    exact .same
  | disconnect c =>
    obtain ⟨-, rfl⟩ := Option.ite_some_none_eq_some.mp h
    exact .same
  | teardown c action =>
    obtain ⟨q, hq, he, rfl⟩ := Runtime.teardown_of_step h
    cases action with
    | takeForwards forwards => exact .take forwards (.inl ⟨c, q, hq, he⟩)
    | cancelForward forward record rest =>
      exact .cancel forward record true (.inl ⟨c, q, rest, hq, he⟩)
    | _ => exact .same
  | shutdown action =>
    obtain ⟨he, rfl⟩ := Option.ite_some_none_eq_some.mp h
    cases action with
    | close connection rest =>
      simp only [Runtime.afterShutdown]
      split_ifs
      · exact .same
      · exact .same
    | drainForwards => exact .take _ (.inr he)
    | cancelForward forward record rest => exact .cancel forward record _ (.inr ⟨rest, he⟩)
    | _ => exact .same
  | child event =>
    obtain ⟨children, _, rfl⟩ := Option.map_eq_some_iff.mp h
    exact .same
  | sftp event =>
    obtain ⟨sftp, _, rfl⟩ := Option.map_eq_some_iff.mp h
    exact .same
  | forward event =>
    obtain ⟨forwards, hstep, rfl⟩ := Option.map_eq_some_iff.mp h
    exact .call event forwards rfl hstep

/-! ### Where records and listeners are -/

/-- The phases of a start without a record and without a listener. -/
def StartPhase.bare : StartPhase → Bool
  | .bound _ | .rollingBack | .published | .returned _ | .failure => false
  | _ => true

/-- The phases in which `forward_start_remote_unlocked` goes its own way. -/
def StartPhase.asksServer : StartPhase → Bool
  | .addressing | .waitingAddress | .comparing | .routing | .requesting | .assigned _ | .routed _
  | .refusing _ | .withdrawing | .orphaned _ | .unrouting _ => true
  | _ => false

/-- A record and a listener belong to the phase of their start. -/
structure Start.Wf (i : ℕ) (f : Start) : Prop where
  recorded : f.record.isSome = true →
    f.phase = .published ∨ f.phase = .returned (some i) ∨ f.phase = .failure
  listening : f.listener = true →
    (∃ port, f.phase = .bound port) ∨ f.phase = .rollingBack ∨ f.phase = .published ∨
      f.phase = .returned (some i)
  opens : f.phase.opensListener = true → f.request.forwardType ≠ .remoteForward
  asks : f.phase.asksServer = true → f.request.forwardType = .remoteForward
  failure : f.phase = .failure → ∀ r, f.record = some r → r.listenerStarted = false
  started : ∀ r, f.record = some r → r.status = .failed ∨ r.listenerStarted = true

namespace Start

variable {i : ℕ} {f f' : Start}

theorem wf_of_bare (hrecord : f.record = none) (hlistener : f.listener = false)
    (hopens : f.phase.opensListener = true → f.request.forwardType ≠ .remoteForward)
    (hasks : f.phase.asksServer = true → f.request.forwardType = .remoteForward) : f.Wf i where
  recorded h := by
    rw [hrecord] at h
    cases h
  listening h := by
    rw [hlistener] at h
    cases h
  opens := hopens
  asks := hasks
  failure _ r hr := by
    rw [hrecord] at hr
    cases hr
  started r hr := by
    rw [hrecord] at hr
    cases hr

theorem Wf.bare (h : f.Wf i) (hbare : f.phase.bare = true) :
    f.record = none ∧ f.listener = false := by
  constructor
  · rw [← Option.not_isSome_iff_eq_none]
    intro hsome
    rcases h.recorded hsome with hp | hp | hp
    all_goals
      rw [hp] at hbare
      cases hbare
  · rw [← Bool.not_eq_true]
    intro htrue
    rcases h.listening htrue with ⟨port, hp⟩ | hp | hp | hp
    all_goals
      rw [hp] at hbare
      cases hbare

theorem Wf.goOn (h : f.Wf i) (hbare : f.phase.bare = true) (phase : StartPhase)
    (hopens : phase.opensListener = true → f.request.forwardType ≠ .remoteForward)
    (hasks : phase.asksServer = true → f.request.forwardType = .remoteForward) :
    Start.Wf i { f with phase := phase } :=
  wf_of_bare (h.bare hbare).1 (h.bare hbare).2 hopens hasks

theorem Fades.wf (h : f.Fades f') (hf : f.Wf i) : f'.Wf i where
  recorded hsome := by
    rw [h.phase]
    exact hf.recorded (h.recorded hsome)
  listening hl := by
    rw [h.phase]
    exact hf.listening (h.listener hl)
  opens hp := by
    rw [h.request]
    rw [h.phase] at hp
    exact hf.opens hp
  asks hp := by
    rw [h.request]
    rw [h.phase] at hp
    exact hf.asks hp
  failure hp r' hr' := by
    rw [h.phase] at hp
    obtain ⟨r, hr, _, hstarted, _⟩ := h.record r' hr'
    rw [hstarted]
    exact hf.failure hp r hr
  started r' hr' := by
    obtain ⟨r, hr, _, hstarted, hfailed | hsame⟩ := h.record r' hr'
    · exact .inl hfailed
    · rw [hstarted, hsame]
      exact hf.started r hr

theorem wf_new (request : Request) (origin : ConnectionOrigin) :
    (Start.new request origin).Wf i := by
  have hphase : (Start.new request origin).phase = .begun ∨
      (Start.new request origin).phase = .admitted := by
    simp only [Start.new]
    split_ifs
    · exact .inl rfl
    · exact .inr rfl
  refine wf_of_bare rfl rfl (fun h => ?_) fun h => ?_
  all_goals
    rcases hphase with hp | hp
    · rw [hp] at h
      cases h
    · rw [hp] at h
      cases h

theorem wf_failed (request : Request) (origin : ConnectionOrigin) :
    (Start.failed request origin).Wf i where
  recorded _ := .inr (.inr rfl)
  listening h := by cases h
  opens h := by cases h
  asks h := by cases h
  failure _ r hr := by
    obtain rfl := Option.some.inj hr
    rfl
  started r hr := by
    obtain rfl := Option.some.inj hr
    exact .inl rfl

end Start

/-- What a step of a start does to the starts: it may refresh all of them, and it replaces its
own by a well formed one. -/
structure StartStep (env : Surroundings) (s s' : State) (i : ℕ) (f f' : Start) : Prop where
  starts : s'.starts = s.starts.set i f' ∨
    f.phase = .refreshing ∧ s'.starts = (s.starts.map Start.refreshed).set i f'
  stops : s'.stops = s.stops
  request : f'.request = f.request
  /-- The origin is read again from the connection. -/
  origin : f'.origin = f.origin ∨ ∃ connection,
    env.connections f.request.connectionId = some connection ∧ f'.origin = connection.origin
  wf : f'.Wf i
  /-- Of a forward whose start has returned, only the task goes on. -/
  returned : ∀ result, f.phase = .returned result → f.Fades f'
  /-- A start returns its own forward, or one that it has found. -/
  result : ∀ existing, f'.phase = .returned (some existing) → existing ≠ i →
    f.phase = .returned (some existing) ∨
      ∃ t, f.request.tunnelId = some t ∧ s.findForwardForTunnel t f.origin = some existing
  /-- A record is inserted while the connection is registered. -/
  inserts : f'.record.isSome = true →
    f.record.isSome = true ∨ (env.connections f.request.connectionId).isSome = true

section StartStep

variable {env : Surroundings} {s s' : State} {i : ℕ} {f f' : Start}

/-- A step that replaces the start, which has not returned before. -/
theorem StartStep.of_set (hstarts : s'.starts = s.starts.set i f') (hstops : s'.stops = s.stops)
    (hrequest : f'.request = f.request) (horigin : f'.origin = f.origin) (hwf : f'.Wf i)
    (hphase : ∀ result, f.phase ≠ .returned result)
    (hresult : ∀ existing, f'.phase = .returned (some existing) → existing ≠ i →
      ∃ t, f.request.tunnelId = some t ∧ s.findForwardForTunnel t f.origin = some existing)
    (hinserts : f'.record.isSome = true →
      f.record.isSome = true ∨ (env.connections f.request.connectionId).isSome = true) :
    StartStep env s s' i f f' where
  starts := .inl hstarts
  stops := hstops
  request := hrequest
  origin := .inl horigin
  wf := hwf
  returned result hr := absurd hr (hphase result)
  result existing hr hne := .inr (hresult existing hr hne)
  inserts := hinserts

/-- A step from one phase without a record and a listener to another. -/
theorem StartStep.of_phase (h : f.Wf i) {phase : StartPhase} (phase' : StartPhase)
    (hp : f.phase = phase) (hbare : phase.bare = true) (hopens : phase'.opensListener = false)
    (hasks : phase'.asksServer = true → phase.asksServer = true)
    (hstarts : s'.starts = s.starts.set i { f with phase := phase' }) (hstops : s'.stops = s.stops)
    (hresult : ∀ existing, phase' = .returned (some existing) →
      ∃ t, f.request.tunnelId = some t ∧ s.findForwardForTunnel t f.origin = some existing) :
    ∃ f', StartStep env s s' i f f' := by
  refine ⟨_, .of_set hstarts hstops rfl rfl
    (h.goOn (hp ▸ hbare) phase' (fun ho => ?_) fun ha => h.asks ?_) ?_
    (fun existing hr _ => hresult existing hr) .inl⟩
  · rw [hopens] at ho
    cases ho
  · rw [hp]
    exact hasks ha
  · intro result hr
    rw [hp] at hr
    rw [hr] at hbare
    cases hbare

theorem started_running (port : UInt16) (r : ForwardRecord)
    (hr : some (State.running port) = some r) :
    r.status = .failed ∨ r.listenerStarted = true := by
  obtain rfl := Option.some.inj hr
  exact .inr rfl

/-- **A step of a start keeps it well formed.** -/
theorem startStep_afterStart (h : f.Wf i) {action : StartAction} (he : f.Enabled env s i action) :
    ∃ f', StartStep env s (s.afterStart env i f action) i f f' := by
  cases action with
  | getTunnelLock tunnelId =>
    exact StartStep.of_phase h .waitingTunnel he.1 rfl rfl nofun rfl rfl nofun
  | acquireTunnel => exact StartStep.of_phase h .refreshing he.1 rfl rfl nofun rfl rfl nofun
  | refresh =>
    have hp : f.phase = .refreshing := he
    have hf := f.fades_refreshed.wf h
    refine ⟨{ f.refreshed with phase := .finding }, .inr ⟨hp, rfl⟩, rfl, rfl, .inl rfl,
      hf.goOn ?_ .finding nofun nofun, fun result hr => ?_, nofun,
      fun hsome => .inl (f.fades_refreshed.recorded hsome)⟩
    · rw [f.fades_refreshed.phase, hp]
      rfl
    · rw [hp] at hr
      cases hr
  | find tunnelId =>
    simp only [State.afterStart]
    split
    case _ existing hfound =>
      refine StartStep.of_phase h (.returned (some existing)) he.1 rfl rfl nofun rfl rfl
        fun e heq => ?_
      obtain rfl := Option.some.inj (StartPhase.returned.inj heq)
      exact ⟨tunnelId, he.2, hfound⟩
    case _ => exact StartStep.of_phase h .admitted he.1 rfl rfl nofun rfl rfl nofun
  | enter =>
    simp only [State.afterStart]
    split
    case _ connection hconnection =>
      by_cases hsession : connection.sessionId = f.request.sessionId
      · rw [if_pos hsession]
        obtain ⟨hrecord, hlistener⟩ := h.bare (by rw [he.1]; rfl)
        refine ⟨_, .inl rfl, rfl, rfl, .inr ⟨connection, hconnection, rfl⟩,
          Start.wf_of_bare hrecord hlistener (fun ho hremote => ?_) fun ha => ?_,
          fun result hr => ?_, fun existing hr => ?_, .inl⟩
        · simp only [if_pos hremote] at ho
          cases ho
        · simp only at ha
          split_ifs at ha with hremote
          · exact hremote
          · cases ha
        · rw [he.1] at hr
          cases hr
        · simp only at hr
          split_ifs at hr
      · rw [if_neg hsession]
        exact StartStep.of_phase h (.returned none) he.1 rfl rfl nofun rfl rfl nofun
    case _ => exact StartStep.of_phase h (.returned none) he.1 rfl rfl nofun rfl rfl nofun
  | bind port =>
    have hp : f.phase = .binding := he
    cases port with
    | none => exact StartStep.of_phase h (.returned none) hp rfl rfl nofun rfl rfl nofun
    | some port =>
      refine ⟨{ f with phase := .bound port, listener := true },
        .of_set rfl rfl rfl rfl ⟨fun hsome => ?_, ?_, ?_, nofun, nofun, h.started⟩
          (by rw [hp]; nofun) nofun
          .inl⟩
      · rw [(h.bare (by rw [hp]; rfl)).1] at hsome
        cases hsome
      · exact fun _ => .inl ⟨port, rfl⟩
      · exact fun _ => h.opens (by rw [hp]; rfl)
  | register port =>
    have hp : f.phase = .bound port := he
    have hopens := h.opens (by rw [hp]; rfl)
    simp only [State.afterStart]
    split_ifs with hconnection
    · refine ⟨{ f with phase := .published, record := some (State.running port) },
        .of_set rfl rfl rfl rfl ⟨?_, ?_, fun _ => hopens, nofun, nofun, started_running port⟩
          (by rw [hp]; nofun) nofun
          fun _ => .inr hconnection⟩
      · exact fun _ => .inl rfl
      · exact fun _ => .inr (.inr (.inl rfl))
    · refine ⟨{ f with phase := .rollingBack },
        .of_set rfl rfl rfl rfl ⟨fun hsome => ?_, ?_, fun _ => hopens, nofun, nofun, h.started⟩
          (by rw [hp]; nofun)
          nofun .inl⟩
      · have hrecord := h.recorded hsome
        rw [hp] at hrecord
        rcases hrecord with hq | hq | hq <;> cases hq
      · exact fun _ => .inr (.inl rfl)
  | rollBack =>
    have hp : f.phase = .rollingBack := he
    refine ⟨{ f with phase := .returned none, listener := false },
      .of_set rfl rfl rfl rfl ⟨fun hsome => ?_, nofun, nofun, nofun, nofun, h.started⟩
        (by rw [hp]; nofun) nofun
        .inl⟩
    have hrecord := h.recorded hsome
    rw [hp] at hrecord
    rcases hrecord with hq | hq | hq <;> cases hq
  | signal =>
    have hp : f.phase = .published := he
    simp only [State.afterStart]
    split_ifs with hlistener
    · refine ⟨{ f with phase := .returned (some i) },
        .of_set rfl rfl rfl rfl ⟨?_, ?_, nofun, nofun, nofun, h.started⟩ (by rw [hp]; nofun)
          (fun e heq hne => ?_)
          .inl⟩
      · exact fun _ => .inr (.inl rfl)
      · exact fun _ => .inr (.inr (.inr rfl))
      · exact absurd (Option.some.inj (StartPhase.returned.inj heq)).symm hne
    · refine ⟨{ f with phase := .returned none, record := none },
        .of_set rfl rfl rfl rfl ⟨nofun, ?_, nofun, nofun, nofun, nofun⟩
          (by rw [hp]; nofun) nofun nofun⟩
      exact fun hl => absurd hl hlistener
  | getAddressLock =>
    exact StartStep.of_phase h .waitingAddress he rfl rfl (fun _ => rfl) rfl rfl nofun
  | acquireAddress =>
    exact StartStep.of_phase h .comparing he.1 rfl rfl (fun _ => rfl) rfl rfl nofun
  | compare =>
    simp only [State.afterStart]
    split_ifs
    · exact StartStep.of_phase h (.returned none) he rfl rfl nofun rfl rfl nofun
    · exact StartStep.of_phase h .routing he rfl rfl (fun _ => rfl) rfl rfl nofun
  | insertRoute => exact StartStep.of_phase h .requesting he rfl rfl (fun _ => rfl) rfl rfl nofun
  | reply returned =>
    simp only [State.afterStart]
    split
    · split
      · exact StartStep.of_phase h (.assigned _) he rfl rfl (fun _ => rfl) rfl rfl nofun
      · exact StartStep.of_phase h (.refusing _) he rfl rfl (fun _ => rfl) rfl rfl nofun
    · exact StartStep.of_phase h (.refusing false) he rfl rfl (fun _ => rfl) rfl rfl nofun
  | refuse cancel =>
    simp only [State.afterStart]
    split_ifs
    · exact StartStep.of_phase h .withdrawing he rfl rfl (fun _ => rfl) rfl rfl nofun
    · exact StartStep.of_phase h (.returned none) he rfl rfl nofun rfl rfl nofun
  | withdraw => exact StartStep.of_phase h (.returned none) he rfl rfl nofun rfl rfl nofun
  | assign port =>
    simp only [State.afterStart]
    split_ifs
    · exact StartStep.of_phase h (.routed port) he rfl rfl (fun _ => rfl) rfl rfl nofun
    · exact StartStep.of_phase h (.routed port) he rfl rfl (fun _ => rfl) rfl rfl nofun
  | registerRemote port =>
    have hp : f.phase = .routed port := he
    simp only [State.afterStart]
    split_ifs with hconnection
    · refine ⟨{ f with phase := .returned (some i), record := some (State.running port) },
        .of_set rfl rfl rfl rfl ⟨?_, fun hl => ?_, nofun, nofun, nofun, started_running port⟩
          (by rw [hp]; nofun)
          (fun e heq hne => ?_) fun _ => .inr hconnection⟩
      · exact fun _ => .inr (.inl rfl)
      · have hlistener := (h.bare (by rw [hp]; rfl)).2
        rw [show f.listener = true from hl] at hlistener
        cases hlistener
      · exact absurd (Option.some.inj (StartPhase.returned.inj heq)).symm hne
    · exact StartStep.of_phase h (.orphaned port) he rfl rfl (fun _ => rfl) rfl rfl nofun
  | cancelReply port =>
    exact StartStep.of_phase h (.unrouting port) he rfl rfl (fun _ => rfl) rfl rfl nofun
  | unroute port => exact StartStep.of_phase h (.returned none) he rfl rfl nofun rfl rfl nofun
  | dropCaller =>
    have hwaits : f.waits = true := he
    refine ⟨{ f with phase := .dropped, listener := false },
      .of_set rfl rfl rfl rfl ⟨fun hsome => ?_, nofun, nofun, nofun, nofun, h.started⟩
        (fun result hr => ?_) nofun
        .inl⟩
    · rcases h.recorded hsome with hq | hq | hq
      all_goals
        rw [Start.waits, hq] at hwaits
        cases hwaits
    · rw [Start.waits, hr] at hwaits
      cases hwaits
  | markFailed =>
    exact ⟨f.marked, .inl rfl, rfl, rfl, .inl rfl, f.fades_marked.wf h, fun _ _ => f.fades_marked,
      fun _ hr _ => .inl hr, fun hsome => .inl (f.fades_marked.recorded hsome)⟩
  | endTask =>
    exact ⟨{ f with listener := false }, .inl rfl, rfl, rfl, .inl rfl, f.fades_unbound.wf h,
      fun _ _ => f.fades_unbound, fun _ hr _ => .inl hr, .inl⟩

end StartStep

/-- Records are where they belong, and a record that a stop holds is that of a remote forward
whose start has returned. -/
structure State.Wf (s : State) : Prop where
  starts : ∀ (i : ℕ) (f : Start), s.starts[i]? = some f → f.Wf i
  taken : ∀ (j : ℕ) (t : Stop) (x : Taken), s.stops[j]? = some t → t.phase.holding = some x →
    ∃ f, s.starts[x.forward]? = some f ∧ f.phase = .returned (some x.forward) ∧
      f.request.forwardType = .remoteForward ∧ f.record = none ∧ x.record.listenerStarted = true
  single : ∀ (j j' : ℕ) (t t' : Stop) (x x' : Taken), s.stops[j]? = some t →
    s.stops[j']? = some t' → t.phase.holding = some x → t'.phase.holding = some x' →
    x.forward = x'.forward → j = j'

namespace State

variable {s s' : State}

theorem Wf.fades (h : s.Wf) (hstarts : Pool.Related Start.Fades s.starts s'.starts)
    (hstops : s'.stops = s.stops) : s'.Wf where
  starts i f' hf' := by
    obtain ⟨f, hf, hfades⟩ := hstarts.back hf'
    exact hfades.wf (h.starts i f hf)
  taken j t x ht hx := by
    rw [hstops] at ht
    obtain ⟨f, hf, hphase, hremote, hrecord, hstarted⟩ := h.taken j t x ht hx
    obtain ⟨f', hf', hfades⟩ := hstarts.forth hf
    refine ⟨f', hf', hfades.phase.trans hphase, by rw [hfades.request]; exact hremote, ?_, hstarted⟩
    rw [← Option.not_isSome_iff_eq_none]
    intro hsome
    obtain ⟨r', hr'⟩ := Option.isSome_iff_exists.mp hsome
    obtain ⟨r, hr, _⟩ := hfades.record r' hr'
    rw [hrecord] at hr
    cases hr
  single j j' t t' x x' ht ht' := by
    rw [hstops] at ht ht'
    exact h.single j j' t t' x x' ht ht'

theorem Wf.congr (h : s.Wf) (hstarts : s'.starts = s.starts) (hstops : s'.stops = s.stops) :
    s'.Wf := by
  refine h.fades ?_ hstops
  rw [hstarts]
  exact Pool.related_refl Start.Fades.refl

/-- A stop goes on with the record that it holds, or without one. -/
theorem Wf.setStop (h : s.Wf) {j : ℕ} {t t' : Stop} (ht : s.stops[j]? = some t)
    (hholding : ∀ x, t'.phase.holding = some x → t.phase.holding = some x) :
      (s.setStop j t').Wf where
  starts := h.starts
  taken k u x hu hx := by
    rcases Pool.getElem?_set hu with ⟨_, rfl⟩ | ⟨_, hold⟩
    · exact h.taken j t x ht (hholding x hx)
    · exact h.taken k u x hold hx
  single k k' u u' x x' hu hu' hx hx' heq := by
    rcases Pool.getElem?_set hu with ⟨rfl, rfl⟩ | ⟨_, hold⟩
    · rcases Pool.getElem?_set hu' with ⟨rfl, rfl⟩ | ⟨_, hold'⟩
      · rfl
      · exact h.single k k' t u' x x' ht hold' (hholding x hx) hx' heq
    · rcases Pool.getElem?_set hu' with ⟨rfl, rfl⟩ | ⟨_, hold'⟩
      · exact h.single k k' u t x x' hold ht hx (hholding x' hx') heq
      · exact h.single k k' u u' x x' hold hold' hx hx' heq

theorem Wf.setStart (h : s.Wf) {i : ℕ} {f f' : Start} (hf : s.starts[i]? = some f)
    (hwf : f'.Wf i) (hreturned : ∀ result, f.phase = .returned result → f.Fades f') :
    (s.setStart i f').Wf where
  starts k g hg := by
    rcases Pool.getElem?_set hg with ⟨rfl, rfl⟩ | ⟨_, hold⟩
    · exact hwf
    · exact h.starts k g hold
  taken j t x ht hx := by
    obtain ⟨g, hg, hphase, hremote, hrecord, hstarted⟩ := h.taken j t x ht hx
    by_cases hi : x.forward = i
    · subst hi
      obtain rfl := Option.some.inj (hf.symm.trans hg)
      have hfades := hreturned _ hphase
      refine ⟨f', Pool.getElem?_set_self hf, hfades.phase.trans hphase,
        by rw [hfades.request]; exact hremote, ?_, hstarted⟩
      rw [← Option.not_isSome_iff_eq_none]
      intro hsome
      obtain ⟨r', hr'⟩ := Option.isSome_iff_exists.mp hsome
      obtain ⟨r, hr, _⟩ := hfades.record r' hr'
      rw [hrecord] at hr
      cases hr
    · refine ⟨g, ?_, hphase, hremote, hrecord, hstarted⟩
      rw [State.setStart, List.getElem?_set_ne fun heq => hi heq.symm]
      exact hg
  single := h.single

theorem Wf.addStart (h : s.Wf) {f : Start} (hf : f.Wf s.starts.length) :
    State.Wf { s with starts := s.starts ++ [f] } where
  starts k g hg := by
    rcases Pool.getElem?_add hg with ⟨rfl, rfl⟩ | hold
    · exact hf
    · exact h.starts k g hold
  taken j t x ht hx := by
    obtain ⟨g, hg, hrest⟩ := h.taken j t x ht hx
    exact ⟨g, Pool.getElem?_add_left hg, hrest⟩
  single := h.single

theorem Wf.addStop (h : s.Wf) (request : StopRequest) :
    State.Wf { s with stops := s.stops ++ [Stop.new request] } := by
  have hnone : ∀ x, (Stop.new request).phase.holding ≠ some x := by
    intro x hx
    cases request <;> cases hx
  constructor
  · exact h.starts
  · intro j t x ht hx
    rcases Pool.getElem?_add ht with ⟨_, rfl⟩ | hold
    · exact absurd hx (hnone x)
    · exact h.taken j t x hold hx
  · intro j j' t t' x x' ht ht' hx hx' heq
    rcases Pool.getElem?_add ht with ⟨_, rfl⟩ | hold
    · exact absurd hx (hnone x)
    · rcases Pool.getElem?_add ht' with ⟨_, rfl⟩ | hold'
      · exact absurd hx' (hnone x')
      · exact h.single j j' t t' x x' hold hold' hx hx' heq

theorem closeListener_fades (s : State) (i : ℕ) :
    Pool.Related Start.Fades s.starts (s.closeListener i).starts :=
  Pool.related_modify Start.Fades.refl Start.fades_unbound i

theorem unrecord_fades (s : State) (i : ℕ) :
    Pool.Related Start.Fades s.starts (s.setRecord i none).starts :=
  Pool.related_modify Start.Fades.refl Start.fades_unrecorded i

/-- A step of a stop lets the forwards fade, but for the record that it puts back. -/
theorem afterStop_fades (s : State) (env : Surroundings) (j : ℕ) (t : Stop) {action : StopAction}
    (hne : ∀ x, action ≠ .restore x) :
    Pool.Related Start.Fades s.starts (s.afterStop env j t action).starts := by
  have hrefl : Pool.Related Start.Fades s.starts s.starts := Pool.related_refl .refl
  cases action with
  | readTunnel forward | getAddressLock x | look x | unroute x =>
    simp only [State.afterStop]
    split
    · exact hrefl
    · exact hrefl
  | take forward rest =>
    simp only [State.afterStop]
    split
    · exact s.unrecord_fades forward
    · split
      · exact hrefl
      · exact hrefl
  | restore x => exact absurd rfl (hne x)
  | abort forward rest => exact s.closeListener_fades forward
  | dropCaller =>
    simp only [State.afterStop]
    split
    · exact s.closeListener_fades _
    · exact hrefl
  | _ => exact hrefl

theorem matching_eq_some {i : ℕ} {origin : Option ConnectionOrigin} {f : Start} {r : ForwardRecord}
    (h : s.matching i origin = some (f, r)) : s.starts[i]? = some f ∧ f.record = some r := by
  obtain ⟨g, hg, h⟩ := Option.bind_eq_some_iff.mp h
  split_ifs at h
  obtain ⟨r', hr', heq⟩ := Option.map_eq_some_iff.mp h
  obtain ⟨rfl, rfl⟩ := Prod.mk.inj heq
  exact ⟨hg, hr'⟩

theorem getElem?_setRecord_none {i : ℕ} {f : Start} (hf : s.starts[i]? = some f) :
    (s.setRecord i none).starts[i]? = some { f with record := none } := by
  rw [State.setRecord, List.getElem?_modify, hf]
  simp

/-- The record of a remote forward is in the table after its start has returned. -/
theorem Wf.returned_of_remote (h : s.Wf) {i : ℕ} {f : Start} {r : ForwardRecord}
    (hf : s.starts[i]? = some f) (hr : f.record = some r) (hstarted : r.listenerStarted = true)
    (hremote : f.request.forwardType = .remoteForward) : f.phase = .returned (some i) := by
  have hwf := h.starts i f hf
  rcases hwf.recorded (by rw [hr]; rfl) with hp | hp | hp
  · exact absurd hremote (hwf.opens (by rw [hp]; rfl))
  · exact hp
  · have hfalse := hwf.failure hp r hr
    rw [hstarted] at hfalse
    cases hfalse

theorem Wf.take (h : s.Wf) {j i : ℕ} {t : Stop} {f : Start} {r : ForwardRecord} {rest : List ℕ}
    (ht : s.stops[j]? = some t) (hf : s.starts[i]? = some f) (hr : f.record = some r) :
    State.Wf ((s.setRecord i none).setStop j
      { t with
        phase :=
          if r.listenerStarted && f.request.forwardType = .remoteForward then .taken ⟨i, r, rest⟩
          else .aborting i rest }) := by
  have hwf : (s.setRecord i none).Wf := h.fades (s.unrecord_fades i) rfl
  split_ifs with hremote
  · obtain ⟨hstarted, hremote⟩ := Bool.and_eq_true_iff.mp hremote
    have hremote := of_decide_eq_true hremote
    have hreturned := h.returned_of_remote hf hr hstarted hremote
    -- No other stop holds the record, since it was in the table.
    have hother : ∀ (k : ℕ) (u : Stop) (x : Taken), s.stops[k]? = some u →
        u.phase.holding = some x → x.forward ≠ i := by
      rintro k u x hu hx rfl
      obtain ⟨g, hg, _, _, hnone, _⟩ := h.taken k u x hu hx
      obtain rfl := Option.some.inj (hf.symm.trans hg)
      rw [hr] at hnone
      cases hnone
    constructor
    · exact hwf.starts
    · intro k u x hu hx
      rcases Pool.getElem?_set hu with ⟨_, rfl⟩ | ⟨_, hold⟩
      · obtain rfl := Option.some.inj hx
        exact ⟨_, getElem?_setRecord_none hf, hreturned, hremote, rfl, hstarted⟩
      · exact hwf.taken k u x hold hx
    · intro k k' u u' x x' hu hu' hx hx' heq
      rcases Pool.getElem?_set hu with ⟨rfl, rfl⟩ | ⟨_, hold⟩
      · rcases Pool.getElem?_set hu' with ⟨rfl, rfl⟩ | ⟨_, hold'⟩
        · rfl
        · obtain rfl := Option.some.inj hx
          exact absurd heq.symm (hother k' u' x' hold' hx')
      · rcases Pool.getElem?_set hu' with ⟨rfl, rfl⟩ | ⟨_, hold'⟩
        · obtain rfl := Option.some.inj hx'
          exact absurd heq (hother k u x hold hx)
        · exact h.single k k' u u' x x' hold hold' hx hx' heq
  · exact hwf.setStop ht (by nofun)

theorem Wf.restore (h : s.Wf) {j : ℕ} {t : Stop} {x : Taken} (ht : s.stops[j]? = some t)
    (hx : t.phase = .restoring x) {r : ForwardRecord} (hr : r.status = .failed) (ok : Bool) :
    State.Wf ((s.setRecord x.forward (some r)).finishStop j t ok) := by
  obtain ⟨f, hf, hphase, _⟩ := h.taken j t x ht (by rw [hx]; rfl)
  have hreturned : (s.setStop j { t with phase := .returned ok }).Wf :=
    h.setStop ht fun y hy => by cases hy
  have hstop : (s.finishStop j t ok).Wf := hreturned.congr rfl rfl
  -- Afterwards no stop holds it.
  have hother : ∀ (k : ℕ) (u : Stop) (y : Taken), (s.finishStop j t ok).stops[k]? = some u →
      u.phase.holding = some y → y.forward ≠ x.forward := by
    intro k u y hu hy heq
    rcases Pool.getElem?_set hu with ⟨rfl, rfl⟩ | ⟨hne, hold⟩
    · cases hy
    · exact hne (h.single k j u t y x hold ht hy (by rw [hx]; rfl) heq)
  have hget : ∀ (i : ℕ) (g : Start),
      ((s.setRecord x.forward (some r)).finishStop j t ok).starts[i]? = some g →
        (i = x.forward ∧ g = { f with record := some r }) ∨
          (i ≠ x.forward ∧ s.starts[i]? = some g) := by
    intro i g hg
    have hg : (s.starts.modify x.forward fun f => { f with record := some r })[i]? = some g := hg
    rw [List.getElem?_modify] at hg
    by_cases hi : x.forward = i
    · subst hi
      rw [hf] at hg
      simp only [if_pos, Option.map_eq_map, Option.map_some, Option.some.injEq] at hg
      exact .inl ⟨rfl, hg.symm⟩
    · refine .inr ⟨fun h => hi h.symm, ?_⟩
      simpa [hi] using hg
  constructor
  · intro i g hg
    rcases hget i g hg with ⟨rfl, rfl⟩ | ⟨_, hold⟩
    · have hwf := h.starts _ f hf
      refine ⟨fun _ => .inr (.inl hphase), hwf.listening, hwf.opens, hwf.asks,
        fun hfailure => ?_, ?_⟩
      · rw [show f.phase = .failure from hfailure] at hphase
        cases hphase
      · intro q hq
        obtain rfl := Option.some.inj hq
        exact .inl hr
    · exact h.starts i g hold
  · intro k u y hu hy
    obtain ⟨g, hg, hrest⟩ := hstop.taken k u y hu hy
    refine ⟨g, ?_, hrest⟩
    have hne := hother k u y hu hy
    change (s.starts.modify x.forward _)[y.forward]? = some g
    rw [List.getElem?_modify_ne _ _ (Ne.symm hne)]
    exact hg
  · exact hstop.single

/-- **A step of a stop keeps records where they belong.** -/
theorem Wf.afterStop (h : s.Wf) {env : Surroundings} {j : ℕ} {t : Stop} {action : StopAction}
    (ht : s.stops[j]? = some t) (he : t.Enabled s j action) :
    (s.afterStop env j t action).Wf := by
  -- Most steps keep the starts, and the record that the stop holds.
  have hgo : ∀ (phase : StopPhase) (s' : State), s'.starts = s.starts →
      s'.stops = s.stops.set j { t with phase := phase } →
      (∀ x, phase.holding = some x → t.phase.holding = some x) → s'.Wf := by
    intro phase s' hstarts hstops hholding
    have hset : (s.setStop j { t with phase := phase }).Wf := h.setStop ht hholding
    exact hset.congr hstarts hstops
  cases action with
  | readTunnel forward =>
    simp only [State.afterStop]
    split
    · exact hgo (.locking _) _ rfl rfl (by nofun)
    · exact hgo (.taking [forward]) _ rfl rfl (by nofun)
  | getTunnelLock tunnelId => exact hgo (.waitingTunnel tunnelId) _ rfl rfl (by nofun)
  | acquireTunnel tunnelId =>
    refine hgo _ _ rfl rfl fun x hx => ?_
    split at hx <;> cases hx
  | list tunnelId => exact hgo (.taking _) _ rfl rfl (by nofun)
  | take forward rest =>
    simp only [State.afterStop]
    split
    case _ f r hmatching =>
      obtain ⟨hf, hr⟩ := matching_eq_some hmatching
      exact h.take ht hf hr
    case _ =>
      split
      · exact hgo (.returned false) _ rfl rfl (by nofun)
      · exact hgo (.taking rest) _ rfl rfl (by nofun)
  | finish => exact hgo (.returned true) _ rfl rfl (by nofun)
  | getAddressLock x =>
    simp only [State.afterStop]
    split
    · refine hgo (.waitingAddress x) _ rfl rfl fun y hy => ?_
      rw [show t.phase = .taken x from he]
      exact hy
    · exact h
  | acquireAddress x =>
    refine hgo (.looking x) _ rfl rfl fun y hy => ?_
    rw [he.1]
    exact hy
  | look x =>
    simp only [State.afterStop]
    split
    · refine hgo (.canceling x) _ rfl rfl fun y hy => ?_
      rw [show t.phase = .looking x from he]
      exact hy
    · exact hgo (.aborting _ _) _ rfl rfl (by nofun)
  | cancelReply x ok =>
    refine hgo _ _ rfl rfl fun y hy => ?_
    rw [show t.phase = .canceling x from he]
    split_ifs at hy
    · exact hy
    · exact hy
  | unroute x =>
    simp only [State.afterStop]
    split
    · exact hgo (.aborting _ _) _ rfl rfl (by nofun)
    · exact h
  | restore x => exact h.restore ht he rfl _
  | abort forward rest =>
    have hclosed : (s.closeListener forward).Wf := h.fades (s.closeListener_fades forward) rfl
    exact hclosed.setStop ht fun x hx => by cases hx
  | dropCaller =>
    have hset : ∀ s' : State, s'.Wf → s'.stops = s.stops →
        ((s'.setStop j { t with phase := .dropped }).release (.stop j)).Wf := by
      intro s' hs' hstops
      have hdropped : (s'.setStop j { t with phase := .dropped }).Wf :=
        hs'.setStop (by rw [hstops]; exact ht) fun x hx => by cases hx
      exact hdropped.congr rfl rfl
    simp only [State.afterStop]
    split
    · exact hset _ (h.fades (s.closeListener_fades _) rfl) rfl
    · exact hset s h rfl

/-- **A step of a call keeps records where they belong.** -/
theorem Wf.step (h : s.Wf) {env : Surroundings} {event : Event}
    (hstep : Forward.step env s event = some s') : s'.Wf := by
  cases event with
  | start request =>
    obtain ⟨connection, _, -, rfl⟩ := Pool.act_eq_some.mp hstep
    exact h.addStart (Start.wf_new request _)
  | recordFailure request =>
    obtain ⟨connection, _, -, rfl⟩ := Pool.act_eq_some.mp hstep
    exact h.addStart (Start.wf_failed request _)
  | stop request =>
    obtain rfl := Option.some.inj hstep
    exact h.addStop request
  | refresh =>
    obtain rfl := Option.some.inj hstep
    exact h.fades (Pool.related_map Start.fades_refreshed) rfl
  | startAct i action =>
    obtain ⟨f, hf, he, rfl⟩ := Pool.act_eq_some.mp hstep
    obtain ⟨f', hf'⟩ := startStep_afterStart (h.starts i f hf) he
    rcases hf'.starts with hstarts | ⟨hphase, hstarts⟩
    · exact (h.setStart hf hf'.wf hf'.returned).congr hstarts hf'.stops
    · -- The own record is refreshed as well, and replaced.
      have hrefreshed : State.Wf { s with starts := s.starts.map Start.refreshed } :=
        h.fades (Pool.related_map Start.fades_refreshed) rfl
      have hget : (s.starts.map Start.refreshed)[i]? = some f.refreshed := by
        rw [List.getElem?_map, hf]
        rfl
      refine (hrefreshed.setStart hget hf'.wf fun result hr => ?_).congr hstarts hf'.stops
      rw [f.fades_refreshed.phase, hphase] at hr
      cases hr
  | stopAct j action =>
    obtain ⟨t, ht, he, rfl⟩ := Pool.act_eq_some.mp hstep
    exact h.afterStop ht he

end State

theorem takeForwards_fades (s : Runtime) (ids : List ℕ) :
    Pool.Related Start.Fades s.forwards.starts (s.takeForwards ids).forwards.starts := by
  refine Pool.related_mapIdx fun i f _ => ?_
  split_ifs
  · exact f.fades_unrecorded
  · exact Start.Fades.refl f

theorem cancelForward_fades (s : Runtime) (i : ℕ) (r : ForwardRecord) (found : Bool) :
    Pool.Related Start.Fades s.forwards.starts (s.cancelForward i r found).forwards.starts := by
  unfold Runtime.cancelForward
  split
  · split_ifs
    · exact Pool.related_modify Start.Fades.refl Start.fades_unbound i
    · exact Pool.related_modify Start.Fades.refl Start.fades_unbound i
  · exact Pool.related_refl Start.Fades.refl

@[simp] theorem cancelForward_stops (s : Runtime) (i : ℕ) (r : ForwardRecord) (found : Bool) :
    (s.cancelForward i r found).forwards.stops = s.forwards.stops := by
  unfold Runtime.cancelForward
  split
  · split_ifs <;> rfl
  · rfl

/-- **A step of the runtime keeps records where they belong.** -/
theorem Moved.wf {s : Runtime} {e : Remote.Event} {s' : State} (hmoved : Moved s e s')
    (h : s.forwards.Wf) : s'.Wf := by
  cases hmoved with
  | same => exact h
  | call event _ _ hstep => exact h.step hstep
  | take ids _ => exact h.fades (takeForwards_fades s ids) rfl
  | cancel i r found _ =>
    exact h.fades (cancelForward_fades s i r found) (cancelForward_stops s i r found)

/-! ### The stops that read the registry -/

section Reading

variable {j k : ℕ} {t u' : Stop} {x : Taken}

/-- **A stop that reads the registry did so before its step, or it finds the connection.** -/
theorem reading_of_afterStop {env : Surroundings} {s : State} {action : StopAction}
    (ht : s.stops[j]? = some t) (he : t.Enabled s j action)
    (hu' : (s.afterStop env j t action).stops[k]? = some u') (hx : u'.phase.reading = some x) :
    (∃ u, s.stops[k]? = some u ∧ u.phase.reading = some x) ∨
      ∃ f, s.starts[x.forward]? = some f ∧
        (env.connections f.request.connectionId).isSome = true := by
  have hgo : ∀ phase : StopPhase, (phase.reading = some x → t.phase.reading = some x) →
      (s.stops.set j { t with phase := phase })[k]? = some u' →
      ∃ u, s.stops[k]? = some u ∧ u.phase.reading = some x := by
    intro phase hreading hset
    rcases Pool.getElem?_set hset with ⟨rfl, rfl⟩ | ⟨_, hold⟩
    · exact ⟨t, ht, hreading hx⟩
    · exact ⟨u', hold, hx⟩
  cases action with
  | readTunnel forward =>
    simp only [State.afterStop] at hu'
    split at hu'
    · exact .inl (hgo (.locking _) (by nofun) hu')
    · exact .inl (hgo (.taking [forward]) (by nofun) hu')
  | getTunnelLock tunnelId => exact .inl (hgo (.waitingTunnel tunnelId) (by nofun) hu')
  | acquireTunnel tunnelId =>
    refine .inl (hgo _ (fun hy => ?_) hu')
    split at hy <;> cases hy
  | list tunnelId => exact .inl (hgo (.taking _) (by nofun) hu')
  | take forward rest =>
    simp only [State.afterStop] at hu'
    split at hu'
    · refine .inl (hgo _ (fun hy => ?_) hu')
      split_ifs at hy <;> cases hy
    · split at hu'
      · exact .inl (hgo (.returned false) (by nofun) hu')
      · exact .inl (hgo (.taking rest) (by nofun) hu')
  | finish => exact .inl (hgo (.returned true) (by nofun) hu')
  | getAddressLock y =>
    simp only [State.afterStop] at hu'
    split at hu'
    · exact .inl (hgo (.waitingAddress y) (by nofun) hu')
    · exact .inl ⟨u', hu', hx⟩
  | acquireAddress y => exact .inl (hgo (.looking y) (by nofun) hu')
  | look y =>
    simp only [State.afterStop] at hu'
    split at hu'
    · rename_i connection hfound
      rcases Pool.getElem?_set hu' with ⟨rfl, rfl⟩ | ⟨_, hold⟩
      · obtain rfl := Option.some.inj hx
        obtain ⟨f, hf, hc⟩ := Option.bind_eq_some_iff.mp hfound
        exact .inr ⟨f, hf, by rw [hc]; rfl⟩
      · exact .inl ⟨u', hold, hx⟩
    · exact .inl (hgo (.aborting _ _) (by nofun) hu')
  | cancelReply y ok =>
    refine .inl (hgo _ (fun hy => ?_) hu')
    rw [show t.phase = .canceling y from he]
    split_ifs at hy <;> exact hy
  | unroute y =>
    simp only [State.afterStop] at hu'
    split at hu'
    · exact .inl (hgo (.aborting _ _) (by nofun) hu')
    · exact .inl ⟨u', hu', hx⟩
  | restore y => exact .inl (hgo (.returned false) (by nofun) hu')
  | abort forward rest => exact .inl (hgo (.taking rest) (by nofun) hu')
  | dropCaller =>
    simp only [State.afterStop] at hu'
    split at hu'
    · exact .inl (hgo .dropped (by nofun) hu')
    · exact .inl (hgo .dropped (by nofun) hu')

/-- The same of a step of the runtime. -/
theorem reading_of_step {s s' : Runtime} {event : Remote.Event} (hwf : s.forwards.Wf)
    (h : Runtime.machine.step s event = some s') (hu' : s'.forwards.stops[k]? = some u')
    (hx : u'.phase.reading = some x) :
    (∃ u, s.forwards.stops[k]? = some u ∧ u.phase.reading = some x) ∨
      s'.connections = s.connections ∧ ∃ f, s.forwards.starts[x.forward]? = some f ∧
        (s.connection f.request.connectionId).isSome = true := by
  have hmoved := moved_of_step h
  have hconnections : (∃ call, event = .forward call) → s'.connections = s.connections := by
    rintro ⟨call, rfl⟩
    obtain ⟨forwards, _, rfl⟩ := Option.map_eq_some_iff.mp h
    rfl
  generalize s'.forwards = forwards at hmoved hu'
  cases hmoved with
  | same => exact .inl ⟨u', hu', hx⟩
  | take ids _ => exact .inl ⟨u', hu', hx⟩
  | cancel i r found _ =>
    rw [cancelForward_stops] at hu'
    exact .inl ⟨u', hu', hx⟩
  | call call _ he hcall =>
    cases call with
    | start request | recordFailure request =>
      obtain ⟨connection, _, -, rfl⟩ := Pool.act_eq_some.mp hcall
      exact .inl ⟨u', hu', hx⟩
    | stop request =>
      obtain rfl := Option.some.inj hcall
      rcases Pool.getElem?_add hu' with ⟨_, rfl⟩ | hold
      · cases request <;> cases hx
      · exact .inl ⟨u', hold, hx⟩
    | refresh =>
      obtain rfl := Option.some.inj hcall
      exact .inl ⟨u', hu', hx⟩
    | startAct i action =>
      obtain ⟨f, hf, henabled, rfl⟩ := Pool.act_eq_some.mp hcall
      obtain ⟨f', hf'⟩ := startStep_afterStart (hwf.starts i f hf) henabled
      rw [hf'.stops] at hu'
      exact .inl ⟨u', hu', hx⟩
    | stopAct i action =>
      obtain ⟨t, ht, henabled, rfl⟩ := Pool.act_eq_some.mp hcall
      rcases reading_of_afterStop ht henabled hu' hx with hold | hfound
      · exact .inl hold
      · exact .inr ⟨hconnections ⟨_, he⟩, hfound⟩

end Reading

/-! ### What a step makes of a start -/

/-- A step of a call finds a connection registered. -/
def Finds (s : Runtime) (e : Remote.Event) (c : ℕ) (connection : Connection) : Prop :=
  (∃ event, e = .forward event) ∧ s.surroundings.connections c = some connection

/-- A start before and after a step: its origin may be read again from its connection, and a
record is inserted while the connection is registered, or put back by a stop. -/
structure Start.Goes (s : Runtime) (e : Remote.Event) (i : ℕ) (f f' : Start) : Prop where
  request : f'.request = f.request
  origin : f'.origin = f.origin ∨
    ∃ connection, Finds s e f.request.connectionId connection ∧ f'.origin = connection.origin
  result : ∀ existing, f'.phase = .returned (some existing) → existing ≠ i →
    f.phase = .returned (some existing) ∨ ∃ t, f.request.tunnelId = some t ∧
      s.forwards.findForwardForTunnel t f.origin = some existing
  record : f'.record.isSome = true → f.record.isSome = true ∨
    (∃ connection, Finds s e f.request.connectionId connection) ∨
      ∃ j x, e = .forward (.stopAct j (.restore x)) ∧ x.forward = i

/-- Every start goes on, and a new one is that of a registered connection. -/
structure Going (s : Runtime) (e : Remote.Event) (starts' : List Start) : Prop where
  forth : ∀ (i : ℕ) (f : Start), s.forwards.starts[i]? = some f →
    ∃ f', starts'[i]? = some f' ∧ f.Goes s e i f'
  back : ∀ (i : ℕ) (f' : Start), starts'[i]? = some f' → s.forwards.starts[i]? = none →
    ∃ connection, Finds s e f'.request.connectionId connection ∧ f'.origin = connection.origin

section Going

variable {s : Runtime} {e : Remote.Event} {starts' : List Start} {i : ℕ} {f f' : Start}

theorem Start.Fades.goes (h : f.Fades f') : f.Goes s e i f' where
  request := h.request
  origin := .inl h.origin
  result _ hr _ := .inl (h.phase.symm.trans hr)
  record hsome := .inl (h.recorded hsome)

theorem going_of_fades (h : Pool.Related Start.Fades s.forwards.starts starts') :
    Going s e starts' where
  forth i f hf := by
    obtain ⟨f', hf', hfades⟩ := h.forth hf
    exact ⟨f', hf', hfades.goes⟩
  back i f' hf' hnone := by
    obtain ⟨f, hf, _⟩ := h.back hf'
    rw [hnone] at hf
    cases hf

theorem going_add {connection : Connection} (hc : Finds s e f.request.connectionId connection)
    (horigin : f.origin = connection.origin) : Going s e (s.forwards.starts ++ [f]) where
  forth i g hg := ⟨g, Pool.getElem?_add_left hg, (Start.Fades.refl g).goes⟩
  back i g hg hnone := by
    rcases Pool.getElem?_add hg with ⟨_, rfl⟩ | hold
    · exact ⟨connection, hc, horigin⟩
    · rw [hnone] at hold
      cases hold

theorem Going.set (h : Going s e starts') (hf : s.forwards.starts[i]? = some f)
    (hgoes : f.Goes s e i f') : Going s e (starts'.set i f') where
  forth j g hg := by
    by_cases hij : i = j
    · subst hij
      obtain rfl := Option.some.inj (hf.symm.trans hg)
      obtain ⟨g', hg', _⟩ := h.forth i f hf
      exact ⟨f', Pool.getElem?_set_self hg', hgoes⟩
    · rw [List.getElem?_set_ne hij]
      exact h.forth j g hg
  back j g hg hnone := by
    rcases Pool.getElem?_set hg with ⟨rfl, _⟩ | ⟨_, hold⟩
    · rw [hnone] at hf
      cases hf
    · exact h.back j g hold hnone

theorem going_restore {j : ℕ} {x : Taken} {r : Option ForwardRecord}
    (he : e = .forward (.stopAct j (.restore x))) :
    Going s e (s.forwards.setRecord x.forward r).starts := by
  rw [State.setRecord]
  cases hf : s.forwards.starts[x.forward]? with
  | none =>
    rw [List.modify_eq_self (List.getElem?_eq_none_iff.mp hf)]
    exact going_of_fades (Pool.related_refl .refl)
  | some f =>
    rw [List.modify_eq_set_getElem?, hf]
    exact (going_of_fades (Pool.related_refl .refl)).set hf ⟨rfl, .inl rfl,
      fun _ hr _ => .inl hr, fun _ => .inr (.inr ⟨j, x, he, rfl⟩)⟩

end Going

/-- **A step of the runtime lets every start go on.** -/
theorem going_of_step {s s' : Runtime} {event : Remote.Event} (hwf : s.forwards.Wf)
    (h : Runtime.machine.step s event = some s') : Going s event s'.forwards.starts := by
  have hrefl : Pool.Related Start.Fades s.forwards.starts s.forwards.starts :=
    Pool.related_refl .refl
  have hmoved := moved_of_step h
  generalize s'.forwards = forwards at hmoved ⊢
  cases hmoved with
  | same => exact going_of_fades hrefl
  | take ids _ => exact going_of_fades (takeForwards_fades s ids)
  | cancel i r found _ => exact going_of_fades (cancelForward_fades s i r found)
  | call event _ he hcall =>
    cases event with
    | start request | recordFailure request =>
      obtain ⟨connection, hc, -, rfl⟩ := Pool.act_eq_some.mp hcall
      exact going_add ⟨⟨_, he⟩, hc⟩ rfl
    | stop request =>
      obtain rfl := Option.some.inj hcall
      exact going_of_fades hrefl
    | refresh =>
      obtain rfl := Option.some.inj hcall
      exact going_of_fades (Pool.related_map Start.fades_refreshed)
    | startAct i action =>
      obtain ⟨f, hf, henabled, rfl⟩ := Pool.act_eq_some.mp hcall
      obtain ⟨f', hf'⟩ := startStep_afterStart (hwf.starts i f hf) henabled
      have hgoes : f.Goes s event i f' := by
        refine ⟨hf'.request, hf'.origin.imp_right ?_, hf'.result, fun hsome => ?_⟩
        · rintro ⟨connection, hc, horigin⟩
          exact ⟨connection, ⟨⟨_, he⟩, hc⟩, horigin⟩
        · refine (hf'.inserts hsome).imp_right fun hregistered => .inl ?_
          obtain ⟨connection, hc⟩ := Option.isSome_iff_exists.mp hregistered
          exact ⟨connection, ⟨_, he⟩, hc⟩
      rcases hf'.starts with hstarts | ⟨_, hstarts⟩
      · rw [hstarts]
        exact (going_of_fades hrefl).set hf hgoes
      · rw [hstarts]
        exact (going_of_fades (Pool.related_map Start.fades_refreshed)).set hf hgoes
    | stopAct j action =>
      obtain ⟨t, _, -, rfl⟩ := Pool.act_eq_some.mp hcall
      by_cases hrestore : ∃ x, action = .restore x
      · obtain ⟨x, rfl⟩ := hrestore
        exact going_restore he
      · exact going_of_fades (s.forwards.afterStop_fades s.surroundings j t
          fun x heq => hrestore ⟨x, heq⟩)

theorem wf_init : Forward.init.Wf where
  starts i f hf := by cases hf
  taken j t x ht := by cases ht
  single j j' t t' x x' ht := by cases ht

end Forward
end Remote
end HelmSsh
