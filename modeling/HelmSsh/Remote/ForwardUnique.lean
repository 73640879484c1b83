/-
# One forward for each tunnel and origin

A start with a tunnel takes the lock of the tunnel, searches the table for an active forward of
the tunnel and of the origin of its connection, and inserts its own record while it still holds
the lock; what it waits for in between (the port, the server) does not matter.  The three kinds
of forward do the same, and a stop whose cancel request fails puts back a record that is not
active.

So at every moment one record at most is active for a tunnel and an origin
(`State.Unique`), and a start that fails has no record and no listener: `unique_of_run`.  The
starts are an instance of `GuardedInsert`, whose rules carry the argument.
-/

import HelmSsh.GuardedInsert
import HelmSsh.Remote.ForwardMoves

namespace HelmSsh
namespace Remote
namespace Forward

/-- The start has found no active forward of its tunnel, and has not inserted its own. -/
def StartPhase.checked : StartPhase → Bool
  | .begun | .waitingTunnel | .refreshing | .finding | .published | .returned _ | .dropped
  | .failure => false
  | _ => true

/-- The start holds the lock of its tunnel. -/
def StartPhase.guardsTunnel (phase : StartPhase) : Bool :=
  phase.checked || phase = .refreshing || phase = .finding

/-- A forward that does not become active. -/
structure Start.Quiet (f f' : Start) : Prop where
  request : f'.request = f.request
  origin : f'.origin = f.origin
  phase : f'.phase = f.phase
  active : ∀ t o, f'.activeFor t o = true → f.activeFor t o = true

theorem Start.Quiet.refl (f : Start) : f.Quiet f := ⟨rfl, rfl, rfl, fun _ _ h => h⟩

theorem Start.Fades.quiet {f f' : Start} (h : f.Fades f') : f.Quiet f' :=
  ⟨h.request, h.origin, h.phase, fun _ _ => h.activeFor⟩

theorem Start.quiet_restored (f : Start) (r : ForwardRecord) :
    f.Quiet { f with record := some { r with status := .failed } } :=
  ⟨rfl, rfl, rfl, fun t o h => by simp [Start.activeFor, isActiveForwardStatus] at h⟩

theorem Start.activeFor_of_none {f : Start} (h : f.record = none) (t : ℕ) (o : ConnectionOrigin) :
    f.activeFor t o = false := by
  simp [Start.activeFor, h]

theorem Start.activeFor_iff {f : Start} {t : ℕ} {o : ConnectionOrigin} :
    f.activeFor t o = true ↔ f.request.tunnelId = some t ∧ f.origin = o ∧
      ∃ r, f.record = some r ∧ isActiveForwardStatus r.status = true := by
  simp [Start.activeFor, Option.any_eq_true, and_assoc]

/-- How the starts insert their records, behind the lock of their tunnel. -/
def insertion : GuardedInsert Start ℕ ConnectionOrigin Caller where
  caller := .start
  caller_injective := Caller.start.inj
  key f := f.request.tunnelId
  slot f := f.origin
  waiting f := f.phase = .waitingTunnel
  guarding f := f.phase.guardsTunnel
  checked f := f.phase.checked
  active := Start.activeFor
  guarding_of_checked h := by simp [StartPhase.guardsTunnel, h]
  key_of_active h := (Start.activeFor_iff.mp h).1

/-- A start that does not become active stays where it is. -/
theorem Start.Quiet.insertion {f f' : Start} (h : f.Quiet f') : Forward.insertion.Quiet f f' where
  key := congrArg Request.tunnelId h.request
  slot := h.origin
  waiting := congrArg (fun phase => decide (phase = StartPhase.waitingTunnel)) h.phase
  guarding := congrArg StartPhase.guardsTunnel h.phase
  checked := congrArg StartPhase.checked h.phase
  active := h.active

/-- The starts keep to the locks, and one record at most is active for a tunnel and an
origin. -/
def State.Unique (s : State) : Prop :=
  insertion.Unique s.starts s.tunnelLocks

namespace State

variable {s s' : State}

theorem Unique.quiet (h : s.Unique) (hstarts : Pool.Related Start.Quiet s.starts s'.starts)
    (hholds : ∀ i t, s.tunnelLocks.Holds (.start i) t → s'.tunnelLocks.Holds (.start i) t)
    (hguards : ∀ i t, s.tunnelLocks.Guards (.start i) t → s'.tunnelLocks.Guards (.start i) t) :
    s'.Unique :=
  GuardedInsert.Unique.quiet h (hstarts.mono fun _ _ hq => hq.insertion) hholds hguards

theorem Unique.add (h : s.Unique) {f : Start} (hquiet : ∀ t o, f.activeFor t o = false)
    (hphase : ∀ t, f.request.tunnelId = some t →
      f.phase ≠ .waitingTunnel ∧ f.phase.guardsTunnel = false) :
    State.Unique { s with starts := s.starts ++ [f] } :=
  GuardedInsert.Unique.add h hquiet fun t ht => ⟨decide_eq_false (hphase t ht).1, (hphase t ht).2⟩

theorem Unique.set (h : s.Unique) {i : ℕ} {f : Start} (hf : s.starts[i]? = some f) (f' : Start)
    {locks : KeyedLocks ℕ Caller} (hr : insertion.Replaces s.starts s.tunnelLocks i f f' locks)
    (hstarts : s'.starts = s.starts.set i f') (hlocks : s'.tunnelLocks = locks) : s'.Unique := by
  rw [State.Unique, hstarts, hlocks]
  exact GuardedInsert.Unique.set h hf f' hr

theorem record_of_checked {i : ℕ} {f : Start} (h : f.Wf i) (hp : f.phase.checked = true) :
    f.record = none := by
  rw [← Option.not_isSome_iff_eq_none]
  intro hsome
  rcases h.recorded hsome with hq | hq | hq
  all_goals
    rw [hq] at hp
    cases hp

/-- A start goes from one phase to another without touching the lock of its tunnel. -/
theorem Unique.replaces_phase (h : s.Unique) (hwf : s.Wf) {i : ℕ} {f : Start}
    (hf : s.starts[i]? = some f) (f' : Start) (hrequest : f'.request = f.request)
    (horigin : f'.origin = f.origin) (hrecord : f'.record = f.record)
    (hchecked : f'.phase.checked = true → f.phase.checked = true)
    (hguards : f'.phase.guardsTunnel = true → f.phase.guardsTunnel = true)
    (hwaiting : f'.phase ≠ .waitingTunnel) :
    insertion.Replaces s.starts s.tunnelLocks i f f' s.tunnelLocks := by
  refine GuardedInsert.Unique.replaces_held h hf (congrArg Request.tunnelId hrequest)
    (decide_eq_false hwaiting) hguards (fun hp => ⟨hchecked hp, horigin, ?_⟩) fun t o hactive => ?_
  · refine Start.activeFor_of_none (hrecord.trans ?_)
    exact record_of_checked (hwf.starts i f hf) (hchecked hp)
  · refine .inl (Start.activeFor_iff.mpr ?_)
    have hold := Start.activeFor_iff.mp hactive
    rwa [hrequest, horigin, hrecord] at hold

/-- A start inserts its record, behind the lock of its tunnel. -/
theorem Unique.replaces_insert (h : s.Unique) {i : ℕ} {f : Start} (hf : s.starts[i]? = some f)
    (hchecked : f.phase.checked = true) (f' : Start) (hrequest : f'.request = f.request)
    (horigin : f'.origin = f.origin) (hphase : f'.phase = .published) :
    insertion.Replaces s.starts s.tunnelLocks i f f' s.tunnelLocks := by
  have hnot : f'.phase.checked = false ∧ f'.phase ≠ .waitingTunnel := by
    rw [hphase]
    exact ⟨rfl, by nofun⟩
  refine GuardedInsert.Unique.replaces_held h hf (congrArg Request.tunnelId hrequest)
    (decide_eq_false hnot.2) (fun _ => insertion.guarding_of_checked hchecked) (fun hp => ?_)
    fun t o hactive => .inr ⟨hchecked, ?_⟩
  · rw [show f'.phase.checked = true from hp] at hnot
    cases hnot.1
  · exact horigin.symm.trans (Start.activeFor_iff.mp hactive).2.1

theorem replaces_done {i : ℕ} {f f' : Start} (hrequest : f'.request = f.request)
    (hphase : f'.phase = .dropped ∨ ∃ result, f'.phase = .returned result)
    (hactive : ∀ t o, f'.activeFor t o = true →
      f.activeFor t o = true ∨ f.phase.checked = true ∧ f.origin = o) :
    insertion.Replaces s.starts s.tunnelLocks i f f' (s.tunnelLocks.drop (.start i)) := by
  have hnot : f'.phase ≠ .waitingTunnel ∧ f'.phase.guardsTunnel = false := by
    rcases hphase with hp | ⟨result, hp⟩
    all_goals
      rw [hp]
      exact ⟨by nofun, rfl⟩
  exact GuardedInsert.replaces_done (congrArg Request.tunnelId hrequest) (decide_eq_false hnot.1)
    hnot.2 hactive

/-- **A step of a start keeps one active record for a tunnel and an origin.** -/
theorem Unique.afterStart (h : s.Unique) (hwf : s.Wf) {env : Surroundings} {i : ℕ} {f : Start}
    {action : StartAction} (hf : s.starts[i]? = some f) (he : f.Enabled env s i action)
    (horigin : ∀ connection, env.connections f.request.connectionId = some connection →
      connection.origin = f.origin) : (s.afterStart env i f action).Unique := by
  have hgo : ∀ {phase : StartPhase} (phase' : StartPhase) (s' : State), f.phase = phase →
      (phase'.checked = true → phase.checked = true) →
      (phase'.guardsTunnel = true → phase.guardsTunnel = true) → phase' ≠ .waitingTunnel →
      s'.starts = s.starts.set i { f with phase := phase' } → s'.tunnelLocks = s.tunnelLocks →
      s'.Unique := by
    intro phase phase' s' hp hchecked hguards hwaiting hstarts hlocks
    subst hp
    exact h.set hf _ (h.replaces_phase hwf hf { f with phase := phase' } rfl rfl rfl hchecked
      hguards hwaiting) hstarts hlocks
  have hdone : ∀ (f' : Start) (phase : StartPhase) (s' : State), f'.request = f.request →
      f'.origin = f.origin → f'.record = f.record →
      phase = .dropped ∨ (∃ result, phase = .returned result) →
      s'.starts = s.starts.set i { f' with phase := phase } →
      s'.tunnelLocks = s.tunnelLocks.drop (.start i) → s'.Unique := by
    intro f' phase s' hrequest horigin hrecord hphase hstarts hlocks
    refine h.set hf { f' with phase := phase }
      (replaces_done hrequest hphase fun t o hactive => .inl ?_) hstarts hlocks
    rw [Start.activeFor_iff] at hactive ⊢
    obtain ⟨ht, ho, hr⟩ := hactive
    exact ⟨hrequest ▸ ht, horigin ▸ ho, hrecord ▸ hr⟩
  cases action with
  | getTunnelLock tunnelId =>
    exact h.set hf { f with phase := .waitingTunnel }
      (GuardedInsert.replaces_get he.2 rfl rfl fun _ _ hactive => hactive) rfl rfl
  | acquireTunnel =>
    exact h.set hf { f with phase := .refreshing }
      (GuardedInsert.Unique.replaces_lock h hf (decide_eq_true he.1) he.2 rfl rfl rfl
        fun _ _ hactive => hactive) rfl rfl
  | refresh =>
    have hrefreshed : State.Unique { s with starts := s.starts.map Start.refreshed } :=
      h.quiet (Pool.related_map fun f => f.fades_refreshed.quiet) (fun _ _ hold => hold)
        (fun _ _ hold => hold)
    have hget : (s.starts.map Start.refreshed)[i]? = some f.refreshed := by
      rw [List.getElem?_map, hf]
      rfl
    have hwf' : State.Wf { s with starts := s.starts.map Start.refreshed } :=
      hwf.fades (Pool.related_map Start.fades_refreshed) rfl
    have hp : f.refreshed.phase = .refreshing := he
    refine hrefreshed.set hget _ (hrefreshed.replaces_phase hwf' hget
      { f.refreshed with phase := .finding } rfl rfl rfl (by rintro ⟨⟩) (fun _ => ?_)
        (by rintro ⟨⟩)) rfl rfl
    rw [hp]
    rfl
  | find tunnelId =>
    simp only [State.afterStart]
    split
    · exact hdone f _ _ rfl rfl rfl (.inr ⟨_, rfl⟩) rfl rfl
    case _ hnone =>
      have hguarding : insertion.guarding f = true := by
        rw [show insertion.guarding f = f.phase.guardsTunnel from rfl, he.1]
        rfl
      have hbare := ((hwf.starts i f hf).bare (by rw [he.1]; rfl)).1
      refine h.set hf { f with phase := .admitted } (GuardedInsert.Unique.replaces_check h hf
        hguarding rfl rfl rfl (fun _ _ hactive => hactive) (fun t ht j g hg => ?_)
        (Start.activeFor_of_none hbare)) rfl rfl
      obtain rfl := Option.some.inj (he.2.symm.trans ht)
      exact List.findIdx?_eq_none_iff.mp hnone g (List.mem_of_getElem? hg)
  | enter =>
    simp only [State.afterStart]
    split
    case _ connection hconnection =>
      by_cases hsession : connection.sessionId = f.request.sessionId
      · rw [if_pos hsession]
        refine h.set hf _ (h.replaces_phase hwf hf
          { f with
            origin := connection.origin
            phase := if f.request.forwardType = .remoteForward then .addressing else .binding }
          rfl (horigin connection hconnection) rfl (fun _ => ?_) (fun _ => ?_) ?_) rfl rfl
        · rw [he.1]
          rfl
        · rw [he.1]
          rfl
        · simp only
          split_ifs <;> rintro ⟨⟩
      · rw [if_neg hsession]
        exact hdone f _ _ rfl rfl rfl (.inr ⟨_, rfl⟩) rfl rfl
    case _ => exact hdone f _ _ rfl rfl rfl (.inr ⟨_, rfl⟩) rfl rfl
  | bind port =>
    cases port with
    | none => exact hdone f _ _ rfl rfl rfl (.inr ⟨_, rfl⟩) rfl rfl
    | some port =>
      have hp : f.phase = .binding := he
      refine h.set hf _ (h.replaces_phase hwf hf { f with phase := .bound port, listener := true }
        rfl rfl rfl (fun _ => ?_) (fun _ => ?_) (by rintro ⟨⟩)) rfl rfl
      · rw [hp]
        rfl
      · rw [hp]
        rfl
  | register port =>
    have hchecked : f.phase.checked = true := by
      rw [show f.phase = .bound port from he]
      rfl
    simp only [State.afterStart]
    split_ifs
    · exact h.set hf _ (h.replaces_insert hf hchecked
        { f with phase := .published, record := some (running port) } rfl rfl rfl) rfl rfl
    · exact hgo .rollingBack _ he (fun _ => rfl) (fun _ => rfl) (by rintro ⟨⟩) rfl rfl
  | rollBack => exact hdone { f with listener := false } _ _ rfl rfl rfl (.inr ⟨_, rfl⟩) rfl rfl
  | signal =>
    simp only [State.afterStart]
    split_ifs
    · exact hdone f _ _ rfl rfl rfl (.inr ⟨_, rfl⟩) rfl rfl
    · refine h.set hf { f with phase := .returned none, record := none }
        (replaces_done rfl (.inr ⟨_, rfl⟩) fun t o hactive => ?_) rfl rfl
      rw [Start.activeFor_of_none rfl] at hactive
      cases hactive
  | getAddressLock =>
    exact hgo .waitingAddress _ he (fun _ => rfl) (fun _ => rfl) (by rintro ⟨⟩) rfl rfl
  | acquireAddress =>
    exact hgo .comparing _ he.1 (fun _ => rfl) (fun _ => rfl) (by rintro ⟨⟩) rfl rfl
  | compare =>
    simp only [State.afterStart]
    split_ifs
    · exact hdone f _ _ rfl rfl rfl (.inr ⟨_, rfl⟩) rfl rfl
    · exact hgo .routing _ he (fun _ => rfl) (fun _ => rfl) (by rintro ⟨⟩) rfl rfl
  | insertRoute => exact hgo .requesting _ he (fun _ => rfl) (fun _ => rfl) (by rintro ⟨⟩) rfl rfl
  | reply returned =>
    simp only [State.afterStart]
    split
    · split
      · exact hgo (.assigned _) _ he (fun _ => rfl) (fun _ => rfl) (by rintro ⟨⟩) rfl rfl
      · exact hgo (.refusing _) _ he (fun _ => rfl) (fun _ => rfl) (by rintro ⟨⟩) rfl rfl
    · exact hgo (.refusing false) _ he (fun _ => rfl) (fun _ => rfl) (by rintro ⟨⟩) rfl rfl
  | refuse cancel =>
    simp only [State.afterStart]
    split_ifs
    · exact hgo .withdrawing _ he (fun _ => rfl) (fun _ => rfl) (by rintro ⟨⟩) rfl rfl
    · exact hdone f _ _ rfl rfl rfl (.inr ⟨_, rfl⟩) rfl rfl
  | withdraw => exact hdone f _ _ rfl rfl rfl (.inr ⟨_, rfl⟩) rfl rfl
  | assign port =>
    simp only [State.afterStart]
    split_ifs
    · exact hgo (.routed port) _ he (fun _ => rfl) (fun _ => rfl) (by rintro ⟨⟩) rfl rfl
    · exact hgo (.routed port) _ he (fun _ => rfl) (fun _ => rfl) (by rintro ⟨⟩) rfl rfl
  | registerRemote port =>
    have hchecked : f.phase.checked = true := by
      rw [show f.phase = .routed port from he]
      rfl
    simp only [State.afterStart]
    split_ifs
    · refine h.set hf { f with phase := .returned (some i), record := some (running port) }
        (replaces_done rfl (.inr ⟨_, rfl⟩) fun t o hactive => .inr ⟨hchecked, ?_⟩) rfl rfl
      exact (Start.activeFor_iff.mp hactive).2.1
    · exact hgo (.orphaned port) _ he (fun _ => rfl) (fun _ => rfl) (by rintro ⟨⟩) rfl rfl
  | cancelReply port =>
    exact hgo (.unrouting port) _ he (fun _ => rfl) (fun _ => rfl) (by rintro ⟨⟩) rfl rfl
  | unroute port => exact hdone f _ _ rfl rfl rfl (.inr ⟨_, rfl⟩) rfl rfl
  | dropCaller => exact hdone { f with listener := false } _ _ rfl rfl rfl (.inl rfl) rfl rfl
  | markFailed =>
    exact h.quiet (Pool.related_set (fun _ f _ => .refl f) hf f.fades_marked.quiet)
      (fun _ _ hold => hold) (fun _ _ hold => hold)
  | endTask =>
    exact h.quiet (Pool.related_set (fun _ f _ => .refl f) hf f.fades_unbound.quiet)
      (fun _ _ hold => hold) (fun _ _ hold => hold)

theorem afterStop_quiet (s : State) (env : Surroundings) (j : ℕ) (t : Stop) (action : StopAction) :
    Pool.Related Start.Quiet s.starts (s.afterStop env j t action).starts := by
  by_cases hrestore : ∃ x, action = .restore x
  · obtain ⟨x, rfl⟩ := hrestore
    exact Pool.related_modify .refl (fun f => f.quiet_restored x.record) x.forward
  · have hfades := s.afterStop_fades env j t fun x heq => hrestore ⟨x, heq⟩
    exact hfades.mono fun _ _ hf => hf.quiet

/-- What a step of a stop does to the locks of the tunnels. -/
theorem afterStop_tunnelLocks (s : State) (env : Surroundings) (j : ℕ) (t : Stop)
    (action : StopAction) :
    (s.afterStop env j t action).tunnelLocks = s.tunnelLocks ∨
      (∃ tunnelId, (s.afterStop env j t action).tunnelLocks =
        s.tunnelLocks.get (.stop j) tunnelId) ∨
      (s.afterStop env j t action).tunnelLocks = s.tunnelLocks.lock (.stop j) ∨
      (s.afterStop env j t action).tunnelLocks = s.tunnelLocks.drop (.stop j) := by
  cases action with
  | readTunnel forward | getAddressLock x | look x | unroute x =>
    simp only [State.afterStop]
    split
    · exact .inl rfl
    · exact .inl rfl
  | getTunnelLock tunnelId => exact .inr (.inl ⟨tunnelId, rfl⟩)
  | acquireTunnel tunnelId => exact .inr (.inr (.inl rfl))
  | take forward rest =>
    simp only [State.afterStop]
    split
    · exact .inl rfl
    · split
      · exact .inr (.inr (.inr rfl))
      · exact .inl rfl
  | finish => exact .inr (.inr (.inr rfl))
  | restore x => exact .inr (.inr (.inr rfl))
  | dropCaller =>
    simp only [State.afterStop]
    split
    · exact .inr (.inr (.inr rfl))
    · exact .inr (.inr (.inr rfl))
  | _ => exact .inl rfl

/-- **A step of a stop keeps one active record for a tunnel and an origin.** -/
theorem Unique.afterStop (h : s.Unique) (env : Surroundings) (j : ℕ) (t : Stop)
    (action : StopAction) : (s.afterStop env j t action).Unique := by
  refine h.quiet (s.afterStop_quiet env j t action) (fun i tunnelId hold => ?_)
    (fun i tunnelId hold => ?_)
  · rcases s.afterStop_tunnelLocks env j t action with hl | ⟨t', hl⟩ | hl | hl
    · rwa [hl]
    · rw [hl]
      exact KeyedLocks.holds_get.mpr (.inr hold)
    · rw [hl]
      exact KeyedLocks.holds_lock.mpr hold
    · rw [hl]
      exact KeyedLocks.holds_drop.mpr ⟨nofun, hold⟩
  · rcases s.afterStop_tunnelLocks env j t action with hl | ⟨t', hl⟩ | hl | hl
    · rwa [hl]
    · rw [hl]
      exact KeyedLocks.guards_get.mpr hold
    · rw [hl]
      exact hold.lock _
    · rw [hl]
      exact KeyedLocks.guards_drop.mpr ⟨nofun, hold⟩

end State

/-- The origin of a forward is that of its connection. -/
def OriginsAgree (s : Runtime) : Prop :=
  ∀ (i : ℕ) (f : Start), s.forwards.starts[i]? = some f →
    ∃ r, s.connections[f.request.connectionId]? = some r ∧ r.info.origin = f.origin

theorem OriginsAgree.found {s : Runtime} (h : OriginsAgree s) {i : ℕ} {f : Start}
    (hf : s.forwards.starts[i]? = some f) (connection : Connection)
    (hc : s.surroundings.connections f.request.connectionId = some connection) :
    connection.origin = f.origin := by
  obtain ⟨r, hr, horigin⟩ := h i f hf
  obtain ⟨r', hr', rfl, _⟩ := Runtime.connection_eq_some hc
  obtain rfl := Option.some.inj (hr.symm.trans hr')
  exact horigin

/-- **The origin of a forward stays that of its connection.** -/
theorem step_originsAgree {s s' : Runtime} {event : Remote.Event} (h : OriginsAgree s)
    (hwf : s.forwards.Wf) (hstep : Runtime.machine.step s event = some s') : OriginsAgree s' := by
  intro i f' hf'
  have hgoing := going_of_step hwf hstep
  have hread : ∀ connection, Finds s event f'.request.connectionId connection →
      f'.origin = connection.origin → ∃ r, s'.connections[f'.request.connectionId]? = some r ∧
        r.info.origin = f'.origin := by
    rintro connection ⟨_, hc⟩ ho
    obtain ⟨r, hr, rfl, _⟩ := Runtime.connection_eq_some hc
    obtain ⟨r', hr', hinfo⟩ := Runtime.connections_of_step hstep hr
    exact ⟨r', hr', by rw [hinfo, ho]⟩
  cases hf : s.forwards.starts[i]? with
  | none =>
    obtain ⟨connection, hc, ho⟩ := hgoing.back i f' hf' hf
    exact hread connection hc ho
  | some f =>
    obtain ⟨g, hg, hgoes⟩ := hgoing.forth i f hf
    obtain rfl := Option.some.inj (hf'.symm.trans hg)
    rcases hgoes.origin with ho | ⟨connection, hc, ho⟩
    · obtain ⟨r, hr, hagree⟩ := h i f hf
      obtain ⟨r', hr', hinfo⟩ := Runtime.connections_of_step hstep hr
      exact ⟨r', by rw [hgoes.request]; exact hr', by rw [hinfo, hagree, ho]⟩
    · exact hread connection (by rw [hgoes.request]; exact hc) ho

/-- What holds of the forwards in every run. -/
structure Kept (s : Runtime) : Prop where
  wf : s.forwards.Wf
  origins : OriginsAgree s
  unique : s.forwards.Unique

/-- **A step of a call keeps one active record for a tunnel and an origin.** -/
theorem State.Unique.step {s s' : State} (h : s.Unique) (hwf : s.Wf) {env : Surroundings}
    {event : Event} (hstep : Forward.step env s event = some s')
    (horigin : ∀ (i : ℕ) (f : Start), s.starts[i]? = some f → ∀ connection,
      env.connections f.request.connectionId = some connection → connection.origin = f.origin) :
    s'.Unique := by
  cases event with
  | start request =>
    obtain ⟨connection, _, -, rfl⟩ := Pool.act_eq_some.mp hstep
    refine h.add (fun t o => Start.activeFor_of_none rfl t o) fun t ht => ?_
    have hphase : (Start.new request connection.origin).phase = .begun :=
      if_pos (by rw [show request.tunnelId = some t from ht]; rfl)
    rw [hphase]
    exact ⟨by nofun, rfl⟩
  | recordFailure request =>
    obtain ⟨connection, _, -, rfl⟩ := Pool.act_eq_some.mp hstep
    refine h.add (fun t o => ?_) fun _ _ => ⟨by nofun, rfl⟩
    simp [Start.activeFor, Start.failed, isActiveForwardStatus]
  | stop request =>
    obtain rfl := Option.some.inj hstep
    exact h.quiet (Pool.related_refl .refl) (fun _ _ hold => hold) (fun _ _ hold => hold)
  | refresh =>
    obtain rfl := Option.some.inj hstep
    exact h.quiet (Pool.related_map fun f => f.fades_refreshed.quiet) (fun _ _ hold => hold)
      (fun _ _ hold => hold)
  | startAct i action =>
    obtain ⟨f, hf, he, rfl⟩ := Pool.act_eq_some.mp hstep
    exact h.afterStart hwf hf he (horigin i f hf)
  | stopAct j action =>
    obtain ⟨t, _, -, rfl⟩ := Pool.act_eq_some.mp hstep
    exact h.afterStop env j t action

theorem cancelForward_tunnelLocks (s : Runtime) (i : ℕ) (r : ForwardRecord) (found : Bool) :
    (s.cancelForward i r found).forwards.tunnelLocks = s.forwards.tunnelLocks := by
  unfold Runtime.cancelForward
  split
  · split_ifs <;> rfl
  · rfl

theorem State.Unique.fades {s s' : State} (h : s.Unique)
    (hstarts : Pool.Related Start.Fades s.starts s'.starts)
    (hlocks : s'.tunnelLocks = s.tunnelLocks) : s'.Unique := by
  exact h.quiet (hstarts.mono fun _ _ hfades => hfades.quiet) (fun _ _ hold => by rwa [hlocks])
    (fun _ _ hold => by rwa [hlocks])

/-- **A step of the runtime keeps it.** -/
theorem step_kept {s s' : Runtime} {event : Remote.Event} (h : Kept s)
    (hstep : Runtime.machine.step s event = some s') : Kept s' := by
  have hmoved := moved_of_step hstep
  refine ⟨hmoved.wf h.wf, step_originsAgree h.origins h.wf hstep, ?_⟩
  generalize s'.forwards = forwards at hmoved
  cases hmoved with
  | same => exact h.unique
  | call event _ _ hcall => exact h.unique.step h.wf hcall fun i f hf => h.origins.found hf
  | take ids _ => exact h.unique.fades (takeForwards_fades s ids) rfl
  | cancel i r found _ =>
    exact h.unique.fades (cancelForward_fades s i r found) (cancelForward_tunnelLocks s i r found)

theorem unique_init : Forward.init.Unique :=
  GuardedInsert.unique_nil

theorem kept_of_run {s : Runtime} {events : List Remote.Event}
    (h : Runtime.machine.run events = some s) : Kept s := by
  refine Runtime.machine.run_invariant ⟨wf_init, ?_, unique_init⟩ (fun _ _ _ => step_kept) h
  intro i f hf
  cases hf

theorem findForwardForTunnel_eq_some {s : State} {t existing : ℕ} {o : ConnectionOrigin}
    (h : s.findForwardForTunnel t o = some existing) :
    ∃ g, s.starts[existing]? = some g ∧ g.activeFor t o = true := by
  obtain ⟨hlt, hactive, _⟩ := List.findIdx?_eq_some_iff_getElem.mp h
  exact ⟨_, List.getElem?_eq_getElem hlt, hactive⟩

/-- A start returns another forward than its own only from the search of the table. -/
theorem found_of_step {s s' : Runtime} {event : Remote.Event} (hwf : s.forwards.Wf)
    (hstep : Runtime.machine.step s event = some s') {i existing : ℕ} {f f' : Start}
    (hf : s.forwards.starts[i]? = some f) (hf' : s'.forwards.starts[i]? = some f')
    (hbefore : f.phase ≠ .returned (some existing)) (hafter : f'.phase = .returned (some existing))
    (hne : existing ≠ i) :
    ∃ t g, f.request.tunnelId = some t ∧ s.forwards.starts[existing]? = some g ∧
      g.activeFor t f.origin = true := by
  obtain ⟨g, hg, hgoes⟩ := (going_of_step hwf hstep).forth i f hf
  obtain rfl := Option.some.inj (hf'.symm.trans hg)
  rcases hgoes.result existing hafter hne with hsame | ⟨t, ht, hfound⟩
  · exact absurd hsame hbefore
  · obtain ⟨u, hu, hactive⟩ := findForwardForTunnel_eq_some hfound
    exact ⟨t, u, ht, hu, hactive⟩

theorem Start.Wf.of_failed {i : ℕ} {f : Start} (h : f.Wf i) (hphase : f.phase = .returned none) :
    f.record = none ∧ f.listener = false := by
  constructor
  · rw [← Option.not_isSome_iff_eq_none]
    intro hsome
    have hrecord := h.recorded hsome
    rw [hphase] at hrecord
    rcases hrecord with hp | hp | hp <;> cases hp
  · rw [← Bool.not_eq_true]
    intro htrue
    have hlistener := h.listening htrue
    rw [hphase] at hlistener
    rcases hlistener with ⟨port, hp⟩ | hp | hp | hp <;> cases hp

/-- **One forward for each tunnel and origin.**  In every state of every run, two active records
of a tunnel and an origin are the same, a start that has failed has no record and no listener,
and the forward that a start finds and returns is in the table when it looks, with an active
status. -/
theorem unique_of_run {s : Runtime} {events : List Remote.Event}
    (h : Runtime.machine.run events = some s) :
    (∀ (i j : ℕ) (f g : Start) (t : ℕ) (o : ConnectionOrigin), s.forwards.starts[i]? = some f →
      s.forwards.starts[j]? = some g → f.activeFor t o = true → g.activeFor t o = true → i = j) ∧
    (∀ (i : ℕ) (f : Start), s.forwards.starts[i]? = some f → f.phase = .returned none →
      f.record = none ∧ f.listener = false) ∧
    ∀ (event : Remote.Event) (s' : Runtime) (i existing : ℕ) (f f' : Start),
      Runtime.machine.step s event = some s' → s.forwards.starts[i]? = some f →
      s'.forwards.starts[i]? = some f' → f.phase ≠ .returned (some existing) →
      f'.phase = .returned (some existing) → existing ≠ i →
      ∃ t g, f.request.tunnelId = some t ∧ s.forwards.starts[existing]? = some g ∧
        g.activeFor t f.origin = true := by
  have hkept := kept_of_run h
  refine ⟨hkept.unique.unique, fun i f hf hphase => (hkept.wf.starts i f hf).of_failed hphase, ?_⟩
  intro event s' i existing f f' hstep hf hf' hbefore hafter hne
  exact found_of_step hkept.wf hstep hf hf' hbefore hafter hne

/-- The request of a local forward for a tunnel. -/
def exampleRequest : Request where
  forwardType := .localForward
  tunnelId := some 7
  sessionId := 1
  connectionId := 0
  bindHost := ['h']
  bindPort := 0

/-- Two starts of a tunnel: the first one has returned, and the second one is about to search the
table. -/
def twoStarts : List Remote.Event :=
  [.connect ⟨1, .desktop⟩, .forward (.start exampleRequest), .forward (.start exampleRequest),
    .forward (.startAct 0 (.getTunnelLock 7)), .forward (.startAct 1 (.getTunnelLock 7)),
    .forward (.startAct 0 .acquireTunnel), .forward (.startAct 0 .refresh),
    .forward (.startAct 0 (.find 7)), .forward (.startAct 0 .enter),
    .forward (.startAct 0 (.bind (some 4000))), .forward (.startAct 0 (.register 4000)),
    .forward (.startAct 0 .signal), .forward (.startAct 1 .acquireTunnel),
    .forward (.startAct 1 .refresh)]

/-- The second start returns the forward of the first one. -/
theorem unique_of_run_twoStarts :
    ∃ s s' f' g, Runtime.machine.run twoStarts = some s ∧
      Runtime.machine.step s (.forward (.startAct 1 (.find 7))) = some s' ∧
      s'.forwards.starts[1]? = some f' ∧ f'.phase = .returned (some 0) ∧
      s.forwards.starts[0]? = some g ∧ g.activeFor 7 .desktop = true := by
  have hview : ((Runtime.machine.run twoStarts).bind fun s =>
      (s.forwards.starts[1]?).bind fun f =>
        (Runtime.machine.step s (.forward (.startAct 1 (.find 7)))).bind fun s' =>
          (s'.forwards.starts[1]?).map fun f' =>
            (f.request.tunnelId, f.origin, f.phase, f'.phase)) =
      some (some 7, .desktop, .finding, .returned (some 0)) := by
    decide +kernel
  obtain ⟨s, hs, hview⟩ := Option.bind_eq_some_iff.mp hview
  obtain ⟨f, hf, hview⟩ := Option.bind_eq_some_iff.mp hview
  obtain ⟨s', hs', hview⟩ := Option.bind_eq_some_iff.mp hview
  obtain ⟨f', hf', hview⟩ := Option.map_eq_some_iff.mp hview
  simp only [Prod.mk.injEq] at hview
  obtain ⟨htunnel, horigin, hphase, hphase'⟩ := hview
  obtain ⟨t, g, ht, hg, hactive⟩ := (unique_of_run hs).2.2 _ s' 1 0 f f' hs' hf hf'
    (by rw [hphase]; nofun) hphase' (by decide)
  rw [htunnel] at ht
  obtain rfl := Option.some.inj ht
  rw [horigin] at hactive
  exact ⟨s, s', f', g, hs, hs', hf', hphase', hg, hactive⟩

end Forward
end Remote
end HelmSsh
