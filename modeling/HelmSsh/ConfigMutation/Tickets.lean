/-
# What a ticket is worth

The protocol of `ConfigMutationCoordinator` (`src-tauri/src/config_mutation.rs`), in every
interleaving of tickets, mutations and replacements, dropped or not (`configMutation_protocol`):
`lock` gives its guard if and only if no replacement was in progress when the ticket was taken and
none has begun since; the guard of a mutation and that of a replacement are never held at once; and
while no replacement is in progress, a new ticket gets its guard, whoever waits before it.

The epoch is an `AtomicU64`, which comes round after 2^63 replacements: then, and only then, an old
ticket is taken for a new one (`configMutation_round`).
-/

import HelmSsh.ConfigMutation.Coordinator

namespace HelmSsh
namespace ConfigMutation
namespace Coordinator
namespace State

variable {s s' : State} {i j : ℕ} {t u : Task} {gate : FairLock ℕ} {phase : Phase}

/-! ### What a ticket is worth -/

/-- **The check of `lock`**: it succeeds if and only if no replacement was in progress when the
ticket was taken and the number of those that have begun since is one that brings the epoch
round. -/
theorem Inv.accepts_iff (h : s.Inv) (ht : s.tasks[i]? = some t) {ticket : ℕ}
    (hkind : t.kind = .mutation ticket) (hgranted : t.phase = .granted) :
    s.accepts ticket = true ↔ t.replacingAt = false ∧ (s.begun - t.begunAt) % 2 ^ 63 = 0 := by
  have hholds : t.phase.holds = true := by
    rw [hgranted]
    rfl
  have hbegun : s.begun = s.ended := by
    refine h.begun_eq ht hholds (.inr ?_)
    rw [hkind]
    nofun
  have hepoch := h.counted.epoch_stable hbegun
  have hle := h.counted.begun_le i t ht
  obtain ⟨hticket, hpositive⟩ := h.counted.ticket i t ticket ht hkind
  rw [accepts, Bool.and_eq_true, decide_eq_true_eq, decide_eq_true_eq, hepoch, hticket]
  rw [u64Size]
  cases hreplacing : t.replacingAt with
  | true =>
    have hone := hpositive hreplacing
    rw [Bool.toNat_true]
    constructor
    · rintro ⟨heq, -⟩
      omega
    · rintro ⟨habsurd, -⟩
      cases habsurd
  | false =>
    rw [Bool.toNat_false, Nat.sub_zero]
    constructor
    · rintro ⟨heq, -⟩
      exact ⟨rfl, by omega⟩
    · rintro ⟨-, hround⟩
      omega

theorem check_step (ht : s.tasks[i]? = some t) {ticket : ℕ} (hkind : t.kind = .mutation ticket)
    (hgranted : t.phase = .granted) :
    ∃ s', coordinator.step s (.task i .check) = some s' ∧ s'.begun = s.begun ∧ s'.ended = s.ended ∧
      s'.tasks[i]? =
        some { t with phase := if s.accepts ticket = true then .guarded else .refused } := by
  have hcheck : s.taskStep i t .check =
      if s.accepts ticket = true then some (s.put i t .guarded)
      else some ((s.put i t .refused).release i) := by
    rw [State.taskStep, hkind, hgranted]
  have hstep : coordinator.step s (.task i .check) = s.taskStep i t .check := by
    show (s.tasks[i]?.bind fun t => s.taskStep i t .check) = _
    rw [ht]
    rfl
  rw [hstep, hcheck]
  split_ifs
  · exact ⟨_, rfl, rfl, rfl, Pool.getElem?_set_self ht⟩
  · exact ⟨_, rfl, rfl, rfl, Pool.getElem?_set_self ht⟩

/-! ### Whoever waits before -/

/-- A run from `s` to `s'` in which no replacement begins or ends. -/
structure Quiet (s : State) (events : List Event) (s' : State) : Prop where
  run : coordinator.runFrom s events = some s'
  quiet : ∀ i, Event.task i .enter ∉ events
  begun : s'.begun = s.begun
  ended : s'.ended = s.ended

theorem Quiet.trans {s'' : State} {events events' : List Event} (h : s.Quiet events s')
    (h' : s'.Quiet events' s'') : s.Quiet (events ++ events') s'' where
  run := by
    rw [Machine.runFrom_append, h.run]
    exact h'.run
  quiet := fun i hmem => by
    rcases List.mem_append.mp hmem with hmem | hmem
    · exact h.quiet i hmem
    · exact h'.quiet i hmem
  begun := h'.begun.trans h.begun
  ended := h'.ended.trans h.ended

theorem quiet_step {event : Event} (hstep : coordinator.step s event = some s')
    (hquiet : ∀ i, event ≠ .task i .enter) (hbegun : s'.begun = s.begun)
    (hended : s'.ended = s.ended) : s.Quiet [event] s' where
  run := by
    rw [Machine.runFrom_cons, hstep]
    rfl
  quiet := fun i hmem => hquiet i (List.mem_singleton.mp hmem).symm
  begun := hbegun
  ended := hended

/-- **The holder of the gate can give it back**, while no replacement is in progress: it is dropped,
or ends. -/
theorem Inv.gives_back (h : s.Inv) (hstable : s.begun = s.ended) :
    ∃ events s', s.Quiet events s' ∧ s'.gate.holders = [] ∧
      s'.gate.waiters = s.gate.waiters ∧ ∀ (j : ℕ) (u : Task), s.tasks[j]? = some u →
        u.phase = .waiting → s'.tasks[j]? = some u := by
  cases hholders : s.gate.holders with
  | nil =>
    exact ⟨[], s, ⟨rfl, fun _ => List.not_mem_nil, rfl, rfl⟩, hholders, rfl, fun _ _ hu _ => hu⟩
  | cons w rest =>
    have hmem : w ∈ s.gate.holders := by
      rw [hholders]
      exact List.mem_cons_self
    obtain ⟨hmode, t, ht, hholds⟩ := h.linked.holders w hmem
    have hself : (w.1, LockMode.exclusive) ∈ s.gate.holders := by
      rw [← hmode]
      exact hmem
    obtain ⟨e, hne, hstep⟩ : ∃ e, e ≠ TaskEvent.enter ∧
        s.taskStep w.1 t e = some ((s.put w.1 t .done).release w.1) := by
      cases hphase : t.phase with
      | granted => exact ⟨.drop, (by rintro ⟨⟩), by rw [State.taskStep, hphase]⟩
      | leaving =>
        exact ⟨.release, (by rintro ⟨⟩), by rw [State.taskStep, hphase]; cases t.kind <;> rfl⟩
      | guarded =>
        cases hkind : t.kind with
        | mutation ticket => exact ⟨.release, (by rintro ⟨⟩), by rw [State.taskStep, hphase, hkind]⟩
        | replacement =>
          have hprogress := h.counted.inProgress w.1 t ht hkind hphase
          omega
      | ticketed | waiting | refused | done =>
        rw [hphase] at hholds
        cases hholds
    refine ⟨[.task w.1 e], (s.put w.1 t .done).release w.1, quiet_step ?_ ?_ rfl rfl,
      FairLock.holders_release hself, rfl, ?_⟩
    · exact Option.bind_eq_some_iff.mpr ⟨t, ht, hstep⟩
    · intro i heq
      exact hne (Event.task.inj heq).2
    · intro j u hu hwaits
      have hji : w.1 ≠ j := by
        rintro rfl
        obtain rfl := Option.some.inj (ht.symm.trans hu)
        rw [hwaits] at hholds
        cases hholds
      show (s.tasks.set w.1 _)[j]? = some u
      rw [List.getElem?_set_ne hji]
      exact hu

/-- **A task that waits can be granted the gate**, while no replacement is in progress: whoever has
it gives it back, and then those before it in the queue, one after the other. -/
theorem Inv.granted (h : s.Inv) (hstable : s.begun = s.ended) {post : List (ℕ × LockMode)}
    (ht : s.tasks[i]? = some t) (pre : List (ℕ × LockMode))
    (hwaiters : s.gate.waiters = pre ++ (i, .exclusive) :: post) :
    ∃ events s', s.Quiet events s' ∧ s'.tasks[i]? = some { t with phase := .granted } := by
  induction pre generalizing s with
  | nil =>
    have hwaits : t.phase = .waiting :=
      h.linked.mem_waiters (m := .exclusive) ht (hwaiters ▸ List.mem_cons_self)
    obtain ⟨events, m, hquiet, hfree, hsame, hkept⟩ := h.gives_back hstable
    have hm := hkept i t ht hwaits
    obtain ⟨gate, hgrant, -⟩ := grant_step hfree (hsame.trans hwaiters) hm
    refine ⟨_, _, hquiet.trans (quiet_step hgrant (fun _ heq => nomatch heq) rfl rfl), ?_⟩
    exact Pool.getElem?_set_self hm
  | cons w pre ih =>
    have hmem : (i, LockMode.exclusive) ∈ s.gate.waiters := by
      rw [hwaiters]
      exact List.mem_append_right _ List.mem_cons_self
    have hfirst : w ∈ s.gate.waiters := by
      rw [hwaiters]
      exact List.mem_cons_self
    have hwaits : t.phase = .waiting := h.linked.mem_waiters ht hmem
    obtain ⟨-, u, hu, hwaits'⟩ := h.linked.waiters w hfirst
    have hwi : w.1 ≠ i := by
      intro heq
      have hnodup := h.linked.nodup
      rw [hwaiters, List.cons_append, List.map_cons, List.nodup_cons] at hnodup
      refine hnodup.1 (List.mem_map.mpr ⟨(i, .exclusive), ?_, heq.symm⟩)
      exact List.mem_append_right _ List.mem_cons_self
    obtain ⟨events, m, hquiet, hfree, hsame, hkept⟩ := h.gives_back hstable
    obtain ⟨gate, hgrant, -, hrest⟩ :=
      grant_step hfree (hsame.trans hwaiters) (hkept w.1 u hu hwaits')
    have hthen := hquiet.trans (quiet_step hgrant (fun _ heq => nomatch heq) rfl rfl)
    have hi : (m.tasks.set w.1 { u with phase := .granted })[i]? = some t := by
      rw [List.getElem?_set_ne hwi]
      exact hkept i t ht hwaits
    obtain ⟨events', s', hquiet', ht'⟩ := ih (h.runFrom hthen.run)
      (hthen.begun.trans (hstable.trans hthen.ended.symm)) hi hrest
    exact ⟨_, s', hthen.trans hquiet', ht'⟩

/-- **A new ticket gets its guard** when no replacement is in progress, and without one beginning:
whoever waits before it can be served. -/
theorem Inv.available (h : s.Inv) (hstable : s.replacing = false) :
    ∃ events s', coordinator.runFrom s (.ticket :: events) = some s' ∧
      (∀ i, Event.task i .enter ∉ events) ∧ ∃ u, s'.tasks[s.tasks.length]? = some u ∧
        u.kind = .mutation s.epoch ∧ u.phase = .guarded := by
  have hbegun : s.begun = s.ended := by
    rcases h.counted.order with heq | ⟨heq, -⟩
    · exact heq
    · rw [h.counted.replacing_iff.mpr heq] at hstable
      cases hstable
  let i := s.tasks.length
  let t : Task :=
    { kind := .mutation s.epoch, phase := .ticketed, begunAt := s.begun,
      replacingAt := s.replacing }
  have hticket : coordinator.step s .ticket = some (s.add (.mutation s.epoch) .ticketed) := rfl
  have ht : (s.add (.mutation s.epoch) .ticketed).tasks[i]? = some t := Pool.getElem?_added _ _
  have hlock : coordinator.step (s.add (.mutation s.epoch) .ticketed) (.task i .lock) =
      some { (s.add (.mutation s.epoch) .ticketed).put i t .waiting with
        gate := s.gate.request i .exclusive } :=
    Option.bind_eq_some_iff.mpr ⟨t, ht, rfl⟩
  have hstart := (quiet_step hticket nofun rfl rfl).trans (quiet_step hlock nofun rfl rfl)
  have hwaiting : ({ (s.add (.mutation s.epoch) .ticketed).put i t .waiting with
      gate := s.gate.request i .exclusive } : State).tasks[i]? =
        some { t with phase := .waiting } := Pool.getElem?_set_self ht
  obtain ⟨events, m, hquiet, hm⟩ := (h.runFrom hstart.run).granted hbegun hwaiting _ rfl
  have hall := hstart.trans hquiet
  have hinv := h.runFrom hall.run
  have haccepts : m.accepts s.epoch = true := by
    refine (hinv.accepts_iff hm rfl rfl).mpr ⟨hstable, ?_⟩
    show (m.begun - s.begun) % 2 ^ 63 = 0
    rw [hall.begun, Nat.sub_self, Nat.zero_mod]
  obtain ⟨s', hcheck, hbegun', hended', hu⟩ := check_step hm rfl rfl
  rw [if_pos haccepts] at hu
  have hfinal := hall.trans (quiet_step hcheck nofun hbegun' hended')
  exact ⟨_, s', hfinal.run, fun j hmem => hfinal.quiet j (List.mem_cons_of_mem _ hmem),
    _, hu, rfl, rfl⟩

/-! ### The protocol -/

/-- What the coordinator promises in a state. -/
structure Protocol (s : State) : Prop where
  /-- The check of `lock` succeeds if and only if no replacement was in progress when the ticket was
  taken, and those that have begun since have brought the epoch round, as none of them does. -/
  ticket : ∀ (i : ℕ) (t : Task) (ticket : ℕ), s.tasks[i]? = some t →
    t.kind = .mutation ticket → t.phase = .granted →
      ∃ s' u, coordinator.step s (.task i .check) = some s' ∧ s'.tasks[i]? = some u ∧
        (u.phase = .guarded ↔ t.replacingAt = false ∧ (s.begun - t.begunAt) % 2 ^ 63 = 0)
  /-- The guards of a mutation and of a replacement are never held at once, nor are two others. -/
  exclusive : ∀ (i j : ℕ) (t u : Task), s.tasks[i]? = some t → s.tasks[j]? = some u →
    t.phase = .guarded → u.phase = .guarded → j = i
  /-- The end of a replacement, also by a drop, leaves none in progress. -/
  ends : ∀ (i : ℕ) (s' : State), coordinator.step s (.task i .leave) = some s' →
    s'.replacing = false
  /-- What is dropped while it waits changes nothing of that. -/
  dropped : ∀ (i : ℕ) (s' : State), coordinator.step s (.task i .drop) = some s' →
    s'.replacing = s.replacing
  /-- While none is in progress, a new ticket gets its guard, whoever waits before it. -/
  available : s.replacing = false → ∃ events s',
    coordinator.runFrom s (.ticket :: events) = some s' ∧
    (∀ i, Event.task i .enter ∉ events) ∧ ∃ u, s'.tasks[s.tasks.length]? = some u ∧
      u.kind = .mutation s.epoch ∧ u.phase = .guarded

theorem holds_of_guarded (h : t.phase = .guarded) : t.phase.holds = true := by
  rw [h]
  rfl

theorem Inv.ends (h : s.Inv) (hstep : coordinator.step s (.task i .leave) = some s') :
    s'.replacing = false := by
  have hinv := h.step hstep
  obtain ⟨t, ht, hleave⟩ := Option.bind_eq_some_iff.mp hstep
  rw [State.taskStep] at hleave
  split at hleave
  · rename_i hkind hphase
    obtain rfl := Option.some.inj hleave
    have heq := h.counted.inProgress i t ht hkind hphase
    refine Bool.eq_false_iff.mpr fun hreplacing => ?_
    have hmore : s.begun = s.ended + 1 + 1 := hinv.counted.replacing_iff.mp hreplacing
    omega
  · cases hleave

/-- What is dropped while it waits leaves the count alone. -/
theorem replacing_drop (hstep : coordinator.step s (.task i .drop) = some s') :
    s'.replacing = s.replacing := by
  obtain ⟨t, ht, hdrop⟩ := Option.bind_eq_some_iff.mp hstep
  rw [State.taskStep] at hdrop
  split at hdrop
  · obtain rfl := Option.some.inj hdrop
    rfl
  · obtain rfl := Option.some.inj hdrop
    rfl
  · obtain rfl := Option.some.inj hdrop
    rfl
  · cases hdrop

end State

/-- **The protocol of the coordinator**, in every interleaving of any number of tickets, mutations
and replacements, dropped or not. -/
theorem configMutation_protocol {events : List Event} {s : State}
    (h : coordinator.run events = some s) : s.Protocol := by
  have hinv := State.inv_of_run h
  refine ⟨fun i t ticket ht hkind hgranted => ?_, fun i j t u ht hu hguarded hguarded' => ?_,
    fun i s' hstep => hinv.ends hstep, fun i s' hstep => State.replacing_drop hstep,
    hinv.available⟩
  · obtain ⟨s', hstep, -, -, hu⟩ := State.check_step ht hkind hgranted
    refine ⟨s', _, hstep, hu, ?_⟩
    rw [← hinv.accepts_iff ht hkind hgranted]
    dsimp only
    split_ifs with haccepts
    · exact ⟨fun _ => haccepts, fun _ => rfl⟩
    · exact ⟨nofun, fun h => absurd h haccepts⟩
  · exact hinv.linked.unique ht hu (State.holds_of_guarded hguarded)
      (State.holds_of_guarded hguarded')

/-- Two replacements pass, while a third one is dropped, and a ticket that was taken between them
waits for the second. -/
def passingRun : List Event :=
  [.beginReplacement, .grant, .task 0 .enter, .task 0 .leave, .task 0 .release, .ticket,
    .beginReplacement, .grant, .beginReplacement, .task 1 .lock, .task 2 .enter, .task 3 .drop,
    .task 2 .leave, .task 2 .release, .grant]

/-- The protocol holds there. -/
theorem configMutation_protocol_passingRun :
    ∃ s, coordinator.run passingRun = some s ∧ s.Protocol :=
  (Option.isSome_iff_exists.mp (by decide)).imp fun _ h => ⟨h, configMutation_protocol h⟩

/-! ### The epoch comes round -/

/-- A replacement, as the task at `i`. -/
def replacementRun (i : ℕ) : List Event :=
  [.beginReplacement, .grant, .task i .enter, .task i .leave, .task i .release]

/-- A number of replacements, one after the other, from the task at `i` on. -/
def replacementRuns (i : ℕ) : ℕ → List Event
  | 0 => []
  | k + 1 => replacementRun i ++ replacementRuns (i + 1) k

/-- The state after a replacement. -/
def State.passed (s : State) : State where
  epoch := State.fetchAdd (State.fetchAdd s.epoch)
  gate := .free
  tasks := s.tasks ++
    [{ kind := .replacement, phase := .done, begunAt := s.begun, replacingAt := s.replacing }]
  begun := s.begun + 1
  ended := s.ended + 1

theorem runFrom_replacementRun {s : State} (hfree : s.gate = .free) :
    coordinator.runFrom s (replacementRun s.tasks.length) = some s.passed := by
  obtain ⟨epoch, gate, tasks, begun, ended⟩ := s
  subst hfree
  simp [replacementRun, coordinator, State.step, State.taskStep, State.add, State.put,
    State.release, State.passed, FairLock.request, FairLock.free, FairLock.grant,
    FairLock.admits, FairLock.release, Machine.runFrom]

theorem runFrom_replacementRuns (k : ℕ) {s : State} (hfree : s.gate = .free) {t : Task} {i : ℕ}
    (ht : s.tasks[i]? = some t) :
    ∃ s', coordinator.runFrom s (replacementRuns s.tasks.length k) = some s' ∧ s'.gate = .free ∧
      s'.begun = s.begun + k ∧ s'.ended = s.ended + k ∧ s'.tasks[i]? = some t := by
  induction k generalizing s with
  | zero => exact ⟨s, rfl, hfree, rfl, rfl, ht⟩
  | succ k ih =>
    have hlength : s.passed.tasks.length = s.tasks.length + 1 := by
      rw [State.passed, List.length_append, List.length_singleton]
    obtain ⟨s', hrun, hfree', hbegun, hended, ht'⟩ :=
      ih (s := s.passed) rfl (Pool.getElem?_add_left ht)
    refine ⟨s', ?_, hfree', ?_, ?_, ht'⟩
    · rw [replacementRuns, Machine.runFrom_append, runFrom_replacementRun hfree, ← hlength]
      exact hrun
    · rw [hbegun]
      show s.begun + 1 + k = s.begun + (k + 1)
      omega
    · rw [hended]
      show s.ended + 1 + k = s.ended + (k + 1)
      omega

/-- A ticket is taken, replacements pass, and its task asks for the gate. -/
def outlivedRun (k : ℕ) : List Event :=
  .ticket :: (replacementRuns 1 k ++ [.task 0 .lock, .grant])

theorem run_outlivedRun (k : ℕ) :
    ∃ s t, coordinator.run (outlivedRun k) = some s ∧ s.tasks[0]? = some t ∧
      t.kind = .mutation 0 ∧ t.phase = .granted ∧ t.replacingAt = false ∧ t.begunAt = 0 ∧
      s.begun = k := by
  let t : Task := { kind := .mutation 0, phase := .ticketed, begunAt := 0, replacingAt := false }
  have hstart : (State.init.add (.mutation 0) .ticketed).tasks[0]? = some t := rfl
  obtain ⟨m, hrun, hfree, hbegun, -, ht⟩ :=
    runFrom_replacementRuns k (s := State.init.add (.mutation 0) .ticketed) rfl hstart
  rw [show (State.init.add (.mutation 0) .ticketed).begun = 0 from rfl, Nat.zero_add] at hbegun
  rw [show (State.init.add (.mutation 0) .ticketed).tasks.length = 1 from rfl] at hrun
  let m' : State := { m.put 0 t .waiting with gate := m.gate.request 0 .exclusive }
  have hlock : coordinator.step m (.task 0 .lock) = some m' :=
    Option.bind_eq_some_iff.mpr ⟨t, ht, rfl⟩
  have hwaiting : m'.tasks[0]? = some { t with phase := .waiting } := Pool.getElem?_set_self ht
  have hgate : m'.gate = FairLock.free.request 0 .exclusive := by
    show m.gate.request 0 .exclusive = _
    rw [hfree]
  have hwaiters : m'.gate.waiters = (0, .exclusive) :: [] := by
    rw [hgate]
    rfl
  obtain ⟨gate, hgrant, -⟩ := State.grant_step (by rw [hgate]; rfl) hwaiters hwaiting
  refine ⟨{ m'.put 0 { t with phase := .waiting } .granted with gate := gate }, _, ?_,
    Pool.getElem?_set_self hwaiting, rfl, rfl, rfl, rfl, hbegun⟩
  show coordinator.runFrom (State.init.add (.mutation 0) .ticketed) _ = _
  rw [Machine.runFrom_append, hrun, Option.bind_some, Machine.runFrom_cons, hlock,
    Option.bind_some, Machine.runFrom_cons, hgrant]
  rfl

/-- **The epoch comes round**: after 2^63 replacements an old ticket is accepted. -/
theorem configMutation_round :
    ∃ s t, coordinator.run (outlivedRun (2 ^ 63)) = some s ∧ s.tasks[0]? = some t ∧
      t.kind = .mutation 0 ∧ t.phase = .granted ∧ t.replacingAt = false ∧ t.begunAt = 0 ∧
      s.begun = 2 ^ 63 ∧ ∃ s' u, coordinator.step s (.task 0 .check) = some s' ∧
        s'.tasks[0]? = some u ∧ u.phase = .guarded := by
  obtain ⟨s, t, hrun, ht, hkind, hgranted, hreplacing, hbegunAt, hbegun⟩ := run_outlivedRun (2 ^ 63)
  refine ⟨s, t, hrun, ht, hkind, hgranted, hreplacing, hbegunAt, hbegun, ?_⟩
  have hround : (s.begun - t.begunAt) % 2 ^ 63 = 0 := by
    rw [hbegun, hbegunAt, Nat.sub_zero, Nat.mod_self]
  have haccepts := ((State.inv_of_run hrun).accepts_iff ht hkind hgranted).mpr ⟨hreplacing, hround⟩
  obtain ⟨s', hstep, -, -, hu⟩ := State.check_step ht hkind hgranted
  exact ⟨s', _, hstep, hu, by rw [if_pos haccepts]⟩

end Coordinator
end ConfigMutation
end HelmSsh
