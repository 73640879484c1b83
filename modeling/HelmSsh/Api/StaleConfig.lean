/-
# A connection with the configuration of before

A sweep closes the connections that are registered, and it waits for one that is being dialed.  It
does not wait for a request that has read the configuration and not asked for the connection lock
yet: that one dials afterwards, with what it has read, and until it compares with the vault again
its connection is there for everybody (`stale_connection_used`).

While that does not happen (`Current`), a connection with a configuration of before a change is one
that the change is about to close (`Fresh.step`), so that no request uses it that began when the
command was back (`never_stale_of_run`).
-/

import HelmSsh.Api.ConnectionConfig

namespace HelmSsh
namespace Api
namespace Dial

open Config Vault

/-! ### The condition -/

/-- A change that the configuration had not seen concerns the session. -/
def State.changedSince (s : State) (readAt : ℕ) (session : String) : Bool :=
  (s.changes.drop readAt).any fun change => concerns change.scope session

/-- The request at `i` dials when it gets the connection lock, with a configuration of before a
change. -/
def State.dialsStale (s : State) (i : ℕ) (found : Option ℕ) : Bool :=
  match s.tasks[i]? with
  | some (.request session _ (.connecting _ readAt)) =>
    (found.bind (s.find session)).all (fun c => c.closed) && s.changedSince readAt session
  | _ => false

/-- A request that gets the connection lock and dials has read the configuration after every change
of it. -/
def Current (s : State) : Event → Prop
  | .request i (.acquire found) => s.dialsStale i found = false
  | _ => True

instance (s : State) (event : Event) : Decidable (Current s event) := by
  cases event with
  | request i e => cases e <;> unfold Current <;> infer_instance
  | _ => unfold Current; infer_instance

/-! ### The invariant -/

variable {s s' : State} {i : ℕ}

/-- The command at `j` is about to close the connection of that id: it has not collected the
connections yet, or the connection is one of them. -/
def State.Closes (s : State) (j id : ℕ) : Prop :=
  ∃ c, s.tasks[j]? = some (.command c .written) ∨
    ∃ ids, s.tasks[j]? = some (.command c (.closing ids)) ∧ id ∈ ids

/-- A connection with a configuration of before a change is about to be closed; a request that dials
with one is waited for; and the commands that a request knows as returned have returned. -/
structure Fresh (s : State) : Prop where
  connections : ∀ c ∈ s.connections, c.readAt ≤ s.changes.length ∧
    ∀ change ∈ s.changes.drop c.readAt, concerns change.scope c.session = true →
      s.Closes change.command c.id
  dialing : ∀ (i : ℕ) (session : String) (before : List ℕ) (config : SessionConfig) (readAt : ℕ),
    s.tasks[i]? = some (.request session before (.dialing config readAt)) →
      ∀ change ∈ s.changes.drop readAt, concerns change.scope session = true →
        ∃ c, s.tasks[change.command]? = some (.command c .written)
  readAt : ∀ (i : ℕ) (session : String) (before : List ℕ) (config : SessionConfig) (readAt : ℕ),
    s.tasks[i]? = some (.request session before (.dialing config readAt)) ∨
      s.tasks[i]? = some (.request session before (.connecting config readAt)) →
      readAt ≤ s.changes.length
  scopes : ∀ change ∈ s.changes, ∃ c phase,
    s.tasks[change.command]? = some (.command c phase) ∧ change.scope = c.scope
  before : ∀ (i : ℕ) (session : String) (before : List ℕ) (phase : RequestPhase),
    s.tasks[i]? = some (.request session before phase) →
      ∀ j ∈ before, ∃ c, s.tasks[j]? = some (.command c .done)

variable {c : Command}

theorem Fresh.scope (h : Fresh s) {change : Change} (hchange : change ∈ s.changes)
    {phase : CommandPhase} (ht : s.tasks[change.command]? = some (.command c phase)) :
    change.scope = c.scope := by
  obtain ⟨own, other, hown, hscope⟩ := h.scopes change hchange
  obtain ⟨rfl, -⟩ := Task.command.inj (Option.some.inj (ht.symm.trans hown))
  exact hscope

theorem command_set {session : String} {before : List ℕ} {phase phase' : RequestPhase}
    (ht : s.tasks[i]? = some (.request session before phase)) (j : ℕ) (c : Command)
    (commandPhase : CommandPhase) :
    (s.tasks.set i (.request session before phase'))[j]? = some (.command c commandPhase) ↔
      s.tasks[j]? = some (.command c commandPhase) := by
  by_cases hij : i = j
  · subst hij
    rw [Pool.getElem?_set_self ht, ht]
    exact ⟨fun h => absurd (Option.some.inj h) nofun, fun h => absurd (Option.some.inj h) nofun⟩
  · rw [List.getElem?_set_ne hij]

/-- A connection that is about to be closed still is, when the commands are the same. -/
theorem closes_of_commands {j id : ℕ}
    (hcommand : ∀ c phase, s.tasks[j]? = some (.command c phase) →
      s'.tasks[j]? = some (.command c phase)) (h : s.Closes j id) : s'.Closes j id := by
  obtain ⟨c, hwritten | ⟨ids, hclosing, hmem⟩⟩ := h
  · exact ⟨c, .inl (hcommand _ _ hwritten)⟩
  · exact ⟨c, .inr ⟨ids, hcommand _ _ hclosing, hmem⟩⟩

/-- A request that dials with what it has read is waited for by every change since. -/
def State.Awaited (s : State) (readAt : ℕ) (session : String) : Prop :=
  readAt ≤ s.changes.length ∧
    ∀ change ∈ s.changes.drop readAt, concerns change.scope session = true →
      ∃ c, s.tasks[change.command]? = some (.command c .written)

/-- **A request goes on.** -/
theorem Fresh.request (h : Fresh s) {session : String} {before : List ℕ}
    {phase phase' : RequestPhase} (ht : s.tasks[i]? = some (.request session before phase))
    (htasks : s'.tasks = s.tasks.set i (.request session before phase'))
    (hchanges : s'.changes = s.changes)
    (hconnections : ∀ c ∈ s'.connections, c ∈ s.connections ∨ s.Awaited c.readAt c.session)
    (hconnecting : ∀ config readAt, phase' = .connecting config readAt →
      readAt ≤ s.changes.length)
    (hdialing : ∀ config readAt, phase' = .dialing config readAt → s.Awaited readAt session) :
    Fresh s' := by
  have hcommand : ∀ (j : ℕ) (c : Command) (commandPhase : CommandPhase),
      s'.tasks[j]? = some (.command c commandPhase) ↔
        s.tasks[j]? = some (.command c commandPhase) := by
    rw [htasks]
    exact command_set ht
  have hold : ∀ {k : ℕ} {own : String} {known : List ℕ} {other : RequestPhase},
      s'.tasks[k]? = some (.request own known other) →
      (own = session ∧ known = before ∧ other = phase') ∨
        s.tasks[k]? = some (.request own known other) := by
    intro k own known other hk
    rw [htasks] at hk
    rcases Pool.getElem?_set hk with ⟨-, heq⟩ | ⟨-, hk⟩
    · obtain ⟨rfl, rfl, rfl⟩ := Task.request.inj heq
      exact .inl ⟨rfl, rfl, rfl⟩
    · exact .inr hk
  refine ⟨fun c hc => ?_, fun k own known config readAt hk change hchange hconcerns => ?_,
    fun k own known config readAt hk => ?_, fun change hchange => ?_,
    fun k own known other hk j hj => ?_⟩
  · rw [hchanges]
    rcases hconnections c hc with hc | ⟨hreadAt, hawaited⟩
    · obtain ⟨hreadAt, hcloses⟩ := h.connections c hc
      refine ⟨hreadAt, fun change hchange hconcerns => ?_⟩
      exact closes_of_commands (fun c phase => (hcommand _ c phase).mpr)
        (hcloses change hchange hconcerns)
    · refine ⟨hreadAt, fun change hchange hconcerns => ?_⟩
      obtain ⟨c, hwritten⟩ := hawaited change hchange hconcerns
      exact ⟨c, .inl ((hcommand _ _ _).mpr hwritten)⟩
  · rw [hchanges] at hchange
    simp only [hcommand]
    rcases hold hk with ⟨rfl, rfl, hphase⟩ | hk
    · exact (hdialing config readAt hphase.symm).2 change hchange hconcerns
    · exact h.dialing k own known config readAt hk change hchange hconcerns
  · rw [hchanges]
    rcases hk with hk | hk <;> rcases hold hk with ⟨-, -, hphase⟩ | hk
    · exact (hdialing config readAt hphase.symm).1
    · exact h.readAt k own known config readAt (.inl hk)
    · exact hconnecting config readAt hphase.symm
    · exact h.readAt k own known config readAt (.inr hk)
  · obtain ⟨c, other, hc, hscope⟩ := h.scopes change (hchanges ▸ hchange)
    exact ⟨c, other, (hcommand _ _ _).mpr hc, hscope⟩
  · simp only [hcommand]
    rcases hold hk with ⟨rfl, rfl, -⟩ | hk
    · exact h.before i _ _ phase ht j hj
    · exact h.before k own known other hk j hj

/-- A request goes on without a look at the connections. -/
theorem Fresh.put (h : Fresh s) {session : String} {before : List ℕ}
    {phase phase' : RequestPhase} (ht : s.tasks[i]? = some (.request session before phase))
    (hconnecting : ∀ config readAt, phase' ≠ .connecting config readAt)
    (hdialing : ∀ config readAt, phase' ≠ .dialing config readAt) :
    Fresh (s.put i (.request session before phase')) :=
  h.request ht rfl rfl (fun _ hc => .inl hc) (fun _ _ heq => absurd heq (hconnecting _ _))
    fun _ _ heq => absurd heq (hdialing _ _)

theorem Fresh.remove (h : Fresh s) (id : ℕ) : Fresh (s.remove id) :=
  ⟨fun c hc => h.connections c (List.mem_of_mem_filter hc), h.dialing, h.readAt, h.scopes, h.before⟩

theorem Fresh.requestStep (h : Fresh s) {session : String} {before : List ℕ}
    {phase : RequestPhase} {e : RequestEvent}
    (ht : s.tasks[i]? = some (.request session before phase)) (hok : Current s (.request i e))
    (hstep : s.requestStep i session before phase e = some s') : Fresh s' := by
  have hput : ∀ phase', (∀ config readAt, phase' ≠ .connecting config readAt) →
      (∀ config readAt, phase' ≠ .dialing config readAt) →
      Fresh (s.put i (.request session before phase')) :=
    fun phase' => h.put ht
  have hdone : Fresh (s.put i (.request session before .done)) :=
    hput _ (fun _ _ heq => nomatch heq) fun _ _ heq => nomatch heq
  cases e with
  | refuse =>
    simp only [State.requestStep] at hstep
    split at hstep <;> first
      | obtain rfl := Option.some.inj hstep
        exact hput _ (fun _ _ heq => nomatch heq) fun _ _ heq => nomatch heq
      | cases hstep
  | status =>
    simp only [State.requestStep] at hstep
    split at hstep
    · split_ifs at hstep <;>
      · obtain rfl := Option.some.inj hstep
        exact hput _ (fun _ _ heq => nomatch heq) fun _ _ heq => nomatch heq
    · cases hstep
  | skipStatus =>
    simp only [State.requestStep] at hstep
    split at hstep
    · obtain rfl := Option.some.inj hstep
      exact hput _ (fun _ _ heq => nomatch heq) fun _ _ heq => nomatch heq
    · cases hstep
  | read =>
    simp only [State.requestStep] at hstep
    split at hstep
    · split_ifs at hstep
      split at hstep
      · obtain rfl := Option.some.inj hstep
        refine h.request ht rfl rfl (fun _ hc => .inl hc) (fun config readAt heq => ?_)
          fun config readAt heq => nomatch heq
        obtain ⟨-, rfl⟩ := RequestPhase.connecting.inj heq
        exact Nat.le_refl _
      · obtain rfl := Option.some.inj hstep
        exact hdone
    · cases hstep
  | acquire found =>
    simp only [State.requestStep] at hstep
    split at hstep
    · rename_i config readAt
      rw [Option.ite_none_right_eq_some] at hstep
      obtain ⟨-, hstep⟩ := hstep
      have hreadAt := h.readAt i session before config readAt (.inr ht)
      have hdial : (found.bind (s.find session)).all (fun c => c.closed) = true →
          Fresh (s.put i (.request session before (.dialing config readAt))) := by
        intro hdials
        rw [Current, State.dialsStale, ht] at hok
        dsimp only at hok
        rw [hdials, Bool.true_and] at hok
        refine h.request ht rfl rfl (fun _ hc => .inl hc) (fun _ _ heq => nomatch heq)
          fun config' readAt' heq => ?_
        obtain ⟨-, rfl⟩ := RequestPhase.dialing.inj heq
        refine ⟨hreadAt, fun change hchange hconcerns => ?_⟩
        exact absurd hconcerns (List.any_eq_false.mp hok change hchange)
      split at hstep
      · rw [Option.ite_none_left_eq_some] at hstep
        obtain rfl := Option.some.inj hstep.2
        exact hdial rfl
      · rename_i id
        obtain ⟨c, hfind, rfl⟩ := Option.map_eq_some_iff.mp hstep
        split_ifs with hclosed
        · refine (hdial ?_).remove id
          rw [Option.bind_some, hfind]
          exact hclosed
        · exact hput _ (fun _ _ heq => nomatch heq) fun _ _ heq => nomatch heq
    · cases hstep
  | dialed succeeded =>
    simp only [State.requestStep] at hstep
    split at hstep
    · rename_i config readAt
      split_ifs at hstep
      · obtain rfl := Option.some.inj hstep
        refine h.request ht rfl rfl (fun c hc => ?_) (fun _ _ heq => nomatch heq)
          fun _ _ heq => nomatch heq
        rcases List.mem_append.mp hc with hold | hnew
        · exact .inl hold
        · obtain rfl := List.mem_singleton.mp hnew
          exact .inr ⟨h.readAt i session before config readAt (.inl ht),
            h.dialing i session before config readAt ht⟩
      · obtain rfl := Option.some.inj hstep
        exact hdone
    · cases hstep
  | validate =>
    simp only [State.requestStep] at hstep
    split at hstep
    · split at hstep <;>
      · obtain rfl := Option.some.inj hstep
        exact hput _ (fun _ _ heq => nomatch heq) fun _ _ heq => nomatch heq
    · cases hstep
  | look found =>
    simp only [State.requestStep] at hstep
    split at hstep
    · split at hstep
      · obtain rfl := Option.some.inj hstep
        exact hdone
      · obtain ⟨_, -, rfl⟩ := Option.map_eq_some_iff.mp hstep
        exact hput _ (fun _ _ heq => nomatch heq) fun _ _ heq => nomatch heq
    · cases hstep
  | remove =>
    simp only [State.requestStep] at hstep
    split at hstep
    · rename_i id
      obtain rfl := Option.some.inj hstep
      exact hdone.remove id
    · cases hstep
  | use id =>
    simp only [State.requestStep] at hstep
    split at hstep
    · obtain ⟨c, -, hstep⟩ := Option.bind_eq_some_iff.mp hstep
      split_ifs at hstep
      obtain rfl := Option.some.inj hstep
      exact ⟨h.connections, h.dialing, h.readAt, h.scopes, h.before⟩
    · cases hstep

/-- In its phase a command is about to close the connection of that id. -/
def CommandPhase.closes (id : ℕ) : CommandPhase → Prop
  | .written => True
  | .closing ids => id ∈ ids
  | _ => False

/-- A command is about to close a connection when its phase says so. -/
theorem closes_iff {phase : CommandPhase} {id : ℕ}
    (ht : s.tasks[i]? = some (.command c phase)) : s.Closes i id ↔ phase.closes id := by
  constructor
  · rintro ⟨own, hwritten | ⟨ids, hclosing, hmem⟩⟩
    · obtain ⟨-, rfl⟩ := Task.command.inj (Option.some.inj (ht.symm.trans hwritten))
      trivial
    · obtain ⟨-, rfl⟩ := Task.command.inj (Option.some.inj (ht.symm.trans hclosing))
      exact hmem
  · intro hphase
    cases phase with
    | written => exact ⟨c, .inl ht⟩
    | closing ids => exact ⟨c, .inr ⟨ids, ht, hphase⟩⟩
    | begun | done => exact hphase.elim

theorem request_other {phase' : CommandPhase} {k : ℕ} {session : String}
    {before : List ℕ} {phase : RequestPhase}
    (h : (s.tasks.set i (.command c phase'))[k]? = some (.request session before phase)) :
    s.tasks[k]? = some (.request session before phase) := by
  rcases Pool.getElem?_set h with ⟨-, heq⟩ | ⟨-, hold⟩
  · cases heq
  · exact hold

/-- **A command goes on**, and closes what it was about to close. -/
theorem Fresh.command (h : Fresh s) {phase phase' : CommandPhase}
    (ht : s.tasks[i]? = some (.command c phase))
    (htasks : s'.tasks = s.tasks.set i (.command c phase')) (hchanges : s'.changes = s.changes)
    (hconnections : ∀ k ∈ s'.connections, k ∈ s.connections ∧
      (concerns c.scope k.session = true → phase.closes k.id → phase'.closes k.id))
    (hdialing : phase = .written → ∀ (k : ℕ) (session : String) (before : List ℕ)
      (config : SessionConfig) (readAt : ℕ),
      s.tasks[k]? = some (.request session before (.dialing config readAt)) →
        concerns c.scope session = false) (hnotDone : phase ≠ .done) : Fresh s' := by
  have hself : s'.tasks[i]? = some (.command c phase') := by
    rw [htasks]
    exact Pool.getElem?_set_self ht
  have hother : ∀ j, j ≠ i → s'.tasks[j]? = s.tasks[j]? := by
    intro j hne
    rw [htasks, List.getElem?_set_ne (Ne.symm hne)]
  have hrequest : ∀ {k : ℕ} {session : String} {before : List ℕ} {phase : RequestPhase},
      s'.tasks[k]? = some (.request session before phase) →
        s.tasks[k]? = some (.request session before phase) := by
    rw [htasks]
    exact request_other
  refine ⟨fun k hk => ?_, fun k session before config readAt hk change hchange hconcerns => ?_,
    fun k session before config readAt hk => ?_, fun change hchange => ?_,
    fun k session before other hk j hj => ?_⟩
  · rw [hchanges]
    obtain ⟨hold, hcloses⟩ := hconnections k hk
    obtain ⟨hreadAt, hall⟩ := h.connections k hold
    refine ⟨hreadAt, fun change hchange hconcerns => ?_⟩
    have hbefore := hall change hchange hconcerns
    by_cases hji : change.command = i
    · have hscope := h.scope (List.mem_of_mem_drop hchange) (hji ▸ ht)
      rw [hji] at hbefore ⊢
      rw [hscope] at hconcerns
      exact (closes_iff hself).mpr (hcloses hconcerns ((closes_iff ht).mp hbefore))
    · exact closes_of_commands (fun own other => (hother _ hji).trans) hbefore
  · rw [hchanges] at hchange
    have hold := hrequest hk
    obtain ⟨own, hwritten⟩ := h.dialing k session before config readAt hold change hchange hconcerns
    by_cases hji : change.command = i
    · rw [hji] at hwritten
      obtain ⟨-, rfl⟩ := Task.command.inj (Option.some.inj (ht.symm.trans hwritten))
      have hscope := h.scope (List.mem_of_mem_drop hchange) (hji ▸ ht)
      rw [hscope, hdialing rfl k session before config readAt hold] at hconcerns
      cases hconcerns
    · exact ⟨own, (hother _ hji).trans hwritten⟩
  · rw [hchanges]
    exact h.readAt k session before config readAt (hk.imp hrequest hrequest)
  · rw [hchanges] at hchange
    obtain ⟨own, other, hown, hscope⟩ := h.scopes change hchange
    by_cases hji : change.command = i
    · exact ⟨c, phase', hji ▸ hself, h.scope hchange (hji ▸ ht)⟩
    · exact ⟨own, other, (hother _ hji).trans hown, hscope⟩
  · obtain ⟨own, hdone⟩ := h.before k session before other (hrequest hk) j hj
    refine ⟨own, (hother j ?_).trans hdone⟩
    rintro rfl
    obtain ⟨-, rfl⟩ := Task.command.inj (Option.some.inj (ht.symm.trans hdone))
    exact hnotDone rfl

theorem mem_drop_append {changes : List Change} {change new : Change} {readAt : ℕ}
    (hreadAt : readAt ≤ changes.length) (h : change ∈ (changes ++ [new]).drop readAt) :
    change ∈ changes.drop readAt ∨ change = new := by
  rw [List.drop_append_of_le_length hreadAt, List.mem_append, List.mem_singleton] at h
  exact h

/-- **A command writes the vault**, and is about to close the connections it concerns. -/
theorem Fresh.write (h : Fresh s) {data : VaultData} (ht : s.tasks[i]? = some (.command c .begun)) :
    Fresh { s.put i (.command c .written) with
      data := data
      changes := s.changes ++ [{ command := i, scope := c.scope }] } := by
  have hself : (s.tasks.set i (.command c .written))[i]? = some (.command c .written) :=
    Pool.getElem?_set_self ht
  have hother : ∀ {j : ℕ} {own : Command} {other : CommandPhase}, other ≠ .begun →
      s.tasks[j]? = some (.command own other) →
      (s.tasks.set i (.command c .written))[j]? = some (.command own other) := by
    intro j own other hother hj
    refine (List.getElem?_set_ne ?_).trans hj
    rintro rfl
    obtain ⟨-, rfl⟩ := Task.command.inj (Option.some.inj (ht.symm.trans hj))
    exact hother rfl
  have hrequest : ∀ {k : ℕ} {session : String} {before : List ℕ} {phase : RequestPhase},
      (s.tasks.set i (.command c .written))[k]? = some (.request session before phase) →
      s.tasks[k]? = some (.request session before phase) :=
    fun hk => request_other hk
  have hlength : s.changes.length ≤ (s.changes ++ [Change.mk i c.scope]).length := by
    rw [List.length_append]
    omega
  refine ⟨fun k hk => ?_, fun k session before config readAt hk change hchange hconcerns => ?_,
    fun k session before config readAt hk => ?_, fun change hchange => ?_,
    fun k session before other hk j hj => ?_⟩
  · obtain ⟨hreadAt, hall⟩ := h.connections k hk
    refine ⟨hreadAt.trans hlength, fun change hchange hconcerns => ?_⟩
    rcases mem_drop_append hreadAt hchange with hold | rfl
    · obtain ⟨own, hwritten | ⟨ids, hclosing, hmem⟩⟩ := hall change hold hconcerns
      · exact ⟨own, .inl (hother nofun hwritten)⟩
      · exact ⟨own, .inr ⟨ids, hother nofun hclosing, hmem⟩⟩
    · exact ⟨c, .inl hself⟩
  · have hold := hrequest hk
    have hreadAt := h.readAt k session before config readAt (.inl hold)
    rcases mem_drop_append hreadAt hchange with hchange | rfl
    · obtain ⟨own, hwritten⟩ := h.dialing k session before config readAt hold change hchange
        hconcerns
      exact ⟨own, hother nofun hwritten⟩
    · exact ⟨c, hself⟩
  · exact (h.readAt k session before config readAt (hk.imp hrequest hrequest)).trans hlength
  · rcases List.mem_append.mp hchange with hold | hnew
    · obtain ⟨own, other, hown, hscope⟩ := h.scopes change hold
      by_cases hbegun : other = .begun
      · by_cases hji : change.command = i
        · exact ⟨c, .written, hji ▸ hself, h.scope hold (hji ▸ ht)⟩
        · refine ⟨own, other, ?_, hscope⟩
          exact (List.getElem?_set_ne (Ne.symm hji)).trans hown
      · exact ⟨own, other, hother hbegun hown, hscope⟩
    · rw [List.mem_singleton.mp hnew]
      exact ⟨c, .written, hself, rfl⟩
  · obtain ⟨own, hdone⟩ := h.before k session before other (hrequest hk) j hj
    exact ⟨own, hother nofun hdone⟩

theorem Fresh.commandStep (h : Fresh s) {phase : CommandPhase} {e : CommandEvent}
    (ht : s.tasks[i]? = some (.command c phase))
    (hstep : s.commandStep i c phase e = some s') : Fresh s' := by
  cases e with
  | write env accepted =>
    simp only [State.commandStep] at hstep
    split at hstep
    · rw [Option.ite_none_right_eq_some] at hstep
      obtain ⟨-, hstep⟩ := hstep
      have hreturns : ∀ data, Fresh { s.put i (.command c .done) with data := data } := fun data =>
        h.command ht rfl rfl (fun k hk => ⟨hk, fun _ hcloses => hcloses.elim⟩)
          (fun heq => nomatch heq) fun heq => nomatch heq
      split at hstep
      · split_ifs at hstep
        · obtain rfl := Option.some.inj hstep
          exact h.write ht
        · obtain rfl := Option.some.inj hstep
          exact hreturns _
      · obtain rfl := Option.some.inj hstep
        exact hreturns _
    · cases hstep
  | collect =>
    simp only [State.commandStep] at hstep
    split at hstep
    · rw [Option.ite_none_right_eq_some] at hstep
      obtain ⟨hwaits, hstep⟩ := hstep
      obtain rfl := Option.some.inj hstep
      refine h.command ht rfl rfl (fun k hk => ⟨hk, fun hconcerns _ => ?_⟩)
        (fun _ k session before config readAt hk => ?_) fun heq => nomatch heq
      · exact List.mem_map_of_mem (List.mem_filter.mpr ⟨hk, hconcerns⟩)
      · have hfree := List.all_eq_true.mp hwaits _ (List.mem_of_getElem? hk)
        exact Bool.not_eq_true' _ |>.mp hfree
    · cases hstep
  | close =>
    simp only [State.commandStep] at hstep
    split at hstep
    · rename_i id ids
      obtain rfl := Option.some.inj hstep
      refine h.command ht rfl rfl (fun k hk => ?_) (fun heq => nomatch heq) fun heq => nomatch heq
      obtain ⟨hold, hne⟩ := List.mem_filter.mp hk
      refine ⟨hold, fun _ hcloses => ?_⟩
      exact (List.mem_cons.mp hcloses).resolve_left (of_decide_eq_true hne)
    · cases hstep
  | finish =>
    simp only [State.commandStep] at hstep
    split at hstep
    · obtain rfl := Option.some.inj hstep
      refine h.command ht rfl rfl (fun k hk => ⟨hk, fun _ hcloses => ?_⟩) (fun heq => nomatch heq)
        fun heq => nomatch heq
      exact absurd hcloses List.not_mem_nil
    · cases hstep

/-- A new task; a request knows the commands that have returned. -/
theorem Fresh.begin (h : Fresh s) {t : Task}
    (hrequest : ∀ session before phase, t = .request session before phase →
      phase = .accepted ∧ ∀ j ∈ before, ∃ c, s.tasks[j]? = some (.command c .done)) :
    Fresh { s with tasks := s.tasks ++ [t] } := by
  have hold : ∀ {j : ℕ} {u : Task}, s.tasks[j]? = some u → (s.tasks ++ [t])[j]? = some u :=
    fun hj => Pool.getElem?_add_left hj
  refine ⟨fun k hk => ?_, fun k session before config readAt hk change hchange hconcerns => ?_,
    fun k session before config readAt hk => ?_, fun change hchange => ?_,
    fun k session before other hk j hj => ?_⟩
  · obtain ⟨hreadAt, hall⟩ := h.connections k hk
    exact ⟨hreadAt, fun change hchange hconcerns =>
      closes_of_commands (fun _ _ => hold) (hall change hchange hconcerns)⟩
  · rcases Pool.getElem?_add hk with ⟨-, heq⟩ | hk
    · cases (hrequest _ _ _ heq.symm).1
    · obtain ⟨own, hwritten⟩ := h.dialing k session before config readAt hk change hchange hconcerns
      exact ⟨own, hold hwritten⟩
  · rcases hk with hk | hk <;> rcases Pool.getElem?_add hk with ⟨-, heq⟩ | hk
    · cases (hrequest _ _ _ heq.symm).1
    · exact h.readAt k session before config readAt (.inl hk)
    · cases (hrequest _ _ _ heq.symm).1
    · exact h.readAt k session before config readAt (.inr hk)
  · obtain ⟨own, other, hown, hscope⟩ := h.scopes change hchange
    exact ⟨own, other, hold hown, hscope⟩
  · rcases Pool.getElem?_add hk with ⟨-, heq⟩ | hk
    · obtain ⟨c, hdone⟩ := (hrequest _ _ _ heq.symm).2 j hj
      exact ⟨c, hold hdone⟩
    · obtain ⟨c, hdone⟩ := h.before k session before other hk j hj
      exact ⟨c, hold hdone⟩

/-- The commands that a request knows as returned have returned. -/
theorem returned_done {j : ℕ} (hj : j ∈ s.returned) :
    ∃ c, s.tasks[j]? = some (.command c .done) := by
  obtain ⟨-, hreturned⟩ := List.mem_filter.mp hj
  obtain ⟨t, ht, hdone⟩ := (Option.any_eq_true _ _).mp hreturned
  cases t with
  | request => cases hdone
  | command c phase =>
    cases phase with
    | done => exact ⟨c, ht⟩
    | _ => cases hdone

/-- **Every step keeps the invariant**, under the condition. -/
theorem Fresh.step {event : Event} (h : Fresh s) (hok : Current s event)
    (hstep : s.step event = some s') : Fresh s' := by
  cases event with
  | beginRequest session =>
    obtain rfl := Option.some.inj hstep
    refine h.begin fun own before phase heq => ?_
    obtain ⟨-, rfl, rfl⟩ := Task.request.inj heq
    exact ⟨rfl, fun j => returned_done⟩
  | beginCommand c =>
    obtain rfl := Option.some.inj hstep
    exact h.begin fun own before phase heq => nomatch heq
  | request i e =>
    simp only [State.step] at hstep
    split at hstep
    · rename_i session before phase ht
      exact h.requestStep ht hok hstep
    · cases hstep
  | command i e =>
    simp only [State.step] at hstep
    split at hstep
    · rename_i c phase ht
      exact h.commandStep ht hstep
    · cases hstep
  | store data =>
    obtain rfl := Option.some.inj hstep
    exact ⟨h.connections, h.dialing, h.readAt, h.scopes, h.before⟩
  | die id =>
    obtain rfl := Option.some.inj hstep
    refine ⟨fun c hc => ?_, h.dialing, h.readAt, h.scopes, h.before⟩
    obtain ⟨k, hk, rfl⟩ := List.mem_map.mp hc
    have hold := h.connections k hk
    split_ifs <;> exact hold
  | drop id =>
    obtain rfl := Option.some.inj hstep
    exact h.remove id

theorem fresh_init (data : VaultData) : Fresh (.init data) := by
  have hnone : ∀ (i : ℕ) (t : Task), (State.init data).tasks[i]? ≠ some t := by
    intro i t ht
    rw [State.init, List.getElem?_nil] at ht
    cases ht
  refine ⟨fun c hc => absurd hc List.not_mem_nil, fun i _ _ _ _ ht => absurd ht (hnone i _),
    fun i _ _ _ _ ht => ?_, fun _ hchange => absurd hchange List.not_mem_nil,
    fun i _ _ _ ht => absurd ht (hnone i _)⟩
  rcases ht with ht | ht <;> exact absurd ht (hnone i _)

/-! ### The uses -/

/-- What a step of a request does to the tasks, the changes and the uses. -/
theorem requestStep_frame {session : String} {before : List ℕ} {phase : RequestPhase}
    {e : RequestEvent} (hstep : s.requestStep i session before phase e = some s') :
    s'.changes = s.changes ∧
      ((∃ phase', s'.tasks = s.tasks.set i (.request session before phase') ∧ s'.uses = s.uses) ∨
        s'.tasks = s.tasks ∧
          ∃ id c, s.find session id = some c ∧ s'.uses = s.uses ++ [(i, c)]) := by
  have hput : ∀ phase', (s.put i (.request session before phase')).changes = s.changes ∧
      ((∃ phase'', (s.put i (.request session before phase')).tasks =
          s.tasks.set i (.request session before phase'') ∧
        (s.put i (.request session before phase')).uses = s.uses) ∨
        (s.put i (.request session before phase')).tasks = s.tasks ∧
          ∃ id c, s.find session id = some c ∧
            (s.put i (.request session before phase')).uses = s.uses ++ [(i, c)]) :=
    fun phase' => ⟨rfl, .inl ⟨phase', rfl, rfl⟩⟩
  cases e with
  | refuse | status | skipStatus =>
    simp only [State.requestStep] at hstep
    split at hstep <;> try split_ifs at hstep
    all_goals first
      | obtain rfl := Option.some.inj hstep
        exact hput _
      | cases hstep
  | read =>
    simp only [State.requestStep] at hstep
    split at hstep
    · split_ifs at hstep
      split at hstep <;>
      · obtain rfl := Option.some.inj hstep
        exact hput _
    · cases hstep
  | acquire found =>
    simp only [State.requestStep] at hstep
    split at hstep
    · rw [Option.ite_none_right_eq_some] at hstep
      obtain ⟨-, hstep⟩ := hstep
      split at hstep
      · rw [Option.ite_none_left_eq_some] at hstep
        obtain rfl := Option.some.inj hstep.2
        exact hput _
      · obtain ⟨c, -, rfl⟩ := Option.map_eq_some_iff.mp hstep
        split_ifs
        · exact ⟨rfl, .inl ⟨_, rfl, rfl⟩⟩
        · exact hput _
    · cases hstep
  | dialed succeeded =>
    simp only [State.requestStep] at hstep
    split at hstep
    · split_ifs at hstep <;>
      · obtain rfl := Option.some.inj hstep
        exact ⟨rfl, .inl ⟨_, rfl, rfl⟩⟩
    · cases hstep
  | validate =>
    simp only [State.requestStep] at hstep
    split at hstep
    · split at hstep <;>
      · obtain rfl := Option.some.inj hstep
        exact hput _
    · cases hstep
  | look found =>
    simp only [State.requestStep] at hstep
    split at hstep
    · split at hstep
      · obtain rfl := Option.some.inj hstep
        exact hput _
      · obtain ⟨_, -, rfl⟩ := Option.map_eq_some_iff.mp hstep
        exact hput _
    · cases hstep
  | remove =>
    simp only [State.requestStep] at hstep
    split at hstep
    · obtain rfl := Option.some.inj hstep
      exact ⟨rfl, .inl ⟨_, rfl, rfl⟩⟩
    · cases hstep
  | use id =>
    simp only [State.requestStep] at hstep
    split at hstep
    · obtain ⟨c, hfind, hstep⟩ := Option.bind_eq_some_iff.mp hstep
      split_ifs at hstep
      obtain rfl := Option.some.inj hstep
      exact ⟨rfl, .inr ⟨rfl, id, c, hfind, rfl⟩⟩
    · cases hstep

theorem commandStep_frame {phase : CommandPhase} {e : CommandEvent}
    (hstep : s.commandStep i c phase e = some s') :
    (∃ phase', s'.tasks = s.tasks.set i (.command c phase')) ∧ s'.uses = s.uses ∧
      (s'.changes = s.changes ∨ phase = .begun ∧
        s'.changes = s.changes ++ [{ command := i, scope := c.scope }]) := by
  cases e with
  | write env accepted =>
    simp only [State.commandStep] at hstep
    split at hstep
    · rw [Option.ite_none_right_eq_some] at hstep
      obtain ⟨-, hstep⟩ := hstep
      split at hstep
      · split_ifs at hstep
        · obtain rfl := Option.some.inj hstep
          exact ⟨⟨_, rfl⟩, rfl, .inr ⟨rfl, rfl⟩⟩
        · obtain rfl := Option.some.inj hstep
          exact ⟨⟨_, rfl⟩, rfl, .inl rfl⟩
      · obtain rfl := Option.some.inj hstep
        exact ⟨⟨_, rfl⟩, rfl, .inl rfl⟩
    · cases hstep
  | collect =>
    simp only [State.commandStep] at hstep
    split at hstep
    · rw [Option.ite_none_right_eq_some] at hstep
      obtain rfl := Option.some.inj hstep.2
      exact ⟨⟨_, rfl⟩, rfl, .inl rfl⟩
    · cases hstep
  | close | finish =>
    simp only [State.commandStep] at hstep
    split at hstep
    · obtain rfl := Option.some.inj hstep
      exact ⟨⟨_, rfl⟩, rfl, .inl rfl⟩
    · cases hstep

/-- The connection that a request used had been opened with a configuration that was read after the
changes of every command that had returned when the request began. -/
def State.FreshUse (s : State) (i : ℕ) (k : Connection) : Prop :=
  k.readAt ≤ s.changes.length ∧
    ∃ session before phase, s.tasks[i]? = some (.request session before phase) ∧
      k.session = session ∧ ∀ change ∈ s.changes.drop k.readAt,
        concerns change.scope session = true → change.command ∉ before

/-- Every use was of such a connection. -/
def State.UsesFresh (s : State) : Prop :=
  ∀ (i : ℕ) (k : Connection), (i, k) ∈ s.uses → s.FreshUse i k

theorem request_kept_request {session : String} {before : List ℕ} {phase phase' : RequestPhase}
    (ht : s.tasks[i]? = some (.request session before phase)) {k : ℕ} {own : String}
    {known : List ℕ} {other : RequestPhase}
    (hk : s.tasks[k]? = some (.request own known other)) :
    ∃ other', (s.tasks.set i (.request session before phase'))[k]? =
      some (.request own known other') := by
  by_cases hik : i = k
  · subst hik
    obtain ⟨rfl, rfl, -⟩ := Task.request.inj (Option.some.inj (ht.symm.trans hk))
    exact ⟨phase', Pool.getElem?_set_self ht⟩
  · exact ⟨other, (List.getElem?_set_ne hik).trans hk⟩

theorem request_kept_command {phase phase' : CommandPhase}
    (ht : s.tasks[i]? = some (.command c phase)) {k : ℕ} {own : String} {known : List ℕ}
    {other : RequestPhase} (hk : s.tasks[k]? = some (.request own known other)) :
    (s.tasks.set i (.command c phase'))[k]? = some (.request own known other) := by
  refine (List.getElem?_set_ne ?_).trans hk
  rintro rfl
  cases Option.some.inj (ht.symm.trans hk)

/-- Old uses stay fresh: a change is of a command that has not returned. -/
theorem State.UsesFresh.kept (huses : s.UsesFresh) (h : Fresh s)
    (hrequests : ∀ {k : ℕ} {session : String} {before : List ℕ} {phase : RequestPhase},
      s.tasks[k]? = some (.request session before phase) →
        ∃ phase', s'.tasks[k]? = some (.request session before phase'))
    (hchanges : s'.changes = s.changes ∨ ∃ j c scope, s.tasks[j]? = some (.command c .begun) ∧
      s'.changes = s.changes ++ [{ command := j, scope := scope }])
    {j : ℕ} {k : Connection} (hk : (j, k) ∈ s.uses) : s'.FreshUse j k := by
  obtain ⟨hreadAt, session, before, phase, ht, hsession, hfresh⟩ := huses j k hk
  obtain ⟨phase', ht'⟩ := hrequests ht
  rcases hchanges with heq | ⟨m, c, scope, hbegun, heq⟩
  · rw [State.FreshUse, heq]
    exact ⟨hreadAt, session, before, phase', ht', hsession, hfresh⟩
  · rw [State.FreshUse, heq]
    refine ⟨?_, session, before, phase', ht', hsession, fun change hchange hconcerns hmem => ?_⟩
    · rw [List.length_append]
      omega
    · rcases mem_drop_append hreadAt hchange with hold | rfl
      · exact hfresh change hold hconcerns hmem
      · obtain ⟨own, hdone⟩ := h.before j session before phase ht m hmem
        cases Option.some.inj (hbegun.symm.trans hdone)

/-- **No step uses a stale connection.** -/
theorem State.UsesFresh.step {event : Event} (huses : s.UsesFresh) (h : Fresh s)
    (hstep : s.step event = some s') : s'.UsesFresh := by
  cases event with
  | beginRequest session | beginCommand c =>
    obtain rfl := Option.some.inj hstep
    intro j k hk
    refine huses.kept h (fun ht => ⟨_, Pool.getElem?_add_left ht⟩) (.inl ?_) hk
    rfl
  | request i e =>
    simp only [State.step] at hstep
    split at hstep
    · rename_i session before phase ht
      obtain ⟨hchanges, ⟨phase', htasks, hold⟩ | ⟨htasks, id, c, hfind, hnew⟩⟩ :=
        requestStep_frame hstep
      · intro j k hk
        rw [hold] at hk
        refine huses.kept h (fun hj => ?_) (.inl hchanges) hk
        rw [htasks]
        exact request_kept_request ht hj
      · intro j k hk
        rw [hnew] at hk
        rcases List.mem_append.mp hk with hk | hk
        · exact huses.kept h (fun hj => ⟨_, htasks ▸ hj⟩) (.inl hchanges) hk
        · -- A registered connection is older than a change only of a command on its way.
          obtain ⟨rfl, rfl⟩ := Prod.mk.inj (List.mem_singleton.mp hk)
          have hmem : k ∈ s.connections := List.mem_of_find?_eq_some hfind
          have hmatch := List.find?_some hfind
          rw [Bool.and_eq_true, decide_eq_true_eq, decide_eq_true_eq] at hmatch
          obtain ⟨hreadAt, hcloses⟩ := h.connections k hmem
          rw [State.FreshUse, hchanges, htasks]
          refine ⟨hreadAt, session, before, phase, ht, hmatch.2,
            fun change hchange hconcerns hin => ?_⟩
          obtain ⟨own, hdone⟩ := h.before j session before phase ht _ hin
          have hthen := hcloses change hchange (hmatch.2 ▸ hconcerns)
          exact (closes_iff hdone).mp hthen
    · cases hstep
  | command i e =>
    simp only [State.step] at hstep
    split at hstep
    · rename_i c phase ht
      obtain ⟨⟨phase', htasks⟩, hold, hchanges⟩ := commandStep_frame hstep
      intro j k hk
      rw [hold] at hk
      refine huses.kept h (fun hj => ?_) ?_ hk
      · rw [htasks]
        exact ⟨_, request_kept_command ht hj⟩
      · refine hchanges.imp_right fun ⟨hbegun, heq⟩ => ⟨i, c, c.scope, ?_, heq⟩
        rw [← hbegun]
        exact ht
    · cases hstep
  | store | die | drop =>
    obtain rfl := Option.some.inj hstep
    intro j k hk
    refine huses.kept h (fun ht => ⟨_, ht⟩) (.inl ?_) hk
    rfl

/-- **A stale configuration is never used.**  In a run in which no request gets the connection lock
and dials with a configuration that it has read before a change of it: a request uses a connection
of its session only if that was opened with a configuration that had seen the change of every
command of before the request, that is, of every command that had returned when it began. -/
theorem never_stale_of_run {data : VaultData} {trace : List Event}
    (hok : (dial data).Meets Current trace) (hrun : (dial data).run trace = some s)
    {k : Connection} (huse : (i, k) ∈ s.uses) :
    ∃ session before phase, s.tasks[i]? = some (.request session before phase) ∧
      k.session = session ∧ ∀ change ∈ s.changes.drop k.readAt,
        concerns change.scope session = true → change.command ∉ before := by
  have hinit : (State.init data).UsesFresh := fun _ _ hk => absurd hk List.not_mem_nil
  have h : Fresh s ∧ s.UsesFresh :=
    (dial data).run_invariant_of (I := fun s => Fresh s ∧ s.UsesFresh) ⟨fresh_init data, hinit⟩
      (fun s event s' hs hok hstep => ⟨hs.1.step hok hstep, hs.2.step hs.1 hstep⟩) hok hrun
  exact (h.2 i k huse).2

/-! ### A session that moves -/

/-- A workspace with one session. -/
def oneSession : VaultData :=
  { VaultData.withDefaultGroup "t" "g0" with
    sessions := [SessionConfig.new "t" "s1" (exampleSession "g0")] }

/-- The session with another host. -/
def movedSession : SessionInput :=
  { exampleSession "g0" with host := "db.example" }

/-- A request that dials and uses its connection, as the `i`-th task. -/
def dialRun (i id : ℕ) : List Event :=
  [.beginRequest "s1", .request i .status, .request i .read, .request i (.acquire none),
    .request i (.dialed true), .request i .validate, .request i (.use id)]

/-- `session_update` as the `i`-th task, with the connections that it closes. -/
def moveRun (i : ℕ) (closed : List Event) : List Event :=
  [.beginCommand (.sessionUpdate "s1" movedSession), .command i (.write (exampleEnv "") true),
    .command i .collect] ++ closed ++ [.command i .finish]

/-- The hosts of the connections that were used. -/
def State.usedHosts (s : State) : List (ℕ × String) :=
  s.uses.map fun use => (use.1, use.2.config.host)

/-- A request, an update, and a request with a new connection. -/
def movedRun : List Event :=
  dialRun 0 0 ++ moveRun 1 [.command 1 .close] ++ dialRun 2 1

/-- The second request uses the new host. -/
theorem never_stale_of_run_moved :
    ∃ s k, (dial oneSession).run movedRun = some s ∧ (2, k) ∈ s.uses ∧
      ∃ session before phase, s.tasks[2]? = some (.request session before phase) ∧
        k.session = session ∧ ∀ change ∈ s.changes.drop k.readAt,
          concerns change.scope session = true → change.command ∉ before := by
  have hok : (dial oneSession).Meets Current movedRun := by decide +kernel
  have hend : (((dial oneSession).run movedRun).any fun s =>
      s.uses.any fun use => use.1 = 2) = true := by decide +kernel
  obtain ⟨s, hrun, hs⟩ := (Option.any_eq_true _ _).mp hend
  obtain ⟨⟨j, k⟩, huse, hj⟩ := List.any_eq_true.mp hs
  obtain rfl : j = 2 := of_decide_eq_true hj
  exact ⟨s, k, hrun, huse, never_stale_of_run hok hrun huse⟩

/-- A request has read the configuration; the session is updated; then the request dials, and before
it compares with the vault another one, which began after the update, uses the connection. -/
def staleRun : List Event :=
  [.beginRequest "s1", .request 0 .status, .request 0 .read] ++ moveRun 1 [] ++
    [.request 0 (.acquire none), .request 0 (.dialed true), .beginRequest "s1",
      .request 2 .status, .request 2 (.use 0)]

/-- The session of a request, and the commands that had returned when it began. -/
def Task.began : Task → Option (String × List ℕ)
  | .request session before _ => some (session, before)
  | .command .. => none

/-- **A stale connection is used**: by a request that began when the update had returned, to the
host of before the update. -/
theorem stale_connection_used : ∃ s, (dial oneSession).run staleRun = some s ∧
    s.usedHosts = [(2, "web.example")] ∧ s.tasks[2]?.bind Task.began = some ("s1", [1]) ∧
      (findSession s.data "s1").map SessionConfig.host = some "db.example" := by
  have hend : (((dial oneSession).run staleRun).any fun s =>
      s.usedHosts = [(2, "web.example")] && s.tasks[2]?.bind Task.began = some ("s1", [1]) &&
        (findSession s.data "s1").map SessionConfig.host = some "db.example") = true := by
    decide +kernel
  obtain ⟨s, hrun, hs⟩ := (Option.any_eq_true _ _).mp hend
  obtain ⟨hs, hhost⟩ := Bool.and_eq_true_iff.mp hs
  obtain ⟨hused, htask⟩ := Bool.and_eq_true_iff.mp hs
  exact ⟨s, hrun, of_decide_eq_true hused, of_decide_eq_true htask, of_decide_eq_true hhost⟩

end Dial
end Api
end HelmSsh
