/-
# The sessions of a running server are those of the configuration

The commands of `ServerControl` mutate the vault and the server in two steps, and start a server
from ids that they read before they had the mutex.  What ties the two together is the owner of the
mutex: between the write of the vault and that of the server's cache it is the owner's (`written`),
and everything else that an owner has read of the configuration is still true (`PhaseOk`).

The restore of a replacement is the exception.  It reads the settings and then waits for the mutex;
what another command stores in between is lost on the server that it starts
(`authorization_restored`).

* `Inv.step` — every step keeps the invariant, when a restore that gets the mutex has the ids of the
  settings (`Steady`);
* `authorization_of_run` — with no command in progress a running server lets just the configured
  sessions pass, and at least one; and a session that a command has removed is not let pass once the
  command is back.
-/

import HelmSsh.Api.ControlMoves

namespace HelmSsh
namespace Api
namespace Control

open Config Vault

/-! ### The condition -/

/-- The operation on an open vault changes nothing of what is authorized. -/
def SameData (data data' : Option VaultData) : Prop :=
  data' = data ∨ ∃ old new, data = some old ∧ data' = some new ∧ SameAllowed old new

/-- The ids with which a restore waits for the mutex. -/
def Phase.restoreIds : Phase → Option (List String)
  | .restoreWaiting _ ids _ => some ids
  | _ => none

/-- A restore that gets the mutex has the ids of the settings as they are, and an open vault is
replaced from outside only when that changes nothing of what is authorized, or when there is no
server and nobody asks for the mutex. -/
def Steady (s : State) : Event → Prop
  | .task i .acquire => ∀ t ∈ s.tasks[i]?, ∀ ids ∈ t.phase.restoreIds,
      ∃ data ∈ s.data, ids = requestedIds data.settings
  | .reload data => SameData s.data (some data) ∨ s.server = none ∧ s.line = []
  | _ => True

instance (old new : VaultData) : Decidable (SameAllowed old new) :=
  decidable_of_iff
    (requestedIds new.settings = requestedIds old.settings ∧
      ∀ id ∈ requestedIds old.settings,
        id ∈ new.sessions.map SessionConfig.id ↔ id ∈ old.sessions.map SessionConfig.id)
    ⟨fun h => ⟨h.1, h.2⟩, fun h => ⟨h.requested, h.exist⟩⟩

instance (data data' : Option VaultData) : Decidable (SameData data data') :=
  match data, data' with
  | some old, some new =>
    decidable_of_iff (new = old ∨ SameAllowed old new)
      ⟨Or.imp (congrArg some) fun h => ⟨old, new, rfl, rfl, h⟩, Or.imp Option.some.inj fun h => by
        obtain ⟨_, _, hold, hnew, hsame⟩ := h
        cases hold
        cases hnew
        exact hsame⟩
  | none, data' =>
    decidable_of_iff (data' = none)
      ⟨.inl, fun h => h.resolve_right fun ⟨_, _, hold, _⟩ => by cases hold⟩
  | some _, none =>
    isFalse fun h => h.elim (fun heq => by cases heq) fun ⟨_, _, _, hnew, _⟩ => by cases hnew

instance (s : State) (event : Event) : Decidable (Steady s event) := by
  cases event with
  | task i e => cases e <;> unfold Steady <;> infer_instance
  | _ => unfold Steady; infer_instance

/-! ### The invariant -/

/-- The ids that the data authorize. -/
def idsOf (data : Option VaultData) : List String :=
  data.elim [] configuredIds

/-- What an owner of the mutex has read is true. -/
def PhaseOk (data : Option VaultData) (server : Option ServerHandle) (t : Task) : Prop :=
  match t.phase with
  | .configuring _ => ∀ wanted ids autoStart, t.command = .configureAndStart wanted ids autoStart →
      normalizeAllowedSessionIds ids none ≠ []
  | .written _ snapshot _ => ∃ current, data = some current ∧
      configuredIds snapshot = configuredIds current ∧
      ∀ wanted ids autoStart, t.command = .configureAndStart wanted ids autoStart →
        normalizeAllowedSessionIds ids none = requestedIds current.settings ∧
        configuredIds current ≠ []
  | .latest snapshot => ∃ current, data = some current ∧
      configuredIds snapshot = configuredIds current
  | .starting _ ids _ => ∃ current, data = some current ∧ ids ⊆ requestedIds current.settings ∧
      (ids.filter fun id => id ∈ current.sessions.map SessionConfig.id) = configuredIds current
  | .named _ ids _ _ | .binding _ _ ids _ _ => ∃ current, data = some current ∧
      ids = configuredIds current ∧ ids ≠ []
  | .taken h => ∃ current, data = some current ∧ h.allowedSessionIds = configuredIds current
  | .emptied _ => server = none
  | _ => True

/-- The server is there, or a regeneration has taken it and starts it again. -/
def State.Held (s : State) : Prop :=
  (∃ h, s.server = some h) ∨ ∃ (k : ℕ) (v : Task), s.tasks[k]? = some v ∧ ∃ h, v.phase = .taken h

/-- A reconciliation is to come. -/
def State.Pending (s : State) : Prop :=
  ∃ (k : ℕ) (v : Task), s.tasks[k]? = some v ∧ v.phase.pending = true

/-- A command has written the vault and not the server, which still has the ids of before. -/
def State.Behind (s : State) (ids : List String) : Prop :=
  ∃ (k : ℕ) (v : Task), s.tasks[k]? = some v ∧ ∃ snapshot port, v.phase = .written ids snapshot port

/-- The server has the ids of the configuration, but for a command that is about to write them; who
owns the mutex has read what is true; and a server without sessions is waiting for a
reconciliation. -/
structure Inv (s : State) : Prop where
  linked : s.Linked
  opened : s.data = none → s.server = none
  server : ∀ h, s.server = some h →
    h.allowedSessionIds = idsOf s.data ∨ s.Behind h.allowedSessionIds
  phases : ∀ (i : ℕ) (t : Task), s.tasks[i]? = some t → t.place = .inside →
    PhaseOk s.data s.server t
  pending : s.Held → idsOf s.data = [] → s.Pending

variable {s s' : State} {i : ℕ} {t : Task} {e : TaskEvent} {phase : Phase}
  {data : Option VaultData} {server : Option ServerHandle}

theorem SameData.idsOf_eq (h : SameData s.data data) : idsOf data = idsOf s.data := by
  rcases h with rfl | ⟨old, new, hold, rfl, hsame⟩
  · rfl
  · rw [hold]
    exact hsame.configuredIds_eq

theorem PhaseOk.same {t : Task} (h : PhaseOk s.data s.server t) (hdata : SameData s.data data)
    (hserver : s.server = none → server = none) : PhaseOk data server t := by
  rcases hdata with rfl | ⟨old, new, hold, rfl, hsame⟩
  · rw [PhaseOk] at h ⊢
    split at h <;> first | exact h | exact hserver h
  · rw [PhaseOk, hold] at h
    rw [PhaseOk]
    split at h
    · exact h
    · obtain ⟨current, hcurrent, hids, hconfigure⟩ := h
      obtain rfl := Option.some.inj hcurrent
      refine ⟨new, rfl, ?_, fun wanted ids autoStart hcommand => ?_⟩
      · rw [hids, hsame.configuredIds_eq]
      · rw [hsame.configuredIds_eq, hsame.requested]
        exact hconfigure wanted ids autoStart hcommand
    · obtain ⟨current, hcurrent, hids⟩ := h
      obtain rfl := Option.some.inj hcurrent
      exact ⟨new, rfl, by rw [hids, hsame.configuredIds_eq]⟩
    · obtain ⟨current, hcurrent, hsub, hfilter⟩ := h
      obtain rfl := Option.some.inj hcurrent
      refine ⟨new, rfl, ?_, ?_⟩
      · rw [hsame.requested]
        exact hsub
      · rw [hsame.configuredIds_eq, hsame.filter_eq hsub, hfilter]
    · obtain ⟨current, hcurrent, hids, hsome⟩ := h
      obtain rfl := Option.some.inj hcurrent
      exact ⟨new, rfl, by rw [hids, hsame.configuredIds_eq], hsome⟩
    · obtain ⟨current, hcurrent, hids, hsome⟩ := h
      obtain rfl := Option.some.inj hcurrent
      exact ⟨new, rfl, by rw [hids, hsame.configuredIds_eq], hsome⟩
    · obtain ⟨current, hcurrent, hids⟩ := h
      obtain rfl := Option.some.inj hcurrent
      exact ⟨new, rfl, by rw [hids, hsame.configuredIds_eq]⟩
    · exact hserver h
    · trivial

/-! ### The steps of a command -/

/-- Who writes the vault owns the mutex: nobody else is about to write the server. -/
theorem Inv.not_behind (h : Inv s) (ht : s.tasks[i]? = some t) (hfirst : s.line.head? = some i)
    (hphase : ∀ before snapshot port, t.phase ≠ .written before snapshot port) (ids : List String) :
    ¬s.Behind ids := by
  rintro ⟨k, v, hv, snapshot, port, hwritten⟩
  have hk := h.linked.first k v hv (congrArg Phase.place hwritten)
  obtain rfl := Option.some.inj (hfirst.symm.trans hk)
  obtain rfl := Option.some.inj (ht.symm.trans hv)
  exact hphase ids snapshot port hwritten

/-- What the new state of a task must satisfy when the task owns the mutex before or after. -/
structure MoveOk (s : State) (t : Task) (phase : Phase) (data : Option VaultData)
    (server : Option ServerHandle) : Prop where
  opened : data = none → server = none
  listed : ∀ h, server = some h → h.allowedSessionIds = idsOf data ∨
    ∃ snapshot port, phase = .written h.allowedSessionIds snapshot port
  relies : PhaseOk data server { t with phase := phase }
  waits : ((∃ h, server = some h) ∨ ∃ h, phase = .taken h) → idsOf data = [] →
    phase.pending = true ∨ t.phase.pending = false ∧ s.Pending

/-- **A step of the owner** keeps the invariant: the others rely on nothing. -/
theorem Inv.moved_inside (h : Inv s) (ht : s.tasks[i]? = some t)
    (hmove : Move s i t e phase data server) (hinside : t.place = .inside ∨ phase.place = .inside)
    (hok : MoveOk s t phase data server) : Inv (s.moved i t phase data server) := by
  have hself : (s.moved i t phase data server).tasks[i]? = some { t with phase := phase } :=
    Pool.getElem?_set_self ht
  have hothers : ∀ j u, j ≠ i → s.tasks[j]? = some u → u.place ≠ .inside := by
    intro j u hne hu hplace
    rcases hinside with hbefore | hafter
    · exact hne (h.linked.unique ht hu hbefore hplace)
    · have hlinked : (s.moved i t phase data server).Linked := h.linked.moved ht hmove
      have hu' : (s.moved i t phase data server).tasks[j]? = some u := by
        show (s.tasks.set i _)[j]? = some u
        rw [List.getElem?_set_ne (Ne.symm hne)]
        exact hu
      exact hne (hlinked.unique hself hu' hafter hplace)
  refine ⟨h.linked.moved ht hmove, hok.opened, fun w hw => ?_, fun j u hu hplace => ?_,
    fun hheld hnil => ?_⟩
  · rcases hok.listed w hw with heq | ⟨snapshot, port, hwritten⟩
    · exact .inl heq
    · exact .inr ⟨i, _, hself, snapshot, port, hwritten⟩
  · rcases Pool.getElem?_set hu with ⟨-, rfl⟩ | ⟨hne, hold⟩
    · exact hok.relies
    · exact absurd hplace (hothers j u hne hold)
  · have hheld' : (∃ w, server = some w) ∨ ∃ w, phase = .taken w := by
      rcases hheld with hserver | ⟨k, v, hv, w, htaken⟩
      · exact .inl hserver
      · rcases Pool.getElem?_set hv with ⟨-, rfl⟩ | ⟨hne, hold⟩
        · exact .inr ⟨w, htaken⟩
        · exact absurd (congrArg Phase.place htaken) (hothers k v hne hold)
    rcases hok.waits hheld' hnil with hpending | ⟨hnot, k, v, hv, hpending⟩
    · exact ⟨i, _, hself, hpending⟩
    · refine ⟨k, v, ?_, hpending⟩
      have hne : i ≠ k := by
        rintro rfl
        obtain rfl := Option.some.inj (ht.symm.trans hv)
        rw [hnot] at hpending
        cases hpending
      show (s.tasks.set i _)[k]? = some v
      rw [List.getElem?_set_ne hne]
      exact hv

/-- **A step outside of the mutex** keeps the invariant when it changes nothing of what is
authorized. -/
theorem Inv.moved_outside (h : Inv s) (ht : s.tasks[i]? = some t)
    (hmove : Move s i t e phase data server) (houtside : t.place ≠ .inside)
    (houtside' : phase.place ≠ .inside) (hdata : SameData s.data data)
    (hserver : server = s.server ∨ server = none)
    (hpending : t.phase.pending = true → phase.pending = true) :
    Inv (s.moved i t phase data server) := by
  have hnone : s.server = none → server = none := by
    rcases hserver with rfl | rfl
    · exact id
    · exact fun _ => rfl
  have hsome : ∀ w, server = some w → s.server = some w := by
    rcases hserver with rfl | rfl
    · exact fun _ => id
    · exact fun _ hw => by cases hw
  have hkeep : ∀ {P : Task → Prop} (k : ℕ) (v : Task), s.tasks[k]? = some v → P v →
      (P t → P { t with phase := phase }) →
      ∃ (k : ℕ) (v : Task), (s.moved i t phase data server).tasks[k]? = some v ∧ P v :=
    fun k v hv hP hstep => Pool.exists_set ht ⟨k, v, hv, hP⟩ hstep
  refine ⟨h.linked.moved ht hmove, fun hclosed => ?_, fun w hw => ?_, fun j u hu hplace => ?_,
    fun hheld hnil => ?_⟩
  · refine hnone (h.opened ?_)
    rcases hdata with rfl | ⟨old, new, -, rfl, -⟩
    · exact hclosed
    · cases hclosed
  · show w.allowedSessionIds = idsOf data ∨ _
    rw [hdata.idsOf_eq]
    refine (h.server w (hsome w hw)).imp_right fun ⟨k, v, hv, snapshot, port, hwritten⟩ => ?_
    refine hkeep k v hv ⟨snapshot, port, hwritten⟩ fun ⟨snapshot, port, hwritten⟩ => ?_
    exact absurd (congrArg Phase.place hwritten) houtside
  · rcases Pool.getElem?_set hu with ⟨-, rfl⟩ | ⟨hne, hold⟩
    · exact absurd hplace houtside'
    · exact (h.phases j u hold hplace).same hdata hnone
  · obtain ⟨k, v, hv, hwaits⟩ := h.pending (by
      rcases hheld with ⟨w, hw⟩ | ⟨k, v, hv, w, htaken⟩
      · exact .inl ⟨w, hsome w hw⟩
      · rcases Pool.getElem?_set hv with ⟨-, rfl⟩ | ⟨hne, hold⟩
        · exact absurd (congrArg Phase.place htaken) houtside'
        · exact .inr ⟨k, v, hold, w, htaken⟩) (hdata.idsOf_eq ▸ hnil)
    exact hkeep k v hv hwaits hpending

/-- A step that leaves the server as it is, or without one, and changes nothing of what is
authorized. -/
theorem Inv.moveOk_same (h : Inv s) (hclear : ∀ ids, ¬s.Behind ids) (hdata : SameData s.data data)
    (hserver : server = s.server ∨ server = none)
    (hrelies : PhaseOk data server { t with phase := phase }) (hnot : ∀ w, phase ≠ .taken w)
    (hwaits : t.phase.pending = true → phase.pending = true ∨ server = none) :
    MoveOk s t phase data server := by
  refine ⟨fun hclosed => ?_, fun w hw => ?_, hrelies, fun hheld hnil => ?_⟩
  · rcases hserver with rfl | rfl
    · refine h.opened ?_
      rcases hdata with rfl | ⟨old, new, -, rfl, -⟩
      · exact hclosed
      · cases hclosed
    · rfl
  · rcases hserver with rfl | rfl
    · rw [hdata.idsOf_eq]
      exact .inl ((h.server w hw).resolve_right (hclear _))
    · cases hw
  · rcases hheld with ⟨w, hw⟩ | ⟨w, hw⟩
    · rcases hserver with rfl | rfl
      · cases hcase : t.phase.pending with
        | false => exact .inr ⟨rfl, h.pending (.inl ⟨w, hw⟩) (hdata.idsOf_eq ▸ hnil)⟩
        | true =>
          refine .inl ((hwaits hcase).resolve_right fun hnone => ?_)
          rw [hnone] at hw
          cases hw
      · cases hw
    · exact absurd hw (hnot w)

/-- A server that is there has the ids that the data authorize, and there are some. -/
theorem moveOk_listed {w : ServerHandle} {current : VaultData} (hdata : data = some current)
    (hids : w.allowedSessionIds = configuredIds current)
    (hrelies : PhaseOk data (some w) { t with phase := phase })
    (hwaits : configuredIds current = [] → phase.pending = true ∨
      t.phase.pending = false ∧ s.Pending) : MoveOk s t phase data (some w) := by
  subst hdata
  refine ⟨nofun, fun v hv => ?_, hrelies, fun _ hnil => hwaits hnil⟩
  obtain rfl := Option.some.inj hv
  exact .inl hids

theorem Inv.moveOk_sync (h : Inv s) (ht : s.tasks[i]? = some t) {before : List String}
    {snapshot : VaultData} {port : Option UInt16} (hphase : t.phase = .written before snapshot port)
    (hrelies : ∀ server, PhaseOk s.data server { t with phase := phase })
    (hwaits : phase.pending = true ∨ idsOf s.data ≠ []) :
    MoveOk s t phase s.data (s.syncCache snapshot).server := by
  have hrely := h.phases i t ht (congrArg Phase.place hphase)
  rw [PhaseOk, hphase] at hrely
  obtain ⟨current, hdata, hids, -⟩ := hrely
  refine ⟨fun hclosed => ?_, fun w hw => ?_, hrelies _, fun _ hnil => ?_⟩
  · rw [hdata] at hclosed
    cases hclosed
  · obtain ⟨v, -, rfl⟩ := Option.map_eq_some_iff.mp hw
    refine .inl ?_
    rw [hdata]
    exact hids
  · exact .inl (hwaits.resolve_right fun hne => hne hnil)

theorem sameData_perform {op : VaultOp} {env : Env} {old new : VaultData}
    (hdata : s.data = some old) (hperform : op.perform env old = .ok new)
    (hnot : ¬op.Authorizes) (hfresh : op.FreshId env old) : SameData s.data (some new) :=
  .inr ⟨old, new, hdata, rfl, sameAllowed_perform hnot hfresh hperform⟩

theorem Inv.moved_mutation (h : Inv s) (ht : s.tasks[i]? = some t) {op : VaultOp} {env : Env}
    {old new : VaultData} (hop : t.mutation = some op) (hdata : s.data = some old)
    (hperform : op.perform env old = .ok new) :
    Inv (s.moved i t (t.afterMutation (configuredIds old) new) (some new) s.server) := by
  have hmove : Move s i t _ _ _ _ := .mutation hop hdata hperform
  -- A write by the owner: the server is behind, and a reconciliation is to come.
  have hwritten : ∀ port, t.place = .inside →
      (∀ before snapshot port, t.phase ≠ .written before snapshot port) →
      (∀ wanted ids autoStart, t.command = .configureAndStart wanted ids autoStart →
        normalizeAllowedSessionIds ids none = requestedIds new.settings ∧
        configuredIds new ≠ []) →
      MoveOk s t (.written (configuredIds old) new port) (some new) s.server := by
    intro port hinside hphase hconfigure
    have hfirst := h.linked.first i t ht hinside
    refine ⟨(by rintro ⟨⟩), fun w hw => .inr ⟨new, port, ?_⟩, ⟨new, rfl, rfl, hconfigure⟩,
      fun _ _ => .inl rfl⟩
    have hids := (h.server w hw).resolve_right (h.not_behind ht hfirst hphase _)
    rw [hids, hdata]
    rfl
  obtain ⟨command, taskPhase⟩ := t
  rw [Task.mutation] at hop
  split at hop
  · rename_i settings hcommand hphase
    cases hcommand
    cases hphase
    exact h.moved_inside ht hmove (.inl rfl) (hwritten none rfl
      (fun _ _ _ heq => by cases heq) fun _ _ _ heq => by cases heq)
  · rename_i sessionId hcommand hphase
    cases hcommand
    cases hphase
    exact h.moved_inside ht hmove (.inl rfl) (hwritten none rfl
      (fun _ _ _ heq => by cases heq) fun _ _ _ heq => by cases heq)
  · rename_i sessionId input hcommand hphase
    cases hcommand
    cases hphase
    obtain rfl := Option.some.inj hop
    have hsame := sameData_perform hdata hperform id trivial
    exact h.moved_outside ht hmove (fun heq => by cases heq) (fun heq => by cases heq) hsame
      (.inl rfl) fun _ => rfl
  · rename_i wanted ids autoStart port hcommand hphase
    cases hcommand
    cases hphase
    obtain rfl := Option.some.inj hop
    have hrely := h.phases i _ ht rfl wanted ids autoStart rfl
    obtain ⟨hstored, hasked⟩ := configuredIds_perform hperform
    have hrequested := hasked (normal_normalizeAllowedSessionIds ids none)
    refine h.moved_inside ht hmove (.inl rfl) (hwritten (some port) rfl
      (fun _ _ _ heq => by cases heq) ?_)
    intro wanted' ids' autoStart' hcommand
    cases hcommand
    refine ⟨hrequested.symm, ?_⟩
    rw [hstored, hrequested]
    exact hrely
  · rename_i newKey hcommand hphase
    cases hcommand
    cases hphase
    obtain rfl := Option.some.inj hop
    have hsame := sameData_perform hdata hperform id trivial
    have hfirst := h.linked.first i _ ht rfl
    have hclear := h.not_behind ht hfirst fun _ _ _ heq => by cases heq
    refine h.moved_inside ht hmove (.inl rfl) ?_
    exact h.moveOk_same hclear hsame (.inl rfl) trivial (fun _ heq => by cases heq)
      fun heq => by cases heq
  · cases hop

/-- A step of the owner, or of the first of the line, that leaves the server as it is, or without
one, and changes nothing of what is authorized. -/
theorem Inv.moved_same (h : Inv s) (ht : s.tasks[i]? = some t)
    (hmove : Move s i t e phase data server) (hinside : t.place = .inside ∨ phase.place = .inside)
    (hfirst : s.line.head? = some i)
    (hphase : ∀ before snapshot port, t.phase ≠ .written before snapshot port)
    (hdata : SameData s.data data) (hserver : server = s.server ∨ server = none)
    (hrelies : PhaseOk data server { t with phase := phase }) (hnot : ∀ w, phase ≠ .taken w)
    (hwaits : t.phase.pending = true → phase.pending = true ∨ server = none) :
    Inv (s.moved i t phase data server) :=
  h.moved_inside ht hmove hinside
    (h.moveOk_same (h.not_behind ht hfirst hphase) hdata hserver hrelies hnot hwaits)

/-- No other step looks for a task in this phase. -/
def Phase.quiet : Phase → Bool
  | .written .. | .taken _ => false
  | _ => true

/-- The same between phases that are known. -/
theorem Inv.moved_from (h : Inv s) (ht : s.tasks[i]? = some t)
    (hmove : Move s i t e phase data server) {known : Phase} (hphase : t.phase = known)
    (hquiet : known.quiet = true ∧ phase.quiet = true) (hfirst : s.line.head? = some i)
    (hinside : known.place = .inside ∨ phase.place = .inside) (hdata : SameData s.data data)
    (hserver : server = s.server ∨ server = none)
    (hrelies : PhaseOk data server { t with phase := phase })
    (hwaits : known.pending = true → phase.pending = true ∨ server = none) :
    Inv (s.moved i t phase data server) := by
  subst hphase
  refine h.moved_same ht hmove hinside hfirst (fun before snapshot port heq => ?_) hdata hserver
    hrelies (fun w heq => ?_) hwaits
  · rw [heq] at hquiet
    cases hquiet.1
  · rw [heq] at hquiet
    cases hquiet.2

theorem Inv.moved_quit (h : Inv s) (ht : s.tasks[i]? = some t)
    (hmove : Move s i t e phase s.data server) (hleaves : t.phase.leaves t.command = true)
    (hwaits : t.phase.pending = true → server = none) (hserver : server = s.server ∨ server = none)
    (hback : t.IsBack phase) : Inv (s.moved i t phase s.data server) := by
  have hrelies : PhaseOk s.data server { t with phase := phase } := by
    rcases hback with rfl | ⟨rfl, -⟩ <;> trivial
  have hnot : ∀ w, phase ≠ .taken w := by
    rcases hback with rfl | ⟨rfl, -⟩ <;> exact fun _ heq => by cases heq
  have houtside : phase.place ≠ .inside := by
    rcases hback with rfl | ⟨rfl, -⟩ <;> exact fun heq => by cases heq
  have hwritten : ∀ before snapshot port, t.phase ≠ .written before snapshot port := by
    intro before snapshot port heq
    rw [heq] at hleaves
    cases hleaves
  by_cases hinside : t.place = .inside
  · exact h.moved_same ht hmove (.inl hinside) (h.linked.first i t ht hinside) hwritten (.inl rfl)
      hserver hrelies hnot fun hpending => .inr (hwaits hpending)
  · refine h.moved_outside ht hmove hinside houtside (.inl rfl) hserver fun hpending => ?_
    rw [pending_of_leaves hleaves hinside] at hpending
    cases hpending

/-- The reconciliation has read the sessions: it lists them, or stops the server. -/
theorem Inv.moveOk_reconciled (h : Inv s) (ht : s.tasks[i]? = some t) {snapshot : VaultData}
    (hphase : t.phase = .latest snapshot) :
    MoveOk s t .done s.data (s.reconciled snapshot) := by
  have hlatest : PhaseOk s.data s.server t := h.phases i t ht (congrArg Phase.place hphase)
  rw [PhaseOk, hphase] at hlatest
  obtain ⟨current, hdata, hids⟩ := hlatest
  rw [State.reconciled]
  have hids' : (configuredAllowedSessions snapshot).1 = configuredIds current := hids
  have hnone : MoveOk s t .done s.data none := by
    refine ⟨fun _ => rfl, fun _ hw => ?_, trivial, fun hheld _ => ?_⟩
    · cases hw
    · rcases hheld with ⟨_, hw⟩ | ⟨_, hw⟩ <;> cases hw
  split_ifs with hnil
  · exact hnone
  · cases hrunning : s.running with
    | none => exact hnone
    | some w =>
      refine moveOk_listed hdata hids' trivial fun hempty => ?_
      rw [hids', hempty] at hnil
      exact absurd rfl hnil

/-- A new key for the server that is there: what it serves stays what is configured. -/
theorem Inv.moveOk_rekey (h : Inv s) (ht : s.tasks[i]? = some t) {w : ServerHandle}
    (hphase : t.phase = .rekeyed) (hserver : s.server = some w) :
    MoveOk s t (.taken w) s.data none := by
  have hwritten : ∀ before snapshot port, t.phase ≠ .written before snapshot port := by
    rw [hphase]
    exact fun _ _ _ heq => by cases heq
  have hids := (h.server w hserver).resolve_right
    (h.not_behind ht (h.linked.first i t ht (congrArg Phase.place hphase)) hwritten _)
  obtain ⟨current, hdata⟩ : ∃ current, s.data = some current := by
    cases hcase : s.data with
    | none =>
      rw [h.opened hcase] at hserver
      cases hserver
    | some current => exact ⟨current, rfl⟩
  refine ⟨fun _ => rfl, fun _ hw => ?_, ?_, fun _ hnil => ?_⟩
  · cases hw
  · refine ⟨current, hdata, ?_⟩
    rw [hids, hdata]
    rfl
  · exact .inr ⟨by rw [hphase]; rfl, h.pending (.inl ⟨w, hserver⟩) hnil⟩

/-- **Every step of a command keeps the invariant.** -/
theorem Inv.moved (h : Inv s) (ht : s.tasks[i]? = some t) (hsteady : Steady s (.task i e))
    (hmove : Move s i t e phase data server) : Inv (s.moved i t phase data server) := by
  have hfirst : ∀ {known : Phase}, t.phase = known → known.place = .inside →
      s.line.head? = some i := fun hphase hinside =>
    h.linked.first i t ht ((congrArg Phase.place hphase).trans hinside)
  have hrely : t.phase.place = .inside → PhaseOk s.data s.server t := h.phases i t ht
  have hmove' := hmove
  cases hmove with
  | retry _ hphase | reconcileLater hphase | restoreLater hphase | readRestore hphase =>
    refine h.moved_outside ht hmove' ?_ (fun heq => by cases heq) (.inl rfl) (.inl rfl)
      fun hwaits => ?_
    · rw [Task.place, hphase]
      exact fun heq => by cases heq
    · rw [hphase] at hwaits
      first | rfl | cases hwaits
  | lock hphase hhead | relock hphase hhead =>
    refine h.moved_from ht hmove' hphase ⟨rfl, rfl⟩ hhead (.inr rfl) (.inl rfl) (.inl rfl)
      trivial fun hwaits => ?_
    first | exact .inl rfl | cases hwaits
  | @restore port ids origin hphase hhead =>
    have hids : ids ∈ t.phase.restoreIds := by
      rw [hphase]
      rfl
    obtain ⟨current, hdata, rfl⟩ := hsteady t ht ids hids
    exact h.moved_from ht hmove' hphase ⟨rfl, rfl⟩ hhead (.inr rfl) (.inl rfl) (.inl rfl)
      ⟨current, hdata, fun _ => id, rfl⟩ fun hwaits => by cases hwaits
  | quit hleaves hwaits hserver hback => exact h.moved_quit ht hmove' hleaves hwaits hserver hback
  | stopped _ hphase | empty _ hphase =>
    exact h.moved_from ht hmove' hphase ⟨rfl, rfl⟩ (hfirst hphase rfl) (.inl rfl) (.inl rfl)
      (.inr rfl) (by trivial) fun _ => .inr rfl
  | @configure wanted port ids autoStart hcommand hphase hsome =>
    refine h.moved_from ht hmove' hphase ⟨rfl, rfl⟩ (hfirst hphase rfl) (.inl rfl) (.inl rfl)
      (.inl rfl) ?_ fun hwaits => by cases hwaits
    intro wanted' ids' autoStart' hcommand'
    obtain ⟨-, rfl, -⟩ := Command.configureAndStart.inj (hcommand.symm.trans hcommand')
    exact hsome
  | cleared _ hphase hgo =>
    exact h.moved_from ht hmove' hphase ⟨rfl, rfl⟩ (hfirst hphase rfl) (.inl rfl) (.inl rfl)
      (.inl rfl) trivial fun hwaits => by cases hwaits
  | mutation hop hdata hperform => exact h.moved_mutation ht hop hdata hperform
  | syncApplied hphase _ =>
    refine h.moved_inside ht hmove' (.inl (congrArg Phase.place hphase)) ?_
    exact h.moveOk_sync ht hphase (fun _ => trivial) (.inl rfl)
  | syncStarting hcommand hphase =>
    have hwritten := hrely (congrArg Phase.place hphase)
    rw [PhaseOk, hphase] at hwritten
    obtain ⟨current, hdata, -, hconfigure⟩ := hwritten
    obtain ⟨hids, hsome⟩ := hconfigure _ _ _ hcommand
    refine h.moved_inside ht hmove' (.inr rfl) ?_
    refine h.moveOk_sync ht hphase (fun _ => ?_) (.inr ?_)
    · rw [hids]
      exact ⟨current, hdata, fun _ => id, rfl⟩
    · rw [hdata]
      exact hsome
  | @readSettings current port hphase hdata =>
    refine h.moved_from ht hmove' hphase ⟨rfl, rfl⟩ (hfirst hphase rfl) (.inl rfl) (.inl rfl)
      (.inl rfl) ⟨current, hdata, List.filter_subset_self _, ?_⟩ fun hwaits => by cases hwaits
    rw [configuredIds, List.filter_filter]
    simp only [Bool.and_self]
  | @readLatest current hphase hdata =>
    exact h.moved_from ht hmove' hphase ⟨rfl, rfl⟩ (hfirst hphase rfl) (.inl rfl) (.inl rfl)
      (.inl rfl) ⟨current, hdata, rfl⟩ fun _ => .inl rfl
  | reconcile hphase =>
    exact h.moved_inside ht hmove' (.inl (congrArg Phase.place hphase))
      (h.moveOk_reconciled ht hphase)
  | @name current port ids origin hphase hdata hsome hnames =>
    have hstarting := hrely (congrArg Phase.place hphase)
    rw [PhaseOk, hphase] at hstarting
    obtain ⟨current', hcurrent, -, hfilter⟩ := hstarting
    obtain rfl := Option.some.inj (hdata.symm.trans hcurrent)
    have hall : (ids.filter fun id => id ∈ current.sessions.map SessionConfig.id) = ids :=
      List.filter_eq_self.mpr fun id hid => decide_eq_true (exists_of_length_names hnames id hid)
    exact h.moved_from ht hmove' hphase ⟨rfl, rfl⟩ (hfirst hphase rfl) (.inl rfl) (.inl rfl)
      (.inl rfl) ⟨current, hdata, hall.symm.trans hfilter, hsome⟩ fun hwaits => by cases hwaits
  | share hphase | start hphase =>
    have hlisted := hrely (congrArg Phase.place hphase)
    rw [PhaseOk, hphase] at hlisted
    obtain ⟨current, hdata, hids, hsome⟩ := hlisted
    refine h.moved_inside ht hmove' (.inl (congrArg Phase.place hphase)) ?_
    exact moveOk_listed hdata hids trivial fun hempty => absurd (hids.trans hempty) hsome
  | keep hphase _ =>
    have hnamed := hrely (congrArg Phase.place hphase)
    rw [PhaseOk, hphase] at hnamed
    exact h.moved_from ht hmove' hphase ⟨rfl, rfl⟩ (hfirst hphase rfl) (.inl rfl) (.inl rfl)
      (.inr rfl) hnamed fun _ => .inr rfl
  | @generate _ _ _ _ _ _ _ _ new hphase hdata hperform =>
    have hsame : SameData s.data (some new) := sameData_perform hdata hperform id trivial
    have hnamed : PhaseOk (some new) none t :=
      (hrely (congrArg Phase.place hphase)).same hsame fun _ => rfl
    rw [PhaseOk, hphase] at hnamed
    exact h.moved_from ht hmove' hphase ⟨rfl, rfl⟩ (hfirst hphase rfl) (.inl rfl) hsame (.inr rfl)
      hnamed fun _ => .inr rfl
  | @restart w key hphase =>
    have htaken := hrely (congrArg Phase.place hphase)
    rw [PhaseOk, hphase] at htaken
    obtain ⟨current, hdata, hids⟩ := htaken
    refine h.moved_inside ht hmove' (.inl (congrArg Phase.place hphase)) ?_
    refine moveOk_listed hdata hids trivial fun hempty => .inr ⟨by rw [hphase]; rfl, ?_⟩
    refine h.pending (.inr ⟨i, t, ht, w, hphase⟩) ?_
    rw [hdata]
    exact hempty
  | rekey hphase hserver =>
    exact h.moved_inside ht hmove' (.inr rfl) (h.moveOk_rekey ht hphase hserver)
  | @replaced wasRunning result hphase =>
    have hempty : s.server = none := by
      have hemptied := hrely (congrArg Phase.place hphase)
      rw [PhaseOk, hphase] at hemptied
      exact hemptied
    refine h.moved_inside ht hmove' (.inl (congrArg Phase.place hphase)) ?_
    refine ⟨fun _ => hempty, fun w hw => ?_, trivial, fun hheld _ => ?_⟩
    · rw [hempty] at hw
      cases hw
    · rcases hheld with ⟨w, hw⟩ | ⟨w, hw⟩
      · rw [hempty] at hw
        cases hw
      · cases hw

/-! ### The other steps -/

/-- The vault and the server may change, when nothing changes of what is authorized and the ids of
the server stay. -/
theorem Inv.same (h : Inv s) (htasks : s'.tasks = s.tasks) (hline : s'.line = s.line)
    (hdata : SameData s.data s'.data)
    (hserver : ∀ w, s'.server = some w →
      ∃ v, s.server = some v ∧ w.allowedSessionIds = v.allowedSessionIds) : Inv s' := by
  have hnone : s.server = none → s'.server = none := by
    intro hnone
    refine Option.eq_none_iff_forall_ne_some.mpr fun w hw => ?_
    obtain ⟨v, hv, -⟩ := hserver w hw
    rw [hnone] at hv
    cases hv
  refine ⟨?_, fun hclosed => ?_, fun w hw => ?_, fun j u hu hplace => ?_, fun hheld hnil => ?_⟩
  · rw [State.Linked, htasks, hline]
    exact h.linked
  · refine hnone (h.opened ?_)
    rcases hdata with heq | ⟨old, new, -, hnew, -⟩
    · rw [← heq]
      exact hclosed
    · rw [hnew] at hclosed
      cases hclosed
  · obtain ⟨v, hv, hids⟩ := hserver w hw
    rw [hids, hdata.idsOf_eq, State.Behind, htasks]
    exact h.server v hv
  · rw [htasks] at hu
    exact (h.phases j u hu hplace).same hdata hnone
  · rw [hdata.idsOf_eq] at hnil
    rw [State.Pending, htasks]
    refine h.pending ?_ hnil
    rw [State.Held, htasks] at hheld
    refine hheld.imp_left ?_
    rintro ⟨w, hw⟩
    obtain ⟨v, hv, -⟩ := hserver w hw
    exact ⟨v, hv⟩

/-- Without a server and without an owner of the mutex nothing is relied on. -/
theorem Inv.idle (hlinked : s.Linked) (hserver : s.server = none)
    (hidle : ∀ (i : ℕ) (t : Task), s.tasks[i]? = some t → t.place ≠ .inside) : Inv s := by
  refine ⟨hlinked, fun _ => hserver, fun w hw => ?_, fun j u hu hplace => ?_, fun hheld _ => ?_⟩
  · rw [hserver] at hw
    cases hw
  · exact absurd hplace (hidle j u hu)
  · rcases hheld with ⟨w, hw⟩ | ⟨k, v, hv, w, htaken⟩
    · rw [hserver] at hw
      cases hw
    · exact absurd (congrArg Phase.place htaken) (hidle k v hv)

theorem Inv.begin (h : Inv s) {command : Command} (hstep : s.step (.begin command) = some s') :
    Inv s' := by
  have hlinked := h.linked.begin hstep
  obtain ⟨hdata, hserver, htasks⟩ : s'.data = s.data ∧ s'.server = s.server ∧
      s'.tasks = s.tasks ++ [⟨command, command.firstPhase⟩] := by
    rw [State.step] at hstep
    split at hstep
    · rename_i hphase
      obtain rfl := Option.some.inj hstep
      exact ⟨rfl, rfl, by rw [hphase]⟩
    · obtain rfl := Option.some.inj hstep
      exact ⟨rfl, rfl, rfl⟩
  have hfirst : command.firstPhase.place ≠ .inside := by
    cases command <;> exact fun heq => by cases heq
  refine ⟨hlinked, fun hclosed => ?_, fun w hw => ?_, fun j u hu hplace => ?_, fun hheld hnil => ?_⟩
  · rw [hserver]
    exact h.opened (hdata ▸ hclosed)
  · rw [hserver] at hw
    rw [hdata, State.Behind, htasks]
    exact (h.server w hw).imp_right Pool.exists_add
  · rw [htasks] at hu
    rw [hdata, hserver]
    rcases Pool.getElem?_add hu with ⟨-, rfl⟩ | hold
    · exact absurd hplace hfirst
    · exact h.phases j u hold hplace
  · rw [State.Pending, htasks]
    rw [hdata] at hnil
    refine Pool.exists_add (h.pending ?_ hnil)
    rw [State.Held, hserver, htasks] at hheld
    refine hheld.imp_right ?_
    rintro ⟨k, v, hv, w, htaken⟩
    rcases Pool.getElem?_add hv with ⟨-, rfl⟩ | hold
    · exact absurd (congrArg Phase.place htaken) hfirst
    · exact ⟨k, v, hold, w, htaken⟩

/-- **Every step keeps the invariant**, under the condition. -/
theorem Inv.step {event : Event} (h : Inv s) (hsteady : Steady s event)
    (hstep : s.step event = some s') : Inv s' := by
  cases event with
  | begin command => exact h.begin hstep
  | task i e =>
    obtain ⟨t, ht, hstep⟩ := Option.bind_eq_some_iff.mp hstep
    obtain ⟨phase, data, server, hmove, rfl⟩ := taskStep_move hstep
    exact h.moved ht hsteady hmove
  | mutate env op =>
    obtain ⟨data, hdata, hstep⟩ := Option.bind_eq_some_iff.mp hstep
    split_ifs at hstep with hnot
    obtain ⟨hauthorizes, hfresh⟩ := not_or.mp hnot
    split at hstep
    · rename_i new hperform
      obtain rfl := Option.some.inj hstep
      have hsame := sameData_perform hdata hperform hauthorizes (not_not.mp hfresh)
      exact h.same rfl rfl hsame fun w hw => ⟨w, hw, rfl⟩
    · cases hstep
  | openVault data =>
    rw [State.step] at hstep
    split_ifs at hstep with hclosed
    obtain rfl := Option.some.inj hstep
    have hnone : s.data = none := Option.isNone_iff_eq_none.mp hclosed
    have hserver := h.opened hnone
    -- While the vault is locked no owner of the mutex has read it.
    refine ⟨h.linked, (by rintro ⟨⟩), fun w hw => ?_, fun j u hu hplace => ?_, fun hheld _ => ?_⟩
    · rw [hserver] at hw
      cases hw
    · have hold := h.phases j u hu hplace
      rw [PhaseOk, hnone] at hold
      rw [PhaseOk]
      split at hold <;> first
        | exact hold
        | obtain ⟨_, habsurd, -⟩ := hold
          cases habsurd
    · rcases hheld with ⟨w, hw⟩ | ⟨k, v, hv, w, htaken⟩
      · rw [hserver] at hw
        cases hw
      · have hold := h.phases k v hv (congrArg Phase.place htaken)
        rw [PhaseOk, htaken, hnone] at hold
        obtain ⟨_, habsurd, -⟩ := hold
        cases habsurd
  | reload data =>
    obtain ⟨old, -, rfl⟩ := Option.map_eq_some_iff.mp hstep
    rcases hsteady with hsame | ⟨hserver, hline⟩
    · exact h.same rfl rfl hsame fun w hw => ⟨w, hw, rfl⟩
    · refine Inv.idle h.linked hserver fun j u hu hplace => ?_
      have hfirst := h.linked.first j u hu hplace
      rw [hline] at hfirst
      cases hfirst
  | serverEnds =>
    obtain ⟨w, hw, rfl⟩ := Option.map_eq_some_iff.mp hstep
    refine h.same rfl rfl (.inl rfl) fun v hv => ?_
    obtain rfl := Option.some.inj hv
    exact ⟨w, hw, rfl⟩

theorem inv_init : Inv .init := by
  refine Inv.idle State.linked_init rfl fun j u hu => ?_
  rw [State.init, List.getElem?_nil] at hu
  cases hu

theorem inv_of_run {trace : List Event} (hok : control.Meets Steady trace)
    (hrun : control.run trace = some s) : Inv s :=
  control.run_invariant_of inv_init (fun _ _ _ hinv hok hstep => hinv.step hok hstep) hok hrun

/-! ### The agreement -/

/-- The command has begun and is not back; the autostart between two attempts is back. -/
def Task.InProgress (t : Task) : Prop :=
  t.phase ≠ .done ∧ ¬(t.phase = .called ∧ t.command = .autostart)

/-- No command is in progress. -/
def State.Quiet (s : State) : Prop :=
  ∀ (i : ℕ) (t : Task), s.tasks[i]? = some t → ¬t.InProgress

theorem inProgress_of_phase {t : Task} (hdone : t.phase ≠ .done) (hcalled : t.phase ≠ .called) :
    t.InProgress :=
  ⟨hdone, fun hback => hcalled hback.1⟩

/-- With no command in progress the server has the ids of the configuration. -/
theorem Inv.agrees (h : Inv s) (hquiet : s.Quiet) {w : ServerHandle} (hw : s.server = some w) :
    w.allowedSessionIds = idsOf s.data ∧ w.allowedSessionIds ≠ [] := by
  have hids : w.allowedSessionIds = idsOf s.data := by
    refine (h.server w hw).resolve_right ?_
    rintro ⟨k, v, hv, snapshot, port, hwritten⟩
    refine hquiet k v hv (inProgress_of_phase ?_ ?_) <;> rw [hwritten] <;> exact nofun
  refine ⟨hids, fun hnil => ?_⟩
  obtain ⟨k, v, hv, hpending⟩ := h.pending (.inl ⟨w, hw⟩) (hids ▸ hnil)
  refine hquiet k v hv (inProgress_of_phase ?_ ?_) <;> intro heq <;> rw [heq] at hpending <;>
    cases hpending

/-! ### A removed session -/

/-- Of the commands that have not written the server yet, only the `i`-th one leaves it with the
session. -/
def BehindOnly (i : ℕ) (sessionId : String) (s : State) : Prop :=
  ∀ (k : ℕ) (v : Task) (before : List String) (snapshot : VaultData) (port : Option UInt16),
    s.tasks[k]? = some v → v.phase = .written before snapshot port → sessionId ∈ before → k = i

/-- A command that begins to write leaves the server with what was configured. -/
theorem BehindOnly.moved {j : ℕ} {sessionId : String} (h : BehindOnly j sessionId s)
    (ht : s.tasks[i]? = some t) (hmove : Move s i t e phase data server)
    (hnot : sessionId ∉ s.configured) :
    BehindOnly j sessionId (s.moved i t phase data server) := by
  intro k v before snapshot port hv hwritten hmem
  rcases Pool.getElem?_set hv with ⟨rfl, rfl⟩ | ⟨-, hold⟩
  · dsimp only at hwritten
    cases hmove with
    | @mutation op env old new hop hdata =>
      have hbefore : before = configuredIds old := by
        obtain ⟨command, taskPhase⟩ := t
        rw [Task.afterMutation] at hwritten
        split at hwritten <;> cases hwritten <;> rfl
      rw [hbefore] at hmem
      rw [State.configured, hdata] at hnot
      exact absurd hmem hnot
    | quit _ _ _ hback =>
      rcases hback with rfl | ⟨rfl, -⟩ <;> cases hwritten
    | _ => cases hwritten
  · exact h k v before snapshot port hold hwritten hmem

/-- So does every step from a state in which the session is not configured. -/
theorem BehindOnly.step {event : Event} {j : ℕ} {sessionId : String} (h : BehindOnly j sessionId s)
    (hnot : sessionId ∉ s.configured) (hstep : s.step event = some s') :
    BehindOnly j sessionId s' := by
  cases event with
  | begin command =>
    have htasks : s'.tasks = s.tasks ++ [⟨command, command.firstPhase⟩] := by
      rw [State.step] at hstep
      split at hstep
      · rename_i hphase
        obtain rfl := Option.some.inj hstep
        rw [hphase]
      · obtain rfl := Option.some.inj hstep
        rfl
    intro k v before snapshot port hv hwritten hmem
    rw [htasks] at hv
    rcases Pool.getElem?_add hv with ⟨-, rfl⟩ | hold
    · cases command <;> cases hwritten
    · exact h k v before snapshot port hold hwritten hmem
  | task i e =>
    obtain ⟨t, ht, hstep⟩ := Option.bind_eq_some_iff.mp hstep
    obtain ⟨phase, data, server, hmove, rfl⟩ := taskStep_move hstep
    exact h.moved ht hmove hnot
  | mutate | openVault | reload | serverEnds =>
    obtain ⟨htasks, -⟩ := frame_of_step hstep (fun _ heq => by cases heq)
      fun _ _ heq => by cases heq
    intro k v before snapshot port hv
    rw [htasks] at hv
    exact h k v before snapshot port hv

/-- **A removed session is not let pass** once the command that removed it is back, as long as it
is not configured again. -/
theorem not_admits_of_removed {sessionId : String} {s₁ s₂ : State} {rest : List Event}
    (h : Inv s) (hsteady : Steady s (.task i e)) (hstep : control.step s (.task i e) = some s₁)
    (hbefore : sessionId ∈ s.configured) (hafter : sessionId ∉ s₁.configured)
    (hok : control.MeetsFrom (fun s event => Steady s event ∧ sessionId ∉ s.configured) s₁ rest)
    (hrun : control.runFrom s₁ rest = some s₂) (hlast : sessionId ∉ s₂.configured)
    (hback : ∀ t, s₂.tasks[i]? = some t → ¬t.InProgress) : ¬s₂.Admits sessionId := by
  have hinv₁ : Inv s₁ := h.step hsteady hstep
  have honly₁ : BehindOnly i sessionId s₁ := by
    -- A command that was behind before has the ids that are configured, before and after.
    intro k v before snapshot port hv hwritten _
    by_contra hne
    obtain ⟨t, ht, htask⟩ := Option.bind_eq_some_iff.mp hstep
    obtain ⟨phase, data, server, hmove, rfl⟩ := taskStep_move htask
    rcases Pool.getElem?_set hv with ⟨heq, -⟩ | ⟨-, hold⟩
    · exact hne heq
    · have hplace : v.place = .inside := congrArg Phase.place hwritten
      have hthen := h.phases k v hold hplace
      have hnow := hinv₁.phases k v hv hplace
      rw [PhaseOk, hwritten] at hthen hnow
      obtain ⟨current, hcurrent, hids, -⟩ := hthen
      obtain ⟨current', hcurrent', hids', -⟩ := hnow
      have hsame : (s.moved i t phase data server).configured = s.configured := by
        rw [State.configured, State.configured, hcurrent, hcurrent']
        exact hids'.symm.trans hids
      exact hafter (hsame ▸ hbefore)
  obtain ⟨hinv, honly⟩ : Inv s₂ ∧ BehindOnly i sessionId s₂ :=
    control.runFrom_invariant_of (I := fun s => Inv s ∧ BehindOnly i sessionId s)
      (fun s event s' hs hok hstep => ⟨hs.1.step hok.1 hstep, hs.2.step hok.2 hstep⟩)
      ⟨hinv₁, honly₁⟩ hok hrun
  rintro ⟨w, hrunning, hmem⟩
  rcases hinv.server w (server_of_running hrunning) with heq | ⟨k, v, hv, snapshot, port, hwritten⟩
  · rw [heq] at hmem
    exact hlast hmem
  · obtain rfl := honly k v _ snapshot port hv hwritten hmem
    refine hback v hv (inProgress_of_phase ?_ ?_) <;> rw [hwritten] <;> exact nofun

/-- **The API lets pass what the configuration authorizes.**  In a run in which every restore that
gets the mutex has the ids of the current settings, and no open vault is replaced under a server:
with no command in progress a running server has just the sessions of
`configured_allowed_sessions`, and at least one; and a session that a command has removed is not let
pass once the command is back, until it is configured again. -/
theorem authorization_of_run {trace : List Event} (hok : control.Meets Steady trace)
    (hrun : control.run trace = some s) :
    (s.Quiet → ∀ w, s.running = some w → w.allowedSessionIds ≠ [] ∧
      ∃ data, s.data = some data ∧ w.allowedSessionIds = (configuredAllowedSessions data).1) ∧
    ∀ (sessionId : String) (i : ℕ) (e : TaskEvent) (s₁ s₂ : State) (rest : List Event),
      Steady s (.task i e) → control.step s (.task i e) = some s₁ →
      sessionId ∈ s.configured → sessionId ∉ s₁.configured →
      control.MeetsFrom (fun s event => Steady s event ∧ sessionId ∉ s.configured) s₁ rest →
      control.runFrom s₁ rest = some s₂ → sessionId ∉ s₂.configured →
      (∀ t, s₂.tasks[i]? = some t → ¬t.InProgress) → ¬s₂.Admits sessionId := by
  have hinv := inv_of_run hok hrun
  refine ⟨fun hquiet w hrunning => ?_, fun sessionId i e s₁ s₂ rest hsteady hstep hbefore hafter
    hrest hrun' hlast hback => ?_⟩
  · have hserver := server_of_running hrunning
    obtain ⟨hids, hsome⟩ := hinv.agrees hquiet hserver
    refine ⟨hsome, ?_⟩
    cases hdata : s.data with
    | none =>
      rw [hinv.opened hdata] at hserver
      cases hserver
    | some data =>
      rw [hdata] at hids
      exact ⟨data, rfl, hids⟩
  · exact not_admits_of_removed hinv hsteady hstep hbefore hafter hrest hrun' hlast hback

/-- Every command is back. -/
def State.allBack (s : State) : Bool :=
  s.tasks.all fun t => match t.phase with
    | .done => true
    | _ => false

theorem quiet_of_allBack (h : s.allBack = true) : s.Quiet := by
  intro i t ht hprogress
  have hback := List.all_eq_true.mp h t (List.mem_of_getElem? ht)
  split at hback
  · rename_i hdone
    exact hprogress.1 hdone
  · cases hback

/-- The update of the settings without a replacement. -/
theorem authorization_of_run_updated :
    ∃ s, control.run (.openVault exampleVault :: startRun 0 ++ updateRun 1) = some s ∧
    ∃ w, s.running = some w ∧ w.allowedSessionIds = ["s2"] ∧
      ∃ data, s.data = some data ∧ w.allowedSessionIds = (configuredAllowedSessions data).1 := by
  have hok : control.Meets Steady
      (.openVault exampleVault :: startRun 0 ++ updateRun 1) := by decide +kernel
  have hend : ((control.run (.openVault exampleVault :: startRun 0 ++ updateRun 1)).any fun s =>
      s.allBack && s.served = some ["s2"]) = true := by decide +kernel
  obtain ⟨s, hrun, hs⟩ := (Option.any_eq_true _ _).mp hend
  obtain ⟨hback, hserved⟩ := Bool.and_eq_true_iff.mp hs
  obtain ⟨w, hw, hids⟩ := Option.map_eq_some_iff.mp (of_decide_eq_true hserved)
  have hagrees := (authorization_of_run hok hrun).1 (quiet_of_allBack hback) w hw
  exact ⟨s, hrun, w, hw, hids, hagrees.2⟩

/-- The configuration is replaced; the restore reads the settings, which are changed before it has
the mutex. -/
def restoredRun : List Event :=
  .openVault exampleVault :: startRun 0 ++
    [.begin .replaceConfig, .task 1 .acquire, .task 1 .take, .task 1 (.replaceData none),
      .task 1 .read] ++
    updateRun 2 ++ restoreRun 1

/-- **The restored server has the sessions of before**: no command is in progress, and the server
lets a session pass that is not configured any more. -/
theorem authorization_restored :
    ¬∀ (trace : List Event) (s : State), control.run trace = some s → s.Quiet →
      ∀ w, s.running = some w → w.allowedSessionIds = s.configured := by
  intro h
  have hend : ((control.run restoredRun).any fun s =>
      s.allBack && s.served = some ["s1"] && s.configured = ["s2"]) = true := by decide +kernel
  obtain ⟨s, hrun, hs⟩ := (Option.any_eq_true _ _).mp hend
  obtain ⟨hs, hconfigured⟩ := Bool.and_eq_true_iff.mp hs
  obtain ⟨hback, hserved⟩ := Bool.and_eq_true_iff.mp hs
  obtain ⟨w, hw, hids⟩ := Option.map_eq_some_iff.mp (of_decide_eq_true hserved)
  have heq := h restoredRun s hrun (quiet_of_allBack hback) w hw
  rw [hids, of_decide_eq_true hconfigured] at heq
  exact absurd heq (by decide)

end Control
end Api
end HelmSsh
