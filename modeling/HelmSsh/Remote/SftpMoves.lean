/-
# What a step does to the SFTP sessions

The steps of the runtime, seen from the table of the SFTP sessions: a step of a call on it, or
one of a teardown, which waits for the lock of its connection, takes records out of the table and
closes them (`moved_of_step`).  But for the steps of an `open_sftp` itself, a step only lets a
session fade: its record leaves the table, and its channel is closed (`Open.Fades`).

A record that a call or a teardown is closing has left the table for good (`Gone`), so that a
record in the table was never closed: `wf_of_run`.
-/

import HelmSsh.Remote.Stages

namespace HelmSsh
namespace Remote

/-- The sessions that a teardown has taken and is closing. -/
def Stage.sessions : Stage → List ℕ
  | .transfersListing sessions | .transfersCanceling sessions _ | .sftpClosing sessions => sessions
  | _ => []

/-- The sessions that `close_all_orphans` has drained and is closing. -/
def Shutdown.sessions : Shutdown → List ℕ
  | .transfersListing sessions | .transfersCanceling sessions _ | .sftpClosing sessions => sessions
  | _ => []

namespace Sftp

/-- The record of the call has been in the table, or the call has failed. -/
def OpenPhase.settled : OpenPhase → Bool
  | .published | .returned _ => true
  | _ => false

/-- A `close_sftp` has removed the record and not yet closed it. -/
def ClosePhase.closing : ClosePhase → Bool
  | .removed | .listing | .canceling _ => true
  | .begun | .returned _ => false

/-- A record that has left the table for good. -/
def State.Gone (s : State) (i : ℕ) : Prop :=
  ∃ o, s.opens[i]? = some o ∧ o.listed = false ∧ o.phase.settled = true

/-- A record that a teardown is closing. -/
def Closing (s : Runtime) (i : ℕ) : Prop :=
  (∃ (c : ℕ) (r : ConnectionRecord), s.connections[c]? = some r ∧ i ∈ r.stage.sessions) ∨
    i ∈ s.shutdown.sessions

namespace Open

/-- A session after its record has left the table, or was closed. -/
structure Fades (o o' : Open) : Prop where
  connectionId : o'.connectionId = o.connectionId
  phase : o'.phase = o.phase
  listed : o'.listed = true → o.listed = true ∧ o'.closed = o.closed
  channel : o'.channel = true → o.channel = true
  closed : o'.closed = true → o.closed = true ∨ o.phase.settled = true
  builder : o'.builder = o.builder ∨ o'.listed = false ∧ o.phase.settled = true

theorem Fades.refl (o : Open) : o.Fades o :=
  ⟨rfl, rfl, fun h => ⟨h, rfl⟩, fun h => h, .inl, .inl rfl⟩

/-- The record and the channel of a session belong to the phase of its call. -/
structure Wf (i : ℕ) (o : Open) : Prop where
  listed : o.listed = true →
    (o.phase = .published ∨ o.phase = .returned (some i)) ∧ o.closed = false
  channel : o.channel = true →
    o.phase = .opened ∨ o.phase = .published ∨ o.phase = .returned (some i)
  closed : o.closed = true → o.phase.settled = true
  builder : o.phase = .opened ∨ o.listed = true → o.builder = true

variable {i : ℕ} {o o' : Open}

theorem Fades.wf (h : o.Fades o') (ho : o.Wf i) : o'.Wf i where
  listed hl := by
    obtain ⟨hold, hclosed⟩ := h.listed hl
    rw [h.phase, hclosed]
    exact ho.listed hold
  channel hc := by
    rw [h.phase]
    exact ho.channel (h.channel hc)
  closed hc := by
    rw [h.phase]
    rcases h.closed hc with hold | hsettled
    · exact ho.closed hold
    · exact hsettled
  builder hb := by
    rcases h.builder with hsame | ⟨hunlisted, hsettled⟩
    · rw [hsame]
      rw [h.phase] at hb
      exact ho.builder (hb.imp_right fun hl => (h.listed hl).1)
    · rcases hb with hp | hl
      · rw [← h.phase, hp] at hsettled
        cases hsettled
      · rw [hunlisted] at hl
        cases hl

theorem Wf.settled (h : o.Wf i) (hl : o.listed = true) : o.phase.settled = true := by
  rcases (h.listed hl).1 with hp | hp
  all_goals
    rw [hp]
    rfl

theorem Wf.bare (h : o.Wf i) (hp : o.phase.settled = false) :
    o.listed = false ∧ o.closed = false := by
  constructor
  · rw [← Bool.not_eq_true]
    intro hl
    rw [h.settled hl] at hp
    cases hp
  · rw [← Bool.not_eq_true]
    intro hc
    rw [h.closed hc] at hp
    cases hp

end Open

/-- What a step that is not one of an `open_sftp` does to the locks of the connections. -/
inductive LockMove (e : Remote.Event) (l : KeyedLocks ℕ Caller) : KeyedLocks ℕ Caller → Prop where
  | same : LockMove e l l
  | get (c : ℕ) (action : TeardownAction) (he : e = .teardown c action) :
    LockMove e l (l.get (.teardown c) c)
  | lock (c : ℕ) (action : TeardownAction) (he : e = .teardown c action) :
    LockMove e l (l.lock (.teardown c))
  | drop (c : ℕ) (action : TeardownAction) (he : e = .teardown c action) :
    LockMove e l (l.drop (.teardown c))

section LockMove

variable {e : Remote.Event} {l l' : KeyedLocks ℕ Caller}

/-- A call keeps its lock, unless it is the teardown that takes the step. -/
theorem LockMove.holds (h : LockMove e l l') {caller : Caller} {k : ℕ}
    (hne : ∀ c action, e = .teardown c action → caller ≠ .teardown c)
    (hold : l.Holds caller k) : l'.Holds caller k := by
  cases h with
  | same => exact hold
  | get c action he => exact KeyedLocks.holds_get.mpr (.inr hold)
  | lock c action he => exact KeyedLocks.holds_lock.mpr hold
  | drop c action he => exact KeyedLocks.holds_drop.mpr ⟨hne c action he, hold⟩

/-- An `open_sftp` keeps its guard. -/
theorem LockMove.guards (h : LockMove e l l') {i k : ℕ} (hold : l.Guards (.opener i) k) :
    l'.Guards (.opener i) k := by
  cases h with
  | same => exact hold
  | get c action he => exact KeyedLocks.guards_get.mpr hold
  | lock c action he => exact hold.lock _
  | drop c action he => exact KeyedLocks.guards_drop.mpr ⟨nofun, hold⟩

end LockMove

/-- What a step of the runtime may do to the SFTP sessions. -/
inductive Moved (s : Runtime) (e : Remote.Event) : State → Prop where
  | call (event : Event) (s' : State) (he : e = .sftp event)
    (h : step s.surroundings s.sftp event = some s') : Moved s e s'
  | locks (l : KeyedLocks ℕ Caller) (h : LockMove e s.sftp.locks l) :
    Moved s e { s.sftp with locks := l }
  | take (ids : List ℕ) (l : KeyedLocks ℕ Caller) (h : LockMove e s.sftp.locks l)
    (he : (∃ c, e = .teardown c (.takeSftp ids)) ∨ e = .shutdown .drainSftp) :
    Moved s e { (s.takeSessions ids).sftp with locks := l }
  | cancel (k : ℕ) : Moved s e (s.sftp.cancelTransfer k)
  | close (i : ℕ) (h : Closing s i) : Moved s e (s.sftp.closeRecord i)

@[simp] theorem cancelForward_sftp (s : Runtime) (i : ℕ) (r : Forward.ForwardRecord)
    (found : Bool) : (s.cancelForward i r found).sftp = s.sftp := by
  unfold Runtime.cancelForward
  split
  · split_ifs <;> rfl
  · rfl

variable {s s' : Runtime}

/-- **A step of the runtime is a step of a call on the sessions, or one of a teardown.** -/
theorem moved_of_step {event : Remote.Event}
    (h : Runtime.machine.step s event = some s') : Moved s event s'.sftp := by
  cases event with
  | connect info | disconnect c =>
    obtain ⟨-, rfl⟩ := Option.ite_some_none_eq_some.mp h
    exact .locks _ .same
  | teardown c action =>
    obtain ⟨stage, hstage, he, rfl⟩ := Pool.act_eq_some.mp h
    cases action with
    | getSftpLock => exact .locks _ (.get c _ rfl)
    | acquireSftp => exact .locks _ (.lock c _ rfl)
    | abort => exact .locks _ (.drop c _ rfl)
    | takeSftp sessions => exact .take sessions _ (.drop c _ rfl) (.inl ⟨c, rfl⟩)
    | cancelTransfer sessions transfer rest => exact .cancel transfer
    | closeSftp session rest =>
      obtain ⟨r, hr, rfl⟩ := Runtime.stageOf_eq_some hstage
      refine .close session (.inl ⟨c, r, hr, ?_⟩)
      rw [show r.stage = .sftpClosing (session :: rest) from he]
      exact List.mem_cons_self
    | cancelForward forward record rest =>
      have hsame := cancelForward_sftp s forward record true
      change Moved s _ (s.cancelForward forward record true).sftp
      rw [hsame]
      exact .locks _ .same
    | _ => exact .locks _ .same
  | shutdown action =>
    obtain ⟨he, rfl⟩ := Option.ite_some_none_eq_some.mp h
    cases action with
    | close connection rest =>
      simp only [Runtime.afterShutdown]
      split_ifs
      · exact .locks _ .same
      · exact .locks _ .same
    | drainSftp => exact .take _ _ .same (.inr rfl)
    | cancelTransfer sessions transfer rest => exact .cancel transfer
    | closeSftp session rest =>
      refine .close session (.inr ?_)
      rw [show s.shutdown = .sftpClosing (session :: rest) from he]
      exact List.mem_cons_self
    | cancelForward forward record rest =>
      have hsame := cancelForward_sftp s forward record (s.hasConnection forward)
      change Moved s _ (s.cancelForward forward record (s.hasConnection forward)).sftp
      rw [hsame]
      exact .locks _ .same
    | _ => exact .locks _ .same
  | child event =>
    obtain ⟨children, _, rfl⟩ := Option.map_eq_some_iff.mp h
    exact .locks _ .same
  | sftp event =>
    obtain ⟨sftp, hstep, rfl⟩ := Option.map_eq_some_iff.mp h
    exact .call event sftp rfl hstep
  | forward event =>
    obtain ⟨forwards, _, rfl⟩ := Option.map_eq_some_iff.mp h
    exact .locks _ .same

/-! ### Where records and channels are -/

/-- What a step of an `open_sftp` does. -/
structure OpenStep (env : Surroundings) (s s' : State) (i : ℕ) (o o' : Open) : Prop where
  opens : s'.opens = s.opens.set i o'
  closes : s'.closes = s.closes
  transfers : s'.transfers = s.transfers
  connectionId : o'.connectionId = o.connectionId
  wf : o'.Wf i
  settled : o.phase.settled = true →
    o'.phase.settled = true ∧ (o'.listed = true → o.listed = true)
  /-- It returns its own record, or one that it has found. -/
  returned : ∀ existing, o'.phase = .returned (some existing) →
    o.phase = .published ∧ existing = i ∨ o.phase = .finding ∧
      ∃ p, s.opens[existing]? = some p ∧ p.usable o.connectionId = true
  published : o'.phase = .published → o'.listed = true
  inserts : o'.listed = true → o.listed = true ∨ o.phase = .opened
  keeps : o.listed = true → o'.listed = true
  /-- It opens a channel after it has looked the connection up. -/
  looked : o'.phase = .opening ∨ o'.phase = .opened →
    (o.phase = .opening ∨ o.phase = .opened) ∨ (env.connections o.connectionId).isSome = true

section OpenStep

variable {env : Surroundings} {s s' : State} {i : ℕ} {o o' : Open}

theorem Open.wf_of_bare (hlisted : o.listed = false) (hclosed : o.closed = false)
    (hchannel : o.channel = false) (hphase : o.phase ≠ .opened) : o.Wf i := by
  constructor
  · intro hl
    rw [hlisted] at hl
    cases hl
  · intro hc
    rw [hchannel] at hc
    cases hc
  · intro hc
    rw [hclosed] at hc
    cases hc
  · rintro (hp | hl)
    · exact absurd hp hphase
    · rw [hlisted] at hl
      cases hl

/-- A call goes from one phase without a record and a channel to another. -/
theorem OpenStep.of_phase (h : o.Wf i) {phase : OpenPhase} (phase' : OpenPhase)
    (hp : o.phase = phase) (hsettled : phase.settled = false) (hopened : phase ≠ .opened)
    (hphase : phase' ≠ .published ∧ phase' ≠ .opened)
    (hopens : s'.opens = s.opens.set i { o with phase := phase' })
    (hcloses : s'.closes = s.closes) (htransfers : s'.transfers = s.transfers)
    (hreturned : ∀ existing, phase' = .returned (some existing) → o.phase = .finding ∧
      ∃ p, s.opens[existing]? = some p ∧ p.usable o.connectionId = true)
    (hlooked : phase' = .opening → (env.connections o.connectionId).isSome = true) :
    ∃ o', OpenStep env s s' i o o' := by
  subst hp
  obtain ⟨hlisted, hclosed⟩ := h.bare hsettled
  have hchannel : o.channel = false := by
    rw [← Bool.not_eq_true]
    intro hc
    rcases h.channel hc with hp | hp | hp
    · exact hopened hp
    · rw [hp] at hsettled
      cases hsettled
    · rw [hp] at hsettled
      cases hsettled
  refine ⟨{ o with phase := phase' }, hopens, hcloses, htransfers, rfl,
    Open.wf_of_bare hlisted hclosed hchannel hphase.2, fun hs => ?_,
    fun existing he => .inr (hreturned existing he), fun he => absurd he hphase.1,
      fun hl => .inl hl,
    fun hl => hl, ?_⟩
  · rw [hsettled] at hs
    cases hs
  · rintro (hp | hp)
    · exact .inr (hlooked hp)
    · exact absurd hp hphase.2

/-- **A step of an `open_sftp` keeps it well formed.** -/
theorem openStep_afterOpen (h : o.Wf i) {action : OpenAction} (he : o.Enabled s i action) :
    ∃ o', OpenStep env s (s.afterOpen env i o action) i o o' := by
  have hnot : ∀ phase : OpenPhase, phase.settled = false → o.phase = phase →
      ¬ o.phase.settled = true := by
    intro phase hphase hp hs
    rw [hp, hphase] at hs
    cases hs
  cases action with
  | getLock =>
    exact OpenStep.of_phase h .waiting he rfl (by nofun) ⟨by nofun, by nofun⟩ rfl rfl
      rfl nofun nofun
  | acquire =>
    exact OpenStep.of_phase h .finding he.1 rfl (by nofun) ⟨by nofun, by nofun⟩ rfl rfl rfl nofun
      nofun
  | find =>
    have hp : o.phase = .finding := he
    simp only [State.afterOpen]
    split
    case _ existing hfound =>
      refine OpenStep.of_phase h (.returned (some existing)) hp rfl (by nofun)
        ⟨by nofun, by nofun⟩ rfl rfl rfl (fun e heq => ⟨hp, ?_⟩) nofun
      obtain rfl := Option.some.inj (OpenPhase.returned.inj heq)
      obtain ⟨hlt, husable, _⟩ := List.findIdx?_eq_some_iff_getElem.mp hfound
      exact ⟨_, List.getElem?_eq_getElem hlt, husable⟩
    case _ =>
      exact OpenStep.of_phase h .looking hp rfl (by nofun) ⟨by nofun, by nofun⟩ rfl rfl rfl nofun
        nofun
  | look =>
    simp only [State.afterOpen]
    split
    case _ connection hconnection =>
      refine OpenStep.of_phase h .opening he rfl (by nofun) ⟨by nofun, by nofun⟩ rfl rfl rfl nofun
        fun _ => ?_
      rw [hconnection]
      rfl
    case _ =>
      exact OpenStep.of_phase h (.returned none) he rfl (by nofun) ⟨by nofun, by nofun⟩ rfl rfl rfl
        nofun nofun
  | «open» ok =>
    have hp : o.phase = .opening := he
    simp only [State.afterOpen]
    split_ifs
    · obtain ⟨hlisted, hclosed⟩ := h.bare (by rw [hp]; rfl)
      refine ⟨{ o with phase := .opened, channel := true, builder := true }, rfl, rfl, rfl, rfl,
        ⟨fun hl => ?_, fun _ => .inl rfl, fun hc => ?_, fun _ => rfl⟩,
        fun hs => absurd hs (hnot _ rfl hp), nofun, nofun, .inl, fun hl => hl,
        fun _ => .inl (.inl hp)⟩
      · rw [show o.listed = true from hl] at hlisted
        cases hlisted
      · rw [show o.closed = true from hc] at hclosed
        cases hclosed
    · exact OpenStep.of_phase h (.returned none) hp rfl (by nofun) ⟨by nofun, by nofun⟩ rfl rfl rfl
        nofun nofun
  | insert =>
    have hp : o.phase = .opened := he
    obtain ⟨_, hclosed⟩ := h.bare (by rw [hp]; rfl)
    exact ⟨{ o with phase := .published, listed := true }, rfl, rfl, rfl, rfl,
      ⟨fun _ => ⟨.inl rfl, hclosed⟩, fun _ => .inr (.inl rfl), fun _ => rfl,
        fun _ => h.builder (.inl hp)⟩,
      fun hs => absurd hs (hnot _ rfl hp), nofun, fun _ => rfl, fun _ => .inr hp, fun _ => rfl,
      by nofun⟩
  | signal =>
    have hp : o.phase = .published := he
    simp only [State.afterOpen]
    split_ifs with hbuilder
    · refine ⟨{ o with phase := .returned (some i) }, rfl, rfl, rfl, rfl,
        ⟨fun hl => ⟨.inr rfl, (h.listed hl).2⟩, fun _ => .inr (.inr rfl), fun _ => rfl,
          fun _ => hbuilder⟩,
        fun _ => ⟨rfl, fun hl => hl⟩, fun existing heq => ?_, nofun, .inl, fun hl => hl, by nofun⟩
      exact .inl ⟨hp, (Option.some.inj (OpenPhase.returned.inj heq)).symm⟩
    · exact ⟨{ o with phase := .returned none, listed := false, closed := true, channel := false },
        rfl, rfl, rfl, rfl, ⟨nofun, nofun, fun _ => rfl, by nofun⟩, fun _ => ⟨rfl, nofun⟩, nofun,
        nofun, nofun, fun hl => absurd (h.builder (.inr hl)) hbuilder, by nofun⟩
  | dropCaller =>
    have hwaits : o.waits = true := he
    have hsettled : o.phase.settled = false := by
      cases hp : o.phase <;> simp_all [Open.waits, OpenPhase.settled]
    obtain ⟨hlisted, hclosed⟩ := h.bare hsettled
    exact ⟨{ o with phase := .dropped, channel := false, builder := false }, rfl, rfl, rfl, rfl,
      Open.wf_of_bare hlisted hclosed rfl (by nofun), fun hs => absurd hs (hnot _ hsettled rfl),
      nofun, nofun, .inl, fun hl => hl, by nofun⟩

end OpenStep

/-- Records and channels belong to the phases of their calls, and what is being closed has left
the table. -/
structure Wf (s : Runtime) : Prop where
  opens : ∀ (i : ℕ) (o : Open), s.sftp.opens[i]? = some o → o.Wf i
  closes : ∀ (j : ℕ) (c : Close), s.sftp.closes[j]? = some c → c.phase.closing = true →
    s.sftp.Gone c.sftpId
  closing : ∀ i, Closing s i → s.sftp.Gone i

/-- What a step does to the table of the sessions. -/
inductive OpensMove (env : Surroundings) (e : Remote.Event) (s s' : State) : Prop where
  | fades (h : Pool.Related Open.Fades s.opens s'.opens) (hlocks : LockMove e s.locks s'.locks)
  | add (c : ℕ) (h : s' = { s with opens := s.opens ++ [⟨c, .begun, false, false, false, false⟩] })
  | own (i : ℕ) (o : Open) (action : OpenAction) (hevent : e = .sftp (.openAct i action))
    (ho : s.opens[i]? = some o) (he : o.Enabled s i action) (h : s' = s.afterOpen env i o action)

theorem State.Gone.fades {s : State} {i : ℕ} (h : s.Gone i) (f : Open → Open)
    (hconnection : ∀ o, (f o).connectionId = o.connectionId) (hphase : ∀ o, (f o).phase = o.phase)
    (hlisted : ∀ o, (f o).listed = o.listed)
    (hchannel : ∀ o, (f o).channel = true → o.channel = true) :
    Pool.Related Open.Fades s.opens (s.opens.modify i f) := by
  obtain ⟨o, ho, hnot, hsettled⟩ := h
  refine Pool.related_modify_of Open.Fades.refl fun p hp => ?_
  obtain rfl := Option.some.inj (ho.symm.trans hp)
  refine ⟨hconnection o, hphase o, fun hl => ?_, hchannel o, fun _ => .inr hsettled,
    .inr ⟨(hlisted o).trans hnot, hsettled⟩⟩
  rw [hlisted, hnot] at hl
  cases hl

theorem unlist_fades (s : State) (i : ℕ) : Pool.Related Open.Fades s.opens (s.unlist i).opens :=
  Pool.related_modify (R := Open.Fades) (f := fun o => { o with listed := false }) Open.Fades.refl
    (fun _ => ⟨rfl, rfl, nofun, fun h => h, .inl, .inl rfl⟩) i

/-- A teardown takes records out of the table and begins to close them. -/
theorem Wf.takeSessions_fades (h : Wf s) (ids : List ℕ) :
    Pool.Related Open.Fades s.sftp.opens (s.takeSessions ids).sftp.opens := by
  refine Pool.related_mapIdx fun i o ho => ?_
  split_ifs with htaken
  · have hlisted := (Bool.and_eq_true_iff.mp htaken).2
    exact ⟨rfl, rfl, nofun, fun hc => hc, fun _ => .inr ((h.opens i o ho).settled hlisted),
      .inl rfl⟩
  · exact .refl o

/-- **A step of the runtime lets the sessions fade, or it is one of an `open_sftp`.** -/
theorem opensMove_of_moved {e : Remote.Event} {s' : State} (hwf : Wf s)
    (h : Moved s e s') : OpensMove s.surroundings e s.sftp s' := by
  have hrefl : Pool.Related Open.Fades s.sftp.opens s.sftp.opens := Pool.related_refl .refl
  cases h with
  | call event _ hevent hcall =>
    cases event with
    | «open» c =>
      simp only [step] at hcall
      split_ifs at hcall
      exact .add c (Option.some.inj hcall).symm
    | close sftpId =>
      obtain rfl := Option.some.inj hcall
      exact .fades hrefl .same
    | start sftpId =>
      obtain ⟨-, rfl⟩ := Option.ite_some_none_eq_some.mp hcall
      exact .fades hrefl .same
    | openAct i action =>
      obtain ⟨o, ho, hcall⟩ := Option.bind_eq_some_iff.mp hcall
      split_ifs at hcall with he
      exact .own i o action hevent ho he (Option.some.inj hcall).symm
    | closeAct j action =>
      obtain ⟨c, hc, he, rfl⟩ := Pool.act_eq_some.mp hcall
      cases action with
      | remove =>
        simp only [State.afterClose]
        split_ifs
        · exact .fades (unlist_fades _ _) .same
        · exact .fades hrefl .same
      | beginClose =>
        have hgone := hwf.closes j c hc (by rw [show c.phase = .removed from he]; rfl)
        exact .fades (hgone.fades _ (fun _ => rfl) (fun _ => rfl) (fun _ => rfl) fun _ h => h) .same
      | close =>
        have hgone := hwf.closes j c hc (by rw [show c.phase = .canceling [] from he]; rfl)
        exact .fades (hgone.fades _ (fun _ => rfl) (fun _ => rfl) (fun _ => rfl) nofun) .same
      | _ => exact .fades hrefl .same
    | transferAct k action =>
      obtain ⟨t, _, -, rfl⟩ := Pool.act_eq_some.mp hcall
      exact .fades hrefl .same
  | locks l hl => exact .fades hrefl hl
  | take ids l hl _ => exact .fades (hwf.takeSessions_fades ids) hl
  | cancel k => exact .fades hrefl .same
  | close i hclosing =>
    exact .fades ((hwf.closing i hclosing).fades _ (fun _ => rfl) (fun _ => rfl) (fun _ => rfl)
      nofun) .same

/-- A record that has left the table does not come back. -/
theorem State.Gone.of_move {e : Remote.Event} {s' : State} {i : ℕ} (hwf : Wf s)
    (hmove : OpensMove s.surroundings e s.sftp s') (h : s.sftp.Gone i) : s'.Gone i := by
  obtain ⟨o, ho, hlisted, hsettled⟩ := h
  have hkept : ∀ o' : Open, s'.opens[i]? = some o' → (o'.listed = true → o.listed = true) →
      o'.phase.settled = true → s'.Gone i := by
    intro o' ho' hl hs
    refine ⟨o', ho', ?_, hs⟩
    rw [← Bool.not_eq_true]
    intro htrue
    rw [hl htrue] at hlisted
    cases hlisted
  cases hmove with
  | fades hfades _ =>
    obtain ⟨o', ho', hf⟩ := hfades.forth ho
    exact hkept o' ho' (fun hl => (hf.listed hl).1) (by rw [hf.phase]; exact hsettled)
  | add c heq =>
    subst heq
    exact hkept o (Pool.getElem?_add_left ho) (fun hl => hl) hsettled
  | own j p action _ hp he heq =>
    subst heq
    obtain ⟨p', hp'⟩ := openStep_afterOpen (hwf.opens j p hp) he
    by_cases hij : j = i
    · subst hij
      obtain rfl := Option.some.inj (ho.symm.trans hp)
      obtain ⟨hs, hl⟩ := hp'.settled hsettled
      refine hkept p' ?_ hl hs
      rw [hp'.opens]
      exact Pool.getElem?_set_self ho
    · refine hkept o ?_ (fun hl => hl) hsettled
      rw [hp'.opens, List.getElem?_set_ne hij]
      exact ho

theorem mem_presentSessions {ids : List ℕ} {i : ℕ} :
    i ∈ s.presentSessions ids ↔ i ∈ ids ∧ ∃ o, s.sftp.opens[i]? = some o ∧ o.listed = true := by
  simp [Runtime.presentSessions, Option.any_eq_true]

theorem Wf.gone_of_taken (h : Wf s) {ids : List ℕ} {i : ℕ}
    (hi : i ∈ s.presentSessions ids) : (s.takeSessions ids).sftp.Gone i := by
  obtain ⟨hmem, o, ho, hlisted⟩ := mem_presentSessions.mp hi
  refine ⟨{ o with listed := false, closed := true }, ?_, rfl, (h.opens i o ho).settled hlisted⟩
  simp [Runtime.takeSessions, List.getElem?_mapIdx, ho, hmem, hlisted]

/-- A record that is being closed was before, or has just been taken. -/
theorem Wf.closing_of_step {event : Remote.Event} (hwf : Wf s)
    (h : Runtime.machine.step s event = some s') {i : ℕ} (hi : Closing s' i) :
    Closing s i ∨ s'.sftp.Gone i := by
  rcases hi with ⟨c, r', hr', hmem⟩ | hmem
  · rcases Runtime.stageMove_of_step h hr' with ⟨r, hr, hmove⟩ | ⟨_, hstage, _⟩
    · cases hmove with
      | same => exact .inl (.inl ⟨c, r', hr, hmem⟩)
      | begin => cases hmem
      | drained => cases hmem
      | teardown action _ he =>
        obtain ⟨_, _, _, rfl⟩ := Runtime.teardown_of_step h
        have hold : i ∈ r.stage.sessions → Closing s i ∨
            (s.afterTeardown c action).sftp.Gone i := fun hmem => .inl (.inl ⟨c, r, hr, hmem⟩)
        cases action with
        | takeSftp sessions => exact .inr (hwf.gone_of_taken hmem)
        | listTransfers sessions =>
          exact hold (by rw [show r.stage = .transfersListing sessions from he]; exact hmem)
        | cancelTransfer sessions transfer rest =>
          refine hold ?_
          rw [show r.stage = .transfersCanceling sessions (transfer :: rest) from he]
          exact hmem
        | transfersCanceled sessions =>
          exact hold (by rw [show r.stage = .transfersCanceling sessions [] from he]; exact hmem)
        | closeSftp session rest =>
          refine hold ?_
          rw [show r.stage = .sftpClosing (session :: rest) from he]
          exact List.mem_cons_of_mem session hmem
        | _ => cases hmem
    · rw [hstage] at hmem
      cases hmem
  · rcases Runtime.shutdown_of_step h with hsame | ⟨action, rfl, he, rfl⟩
    · rw [hsame] at hmem
      exact .inl (.inr hmem)
    · have hold : i ∈ s.shutdown.sessions → Closing s i ∨ (s.afterShutdown action).sftp.Gone i :=
        fun hmem => .inl (.inr hmem)
      cases action with
      | close connection rest =>
        simp only [Runtime.afterShutdown] at hmem
        split_ifs at hmem
        · cases hmem
        · cases hmem
      | drainSftp =>
        exact .inr (hwf.gone_of_taken
          (mem_presentSessions.mpr ⟨hmem, (mem_presentSessions.mp hmem).2⟩))
      | listTransfers sessions =>
        exact hold (by rw [show s.shutdown = .transfersListing sessions from he]; exact hmem)
      | cancelTransfer sessions transfer rest =>
        refine hold ?_
        rw [show s.shutdown = .transfersCanceling sessions (transfer :: rest) from he]
        exact hmem
      | transfersCanceled sessions =>
        exact hold (by rw [show s.shutdown = .transfersCanceling sessions [] from he]; exact hmem)
      | closeSftp session rest =>
        refine hold ?_
        rw [show s.shutdown = .sftpClosing (session :: rest) from he]
        exact List.mem_cons_of_mem session hmem
      | _ => cases hmem

/-- A `close_sftp` that is closing a record was before, or has just removed it. -/
theorem Wf.closes_of_moved {e : Remote.Event} {s' : State} (hwf : Wf s)
    (h : Moved s e s') {j : ℕ} {c' : Close} (hc' : s'.closes[j]? = some c')
      (hp : c'.phase.closing = true) :
    (∃ c, s.sftp.closes[j]? = some c ∧ c'.sftpId = c.sftpId ∧ c.phase.closing = true) ∨
      s'.Gone c'.sftpId := by
  have hsame : s'.closes = s.sftp.closes → ∃ c, s.sftp.closes[j]? = some c ∧
      c'.sftpId = c.sftpId ∧ c.phase.closing = true := by
    intro heq
    rw [heq] at hc'
    exact ⟨c', hc', rfl, hp⟩
  cases h with
  | call event _ _ hcall =>
    cases event with
    | «open» c | start sftpId =>
      obtain ⟨-, rfl⟩ := Option.ite_some_none_eq_some.mp hcall
      exact .inl (hsame rfl)
    | close sftpId =>
      obtain rfl := Option.some.inj hcall
      rcases Pool.getElem?_add hc' with ⟨_, rfl⟩ | hold
      · cases hp
      · exact .inl ⟨c', hold, rfl, hp⟩
    | openAct i action =>
      obtain ⟨o, ho, he, rfl⟩ := Pool.act_eq_some.mp hcall
      obtain ⟨o', ho'⟩ := openStep_afterOpen (hwf.opens i o ho) he
      exact .inl (hsame ho'.closes)
    | closeAct k action =>
      obtain ⟨c, hc, he, rfl⟩ := Pool.act_eq_some.mp hcall
      -- The call goes on, and the others stay.
      have hset : ∀ (phase : ClosePhase) (t : State), t.closes = s.sftp.closes →
          (t.setClose k { c with phase := phase }).closes[j]? = some c' →
          c.phase.closing = true → ∃ c, s.sftp.closes[j]? = some c ∧
            c'.sftpId = c.sftpId ∧ c.phase.closing = true := by
        intro phase t heq hget hclosing
        rw [State.setClose, heq] at hget
        rcases Pool.getElem?_set hget with ⟨rfl, rfl⟩ | ⟨_, hold⟩
        · exact ⟨c, hc, rfl, hclosing⟩
        · exact ⟨c', hold, rfl, hp⟩
      cases action with
      | remove =>
        simp only [State.afterClose] at hc' ⊢
        split_ifs at hc' ⊢ with hlisted
        · rcases Pool.getElem?_set hc' with ⟨rfl, rfl⟩ | ⟨_, hold⟩
          · obtain ⟨o, ho, hlisted⟩ := Option.any_eq_true _ _ |>.mp hlisted
            refine .inr ⟨{ o with listed := false }, ?_, rfl, (hwf.opens _ o ho).settled hlisted⟩
            simp [State.unlist, State.setClose, ho]
          · exact .inl ⟨c', hold, rfl, hp⟩
        · rcases Pool.getElem?_set hc' with ⟨rfl, rfl⟩ | ⟨_, hold⟩
          · cases hp
          · exact .inl ⟨c', hold, rfl, hp⟩
      | beginClose =>
        exact .inl (hset _ _ rfl hc' (by rw [show c.phase = .removed from he]; rfl))
      | list => exact .inl (hset _ _ rfl hc' (by rw [show c.phase = .listing from he]; rfl))
      | cancel transfer rest =>
        exact .inl (hset _ _ rfl hc' (by rw [show c.phase = .canceling _ from he]; rfl))
      | close => exact .inl (hset _ _ rfl hc' (by rw [show c.phase = .canceling [] from he]; rfl))
    | transferAct k action =>
      obtain ⟨t, _, -, rfl⟩ := Pool.act_eq_some.mp hcall
      exact .inl (hsame rfl)
  | locks => exact .inl (hsame rfl)
  | take ids => exact .inl (hsame rfl)
  | cancel k => exact .inl (hsame rfl)
  | close i _ => exact .inl (hsame rfl)

/-- **A step keeps records and channels where they belong.** -/
theorem Wf.step {event : Remote.Event} (h : Wf s)
    (hstep : Runtime.machine.step s event = some s') : Wf s' := by
  have hmoved := moved_of_step hstep
  have hmove := opensMove_of_moved h hmoved
  constructor
  · intro i o' ho'
    cases hmove with
    | fades hfades _ =>
      obtain ⟨o, ho, hf⟩ := hfades.back ho'
      exact hf.wf (h.opens i o ho)
    | add c heq =>
      rw [heq] at ho'
      rcases Pool.getElem?_add ho' with ⟨_, rfl⟩ | hold
      · exact Open.wf_of_bare rfl rfl rfl (by nofun)
      · exact h.opens i o' hold
    | own j p action _ hp he heq =>
      obtain ⟨p', hp'⟩ := openStep_afterOpen (h.opens j p hp) he
      rw [heq, hp'.opens] at ho'
      rcases Pool.getElem?_set ho' with ⟨rfl, rfl⟩ | ⟨_, hold⟩
      · exact hp'.wf
      · exact h.opens i o' hold
  · intro j c' hc' hp
    rcases h.closes_of_moved hmoved hc' hp with ⟨c, hc, hid, hclosing⟩ | hgone
    · rw [hid]
      exact (h.closes j c hc hclosing).of_move h hmove
    · exact hgone
  · intro i hi
    rcases h.closing_of_step hstep hi with hold | hgone
    · exact (h.closing i hold).of_move h hmove
    · exact hgone

theorem wf_init : Wf Runtime.machine.init where
  opens i o ho := by cases ho
  closes j c hc := by cases hc
  closing i hi := by
    rcases hi with ⟨c, r, hr, _⟩ | hmem
    · cases hr
    · cases hmem

theorem wf_of_run {events : List Remote.Event} (h : Runtime.machine.run events = some s) : Wf s :=
  Runtime.machine.run_invariant wf_init (fun _ _ _ => Wf.step) h

end Sftp
end Remote
end HelmSsh
