/-
# One SFTP session for each connection

`open_sftp` takes the lock of its connection in `sftp_open_locks`, searches the table for a
record of the connection that was not closed, opens a channel, and inserts its own record while
it still holds the lock.  A record in the table was never closed, since `close_sftp` and the
teardowns remove it first, so the search finds whatever record there is.

So a connection has one record at most at every moment; what an `open_sftp` returns was in the
table when it looked, or is what it has inserted; and a call that fails, that loses its caller,
or that finds another record has no open channel: `session_of_run`.
-/

import HelmSsh.GuardedInsert
import HelmSsh.Remote.SftpMoves

namespace HelmSsh
namespace Remote
namespace Sftp

/-- The call has found no record of its connection, and has not inserted its own. -/
def OpenPhase.checked : OpenPhase → Bool
  | .looking | .opening | .opened => true
  | _ => false

/-- The call holds the lock of its connection. -/
def OpenPhase.guarding : OpenPhase → Bool
  | .finding | .looking | .opening | .opened | .published => true
  | _ => false

/-- How the calls insert their records, behind the lock of their connection. -/
def insertion : GuardedInsert Open ℕ Unit Caller where
  caller := .opener
  caller_injective := Caller.opener.inj
  key o := some o.connectionId
  slot _ := ()
  waiting o := o.phase = .waiting
  guarding o := o.phase.guarding
  checked o := o.phase.checked
  active o c _ := o.listed && o.connectionId = c
  guarding_of_checked {o} h := by
    generalize o.phase = phase at h ⊢
    cases phase <;> simp_all [OpenPhase.checked, OpenPhase.guarding]
  key_of_active h := congrArg some (of_decide_eq_true (Bool.and_eq_true_iff.mp h).2)

theorem Open.Fades.insertion {o o' : Open} (h : o.Fades o') : Sftp.insertion.Quiet o o' where
  key := congrArg some h.connectionId
  slot := rfl
  waiting := congrArg (fun phase => decide (phase = OpenPhase.waiting)) h.phase
  guarding := congrArg OpenPhase.guarding h.phase
  checked := congrArg OpenPhase.checked h.phase
  active c _ hactive := by
    obtain ⟨hlisted, hc⟩ := Bool.and_eq_true_iff.mp hactive
    rw [h.connectionId] at hc
    exact Bool.and_eq_true_iff.mpr ⟨(h.listed hlisted).1, hc⟩

/-- The calls keep to the locks, and a connection has one record at most. -/
def State.Unique (s : State) : Prop :=
  insertion.Unique s.opens s.locks

theorem active_of_not_listed {o : Open} (h : o.listed = false) (c : ℕ) (u : Unit) :
    insertion.active o c u = false := by
  simp [insertion, h]

section OwnStep

variable {s : State} {i : ℕ} {o : Open}

/-- A call goes on behind the lock, before it inserts its record. -/
theorem State.Unique.goOn (h : s.Unique) (ho : s.opens[i]? = some o) (hwf : o.Wf i)
    {phase : OpenPhase} (hp : o.phase = phase) (hchecked : phase.checked = true) (o' : Open)
    (hconnection : o'.connectionId = o.connectionId) (hlisted : o'.listed = o.listed)
    (hchecked' : o'.phase.checked = true) :
    insertion.Unique (s.opens.set i o') s.locks := by
  subst hp
  have hsettled : o.phase.settled = false := by
    generalize o.phase = phase at hchecked ⊢
    cases phase <;> simp_all [OpenPhase.checked, OpenPhase.settled]
  have hbare := (hwf.bare hsettled).1
  have hwaiting : o'.phase ≠ .waiting := by
    intro hp
    rw [hp] at hchecked'
    cases hchecked'
  refine GuardedInsert.Unique.set h ho o' (GuardedInsert.Unique.replaces_held h ho
    (congrArg some hconnection) (decide_eq_false hwaiting)
    (fun _ => insertion.guarding_of_checked hchecked)
    (fun _ => ⟨hchecked, rfl, active_of_not_listed (hlisted.trans hbare)⟩) fun c u hactive => ?_)
  rw [active_of_not_listed (hlisted.trans hbare)] at hactive
  cases hactive

theorem State.Unique.done (h : s.Unique) (ho : s.opens[i]? = some o) (o' : Open)
    (hconnection : o'.connectionId = o.connectionId)
    (hlisted : o'.listed = true → o.listed = true)
    (hphase : o'.phase = .dropped ∨ ∃ result, o'.phase = .returned result) :
    insertion.Unique (s.opens.set i o') (s.locks.drop (.opener i)) := by
  have hnot : o'.phase ≠ .waiting ∧ o'.phase.guarding = false := by
    rcases hphase with hp | ⟨result, hp⟩
    all_goals
      rw [hp]
      exact ⟨by nofun, rfl⟩
  refine GuardedInsert.Unique.set h ho o' (GuardedInsert.replaces_done (congrArg some hconnection)
    (decide_eq_false hnot.1) hnot.2 fun c u hactive => .inl ?_)
  obtain ⟨hl, hc⟩ := Bool.and_eq_true_iff.mp hactive
  rw [hconnection] at hc
  exact Bool.and_eq_true_iff.mpr ⟨hlisted hl, hc⟩

/-- **A step of an `open_sftp` keeps one record for each connection.** -/
theorem State.Unique.afterOpen (h : s.Unique) {env : Surroundings} {action : OpenAction}
    (hwf : ∀ (j : ℕ) (p : Open), s.opens[j]? = some p → p.Wf j) (ho : s.opens[i]? = some o)
    (he : o.Enabled s i action) : (s.afterOpen env i o action).Unique := by
  have hown := hwf i o ho
  cases action with
  | getLock =>
    exact GuardedInsert.Unique.set h ho _
      (GuardedInsert.replaces_get rfl rfl rfl fun _ _ hactive => hactive)
  | acquire =>
    exact GuardedInsert.Unique.set h ho _ (GuardedInsert.Unique.replaces_lock h ho
      (decide_eq_true he.1) he.2 rfl rfl rfl fun _ _ hactive => hactive)
  | find =>
    have hp : o.phase = .finding := he
    simp only [State.afterOpen]
    split
    · exact h.done ho _ rfl (fun hl => hl) (.inr ⟨_, rfl⟩)
    case _ hnone =>
      have hbare := (hown.bare (by rw [hp]; rfl)).1
      have hguarding : insertion.guarding o = true := by
        rw [show insertion.guarding o = o.phase.guarding from rfl, hp]
        rfl
      refine GuardedInsert.Unique.set h ho { o with phase := .looking }
        (GuardedInsert.Unique.replaces_check h ho hguarding rfl rfl rfl
          (fun _ _ hactive => hactive) (fun c hc j p hp => ?_) (active_of_not_listed hbare))
      -- A record of the connection would have been found, since it was not closed.
      rw [← Bool.not_eq_true]
      intro hactive
      obtain ⟨hl, hconnection⟩ := Bool.and_eq_true_iff.mp hactive
      have hnot := List.findIdx?_eq_none_iff.mp hnone p (List.mem_of_getElem? hp)
      obtain rfl := Option.some.inj hc
      rw [Open.usable, hl, hconnection, ((hwf j p hp).listed hl).2] at hnot
      cases hnot
  | look =>
    have hp : o.phase = .looking := he
    simp only [State.afterOpen]
    split
    · exact h.goOn ho hown hp rfl { o with phase := .opening } rfl rfl rfl
    · exact h.done ho _ rfl (fun hl => hl) (.inr ⟨_, rfl⟩)
  | «open» ok =>
    have hp : o.phase = .opening := he
    simp only [State.afterOpen]
    split_ifs
    · exact h.goOn ho hown hp rfl { o with phase := .opened, channel := true, builder := true } rfl
        rfl rfl
    · exact h.done ho _ rfl (fun hl => hl) (.inr ⟨_, rfl⟩)
  | insert =>
    have hchecked : insertion.checked o = true := by
      rw [show insertion.checked o = o.phase.checked from rfl, show o.phase = .opened from he]
      rfl
    exact GuardedInsert.Unique.set h ho { o with phase := .published, listed := true }
      (GuardedInsert.Unique.replaces_held h ho rfl rfl
        (fun _ => insertion.guarding_of_checked hchecked) (by rintro ⟨⟩)
          fun c u _ => .inr ⟨hchecked, rfl⟩)
  | signal =>
    simp only [State.afterOpen]
    split_ifs
    · exact h.done ho _ rfl (fun hl => hl) (.inr ⟨_, rfl⟩)
    · exact h.done ho
        { o with
          phase := .returned none
          listed := false
          closed := true
          channel := false } rfl (by rintro ⟨⟩) (.inr ⟨_, rfl⟩)
  | dropCaller =>
    exact h.done ho { o with phase := .dropped, channel := false, builder := false } rfl
      (fun hl => hl) (.inl rfl)

end OwnStep

/-- **A step keeps one record for each connection.** -/
theorem State.Unique.step {s s' : Runtime} {event : Remote.Event} (h : s.sftp.Unique) (hwf : Wf s)
    (hstep : Runtime.machine.step s event = some s') : s'.sftp.Unique := by
  cases opensMove_of_moved hwf (moved_of_step hstep) with
  | fades hfades hlocks =>
    exact GuardedInsert.Unique.quiet h (hfades.mono fun _ _ hf => hf.insertion)
      (fun _ _ hold => hlocks.holds (by nofun) hold) (fun _ _ hold => hlocks.guards hold)
  | add c heq =>
    rw [heq]
    exact GuardedInsert.Unique.add h (active_of_not_listed rfl) fun _ _ => ⟨rfl, rfl⟩
  | own i o action _ ho he heq =>
    rw [heq]
    exact h.afterOpen hwf.opens ho he

theorem uniqueSession_of_run {s : Runtime} {events : List Remote.Event}
    (h : Runtime.machine.run events = some s) : s.sftp.Unique := by
  have hboth : Wf s ∧ s.sftp.Unique := by
    refine Runtime.machine.run_invariant (I := fun s => Wf s ∧ s.sftp.Unique)
      ⟨wf_init, GuardedInsert.unique_nil⟩ (fun s a s' hs hstep => ?_) h
    exact ⟨hs.1.step hstep, hs.2.step hs.1 hstep⟩
  exact hboth.2

/-! ### What an `open_sftp` returns -/

/-- The record that a call returns, or has inserted to return it. -/
def Open.Chose (o : Open) (i existing : ℕ) : Prop :=
  o.phase = .returned (some existing) ∨ o.phase = .published ∧ existing = i

/-- At some moment of the run the record was in the table: when the call searched it, or when it
had inserted its own. -/
def Seen (events : List Remote.Event) (i existing connectionId : ℕ) : Prop :=
  ∃ before after s p o, events = before ++ after ∧ Runtime.machine.run before = some s ∧
    s.sftp.opens[existing]? = some p ∧ p.listed = true ∧ p.connectionId = connectionId ∧
    s.sftp.opens[i]? = some o ∧ (o.phase = .finding ∨ existing = i ∧ o.phase = .published)

theorem Seen.append {events : List Remote.Event} {i existing c : ℕ} (h : Seen events i existing c)
    (event : Remote.Event) : Seen (events ++ [event]) i existing c := by
  obtain ⟨before, after, s, p, o, rfl, hrest⟩ := h
  exact ⟨before, after ++ [event], s, p, o, List.append_assoc .., hrest⟩

/-- **What an `open_sftp` returns was in the table when it searched it or inserted it.** -/
theorem seen_of_run {s : Runtime} {events : List Remote.Event}
    (h : Runtime.machine.run events = some s) :
    ∀ (i existing : ℕ) (o : Open), s.sftp.opens[i]? = some o → o.Chose i existing →
      Seen events i existing o.connectionId := by
  have hall := Runtime.machine.run_history_invariant
    (J := fun events s => Runtime.machine.run events = some s ∧ Wf s ∧
      ∀ (i existing : ℕ) (o : Open), s.sftp.opens[i]? = some o → o.Chose i existing →
        Seen events i existing o.connectionId) ⟨rfl, wf_init, ?_⟩ ?_ h
  · exact hall.2.2
  · intro i existing o ho
    cases ho
  · rintro events s event s' ⟨hrun, hwf, hseen⟩ hstep
    have hrun' : Runtime.machine.run (events ++ [event]) = some s' := by
      rw [Machine.run, Machine.runFrom_append, ← Machine.run, hrun]
      simp [hstep]
    refine ⟨hrun', hwf.step hstep, fun i existing o' ho' hchose => ?_⟩
    cases opensMove_of_moved hwf (moved_of_step hstep) with
    | fades hfades _ =>
      obtain ⟨o, ho, hf⟩ := hfades.back ho'
      rw [Open.Chose, hf.phase] at hchose
      rw [hf.connectionId]
      exact (hseen i existing o ho hchose).append event
    | add c heq =>
      rw [heq] at ho'
      rcases Pool.getElem?_add ho' with ⟨_, rfl⟩ | hold
      · rcases hchose with hp | ⟨hp, _⟩ <;> cases hp
      · exact (hseen i existing o' hold hchose).append event
    | own j o action _ ho he heq =>
      obtain ⟨p, hp⟩ := openStep_afterOpen (hwf.opens j o ho) he
      have hopens : s'.sftp.opens = s.sftp.opens.set j p := by
        rw [heq]
        exact hp.opens
      rw [hopens] at ho'
      rcases Pool.getElem?_set ho' with ⟨rfl, rfl⟩ | ⟨_, hold⟩
      · rw [hp.connectionId]
        rcases hchose with hreturned | ⟨hpublished, hown⟩
        · rcases hp.returned existing hreturned with ⟨hpublished, hown⟩ | ⟨hfinding, q, hq, husable⟩
          · exact (hseen i existing o ho (.inr ⟨hpublished, hown⟩)).append event
          · -- It has found the record in the state before the step.
            simp only [Open.usable, Bool.and_eq_true, decide_eq_true_eq] at husable
            exact ⟨events, [event], s, q, o, rfl, hrun, hq, husable.1.1, husable.1.2, ho,
              .inl hfinding⟩
        · -- It has inserted its record.
          have hget : s'.sftp.opens[i]? = some o' := by
            rw [hopens]
            exact Pool.getElem?_set_self ho
          subst hown
          exact ⟨events ++ [event], [], s', o', o', (List.append_nil _).symm, hrun', hget,
            hp.published hpublished, hp.connectionId, hget, .inr ⟨rfl, hpublished⟩⟩
      · exact (hseen i existing o' hold hchose).append event

/-- **One SFTP session for each connection.**  In every state of every run, two records of a
connection in the table are the same; the record that an `open_sftp` has returned was in the
table when it searched it or had inserted its own; and an open channel is that of a call that is
about to insert or to return its record, or that has returned it. -/
theorem session_of_run {s : Runtime} {events : List Remote.Event}
    (h : Runtime.machine.run events = some s) :
    (∀ (i j : ℕ) (o p : Open), s.sftp.opens[i]? = some o → s.sftp.opens[j]? = some p →
      o.listed = true → p.listed = true → o.connectionId = p.connectionId → i = j) ∧
    (∀ (i existing : ℕ) (o : Open), s.sftp.opens[i]? = some o →
      o.phase = .returned (some existing) → Seen events i existing o.connectionId) ∧
    ∀ (i : ℕ) (o : Open), s.sftp.opens[i]? = some o → o.channel = true →
      o.phase = .opened ∨ o.phase = .published ∨ o.phase = .returned (some i) := by
  refine ⟨fun i j o p ho hp hlisted hlisted' hconnection => ?_,
    fun i existing o ho hreturned => seen_of_run h i existing o ho (.inl hreturned),
    fun i o ho => ((wf_of_run h).opens i o ho).channel⟩
  refine (uniqueSession_of_run h).unique i j o p p.connectionId () ho hp ?_ ?_
  · exact Bool.and_eq_true_iff.mpr ⟨hlisted, decide_eq_true hconnection⟩
  · exact Bool.and_eq_true_iff.mpr ⟨hlisted', decide_eq_true rfl⟩

/-- Two calls for a connection: the second one waits for the first, and returns its record. -/
def twoOpens : List Remote.Event :=
  [.connect ⟨1, .automation⟩, .sftp (.open 0), .sftp (.open 0), .sftp (.openAct 0 .getLock),
    .sftp (.openAct 1 .getLock), .sftp (.openAct 0 .acquire), .sftp (.openAct 0 .find),
    .sftp (.openAct 0 .look), .sftp (.openAct 0 (.open true)), .sftp (.openAct 0 .insert),
    .sftp (.openAct 0 .signal), .sftp (.openAct 1 .acquire), .sftp (.openAct 1 .find)]

/-- The second call returns a record that was in the table. -/
theorem session_of_run_twoOpens :
    ∃ s o, Runtime.machine.run twoOpens = some s ∧ s.sftp.opens[1]? = some o ∧
      o.phase = .returned (some 0) ∧ o.channel = false ∧ Seen twoOpens 1 0 o.connectionId := by
  have hview : ((Runtime.machine.run twoOpens).bind fun s =>
      (s.sftp.opens[1]?).map fun o => (o.phase, o.channel)) =
        some (.returned (some 0), false) := by
    decide +kernel
  obtain ⟨s, hs, hview⟩ := Option.bind_eq_some_iff.mp hview
  obtain ⟨o, ho, hview⟩ := Option.map_eq_some_iff.mp hview
  obtain ⟨hphase, hchannel⟩ := Prod.mk.inj hview
  exact ⟨s, o, hs, ho, hphase, hchannel, (session_of_run hs).2.1 1 0 o ho hphase⟩

end Sftp
end Remote
end HelmSsh
