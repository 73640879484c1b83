/-
# An explicit stop wins

`api_server_stop` cancels the autostart before it asks for the mutex, and takes the handle once it
is the owner.  A configure-and-start that asked earlier is through by then, since the mutex is fair;
the autostart looks at its cancellation as the owner; a regenerated key needs a handle to start
from.  So what is left to start a server again is a configure-and-start that began later.

The restore of a replacement looks at nothing: it remembers that the server was running and starts
it again (`stop_undone`).

* `Stops.step` — every step keeps the invariant, when a restore that gets the mutex goes back to a
  command that no stop has followed (`NotStopped`);
* `stop_wins` — once a stop has returned, a server that is there goes back to a
  configure-and-start that began after it.
-/

import HelmSsh.Api.ControlMoves

namespace HelmSsh
namespace Api
namespace Control

open Config Vault

/-! ### The condition -/

/-- The command is an `api_server_stop` that has returned. -/
def Task.isStopped (t : Task) : Bool :=
  match t.command, t.phase with
  | .stop, .done => true
  | _, _ => false

/-- The command is an `api_server_configure_and_start`. -/
def Command.isStart : Command → Bool
  | .configureAndStart .. => true
  | _ => false

namespace State

/-- The command at `i`. -/
def commandAt (s : State) (i : ℕ) : Option Command :=
  s.tasks[i]?.map Task.command

/-- The `j`-th command is a stop that has returned. -/
def stopped (s : State) (j : ℕ) : Bool :=
  s.tasks[j]?.any Task.isStopped

/-- The command at `origin` is a configure-and-start that began after the `j`-th command. -/
def startedAfter (s : State) (j origin : ℕ) : Bool :=
  j < origin && (s.commandAt origin).any Command.isStart

/-- Every stop that has returned began before the configure-and-start at `origin`. -/
def Clear (s : State) (origin : ℕ) : Prop :=
  ∀ j < s.tasks.length, s.stopped j = true → s.startedAfter j origin = true

instance (s : State) (origin : ℕ) : Decidable (s.Clear origin) :=
  inferInstanceAs (Decidable (∀ j < s.tasks.length, _ → _))

end State

/-- The command that a waiting restore goes back to. -/
def Phase.restoreOrigin : Phase → Option ℕ
  | .restoreWaiting _ _ origin => some origin
  | _ => none

/-- A restore that gets the mutex goes back to a command that no stop has followed. -/
def NotStopped (s : State) : Event → Prop
  | .task i .acquire => ∀ t ∈ s.tasks[i]?, ∀ origin ∈ t.phase.restoreOrigin, s.Clear origin
  | _ => True

instance (s : State) (event : Event) : Decidable (NotStopped s event) := by
  induction event using Event.casesOn with
  | task i e => induction e using TaskEvent.casesOn <;> dsimp only [NotStopped] <;> infer_instance
  | _ => dsimp only [NotStopped]; infer_instance

/-! ### The phases of a stop and of a start -/

/-- The phases through which a stop and a configure-and-start go. -/
def Phase.fits (phase : Phase) : Command → Bool
  | .stop =>
    match phase with
    | .waiting | .locked | .done => true
    | _ => false
  | .configureAndStart .. =>
    match phase with
    | .waiting | .locked | .configuring _ | .written _ _ (some _) | .starting .. | .named .. |
      .binding .. | .done => true
    | _ => false
  | _ => true

variable {s s' : State} {i j : ℕ} {t : Task} {e : TaskEvent} {phase : Phase}
  {data : Option VaultData} {server : Option ServerHandle}

theorem leaves_of_stop (hfits : phase.fits .stop = true) : phase.leaves .stop = false := by
  cases phase with
  | waiting | locked | done => rfl
  | _ => cases hfits

theorem Move.of_stop (hmove : Move s i t e phase data server) (hcommand : t.command = .stop)
    (hfits : t.phase.fits t.command = true) :
    phase = .locked ∨ t.phase = .locked ∧ phase = .done ∧ server = none := by
  rw [hcommand] at hfits
  cases hmove with
  | lock => exact .inl rfl
  | stopped _ hphase => exact .inr ⟨hphase, rfl, rfl⟩
  | quit hleaves =>
    rw [hcommand, leaves_of_stop hfits] at hleaves
    cases hleaves
  | mutation hop =>
    obtain ⟨command, taskPhase⟩ := t
    cases hcommand
    cases hop
  | configure hother | cleared hother | empty hother | retry hother | syncStarting hother =>
    cases hcommand.symm.trans hother
  | reconcileLater hphase | restoreLater hphase | relock hphase | restore hphase
  | syncApplied hphase | readSettings hphase | readLatest hphase | readRestore hphase
  | reconcile hphase | name hphase | share hphase | keep hphase | generate hphase | start hphase
  | restart hphase | rekey hphase | replaced hphase =>
    rw [hphase] at hfits
    cases hfits

theorem Move.fits (hmove : Move s i t e phase data server)
    (hfits : t.phase.fits t.command = true) : phase.fits t.command = true := by
  cases hcommand : t.command with
  | stop =>
    rcases hmove.of_stop hcommand hfits with rfl | ⟨-, rfl, -⟩ <;> rfl
  | configureAndStart wanted ids autoStart =>
    rw [hcommand] at hfits
    cases hmove with
    | lock | restore | stopped | configure | reconcile | name | share | keep | generate | start |
      restart | readSettings => rfl
    | syncStarting => rfl
    | quit _ _ _ hback =>
      rcases hback with rfl | ⟨-, hauto⟩
      · rfl
      · cases hcommand.symm.trans hauto
    | mutation hop =>
      obtain ⟨command, taskPhase⟩ := t
      cases hcommand
      rw [Task.mutation] at hop
      split at hop
      case h_4 =>
        rename_i hcommand hphase
        cases hcommand
        cases hphase
        rfl
      case h_6 => cases hop
      all_goals
        rename_i hcommand hphase
        cases hcommand
    | syncApplied hphase hport =>
      rw [hphase, hport wanted ids autoStart hcommand] at hfits
      cases hfits
    | cleared hother | empty hother | retry hother => cases hcommand.symm.trans hother
    | reconcileLater hphase | restoreLater hphase | relock hphase | readLatest hphase
    | readRestore hphase | rekey hphase | replaced hphase =>
      rw [hphase] at hfits
      cases hfits
  | settingsUpdate | sessionDelete | sessionUpdate | status | regenerateKey | replaceConfig
  | autostart => rfl

theorem Move.not_done (hmove : Move s i t e phase data server) : t.phase ≠ .done := by
  intro hdone
  cases hmove with
  | quit hleaves =>
    rw [hdone] at hleaves
    cases hleaves
  | mutation hop =>
    obtain ⟨-, hleaves, -⟩ := mutation_phase hop
    rw [hdone] at hleaves
    cases hleaves
  | retry _ hphase | lock hphase | relock hphase | configure _ hphase | cleared _ hphase
  | stopped _ hphase | empty _ hphase | syncStarting _ hphase | reconcileLater hphase
  | restoreLater hphase | restore hphase | syncApplied hphase | readSettings hphase
  | readLatest hphase | readRestore hphase | reconcile hphase | name hphase | share hphase
  | keep hphase | generate hphase | start hphase | restart hphase | rekey hphase
  | replaced hphase => cases hdone.symm.trans hphase

/-- A configure-and-start that is outside of the line has returned. -/
theorem done_of_start (hstart : t.command.isStart = true) (hfits : t.phase.fits t.command = true)
    (houtside : t.place = .outside) : t.phase = .done := by
  obtain ⟨command, taskPhase⟩ := t
  cases command with
  | configureAndStart =>
    cases taskPhase with
    | done => rfl
    | called | applied | replaced | restoring => cases hfits
    | _ => cases houtside
  | _ => cases hstart

/-! ### The invariant -/

namespace State

/-- Of two commands in the line, a configure-and-start behind a stop began later. -/
def StopFirst (s : State) (i j : ℕ) : Prop :=
  s.commandAt i = some .stop → (s.commandAt j).any Command.isStart = true → i < j

/-- What a command that owns the mutex starts a server from is not stopped. -/
def Free (s : State) (t : Task) : Prop :=
  match t.phase with
  | .cleared => ∀ j, s.stopped j = false
  | .starting _ _ origin | .named _ _ _ origin | .binding _ _ _ _ origin => s.Clear origin
  | .taken h => s.Clear h.origin
  | _ => True

end State

/-- The server, and what a command starts it from, goes back to a command that no stop has followed;
a configure-and-start that has not returned began after every stop that has. -/
structure Stops (s : State) : Prop where
  linked : s.Linked
  fits : ∀ (i : ℕ) (t : Task), s.tasks[i]? = some t → t.phase.fits t.command = true
  cancelled : ∀ (i : ℕ) (t : Task), s.tasks[i]? = some t → t.command = .stop → s.cancelled = true
  ordered : ServiceLine.Ordered s.StopFirst s.line
  later : ∀ (j i : ℕ) (t : Task), s.stopped j = true → s.tasks[i]? = some t →
    t.command.isStart = true → t.phase ≠ .done → j < i
  server : ∀ h, s.server = some h → s.Clear h.origin
  free : ∀ (i : ℕ) (t : Task), s.tasks[i]? = some t → s.Free t

theorem exists_of_stopped (h : s.stopped j = true) :
    ∃ t, s.tasks[j]? = some t ∧ t.command = .stop ∧ t.phase = .done := by
  obtain ⟨t, ht, hstopped⟩ := (Option.any_eq_true _ _).mp h
  refine ⟨t, ht, ?_⟩
  rw [Task.isStopped] at hstopped
  split at hstopped
  · rename_i hcommand hphase
    exact ⟨hcommand, hphase⟩
  · cases hstopped

/-- What began later in the one state did so in the other, when the commands are the same and no
other stop has returned. -/
theorem State.Clear.mono {origin : ℕ} (h : s.Clear origin)
    (hstopped : ∀ j, s'.stopped j = true → s.stopped j = true)
    (hstart : ∀ j, s.startedAfter j origin = true → s'.startedAfter j origin = true) :
    s'.Clear origin := by
  intro j _ hj
  obtain ⟨t, ht, -⟩ := exists_of_stopped (hstopped j hj)
  exact hstart j (h j (List.getElem?_eq_some_iff.mp ht).1 (hstopped j hj))

theorem State.Free.mono {t : Task} (h : s.Free t)
    (hstopped : ∀ j, s'.stopped j = true → s.stopped j = true)
    (hstart : ∀ j origin, s.startedAfter j origin = true → s'.startedAfter j origin = true) :
    s'.Free t := by
  rw [State.Free] at h ⊢
  split at h
  · intro j
    refine Bool.eq_false_iff.mpr fun hj => ?_
    exact Bool.eq_false_iff.mp (h j) (hstopped j hj)
  all_goals first
    | exact State.Clear.mono h hstopped fun j => hstart j _
    | trivial

theorem free_of_place {t : Task} (h : t.place ≠ .inside) : s.Free t := by
  rw [State.Free]
  split <;> rename_i hphase <;> first
    | trivial
    | exact absurd (congrArg Phase.place hphase) h

/-! ### The steps of a command -/

theorem commandAt_moved (ht : s.tasks[i]? = some t) (k : ℕ) :
    (s.moved i t phase data server).commandAt k = s.commandAt k := by
  show ((s.tasks.set i { t with phase := phase })[k]?).map Task.command = _
  by_cases hik : i = k
  · subst hik
    rw [Pool.getElem?_set_self ht, State.commandAt, ht]
    rfl
  · rw [List.getElem?_set_ne hik]
    rfl

theorem startedAfter_moved (ht : s.tasks[i]? = some t) {origin : ℕ}
    (h : s.startedAfter j origin = true) :
    (s.moved i t phase data server).startedAfter j origin = true := by
  rw [State.startedAfter, commandAt_moved ht]
  exact h

/-- A command that does not return as a stop is no new stop that has returned. -/
theorem stopped_moved (hnot : ¬(t.command = .stop ∧ phase = .done))
    (hj : (s.moved i t phase data server).stopped j = true) : s.stopped j = true := by
  obtain ⟨v, hv, hcommand, hdone⟩ := exists_of_stopped hj
  rcases Pool.getElem?_set hv with ⟨-, rfl⟩ | ⟨-, hold⟩
  · exact absurd ⟨hcommand, hdone⟩ hnot
  · refine (Option.any_eq_true _ _).mpr ⟨v, hold, ?_⟩
    rw [Task.isStopped, hcommand, hdone]

theorem Stops.ordered_moved (h : Stops s) (ht : s.tasks[i]? = some t)
    (hmove : Move s i t e phase data server) :
    ServiceLine.Ordered (s.moved i t phase data server).StopFirst
      (s.moved i t phase data server).line := by
  have hsame : ∀ {line : List ℕ}, ServiceLine.Ordered s.StopFirst line →
      ServiceLine.Ordered (s.moved i t phase data server).StopFirst line := by
    intro line hline
    refine hline.imp fun a _ b _ hab => ?_
    rw [State.StopFirst, commandAt_moved ht, commandAt_moved ht]
    exact hab
  show ServiceLine.Ordered _ (ServiceLine.after s.line i t.place phase.place)
  rcases hmove.canMove with heq | ⟨hfrom, hto⟩ | ⟨hfrom, hto, -⟩ | ⟨hfrom, hto⟩
  · rw [after_same heq]
    exact hsame h.ordered
  · -- A command that joins the line once more is no configure-and-start.
    rw [hfrom, hto]
    refine hsame (ServiceLine.Ordered.join h.ordered fun k _ _ hstart => ?_)
    rw [State.commandAt, ht] at hstart
    exact absurd (done_of_start hstart (h.fits i t ht) hfrom) hmove.not_done
  · rw [hfrom, hto]
    exact hsame h.ordered
  · rw [hfrom, hto]
    exact hsame (ServiceLine.Ordered.leave h.ordered)

/-- The server after a move goes back to where the server before did, or to where the command starts
it from. -/
theorem Move.origin {w : ServerHandle} (hmove : Move s i t e phase data server)
    (hw : server = some w) :
    (∃ v, s.server = some v ∧ v.origin = w.origin) ∨
      (∃ port key ids names, t.phase = .binding port key ids names w.origin) ∨
        ∃ v, t.phase = .taken v ∧ v.origin = w.origin := by
  cases hmove with
  | retry | reconcileLater | restoreLater | lock | relock | restore | configure | cleared | mutation
  | readSettings | readLatest | readRestore | name | replaced => exact .inl ⟨w, hw, rfl⟩
  | quit _ _ hserver =>
    rcases hserver with rfl | rfl
    · exact .inl ⟨w, hw, rfl⟩
    · cases hw
  | syncApplied | syncStarting =>
    obtain ⟨v, hv, rfl⟩ := Option.map_eq_some_iff.mp hw
    exact .inl ⟨v, hv, rfl⟩
  | reconcile hphase =>
    rw [State.reconciled] at hw
    split_ifs at hw
    obtain ⟨v, hv, rfl⟩ := Option.map_eq_some_iff.mp hw
    exact .inl ⟨v, server_of_running hv, rfl⟩
  | share hphase hrunning =>
    obtain rfl := Option.some.inj hw
    exact .inl ⟨_, server_of_running hrunning, rfl⟩
  | start hphase =>
    obtain rfl := Option.some.inj hw
    exact .inr (.inl ⟨_, _, _, _, hphase⟩)
  | restart hphase =>
    obtain rfl := Option.some.inj hw
    exact .inr (.inr ⟨_, hphase, rfl⟩)
  | stopped | keep | generate | empty | rekey => cases hw

/-- So the server goes back to a command that no stop has followed. -/
theorem Stops.clear_server (h : Stops s) (ht : s.tasks[i]? = some t)
    (hmove : Move s i t e phase data server) {w : ServerHandle} (hw : server = some w) :
    s.Clear w.origin := by
  have hfree := h.free i t ht
  rw [State.Free] at hfree
  rcases hmove.origin hw with ⟨v, hv, heq⟩ | ⟨port, key, ids, names, hphase⟩ | ⟨v, hphase, heq⟩
  · exact heq ▸ h.server v hv
  · rw [hphase] at hfree
    exact hfree
  · rw [hphase] at hfree
    exact heq ▸ hfree

/-- What the command relies on after its move is true before it. -/
theorem Stops.free_move (h : Stops s) (ht : s.tasks[i]? = some t)
    (hok : NotStopped s (.task i e)) (hmove : Move s i t e phase data server) :
    s.Free { t with phase := phase } := by
  have hfree := h.free i t ht
  have hstart : t.command.isStart = true → t.phase ≠ .done → s.Clear i := by
    intro hstart hphase j _ hj
    rw [State.startedAfter, State.commandAt, ht, Bool.and_eq_true, decide_eq_true_eq]
    exact ⟨h.later j i t hj ht hstart hphase, hstart⟩
  cases hmove with
  | cleared _ _ hgo =>
    intro j
    refine Bool.eq_false_iff.mpr fun hj => ?_
    obtain ⟨u, hu, hcommand, -⟩ := exists_of_stopped hj
    rw [h.cancelled j u hu hcommand] at hgo
    cases hgo
  | @restore port ids origin hphase =>
    refine hok t ht origin ?_
    rw [hphase]
    rfl
  | syncStarting hcommand hphase =>
    refine hstart ?_ ?_
    · rw [hcommand]
      rfl
    · rw [hphase]
      exact nofun
  | readSettings hphase =>
    rw [State.Free, hphase] at hfree
    exact fun j _ hj => absurd hj (Bool.eq_false_iff.mp (hfree j))
  | name hphase | keep hphase | generate hphase =>
    rw [State.Free, hphase] at hfree
    exact hfree
  | rekey hphase hserver => exact h.server _ hserver
  | mutation hop =>
    obtain ⟨command, taskPhase⟩ := t
    rw [State.Free, Task.afterMutation]
    split <;> rename_i heq <;> split at heq <;> trivial
  | quit _ _ _ hback => rcases hback with rfl | ⟨rfl, -⟩ <;> trivial
  | _ => trivial

/-- **Every step of a command keeps the invariant.** -/
theorem Stops.moved (h : Stops s) (ht : s.tasks[i]? = some t) (hok : NotStopped s (.task i e))
    (hmove : Move s i t e phase data server) : Stops (s.moved i t phase data server) := by
  have hfits : ∀ (k : ℕ) (v : Task), (s.moved i t phase data server).tasks[k]? = some v →
      v.phase.fits v.command = true := by
    intro k v hv
    rcases Pool.getElem?_set hv with ⟨-, rfl⟩ | ⟨-, hold⟩
    · exact hmove.fits (h.fits i t ht)
    · exact h.fits k v hold
  have hcancelled : ∀ (k : ℕ) (v : Task), (s.moved i t phase data server).tasks[k]? = some v →
      v.command = .stop → s.cancelled = true := by
    intro k v hv
    rcases Pool.getElem?_set hv with ⟨-, rfl⟩ | ⟨-, hold⟩
    · exact h.cancelled i t ht
    · exact h.cancelled k v hold
  have hlinked := h.linked.moved ht hmove
  by_cases hstop : t.command = .stop ∧ phase = .done
  · -- A stop returns: it owns the mutex, and there is no server.
    obtain ⟨hcommand, rfl⟩ := hstop
    obtain ⟨hlocked, hnone⟩ : t.phase = .locked ∧ server = none := by
      rcases hmove.of_stop hcommand (h.fits i t ht) with habsurd | ⟨hlocked, -, hnone⟩
      · cases habsurd
      · exact ⟨hlocked, hnone⟩
    have hinside : t.place = .inside := congrArg Phase.place hlocked
    have hfirst := h.linked.first i t ht hinside
    refine ⟨hlinked, hfits, hcancelled, h.ordered_moved ht hmove,
      fun j k v hj hv hstart hphase => ?_,
      fun w hw => ?_, fun k v hv => ?_⟩
    · rcases Pool.getElem?_set hv with ⟨-, rfl⟩ | ⟨hki, hold⟩
      · exact absurd rfl hphase
      · by_cases hji : j = i
        · subst hji
          have hplace : v.place ≠ .outside := fun houtside =>
            hphase (done_of_start hstart (h.fits k v hold) houtside)
          have hmem : k ∈ s.line := (h.linked.mem k v hold).mpr hplace
          refine h.ordered.first hfirst hmem hki ?_ ?_
          · rw [State.commandAt, ht, ← hcommand]
            rfl
          · rw [State.commandAt, hold]
            exact hstart
        · refine h.later j k v ?_ hold hstart hphase
          obtain ⟨u, hu, hstopped⟩ := exists_of_stopped hj
          rcases Pool.getElem?_set hu with ⟨habsurd, -⟩ | ⟨-, holdu⟩
          · exact absurd habsurd hji
          · refine (Option.any_eq_true _ _).mpr ⟨u, holdu, ?_⟩
            rw [Task.isStopped, hstopped.1, hstopped.2]
    · rw [hnone] at hw
      cases hw
    · rcases Pool.getElem?_set hv with ⟨-, rfl⟩ | ⟨hki, hold⟩
      · trivial
      · exact free_of_place (h.linked.outside_of_first hfirst hold hki)
  · have hstopped : ∀ j, (s.moved i t phase data server).stopped j = true → s.stopped j = true :=
      fun j => stopped_moved hstop
    have hstart : ∀ j origin, s.startedAfter j origin = true →
        (s.moved i t phase data server).startedAfter j origin = true :=
      fun j origin => startedAfter_moved ht
    refine ⟨hlinked, hfits, hcancelled, h.ordered_moved ht hmove,
      fun j k v hj hv hisStart hphase => ?_,
      fun w hw => ?_, fun k v hv => ?_⟩
    · rcases Pool.getElem?_set hv with ⟨rfl, rfl⟩ | ⟨-, hold⟩
      · exact h.later j k t (hstopped j hj) ht hisStart hmove.not_done
      · exact h.later j k v (hstopped j hj) hold hisStart hphase
    · exact (h.clear_server ht hmove hw).mono hstopped fun j => hstart j _
    · rcases Pool.getElem?_set hv with ⟨-, rfl⟩ | ⟨-, hold⟩
      · exact (h.free_move ht hok hmove).mono hstopped hstart
      · exact (h.free k v hold).mono hstopped hstart

/-! ### The other steps -/

/-- What a new command does to the commands and the line. -/
theorem begin_eq {command : Command} (hstep : s.step (.begin command) = some s') :
    s'.tasks = s.tasks ++ [⟨command, command.firstPhase⟩] ∧ s'.server = s.server ∧
      s'.cancelled = (s.cancelled || command.cancels) ∧
      (s'.line = s.line ∧ command.isStart = false ∨ s'.line = s.line ++ [s.tasks.length]) := by
  rw [State.step] at hstep
  split at hstep
  · rename_i hphase
    obtain rfl := Option.some.inj hstep
    exact ⟨by rw [hphase], rfl, rfl, .inr rfl⟩
  · rename_i hphase
    obtain rfl := Option.some.inj hstep
    refine ⟨rfl, rfl, rfl, .inl ⟨rfl, ?_⟩⟩
    cases command <;> first | rfl | exact absurd rfl hphase

theorem Stops.begin (h : Stops s) {command : Command} (hstep : s.step (.begin command) = some s') :
    Stops s' := by
  obtain ⟨htasks, hserver, hcancel, hline⟩ := begin_eq hstep
  have hold : ∀ {k : ℕ} {v : Task}, s'.tasks[k]? = some v →
      (k = s.tasks.length ∧ v = ⟨command, command.firstPhase⟩) ∨ s.tasks[k]? = some v := by
    intro k v hv
    rw [htasks] at hv
    exact Pool.getElem?_add hv
  have hcommand : ∀ k < s.tasks.length, s'.commandAt k = s.commandAt k := by
    intro k hk
    rw [State.commandAt, htasks, List.getElem?_append_left hk]
    rfl
  have hstopped : ∀ j, s'.stopped j = true → s.stopped j = true := by
    intro j hj
    obtain ⟨v, hv, hstop, hdone⟩ := exists_of_stopped hj
    rcases hold hv with ⟨-, rfl⟩ | hv
    · cases command <;> cases hdone
    · refine (Option.any_eq_true _ _).mpr ⟨v, hv, ?_⟩
      rw [Task.isStopped, hstop, hdone]
  have hstart : ∀ j origin, s.startedAfter j origin = true → s'.startedAfter j origin = true := by
    intro j origin hj
    rw [State.startedAfter, Bool.and_eq_true] at hj ⊢
    refine ⟨hj.1, ?_⟩
    obtain ⟨c, hc, -⟩ := (Option.any_eq_true _ _).mp hj.2
    obtain ⟨v, hv, -⟩ := Option.map_eq_some_iff.mp hc
    rw [hcommand origin (List.getElem?_eq_some_iff.mp hv).1]
    exact hj.2
  refine ⟨h.linked.begin hstep, fun k v hv => ?_, fun k v hv hstop => ?_, ?_,
    fun j k v hj hv hisStart hphase => ?_, fun w hw => ?_, fun k v hv => ?_⟩
  · rcases hold hv with ⟨-, rfl⟩ | hv
    · cases command <;> rfl
    · exact h.fits k v hv
  · rw [hcancel]
    rcases hold hv with ⟨-, rfl⟩ | hv
    · obtain rfl : command = .stop := hstop
      exact Bool.or_true _
    · rw [h.cancelled k v hv hstop]
      rfl
  · have hordered : ServiceLine.Ordered s'.StopFirst s.line := by
      refine h.ordered.imp fun a ha b hb hab => ?_
      rw [State.StopFirst, hcommand a (h.linked.bound a ha), hcommand b (h.linked.bound b hb)]
      exact hab
    rcases hline with ⟨heq, -⟩ | heq
    · rw [heq]
      exact hordered
    · rw [heq]
      exact hordered.join fun k hk _ _ => h.linked.bound k hk
  · have hj' := hstopped j hj
    rcases hold hv with ⟨rfl, -⟩ | hv
    · obtain ⟨u, hu, -⟩ := exists_of_stopped hj'
      exact (List.getElem?_eq_some_iff.mp hu).1
    · exact h.later j k v hj' hv hisStart hphase
  · rw [hserver] at hw
    exact (h.server w hw).mono hstopped fun j => hstart j _
  · rcases hold hv with ⟨-, rfl⟩ | hv
    · refine free_of_place ?_
      cases command <;> exact fun heq => nomatch heq
    · exact (h.free k v hv).mono hstopped hstart

theorem Stops.same (h : Stops s) (htasks : s'.tasks = s.tasks) (hline : s'.line = s.line)
    (hcancelled : s'.cancelled = s.cancelled)
    (hserver : ∀ w, s'.server = some w → ∃ v, s.server = some v ∧ v.origin = w.origin) :
    Stops s' := by
  have hstopped : ∀ j, s'.stopped j = s.stopped j := by
    intro j
    rw [State.stopped, htasks]
    rfl
  have hcommand : ∀ k, s'.commandAt k = s.commandAt k := by
    intro k
    rw [State.commandAt, htasks]
    rfl
  have hstart : ∀ j origin, s.startedAfter j origin = true → s'.startedAfter j origin = true := by
    intro j origin hj
    rw [State.startedAfter, hcommand]
    exact hj
  have hmono : ∀ j, s'.stopped j = true → s.stopped j = true := fun j hj => hstopped j ▸ hj
  refine ⟨?_, fun k v hv => ?_, fun k v hv hstop => ?_, ?_, fun j k v hj hv => ?_, fun w hw => ?_,
    fun k v hv => ?_⟩
  · rw [State.Linked, htasks, hline]
    exact h.linked
  · exact h.fits k v (htasks ▸ hv)
  · rw [hcancelled]
    exact h.cancelled k v (htasks ▸ hv) hstop
  · rw [hline]
    refine h.ordered.imp fun a _ b _ hab => ?_
    rw [State.StopFirst, hcommand, hcommand]
    exact hab
  · exact h.later j k v (hmono j hj) (htasks ▸ hv)
  · obtain ⟨v, hv, horigin⟩ := hserver w hw
    exact horigin ▸ (h.server v hv).mono hmono fun j => hstart j _
  · exact (h.free k v (htasks ▸ hv)).mono hmono hstart

/-- **Every step keeps the invariant**, under the condition. -/
theorem Stops.step {event : Event} (h : Stops s) (hok : NotStopped s event)
    (hstep : s.step event = some s') : Stops s' := by
  cases event with
  | begin command => exact h.begin hstep
  | task i e =>
    obtain ⟨t, ht, hstep⟩ := Option.bind_eq_some_iff.mp hstep
    obtain ⟨phase, data, server, hmove, rfl⟩ := taskStep_move hstep
    exact h.moved ht hok hmove
  | mutate | openVault | reload | serverEnds =>
    obtain ⟨htasks, hline, hcancelled, hserver⟩ := frame_of_step hstep (fun _ heq => nomatch heq)
      fun _ _ heq => nomatch heq
    exact h.same htasks hline hcancelled hserver

theorem stops_init : Stops .init := by
  have hnone : ∀ (i : ℕ) (t : Task), State.init.tasks[i]? ≠ some t := by
    intro i t ht
    rw [State.init, List.getElem?_nil] at ht
    cases ht
  exact ⟨State.linked_init, fun i t ht => absurd ht (hnone i t), fun i t ht =>
    absurd ht (hnone i t),
    List.Pairwise.nil, fun _ i t _ ht => absurd ht (hnone i t), (fun _ hw => nomatch hw),
    fun i t ht => absurd ht (hnone i t)⟩

/-! ### The result -/

/-- **An explicit stop wins.**  In a run in which every restore that gets the mutex goes back to a
command that no returned stop has followed: once an `api_server_stop` has returned, a server that is
there goes back to an `api_server_configure_and_start` that began after the stop.  So no autostart,
no regenerated key, no reconciliation and no restore starts a stopped server again. -/
theorem stop_wins {trace : List Event} (hok : control.Meets NotStopped trace)
    (hrun : control.run trace = some s) (hstop : s.tasks[j]? = some ⟨.stop, .done⟩)
    {w : ServerHandle} (hw : s.server = some w) :
    j < w.origin ∧ ∃ port ids autoStart phase,
      s.tasks[w.origin]? = some ⟨.configureAndStart port ids autoStart, phase⟩ := by
  have h : Stops s :=
    control.run_invariant_of stops_init (fun _ _ _ hinv hok hstep => hinv.step hok hstep) hok hrun
  have hstopped : s.stopped j = true := by
    rw [State.stopped, hstop]
    rfl
  have hlater := h.server w hw j (List.getElem?_eq_some_iff.mp hstop).1 hstopped
  rw [State.startedAfter, Bool.and_eq_true, decide_eq_true_eq] at hlater
  refine ⟨hlater.1, ?_⟩
  obtain ⟨command, hcommand, hstart⟩ := (Option.any_eq_true _ _).mp hlater.2
  obtain ⟨⟨command, phase⟩, ht, rfl⟩ := Option.map_eq_some_iff.mp hcommand
  cases command with
  | configureAndStart port ids autoStart => exact ⟨port, ids, autoStart, phase, ht⟩
  | _ => cases hstart

/-- `api_server_stop` as the `i`-th command. -/
def stopRun (i : ℕ) : List Event :=
  [.begin .stop, .task i .acquire, .task i .take]

/-- A start, a stop and another start. -/
def restartedRun : List Event :=
  .openVault exampleVault :: startRun 0 ++ stopRun 1 ++ startRun 2

/-- The server that runs in the end is that of the second start. -/
theorem stop_wins_restarted : ∃ s, control.run restartedRun = some s ∧
    ∃ w, s.server = some w ∧ 1 < w.origin := by
  have hok : control.Meets NotStopped restartedRun := by decide +kernel
  have hend : ((control.run restartedRun).any fun s =>
      s.stopped 1 && s.server.isSome) = true := by decide +kernel
  obtain ⟨s, hrun, hs⟩ := (Option.any_eq_true _ _).mp hend
  obtain ⟨hstopped, hserver⟩ := Bool.and_eq_true_iff.mp hs
  obtain ⟨⟨command, phase⟩, ht, rfl, rfl⟩ := exists_of_stopped hstopped
  obtain ⟨w, hw⟩ := Option.isSome_iff_exists.mp hserver
  exact ⟨s, hrun, w, hw, (stop_wins hok hrun ht hw).1⟩

/-- A replacement of the configuration owns the mutex when the stop begins, and has the server
start again when the stop has returned. -/
def undoneRun : List Event :=
  .openVault exampleVault :: startRun 0 ++
    [.begin .replaceConfig, .task 1 .acquire, .task 1 .take, .begin .stop,
      .task 1 (.replaceData none), .task 2 .acquire, .task 2 .take, .task 1 .read] ++
    restoreRun 1

/-- **A restore undoes a stop**: the stop has returned, no command began after it, and the server
runs. -/
theorem stop_undone : ∃ s j, control.run undoneRun = some s ∧
    s.tasks[j]? = some ⟨.stop, .done⟩ ∧ s.tasks.length = j + 1 ∧ ∃ w, s.running = some w := by
  have hend : ((control.run undoneRun).any fun s =>
      s.stopped 2 && s.tasks.length = 3 && s.served.isSome) = true := by decide +kernel
  obtain ⟨s, hrun, hs⟩ := (Option.any_eq_true _ _).mp hend
  obtain ⟨hs, hserved⟩ := Bool.and_eq_true_iff.mp hs
  obtain ⟨hstopped, hlength⟩ := Bool.and_eq_true_iff.mp hs
  obtain ⟨⟨command, phase⟩, ht, rfl, rfl⟩ := exists_of_stopped hstopped
  refine ⟨s, 2, hrun, ht, of_decide_eq_true hlength, ?_⟩
  rw [State.served, Option.isSome_map] at hserved
  exact Option.isSome_iff_exists.mp hserved

end Control
end Api
end HelmSsh
