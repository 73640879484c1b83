/-
# The clean-up of a remote command

`RemoteCommandGuard` of `src-tauri/src/remote/ssh.rs` in `exec_with_channel_output_limit_inner` and
`exec_stream_with_channel_inner`, with the task that runs `terminate_remote_command`.  The future
of the caller stops where it awaits; there it goes on or is dropped, on the runtime that polls it.
`Drop` of the guard runs wherever the guard leaves its scope: at the end of `terminate` and of
`finish`, which own it, and with the future.  The task is a future of its own; each of its awaits
has a timeout, so an await that does not succeed fails.

* `Inv.step` — an active guard has the channel of the command and no task was spawned; a guard that
  is not active has no channel.
* `command_cleaned_up_once` — the task is started once if the request may have been sent and the
  command was not seen to end, never after the normal finish, and it comes to its end whatever
  becomes of the caller.
-/

import HelmSsh.Machine
import HelmSsh.Pool

namespace HelmSsh
namespace Remote
namespace CommandGuard

/-! ### The task -/

/-- Where `terminate_remote_process` is: at the signal, at the wait for its effect, or at the close
of the channel. -/
inductive KillPhase where
  | signaling
  | confirming
  | closing
  | done
  deriving DecidableEq

/-- What follows an await, by whether it succeeded. -/
def KillPhase.next (ok : Bool) : KillPhase → Option KillPhase
  | .signaling => some (if ok then .confirming else .closing)
  | .confirming => some .closing
  | .closing => some .done
  | .done => none

/-- Where `terminate_tracked_process` is, with the loop of `exec_control_command`. -/
inductive SweepPhase where
  | opening
  | starting
  | waiting
  /-- The command took longer than `EXEC_CLEANUP_TIMEOUT_MS`. -/
  | killing (phase : KillPhase)
  | closing
  | done
  deriving DecidableEq

/-- What follows an await, by whether it succeeded. -/
def SweepPhase.next (ok : Bool) : SweepPhase → Option SweepPhase
  | .opening => some (if ok then .starting else .done)
  | .starting => some (if ok then .waiting else .done)
  | .waiting => some (if ok then .closing else .killing .signaling)
  | .killing phase => some (((phase.next ok).map SweepPhase.killing).getD .done)
  | .closing => some .done
  | .done => none

/-- `terminate_remote_command` in its task: the two futures of its `join!`. -/
structure Task where
  channel : ℕ
  /-- The token of `RemoteProcessCleanup`. -/
  cleanup : Option String
  context : String
  kill : KillPhase
  sweep : SweepPhase
  deriving DecidableEq

/-- A task that was just spawned; without a token there is nothing to sweep. -/
def Task.new (channel : ℕ) (cleanup : Option String) (context : String) : Task where
  channel := channel
  cleanup := cleanup
  context := context
  kill := .signaling
  sweep := if cleanup.isSome then .opening else .done

/-- An await of a task is over. -/
inductive TaskMove where
  | kill (ok : Bool)
  | sweep (ok : Bool)
  deriving DecidableEq

/-- The task goes on. -/
def Task.step (t : Task) : TaskMove → Option Task
  | .kill ok => (t.kill.next ok).map fun kill => { t with kill }
  | .sweep ok => (t.sweep.next ok).map fun sweep => { t with sweep }

/-- The task has come to its end. -/
def Task.Ended (t : Task) : Prop :=
  t.kill = .done ∧ t.sweep = .done

instance (t : Task) : Decidable t.Ended :=
  inferInstanceAs (Decidable (_ ∧ _))

/-- A bound of the awaits that are left to a kill. -/
def KillPhase.rank : KillPhase → ℕ
  | .signaling => 3
  | .confirming => 2
  | .closing => 1
  | .done => 0

/-- A bound of the awaits that are left to a sweep. -/
def SweepPhase.rank : SweepPhase → ℕ
  | .opening => 7
  | .starting => 6
  | .waiting => 5
  | .killing phase => phase.rank + 1
  | .closing => 1
  | .done => 0

/-- A bound of the awaits that are left to a task. -/
def Task.rank (t : Task) : ℕ :=
  t.kill.rank + t.sweep.rank

theorem KillPhase.rank_next {ok : Bool} {phase phase' : KillPhase}
    (h : phase.next ok = some phase') : phase'.rank < phase.rank := by
  cases phase with
  | signaling =>
    cases ok with
    | true => cases h; decide
    | false => cases h; decide
  | confirming => cases h; decide
  | closing => cases h; decide
  | done => cases h

theorem SweepPhase.rank_next {ok : Bool} {phase phase' : SweepPhase}
    (h : phase.next ok = some phase') : phase'.rank < phase.rank := by
  cases phase with
  | opening | starting | waiting =>
    cases ok with
    | true => cases h; decide
    | false => cases h; decide
  | killing kill =>
    obtain rfl := Option.some.inj h
    cases hnext : kill.next ok with
    | none => exact Nat.succ_pos _
    | some kill' => exact Nat.succ_lt_succ (KillPhase.rank_next hnext)
  | closing => cases h; decide
  | done => cases h

/-- Each await brings a task nearer to its end, and leaves what it is about. -/
theorem Task.rank_step {t t' : Task} {move : TaskMove} (h : t.step move = some t') :
    t'.rank < t.rank ∧ t'.channel = t.channel ∧ t'.cleanup = t.cleanup := by
  cases move with
  | kill ok =>
    obtain ⟨kill, hkill, rfl⟩ := Option.map_eq_some_iff.mp h
    exact ⟨Nat.add_lt_add_right (KillPhase.rank_next hkill) _, rfl, rfl⟩
  | sweep ok =>
    obtain ⟨sweep, hsweep, rfl⟩ := Option.map_eq_some_iff.mp h
    exact ⟨Nat.add_lt_add_left (SweepPhase.rank_next hsweep) _, rfl, rfl⟩

theorem Task.can_step {t : Task} (h : ¬ t.Ended) : ∃ move, (t.step move).isSome = true := by
  by_cases hkill : t.kill = .done
  · refine ⟨.sweep true, ?_⟩
    rw [Task.step, Option.isSome_map]
    cases hsweep : t.sweep with
    | done => exact absurd ⟨hkill, hsweep⟩ h
    | _ => rfl
  · refine ⟨.kill true, ?_⟩
    rw [Task.step, Option.isSome_map]
    cases hphase : t.kill with
    | done => exact absurd hphase hkill
    | _ => rfl

/-! ### The guard -/

/-- `RemoteCommandGuard`. -/
structure Guard where
  channel : Option ℕ
  cleanup : Option String
  active : Bool
  deriving DecidableEq

/-- `with_cleanup`. -/
def Guard.withCleanup (channel : ℕ) (cleanup : Option String) : Guard where
  channel := some channel
  cleanup := cleanup
  active := false

/-- `mark_active`. -/
def Guard.markActive (g : Guard) : Guard :=
  { g with active := true }

/-- `finish`, before it waits for the close of the channel. -/
def Guard.finish (_ : Guard) : Guard where
  channel := none
  cleanup := none
  active := false

/-- `terminate`, before it waits for its task, and the task. -/
def Guard.terminate (g : Guard) (context : String) : Guard × Option Task :=
  match g.channel with
  | some channel =>
    ({ channel := none, cleanup := none, active := false }, some (.new channel g.cleanup context))
  | none => ({ g with active := false }, none)

/-- `Drop`: the task that it spawns. -/
def Guard.drop (g : Guard) : Option Task :=
  if g.active then g.channel.map fun channel => .new channel g.cleanup "命令任务被中止"
  else none

/-! ### The future of the caller -/

/-- Where the caller awaits, or how it has ended. -/
inductive Phase where
  /-- It was not polled. -/
  | created
  /-- `run_ssh_channel_control` of the `exec` request. -/
  | starting
  /-- The first tick of the flush interval. -/
  | ticking
  /-- The `select!` of the loop. -/
  | waiting
  /-- A branch of the loop that gives output to its receiver. -/
  | sending
  /-- `terminate`, with the index of its task, and whether the function returns after it. -/
  | terminating (task : Option ℕ) (returns : Bool)
  /-- `finish`. -/
  | finishing
  /-- The last output. -/
  | trailing
  | returned
  | dropped
  deriving DecidableEq

/-- The caller with its guard, and the tasks that were spawned. -/
structure State where
  guard : Option Guard
  tasks : List Task
  phase : Phase
  /-- The `exec` request may have been sent. -/
  sent : Bool
  /-- `wait` has returned `None`. -/
  sawEnd : Bool
  deriving DecidableEq

/-- What happens to the caller and to the tasks. -/
inductive Event where
  | poll
  | started
  /-- The request fails, or is not confirmed in time. -/
  | startFails
  | ticked
  /-- A message or a tick, which gives output or not. -/
  | message (output : Bool)
  | outputSent
  | channelEnd
  | timesOut
  | cancelSeen
  | joined
  | closed
  | returns
  | drop
  | task (i : ℕ) (move : TaskMove)
  deriving DecidableEq

namespace State

/-- The guard leaves its scope. -/
def dropGuard (s : State) : State :=
  { s with guard := none, tasks := s.tasks ++ (s.guard.bind Guard.drop).toList }

/-- The caller awaits `terminate`. -/
def terminate (s : State) (g : Guard) (context : String) (returns : Bool) : State :=
  { s with
    guard := some (g.terminate context).1
    tasks := s.tasks ++ (g.terminate context).2.toList
    phase := .terminating ((g.terminate context).2.map fun _ => s.tasks.length) returns }

end State

section Machine

variable (stream : Bool) (channel : ℕ) (cleanup : Option String)

/-- What the caller does where it waits. -/
def advance (s : State) : Phase → Event → Option State
  | .created, .poll =>
    some { s with
      guard := some (Guard.withCleanup channel cleanup).markActive
      sent := true
      phase := .starting }
  | .starting, .started => some { s with phase := if stream then .ticking else .waiting }
  | .starting, .startFails => s.guard.map fun g =>
    s.terminate g (if stream then "启动流式远程命令失败" else "启动远程命令失败") true
  | .ticking, .ticked => some { s with phase := .waiting }
  | .waiting, .message output =>
    some { s with phase := if stream && output then .sending else .waiting }
  | .sending, .outputSent => some { s with phase := .waiting }
  | .waiting, .channelEnd => s.guard.map fun g =>
    { s with guard := some g.finish, sawEnd := true, phase := .finishing }
  | .waiting, .timesOut => s.guard.map fun g =>
    s.terminate g (if stream then "流式命令执行超时" else "命令执行超时") (!stream)
  | .waiting, .cancelSeen =>
    if stream then s.guard.map fun g => s.terminate g "流式命令已取消" false else none
  | .terminating task returns, .joined =>
    if ∀ i ∈ task, ∀ t ∈ s.tasks[i]?, t.Ended then
      some { s.dropGuard with phase := if returns then .returned else .trailing }
    else none
  | .finishing, .closed =>
    some { s.dropGuard with phase := if stream then .trailing else .returned }
  | .trailing, .outputSent => some s
  | .trailing, .returns => some { s with phase := .returned }
  | .returned, .drop => none
  | .dropped, .drop => none
  | _, .drop => some { s.dropGuard with phase := .dropped }
  | _, _ => none

/-- The effect of an event. -/
def step (s : State) : Event → Option State
  | .task i move => s.tasks[i]?.bind fun t =>
    (t.step move).map fun t => { s with tasks := s.tasks.set i t }
  | event => advance stream channel cleanup s s.phase event

/-- The execution of a command. -/
def execution : Machine State Event where
  init := { guard := none, tasks := [], phase := .created, sent := false, sawEnd := false }
  step := step stream channel cleanup

/-! ### The invariant -/

/-- The guard watches over the command. -/
structure Watched (s : State) : Prop where
  guard : s.guard = some { channel := some channel, cleanup := cleanup, active := true }
  tasks : s.tasks = []
  sent : s.sent = true
  sawEnd : s.sawEnd = false

/-- The task is one of this command. -/
def Task.Of (t : Task) : Prop :=
  t.channel = channel ∧ t.cleanup = cleanup

/-- The guard has nothing left to do: nothing was sent, or the command was seen to end, or its task
was spawned. -/
structure Settled (s : State) : Prop where
  guard : ∀ g, s.guard = some g → g.active = false
  tasks : (s.sent = false ∧ s.tasks = []) ∨ (s.sawEnd = true ∧ s.tasks = []) ∨
    (s.sent = true ∧ s.sawEnd = false ∧ ∃ t, s.tasks = [t] ∧ t.Of channel cleanup)

/-- The caller has left its loop, or was dropped. -/
def Phase.Over : Phase → Prop
  | .terminating _ _ | .finishing | .trailing | .returned | .dropped => True
  | _ => False

/-- The invariant of an execution. -/
def Inv (s : State) : Prop :=
  match s.phase with
  | .created => s.guard = none ∧ s.tasks = [] ∧ s.sent = false ∧ s.sawEnd = false
  | .starting | .ticking | .waiting | .sending => Watched channel cleanup s
  | _ => Settled channel cleanup s

variable {stream : Bool} {channel : ℕ} {cleanup : Option String}

variable {s s' : State}

/-- A guard that was dropped before it did anything leaves no task. -/
theorem dropGuard_of_none (hguard : s.guard = none) (hsent : s.sent = false)
    (htasks : s.tasks = []) : Settled channel cleanup s.dropGuard where
  guard := nofun
  tasks := by
    refine .inl ⟨hsent, ?_⟩
    rw [State.dropGuard, hguard, htasks]
    rfl

/-- **A guard that is dropped while it watches starts the task.** -/
theorem Watched.dropGuard (h : Watched channel cleanup s) :
    Settled channel cleanup s.dropGuard where
  guard := nofun
  tasks := by
    refine .inr (.inr ⟨h.sent, h.sawEnd, .new channel cleanup "命令任务被中止", ?_, rfl, rfl⟩)
    rw [State.dropGuard, h.guard, h.tasks]
    rfl

/-- A guard that has nothing left to do starts nothing when it is dropped. -/
theorem Settled.dropGuard (h : Settled channel cleanup s) :
    Settled channel cleanup s.dropGuard where
  guard := nofun
  tasks := by
    have htasks : s.dropGuard.tasks = s.tasks := by
      rw [State.dropGuard]
      cases hguard : s.guard with
      | none => exact List.append_nil _
      | some g =>
        rw [Option.bind_some, Guard.drop, h.guard g hguard]
        exact List.append_nil _
    rw [htasks]
    exact h.tasks

/-- **`terminate` starts the task.** -/
theorem Watched.terminate {g : Guard} (h : Watched channel cleanup s)
    (hg : s.guard = some g) (context : String) (returns : Bool) :
    Settled channel cleanup (s.terminate g context returns) := by
  obtain rfl := Option.some.inj (h.guard.symm.trans hg)
  refine ⟨?_, .inr (.inr ⟨h.sent, h.sawEnd, .new channel cleanup context, ?_, rfl, rfl⟩)⟩
  · intro g' hg'
    obtain rfl := Option.some.inj hg'
    rfl
  · show s.tasks ++ [_] = _
    rw [h.tasks]
    rfl

/-- The caller is where its guard watches. -/
def Phase.Watching (phase : Phase) : Prop :=
  phase = .starting ∨ phase = .ticking ∨ phase = .waiting ∨ phase = .sending

theorem inv_iff_watched (h : s.phase.Watching) :
    Inv channel cleanup s ↔ Watched channel cleanup s := by
  unfold Inv
  rcases h with h | h | h | h
  · rw [h]
  · rw [h]
  · rw [h]
  · rw [h]

/-- When the caller is over, the guard has nothing left to do. -/
theorem inv_iff_settled (h : s.phase.Over) :
    Inv channel cleanup s ↔ Settled channel cleanup s := by
  unfold Inv
  unfold Phase.Over at h
  split at h
  · simp only [*]
  · simp only [*]
  · simp only [*]
  · simp only [*]
  · simp only [*]
  · exact h.elim

/-- The caller was not polled, or its guard watches, or has nothing left to do. -/
theorem Inv.cases (hinv : Inv channel cleanup s) :
    (s.phase = .created ∧ s.guard = none ∧ s.tasks = [] ∧ s.sent = false ∧ s.sawEnd = false) ∨
      (s.phase.Watching ∧ Watched channel cleanup s) ∨
      (s.phase.Over ∧ Settled channel cleanup s) := by
  have hwatching : s.phase.Watching → s.phase.Watching ∧ Watched channel cleanup s :=
    fun hphase => ⟨hphase, (inv_iff_watched hphase).mp hinv⟩
  cases hphase : s.phase with
  | created =>
    unfold Inv at hinv
    rw [hphase] at hinv
    exact .inl ⟨rfl, hinv⟩
  | starting =>
    rw [← hphase]
    exact .inr (.inl (hwatching (.inl hphase)))
  | ticking =>
    rw [← hphase]
    exact .inr (.inl (hwatching (.inr (.inl hphase))))
  | waiting =>
    rw [← hphase]
    exact .inr (.inl (hwatching (.inr (.inr (.inl hphase)))))
  | sending =>
    rw [← hphase]
    exact .inr (.inl (hwatching (.inr (.inr (.inr hphase)))))
  | _ =>
    refine .inr (.inr ⟨trivial, (inv_iff_settled ?_).mp hinv⟩)
    rw [hphase]
    exact trivial

/-- **A drop of the guard settles it**, wherever the caller is. -/
theorem Inv.dropGuard (hinv : Inv channel cleanup s) :
    Settled channel cleanup s.dropGuard := by
  rcases hinv.cases with ⟨-, hguard, htasks, hsent, -⟩ | ⟨-, hwatched⟩ | ⟨-, hsettled⟩
  · exact dropGuard_of_none hguard hsent htasks
  · exact hwatched.dropGuard
  · exact hsettled.dropGuard

theorem Inv.advance {event : Event} (hinv : Inv channel cleanup s)
    (h : advance stream channel cleanup s s.phase event = some s') : Inv channel cleanup s' := by
  have hwatched : s.phase.Watching → Watched channel cleanup s :=
    fun hphase => (inv_iff_watched hphase).mp hinv
  have hsettled : s.phase.Over → Settled channel cleanup s :=
    fun hphase => (inv_iff_settled hphase).mp hinv
  unfold CommandGuard.advance at h
  split at h
  case h_1 hphase =>
    unfold Inv at hinv
    rw [hphase] at hinv
    obtain ⟨-, htasks, -, hend⟩ := hinv
    obtain rfl := Option.some.inj h
    exact (inv_iff_watched (.inl rfl)).mpr ⟨rfl, htasks, rfl, hend⟩
  case h_2 hphase =>
    have hguard := hwatched (.inl hphase)
    obtain rfl := Option.some.inj h
    refine (inv_iff_watched ?_).mpr { hguard with }
    cases stream with
    | true => exact .inr (.inl rfl)
    | false => exact .inr (.inr (.inl rfl))
  case h_3 hphase =>
    have hguard := hwatched (.inl hphase)
    obtain ⟨g, hg, rfl⟩ := Option.map_eq_some_iff.mp h
    exact (inv_iff_settled (by exact trivial)).mpr (hguard.terminate hg _ true)
  case h_4 hphase =>
    have hguard := hwatched (.inr (.inl hphase))
    obtain rfl := Option.some.inj h
    exact (inv_iff_watched (.inr (.inr (.inl rfl)))).mpr { hguard with }
  case h_5 output hphase =>
    have hguard := hwatched (.inr (.inr (.inl hphase)))
    obtain rfl := Option.some.inj h
    refine (inv_iff_watched ?_).mpr { hguard with }
    cases stream && output with
    | true => exact .inr (.inr (.inr rfl))
    | false => exact .inr (.inr (.inl rfl))
  case h_6 hphase =>
    have hguard := hwatched (.inr (.inr (.inr hphase)))
    obtain rfl := Option.some.inj h
    exact (inv_iff_watched (.inr (.inr (.inl rfl)))).mpr { hguard with }
  case h_7 hphase =>
    have hguard := hwatched (.inr (.inr (.inl hphase)))
    obtain ⟨g, hg, rfl⟩ := Option.map_eq_some_iff.mp h
    refine (inv_iff_settled (by exact trivial)).mpr ⟨?_, .inr (.inl ⟨rfl, hguard.tasks⟩)⟩
    intro g' hg'
    obtain rfl := Option.some.inj hg'
    rfl
  case h_8 hphase =>
    have hguard := hwatched (.inr (.inr (.inl hphase)))
    obtain ⟨g, hg, rfl⟩ := Option.map_eq_some_iff.mp h
    exact (inv_iff_settled (by exact trivial)).mpr (hguard.terminate hg _ (!stream))
  case h_9 hphase =>
    have hguard := hwatched (.inr (.inr (.inl hphase)))
    split at h
    · obtain ⟨g, hg, rfl⟩ := Option.map_eq_some_iff.mp h
      exact (inv_iff_settled (by exact trivial)).mpr (hguard.terminate hg _ false)
    · cases h
  case h_10 task returns hphase =>
    have hdone := hsettled (by rw [hphase]; trivial)
    split at h
    · obtain rfl := Option.some.inj h
      refine (inv_iff_settled ?_).mpr { hdone.dropGuard with }
      cases returns with
      | true => trivial
      | false => trivial
    · cases h
  case h_11 hphase =>
    have hdone := hsettled (by rw [hphase]; trivial)
    obtain rfl := Option.some.inj h
    refine (inv_iff_settled ?_).mpr { hdone.dropGuard with }
    cases stream with
    | true => trivial
    | false => trivial
  case h_12 hphase =>
    obtain rfl := Option.some.inj h
    exact hinv
  case h_13 hphase =>
    have hdone := hsettled (by rw [hphase]; trivial)
    obtain rfl := Option.some.inj h
    exact (inv_iff_settled (by exact trivial)).mpr { hdone with }
  case h_14 => cases h
  case h_15 => cases h
  case h_16 =>
    obtain rfl := Option.some.inj h
    exact (inv_iff_settled (by exact trivial)).mpr { hinv.dropGuard with }
  case h_17 => cases h

theorem Inv.task {i : ℕ} {t t' : Task} {move : TaskMove}
    (hinv : Inv channel cleanup s) (ht : s.tasks[i]? = some t) (hmove : t.step move = some t') :
    Inv channel cleanup { s with tasks := s.tasks.set i t' } := by
  have hsome : s.tasks ≠ [] := List.ne_nil_of_mem (List.mem_of_getElem? ht)
  have hkept : Settled channel cleanup s →
      Settled channel cleanup { s with tasks := s.tasks.set i t' } := by
    rintro ⟨hguard, htasks⟩
    refine ⟨hguard, ?_⟩
    rcases htasks with ⟨-, hnil⟩ | ⟨-, hnil⟩ | ⟨hsent, hend, u, hu, hof⟩
    · exact absurd hnil hsome
    · exact absurd hnil hsome
    · rw [hu] at ht
      obtain ⟨hlt, hget⟩ := List.getElem?_eq_some_iff.mp ht
      have hi : i = 0 := Nat.lt_one_iff.mp hlt
      subst hi
      obtain rfl : u = t := hget
      obtain ⟨-, hchannel, hcleanup⟩ := Task.rank_step hmove
      refine .inr (.inr ⟨hsent, hend, t', ?_, hchannel.trans hof.1, hcleanup.trans hof.2⟩)
      show s.tasks.set 0 t' = [t']
      rw [hu]
      rfl
  rcases hinv.cases with ⟨-, -, htasks, -⟩ | ⟨-, hwatched⟩ | ⟨hover, hsettled⟩
  · exact absurd htasks hsome
  · exact absurd hwatched.tasks hsome
  · exact (inv_iff_settled (by exact hover)).mpr (hkept hsettled)

/-- **Each step keeps the invariant.** -/
theorem Inv.step {event : Event} (hinv : Inv channel cleanup s)
    (h : step stream channel cleanup s event = some s') : Inv channel cleanup s' := by
  unfold CommandGuard.step at h
  split at h
  case h_1 i move =>
    obtain ⟨t, ht, hstep⟩ := Option.bind_eq_some_iff.mp h
    obtain ⟨t', hmove, rfl⟩ := Option.map_eq_some_iff.mp hstep
    exact hinv.task ht hmove
  case h_2 => exact hinv.advance h

/-! ### A task comes to its end -/

theorem advance_tasks {event : Event}
    (h : advance stream channel cleanup s s.phase event = some s') :
    ∃ spawned, s'.tasks = s.tasks ++ spawned := by
  have hsame : s'.tasks = s.tasks → ∃ spawned, s'.tasks = s.tasks ++ spawned :=
    fun heq => ⟨[], heq.trans (List.append_nil _).symm⟩
  unfold CommandGuard.advance at h
  split at h
  case h_3 =>
    obtain ⟨g, -, rfl⟩ := Option.map_eq_some_iff.mp h
    exact ⟨_, rfl⟩
  case h_7 =>
    obtain ⟨g, -, rfl⟩ := Option.map_eq_some_iff.mp h
    exact hsame rfl
  case h_8 =>
    obtain ⟨g, -, rfl⟩ := Option.map_eq_some_iff.mp h
    exact ⟨_, rfl⟩
  case h_9 =>
    split at h
    · obtain ⟨g, -, rfl⟩ := Option.map_eq_some_iff.mp h
      exact ⟨_, rfl⟩
    · cases h
  case h_10 =>
    split at h
    · obtain rfl := Option.some.inj h
      exact ⟨_, rfl⟩
    · cases h
  case h_11 =>
    obtain rfl := Option.some.inj h
    exact ⟨_, rfl⟩
  case h_14 => cases h
  case h_15 => cases h
  case h_16 =>
    obtain rfl := Option.some.inj h
    exact ⟨_, rfl⟩
  case h_17 => cases h
  all_goals
    obtain rfl := Option.some.inj h
    exact hsame rfl

/-- Whether an event is a move of the `i`-th task. -/
def Event.moves (i : ℕ) : Event → Bool
  | .task j _ => i = j
  | _ => false

/-- A step leaves a task, or is a move of it that brings it nearer to its end. -/
theorem step_task {event : Event} {i : ℕ} {t : Task} (ht : s.tasks[i]? = some t)
    (h : step stream channel cleanup s event = some s') :
    ∃ t', s'.tasks[i]? = some t' ∧ t'.rank + (if event.moves i then 1 else 0) ≤ t.rank := by
  unfold CommandGuard.step at h
  split at h
  case h_1 j move =>
    obtain ⟨u, hu, hstep⟩ := Option.bind_eq_some_iff.mp h
    obtain ⟨u', hmove, rfl⟩ := Option.map_eq_some_iff.mp hstep
    by_cases hij : i = j
    · subst hij
      obtain rfl := Option.some.inj (ht.symm.trans hu)
      refine ⟨u', Pool.getElem?_set_self ht, ?_⟩
      have := (Task.rank_step hmove).1
      split_ifs <;> omega
    · refine ⟨t, (List.getElem?_set_ne (fun h => hij h.symm)).trans ht, ?_⟩
      rw [if_neg (by simpa [Event.moves] using hij)]
      exact Nat.le_refl _
  case h_2 hother =>
    obtain ⟨spawned, hspawned⟩ := advance_tasks h
    refine ⟨t, ?_, ?_⟩
    · rw [hspawned]
      obtain ⟨hlt, -⟩ := List.getElem?_eq_some_iff.mp ht
      rw [List.getElem?_append_left hlt]
      exact ht
    · have hmoves : event.moves i = false := by
        cases event with
        | task j move => exact absurd rfl (hother j move)
        | _ => rfl
      rw [if_neg (by rw [hmoves]; nofun)]
      exact Nat.le_refl _

/-- **A task comes to its end whatever the caller does**: its moves are at most its rank. -/
theorem runFrom_task {events : List Event} {i : ℕ} {t : Task} (ht : s.tasks[i]? = some t)
    (h : (execution stream channel cleanup).runFrom s events = some s') :
    ∃ t', s'.tasks[i]? = some t' ∧ t'.rank + events.countP (Event.moves i) ≤ t.rank := by
  induction events generalizing s t with
  | nil =>
    obtain rfl := Option.some.inj h
    exact ⟨t, ht, Nat.le_refl _⟩
  | cons event events ih =>
    obtain ⟨m, hm, hrest⟩ := Machine.runFrom_cons_eq_some _ h
    obtain ⟨u, hu, hstep⟩ := step_task ht hm
    obtain ⟨t', ht', hrank⟩ := ih hu hrest
    refine ⟨t', ht', ?_⟩
    rw [List.countP_cons]
    omega

/-- **Remote commands are cleaned up exactly once.**  At most one task is started; it is, for this
command, when the request may have been sent and the command was not seen to end, and it is not
after the normal finish.  It can always go on until it has ended, and the rest of any run, which may
drop the caller, holds at most as many of its moves as its rank. -/
theorem command_cleaned_up_once (stream : Bool) (channel : ℕ) (cleanup : Option String)
    (events : List Event) (s : State)
    (hrun : (execution stream channel cleanup).run events = some s) :
    s.tasks.length ≤ 1 ∧
    (s.phase.Over → s.sent = true → s.sawEnd = false → s.tasks.length = 1) ∧
    (s.sent = false → s.tasks = []) ∧
    (s.sawEnd = true → s.tasks = []) ∧
    (∀ t ∈ s.tasks, t.Of channel cleanup) ∧
    ∀ (i : ℕ) (t : Task), s.tasks[i]? = some t →
      (¬ t.Ended → ∃ move, (step stream channel cleanup s (.task i move)).isSome = true) ∧
      ∀ later s', (execution stream channel cleanup).runFrom s later = some s' →
        ∃ t', s'.tasks[i]? = some t' ∧ t'.rank + later.countP (Event.moves i) ≤ t.rank := by
  have hinv : Inv channel cleanup s := by
    refine Machine.run_invariant (I := Inv channel cleanup) ?_
      (fun s event s' hinv hstep => Inv.step hinv hstep) hrun
    show Inv channel cleanup
      { guard := none, tasks := [], phase := .created, sent := false, sawEnd := false }
    exact ⟨rfl, rfl, rfl, rfl⟩
  have htask : ∀ (i : ℕ) (t : Task), s.tasks[i]? = some t →
      (¬ t.Ended → ∃ move, (step stream channel cleanup s (.task i move)).isSome = true) ∧
      ∀ later s', (execution stream channel cleanup).runFrom s later = some s' →
        ∃ t', s'.tasks[i]? = some t' ∧ t'.rank + later.countP (Event.moves i) ≤ t.rank := by
    intro i t ht
    refine ⟨fun hended => ?_, fun later s' hlater => runFrom_task ht hlater⟩
    obtain ⟨move, hmove⟩ := Task.can_step hended
    refine ⟨move, ?_⟩
    rw [step, ht, Option.bind_some, Option.isSome_map]
    exact hmove
  have hempty : s.tasks = [] → s.tasks.length ≤ 1 ∧ ∀ t ∈ s.tasks, t.Of channel cleanup := by
    intro hnil
    rw [hnil]
    exact ⟨Nat.zero_le 1, nofun⟩
  rcases hinv.cases with ⟨hphase, -, hnil, hsent, -⟩ | ⟨hwatching, hwatched⟩ | ⟨-, hsettled⟩
  · refine ⟨(hempty hnil).1, ?_, fun _ => hnil, fun _ => hnil, (hempty hnil).2, htask⟩
    rw [hphase]
    exact fun hover => hover.elim
  · have hnil := hwatched.tasks
    refine ⟨(hempty hnil).1, ?_, fun _ => hnil, fun _ => hnil, (hempty hnil).2, htask⟩
    intro hover
    rcases hwatching with h | h | h | h <;> rw [h] at hover <;> exact hover.elim
  · rcases hsettled.tasks with ⟨hsent, hnil⟩ | ⟨hend, hnil⟩ | ⟨hsent, hend, t, hone, hof⟩
    · refine ⟨(hempty hnil).1, ?_, fun _ => hnil, fun _ => hnil, (hempty hnil).2, htask⟩
      intro _ hyes
      rw [hsent] at hyes
      cases hyes
    · refine ⟨(hempty hnil).1, ?_, fun _ => hnil, fun _ => hnil, (hempty hnil).2, htask⟩
      intro _ _ hno
      rw [hend] at hno
      cases hno
    · refine ⟨?_, fun _ _ _ => ?_, ?_, ?_, ?_, htask⟩
      · rw [hone]
        exact Nat.le_refl 1
      · rw [hone]
        rfl
      · rw [hsent]
        nofun
      · rw [hend]
        nofun
      · rw [hone]
        intro u hu
        obtain rfl := List.mem_singleton.mp hu
        exact hof

/-- A streamed command is dropped while it runs, after which its task goes on to its end. -/
theorem command_cleaned_up_once_dropped : ∃ s,
    (execution true 3 none).run
      [.poll, .started, .ticked, .message true, .drop, .task 0 (.kill true)] = some s ∧
      s.tasks.length = 1 := by
  refine (Option.isSome_iff_exists.mp (by decide)).imp fun s hs => ⟨hs, ?_⟩
  obtain rfl := Option.some.inj (show some _ = some s from hs)
  exact (command_cleaned_up_once true 3 none _ _ hs).2.1 trivial rfl rfl

end Machine

end CommandGuard
end Remote
end HelmSsh
