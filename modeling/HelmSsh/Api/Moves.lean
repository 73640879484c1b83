/-
# The steps of the API server's tasks

What a step of a task (`HelmSsh.Api.Server`) does, once for all invariants: the
events of the tasks make a few kinds of steps (`TaskMove`), each
with what the code has checked before it.  Most events just go on to another phase
(`TaskMove.go`), end the task with an error (`TaskMove.fail`) or mark its job
(`TaskMove.mark`); the others register, look up, remove or close something.

* `ApiState.taskMove_of_step` — each step is one of these.
-/

import HelmSsh.Api.Server

namespace HelmSsh
namespace Api
namespace ApiState

/-- The kinds of steps of the task `t` at `i`, with what the code has checked before
each of them. -/
inductive TaskMove (s : ApiState) (i : ℕ) (t : Task) : TaskEvent → ApiState → Prop
  /-- The task goes on; a request behind `accepted` has passed its access check. -/
  | go {e : TaskEvent} {phase : TaskPhase} (hfree : t.phase.isFree = true)
      (hplain : phase.isPlain = true) (hearly : phase.isEarly = true → t.phase.isEarly = true)
      (haccess : t.phase = .accepted → t.session ∈ s.allowed ∧ t.job = none) :
      TaskMove s i t e (s.goTo i t phase)
  /-- The task and its job end. -/
  | fail {e : TaskEvent} {f : JobRecord → JobRecord} (hfree : t.phase.isFree = true)
      (hext : ∀ r : JobRecord, r.Extends (f r)) (hterm : ∀ r, (f r).status.isTerminal = true) :
      TaskMove s i t e (s.endTask i t f)
  | mark {e : TaskEvent} {j : ℕ} {status : JobStatus} {phase : TaskPhase}
      (hfree : t.phase.isFree = true) (hjob : t.job = some j) (hplain : phase.isPlain = true) :
      TaskMove s i t e (s.markJob i t j (JobRecord.mark status) phase)
  | dial {dead : Bool} (hphase : t.phase = .verified) (hlock : s.LockFree t.session)
      (hnone : s.connectionOf t.session = none) :
      TaskMove s i t (.startConnect dead) (s.goTo i t .dialing)
  | replaceDead {c : Connection} (hphase : t.phase = .verified) (hlock : s.LockFree t.session)
      (hc : s.connectionOf t.session = some c) :
      TaskMove s i t (.startConnect true)
        ((s.removeConnection c.id).goTo i t (.closing c.id true))
  | register (hphase : t.phase = .dialing) :
      TaskMove s i t .register ((s.goTo i t .registered).addConnection t.session)
  | recheck {stillValid : Bool} (hphase : t.phase = .registered) :
      TaskMove s i t (.recheck stillValid)
        (s.goTo i t (if t.session ∈ s.allowed ∧ stillValid then .ready else .disconnecting))
  | lookup {c : Connection} (hphase : t.phase = .disconnecting)
      (hc : s.connectionOf t.session = some c) :
      TaskMove s i t .lookup (s.goTo i t (.removing c.id))
  | lookupNone (hphase : t.phase = .disconnecting) (hnone : s.connectionOf t.session = none) :
      TaskMove s i t .lookup (s.endTask i t .finishError)
  | remove {id : ℕ} (hphase : t.phase = .removing id) :
      TaskMove s i t .remove ((s.removeConnection id).goTo i t (.closing id false))
  | removeNone {id : ℕ} (hphase : t.phase = .removing id)
      (hnone : id ∉ s.connections.map Connection.id) :
      TaskMove s i t .remove (s.endTask i t .finishError)
  | closeAndRedial {id : ℕ} (hphase : t.phase = .closing id true) :
      TaskMove s i t .closeChildren ((s.cancelForwards id).goTo i t .dialing)
  | closeAndEnd {id : ℕ} (hphase : t.phase = .closing id false) :
      TaskMove s i t .closeChildren ((s.cancelForwards id).endTask i t .finishError)
  | startForward {c : Connection} {tunnel : String} (hphase : t.phase = .ready)
      (hc : s.connectionOf t.session = some c) :
      TaskMove s i t (.startForward tunnel) (s.goTo i t (.forwarding c.id tunnel))
  | registerForward {id : ℕ} {tunnel : String} (hphase : t.phase = .forwarding id tunnel)
      (hid : id ∈ s.connections.map Connection.id) :
      TaskMove s i t .registerForward
        { s.goTo i t (.forwarded tunnel) with
          forwards := s.forwards ++ [{ connection := id, session := t.session, tunnel := tunnel }] }
  | stopForwards {tunnel : String} (hphase : t.phase = .unforwarding tunnel) :
      TaskMove s i t .stopForwards
        { s.goTo i t .disconnecting with
          forwards := s.forwards.filter fun f => f.tunnel ≠ tunnel }
  | createJob (hphase : t.phase = .verified) (hjob : t.job = none) :
      TaskMove s i t .createJob
        { s.goTo i t (.created s.jobs.length) with jobs := s.jobs ++ [.new t.session] }
  | cancelJob {j : ℕ} (hphase : t.phase = .verified) (hjob : t.job = none) :
      TaskMove s i t (.cancelJob j)
        ((s.modifyJob j fun r => r.requestCancel.1).goTo i t .done)
  | spawnJob {j : ℕ} (hphase : t.phase = .created j) :
      TaskMove s i t .spawnJob
        { s with
          tasks := s.tasks.set i { t with phase := .spawned j s.tasks.length } ++
            [{ job := some j, session := t.session, generation := t.generation,
               phase := .accepted }] }
  | attachHandle {j k : ℕ} (hphase : t.phase = .spawned j k) :
      TaskMove s i t .attachHandle
        ((s.goTo i t .ready).modifyJob j fun r => { r with handle := some k })
  | drop (hjob : t.job = none) (hawaits : t.phase.awaits = true) :
      TaskMove s i t .drop (s.endTask i t .finishCanceled)
  | cancelSeen {j : ℕ} (hjob : t.job = some j) (hselects : t.phase.selectsCancel = true)
      (hcanceled : s.jobs[j]?.any JobRecord.canceled = true) :
      TaskMove s i t .cancelSeen (s.endTask i t .finishCanceled)
  | abort (hjob : t.job ≠ none) (hawaits : t.phase.awaits = true) :
      TaskMove s i t .abort (s.goTo i t .done)

variable {s s' : ApiState} {e : TaskEvent} {i : ℕ} {t : Task}

theorem endTask_of_request (hjob : t.job = none)
    (f : JobRecord → JobRecord) : s.endTask i t f = s.goTo i t .done := by
  rw [endTask, hjob]

/-- A task goes on from a phase that is known. -/
theorem TaskMove.goFrom {known phase : TaskPhase} (hphase : t.phase = known)
    (hfree : known.isFree = true) (hplain : phase.isPlain = true) (hlate : phase.isEarly = false)
    (hknown : known ≠ .accepted) : TaskMove s i t e (s.goTo i t phase) := by
  subst hphase
  refine .go hfree hplain (fun hearly => ?_) fun hacc => (hknown hacc).elim
  rw [hlate] at hearly
  cases hearly

/-- A task fails in a phase that is known. -/
theorem TaskMove.failFrom {known : TaskPhase} (hphase : t.phase = known)
    (hfree : known.isFree = true) : TaskMove s i t e (s.endTask i t .finishError) :=
  .fail (hphase ▸ hfree) JobRecord.extends_finishError JobRecord.finishError_terminal

theorem verify_move (h : s.taskStep i t .verify = some s') : TaskMove s i t .verify s' := by
  unfold taskStep at h
  dsimp only at h
  split_ifs at h with hphase hallowed <;> obtain rfl := Option.some.inj h
  · refine .go ?_ rfl (fun _ => ?_) fun hacc => ?_
    · rcases hphase with ⟨hphase, -⟩ | hphase <;> rw [hphase] <;> rfl
    · rcases hphase with ⟨hphase, -⟩ | hphase <;> rw [hphase] <;> rfl
    · rcases hphase with ⟨-, hjob⟩ | hphase
      · exact ⟨hallowed, hjob⟩
      · rw [hphase] at hacc
        cases hacc
  · rcases hphase with ⟨hphase, -⟩ | hphase <;> exact .failFrom hphase rfl

theorem startConnect_move {dead : Bool} (h : s.taskStep i t (.startConnect dead) = some s') :
    TaskMove s i t (.startConnect dead) s' := by
  unfold taskStep at h
  dsimp only at h
  split at h
  next hcond =>
    obtain ⟨hphase, hlock⟩ := hcond
    cases hc : s.connectionOf t.session with
    | none =>
      simp only [hc, Option.some.injEq] at h
      subst h
      exact .dial hphase hlock hc
    | some c =>
      cases dead <;> simp only [hc] at h <;> obtain rfl := Option.some.inj h
      · exact .goFrom hphase rfl rfl rfl nofun
      · exact .replaceDead hphase hlock hc
  · cases h

theorem recheck_move {stillValid : Bool} (h : s.taskStep i t (.recheck stillValid) = some s') :
    TaskMove s i t (.recheck stillValid) s' := by
  unfold taskStep at h
  dsimp only at h
  split_ifs at h with hphase hvalid <;> obtain rfl := Option.some.inj h
  · have hmove : TaskMove s i t (.recheck stillValid) _ := .recheck hphase
    rwa [if_pos hvalid] at hmove
  · have hmove : TaskMove s i t (.recheck stillValid) _ := .recheck hphase
    rwa [if_neg hvalid] at hmove

theorem closeChildren_move (h : s.taskStep i t .closeChildren = some s') :
    TaskMove s i t .closeChildren s' := by
  unfold taskStep at h
  dsimp only at h
  split at h
  next id hphase =>
    obtain rfl := Option.some.inj h
    exact .closeAndRedial hphase
  next id hphase =>
    obtain rfl := Option.some.inj h
    exact .closeAndEnd hphase
  · cases h

theorem startForward_move {tunnel : String} (h : s.taskStep i t (.startForward tunnel) = some s') :
    TaskMove s i t (.startForward tunnel) s' := by
  unfold taskStep at h
  dsimp only at h
  split_ifs at h with hcond
  obtain ⟨hphase, hjob⟩ := hcond
  cases hc : s.connectionOf t.session <;> simp only [hc, Option.some.injEq] at h <;> subst h
  · rw [← endTask_of_request hjob .finishError]
    exact .failFrom hphase rfl
  · exact .startForward hphase hc

theorem execDone_move {result : Option ExecResult}
    (h : s.taskStep i t (.execDone result) = some s') : TaskMove s i t (.execDone result) s' := by
  unfold taskStep at h
  dsimp only at h
  split_ifs at h with hphase
  cases result with
  | none =>
    obtain rfl := Option.some.inj h
    exact .failFrom hphase rfl
  | some result =>
    obtain rfl := Option.some.inj h
    exact .fail (by rw [hphase]; rfl) (JobRecord.extends_finishResult result)
      (JobRecord.finishResult_terminal result)

/-- **Each step of a task is one of these.** -/
theorem taskMove_of_step (h : s.taskStep i t e = some s') : TaskMove s i t e s' := by
  cases e with
  | verify => exact verify_move h
  | markConnecting =>
    unfold taskStep at h
    dsimp only at h
    split at h
    next j hjob hphase =>
      obtain rfl := Option.some.inj h
      exact .mark (by rw [hphase]; rfl) hjob rfl
    · cases h
  | startConnect => exact startConnect_move h
  | alreadyConnected | disconnect =>
    obtain ⟨hcond, rfl⟩ := Option.ite_some_none_eq_some.mp h
    exact .goFrom hcond.1 rfl rfl rfl nofun
  | dialFails =>
    obtain ⟨hphase, rfl⟩ := Option.ite_some_none_eq_some.mp h
    exact .failFrom hphase rfl
  | register =>
    obtain ⟨hphase, rfl⟩ := Option.ite_some_none_eq_some.mp h
    exact .register hphase
  | recheck => exact recheck_move h
  | lookup =>
    unfold taskStep at h
    dsimp only at h
    split_ifs at h with hphase
    cases hc : s.connectionOf t.session <;> simp only [hc, Option.some.injEq] at h <;> subst h
    · exact .lookupNone hphase hc
    · exact .lookup hphase hc
  | remove =>
    unfold taskStep at h
    dsimp only at h
    split at h
    next id hphase =>
      split_ifs at h with hmem <;> obtain rfl := Option.some.inj h
      · exact .remove hphase
      · exact .removeNone hphase hmem
    · cases h
  | closeChildren => exact closeChildren_move h
  | startForward => exact startForward_move h
  | registerForward =>
    unfold taskStep at h
    dsimp only at h
    split at h
    next id tunnel hphase =>
      split_ifs at h with hmem <;> obtain rfl := Option.some.inj h
      · exact .registerForward hphase hmem
      · exact .failFrom hphase rfl
    · cases h
  | reuseForward =>
    unfold taskStep at h
    dsimp only at h
    split at h
    next id tunnel hphase =>
      split_ifs at h
      obtain rfl := Option.some.inj h
      exact .goFrom hphase rfl rfl rfl nofun
    · cases h
  | recheckForward =>
    unfold taskStep at h
    dsimp only at h
    split at h
    next tunnel hphase =>
      split_ifs at h <;> obtain rfl := Option.some.inj h <;>
        exact .goFrom hphase rfl rfl rfl nofun
    · cases h
  | stopForwards =>
    unfold taskStep at h
    dsimp only at h
    split at h
    next tunnel hphase =>
      obtain rfl := Option.some.inj h
      exact .stopForwards hphase
    · cases h
  | createJob =>
    obtain ⟨hcond, rfl⟩ := Option.ite_some_none_eq_some.mp h
    exact .createJob hcond.1 hcond.2
  | createRefused | finish =>
    obtain ⟨hcond, rfl⟩ := Option.ite_some_none_eq_some.mp h
    rw [← endTask_of_request hcond.2 .finishError]
    exact .failFrom hcond.1 rfl
  | cancelJob j =>
    obtain ⟨hcond, rfl⟩ := Option.ite_some_none_eq_some.mp h
    exact .cancelJob hcond.1 hcond.2.1
  | spawnJob =>
    unfold taskStep at h
    dsimp only at h
    split at h
    next j hphase =>
      obtain rfl := Option.some.inj h
      exact .spawnJob hphase
    · cases h
  | attachHandle =>
    unfold taskStep at h
    dsimp only at h
    split at h
    next j k hphase =>
      obtain rfl := Option.some.inj h
      exact .attachHandle hphase
    · cases h
  | requestPermit =>
    unfold taskStep at h
    dsimp only at h
    split_ifs at h with hcond <;> obtain rfl := Option.some.inj h
    · exact .goFrom hcond.1 rfl rfl rfl nofun
    · exact .failFrom hcond.1 rfl
  | acquirePermit granted =>
    unfold taskStep at h
    dsimp only at h
    split at h
    next j hjob hphase =>
      split_ifs at h <;> obtain rfl := Option.some.inj h
      · exact .mark (by rw [hphase]; rfl) hjob rfl
      · exact .failFrom hphase rfl
    · cases h
  | execDone => exact execDone_move h
  | drop =>
    obtain ⟨hcond, rfl⟩ := Option.ite_some_none_eq_some.mp h
    rw [← endTask_of_request hcond.1 .finishCanceled]
    exact .drop hcond.1 hcond.2
  | cancelSeen =>
    unfold taskStep at h
    dsimp only at h
    split at h
    · cases h
    next j hjob =>
      split_ifs at h with hcond
      obtain rfl := Option.some.inj h
      exact .cancelSeen hjob hcond.1 hcond.2
  | abort =>
    obtain ⟨hcond, rfl⟩ := Option.ite_some_none_eq_some.mp h
    exact .abort hcond.1 hcond.2

theorem endTask_eq (s : ApiState) (i : ℕ) (t : Task) (f : JobRecord → JobRecord) :
    ∃ jobs, s.endTask i t f = { s.goTo i t .done with jobs := jobs } := by
  cases hjob : t.job with
  | none => exact ⟨s.jobs, by rw [endTask, hjob]; rfl⟩
  | some j => exact ⟨s.jobs.modify j f, by rw [endTask, hjob]; rfl⟩

theorem markJob_eq (s : ApiState) (i : ℕ) (t : Task) (j : ℕ) (mark : JobRecord → JobRecord × Bool)
    (phase : TaskPhase) :
    ∃ phase' jobs, s.markJob i t j mark phase = { s.goTo i t phase' with jobs := jobs } := by
  cases hr : s.jobs[j]? with
  | none => exact ⟨.done, s.jobs, by rw [markJob, hr]; rfl⟩
  | some r => exact ⟨_, _, by rw [markJob, hr]; rfl⟩

/-- **A step of a task leaves the cache as it is**, and changes the phase of the task,
besides the task that it may spawn. -/
theorem taskStep_frame (h : s.taskStep i t e = some s') :
    s'.allowed = s.allowed ∧ s'.generation = s.generation ∧
      ∃ phase, s'.tasks = s.tasks.set i { t with phase := phase } ∨
        ∃ j, t.phase = .created j ∧ s'.tasks = s.tasks.set i { t with phase := phase } ++
          [{ job := some j, session := t.session, generation := t.generation,
             phase := .accepted }] := by
  have hends : ∀ (s : ApiState) f, (s.endTask i t f).allowed = s.allowed ∧
      (s.endTask i t f).generation = s.generation ∧
      (s.endTask i t f).tasks = s.tasks.set i { t with phase := .done } := by
    intro s f
    obtain ⟨jobs, heq⟩ := s.endTask_eq i t f
    rw [heq]
    exact ⟨rfl, rfl, rfl⟩
  cases taskMove_of_step h with
  | fail | lookupNone | removeNone | closeAndEnd | drop | cancelSeen =>
    obtain ⟨hallowed, hgeneration, htasks⟩ := hends _ _
    exact ⟨hallowed, hgeneration, _, .inl htasks⟩
  | mark =>
    obtain ⟨phase', jobs, heq⟩ := s.markJob_eq i t _ (JobRecord.mark _) _
    rw [heq]
    exact ⟨rfl, rfl, _, .inl rfl⟩
  | spawnJob hphase => exact ⟨rfl, rfl, _, .inr ⟨_, hphase, rfl⟩⟩
  | _ => exact ⟨rfl, rfl, _, .inl rfl⟩

/-- Each task after a step has the session and the generation of an old one. -/
theorem taskStep_origin
    (ht : s.tasks[i]? = some t) (h : s.taskStep i t e = some s') {k : ℕ} {u : Task}
    (hu : s'.tasks[k]? = some u) :
    ∃ (l : ℕ) (v : Task), s.tasks[l]? = some v ∧ u.session = v.session ∧
      u.generation = v.generation := by
  have hset : ∀ phase, (s.tasks.set i { t with phase := phase })[k]? = some u →
      ∃ (l : ℕ) (v : Task), s.tasks[l]? = some v ∧ u.session = v.session ∧
        u.generation = v.generation := by
    intro phase hu
    rcases Pool.getElem?_set hu with ⟨-, rfl⟩ | ⟨-, hold⟩
    · exact ⟨i, t, ht, rfl, rfl⟩
    · exact ⟨k, u, hold, rfl, rfl⟩
  obtain ⟨-, -, phase, htasks | ⟨j, -, htasks⟩⟩ := taskStep_frame h
  · rw [htasks] at hu
    exact hset phase hu
  · rw [htasks] at hu
    rcases Pool.getElem?_add hu with ⟨-, rfl⟩ | hu
    · exact ⟨i, t, ht, rfl, rfl⟩
    · exact hset phase hu

theorem alive_of_taskStep (h : s.taskStep i t e = some s') : t.phase ≠ .done := by
  intro hdone
  cases taskMove_of_step h with
  | go hfree | fail hfree | mark hfree =>
    rw [hdone] at hfree
    cases hfree
  | drop _ hawaits | abort _ hawaits =>
    rw [hdone] at hawaits
    cases hawaits
  | cancelSeen _ hselects =>
    rw [hdone] at hselects
    cases hselects
  | dial hphase | replaceDead hphase | register hphase | recheck hphase | lookup hphase
  | lookupNone hphase | remove hphase | removeNone hphase | closeAndRedial hphase
  | closeAndEnd hphase | startForward hphase | registerForward hphase | stopForwards hphase
  | createJob hphase | cancelJob hphase | spawnJob hphase | attachHandle hphase =>
    rw [hdone] at hphase
    cases hphase

/-- The tasks stay, with their jobs, and the ones that have ended stay as they are. -/
theorem taskStep_keeps
    (ht : s.tasks[i]? = some t) (h : s.taskStep i t e = some s') {k : ℕ} {u : Task}
    (hu : s.tasks[k]? = some u) :
    ∃ u' : Task, s'.tasks[k]? = some u' ∧ u'.job = u.job ∧ (u.phase = .done → u' = u) := by
  have hset : ∀ phase, ∃ u' : Task, (s.tasks.set i { t with phase := phase })[k]? = some u' ∧
      u'.job = u.job ∧ (u.phase = .done → u' = u) := by
    intro phase
    by_cases hk : k = i
    · subst hk
      obtain rfl := Option.some.inj (ht.symm.trans hu)
      exact ⟨_, Pool.getElem?_set_self ht, rfl, fun hdone => (alive_of_taskStep h hdone).elim⟩
    · exact ⟨u, (List.getElem?_set_ne (fun hik => hk hik.symm)).trans hu, rfl, fun _ => rfl⟩
  obtain ⟨-, -, phase, htasks | ⟨j, -, htasks⟩⟩ := taskStep_frame h
  · rw [htasks]
    exact hset phase
  · obtain ⟨u', hu', hjob, hdone⟩ := hset phase
    rw [htasks]
    exact ⟨u', Pool.getElem?_add_left hu', hjob, hdone⟩

/-- Only `rest_jobs_create` creates a job. -/
theorem taskStep_length (h : s.taskStep i t e = some s') (hcreate : e ≠ .createJob) :
    s'.jobs.length = s.jobs.length := by
  have hends : ∀ (s : ApiState) f, (s.endTask i t f).jobs.length = s.jobs.length := by
    intro s f
    cases hjob : t.job with
    | none => rw [endTask_of_request hjob, goTo]
    | some j =>
      rw [endTask, hjob]
      exact List.length_modify _ _ _
  cases taskMove_of_step h with
  | fail | lookupNone | removeNone | drop | cancelSeen => exact hends s _
  | closeAndEnd => exact hends (s.cancelForwards _) _
  | @mark _ j =>
    cases hr : s.jobs[j]? with
    | none => rw [markJob, hr, goTo]
    | some r =>
      rw [markJob, hr]
      exact List.length_modify _ _ _
  | cancelJob | attachHandle => exact List.length_modify _ _ _
  | createJob => exact (hcreate rfl).elim
  | _ => rfl

end ApiState

end Api
end HelmSsh
